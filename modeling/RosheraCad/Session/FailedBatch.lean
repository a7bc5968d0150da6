import Mathlib.Order.MinMax
import RosheraCad.Library.KeyedFold
import RosheraCad.Session.Delta

/-!
# A batch that fails

When a delta of a batch does not apply, the manager takes back the session state, and nothing else.
The deltas before it stay in memory, the tracker has counted them, and the statistics have counted
the failing one too.
-/

namespace RosheraCad

namespace Delta

namespace SessionDeltaStorage

variable {P : Payloads} (compress : SessionDelta P → Option Bytes)

/-- A batch that fails leaves the storage as before, for the batches after it. -/
def LeavesAsBefore (deltas : List (SessionDelta P)) (s : SessionDeltaStorage P) : Prop :=
  ∀ e s', applyDeltasAtomic compress deltas s = .error e s' →
    s' = s ∧ ∀ retry, applyDeltasAtomic compress retry s' = applyDeltasAtomic compress retry s

variable {compress} {delta : SessionDelta P} {deltas : List (SessionDelta P)}
  {s s' : SessionDeltaStorage P} {e : SessionError}

/-! ## One delta -/

theorem keep_stats_totalDeltas (s : SessionDeltaStorage P) (delta : SessionDelta P) :
    (s.keep compress delta).stats.totalDeltas = s.stats.totalDeltas := by
  rw [keep, dropOldest]
  split
  · rw [compressOldest]
    split
    · rfl
    · split <;> rfl
  · rfl

theorem keep_tracker (s : SessionDeltaStorage P) (delta : SessionDelta P) :
    (s.keep compress delta).tracker = s.tracker := by
  rw [keep, dropOldest]
  split
  · rw [compressOldest]
    split
    · rfl
    · split <;> rfl
  · rfl

theorem addDelta_eq_ok (h : addDelta compress delta s = .ok () s') :
    s'.stats.totalDeltas = s.stats.totalDeltas + 1 ∧
      s'.tracker.sequence = max s.tracker.sequence delta.sequence := by
  simp only [addDelta, applyDelta] at h
  split at h
  next hok =>
    cases h
    rw [keep_stats_totalDeltas, keep_tracker]
    refine ⟨rfl, ?_⟩
    split at hok
    next hle =>
      cases hok
      exact (max_eq_left hle).symm
    next hlt =>
      split at hok
      · cases hok
        exact (max_eq_right (Nat.le_of_not_le hlt)).symm
      · cases hok
  next => cases h

theorem addDelta_eq_error (h : addDelta compress delta s = .error e s') :
    s.tracker.sequence < delta.sequence ∧ ∃ state,
      applyParts delta s.currentState = .error e state ∧
        s' = { s.count delta with currentState := state } := by
  simp only [addDelta, applyDelta] at h
  split at h
  next => cases h
  next herror =>
    cases h
    split at herror
    next => cases herror
    next hlt =>
      split at herror
      next => cases herror
      next state hparts =>
        cases herror
        exact ⟨Nat.lt_of_not_le hlt, _, hparts, rfl⟩

/-! ## A batch -/

/-- **What a batch that fails leaves**: all the deltas before the failing one did, but the session
state. -/
theorem applyDeltasAtomic_eq_error (h : applyDeltasAtomic compress deltas s = .error e s') :
    ∃ before delta after t, deltas = before ++ delta :: after ∧
      before.forM (addDelta compress) s = .ok () t ∧ t.tracker.sequence < delta.sequence ∧
      (∃ state, applyParts delta t.currentState = .error e state) ∧
      s' = { t.count delta with currentState := s.currentState } := by
  simp only [applyDeltasAtomic] at h
  split at h
  next => cases h
  next t' hrun =>
    obtain ⟨before, delta, after, t, hsplit, hbefore, herror⟩ :=
      EStateM.exists_of_forM_eq_error hrun
    obtain ⟨hlt, state, hparts, rfl⟩ := addDelta_eq_error herror
    cases h
    exact ⟨before, delta, after, t, hsplit, hbefore, hlt, ⟨state, hparts⟩, rfl⟩

def endsWith : EStateM.Result SessionError (SessionDeltaStorage P) Unit → SessionDeltaStorage P
  | .ok _ s => s
  | .error _ s => s

def wentThrough : EStateM.Result SessionError (SessionDeltaStorage P) Unit → Bool
  | .ok _ _ => true
  | .error _ _ => false

/-- Two passes that end alike, as far as the outcome, the count and the counter tell. -/
def EndAlike (r r' : EStateM.Result SessionError (SessionDeltaStorage P) Unit) : Prop :=
  wentThrough r = wentThrough r' ∧
    (endsWith r).stats.totalDeltas = (endsWith r').stats.totalDeltas ∧
      (endsWith r).tracker.sequence = (endsWith r').tracker.sequence

theorem forM_cons_of_ok (h : addDelta compress delta s = .ok () s') :
    (delta :: deltas).forM (addDelta compress) s = deltas.forM (addDelta compress) s' :=
  EStateM.bind_eq_of_ok h

theorem forM_cons_of_error (h : addDelta compress delta s = .error e s') :
    (delta :: deltas).forM (addDelta compress) s = .error e s' := by
  change EStateM.bind (addDelta compress delta) _ s = _
  rw [EStateM.bind, h]

theorem le_endsWith (compress : SessionDelta P → Option Bytes) (deltas : List (SessionDelta P))
    (s : SessionDeltaStorage P) :
    s.stats.totalDeltas ≤ (endsWith (deltas.forM (addDelta compress) s)).stats.totalDeltas ∧
      s.tracker.sequence ≤ (endsWith (deltas.forM (addDelta compress) s)).tracker.sequence := by
  induction deltas generalizing s with
  | nil => exact ⟨le_rfl, le_rfl⟩
  | cons delta deltas ih =>
    rcases hadd : addDelta compress delta s with ⟨_, t⟩ | ⟨e, t⟩
    · obtain ⟨htotal, hsequence⟩ := addDelta_eq_ok hadd
      rw [forM_cons_of_ok hadd]
      refine ⟨le_trans ?_ (ih t).1, le_trans ?_ (ih t).2⟩
      · rw [htotal]
        exact Nat.le_succ _
      · rw [hsequence]
        exact le_max_left ..
    · obtain ⟨-, state, -, rfl⟩ := addDelta_eq_error hadd
      rw [forM_cons_of_error hadd]
      exact ⟨Nat.le_succ _, le_rfl⟩

theorem not_endAlike (deltas : List (SessionDelta P)) {a b : SessionDeltaStorage P}
    (htotal : a.stats.totalDeltas < b.stats.totalDeltas)
    (hsequence : a.tracker.sequence ≤ b.tracker.sequence) :
    ¬ EndAlike (deltas.forM (addDelta compress) a) (deltas.forM (addDelta compress) b) := by
  induction deltas generalizing a b with
  | nil => exact fun h ↦ htotal.ne h.2.1
  | cons delta deltas ih =>
    rcases ha : addDelta compress delta a with ⟨_, a'⟩ | ⟨e, a'⟩
    · obtain ⟨htotal', hsequence'⟩ := addDelta_eq_ok ha
      rcases hb : addDelta compress delta b with ⟨_, b'⟩ | ⟨e, b'⟩
      · obtain ⟨htotal'', hsequence''⟩ := addDelta_eq_ok hb
        rw [forM_cons_of_ok ha, forM_cons_of_ok hb]
        refine ih ?_ ?_
        · rw [htotal', htotal'']
          exact Nat.succ_lt_succ htotal
        · rw [hsequence', hsequence'']
          exact max_le_max hsequence le_rfl
      · -- The first storage counts a delta that is above the second one's counter.
        obtain ⟨hlt, state, -, rfl⟩ := addDelta_eq_error hb
        rw [forM_cons_of_ok ha, forM_cons_of_error hb]
        rintro ⟨-, -, hsame⟩
        have hle := (le_endsWith compress deltas a').2
        rw [hsame, hsequence'] at hle
        exact absurd ((le_max_right _ _).trans hle) hlt.not_ge
    · obtain ⟨-, state, -, rfl⟩ := addDelta_eq_error ha
      rw [forM_cons_of_error ha]
      rcases hb : addDelta compress delta b with ⟨_, b'⟩ | ⟨e', b'⟩
      · -- The second storage has counted as many deltas and more.
        obtain ⟨htotal'', -⟩ := addDelta_eq_ok hb
        rw [forM_cons_of_ok hb]
        rintro ⟨-, hsame, -⟩
        have hle := (le_endsWith compress deltas b').1
        rw [← hsame, htotal''] at hle
        exact absurd hle (Nat.succ_lt_succ htotal).not_ge
      · obtain ⟨-, state', -, rfl⟩ := addDelta_eq_error hb
        rw [forM_cons_of_error hb]
        exact fun h ↦ (Nat.succ_lt_succ htotal).ne h.2.1

/-- Going back to the original state changes neither the outcome nor the counts. -/
theorem endAlike_applyDeltasAtomic (compress : SessionDelta P → Option Bytes)
    (deltas : List (SessionDelta P)) (s : SessionDeltaStorage P) :
    EndAlike (applyDeltasAtomic compress deltas s) (deltas.forM (addDelta compress) s) := by
  rw [applyDeltasAtomic]
  split
  next h =>
    rw [h]
    exact ⟨rfl, rfl, rfl⟩
  next h =>
    rw [h]
    exact ⟨rfl, rfl, rfl⟩

/-- **No batch that fails leaves the storage as before**, and what is sent after it leads elsewhere.
-/
theorem applyDeltasAtomic_leavesTrace (h : applyDeltasAtomic compress deltas s = .error e s') :
    s' ≠ s ∧
      ∀ retry, applyDeltasAtomic compress retry s' ≠ applyDeltasAtomic compress retry s := by
  obtain ⟨before, delta, after, t, -, hbefore, -, -, rfl⟩ := applyDeltasAtomic_eq_error h
  obtain ⟨htotal, hsequence⟩ := le_endsWith compress before s
  rw [hbefore] at htotal hsequence
  have hcounted : s.stats.totalDeltas < t.stats.totalDeltas + 1 := Nat.lt_succ_of_le htotal
  refine ⟨fun hsame ↦ ?_, fun retry hsame ↦ ?_⟩
  · exact hcounted.ne' (congrArg (·.stats.totalDeltas) hsame)
  · obtain ⟨h₁, h₂, h₃⟩ := endAlike_applyDeltasAtomic compress retry s
    obtain ⟨h₁', h₂', h₃'⟩ := endAlike_applyDeltasAtomic compress retry
      { t.count delta with currentState := s.currentState }
    rw [hsame] at h₁' h₂' h₃'
    have hdiffer : ¬ EndAlike (retry.forM (addDelta compress) s)
        (retry.forM (addDelta compress) { t.count delta with currentState := s.currentState }) :=
      not_endAlike retry hcounted hsequence
    exact hdiffer ⟨h₁.symm.trans h₁', h₂.symm.trans h₂', h₃.symm.trans h₃'⟩

/-! ## An example -/

def dialCodec : Codec ℕ :=
  ⟨fun n ↦ .number (.posInt n), Json.asU64?, Json.asU64?_posInt⟩

abbrev dial : Payloads := ⟨ℕ, ℕ, ℕ, ℕ, ℕ, ℕ, ℕ, dialCodec, dialCodec, dialCodec⟩

def turn (sequence : ℕ) (value : Json) : SessionDelta dial :=
  ⟨0, sequence, 0, [], none, none, none, some value⟩

/-- Storage in which nothing has happened. -/
def untouched : SessionDeltaStorage dial := .new 0 ⟨∅, [], 0, 0, [], 0, ∅⟩

/-- A delta that applies, and one whose settings are no number. -/
def failing : List (SessionDelta dial) := [turn 1 (.number (.posInt 7)), turn 2 .null]

/-- The failed batch leaves a trace, and so does whatever is sent after it. -/
theorem applyDeltasAtomic_leavesTrace_turn : ∃ s',
    applyDeltasAtomic (fun _ ↦ none) failing untouched = .error .persistenceError s' ∧
      s' ≠ untouched ∧ ∀ retry, applyDeltasAtomic (fun _ ↦ none) retry s' ≠
        applyDeltasAtomic (fun _ ↦ none) retry untouched := by
  obtain ⟨s', hrun⟩ : ∃ s', applyDeltasAtomic (fun _ ↦ none) failing untouched =
      .error .persistenceError s' := ⟨_, rfl⟩
  exact ⟨s', hrun, applyDeltasAtomic_leavesTrace hrun⟩

/-- **The tracker is not taken back**: it skips the delta that went through when it is sent again.
-/
theorem not_leavesAsBefore_turn :
    ¬ ∀ (P : Payloads) (compress : SessionDelta P → Option Bytes) (deltas : List (SessionDelta P))
      (s : SessionDeltaStorage P), LeavesAsBefore compress deltas s := by
  intro h
  obtain ⟨s', hrun, hcounted⟩ : ∃ s', applyDeltasAtomic (fun _ ↦ none) failing untouched =
      .error .persistenceError s' ∧ s'.tracker.sequence = 1 := ⟨_, rfl, rfl⟩
  have hsame : s' = untouched := (h dial (fun _ ↦ none) failing untouched _ _ hrun).1
  rw [hsame] at hcounted
  exact absurd hcounted Nat.zero_ne_one

end SessionDeltaStorage

end Delta

end RosheraCad
