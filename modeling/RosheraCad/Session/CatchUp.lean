import RosheraCad.Library.KeyedFold
import RosheraCad.Library.Run
import RosheraCad.Session.Delta

/-!
# Catching up with a session

A client that was cut off asks for the deltas since the last one it has seen. A snapshot uses up a
sequence number, a compressed delta is out of reach, and a merged delta carries the number of its
last part.
-/

namespace RosheraCad

namespace Delta

open SessionDeltaStorage

/-! ## The manager as a system -/

section System

variable (P : Payloads)

/-- A manager, and what happened to its session. -/
structure ManagerState where
  storage : SessionDeltaStorage P
  trace : List (ℕ × SessionState P)

inductive ManagerStep
  | applyDelta (delta : SessionDelta P)
  | applyDeltasAtomic (deltas : List (SessionDelta P))
  | generateSnapshot (now : ℕ)
  | compactDeltas

end System

variable {P : Payloads} (hash : Hashes) (compress : SessionDelta P → Option Bytes)

def changeDecodes (P : Payloads) : String × Json → Bool
  | ("transform", value) => (P.transform.fromValue value).isSome
  | ("material", value) => (P.material.fromValue value).isSome
  | ("metadata", value) => (metadataCodec.fromValue value).isSome
  | _ => true

def ObjectDelta.decodes (d : ObjectDelta P) : Bool :=
  match d.deltaType, d.changes, d.transform with
  | .modified, some (.object entries), _ => entries.all (changeDecodes P)
  | .transformed, _, some value => (P.transform.fromValue value).isSome
  | _, _, _ => true

def SessionDelta.decodes (delta : SessionDelta P) : Bool :=
  delta.objectDeltas.all ObjectDelta.decodes &&
    delta.settingsChanges.all fun value ↦ (P.settings.fromValue value).isSome

def Increasing (trace : List (ℕ × SessionState P)) (deltas : List (SessionDelta P)) : Prop :=
  deltas.Pairwise (·.sequence < ·.sequence) ∧
    ∀ d ∈ deltas, ∀ e ∈ trace, e.1 < d.sequence

instance (trace : List (ℕ × SessionState P)) (deltas : List (SessionDelta P)) :
    Decidable (Increasing trace deltas) :=
  inferInstanceAs (Decidable (_ ∧ _))

def statesAfter : List (SessionDelta P) → SessionDeltaStorage P → List (ℕ × SessionState P)
  | [], _ => []
  | d :: deltas, s =>
    match addDelta compress d s with
    | .ok _ s' => (d.sequence, s'.currentState) :: statesAfter deltas s'
    | .error _ _ => []

namespace ManagerState

variable (s : ManagerState P)

/-- When a request may come in: deltas come with increasing numbers, and as they are computed. -/
def Enabled : ManagerStep P → Prop
  | .applyDelta delta => Increasing s.trace [delta] ∧ delta.decodes
  | .applyDeltasAtomic deltas => Increasing s.trace deltas
  | .generateSnapshot _ | .compactDeltas => True

instance (a : ManagerStep P) : Decidable (s.Enabled a) :=
  match a with
  | .applyDelta _ => inferInstanceAs (Decidable (_ ∧ _))
  | .applyDeltasAtomic deltas => inferInstanceAs (Decidable (Increasing s.trace deltas))
  | .generateSnapshot _ | .compactDeltas => isTrue trivial

def next : ManagerStep P → ManagerState P
  | .applyDelta delta =>
    match addDelta compress delta s.storage with
    | .ok _ storage => ⟨storage, s.trace ++ [(delta.sequence, storage.currentState)]⟩
    | .error _ storage => ⟨storage, s.trace⟩
  | .applyDeltasAtomic deltas =>
    match applyDeltasAtomic compress deltas s.storage with
    | .ok _ storage => ⟨storage, s.trace ++ statesAfter compress deltas s.storage⟩
    | .error _ storage => ⟨storage, s.trace⟩
  | .generateSnapshot now => { s with storage := (s.storage.generateSnapshot hash now).2 }
  | .compactDeltas => { s with storage := s.storage.compactDeltas compress }

end ManagerState

def managing (sessionId : Uuid) (initial : SessionState P) :
    GuardedSystem (ManagerState P) (ManagerStep P) where
  init := ⟨.new sessionId initial, [(0, initial)]⟩
  enabled := ManagerState.Enabled
  step := ManagerState.next hash compress

instance (sessionId : Uuid) (initial : SessionState P) (s : ManagerState P) (a : ManagerStep P) :
    Decidable ((managing hash compress sessionId initial).enabled s a) :=
  inferInstanceAs (Decidable (s.Enabled a))

/-! ## What catching up means -/

/-- Whoever holds the state right after an accepted delta gets to the current state with the deltas
since. -/
def CatchesUp (s : ManagerState P) : Prop :=
  ∀ e ∈ s.trace, ∀ tracker : DeltaTracker, tracker.sequence = e.1 →
    ∃ tracker', (s.storage.getDeltasSince e.1).forM applyDelta (tracker, e.2) =
      .ok () (tracker', s.storage.currentState)

/-- No snapshot has used up the first number, the deltas fit into memory, and all but the first
decode. -/
def GoesThrough (s : ManagerState P) (deltas : List (SessionDelta P)) : Prop :=
  (∀ d ∈ deltas, s.storage.tracker.sequence < d.sequence) ∧
    s.storage.deltas.length + deltas.length ≤ maxDeltasInMemory ∧ ∀ d ∈ deltas.tail, d.decodes

/-- The steps after which everybody can still catch up. -/
def KeepsAll (s : ManagerState P) : ManagerStep P → Prop
  | .applyDelta delta => GoesThrough s [delta]
  | .applyDeltasAtomic deltas => GoesThrough s deltas
  | .generateSnapshot _ => True
  | .compactDeltas => s.storage.deltas.length ≤ 10

instance (s : ManagerState P) (deltas : List (SessionDelta P)) :
    Decidable (GoesThrough s deltas) :=
  inferInstanceAs (Decidable (_ ∧ _ ∧ _))

instance (s : ManagerState P) (a : ManagerStep P) : Decidable (KeepsAll s a) :=
  match a with
  | .applyDelta delta => inferInstanceAs (Decidable (GoesThrough s [delta]))
  | .applyDeltasAtomic deltas => inferInstanceAs (Decidable (GoesThrough s deltas))
  | .generateSnapshot _ => isTrue trivial
  | .compactDeltas => inferInstanceAs (Decidable (_ ≤ _))

/-! ## Deltas that decode -/

theorem exists_forM_ok {σ ε α : Type} {act : α → EStateM ε σ Unit} {l : List α}
    (h : ∀ a ∈ l, ∀ s, ∃ s', act a s = .ok () s') (s : σ) : ∃ s', l.forM act s = .ok () s' := by
  induction l generalizing s with
  | nil => exact ⟨s, rfl⟩
  | cons a l ih =>
    obtain ⟨s₁, hact⟩ := h a List.mem_cons_self s
    obtain ⟨s₂, hrest⟩ := ih (fun b hb ↦ h b (List.mem_cons_of_mem _ hb)) s₁
    exact ⟨s₂, (EStateM.bind_eq_of_ok hact).trans hrest⟩

theorem exists_decode {σ α : Type} (codec : Codec α) {value : Json}
    (h : (codec.fromValue value).isSome) (s : σ) :
    ∃ a, decode codec value s = .ok a s := by
  obtain ⟨a, ha⟩ := Option.isSome_iff_exists.mp h
  refine ⟨a, ?_⟩
  rw [decode, ha]
  rfl

theorem exists_applyObjectChange {e : String × Json} (h : changeDecodes P e = true)
    (obj : CADObject P) : ∃ obj', applyObjectChange e obj = .ok () obj' := by
  unfold applyObjectChange
  split
  · exact ⟨_, rfl⟩
  · exact ⟨_, rfl⟩
  · exact ⟨_, rfl⟩
  · obtain ⟨a, ha⟩ := exists_decode P.transform h obj
    exact ⟨_, EStateM.bind_eq_of_ok ha⟩
  · obtain ⟨a, ha⟩ := exists_decode P.material h obj
    exact ⟨_, EStateM.bind_eq_of_ok ha⟩
  · obtain ⟨a, ha⟩ := exists_decode metadataCodec h obj
    exact ⟨_, EStateM.bind_eq_of_ok ha⟩
  · exact ⟨_, rfl⟩

theorem exists_onObject {id : ObjectId} {act : EStateM SessionError (CADObject P) Unit}
    (h : ∀ obj, ∃ obj', act obj = .ok () obj') (objects : OrderedMap ObjectId (CADObject P)) :
    ∃ objects', onObject id act objects = .ok () objects' := by
  rw [onObject]
  rcases objects[id]? with _ | obj
  · exact ⟨objects, rfl⟩
  · obtain ⟨obj', hact⟩ := h obj
    exact ⟨objects.insert id obj', by simp only [hact]⟩

theorem exists_applyObjectDelta {d : ObjectDelta P} (h : d.decodes = true)
    (objects : OrderedMap ObjectId (CADObject P)) :
    ∃ objects', applyObjectDelta d objects = .ok () objects' := by
  obtain ⟨id, deltaType, changes, object, transform⟩ := d
  rcases deltaType with _ | _ | _ | _
  · rcases object with _ | object <;> exact ⟨_, rfl⟩
  · rcases changes with _ | changes
    · exact ⟨_, rfl⟩
    · refine exists_onObject (fun obj ↦ ?_) objects
      rcases changes with _ | _ | _ | _ | _ | entries
      case object =>
        exact exists_forM_ok (fun e he ↦ exists_applyObjectChange (List.all_eq_true.mp h e he)) obj
      all_goals exact ⟨obj, rfl⟩
  · exact ⟨_, rfl⟩
  · rcases transform with _ | value
    · exact ⟨_, rfl⟩
    · refine exists_onObject (fun obj ↦ ?_) objects
      obtain ⟨a, ha⟩ := exists_decode P.transform h obj
      exact ⟨_, EStateM.bind_eq_of_ok ha⟩

theorem exists_applyParts {delta : SessionDelta P} (h : delta.decodes = true)
    (state : SessionState P) : ∃ state', applyParts delta state = .ok () state' := by
  rw [SessionDelta.decodes, Bool.and_eq_true] at h
  obtain ⟨objects', hobjects⟩ := exists_forM_ok
    (fun d hd ↦ exists_applyObjectDelta (List.all_eq_true.mp h.1 d hd)) state.objects
  have hsettings (t : SessionState P) :
      ∃ t', applySettingsChanges delta.settingsChanges t = .ok () t' := by
    rcases hvalue : delta.settingsChanges with _ | value
    · exact ⟨t, rfl⟩
    · rw [hvalue] at h
      obtain ⟨a, ha⟩ := exists_decode P.settings (Option.all_some ▸ h.2) t
      exact ⟨_, EStateM.bind_eq_of_ok ha⟩
  obtain ⟨t', ht⟩ := hsettings (applyUserChanges delta.userChanges
    (applyMetadataChanges delta.metadataChanges
      (applyTimelineDelta delta.timelineDelta { state with objects := objects' })))
  exact ⟨_, (EStateM.bind_eq_of_ok (onObjects_ok hobjects)).trans (EStateM.bind_eq_of_ok ht)⟩

/-! ## The invariant -/

/-- Everybody can catch up, and the tracker has counted as far as all that is kept. -/
structure Complete (s : ManagerState P) : Prop where
  /-- Everybody gets to the current state, counting no further than the manager. -/
  catchesUp : ∀ e ∈ s.trace, ∀ tracker : DeltaTracker, tracker.sequence = e.1 →
    ∃ tracker', (s.storage.getDeltasSince e.1).forM applyDelta (tracker, e.2) =
        .ok () (tracker', s.storage.currentState) ∧
      tracker'.sequence ≤ s.storage.tracker.sequence
  deltas : ∀ d ∈ s.storage.deltas, d.sequence ≤ s.storage.tracker.sequence
  trace : ∀ e ∈ s.trace, e.1 ≤ s.storage.tracker.sequence

section Steps

variable {hash compress} {s : ManagerState P} {delta : SessionDelta P}

theorem Complete.congr {s' : ManagerState P} (h : Complete s)
    (hdeltas : s'.storage.deltas = s.storage.deltas)
    (hstate : s'.storage.currentState = s.storage.currentState) (htrace : s'.trace = s.trace)
    (hsequence : s.storage.tracker.sequence ≤ s'.storage.tracker.sequence) : Complete s' := by
  refine ⟨fun e he tracker ht ↦ ?_, fun d hd ↦ ?_, fun e he ↦ ?_⟩
  · obtain ⟨tracker', hrun, hle⟩ := h.catchesUp e (htrace ▸ he) tracker ht
    refine ⟨tracker', ?_, hle.trans hsequence⟩
    rw [getDeltasSince, hdeltas, hstate]
    exact hrun
  · exact (h.deltas d (hdeltas ▸ hd)).trans hsequence
  · exact (h.trace e (htrace ▸ he)).trans hsequence

theorem addDelta_ok (compress : SessionDelta P → Option Bytes)
    {storage : SessionDeltaStorage P} {state' : SessionState P}
    (hsequence : storage.tracker.sequence < delta.sequence)
    (hroom : storage.deltas.length < maxDeltasInMemory)
    (happly : applyParts delta storage.currentState = .ok () state') :
    ∃ storage', addDelta compress delta storage = .ok () storage' ∧
      storage'.deltas = storage.deltas ++ [delta] ∧ storage'.currentState = state' ∧
      storage'.tracker.sequence = delta.sequence := by
  let applied : SessionDeltaStorage P :=
    { storage.count delta with
      tracker := { storage.tracker with sequence := delta.sequence }
      currentState := state' }
  refine ⟨applied.keep compress delta, ?_, ?_⟩
  · simp only [addDelta, count, applyDelta_of_lt hsequence happly]
    rfl
  · have hfits : ¬ maxDeltasInMemory < (storage.deltas ++ [delta]).length := by
      rw [List.length_append, List.length_singleton]
      exact Nat.not_lt.mpr hroom
    have hkeep : applied.keep compress delta =
        { applied with deltas := storage.deltas ++ [delta] }.dropOldest :=
      congrArg dropOldest (if_neg hfits)
    rw [hkeep]
    exact ⟨rfl, rfl, rfl⟩

/-- **One delta that goes through keeps the invariant.** -/
theorem Complete.add (h : Complete s) {storage' : SessionDeltaStorage P}
    {state' : SessionState P} (hsequence : s.storage.tracker.sequence < delta.sequence)
    (happly : applyParts delta s.storage.currentState = .ok () state')
    (hdeltas : storage'.deltas = s.storage.deltas ++ [delta])
    (hstate : storage'.currentState = state')
    (hcounter : storage'.tracker.sequence = delta.sequence) :
    Complete ⟨storage', s.trace ++ [(delta.sequence, storage'.currentState)]⟩ := by
  have hsince (n : ℕ) (hn : n < delta.sequence) :
      storage'.getDeltasSince n = s.storage.getDeltasSince n ++ [delta] := by
    rw [getDeltasSince, hdeltas, List.filter_append, List.filter_singleton,
      decide_eq_true hn]
    rfl
  refine ⟨fun e he tracker ht ↦ ?_, fun d hd ↦ ?_, fun e he ↦ ?_⟩
  · -- Who had a state of before needs one delta more.
    rcases List.mem_append.mp he with he | he
    · obtain ⟨tracker', hrun, hle⟩ := h.catchesUp e he tracker ht
      refine ⟨{ tracker' with sequence := delta.sequence }, ?_, hcounter.ge⟩
      rw [hsince e.1 ((h.trace e he).trans_lt hsequence), List.forM_eq_forM, List.forM_append]
      have hlast : applyDelta delta (tracker', s.storage.currentState) =
          .ok () ({ tracker' with sequence := delta.sequence }, storage'.currentState) := by
        rw [hstate]
        exact applyDelta_of_lt (hle.trans_lt hsequence) happly
      exact (EStateM.bind_eq_of_ok hrun).trans (EStateM.bind_eq_of_ok hlast)
    · -- The delta itself leaves nothing to catch up with.
      obtain rfl := List.mem_singleton.mp he
      refine ⟨tracker, ?_, (ht.trans hcounter.symm).le⟩
      have hnone : storage'.getDeltasSince delta.sequence = [] := by
        rw [getDeltasSince, List.filter_eq_nil_iff, hdeltas]
        intro d hd hlt
        rcases List.mem_append.mp hd with hd | hd
        · exact absurd (of_decide_eq_true hlt) (((h.deltas d hd).trans_lt hsequence).not_gt)
        · rw [List.mem_singleton.mp hd] at hlt
          exact lt_irrefl _ (of_decide_eq_true hlt)
      rw [hnone]
      rfl
  · rw [hdeltas] at hd
    rcases List.mem_append.mp hd with hd | hd
    · exact (h.deltas d hd).trans (hsequence.le.trans hcounter.ge)
    · rw [List.mem_singleton.mp hd]
      exact hcounter.ge
  · rcases List.mem_append.mp he with he | he
    · exact (h.trace e he).trans (hsequence.le.trans hcounter.ge)
    · rw [List.mem_singleton.mp he]
      exact hcounter.ge

/-- **A batch that goes through keeps the invariant**, by induction on the batch. -/
theorem Complete.addAll (compress : SessionDelta P → Option Bytes)
    {deltas : List (SessionDelta P)} {storage : SessionDeltaStorage P}
    {trace : List (ℕ × SessionState P)} (h : Complete ⟨storage, trace⟩)
    (hincreasing : deltas.Pairwise (·.sequence < ·.sequence))
    (hsequence : ∀ d ∈ deltas, storage.tracker.sequence < d.sequence)
    (hroom : storage.deltas.length + deltas.length ≤ maxDeltasInMemory)
    (hhead : ∀ d ∈ deltas.head?, ∃ state', applyParts d storage.currentState = .ok () state')
    (htail : ∀ d ∈ deltas.tail, d.decodes) :
    ∃ storage', deltas.forM (addDelta compress) storage = .ok () storage' ∧
      Complete ⟨storage', trace ++ statesAfter compress deltas storage⟩ := by
  induction deltas generalizing storage trace with
  | nil => exact ⟨storage, rfl, by rwa [statesAfter, List.append_nil]⟩
  | cons d deltas ih =>
    obtain ⟨state', happly⟩ := hhead d rfl
    obtain ⟨hfirst, hincreasing⟩ := List.pairwise_cons.mp hincreasing
    rw [List.length_cons] at hroom
    obtain ⟨storage₁, hadd, hdeltas, hstate, hcounter⟩ :=
      addDelta_ok compress (hsequence d List.mem_cons_self) (by omega) happly
    have h₁ := h.add (hsequence d List.mem_cons_self) happly hdeltas hstate hcounter
    have hroom₁ : storage₁.deltas.length + deltas.length ≤ maxDeltasInMemory := by
      rw [hdeltas, List.length_append, List.length_singleton]
      omega
    obtain ⟨storage₂, hrest, h₂⟩ := ih h₁ hincreasing (fun d' hd' ↦ hcounter ▸ hfirst d' hd') hroom₁
      (fun d' hd' ↦ exists_applyParts (htail d' (List.mem_of_mem_head? hd')) _)
      fun d' hd' ↦ htail d' (List.mem_of_mem_tail hd')
    refine ⟨storage₂, (EStateM.bind_eq_of_ok hadd).trans hrest, ?_⟩
    rw [statesAfter, hadd]
    rwa [List.append_assoc, List.singleton_append] at h₂

/-- **One step keeps the invariant.** -/
theorem Complete.step (h : Complete s) {a : ManagerStep P} (henabled : s.Enabled a)
    (hkeeps : KeepsAll s a) : Complete (s.next hash compress a) := by
  rcases a with delta | deltas | now | _
  · obtain ⟨hsequence, hroom, -⟩ := hkeeps
    have hlt := hsequence delta (List.mem_singleton.mpr rfl)
    obtain ⟨state', happly⟩ := exists_applyParts henabled.2 s.storage.currentState
    obtain ⟨storage', hadd, hdeltas, hstate, hcounter⟩ :=
      addDelta_ok compress hlt hroom happly
    simp only [ManagerState.next, hadd]
    exact h.add hlt happly hdeltas hstate hcounter
  · obtain ⟨hsequence, hroom, htail⟩ := hkeeps
    by_cases hhead : ∀ d ∈ deltas.head?, ∃ state',
      applyParts d s.storage.currentState = .ok () state'
    · obtain ⟨storage', hrun, hcomplete⟩ :=
        h.addAll compress henabled.1 hsequence hroom hhead htail
      have hatomic : applyDeltasAtomic compress deltas s.storage = .ok () storage' := by
        simp only [applyDeltasAtomic, hrun]
      simp only [ManagerState.next, hatomic]
      exact hcomplete
    · -- The first delta fails, and nothing of it stays.
      push Not at hhead
      obtain ⟨d, hd, hfails⟩ := hhead
      obtain ⟨rest, rfl⟩ : ∃ rest, deltas = d :: rest := List.head?_eq_some_iff.mp hd
      rcases happly : applyParts d s.storage.currentState with ⟨_, state'⟩ | ⟨e, state'⟩
      · exact absurd happly (hfails state')
      have hdelta : applyDelta d (s.storage.tracker, s.storage.currentState) =
          .error e (s.storage.tracker, state') := by
        simp only [applyDelta, if_neg (Nat.not_le.mpr (hsequence d List.mem_cons_self)), happly]
      have hatomic : applyDeltasAtomic compress (d :: rest) s.storage =
          .error e (s.storage.count d) := by
        have hrun : (d :: rest).forM (addDelta compress) s.storage =
            .error e { s.storage.count d with currentState := state' } := by
          change EStateM.bind (addDelta compress d) (fun _ ↦ rest.forM (addDelta compress))
            s.storage = _
          have hadd : addDelta compress d s.storage =
              .error e { s.storage.count d with currentState := state' } := by
            simp only [addDelta, count, hdelta]
          rw [EStateM.bind, hadd]
        simp only [applyDeltasAtomic, hrun]
        rfl
      simp only [ManagerState.next, hatomic]
      exact h.congr rfl rfl rfl le_rfl
  · exact h.congr rfl rfl rfl (Nat.le_succ _)
  · -- So few deltas are kept that none is compressed.
    have hfew : s.storage.deltas.length ≤ 10 := hkeeps
    have hsame : s.storage.compactDeltas compress = s.storage := by
      have hnone : s.storage.deltas.length - maxDeltasInMemory / 2 = 0 :=
        Nat.sub_eq_zero_of_le (hfew.trans (by decide))
      simp only [compactDeltas, if_neg (Nat.not_lt.mpr hfew), hnone, Function.iterate_zero, id]
    simp only [ManagerState.next, hsame]
    exact h

theorem Complete.init (sessionId : Uuid) (initial : SessionState P) :
    Complete (managing hash compress sessionId initial).init := by
  refine ⟨fun e he tracker ht ↦ ?_, fun d hd ↦ absurd hd List.not_mem_nil, fun e he ↦ ?_⟩
  · obtain rfl := List.mem_singleton.mp he
    exact ⟨tracker, rfl, ht.le⟩
  · obtain rfl := List.mem_singleton.mp he
    exact le_rfl

end Steps

/-- **Everybody can catch up** in every run in which each delta goes through and nothing is
merged. -/
theorem catchesUp_of_keepsAll (hash : Hashes) (compress : SessionDelta P → Option Bytes)
    (sessionId : Uuid) (initial : SessionState P) (s : ManagerState P)
    (h : (managing hash compress sessionId initial).ReachableUnder KeepsAll s) : CatchesUp s := by
  have hcomplete : Complete s := h.invariant Complete (Complete.init sessionId initial)
    fun _ _ _ hinv henabled hkeeps ↦ hinv.step henabled hkeeps
  intro e he tracker ht
  obtain ⟨tracker', hrun, -⟩ := hcomplete.catchesUp e he tracker ht
  exact ⟨tracker', hrun⟩

/-! ## Examples -/

private def natCodec : Codec ℕ := ⟨fun n ↦ .number (.posInt n), Json.asU64?, Json.asU64?_posInt⟩

private abbrev counting : Payloads := ⟨ℕ, ℕ, ℕ, ℕ, ℕ, ℕ, ℕ, natCodec, natCodec, natCodec⟩

/-- A session without content. -/
private def blank : SessionState counting := ⟨∅, [], 0, 0, [], 0, ∅⟩

private def setting (sequence : ℕ) : SessionDelta counting :=
  ⟨0, sequence, 0, [], none, none, none, some (.number (.posInt sequence))⟩

private def zeroHashes : Hashes := ⟨fun _ ↦ 0, fun _ ↦ 0⟩

/-- A delta, a batch, a snapshot, and the delta after the number it used up. -/
private def keeping : List (ManagerStep counting) :=
  [.applyDelta (setting 1), .applyDeltasAtomic [setting 2, setting 3], .generateSnapshot 0,
    .compactDeltas, .applyDelta (setting 5)]

private def losing : List (ManagerStep counting) := [.generateSnapshot 0, .applyDelta (setting 1)]

/-- Everybody gets from any of the deltas to the last one. -/
theorem catchesUp_keeping :
    CatchesUp ((managing zeroHashes (fun _ ↦ none) 0 blank).run
      (managing zeroHashes (fun _ ↦ none) 0 blank).init keeping) := by
  refine catchesUp_of_keepsAll _ _ _ _ _ (GuardedSystem.ReachableUnder.init.run ?_)
  decide +kernel

/-- **A client gets ahead of the manager**, whose tracker has skipped the delta it accepted. -/
theorem not_catchesUp_losing :
    ¬ ∀ (P : Payloads) (hash : Hashes) (compress : SessionDelta P → Option Bytes)
      (sessionId : Uuid) (initial : SessionState P) (s : ManagerState P),
      (managing hash compress sessionId initial).Reachable s → CatchesUp s := by
  intro h
  have hreachable : (managing zeroHashes (fun _ ↦ none) 0 blank).Reachable
      ((managing zeroHashes (fun _ ↦ none) 0 blank).run
        (managing zeroHashes (fun _ ↦ none) 0 blank).init losing) := by
    refine GuardedSystem.ReachableUnder.init.run
      ⟨trivial, trivial, ⟨⟨?_, ?_⟩, rfl⟩, trivial, trivial⟩
    · exact List.pairwise_singleton ..
    · intro d hd e he
      obtain rfl := List.mem_singleton.mp hd
      obtain rfl := List.mem_singleton.mp he
      exact Nat.one_pos
  obtain ⟨tracker', hrun⟩ := h _ _ _ _ _ _ hreachable (0, blank) List.mem_cons_self (.new 0) rfl
  have hsettings : (1 : ℕ) = 0 := congrArg (fun r : EStateM.Result SessionError
      (DeltaTracker × SessionState counting) Unit ↦
    match r with
    | .ok _ s => s.2.settings
    | .error _ s => s.2.settings) hrun
  exact absurd hsettings Nat.one_ne_zero

end Delta

end RosheraCad
