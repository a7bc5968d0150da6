import RosheraCad.Mcp.Dispatch
import Mathlib.Data.Finset.Card

/-!
# The budget of single points

Two counters are kept for each sketch: the single points added in a row and those added in total.
The total holds on every path. The outer record of `invoke` clears the run, so points placed through
`invoke` are never counted to more than one.
-/

namespace RosheraCad

namespace Gates

/-! ## Dispatches to the end -/

/-- A call with what would happen if the session state lets it pass. -/
structure Attempt where
  call : Call
  live : Option (String × List (String × Json))
  result : ToolResult

/-- What a call came to. -/
structure Outcome where
  session : Session
  result : ToolResult
  ran : Bool

def dispatch (rt : Runtime) (session : Session) (turn : ℕ) (a : Attempt) : Outcome :=
  let record (result : ToolResult) (ran : Bool) : Outcome :=
    ⟨recordDispatchOutcome rt session a.call.tool a.call.args result turn, result, ran⟩
  match preDispatchGate rt session a.call.tool a.call.args with
  | .refuse refusal => record refusal false
  | .proceed _ => record a.result true
  | .fetch =>
    match a.live with
    | some (gate, payload) => record (namedRefusal rt gate payload) false
    | none => record a.result true

/-- The dispatch of `invoke`, whose handler dispatches a tool and answers what it was answered. -/
def invoke (rt : Runtime) (session : Session) (turn : ℕ) (args : Json) (a : Attempt) : Outcome :=
  match preDispatchGate rt session "invoke" args with
  | .refuse refusal =>
    ⟨recordDispatchOutcome rt session "invoke" args refusal turn, refusal, false⟩
  | _ =>
    let inner := dispatch rt session (turn + 1) a
    ⟨recordDispatchOutcome rt inner.session "invoke" args inner.result turn, inner.result,
      inner.ran⟩

inductive Dispatched
  | direct (a : Attempt)
  | invoked (args : Json) (a : Attempt)

def Dispatched.attempt : Dispatched → Attempt
  | .direct a => a
  | .invoked _ a => a

/-! ## Sessions -/

/-- What a completed call did about single points. -/
structure Logged where
  point : Option String
  added : Bool

/-- A session and its calls, the latest first. -/
structure PointState where
  session : Session
  turn : ℕ
  log : List Logged

/-- What the next call comes to. -/
def PointState.complete (rt : Runtime) (s : PointState) : Dispatched → Outcome
  | .direct a => dispatch rt s.session (s.turn + 1) a
  | .invoked args a => invoke rt s.session (s.turn + 1) args a

/-- Complete one call; `invoke` takes a turn of its own. -/
def PointState.next (rt : Runtime) (s : PointState) (d : Dispatched) : PointState :=
  let outcome := s.complete rt d
  { session := outcome.session
    turn := match d with
      | .direct _ => s.turn + 1
      | .invoked _ _ => s.turn + 2
    log := ⟨singlePointKey d.attempt.call.tool d.attempt.call.args,
      outcome.ran && !outcome.result.isError⟩ :: s.log }

def completing (rt : Runtime) : GuardedSystem PointState Dispatched where
  init := ⟨Session.new, 0, []⟩
  enabled _ _ := True
  step := PointState.next rt

def Logged.adds (e : Logged) (key : String) : Bool := e.point = some key && e.added

/-- The points added to a sketch since the last call that is no single-point addition. -/
def runOf (log : List Logged) (key : String) : ℕ :=
  (log.takeWhile fun e ↦ e.point.isSome).countP (·.adds key)

/-- All points added to a sketch. -/
def totalOf (log : List Logged) (key : String) : ℕ := log.countP (·.adds key)

/-- The sketches single points were added to, or were to be added to. -/
def sketchesOf (log : List Logged) : Finset String := (log.filterMap Logged.point).toFinset

/-- **The budget**: no sketch has more points in a row, or in total, than is allowed. -/
def InBudget (log : List Logged) : Prop :=
  (∀ key, runOf log key ≤ singlePointRunMax) ∧
    ∀ key, totalOf log key ≤ singlePointCumulativeMax

/-- No single point goes through `invoke`, and none is called for while sixty-four sketches have a
run. -/
def RunsKept (s : PointState) : Dispatched → Prop
  | .direct a => (singlePointKey a.call.tool a.call.args).isSome = true →
      s.session.pointRuns.length < 64
  | .invoked _ a => singlePointKey a.call.tool a.call.args = none

instance (s : PointState) : DecidablePred (RunsKept s)
  | .direct _ => inferInstanceAs (Decidable (_ → _))
  | .invoked _ _ => inferInstanceAs (Decidable (_ = _))

/-! ## Counters -/

section Counters

variable {α : Type} {map : List (String × α)} {key k : String} {value : α}

theorem lookup_cons_if {k' : String} :
    ((k', value) :: map).lookup k = if k = k' then some value else map.lookup k := by
  rw [List.lookup_cons]
  by_cases h : k = k'
  · subst h
    simp
  · rw [beq_eq_false_iff_ne.mpr h, if_neg h]

theorem lookup_replace :
    (map.map fun e ↦ if e.1 = key then (key, value) else e).lookup k =
      if k = key then (map.lookup key).map fun _ ↦ value else map.lookup k := by
  induction map with
  | nil => simp
  | cons e map ih =>
    obtain ⟨k', v⟩ := e
    rw [List.map_cons, lookup_cons_if, lookup_cons_if]
    by_cases hk' : k' = key
    · subst hk'
      rw [if_pos rfl, if_pos rfl, lookup_cons_if, ih]
      by_cases hk : k = k' <;> simp [hk]
    · rw [if_neg hk', if_neg (Ne.symm hk'), lookup_cons_if, ih]
      by_cases hk : k = k'
      · subst hk
        simp [hk']
      · simp [hk]

@[simp] theorem lookup_mapSet : (mapSet map key value).lookup k =
    if k = key then some value else map.lookup k := by
  rw [mapSet]
  split
  · next h =>
    obtain ⟨v, hv⟩ := Option.isSome_iff_exists.mp h
    rw [lookup_replace, hv, Option.map_some]
  · next h =>
    rw [Bool.not_eq_true, Option.isSome_eq_false_iff, Option.isNone_iff_eq_none] at h
    rw [List.lookup_append, lookup_cons_if, List.lookup_nil]
    by_cases hk : k = key
    · subst hk
      simp [h]
    · simp [hk]

theorem nodup_mapSet (h : (map.map Prod.fst).Nodup) :
    ((mapSet map key value).map Prod.fst).Nodup := by
  rw [mapSet]
  split
  · have hkeys : (map.map fun e ↦ if e.1 = key then (key, value) else e).map Prod.fst =
        map.map Prod.fst := by
      rw [List.map_map]
      refine List.map_congr_left fun e _ ↦ ?_
      simp only [Function.comp]
      split
      · next he => exact he.symm
      · rfl
    rwa [hkeys]
  · next hkey =>
    rw [List.map_append, List.map_singleton, List.nodup_append]
    refine ⟨h, List.nodup_singleton _, fun a ha b hb ↦ ?_⟩
    rw [List.mem_singleton] at hb
    subst hb
    rintro rfl
    obtain ⟨e, he, rfl⟩ := List.mem_map.mp ha
    exact hkey (List.lookup_isSome_iff.mpr ⟨e, he, beq_self_eq_true _⟩)

theorem mem_keys_mapSet (h : k ∈ (mapSet map key value).map Prod.fst) :
    k = key ∨ k ∈ map.map Prod.fst := by
  obtain ⟨e, he, rfl⟩ := List.mem_map.mp h
  rcases mem_of_mem_mapSet he with rfl | hmem
  · exact Or.inl rfl
  · exact Or.inr (List.mem_map_of_mem hmem)

end Counters

section Sessions

variable {rt : Runtime} {session : Session} {tool : String} {args : Json} {result : ToolResult}
  {turn : ℕ} {a : Attempt} {key k : String}

@[simp] theorem recordSuccess_counters :
    (recordSuccess rt session tool args result turn).pointRuns = session.pointRuns ∧
      (recordSuccess rt session tool args result turn).pointCumulative =
        session.pointCumulative := by
  rw [recordSuccess]
  repeat' split
  all_goals exact ⟨rfl, rfl⟩

theorem recordDispatchOutcome_counters :
    (recordDispatchOutcome rt session tool args result turn).pointRuns =
        (recordPoints session tool args result).pointRuns ∧
      (recordDispatchOutcome rt session tool args result turn).pointCumulative =
        (recordPoints session tool args result).pointCumulative := by
  simp only [recordDispatchOutcome]
  split
  · split
    · exact ⟨rfl, rfl⟩
    · simp only [cacheRefusal]
      split <;> exact ⟨rfl, rfl⟩
  · by_cases hread : readOnly.contains tool = true <;> by_cases herror : result.isError = true
    all_goals
      simp only [hread, herror, Bool.not_true, Bool.not_false, if_true, if_false,
        Bool.false_eq_true, recordSuccess_counters, and_self]
    all_goals split <;> exact ⟨rfl, rfl⟩

theorem singlePointGate_none (h : singlePointGate rt session tool args = none)
    (hkey : singlePointKey tool args = some key) :
    (session.pointRuns.lookup key).getD 0 < singlePointRunMax ∧
      (session.pointCumulative.lookup key).getD 0 < singlePointCumulativeMax := by
  rw [singlePointGate, hkey] at h
  dsimp only at h
  split at h
  · contradiction
  · split at h
    · contradiction
    · omega

theorem preDispatchGate_passes (rt : Runtime)
    (h : ∀ refusal, preDispatchGate rt session tool args ≠ .refuse refusal) :
    singlePointGate rt session tool args = none := by
  rw [preDispatchGate] at h
  split at h
  · exact absurd rfl (h _)
  · split at h
    · exact absurd rfl (h _)
    · assumption

/-- **What a dispatch does**: its handler runs only while its counters are below their bounds. -/
theorem dispatch_cases (rt : Runtime) (session : Session) (turn : ℕ) (a : Attempt) :
    (dispatch rt session turn a).session = recordDispatchOutcome rt session a.call.tool a.call.args
        (dispatch rt session turn a).result turn ∧
      ((dispatch rt session turn a).ran = true → (dispatch rt session turn a).result = a.result ∧
        singlePointGate rt session a.call.tool a.call.args = none) := by
  rw [dispatch]
  split
  · exact ⟨rfl, nofun⟩
  · next hgate =>
    refine ⟨rfl, fun _ ↦ ⟨rfl, preDispatchGate_passes rt fun refusal h ↦ ?_⟩⟩
    rw [hgate] at h
    contradiction
  · next hgate =>
    split
    · exact ⟨rfl, nofun⟩
    · refine ⟨rfl, fun _ ↦ ⟨rfl, preDispatchGate_passes rt fun refusal h ↦ ?_⟩⟩
      rw [hgate] at h
      contradiction

theorem pointRuns_recordPoints (hkey : singlePointKey tool args = some key)
    (hroom : result.isError = false → session.pointRuns.length < 64) :
    ((recordPoints session tool args result).pointRuns.lookup k).getD 0 =
      (session.pointRuns.lookup k).getD 0 + if k = key ∧ result.isError = false then 1 else 0 := by
  rw [recordPoints, hkey]
  rcases herror : result.isError with _ | _
  · have hlt := hroom herror
    simp only [Bool.false_eq_true, if_false, if_neg (by omega : ¬ 64 ≤ session.pointRuns.length),
      lookup_mapSet, and_true]
    by_cases hk : k = key
    · subst hk
      simp
    · simp [hk]
  · simp

theorem pointCumulative_recordPoints (hkey : singlePointKey tool args = some key)
    (hroom : session.pointCumulative.lookup key = none → session.pointCumulative.length < 64) :
    ((recordPoints session tool args result).pointCumulative.lookup k).getD 0 =
      (session.pointCumulative.lookup k).getD 0 +
        if k = key ∧ result.isError = false then 1 else 0 := by
  rw [recordPoints, hkey]
  rcases result.isError with _ | _
  · have hkept : ((session.pointCumulative.lookup key).isNone &&
        decide (64 ≤ session.pointCumulative.length)) = false := by
      rcases hlookup : session.pointCumulative.lookup key with _ | n
      · have := hroom hlookup
        simp only [Option.isNone_none, Bool.true_and, decide_eq_false_iff_not]
        omega
      · rfl
    simp only [hkept, Bool.false_eq_true, if_false, lookup_mapSet, and_true]
    by_cases hk : k = key
    · subst hk
      simp
    · simp [hk]
  · simp

theorem keys_recordPoints (tool : String) (args : Json) (result : ToolResult)
    (hnodup : (session.pointCumulative.map Prod.fst).Nodup) :
    ((recordPoints session tool args result).pointCumulative.map Prod.fst).Nodup ∧
      ∀ k ∈ (recordPoints session tool args result).pointCumulative.map Prod.fst,
        singlePointKey tool args = some k ∨ k ∈ session.pointCumulative.map Prod.fst := by
  rw [recordPoints]
  rcases hkey : singlePointKey tool args with _ | key
  · exact ⟨hnodup, fun k hk ↦ Or.inr hk⟩
  · dsimp only
    split
    · exact ⟨hnodup, fun k hk ↦ Or.inr hk⟩
    · dsimp only
      -- What is evicted leaves a tail.
      have htail : ∀ c : Prop, ∀ [Decidable c], ∀ k ∈ (if c then session.pointCumulative.tail
          else session.pointCumulative).map Prod.fst, k ∈ session.pointCumulative.map Prod.fst := by
        intro c _ k hk
        split at hk
        · rw [List.map_tail] at hk
          exact List.mem_of_mem_tail hk
        · exact hk
      refine ⟨nodup_mapSet ?_, fun k hk ↦ ?_⟩
      · split
        · rw [List.map_tail]
          exact hnodup.tail
        · exact hnodup
      · rcases mem_keys_mapSet hk with rfl | hk
        · exact Or.inl rfl
        · exact Or.inr (htail _ k hk)

end Sessions

/-! ## Runs -/

section Log

variable {rt : Runtime} {s : PointState} {e : Logged} {log : List Logged} {key k : String}

theorem runOf_cons : runOf (e :: log) k =
    if e.point.isSome then runOf log k + (if e.adds k then 1 else 0) else 0 := by
  rw [runOf, List.takeWhile_cons]
  split
  · rw [List.countP_cons]
    rfl
  · rfl

theorem totalOf_cons : totalOf (e :: log) k = totalOf log k + if e.adds k then 1 else 0 :=
  List.countP_cons

theorem sketchesOf_cons : sketchesOf log ⊆ sketchesOf (e :: log) := by
  intro k hk
  rw [sketchesOf, List.mem_toFinset, List.mem_filterMap] at hk ⊢
  obtain ⟨d, hd, hpoint⟩ := hk
  exact ⟨d, List.mem_cons_of_mem _ hd, hpoint⟩

theorem mem_sketchesOf_cons (h : e.point = some k) : k ∈ sketchesOf (e :: log) := by
  rw [sketchesOf, List.mem_toFinset, List.mem_filterMap]
  exact ⟨e, List.mem_cons_self, h⟩

structure RunsCounted (s : PointState) : Prop where
  counted : ∀ k, runOf s.log k ≤ (s.session.pointRuns.lookup k).getD 0
  bounded : ∀ k, runOf s.log k ≤ singlePointRunMax

/-- **A call keeps the runs counted** when it is no single point through `invoke`. -/
theorem RunsCounted.step (h : RunsCounted s) {d : Dispatched} (hkept : RunsKept s d) :
    RunsCounted (s.next rt d) := by
  rcases hkey : singlePointKey d.attempt.call.tool d.attempt.call.args with _ | key
  · -- Any other call ends every run.
    have hzero : ∀ k, runOf (s.next rt d).log k = 0 := fun k ↦ by
      simp only [PointState.next, runOf_cons, hkey, Option.isSome_none, Bool.false_eq_true,
        if_false]
    exact ⟨fun k ↦ (hzero k).le.trans (Nat.zero_le _), fun k ↦ (hzero k).le.trans (Nat.zero_le _)⟩
  · rcases d with a | ⟨args, a⟩
    · have hroom : s.session.pointRuns.length < 64 := hkept (Option.isSome_of_eq_some hkey)
      obtain ⟨hsession, hran⟩ := dispatch_cases rt s.session (s.turn + 1) a
      dsimp only [Dispatched.attempt] at hkey
      have hlog : ∀ k, runOf (s.next rt (.direct a)).log k =
          runOf s.log k + if key = k ∧ (dispatch rt s.session (s.turn + 1) a).ran = true ∧
            (dispatch rt s.session (s.turn + 1) a).result.isError = false then 1 else 0 := by
        intro k
        simp only [PointState.next, PointState.complete, Dispatched.attempt, runOf_cons, hkey,
          Option.isSome_some, if_true, Logged.adds, Option.some_inj, Bool.and_eq_true,
          decide_eq_true_eq, Bool.not_eq_true']
      have hcount : ∀ k, ((s.next rt (.direct a)).session.pointRuns.lookup k).getD 0 =
          (s.session.pointRuns.lookup k).getD 0 + if k = key ∧
            (dispatch rt s.session (s.turn + 1) a).result.isError = false then 1 else 0 := by
        intro k
        simp only [PointState.next, PointState.complete, hsession]
        rw [recordDispatchOutcome_counters.1, pointRuns_recordPoints hkey fun _ ↦ hroom]
      refine ⟨fun k ↦ ?_, fun k ↦ ?_⟩
      · rw [hlog, hcount]
        have := h.counted k
        split
        · next hadd => rw [if_pos ⟨hadd.1.symm, hadd.2.2⟩]; omega
        · omega
      · rw [hlog]
        split
        · next hadd =>
          -- A point that was added passed the gate.
          obtain ⟨rfl, hadd, -⟩ := hadd
          have := (singlePointGate_none (hran hadd).2 hkey).1
          have := h.counted key
          omega
        · exact h.bounded k
    · exact absurd (hkey.symm.trans hkept) nofun

structure TotalsCounted (s : PointState) : Prop where
  nodup : (s.session.pointCumulative.map Prod.fst).Nodup
  keys : ∀ k ∈ s.session.pointCumulative.map Prod.fst, k ∈ sketchesOf s.log
  counted : ∀ k, totalOf s.log k ≤ (s.session.pointCumulative.lookup k).getD 0
  bounded : ∀ k, totalOf s.log k ≤ singlePointCumulativeMax

theorem complete_cases (rt : Runtime) (s : PointState) (d : Dispatched) :
    ((s.complete rt d).ran = false ∧
        (s.complete rt d).session.pointCumulative = s.session.pointCumulative) ∨
      ((s.complete rt d).session.pointCumulative = (recordPoints s.session d.attempt.call.tool
          d.attempt.call.args (s.complete rt d).result).pointCumulative ∧
        ((s.complete rt d).ran = true →
          singlePointGate rt s.session d.attempt.call.tool d.attempt.call.args = none)) := by
  have houter (session : Session) (args : Json) (result : ToolResult) (turn : ℕ) :
      (recordDispatchOutcome rt session "invoke" args result turn).pointCumulative =
        session.pointCumulative := by
    rw [recordDispatchOutcome_counters.2]
    rfl
  rcases d with a | ⟨args, a⟩
  · obtain ⟨hsession, hran⟩ := dispatch_cases rt s.session (s.turn + 1) a
    refine Or.inr ⟨?_, fun h ↦ (hran h).2⟩
    simp only [PointState.complete, hsession]
    exact recordDispatchOutcome_counters.2
  · obtain ⟨hsession, hran⟩ := dispatch_cases rt s.session (s.turn + 1 + 1) a
    simp only [PointState.complete, invoke]
    split
    · exact Or.inl ⟨rfl, houter ..⟩
    · refine Or.inr ⟨?_, fun h ↦ (hran h).2⟩
      dsimp only
      rw [houter, hsession]
      exact recordDispatchOutcome_counters.2

/-- With at most sixty-four sketches no total is evicted. -/
theorem TotalsCounted.room (h : TotalsCounted s) (hcard : (sketchesOf (e :: s.log)).card ≤ 64)
    (hpoint : e.point = some key) (hlookup : s.session.pointCumulative.lookup key = none) :
    s.session.pointCumulative.length < 64 := by
  have hfresh : key ∉ s.session.pointCumulative.map Prod.fst := by
    intro hmem
    obtain ⟨d, hd, rfl⟩ := List.mem_map.mp hmem
    exact absurd (List.lookup_eq_none_iff.mp hlookup d hd) (by simp)
  have hsub : insert key (s.session.pointCumulative.map Prod.fst).toFinset ⊆
      sketchesOf (e :: s.log) := by
    refine Finset.insert_subset (mem_sketchesOf_cons hpoint) fun k hk ↦ ?_
    exact sketchesOf_cons (h.keys k (List.mem_toFinset.mp hk))
  have hle := Finset.card_le_card hsub
  rw [Finset.card_insert_of_notMem (by rwa [List.mem_toFinset]),
    List.toFinset_card_of_nodup h.nodup, List.length_map] at hle
  omega

/-- **Every call keeps the totals counted**, while no more than sixty-four sketches are touched. -/
theorem TotalsCounted.step (h : TotalsCounted s) {d : Dispatched}
    (hcard : (sketchesOf (s.next rt d).log).card ≤ 64) : TotalsCounted (s.next rt d) := by
  -- A call that did not run adds to no total.
  rcases complete_cases rt s d with ⟨hran, hsame⟩ | ⟨hsession, hran⟩
  · have hlog : ∀ k, totalOf (s.next rt d).log k = totalOf s.log k := by
      intro k
      simp [PointState.next, totalOf_cons, Logged.adds, hran]
    refine ⟨?_, fun k hk ↦ ?_, fun k ↦ ?_, fun k ↦ ?_⟩
    · simpa only [PointState.next, hsame] using h.nodup
    · simp only [PointState.next, hsame] at hk
      exact sketchesOf_cons (h.keys k hk)
    · rw [hlog]
      simpa only [PointState.next, hsame] using h.counted k
    · exact (hlog k).symm ▸ h.bounded k
  · obtain ⟨hnodup, hkeys⟩ := keys_recordPoints d.attempt.call.tool d.attempt.call.args
      (s.complete rt d).result h.nodup
    have hmem : ∀ k ∈ (s.next rt d).session.pointCumulative.map Prod.fst,
        k ∈ sketchesOf (s.next rt d).log := by
      intro k hk
      simp only [PointState.next, hsession] at hk
      rcases hkeys k hk with hpoint | hk
      · exact mem_sketchesOf_cons hpoint
      · exact sketchesOf_cons (h.keys k hk)
    have hnext : ((s.next rt d).session.pointCumulative.map Prod.fst).Nodup := by
      simpa only [PointState.next, hsession] using hnodup
    rcases hkey : singlePointKey d.attempt.call.tool d.attempt.call.args with _ | key
    · -- A call that is no single-point addition leaves the totals.
      have hlog : ∀ k, totalOf (s.next rt d).log k = totalOf s.log k := by
        intro k
        simp [PointState.next, totalOf_cons, Logged.adds, hkey]
      have hsame : (s.next rt d).session.pointCumulative = s.session.pointCumulative := by
        simp only [PointState.next, hsession, recordPoints, hkey]
      refine ⟨hnext, hmem, fun k ↦ ?_, fun k ↦ (hlog k).symm ▸ h.bounded k⟩
      rw [hlog, hsame]
      exact h.counted k
    · have hlog : ∀ k, totalOf (s.next rt d).log k = totalOf s.log k +
          if key = k ∧ (s.complete rt d).ran = true ∧ (s.complete rt d).result.isError = false
          then 1 else 0 := by
        intro k
        simp only [PointState.next, totalOf_cons, hkey, Logged.adds, Option.some_inj,
          Bool.and_eq_true, decide_eq_true_eq, Bool.not_eq_true']
      have hcount : ∀ k, ((s.next rt d).session.pointCumulative.lookup k).getD 0 =
          (s.session.pointCumulative.lookup k).getD 0 +
            if k = key ∧ (s.complete rt d).result.isError = false then 1 else 0 := by
        intro k
        simp only [PointState.next, hsession]
        exact pointCumulative_recordPoints hkey (h.room hcard hkey)
      refine ⟨hnext, hmem, fun k ↦ ?_, fun k ↦ ?_⟩
      · rw [hlog, hcount]
        have := h.counted k
        split
        · next hadd => rw [if_pos ⟨hadd.1.symm, hadd.2.2⟩]; omega
        · omega
      · rw [hlog]
        split
        · next hadd =>
          obtain ⟨rfl, hadd, -⟩ := hadd
          -- The gate let the call through, so its sketch had room.
          have := (singlePointGate_none (hran hadd) hkey).2
          have := h.counted key
          omega
        · exact h.bounded k

theorem totalsCounted_of_reachable (h : (completing rt).Reachable s)
    (hcard : (sketchesOf s.log).card ≤ 64) : TotalsCounted s := by
  induction h with
  | init => exact ⟨List.nodup_nil, nofun, fun k ↦ le_rfl, fun k ↦ Nat.zero_le _⟩
  | step _ _ _ ih => exact (ih ((Finset.card_le_card sketchesOf_cons).trans hcard)).step hcard

end Log

/-- **The budget of single points**, over at most sixty-four sketches: never too many in total; and
never too many in a row, when none goes through `invoke` or is called for while sixty-four sketches
have a run. -/
theorem inBudget_of_runsKept (rt : Runtime) :
    (∀ s, (completing rt).ReachableUnder RunsKept s → (sketchesOf s.log).card ≤ 64 →
      InBudget s.log) ∧
    ∀ s, (completing rt).Reachable s → (sketchesOf s.log).card ≤ 64 →
      ∀ key, totalOf s.log key ≤ singlePointCumulativeMax := by
  refine ⟨fun s h hcard ↦ ⟨?_, ?_⟩, fun s h hcard ↦ (totalsCounted_of_reachable h hcard).bounded⟩
  · have hruns : RunsCounted s := by
      refine h.invariant RunsCounted ⟨fun k ↦ le_rfl, fun k ↦ Nat.zero_le _⟩ ?_
      intro t d _ ht _ hkept
      exact ht.step hkept
    exact hruns.bounded
  · exact (totalsCounted_of_reachable (h.mono fun _ _ _ ↦ trivial) hcard).bounded

/-! ## Nine points -/

/-- A runtime whose texts are no JSON. -/
private def silent : Runtime := ⟨fun _ ↦ none, fun _ ↦ "REFUSED", fun tool _ ↦ tool⟩

private def point : Attempt where
  call := ⟨"psketch_add_entity",
    .object [("csketch_id", .string "profile"), ("kind", .string "point")]⟩
  live := none
  result := ⟨["added"], false, false⟩

/-- The ninth point in a row is refused. -/
theorem inBudget_direct : InBudget ((completing silent).run ⟨Session.new, 0, []⟩
    (List.replicate 9 (.direct point))).log := by
  refine (inBudget_of_runsKept silent).1 _ (GuardedSystem.ReachableUnder.init.run ?_)
    (by decide +kernel)
  exact ⟨trivial, by decide +kernel, trivial, by decide +kernel, trivial, by decide +kernel,
    trivial, by decide +kernel, trivial, by decide +kernel, trivial, by decide +kernel, trivial,
    by decide +kernel, trivial, by decide +kernel, trivial, by decide +kernel, trivial⟩

/-- **Nine points in a row pass** when each goes through `invoke`. -/
theorem not_inBudget_invoked :
    ¬ ∀ (rt : Runtime) (s : PointState), (completing rt).Reachable s →
      (sketchesOf s.log).card ≤ 64 → InBudget s.log := by
  intro h
  have hreachable : (completing silent).Reachable ((completing silent).run ⟨Session.new, 0, []⟩
      (List.replicate 9 (.invoked (.object []) point))) := by
    refine GuardedSystem.ReachableUnder.init.run ?_
    simp only [List.replicate, GuardedSystem.Admits, completing, and_self]
  exact absurd ((h _ _ hreachable (by decide +kernel)).1 "psketch_add_entity:profile")
    (by decide +kernel)

end Gates

end RosheraCad
