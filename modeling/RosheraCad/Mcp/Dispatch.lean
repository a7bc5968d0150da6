import RosheraCad.Library.Run
import RosheraCad.Mcp.Gates

/-!
# Interleaved dispatches

The dispatches of one session run in phases, the gate, the handler, and the bookkeeping, with others
in between. Gate and bookkeeping are one synchronous stretch each. What a handler answers is
arbitrary. Beside the session the system keeps the history of gates passed and outcomes recorded.
-/

namespace RosheraCad

namespace Gates

/-- A tool call. -/
structure Call where
  tool : String
  args : Json

inductive DispatchPhase
  | waiting
  | fetching (turn : ℕ)
  | running (turn : ℕ)
  | finished (turn : ℕ) (result : ToolResult)
  | recorded (turn : ℕ) (result : ToolResult)

inductive DispatchEvent
  | gated (i : ℕ)
  | ran (i : ℕ)
  | recorded (i : ℕ) (result : ToolResult)

structure DispatchState where
  session : Session
  turn : ℕ
  phase : ℕ → DispatchPhase
  history : List DispatchEvent
  changes : ℕ
  computed : ℕ → ℕ

inductive DispatchStep
  | gate (i : ℕ)
  | live (i : ℕ) (refusal : Option (String × List (String × Json)))
  | handle (i : ℕ) (result : ToolResult)
  | relay (i j : ℕ)
  | record (i : ℕ)

def namedRefusal (rt : Runtime) (gate : String) (payload : List (String × Json)) : ToolResult :=
  gateRefusal rt (("gate", .string gate) :: payload)

def changesState (rt : Runtime) (tool : String) (result : ToolResult) : Bool :=
  !readOnly.contains tool && (typedRefusalOf rt result).isNone

namespace DispatchState

variable (rt : Runtime) (calls : ℕ → Call)

/-- A session nothing was called in. -/
def new : DispatchState := ⟨Session.new, 0, fun _ ↦ .waiting, [], 0, fun _ ↦ 0⟩

def setPhase (s : DispatchState) (i : ℕ) (phase : DispatchPhase) : DispatchState :=
  { s with phase := Function.update s.phase i phase }

def finish (s : DispatchState) (i turn : ℕ) (result : ToolResult) (computed : ℕ) : DispatchState :=
  { s.setPhase i (.finished turn result) with computed := Function.update s.computed turn computed }

def start (s : DispatchState) (i turn : ℕ) : DispatchState :=
  { s.setPhase i (.running turn) with history := s.history ++ [.ran i] }

def gateComputed (s : DispatchState) (i : ℕ) : ℕ :=
  match s.session.refusalCache.lookup (rt.refusalKey (calls i).tool (calls i).args) with
  | some hit => s.computed hit.turn
  | none => s.changes

/-- The gates read the session: the next turn begins. -/
def next : DispatchState → DispatchStep → DispatchState
  | s, .gate i =>
    let t : DispatchState := { s with turn := s.turn + 1, history := s.history ++ [.gated i] }
    match preDispatchGate rt s.session (calls i).tool (calls i).args with
    | .refuse refusal => t.finish i t.turn refusal (s.gateComputed rt calls i)
    | .proceed _ => t.start i t.turn
    | .fetch => t.setPhase i (.fetching t.turn)
  | s, .live i refusal =>
    match s.phase i, refusal with
    | .fetching turn, some (gate, payload) =>
      s.finish i turn (namedRefusal rt gate payload) s.changes
    | .fetching turn, none => s.start i turn
    | _, _ => s
  | s, .handle i result =>
    match s.phase i with
    | .running turn => s.finish i turn result s.changes
    | _ => s
  | s, .relay i j =>
    match s.phase i, s.phase j with
    | .running turn, .recorded inner result => s.finish i turn result (s.computed inner)
    | _, _ => s
  | s, .record i =>
    match s.phase i with
    | .finished turn result =>
      { s.setPhase i (.recorded turn result) with
        session := recordDispatchOutcome rt s.session (calls i).tool (calls i).args result turn
        history := s.history ++ [.recorded i result]
        changes := if changesState rt (calls i).tool result then s.changes + 1 else s.changes }
    | _ => s

/-- When a step may be taken. `invoke` relays a dispatch of the tool it names. -/
def Enabled (s : DispatchState) : DispatchStep → Prop
  | .gate i => s.phase i = .waiting
  | .live i refusal => (∃ turn, s.phase i = .fetching turn) ∧
      ∀ r ∈ refusal, r.1 ∈ ["unsound_base", "sheet_unsound", "sheet_quality", "sheet_uncertified"]
  | .handle i _ => ∃ turn, s.phase i = .running turn
  | .relay i j => (∃ turn, s.phase i = .running turn) ∧ (∃ turn r, s.phase j = .recorded turn r) ∧
      (calls i).tool = "invoke" ∧ (calls i).args.get? "name" = some (.string (calls j).tool)
  | .record i => ∃ turn result, s.phase i = .finished turn result

end DispatchState

def dispatching (rt : Runtime) (calls : ℕ → Call) : GuardedSystem DispatchState DispatchStep where
  init := .new
  enabled := DispatchState.Enabled calls
  step := DispatchState.next rt calls

namespace DispatchState

variable {s : DispatchState} {i j turn : ℕ} {p q : DispatchPhase} {result : ToolResult}

theorem setPhase_cases (h : (s.setPhase i p).phase j = q) :
    (j = i ∧ p = q) ∨ (j ≠ i ∧ s.phase j = q) := by
  simp only [setPhase] at h
  by_cases hji : j = i
  · subst hji
    rw [Function.update_self] at h
    exact Or.inl ⟨rfl, h⟩
  · rw [Function.update_of_ne hji] at h
    exact Or.inr ⟨hji, h⟩

end DispatchState

/-! ## What the gates decide -/

section Decisions

variable {rt : Runtime} {session : Session} {tool : String} {args : Json} {result : ToolResult}

theorem typedRefusalOf_append (h : (typedRefusalOf rt result).isSome = true)
    (notes : List String) :
    typedRefusalOf rt { result with content := result.content ++ notes } =
      typedRefusalOf rt result := by
  rcases hcontent : result.content with _ | ⟨text, rest⟩
  · simp [typedRefusalOf, hcontent] at h
  · simp only [typedRefusalOf, hcontent, List.cons_append, List.head?_cons]

theorem checkpointGate_refuse (h : checkpointGate rt session args = .refuse result) :
    ∃ gate payload, result = namedRefusal rt gate payload := by
  simp only [checkpointGate] at h
  split at h
  · exact ⟨_, _, (Gate.refuse.inj h).symm⟩
  · split at h
    · contradiction
    · split at h
      · contradiction
      · split at h
        · contradiction
        · exact ⟨_, _, (Gate.refuse.inj h).symm⟩

theorem singlePointGate_refuse (h : singlePointGate rt session tool args = some result) :
    ∃ gate payload, result = namedRefusal rt gate payload := by
  rw [singlePointGate] at h
  split at h
  · contradiction
  · dsimp only at h
    split at h
    · exact ⟨_, _, (Option.some_inj.mp h).symm⟩
    · split at h
      · exact ⟨_, _, (Option.some_inj.mp h).symm⟩
      · contradiction

theorem preDispatchGate_refuse (h : preDispatchGate rt session tool args = .refuse result) :
    (∃ hit notes, session.refusalCache.lookup (rt.refusalKey tool args) = some hit ∧
        result = { hit.result with content := hit.result.content ++ notes }) ∨
      (session.refusalCache.lookup (rt.refusalKey tool args) = none ∧
        ∃ gate payload, result = namedRefusal rt gate payload) := by
  rw [preDispatchGate] at h
  rcases hlookup : session.refusalCache.lookup (rt.refusalKey tool args) with _ | hit
  · refine Or.inr ⟨rfl, ?_⟩
    simp only [hlookup] at h
    rcases hpoint : singlePointGate rt session tool args with _ | refusal
    · simp only [hpoint] at h
      split at h
      · exact checkpointGate_refuse h
      · split at h
        · exact ⟨_, _, (Gate.refuse.inj h).symm⟩
        · contradiction
    · simp only [hpoint] at h
      obtain rfl := Gate.refuse.inj h
      exact singlePointGate_refuse hpoint
  · simp only [hlookup] at h
    exact Or.inl ⟨hit, _, rfl, (Gate.refuse.inj h).symm⟩

theorem preDispatchGate_proceed {flag : Bool}
    (h : preDispatchGate rt session tool args = .proceed flag) :
    tool = "timeline_checkpoint" ∧ (session.openIntent.isSome = true →
      session.intentUnverified.count = 0 ∨ skipsVerification args = true) := by
  rw [preDispatchGate] at h
  split at h
  · contradiction
  · split at h
    · contradiction
    · split at h
      · next htool =>
        refine ⟨htool, fun hopen ↦ ?_⟩
        simp only [checkpointGate] at h
        split at h
        · contradiction
        · split at h
          · next hnone => simp [hnone] at hopen
          · split at h
            · next hcount => exact Or.inl hcount
            · split at h
              · next hskip => exact Or.inr hskip
              · contradiction
      · split at h <;> contradiction

theorem preDispatchGate_fetch (h : preDispatchGate rt session tool args = .fetch) :
    tool ≠ "timeline_checkpoint" ∧
      (mutatesSolids.contains tool = true → session.openIntent.isSome = true) := by
  rw [preDispatchGate] at h
  split at h
  · contradiction
  · split at h
    · contradiction
    · split at h
      · simp only [checkpointGate] at h
        split at h
        · contradiction
        · split at h
          · contradiction
          · split at h
            · contradiction
            · split at h <;> contradiction
      · next htool =>
        split at h
        · contradiction
        · next hopen =>
          refine ⟨htool, fun hmutates ↦ ?_⟩
          rw [hmutates, Bool.true_and] at hopen
          rwa [Option.isNone_iff_eq_none, ← Option.not_isSome_iff_eq_none, not_not] at hopen

end Decisions

/-! ## What the bookkeeping remembers -/

section Remembered

variable {rt : Runtime} {session : Session} {tool : String} {args : Json} {result : ToolResult}
  {turn : ℕ}

theorem mem_of_mem_mapSet {α : Type} {map : List (String × α)} {key : String} {value : α}
    {e : String × α} (h : e ∈ mapSet map key value) : e = (key, value) ∨ e ∈ map := by
  rw [mapSet] at h
  split at h
  · obtain ⟨d, hd, rfl⟩ := List.mem_map.mp h
    split
    · exact Or.inl rfl
    · exact Or.inr hd
  · rw [List.mem_append, List.mem_singleton] at h
    exact h.symm

@[simp] theorem recordPoints_refusalCache :
    (recordPoints session tool args result).refusalCache = session.refusalCache := by
  rw [recordPoints]
  split
  · rfl
  · split <;> rfl

@[simp] theorem recordSuccess_refusalCache :
    (recordSuccess rt session tool args result turn).refusalCache = session.refusalCache := by
  rw [recordSuccess]
  repeat' split
  all_goals rfl

theorem refusalCache_of_changes (h : changesState rt tool result = true) :
    (recordDispatchOutcome rt session tool args result turn).refusalCache = [] := by
  simp only [changesState, Bool.and_eq_true, Bool.not_eq_true', Option.isNone_iff_eq_none] at h
  simp only [recordDispatchOutcome, h.1, h.2, Bool.false_eq_true, if_false]
  repeat' split
  all_goals simp [Session.addUnverified]

theorem mem_refusalCache {e : String × CachedRefusal}
    (h : e ∈ (recordDispatchOutcome rt session tool args result turn).refusalCache) :
    e ∈ session.refusalCache ∨
      (e = (rt.refusalKey tool args, ⟨tool, turn, result⟩) ∧
        session.refusalCache.lookup (rt.refusalKey tool args) = none ∧
        ∃ gate, typedRefusalOf rt result = some gate ∧
          gate.any liveFactGates.contains = false) := by
  rcases hrefusal : typedRefusalOf rt result with _ | gate
  · left
    simp only [recordDispatchOutcome, hrefusal] at h
    repeat' split at h
    all_goals simp [Session.addUnverified] at h
    all_goals exact h
  · simp only [recordDispatchOutcome, hrefusal] at h
    split at h
    · rw [recordPoints_refusalCache] at h
      exact Or.inl h
    · next hlive =>
      simp only [cacheRefusal, recordPoints_refusalCache] at h
      split at h
      · exact Or.inl (by simpa using h)
      · next hlookup =>
        rcases mem_of_mem_mapSet h with rfl | hmem
        · refine Or.inr ⟨rfl, ?_, gate, rfl, Bool.eq_false_iff.mpr hlive⟩
          rwa [Bool.not_eq_true, Option.isSome_eq_false_iff, Option.isNone_iff_eq_none] at hlookup
        · refine Or.inl ?_
          split at hmem
          · exact List.mem_of_mem_tail hmem
          · exact hmem

end Remembered

end Gates

end RosheraCad
