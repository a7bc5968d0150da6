import RosheraCad.Recorder.Staging
import RosheraCad.Timeline.Preview

/-!
# Event keys

The root identifiers an operation mints are seeded from the key of its event, so the event's
sequence number is reserved before the event exists: by a fresh append, by `reserve_event_key` for
the record that follows, or for a whole discard scope and its one consolidated record.
-/

namespace RosheraCad

/-! ## Discard scopes -/

namespace StagingState

variable (state : StagingState)

def beginDiscardScope : StagingState :=
  let state := if state.discardDepth = 0 then
      { state with discardScopeSequence := none, pendingConsolidatedSequence := none }
    else state
  { state with discardDepth := state.discardDepth + 1 }

def endDiscardScope : StagingState :=
  if state.discardDepth = 0 then state
  else
    let state := { state with discardDepth := state.discardDepth - 1 }
    if state.discardDepth = 0 then
      { state with
        pendingConsolidatedSequence := state.discardScopeSequence
        discardScopeSequence := none }
    else state

/-- What `reserve_event_key` reads first: the scope's reservation, if it has one already. -/
def stickySequence : Option EventIndex :=
  if 0 < state.discardDepth then state.discardScopeSequence else none

/-- The first number drawn in a scope becomes the scope's; a later one is a hole. -/
def settleSequence (seq : EventIndex) : EventIndex × StagingState :=
  if 0 < state.discardDepth then
    match state.discardScopeSequence with
    | some existing => (existing, state)
    | none => (seq, { state with discardScopeSequence := some seq })
  else (seq, state)

end StagingState

def eventKey (seq : EventIndex) : String := "evt:" ++ toString seq

theorem eventKey_injective : Function.Injective eventKey := by
  intro a b h
  rw [eventKey, eventKey, String.append_right_inj] at h
  have hdigits : a.repr.toList = b.repr.toList := congrArg String.toList h
  rw [Nat.toList_repr, Nat.toList_repr] at hdigits
  simpa using congrArg (Nat.ofDigitChars 10 · 0) hdigits

/-! ## The clients of one recorder -/

/-- Where a client is in a build whose records it suppresses, with the key of the build's scope. -/
inductive BuildPhase
  | outside
  | opening
  | building (key : Option EventIndex)
  | dropping (key : Option EventIndex)
  | closed (key : Option EventIndex)
  deriving DecidableEq

namespace BuildPhase

def scopeKey? : BuildPhase → Option (Option EventIndex)
  | building key | dropping key => some key
  | _ => none

def InScope (phase : BuildPhase) : Prop := phase.scopeKey?.isSome = true

def Working : BuildPhase → Prop
  | outside | building _ => True
  | _ => False

/-- The client calls the kernel in an open scope. -/
def Building (phase : BuildPhase) : Prop := ∃ key, phase = building key

def HasWindow : BuildPhase → Prop
  | opening | building _ => True
  | _ => False

def gotKey (seq : EventIndex) : BuildPhase → BuildPhase
  | building _ => building (some seq)
  | phase => phase

end BuildPhase

abbrev ClientId := ℕ

/-- A recorder with its timeline and its clients. -/
structure KeyRun where
  run : TimelineRun
  staging : StagingState
  windows : List (ClientId × Bool)
  phases : List (ClientId × BuildPhase)
  /-- The calls of `reserve_event_key` that found no reservation to share, -/
  looking : List ClientId
  drawn : List (ClientId × EventIndex)
  cached : List (ClientId × EventIndex)
  handed : List StagedOp
  consolidated : List (StagedOp × Option EventIndex)
  appended : List (Option StagedOp × EventIndex)

/-- One step of a client, of the worker, or of another caller of the timeline. -/
inductive KeyAction
  | timeline (op : TimelineOp)
  | reserveKey (c : ClientId)
  | drawKey (c : ClientId)
  | missCounter (c : ClientId)
  | settleKey (c : ClientId)
  | forgetKey (c : ClientId)
  | beginPending (c : ClientId)
  | commitPending (c : ClientId)
  | abortPending (c : ClientId)
  | record (c : ClientId) (op : StagedOp)
  | recordDirect (c : ClientId) (op : StagedOp)
  | openGuard (c : ClientId)
  | enterScope (c : ClientId)
  | leaveWindow (c : ClientId)
  | leaveScope (c : ClientId)
  | recordConsolidated (c : ClientId) (op : StagedOp)
  | giveUp (c : ClientId)
  | lose (i : ℕ)
  | append (i : ℕ) (eventId : EventId)

def TimelineOp.eventId? : TimelineOp → Option EventId
  | .addOperation _ _ _ eventId => some eventId
  | .addOperationReserved _ _ _ _ eventId => some eventId
  | _ => none

namespace KeyRun

variable (s : KeyRun)

/-- A recorder on an empty timeline. -/
def new : KeyRun := ⟨⟨.new, []⟩, .new, [], [], [], [], [], [], [], []⟩

def phase (c : ClientId) : BuildPhase := (s.phases.lookup c).getD .outside

/-- No call of `reserve_event_key` of the client is on its way. -/
def Free (c : ClientId) : Prop := c ∉ s.looking ∧ s.drawn.lookup c = none

/-- When an action may be taken. A client makes one call at a time, and closes what it opened. -/
def enabled : KeyAction → Prop
  | .timeline op => s.run.enabled op
  | .reserveKey c => s.Free c ∧ s.cached.lookup c = none ∧ (s.phase c).Working
  | .drawKey c | .missCounter c => c ∈ s.looking
  | .settleKey c => ∃ seq, s.drawn.lookup c = some seq
  | .forgetKey c | .beginPending c | .record c _ | .recordDirect c _ =>
    s.Free c ∧ (s.phase c).Working
  | .commitPending c | .abortPending c =>
    s.Free c ∧ (s.phase c).Working ∧ (c, false) ∈ s.windows
  | .openGuard c => s.Free c ∧ s.phase c = .outside
  | .enterScope c => s.phase c = .opening
  | .leaveWindow c => s.Free c ∧ (c, false) ∉ s.windows ∧ ∃ key, s.phase c = .building key
  | .leaveScope c => ∃ key, s.phase c = .dropping key
  | .recordConsolidated c _ | .giveUp c => ∃ key, s.phase c = .closed key
  | .lose i => i < s.handed.length
  | .append i eventId => i < s.handed.length ∧ eventId ∉ s.run.timeline.events

instance : DecidablePred BuildPhase.Working
  | .outside | .building _ => isTrue trivial
  | .opening | .dropping _ | .closed _ => isFalse id

instance : DecidablePred BuildPhase.Building
  | .building key => isTrue ⟨key, rfl⟩
  | .outside | .opening | .dropping _ | .closed _ => isFalse fun h ↦ nomatch h.choose_spec

instance (phase : BuildPhase) : Decidable (∃ key, phase = .dropping key) :=
  match phase with
  | .dropping key => isTrue ⟨key, rfl⟩
  | .outside | .opening | .building _ | .closed _ => isFalse fun h ↦ nomatch h.choose_spec

instance (phase : BuildPhase) : Decidable (∃ key, phase = .closed key) :=
  match phase with
  | .closed key => isTrue ⟨key, rfl⟩
  | .outside | .opening | .building _ | .dropping _ => isFalse fun h ↦ nomatch h.choose_spec

instance (c : ClientId) : Decidable (s.Free c) :=
  inferInstanceAs (Decidable (c ∉ s.looking ∧ s.drawn.lookup c = none))

instance : ∀ action, Decidable (s.enabled action)
  | .timeline op => inferInstanceAs (Decidable (s.run.enabled op))
  | .reserveKey c =>
    inferInstanceAs (Decidable (s.Free c ∧ s.cached.lookup c = none ∧ (s.phase c).Working))
  | .drawKey c | .missCounter c => inferInstanceAs (Decidable (c ∈ s.looking))
  | .settleKey c =>
    decidable_of_iff ((s.drawn.lookup c).isSome = true) Option.isSome_iff_exists
  | .forgetKey c | .beginPending c | .record c _ | .recordDirect c _ =>
    inferInstanceAs (Decidable (s.Free c ∧ (s.phase c).Working))
  | .commitPending c | .abortPending c =>
    inferInstanceAs (Decidable (s.Free c ∧ (s.phase c).Working ∧ (c, false) ∈ s.windows))
  | .openGuard c => inferInstanceAs (Decidable (s.Free c ∧ s.phase c = .outside))
  | .enterScope c => inferInstanceAs (Decidable (s.phase c = .opening))
  | .leaveWindow c =>
    inferInstanceAs (Decidable (s.Free c ∧ (c, false) ∉ s.windows ∧ (s.phase c).Building))
  | .leaveScope c => inferInstanceAs (Decidable (∃ key, s.phase c = .dropping key))
  | .recordConsolidated c _ | .giveUp c =>
    inferInstanceAs (Decidable (∃ key, s.phase c = .closed key))
  | .lose i => inferInstanceAs (Decidable (i < s.handed.length))
  | .append i eventId =>
    inferInstanceAs (Decidable (i < s.handed.length ∧ eventId ∉ s.run.timeline.events))

def setPhase (c : ClientId) (phase : BuildPhase) : KeyRun :=
  { s with phases := (c, phase) :: s.phases }

def answerKey (c : ClientId) (seq : EventIndex) : KeyRun :=
  { s with cached := s.cached ++ [(c, seq)] }.setPhase c ((s.phase c).gotKey seq)

def recordOp (op : StagedOp) : KeyRun :=
  { s with
    staging := (s.staging.record op).1
    handed := s.handed ++ (s.staging.record op).2 }

def withCached (c : ClientId) (op : StagedOp) : StagedOp :=
  { op with reservedSequence := s.cached.lookup c }

def dropCached (c : ClientId) : KeyRun :=
  { s with cached := s.cached.filter fun p ↦ p.1 ≠ c }

def storedSequence (t : Timeline) (eventId : EventId) : Option EventIndex :=
  t.events[eventId]?.map TimelineEvent.sequenceNumber

def appendOp [UuidParser] (op : StagedOp) (eventId : EventId) : Timeline :=
  (s.run.timeline.appendInternal op.record.toTimelineOperation op.author op.branch
    op.reservedSequence eventId).2

section Step

variable [UuidParser]

def step : KeyAction → KeyRun
  | .timeline op =>
    let run := s.run.step op
    { s with
      run
      appended := s.appended ++
        ((op.eventId?.bind (storedSequence run.timeline)).map (none, ·)).toList }
  | .reserveKey c =>
    match s.staging.stickySequence with
    | some seq => s.answerKey c seq
    | none => { s with looking := s.looking ++ [c] }
  | .drawKey c =>
    { s with
      run := { s.run with timeline := s.run.timeline.reserveSequenceNumber.2 }
      looking := s.looking.erase c
      drawn := s.drawn ++ [(c, s.run.timeline.reserveSequenceNumber.1)] }
  | .missCounter c => { s with looking := s.looking.erase c }
  | .settleKey c =>
    match s.drawn.lookup c with
    | none => s
    | some seq =>
      { s with
        staging := (s.staging.settleSequence seq).2
        drawn := s.drawn.filter fun p ↦ p.1 ≠ c }.answerKey c (s.staging.settleSequence seq).1
  | .forgetKey c => s.dropCached c
  | .beginPending c =>
    { s with staging := s.staging.beginPending, windows := (c, false) :: s.windows }
  | .commitPending c =>
    { s with
      staging := s.staging.commitPending.1
      windows := s.windows.erase (c, false)
      handed := s.handed ++ s.staging.commitPending.2 }
  | .abortPending c =>
    { s with staging := s.staging.abortPending, windows := s.windows.erase (c, false) }
  | .record c op => (s.dropCached c).recordOp (s.withCached c op)
  | .recordDirect _ op => s.recordOp { op with reservedSequence := none }
  | .openGuard c =>
    { s with
      staging := s.staging.beginPending
      windows := (c, true) :: s.windows }.setPhase c .opening
  | .enterScope c =>
    { s with staging := s.staging.beginDiscardScope }.setPhase c (.building none)
  | .leaveWindow c =>
    match s.phase c with
    | .building key =>
      { s with
        staging := s.staging.abortPending
        windows := s.windows.erase (c, true) }.setPhase c (.dropping key)
    | _ => s
  | .leaveScope c =>
    match s.phase c with
    | .dropping key => { s with staging := s.staging.endDiscardScope }.setPhase c (.closed key)
    | _ => s
  | .recordConsolidated c op =>
    match s.phase c with
    | .closed key =>
      let op := { op with reservedSequence := none }
      { s.recordOp op with
        consolidated := s.consolidated ++ [(s.staging.stamp op, key)] }.setPhase c .outside
    | _ => s
  | .giveUp c => s.setPhase c .outside
  | .lose i => { s with handed := s.handed.eraseIdx i }
  | .append i eventId =>
    match s.handed[i]? with
    | none => s
    | some op =>
      { s with
        run := { s.run with timeline := s.appendOp op eventId }
        handed := s.handed.eraseIdx i
        appended := s.appended ++
          ((storedSequence (s.appendOp op eventId) eventId).map (some op, ·)).toList }

def system : GuardedSystem KeyRun KeyAction where
  init := new
  enabled := enabled
  step := fun s ↦ s.step

instance (action : KeyAction) : Decidable (system.enabled s action) :=
  inferInstanceAs (Decidable (s.enabled action))

end Step

/-! ## The guard and the property -/

def Awaited (c : ClientId) : Prop := ∃ seq, s.phase c = .closed (some seq)

/-- No other client shares the scope's key, opens a scope within it, or records while the key is
handed over; a guard's window is the outermost when aborted, and no model keeps the key at the end.
-/
def ScopesUndisturbed (s : KeyRun) : KeyAction → Prop
  | .reserveKey c => s.staging.stickySequence ≠ none → (s.phase c).Building
  | .settleKey c => 0 < s.staging.discardDepth → (s.phase c).Building
  | .record _ _ | .recordDirect _ _ => ∀ d, ¬ s.Awaited d
  | .recordConsolidated c _ => ∀ d, d ≠ c → ¬ s.Awaited d
  | .enterScope _ => ∀ d, ¬ (s.phase d).InScope ∧ ¬ s.Awaited d
  | .leaveWindow c => s.windows = [(c, true)]
  | .leaveScope c => ∀ p ∈ s.cached, p.1 = c → s.phase c ≠ .dropping (some p.2)
  | _ => True

section Decidable

variable {s : KeyRun}

theorem forall_phase_iff {P : ClientId → BuildPhase → Prop} (h : ∀ d, P d .outside) :
    (∀ d, P d (s.phase d)) ↔ ∀ p ∈ s.phases, P p.1 (s.phase p.1) := by
  refine ⟨fun hall p _ ↦ hall p.1, fun hlisted d ↦ ?_⟩
  rcases hd : s.phases.lookup d with _ | phase
  · rw [phase, hd]
    exact h d
  · obtain ⟨before, after, heq, -⟩ := List.lookup_eq_some_iff.mp hd
    refine hlisted (d, phase) ?_
    rw [heq]
    exact List.mem_append_right _ List.mem_cons_self

instance : DecidablePred BuildPhase.InScope :=
  fun phase ↦ inferInstanceAs (Decidable (phase.scopeKey?.isSome = true))

instance (phase : BuildPhase) : Decidable (∃ seq, phase = .closed (some seq)) :=
  match phase with
  | .closed (some seq) => isTrue ⟨seq, rfl⟩
  | .closed none | .outside | .opening | .building _ | .dropping _ =>
    isFalse fun h ↦ nomatch h.choose_spec

instance (c : ClientId) : Decidable (s.Awaited c) :=
  inferInstanceAs (Decidable (∃ seq, s.phase c = .closed (some seq)))

instance : ∀ action, Decidable (s.ScopesUndisturbed action)
  | .reserveKey c =>
    inferInstanceAs (Decidable (s.staging.stickySequence ≠ none → (s.phase c).Building))
  | .settleKey c =>
    inferInstanceAs (Decidable (0 < s.staging.discardDepth → (s.phase c).Building))
  | .record _ _ | .recordDirect _ _ =>
    decidable_of_iff (∀ p ∈ s.phases, ¬ s.Awaited p.1)
      (forall_phase_iff (P := fun _ phase ↦ ¬ ∃ seq, phase = .closed (some seq))
        fun _ h ↦ nomatch h.choose_spec).symm
  | .recordConsolidated c _ =>
    decidable_of_iff (∀ p ∈ s.phases, p.1 ≠ c → ¬ s.Awaited p.1)
      (forall_phase_iff (P := fun d phase ↦ d ≠ c → ¬ ∃ seq, phase = .closed (some seq))
        fun _ _ h ↦ nomatch h.choose_spec).symm
  | .enterScope _ =>
    decidable_of_iff (∀ p ∈ s.phases, ¬ (s.phase p.1).InScope ∧ ¬ s.Awaited p.1)
      (forall_phase_iff
        (P := fun _ phase ↦ ¬ phase.InScope ∧ ¬ ∃ seq, phase = .closed (some seq))
        fun _ ↦ ⟨nofun, fun h ↦ nomatch h.choose_spec⟩).symm
  | .leaveWindow c => inferInstanceAs (Decidable (s.windows = [(c, true)]))
  | .leaveScope c =>
    inferInstanceAs (Decidable (∀ p ∈ s.cached, p.1 = c → s.phase c ≠ .dropping (some p.2)))
  | .timeline _ | .drawKey _ | .missCounter _ | .forgetKey _ | .beginPending _ | .commitPending _
  | .abortPending _ | .openGuard _ | .giveUp _ | .lose _ | .append _ _ => isTrue trivial

end Decidable

/-- **Every reserved key is used at most once, and where it was reserved for.** -/
structure KeysUsedOnce : Prop where
  sequences_unique : ∀ (e e' : EventId) (ev ev' : TimelineEvent),
    s.run.timeline.events[e]? = some ev → s.run.timeline.events[e']? = some ev' →
      ev.sequenceNumber = ev'.sequenceNumber → e = e'
  appended_once : (s.appended.map Prod.snd).Nodup
  verbatim : ∀ op seq, (some op, seq) ∈ s.appended → ∀ k, op.reservedSequence = some k → seq = k
  consolidated : ∀ op key, (op, key) ∈ s.consolidated → ∀ k, key = some k →
    op.reservedSequence = some k

end KeyRun

end RosheraCad
