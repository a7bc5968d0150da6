import RosheraCad.Kernel.Model
import RosheraCad.Library.Run

/-!
# Bounded execution beside other writers

A heavy operation runs on a clone of the live model under a time budget, with no lock held. When it
has succeeded in time and the live model still has the fingerprint of the snapshot, the clone takes
its place. Its calls on the shared recorder fall between those of the writers that hold the lock.
-/

namespace RosheraCad

variable {D : ModelData} {E T : Type} {operands : List ℕ} {key : String}

structure Fingerprint where
  vertices : ℕ
  edges : ℕ
  loops : ℕ
  faces : ℕ
  shells : ℕ
  solids : ℕ
  rootCounter : ℕ
  deriving DecidableEq

/-- Cheap change-detection fingerprint of a model: topology cardinalities and the root counter. -/
def modelFingerprint (m : KernelModel D) : Fingerprint :=
  ⟨m.vertices.len, m.edges.len, m.loops.len, m.faces.len, m.shells.len, m.solids.len,
    m.rootCounter⟩

inductive OpOutcome (E T : Type)
  | value (value : T)
  | failed (e : E)
  | panicked

inductive BoundedError (E : Type)
  | opTimeout (op : String) (operands : List ℕ)
  | internal (message : String)
  | op (e : E)

/-- An operation as the blocking thread runs it: it may panic. -/
abbrev BoundedOp (D : ModelData) (E T : Type) := World D → OpOutcome E T × World D

def cloneOf (live : KernelModel D) : KernelModel D :=
  ((ModelSnapshot.take live).restore (.new D)).attachRecorder live.recorder

/-- What becomes of a computation that ended in time, under the write lock. -/
def settle (key : String) (fingerprint : Fingerprint) (clone live : KernelModel D) :
    OpOutcome E T → Except (BoundedError E) T × KernelModel D
  | .panicked => (.error (.internal ("bounded op '" ++ key ++ "' panicked during execution")), live)
  | .failed e => (.error (.op e), live)
  | .value value =>
    if modelFingerprint live ≠ fingerprint then
      (.error (.internal ("the model was modified concurrently while this operation computed; " ++
        "the change was not applied — retry")), live)
    else (.ok value, clone)

/-- Run an operation under the bounded executor alone; `elapsed` says that the budget ran out. -/
def boundedModelOp (key : String) (operands : List ℕ) (op : BoundedOp D E T) (elapsed : Bool)
    (w : World D) : Except (BoundedError E) T × World D :=
  match op ⟨cloneOf w.model, w.shared⟩ with
  | (outcome, ⟨clone, shared⟩) =>
    -- An abandoned thread still runs to its end, on the clone and on what the clone refers to.
    if elapsed then (.error (.opTimeout key operands), ⟨w.model, shared⟩)
    else
      let settled := settle key (modelFingerprint w.model) clone w.model outcome
      (settled.1, ⟨settled.2, shared⟩)

theorem cloneOf_eq (live : KernelModel D) : cloneOf live =
    { live with
      capApexHint := ∅
      currentEventKey := none
      currentReservedSequence := none
      solidProvenance := ∅
      documentUnit := .millimetre } := rfl

theorem boundedModelOp_of_ok {op : BoundedOp D E T} {elapsed : Bool} {w w' : World D} {value : T}
    (h : boundedModelOp key operands op elapsed w = (.ok value, w')) :
    op ⟨cloneOf w.model, w.shared⟩ = (.value value, w') := by
  rcases hop : op ⟨cloneOf w.model, w.shared⟩ with ⟨outcome, clone, shared⟩
  rw [boundedModelOp, hop] at h
  by_cases helapsed : elapsed = true
  · simp [helapsed] at h
  · rcases outcome with v | e | _
    · simp only [helapsed, settle, ne_eq, not_true_eq_false, if_false, Bool.false_eq_true,
        Prod.mk.injEq, Except.ok.injEq] at h
      obtain ⟨rfl, rfl⟩ := h
      rfl
    · simp [helapsed, settle] at h
    · simp [helapsed, settle] at h

theorem boundedModelOp_of_value {op : BoundedOp D E T}
    {w w' : World D} {value : T} (h : op ⟨cloneOf w.model, w.shared⟩ = (.value value, w')) :
    boundedModelOp key operands op false w = (.ok value, w') := by
  simp [boundedModelOp, h, settle]

/-- A model holds nothing but what a clone of it holds. -/
structure KernelModel.CarriedWhole (m : KernelModel D) : Prop where
  capApexHint : m.capApexHint = ∅
  solidProvenance : m.solidProvenance = ∅
  documentUnit : m.documentUnit = .millimetre
  currentEventKey : m.currentEventKey = none
  currentReservedSequence : m.currentReservedSequence = none

theorem KernelModel.CarriedWhole.cloneOf_eq_self {m : KernelModel D} (h : m.CarriedWhole) :
    cloneOf m = m := by
  rw [cloneOf_eq, ← h.capApexHint, ← h.solidProvenance, ← h.documentUnit]
  conv_rhs => rw [show m = { m with
    currentEventKey := none, currentReservedSequence := none } by
      rw [← h.currentEventKey, ← h.currentReservedSequence]]

private def readContext : BoundedOp D E Unit := fun w ↦
  (.value (), { w with model := { w.model with
    rootCounter := if w.model.currentEventKey = none ∧ w.model.currentReservedSequence = none
      then 0 else 1 } })

/-- **Bounded execution agrees with execution in place**, for every operation, just when the live
model holds nothing but what a clone of it holds. -/
theorem boundedModelOp_agrees_iff (E : Type) (key : String) (operands : List ℕ) (w : World D) :
    (∀ (T : Type) (op : BoundedOp D E T) (elapsed : Bool) (value : T) (w' : World D),
      boundedModelOp key operands op elapsed w = (.ok value, w') →
        (op w).2.SameModel w' ∧ (op w).2.model.recorder = w'.model.recorder) ↔
      w.model.CarriedWhole := by
  constructor
  · intro h
    have hid := (h Unit (fun w ↦ (.value (), w)) false () _ (boundedModelOp_of_value rfl)).1.model
    rw [cloneOf_eq] at hid
    have hhints := congrArg KernelModel.capApexHint hid
    have hprovenance := congrArg KernelModel.solidProvenance hid
    have hunit := congrArg KernelModel.documentUnit hid
    have hread := (h Unit readContext false () _ (boundedModelOp_of_value rfl)).1.model
    -- On the clone the counter is cleared, whatever the live context is.
    have hcounter := congrArg KernelModel.rootCounter hread
    have hcontext : w.model.currentEventKey = none ∧ w.model.currentReservedSequence = none := by
      by_contra hnot
      simp [readContext, cloneOf_eq, hnot] at hcounter
    exact ⟨hhints.symm, hprovenance.symm, hunit.symm, hcontext.1, hcontext.2⟩
  · intro hwhole T op elapsed value w' h
    have hop := boundedModelOp_of_ok h
    rw [hwhole.cloneOf_eq_self] at hop
    obtain ⟨model, shared⟩ := w
    rw [hop]
    exact ⟨⟨rfl, fun _ _ _ ↦ rfl⟩, rfl⟩

/-- **A document in inches is in millimetres after any bounded operation.** -/
theorem not_boundedModelOp_agrees_inch :
    let w : World exampleData :=
      { exampleWorld with model := { exampleWorld.model with documentUnit := .inch } }
    (boundedModelOp (E := String) "boolean" [] (fun w ↦ (.value (), w)) false
      w).2.model.documentUnit
        = .millimetre ∧
      ¬ ∀ (T : Type) (op : BoundedOp exampleData String T) (elapsed : Bool) (value : T)
        (w' : World exampleData), boundedModelOp "boolean" [] op elapsed w = (.ok value, w') →
          (op w).2.SameModel w' ∧ (op w).2.model.recorder = w'.model.recorder := by
  refine ⟨by rw [boundedModelOp_of_value rfl]; rfl, fun h ↦ ?_⟩
  have hsame := (h Unit (fun w ↦ (.value (), w)) false () _ (boundedModelOp_of_value rfl)).1.model
  have hunit := congrArg KernelModel.documentUnit hsame
  exact absurd hunit (by decide)

/-! ## Writers of one live model -/

open Nesting

instance {α κ : Type*} (ts : List (Token α κ)) : Decidable (Balanced ts) :=
  inferInstanceAs (Decidable (_ = _))

structure Work (D : ModelData) (E T : Type) where
  calls : List StagingCall
  outcome : OpOutcome E T
  result : KernelModel D

/-- The events a computation hands over when nobody else calls the recorder. -/
def Work.events {D : ModelData} {E T : Type} (work : Work D E T) : List StagedOp :=
  (StagingState.new.calls work.calls).2

inductive Task
  | bounded (key : String) (operands : List ℕ) (fingerprint : Fingerprint)
  | inPlace

/-- The fingerprint a bounded call took. -/
def Task.fingerprint : Task → Option Fingerprint
  | .bounded _ _ fingerprint => some fingerprint
  | .inPlace => none

def OpOutcome.isValue {E T : Type} : OpOutcome E T → Bool
  | .value _ => true
  | .failed _ => false
  | .panicked => false

inductive WriteAnswer (E T : Type)
  | bounded (answer : Except (BoundedError E) T)
  | inPlace (outcome : OpOutcome E T)

def WriteAnswer.ok {E T : Type} : WriteAnswer E T → Bool
  | .bounded answer => answer.toBool
  | .inPlace outcome => outcome.isValue

/-- A writer of the live model. -/
structure Writer (D : ModelData) (E T : Type) where
  task : Task
  work : Work D E T
  done : List StagingCall
  todo : List StagingCall
  finished : Bool
  base : List ℕ
  answer : Option (WriteAnswer E T)

/-- A live model with its recorder and its writers. -/
structure SharedModel (D : ModelData) (E T : Type) where
  live : KernelModel D
  lock : Option ℕ
  staging : StagingState
  handed : List (ℕ × StagedOp)
  writers : OrderedMap ℕ (Writer D E T)
  swapped : List ℕ
  contained : List ℕ

inductive WriterStep (D : ModelData) (E T : Type)
  | start (c : ℕ) (key : String) (operands : List ℕ) (op : KernelModel D → Work D E T)
  | lock (c : ℕ) (op : KernelModel D → Work D E T)
  | call (c : ℕ)
  | finish (c : ℕ)
  | timeout (c : ℕ)
  | settle (c : ℕ)
  | unlock (c : ℕ)

namespace SharedModel

variable {D : ModelData} {E T : Type} (s : SharedModel D E T)

/-- A live model no writer has touched. -/
def init (live : KernelModel D) : SharedModel D E T := ⟨live, none, .new, [], ∅, [], []⟩

def enter (c : ℕ) (task : Task) (work : Work D E T) : SharedModel D E T :=
  { s with writers := s.writers.insert c ⟨task, work, [], work.calls, false, s.contained, none⟩ }

def next : WriterStep D E T → Option (SharedModel D E T)
  | .start c key operands op =>
    -- The snapshot needs the read lock.
    if c ∉ s.writers ∧ s.lock = none then
      some (s.enter c (.bounded key operands (modelFingerprint s.live)) (op (cloneOf s.live)))
    else none
  | .lock c op =>
    if c ∉ s.writers ∧ s.lock = none then
      some { s.enter c .inPlace (op s.live) with lock := some c }
    else none
  | .call c =>
    match s.writers[c]? with
    | some w =>
      match w.todo with
      | call :: todo => some { s with
        staging := (s.staging.call call).1
        handed := s.handed ++ (s.staging.call call).2.map (c, ·)
        writers := s.writers.insert c { w with done := w.done ++ [call], todo := todo } }
      | [] => none
    | none => none
  | .finish c =>
    match s.writers[c]? with
    | some w =>
      if w.todo = [] ∧ w.finished = false then
        some { s with writers := s.writers.insert c { w with finished := true } }
      else none
    | none => none
  | .timeout c =>
    match s.writers[c]? with
    | some w =>
      match w.task with
      | .bounded key operands _ =>
        if w.finished = false ∧ w.answer.isNone then
          let answer := WriteAnswer.bounded (.error (.opTimeout key operands))
          some { s with writers := s.writers.insert c { w with answer := some answer } }
        else none
      | .inPlace => none
    | none => none
  | .settle c =>
    match s.writers[c]? with
    | some w =>
      match w.task with
      | .bounded key _ fingerprint =>
        if w.finished ∧ w.answer.isNone ∧ s.lock = none then
          let settled := RosheraCad.settle key fingerprint w.work.result s.live w.work.outcome
          some { s with
            live := settled.2
            writers := s.writers.insert c { w with answer := some (.bounded settled.1) }
            swapped := if settled.1.toBool then c :: s.swapped else s.swapped
            contained := if settled.1.toBool then c :: w.base else s.contained }
        else none
      | .inPlace => none
    | none => none
  | .unlock c =>
    match s.writers[c]? with
    | some w =>
      match w.task with
      | .bounded _ _ _ => none
      | .inPlace =>
        if w.finished ∧ w.answer.isNone ∧ s.lock = some c then
          some { s with
            live := w.work.result
            lock := none
            writers := s.writers.insert c { w with answer := some (.inPlace w.work.outcome) }
            contained := if w.work.outcome.isValue then c :: w.base else s.contained }
        else none
    | none => none

/-! ## What a step did -/

variable {s} {s' : SharedModel D E T} {c : ℕ}

theorem of_next_start {op : KernelModel D → Work D E T}
    (h : s.next (.start c key operands op) = some s') :
    c ∉ s.writers ∧
      s' = s.enter c (.bounded key operands (modelFingerprint s.live)) (op (cloneOf s.live)) := by
  rw [next] at h
  split at h
  · next hfree => exact ⟨hfree.1, (Option.some.inj h).symm⟩
  · contradiction

theorem of_next_lock {op : KernelModel D → Work D E T} (h : s.next (.lock c op) = some s') :
    c ∉ s.writers ∧ s' = { s.enter c .inPlace (op s.live) with lock := some c } := by
  rw [next] at h
  split at h
  · next hfree => exact ⟨hfree.1, (Option.some.inj h).symm⟩
  · contradiction

theorem of_next_call (h : s.next (.call c) = some s') :
    ∃ w call todo, s.writers[c]? = some w ∧ w.todo = call :: todo ∧ s' = { s with
      staging := (s.staging.call call).1
      handed := s.handed ++ (s.staging.call call).2.map (c, ·)
      writers := s.writers.insert c { w with done := w.done ++ [call], todo := todo } } := by
  simp only [next] at h
  split at h
  · next w hw =>
    split at h
    · next call todo htodo => exact ⟨w, call, todo, hw, htodo, (Option.some.inj h).symm⟩
    · contradiction
  · contradiction

theorem of_next_finish (h : s.next (.finish c) = some s') :
    ∃ w, s.writers[c]? = some w ∧ w.todo = [] ∧
      s' = { s with writers := s.writers.insert c { w with finished := true } } := by
  simp only [next] at h
  split at h
  · next w hw =>
    split at h
    · next hdone => exact ⟨w, hw, hdone.1, (Option.some.inj h).symm⟩
    · contradiction
  · contradiction

theorem of_next_timeout (h : s.next (.timeout c) = some s') :
    ∃ w answer, s.writers[c]? = some w ∧ w.answer = none ∧ answer.ok = false ∧
      s' = { s with writers := s.writers.insert c { w with answer := some answer } } := by
  simp only [next] at h
  split at h
  · next w hw =>
    split at h
    · split at h
      · next hopen => exact ⟨w, _, hw, Option.isNone_iff_eq_none.mp hopen.2, rfl,
          (Option.some.inj h).symm⟩
      · contradiction
    · contradiction
  · contradiction

theorem of_next_settle (h : s.next (.settle c) = some s') :
    ∃ w key operands fingerprint, s.writers[c]? = some w ∧
      w.task = .bounded key operands fingerprint ∧ w.finished = true ∧ w.answer = none ∧
      s.lock = none ∧ s' =
        let settled := RosheraCad.settle key fingerprint w.work.result s.live w.work.outcome
        { s with
          live := settled.2
          writers := s.writers.insert c { w with answer := some (.bounded settled.1) }
          swapped := if settled.1.toBool then c :: s.swapped else s.swapped
          contained := if settled.1.toBool then c :: w.base else s.contained } := by
  simp only [next] at h
  split at h
  · next w hw =>
    split at h
    · next key operands fingerprint htask =>
      split at h
      · next hready => exact ⟨w, key, operands, fingerprint, hw, htask, hready.1,
          Option.isNone_iff_eq_none.mp hready.2.1, hready.2.2, (Option.some.inj h).symm⟩
      · contradiction
    · contradiction
  · contradiction

theorem of_next_unlock (h : s.next (.unlock c) = some s') :
    ∃ w, s.writers[c]? = some w ∧ w.task = .inPlace ∧ w.finished = true ∧ w.answer = none ∧
      s.lock = some c ∧
      s' = { s with
        live := w.work.result
        lock := none
        writers := s.writers.insert c { w with answer := some (.inPlace w.work.outcome) }
        contained := if w.work.outcome.isValue then c :: w.base else s.contained } := by
  simp only [next] at h
  split at h
  · next w hw =>
    split at h
    · contradiction
    · next htask =>
      split at h
      · next hready => exact ⟨w, hw, htask, hready.1, Option.isNone_iff_eq_none.mp hready.2.1,
          hready.2.2, (Option.some.inj h).symm⟩
      · contradiction
  · contradiction

def system (live : KernelModel D) : GuardedSystem (SharedModel D E T) (WriterStep D E T) where
  init := init live
  enabled s i := (s.next i).isSome
  step s i := (s.next i).getD s

instance (live : KernelModel D) (s : SharedModel D E T) (i : WriterStep D E T) :
    Decidable ((system live).enabled s i) :=
  inferInstanceAs (Decidable ((s.next i).isSome = true))

theorem step_of_next {live : KernelModel D} {i : WriterStep D E T} (h : s.next i = some s') :
    (system live).step s i = s' := by
  simp [system, h]

theorem exists_next {live : KernelModel D} {i : WriterStep D E T}
    (h : (system live).enabled s i) : s.next i = some ((system live).step s i) := by
  obtain ⟨s', hs'⟩ := Option.isSome_iff_exists.mp h
  exact hs'.trans (congrArg some (step_of_next hs').symm)

end SharedModel

theorem settle_toBool_iff {D : ModelData} {E T : Type}
    {fingerprint : Fingerprint} {clone live : KernelModel D}
    {outcome : OpOutcome E T} :
    (settle key fingerprint clone live outcome).1.toBool = true ↔
      outcome.isValue = true ∧ modelFingerprint live = fingerprint := by
  rcases outcome with value | e | _
  · by_cases h : modelFingerprint live = fingerprint
    · simp [settle, h, Except.toBool, OpOutcome.isValue]
    · simp [settle, h, Except.toBool]
  · simp [settle, Except.toBool, OpOutcome.isValue]
  · simp [settle, Except.toBool, OpOutcome.isValue]

theorem snd_settle {D : ModelData} {E T : Type} (key : String) (fingerprint : Fingerprint)
    (clone live : KernelModel D) (outcome : OpOutcome E T) :
    (settle key fingerprint clone live outcome).2 =
      if (settle key fingerprint clone live outcome).1.toBool then clone else live := by
  rcases outcome with value | e | _
  · by_cases h : modelFingerprint live = fingerprint
    · simp [settle, h, Except.toBool]
    · simp [settle, h, Except.toBool]
  · rfl
  · rfl

end RosheraCad
