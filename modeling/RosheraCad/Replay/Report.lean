import RosheraCad.Replay.Dispatch

/-!
# Replay with a report

The rebuild certificate replays a log on its own: it notes for each event how its replay went, and
where a sheet was drawn from a part it derives the sheet anew. Everything else is applied as in the
rebuild, and the two loops build one model.
-/

namespace RosheraCad

structure CertificateKernel (Model Assemblies Snapshot Drawing : Type*) extends
    GeometryKernel Model Assemblies Snapshot where
  standardDrawingAuto : Model → LiveId → Uuid → Except String Drawing
  setDrawingId : Uuid → Drawing → Drawing
  verifyDrawing : Drawing → Bool × ℕ
  hasNoSolids : Model → Bool
  isValid : Model → Bool

/-- The event key is a field of the model: the last setting counts, and a new model has none. -/
class LawfulEventKey {Model Assemblies Snapshot : Type*}
    (kernel : GeometryKernel Model Assemblies Snapshot) : Prop where
  clear_set : ∀ key model,
    kernel.setEventKey none (kernel.setEventKey key model) = kernel.setEventKey none model
  clear_new : kernel.setEventKey none kernel.newModel = kernel.newModel

/-! ## Sheets -/

/-- Outcome of re-deriving a sheet. -/
inductive DrawingRederive (Drawing : Type*)
  | rebuilt (id : Uuid) (sheet : Drawing)
  | dangling (entity : String)
  | failed (reason : String)

def parseDrawingRef [UuidParser] (v : Json) : Option Uuid :=
  v.asStr?.bind fun s ↦
    if "drawing:".toList.isPrefixOf s.toList then
      UuidParser.parseStr (String.ofList (s.toList.drop "drawing:".length))
    else none

def parseUuidField [UuidParser] (inner : Json) (key : String) : Option Uuid :=
  ((inner.get? key).bind Json.asStr?).bind UuidParser.parseStr

inductive EventResult
  | ok
  | failed (reason : String)
  | dangling (entity : String)
  | stale (reason : String)
  deriving DecidableEq

def ReplayError.eventResult : ReplayError → EventResult
  | .danglingReference _ entity => .dangling entity
  | .nonGeometryStale _ reason => .stale reason
  | other => .failed other.text

def EventResult.isBroken : EventResult → Bool
  | .failed _ | .dangling _ => true
  | .ok | .stale _ => false

structure ReplayReport (Model Assemblies Drawing : Type*) where
  model : Model
  outcome : ReplayOutcome Assemblies
  perEvent : OrderedMap EventIndex EventResult
  drawings : OrderedMap Uuid Drawing

def drawingFromPartKind : String := "drawing.create_from_part"

namespace CertificateKernel

variable {Model Assemblies Snapshot Drawing : Type*}
  (kernel : CertificateKernel Model Assemblies Snapshot Drawing)

section Step

variable [UuidParser]

def rederivePartDrawing (model : Model) (event : TimelineEvent) (idRemap : IdRemap) :
    DrawingRederive Drawing :=
  match event.operation with
  | .generic _ parameters =>
    let inner := envelopeParams parameters
    match ((recordedChannel parameters "outputs").findSome? parseDrawingRef).or
        (parseUuidField inner "drawing_id") with
    | none => .dangling "drawing:<unrecorded-id>"
    | some id =>
      match (inner.get? "solid_id").bind Json.asU64? with
      | none => .failed "missing `solid_id`"
      | some recorded =>
        let solid := liveId idRemap recorded
        if kernel.containsSolid model solid then
          let part := (parseUuidField inner "part_uuid").getD Uuid.nil
          match kernel.standardDrawingAuto model solid part with
          | .error e => .failed ("sheet derivation failed: " ++ e)
          | .ok drawing =>
            let drawing := kernel.setDrawingId id drawing
            let (passed, errors) := kernel.verifyDrawing drawing
            if passed then .rebuilt id drawing
            else .failed ("re-derived sheet failed the quality oracle: " ++ toString errors ++
              " error issue(s)")
        else .dangling ("solid:" ++ toString recorded)
  | _ => .failed "non-Generic drawing operation"

/-- Derive a sheet: it has a verdict, and counts for nothing else. -/
def replayDrawing (s : ReplayReport Model Assemblies Drawing) (dispatched : TimelineEvent) :
    EventResult × ReplayReport Model Assemblies Drawing :=
  match kernel.rederivePartDrawing s.model dispatched s.outcome.idRemap with
  | .rebuilt id sheet =>
    (.ok, { s with
      outcome := { s.outcome with eventsApplied := s.outcome.eventsApplied + 1 }
      drawings := s.drawings.insert id sheet })
  | .dangling entity => (.dangling entity, s)
  | .failed reason => (.failed reason, s)

def replayApplied (s : ReplayReport Model Assemblies Drawing) (dispatched : TimelineEvent) :
    EventResult × ReplayReport Model Assemblies Drawing :=
  let (result, model, assemblies, idRemap) :=
    kernel.applyEvent s.model s.outcome.assemblies s.outcome.idRemap dispatched
  let outcome : ReplayOutcome Assemblies := { s.outcome with assemblies, idRemap }
  match result with
  | .ok () =>
    (.ok, { s with model, outcome := { outcome with eventsApplied := outcome.eventsApplied + 1 } })
  | .error err =>
    let skipped := if err.eventResult.isBroken then 1 else 0
    (err.eventResult, { s with
      model
      outcome := { outcome with eventsSkipped := outcome.eventsSkipped + skipped } })

def replayFeature (s : ReplayReport Model Assemblies Drawing) (dispatched : TimelineEvent) :
    EventResult × ReplayReport Model Assemblies Drawing :=
  if (dispatched.genericParams drawingFromPartKind).isSome then kernel.replayDrawing s dispatched
  else kernel.replayApplied s dispatched

variable [FloatDebug]

def reportStep (overrides : OverrideSet) (s : ReplayReport Model Assemblies Drawing)
    (event : TimelineEvent) : ReplayReport Model Assemblies Drawing :=
  if event.isParamMeta then
    { s with outcome := { s.outcome with eventsApplied := s.outcome.eventsApplied + 1 } }
  else
    let (result, s) := kernel.replayFeature s ((overrides.overriddenEvent event).getD event)
    { s with perEvent := s.perEvent.insert event.sequenceNumber result }

def noReport : ReplayReport Model Assemblies Drawing :=
  ⟨kernel.newModel, kernel.toReplayKernel.noOutcome, ∅, ∅⟩

def replayWithReport (events : List TimelineEvent) : ReplayReport Model Assemblies Drawing :=
  events.foldl (kernel.reportStep (.collect events)) kernel.noReport

end Step

/-! ## The model that is built -/

theorem exists_of_genericParams {e : TimelineEvent} {command : String}
    (h : (e.genericParams command).isSome) :
    ∃ parameters, e.operation = .generic command parameters := by
  rw [TimelineEvent.genericParams] at h
  split at h
  · next commandType parameters hop =>
    split_ifs at h with hcommand
    · exact ⟨parameters, hcommand ▸ hop⟩
    · cases h
  · cases h

section Rebuild

variable {kernel}

theorem applyEvent_drawing [LawfulEventKey kernel.toGeometryKernel] {model : Model}
    (hclear : kernel.setEventKey none model = model) (assemblies : Assemblies) (idRemap : IdRemap)
    {event : TimelineEvent} (h : (event.genericParams drawingFromPartKind).isSome) :
    (kernel.applyEvent model assemblies idRemap event).2 = (model, assemblies, idRemap) := by
  obtain ⟨parameters, hop⟩ := exists_of_genericParams h
  have hassembly : GeometryKernel.isAssembly drawingFromPartKind = false := by decide
  have harm : armOf drawingFromPartKind = none := by decide
  rw [GeometryKernel.applyEvent, hop]
  simp only [hassembly, GeometryKernel.dispatchGeneric, harm, LawfulEventKey.clear_set, hclear,
    Bool.false_eq_true, if_false]

variable [UuidParser] {s : ReplayReport Model Assemblies Drawing}

/-- **A replayed event leaves what applying it leaves.** -/
theorem replayFeature_state [LawfulEventKey kernel.toGeometryKernel]
    (hclear : kernel.setEventKey none s.model = s.model) (dispatched : TimelineEvent) :
    ((kernel.replayFeature s dispatched).2.model,
        (kernel.replayFeature s dispatched).2.outcome.assemblies,
        (kernel.replayFeature s dispatched).2.outcome.idRemap) =
      (kernel.applyEvent s.model s.outcome.assemblies s.outcome.idRemap dispatched).2 := by
  rw [replayFeature]
  split_ifs with hdrawing
  · rw [applyEvent_drawing hclear _ _ hdrawing, replayDrawing]
    split <;> rfl
  · rw [replayApplied]
    rcases kernel.applyEvent s.model s.outcome.assemblies s.outcome.idRemap dispatched with
      ⟨err | ⟨⟩, model, assemblies, idRemap⟩
    · rfl
    · rfl

/-- A replay with a report stands where a rebuild stands, and no event key is set. -/
structure Agrees (kernel : CertificateKernel Model Assemblies Snapshot Drawing)
    (s : ReplayReport Model Assemblies Drawing) (t : Model × ReplayOutcome Assemblies) : Prop where
  state_eq : (s.model, s.outcome.assemblies, s.outcome.idRemap) =
    (t.1, t.2.assemblies, t.2.idRemap)
  clear : kernel.setEventKey none s.model = s.model

variable [FloatDebug]

/-- **One event keeps the two replays together.** -/
theorem Agrees.step [LawfulEventKey kernel.toGeometryKernel]
    {t : Model × ReplayOutcome Assemblies} (h : Agrees kernel s t) (overrides : OverrideSet)
    (event : TimelineEvent) :
    Agrees kernel (kernel.reportStep overrides s event)
      (kernel.toReplayKernel.rebuildStep overrides t event) := by
  obtain ⟨hmodel, hrest⟩ := Prod.mk.inj h.state_eq
  obtain ⟨hassemblies, hremap⟩ := Prod.mk.inj hrest
  rw [reportStep, ReplayKernel.rebuildStep]
  split_ifs with hmeta
  · exact ⟨h.state_eq, h.clear⟩
  · set dispatched := (overrides.overriddenEvent event).getD event
    have hstate := replayFeature_state h.clear dispatched
    constructor
    · refine hstate.trans ?_
      rw [hmodel, hassemblies, hremap]
      dsimp only [GeometryKernel.toReplayKernel]
      rcases kernel.applyEvent t.1 t.2.assemblies t.2.idRemap dispatched with
        ⟨err | ⟨⟩, model, assemblies, idRemap⟩
      · rfl
      · rfl
    · -- Applying an event ends with clearing the key.
      have hcleared : (kernel.replayFeature s dispatched).2.model =
          (kernel.applyEvent s.model s.outcome.assemblies s.outcome.idRemap dispatched).2.1 :=
        congrArg Prod.fst hstate
      show kernel.setEventKey none (kernel.replayFeature s dispatched).2.model =
        (kernel.replayFeature s dispatched).2.model
      rw [hcleared]
      exact LawfulEventKey.clear_set none _

variable (kernel) in
theorem replayWithReport_model [LawfulEventKey kernel.toGeometryKernel]
    (events : List TimelineEvent) : (kernel.replayWithReport events).model =
      (kernel.toReplayKernel.rebuildModelFromEvents kernel.newModel events).1 := by
  have hinit : Agrees kernel kernel.noReport
      (kernel.newModel, kernel.toReplayKernel.noOutcome) :=
    ⟨rfl, LawfulEventKey.clear_new⟩
  have hrun := List.foldl_rel (l := events) (r := Agrees kernel) hinit
    fun event _ s t hst ↦ hst.step (.collect events) event
  exact congrArg Prod.fst hrun.state_eq

end Rebuild

/-! ## The results -/

section Results

variable [UuidParser] [FloatDebug] (events : List TimelineEvent)

def reportBefore (i : ℕ) : ReplayReport Model Assemblies Drawing :=
  (events.take i).foldl (kernel.reportStep (.collect events)) kernel.noReport

def ReplaysAs (event : TimelineEvent) (result : EventResult) : Prop :=
  ∃ i, events[i]? = some event ∧ result = (kernel.replayFeature (kernel.reportBefore events i)
    (((OverrideSet.collect events).overriddenEvent event).getD event)).1

variable {events}

theorem perEvent_foldl_of_not_mem {overrides : OverrideSet} {later : List TimelineEvent}
    {seq : EventIndex} (h : ∀ e ∈ later, e.sequenceNumber ≠ seq)
    (s : ReplayReport Model Assemblies Drawing) :
    (later.foldl (kernel.reportStep overrides) s).perEvent[seq]? = s.perEvent[seq]? := by
  induction later generalizing s with
  | nil => rfl
  | cons e later ih =>
    rw [List.foldl_cons, ih fun e he ↦ h e (List.mem_cons_of_mem _ he), reportStep]
    split_ifs with hmeta
    · rfl
    · have hkept : (kernel.replayFeature s ((overrides.overriddenEvent e).getD e)).2.perEvent =
          s.perEvent := by
        rw [replayFeature]
        split_ifs
        · rw [replayDrawing]
          split <;> rfl
        · rw [replayApplied]
          split
          split <;> rfl
      rw [OrderedMap.lookup_insert, if_neg (h e List.mem_cons_self).symm, hkept]

theorem perEvent_eq_some_iff
    (h : events.Pairwise fun a b ↦ a.sequenceNumber < b.sequenceNumber) {event : TimelineEvent}
    (hmem : event ∈ events) (hfeature : ¬ event.isParamMeta) {result : EventResult} :
    (kernel.replayWithReport events).perEvent[event.sequenceNumber]? = some result ↔
      kernel.ReplaysAs events event result := by
  have hat : ∀ i, events[i]? = some event →
      (kernel.replayWithReport events).perEvent[event.sequenceNumber]? =
        some (kernel.replayFeature (kernel.reportBefore events i)
          (((OverrideSet.collect events).overriddenEvent event).getD event)).1 := by
    intro i hi
    obtain ⟨hlt, rfl⟩ := List.getElem?_eq_some_iff.mp hi
    have hsplit : events = events.take i ++ events[i] :: events.drop (i + 1) := by
      rw [List.getElem_cons_drop, List.take_append_drop]
    have hlater : ∀ e ∈ events.drop (i + 1), e.sequenceNumber ≠ events[i].sequenceNumber := by
      intro e he
      obtain ⟨j, hj, rfl⟩ := List.getElem_of_mem he
      rw [List.getElem_drop]
      exact (List.pairwise_iff_getElem.mp h i _ hlt _ (by omega)).ne'
    have hrun : kernel.replayWithReport events = (events.drop (i + 1)).foldl
        (kernel.reportStep (.collect events))
        (kernel.reportStep (.collect events) (kernel.reportBefore events i) events[i]) := by
      rw [replayWithReport, reportBefore]
      generalize OverrideSet.collect events = overrides
      conv_lhs => rw [hsplit]
      rw [List.foldl_append, List.foldl_cons]
    rw [hrun, perEvent_foldl_of_not_mem kernel hlater, reportStep, if_neg hfeature,
      OrderedMap.lookup_insert, if_pos rfl]
  obtain ⟨i, hlt, rfl⟩ := List.getElem_of_mem hmem
  have hi := List.getElem?_eq_getElem hlt
  constructor
  · intro hresult
    exact ⟨i, hi, Option.some_inj.mp (hresult.symm.trans (hat i hi))⟩
  · rintro ⟨j, hj, rfl⟩
    exact hat j hj

end Results

end CertificateKernel

end RosheraCad
