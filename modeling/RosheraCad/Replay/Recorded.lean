import RosheraCad.Durability.Boot
import RosheraCad.Replay.Mould

/-!
# What an event records

A kernel event names entities by the recording model's numbers, in its recorded inputs and outputs
and under some keys of its parameters. A face or an edge is taken by its raw number, which is no
longer its own once another branch has run in the same model.
-/

namespace RosheraCad

/-! ## Reading a reference -/

def splitKind (text : String) : Option (String × List Char) :=
  match text.toList.span (· ≠ ':') with
  | (_, []) => none
  | (kind, _ :: id) => some (String.ofList kind, id)

/-- The number of a recorded reference of one kind. A bare number has no kind and is trusted. -/
def parseEntityRef (v : Json) (expectedKind : String) : Option ℕ :=
  match v.asStr? with
  | some text => (splitKind text).bind fun (kind, id) ↦
      if kind = expectedKind then (KernelRef.parseU64 id).map BitVec.toNat else none
  | none => v.asU64?

def parseAnyEntityRef (v : Json) : Option ℕ :=
  match v.asStr? with
  | some text => (splitKind text).bind fun (_, id) ↦ (KernelRef.parseU64 id).map BitVec.toNat
  | none => v.asU64?

/-- A float cast to `u64`: rounded towards zero, and kept in range. -/
def asU64 (x : ℚ) : ℕ := min x.floor.toNat (2 ^ 64 - 1)

def isU128 (text : List Char) : Bool :=
  let digits := if text.head? = some '+' then text.tail else text
  digits ≠ [] && digits.all Char.isDigit &&
    digits.foldl (fun n c ↦ 10 * n + (c.toNat - 48)) 0 < 2 ^ 128

def parseRecordedEdgePids (inner : Json) : List Bool :=
  (((inner.get? "edge_pids").bind Json.asArray?).getD []).map fun v ↦
    v.asStr?.any fun text ↦ isU128 text.toList

def recordedChannel (parameters : Json) (channel : String) : List Json :=
  ((parameters.get? channel).bind Json.asArray?).getD []

/-- The kinds of event whose replay resolves a face or an edge by its recorded number. -/
def rawFaceEdgeArms : List String :=
  ["extrude_face", "revolve_face", "transform_faces", "transform_edges", "sweep_profile",
    "loft_profiles", "fillet_edges", "chamfer_edges", "offset_solid", "datum_create_derived"]

def refsOf (kind : String) (refs : List Json) : List String :=
  (refs.filterMap fun v ↦ parseEntityRef v kind).map fun id ↦ kind ++ ":" ++ toString id

def TimelineEvent.rawTopologyReferences (event : TimelineEvent) : List String :=
  match event.operation with
  | .generic commandType parameters =>
    if commandType ∉ rawFaceEdgeArms then []
    else
      let inner := envelopeParams parameters
      let inputs := recordedChannel parameters "inputs"
      if commandType ∈ ["extrude_face", "revolve_face"] then
        match (inner.get? "face_id").bind Json.asF64? with
        | some id => ["face:" ++ toString (asU64 id)]
        | none => []
      else if commandType ∈ ["transform_faces", "offset_solid"] then refsOf "face" inputs
      else if commandType ∈ ["transform_edges", "sweep_profile", "loft_profiles"] then
        refsOf "edge" inputs
      else if commandType = "datum_create_derived" then
        ["vertex", "edge", "face"].flatMap fun kind ↦ refsOf kind inputs
      else
        -- A blend names its solid first. An edge with a persistent id is bound by that.
        let pids := parseRecordedEdgePids inner
        (((inputs.drop 1).filterMap fun v ↦ parseEntityRef v "edge").zipIdx.filter fun p ↦
          !(pids[p.2]?).getD false).map fun p ↦ "edge:" ++ toString p.1
  | _ => []

/-! ## Solids by number -/

def solidParamKeys : List String := ["solid_a", "solid_b", "solid_id", "source_solid_id"]

def TimelineEvent.recordedSolidInputs (event : TimelineEvent) : List ℕ :=
  match event.operation with
  | .generic _ parameters =>
    let inner := envelopeParams parameters
    let ids := (solidParamKeys.filterMap fun key ↦ (inner.get? key).bind Json.asF64?).map asU64
      ++ (recordedChannel parameters "inputs").filterMap fun v ↦ parseEntityRef v "solid"
    (ids.insertionSort (· ≤ ·)).destutter (· ≠ ·)
  | _ => []

def TimelineEvent.recordedSolidOutputs (event : TimelineEvent) : List ℕ :=
  match event.operation with
  | .generic _ parameters =>
    (recordedChannel parameters "outputs").filterMap fun v ↦ parseEntityRef v "solid"
  | _ => []

/-- The checks of a replayed history that read what its events record. -/
def ReplayChecks.recorded (firstBreak : List TimelineEvent → Option Boundary) : ReplayChecks where
  firstBreak
  rawTopologyReferences := TimelineEvent.rawTopologyReferences
  recordedSolidInputs := TimelineEvent.recordedSolidInputs
  recordedSolidOutputs := TimelineEvent.recordedSolidOutputs

/-! ## References that are still awaited -/

def awaited : List TimelineEvent → List ℕ
  | [] => []
  | event :: events =>
    event.recordedSolidInputs ++ (awaited events).filter (· ∉ event.recordedSolidOutputs)

theorem mem_awaited_cons {event : TimelineEvent} {events : List TimelineEvent} {r : ℕ} :
    r ∈ awaited (event :: events) ↔
      r ∈ event.recordedSolidInputs ∨ r ∈ awaited events ∧ r ∉ event.recordedSolidOutputs := by
  rw [awaited, List.mem_append, List.mem_filter, decide_eq_true_iff]

namespace ReplayChecks

variable {firstBreak : List TimelineEvent → Option Boundary}
  {producerOutside : ℕ → EventIndex → Option (EventIndex × BranchId)}

theorem mem_produced_of_solidBreak_eq_none {events : List TimelineEvent} :
    ∀ {produced : List ℕ},
      (ReplayChecks.recorded firstBreak).solidBreak producerOutside produced events = none →
        ∀ r ∈ awaited events, r ∈ produced := by
  induction events with
  | nil => exact fun _ r hr ↦ absurd hr List.not_mem_nil
  | cons event events ih =>
    intro produced hbreak r hr
    rw [solidBreak] at hbreak
    rcases hmissing : event.recordedSolidInputs.find? (· ∉ produced) with _ | solid
    · have hrest : (ReplayChecks.recorded firstBreak).solidBreak producerOutside
          (produced ++ event.recordedSolidOutputs) events = none := by
        simpa only [ReplayChecks.recorded, hmissing] using hbreak
      rcases mem_awaited_cons.mp hr with hinput | ⟨hawaited, houtput⟩
      · simpa using List.find?_eq_none.mp hmissing r hinput
      · have hproduced := List.mem_append.mp (ih hrest r hawaited)
        exact hproduced.resolve_right houtput
    · simp only [ReplayChecks.recorded, hmissing] at hbreak
      exact nomatch hbreak

/-- **An accepted history awaits nothing from outside**: every solid an event of it takes was
recorded by an earlier event of it. -/
theorem awaited_eq_nil_of_accepted {history : List TimelineEvent}
    {firstForeign : Option (EventIndex × BranchId)}
    (h : (ReplayChecks.recorded firstBreak).subsetReplayBoundary history firstForeign
      producerOutside = none) : awaited history = [] := by
  have hbreak :
      (ReplayChecks.recorded firstBreak).solidBreak producerOutside [] history = none := by
    rw [subsetReplayBoundary, earliest, List.argmin_eq_none] at h
    rcases hsolid : (ReplayChecks.recorded firstBreak).solidBreak producerOutside [] history with
      _ | bound
    · rfl
    · rw [hsolid] at h
      rcases hraw : (ReplayChecks.recorded firstBreak).interleaveBreak history firstForeign with
        _ | bound' <;> simp [hraw] at h
  exact List.eq_nil_iff_forall_not_mem.mpr fun r hr ↦
    List.not_mem_nil (mem_produced_of_solidBreak_eq_none hbreak r hr)

end ReplayChecks

end RosheraCad
