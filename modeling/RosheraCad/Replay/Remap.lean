import RosheraCad.Replay.Dispatch

/-!
# What a recorded solid resolves to

The check of a replayed history counts every solid an event records as an output, the remap only the
first recorded number, and only from the kinds that stamp. A reference is awaited while a later
event takes it before it is recorded again.
-/

namespace RosheraCad

/-! ## Changes of the remap -/

inductive RemapChange
  | keep
  | stamp (id newId : ℕ)
  | drop (solid : LiveId)

namespace RemapChange

def apply (idRemap : IdRemap) : RemapChange → IdRemap
  | keep => idRemap
  | stamp id newId => idRemap.insert id newId
  | drop solid => dropEntries solid idRemap

def Stamps (r : ℕ) : RemapChange → Prop
  | stamp id _ => id = r
  | _ => False

instance (r : ℕ) : DecidablePred (Stamps r)
  | keep => isFalse id
  | stamp id _ => inferInstanceAs (Decidable (id = r))
  | drop _ => isFalse id

def Spares (idRemap : IdRemap) (r : ℕ) : RemapChange → Prop
  | keep => True
  | stamp id newId => id = r → BitVec.ofNat 32 newId = liveId idRemap r
  | drop solid => idRemap[r]? = some solid.toNat → BitVec.ofNat 32 r = solid

instance (idRemap : IdRemap) (r : ℕ) : DecidablePred (Spares idRemap r)
  | keep => isTrue trivial
  | stamp id _ => inferInstanceAs (Decidable (id = r → _))
  | drop _ => inferInstanceAs (Decidable (_ → _))

theorem liveId_stamp (idRemap : IdRemap) (id newId r : ℕ) :
    liveId ((stamp id newId).apply idRemap) r =
      if id = r then BitVec.ofNat 32 newId else liveId idRemap r := by
  rw [liveId, liveId, remapId, remapId, apply, OrderedMap.lookup_insert]
  by_cases hr : r = id
  · rw [if_pos hr, if_pos hr.symm, Option.getD_some]
  · rw [if_neg hr, if_neg (Ne.symm hr)]

theorem liveId_drop (idRemap : IdRemap) (solid : LiveId) (r : ℕ) :
    liveId ((drop solid).apply idRemap) r =
      if idRemap[r]? = some solid.toNat then BitVec.ofNat 32 r else liveId idRemap r := by
  rw [liveId, liveId, remapId, remapId, apply, dropEntries, OrderedMap.getElem?_keep]
  by_cases hr : idRemap[r]? = some solid.toNat
  · simp [hr]
  · simp [hr]

/-- **A number keeps what it stands for** exactly under the changes that spare it. -/
theorem liveId_apply_eq_iff (change : RemapChange) (idRemap : IdRemap) (r : ℕ) :
    liveId (change.apply idRemap) r = liveId idRemap r ↔ change.Spares idRemap r := by
  rcases change with _ | ⟨id, newId⟩ | solid
  · exact iff_of_true rfl trivial
  · rw [liveId_stamp, Spares]
    by_cases hid : id = r
    · rw [if_pos hid, forall_prop_of_true hid]
    · rw [if_neg hid, forall_prop_of_false hid]
      exact iff_of_true rfl trivial
  · rw [liveId_drop, Spares]
    by_cases hr : idRemap[r]? = some solid.toNat
    · have hsolid : liveId idRemap r = solid := by
        rw [liveId, remapId, hr, Option.getD_some, BitVec.ofNat_toNat, BitVec.setWidth_eq]
      rw [if_pos hr, forall_prop_of_true hr, hsolid]
    · rw [if_neg hr, forall_prop_of_false hr]
      exact iff_of_true rfl trivial

end RemapChange

/-! ## Answers -/

/-- What a successful dispatch had: its arm, the recorded outputs and the entity of its call. -/
structure Answer where
  arm : Arm
  outputs : List ℕ
  entity : Option GeometryId

namespace Answer

def made (a : Answer) : Option LiveId :=
  match a.arm, a.entity with
  | .deleteSolid, _ => none
  | _, some (.solid solid) => some solid
  | _, _ => none

def change (a : Answer) : RemapChange :=
  match a.arm, a.entity, a.outputs with
  | .create, some entity, id :: _ | .build _, some entity, id :: _
  | .reanchor, some entity, id :: _ => .stamp id entity.toU64
  | .deleteSolid, some (.solid solid), _ => .drop solid
  | _, _, _ => .keep

theorem remapAfter_eq (a : Answer) (idRemap : IdRemap) :
    a.arm.remapAfter idRemap a.outputs a.entity = a.change.apply idRemap := by
  obtain ⟨arm, outputs, entity⟩ := a
  rcases arm <;> rcases entity with _ | _ | _ | _ | _ <;> rcases outputs with _ | _ <;> rfl

theorem liveId_change_iff {a : Answer} {solid : LiveId} (h : a.made = some solid)
    (idRemap : IdRemap) (r : ℕ) :
    liveId (a.change.apply idRemap) r = solid ↔ a.change.Stamps r ∨ liveId idRemap r = solid := by
  obtain ⟨arm, outputs, entity⟩ := a
  obtain rfl : entity = some (.solid solid) := by
    rcases arm <;> rcases entity with _ | _ | _ | _ | _ <;> simp_all [made]
  have hstamp : ∀ id newId, Answer.change ⟨arm, outputs, some (.solid solid)⟩ = .stamp id newId →
      newId = solid.toNat := by
    intro id newId hchange
    rcases arm <;> rcases outputs with _ | _ <;> simp_all [change, GeometryId.toU64]
  have hdrop : ∀ gone, Answer.change ⟨arm, outputs, some (.solid solid)⟩ ≠ .drop gone := by
    intro gone hchange
    rcases arm <;> rcases outputs with _ | _ <;> simp_all [change, made]
  rcases hchange : Answer.change ⟨arm, outputs, some (.solid solid)⟩ with _ | ⟨id, newId⟩ | gone
  · exact ⟨Or.inr, fun h ↦ h.resolve_left id⟩
  · obtain rfl := hstamp id newId hchange
    rw [RemapChange.liveId_stamp, RemapChange.Stamps]
    by_cases hid : id = r
    · rw [if_pos hid, BitVec.ofNat_toNat, BitVec.setWidth_eq]
      exact iff_of_true rfl (Or.inl hid)
    · rw [if_neg hid, or_iff_right hid]
  · exact absurd hchange (hdrop gone)

end Answer

/-! ## One event of a replay -/

def producer (history : List TimelineEvent) (r : ℕ) : ℕ → Option ℕ
  | 0 => none
  | i + 1 =>
    if history[i]?.any fun event ↦ r ∈ event.recordedSolidOutputs then some i
    else producer history r i

namespace GeometryKernel

variable {Model Assemblies Snapshot : Type*} (kernel : GeometryKernel Model Assemblies Snapshot)

/-- What the kernel answers to an event, when it is a kernel event that replays. -/
def answer (model : Model) (idRemap : IdRemap) (event : TimelineEvent) : Option Answer :=
  match event.operation with
  | .generic commandType parameters =>
    if isAssembly commandType then none
    else (armOf commandType).bind fun arm ↦
      let model := kernel.setEventKey (some ("evt:" ++ toString event.sequenceNumber)) model
      match (kernel.runArm commandType parameters idRemap model arm).1 with
      | .ok entity => some
          ⟨arm, (recordedChannel parameters "outputs").filterMap parseAnyEntityRef, entity⟩
      | .error _ => none
  | _ => none

theorem applyEvent_idRemap (model : Model) (assemblies : Assemblies) (idRemap : IdRemap)
    (event : TimelineEvent) :
    (kernel.applyEvent model assemblies idRemap event).2.2.2 =
      ((kernel.answer model idRemap event).elim .keep Answer.change).apply idRemap := by
  rw [applyEvent, answer]
  rcases event.operation
  case generic commandType parameters =>
    by_cases hassembly : isAssembly commandType
    · simp only [hassembly, if_true]
      rfl
    · simp only [hassembly, Bool.false_eq_true, if_false, dispatchGeneric]
      rcases armOf commandType with _ | arm
      · rfl
      · simp only [Option.bind_some]
        rcases kernel.runArm commandType parameters idRemap _ arm with ⟨_ | entity, model'⟩
        · rfl
        · exact Answer.remapAfter_eq ⟨arm, _, entity⟩ idRemap
  all_goals rfl

section Replayed

variable [FloatDebug] (overrides : OverrideSet) (s : Model × ReplayOutcome Assemblies)

def answerAt (event : TimelineEvent) : Option Answer :=
  if event.isParamMeta then none
  else kernel.answer s.1 s.2.idRemap ((overrides.overriddenEvent event).getD event)

def changeAt (event : TimelineEvent) : RemapChange :=
  (kernel.answerAt overrides s event).elim .keep Answer.change

def madeAt (event : TimelineEvent) : Option LiveId :=
  (kernel.answerAt overrides s event).bind Answer.made

theorem rebuildStep_idRemap (event : TimelineEvent) :
    (kernel.toReplayKernel.rebuildStep overrides s event).2.idRemap =
      (kernel.changeAt overrides s event).apply s.2.idRemap := by
  rw [ReplayKernel.rebuildStep, changeAt, answerAt]
  by_cases hmeta : event.isParamMeta
  · simp only [hmeta, if_true]
    rfl
  · have happly := kernel.applyEvent_idRemap s.1 s.2.assemblies s.2.idRemap
      ((overrides.overriddenEvent event).getD event)
    simp only [hmeta, Bool.false_eq_true, if_false, ← happly, toReplayKernel]
    rcases kernel.applyEvent s.1 s.2.assemblies s.2.idRemap _ with ⟨_ | _, _, _, _⟩ <;> rfl

structure KeepsReferences (event : TimelineEvent) (rs : List ℕ) : Prop where
  recorded : ∀ r ∈ rs, r ∈ event.recordedSolidOutputs →
    ∃ solid ∈ kernel.madeAt overrides s event,
      (kernel.changeAt overrides s event).Stamps r ∨ liveId s.2.idRemap r = solid
  others : ∀ r ∈ rs, r ∉ event.recordedSolidOutputs →
    (kernel.changeAt overrides s event).Spares s.2.idRemap r

instance (event : TimelineEvent) (rs : List ℕ) :
    Decidable (kernel.KeepsReferences overrides s event rs) :=
  -- The solid is looked for in the answer, not among all numbers.
  have : ∀ r, Decidable (∃ solid ∈ kernel.madeAt overrides s event,
      (kernel.changeAt overrides s event).Stamps r ∨ liveId s.2.idRemap r = solid) :=
    fun _ ↦ Option.decidableExistsMem _
  decidable_of_iff (_ ∧ _) ⟨fun h ↦ ⟨h.1, h.2⟩, fun h ↦ ⟨h.recorded, h.others⟩⟩

theorem bound_recorded_iff (event : TimelineEvent) (r : ℕ) :
    (∃ solid, kernel.madeAt overrides s event = some solid ∧
        liveId (kernel.toReplayKernel.rebuildStep overrides s event).2.idRemap r = solid) ↔
      ∃ solid ∈ kernel.madeAt overrides s event,
        (kernel.changeAt overrides s event).Stamps r ∨ liveId s.2.idRemap r = solid := by
  rw [rebuildStep_idRemap, madeAt, changeAt]
  rcases kernel.answerAt overrides s event with _ | a
  · simp
  · refine exists_congr fun solid ↦ and_congr_right fun hmade ↦ ?_
    exact Answer.liveId_change_iff hmade s.2.idRemap r

/-! ## A whole replay -/

variable (model : Model) (history : List TimelineEvent)

def stateBefore (i : ℕ) : Model × ReplayOutcome Assemblies :=
  (history.take i).foldl (kernel.toReplayKernel.rebuildStep (.collect history))
    (model, kernel.toReplayKernel.noOutcome)

/-- Before position `i` a reference stands for the solid made by the latest event recording it. -/
def Bound (i r : ℕ) : Prop :=
  ∃ j solid, producer history r i = some j ∧
    (history[j]?.bind fun event ↦
      kernel.madeAt (.collect history) (kernel.stateBefore model history j) event) = some solid ∧
    liveId (kernel.stateBefore model history i).2.idRemap r = solid

/-- Every recorded solid an event takes stands for the solid made by its latest producer. -/
def BindsRecorded : Prop :=
  ∀ (i : ℕ) (hi : i < history.length), ∀ r ∈ history[i].recordedSolidInputs,
    kernel.Bound model history i r

/-- At every position, the event keeps the references that are awaited after it. -/
def KeepsAwaited : Prop :=
  ∀ (i : ℕ) (hi : i < history.length),
    kernel.KeepsReferences (.collect history) (kernel.stateBefore model history i) history[i]
      (awaited (history.drop (i + 1)))

instance : Decidable (kernel.KeepsAwaited model history) :=
  inferInstanceAs (Decidable (∀ (i : ℕ) (_ : i < history.length), _))

variable {kernel model history} {i r : ℕ}

theorem rebuildModelFromEvents_eq_stateBefore :
    kernel.toReplayKernel.rebuildModelFromEvents model history =
      kernel.stateBefore model history history.length := by
  rw [stateBefore, List.take_length]
  rfl

theorem stateBefore_succ (hi : i < history.length) :
    kernel.stateBefore model history (i + 1) =
      kernel.toReplayKernel.rebuildStep (.collect history) (kernel.stateBefore model history i)
        history[i] := by
  rw [stateBefore, stateBefore, List.take_succ_eq_append_getElem hi, List.foldl_append,
    List.foldl_cons, List.foldl_nil]

omit [FloatDebug] in
theorem mem_awaited_drop (hi : i < history.length) :
    r ∈ awaited (history.drop i) ↔ r ∈ history[i].recordedSolidInputs ∨
      r ∈ awaited (history.drop (i + 1)) ∧ r ∉ history[i].recordedSolidOutputs := by
  rw [List.drop_eq_getElem_cons hi, mem_awaited_cons]

theorem bound_succ_of_recorded (hi : i < history.length)
    (hr : r ∈ history[i].recordedSolidOutputs) :
    kernel.Bound model history (i + 1) r ↔
      ∃ solid ∈ kernel.madeAt (.collect history) (kernel.stateBefore model history i) history[i],
        (kernel.changeAt (.collect history) (kernel.stateBefore model history i)
          history[i]).Stamps r ∨
        liveId (kernel.stateBefore model history i).2.idRemap r = solid := by
  have hproducer : producer history r (i + 1) = some i := by
    rw [producer, List.getElem?_eq_getElem hi]
    exact if_pos (decide_eq_true hr)
  rw [← bound_recorded_iff, ← stateBefore_succ hi, Bound]
  constructor
  · rintro ⟨j, solid, hj, hmade, hlive⟩
    obtain rfl : i = j := Option.some.inj (hproducer.symm.trans hj)
    rw [List.getElem?_eq_getElem hi, Option.bind_some] at hmade
    exact ⟨solid, hmade, hlive⟩
  · rintro ⟨solid, hmade, hlive⟩
    refine ⟨i, solid, hproducer, ?_, hlive⟩
    rw [List.getElem?_eq_getElem hi, Option.bind_some]
    exact hmade

/-- **The step of any other event**: a bound reference stays bound exactly when it is spared. -/
theorem bound_succ_of_other (hi : i < history.length)
    (hr : r ∉ history[i].recordedSolidOutputs) (hbound : kernel.Bound model history i r) :
    kernel.Bound model history (i + 1) r ↔
      (kernel.changeAt (.collect history) (kernel.stateBefore model history i)
        history[i]).Spares (kernel.stateBefore model history i).2.idRemap r := by
  have hproducer : producer history r (i + 1) = producer history r i := by
    rw [producer, List.getElem?_eq_getElem hi]
    exact if_neg fun h ↦ hr (of_decide_eq_true h)
  obtain ⟨j, solid, hj, hmade, hlive⟩ := hbound
  rw [← RemapChange.liveId_apply_eq_iff, ← rebuildStep_idRemap, ← stateBefore_succ hi, hlive,
    Bound, hproducer]
  constructor
  · rintro ⟨j', solid', hj', hmade', hlive'⟩
    obtain rfl : j = j' := Option.some.inj (hj.symm.trans hj')
    obtain rfl : solid = solid' := Option.some.inj (hmade.symm.trans hmade')
    exact hlive'
  · intro hlive'
    exact ⟨j, solid, hj, hmade, hlive'⟩

variable {firstBreak : List TimelineEvent → Option Boundary}
  {firstForeign : Option (EventIndex × BranchId)}
  {producerOutside : ℕ → EventIndex → Option (EventIndex × BranchId)}

/-- **What stays bound**: every awaited reference stands for its solid all the way, exactly when
every event keeps the references awaited after it. -/
theorem bound_throughout_iff
    (haccepted : (ReplayChecks.recorded firstBreak).subsetReplayBoundary history firstForeign
      producerOutside = none) :
    (∀ i ≤ history.length, ∀ r ∈ awaited (history.drop i), kernel.Bound model history i r) ↔
      kernel.KeepsAwaited model history := by
  constructor
  · intro hbound i hi
    refine ⟨fun r hr hrecorded ↦ ?_, fun r hr hother ↦ ?_⟩
    · exact (bound_succ_of_recorded hi hrecorded).mp (hbound (i + 1) hi r hr)
    · have hbefore := hbound i hi.le r ((mem_awaited_drop hi).mpr (Or.inr ⟨hr, hother⟩))
      exact (bound_succ_of_other hi hother hbefore).mp (hbound (i + 1) hi r hr)
  · intro hkeeps i
    induction i with
    | zero =>
      -- Nothing is awaited before the first event.
      intro _ r hr
      rw [List.drop_zero, ReplayChecks.awaited_eq_nil_of_accepted haccepted] at hr
      exact absurd hr List.not_mem_nil
    | succ i ih =>
      intro hi r hr
      by_cases hrecorded : r ∈ history[i].recordedSolidOutputs
      · exact (bound_succ_of_recorded hi hrecorded).mpr ((hkeeps i hi).recorded r hr hrecorded)
      · have hbefore := ih (Nat.le_of_succ_le hi) r
          ((mem_awaited_drop hi).mpr (Or.inr ⟨hr, hrecorded⟩))
        exact (bound_succ_of_other hi hrecorded hbefore).mpr ((hkeeps i hi).others r hr hrecorded)

variable (kernel model) in
/-- **Recorded solids resolve to their producers** where each event keeps the references awaited
after it. -/
theorem bindsRecorded_of_keepsAwaited
    (haccepted : (ReplayChecks.recorded firstBreak).subsetReplayBoundary history firstForeign
      producerOutside = none) (hkeeps : kernel.KeepsAwaited model history) :
    kernel.BindsRecorded model history := by
  intro i hi r hr
  have hawaited : r ∈ awaited (history.drop i) := (mem_awaited_drop hi).mpr (Or.inl hr)
  exact (bound_throughout_iff haccepted).mpr hkeeps i hi.le r hawaited

end Replayed

/-! ## Example replays -/

def numberingKernel : GeometryKernel (ℕ × List LiveId) Unit (ℕ × List LiveId) where
  newModel := (0, [])
  noAssemblies := ()
  take := id
  restore snapshot _ := snapshot
  setEventKey _ model := model
  create _ _ model := (.ok (.solid model.1), model.1 + 1, BitVec.ofNat 32 model.1 :: model.2)
  build kind _ bindings model :=
    if bindings.solids.all (· ∈ model.2) then
      -- A boolean operation consumes its operands.
      let kept := if kind ∈ ["boolean_union", "boolean_intersection", "boolean_difference"] then
          model.2.filter (· ∉ bindings.solids)
        else model.2
      (.ok model.1, model.1 + 1, BitVec.ofNat 32 model.1 :: kept)
    else (.error (.kernelError kind "Solid not found"), model)
  edit kind _ bindings model :=
    if bindings.solids.all (· ∈ model.2) then (.ok (), model)
    else (.error (.kernelError kind "Solid not found"), model)
  containsSolid model solid := solid ∈ model.2
  deleteSolid solid _ model := (.ok (), model.1, model.2.erase solid)
  dispatchAssembly _ _ assemblies := (.ok (), assemblies)

private def floats (xs : List ℕ) : Json := .array (xs.map fun x ↦ .number (.float x))

private def solidNumber (n : ℕ) : Json := .number (.posInt n)

private def kernelEvent (seq : EventIndex) (kind : String) (params : List (String × Json))
    (inputs outputs : List String) : TimelineEvent :=
  ⟨⟨BitVec.ofNat 128 seq⟩, seq, .system,
    .generic kind (.object [("inputs", .ofStrings inputs), ("outputs", .ofStrings outputs),
      ("params", .object params)]), .default, .default, .main⟩

private def boxEvent (seq : EventIndex) (output : String) : TimelineEvent :=
  kernelEvent seq "create_box_3d" [("Create3D", .object [("parameters", .object
    [("depth", .number (.float 1)), ("height", .number (.float 1)), ("width", .number (.float 1))]),
    ("primitive_type", .string "box"), ("timestamp", .number (.posInt 0))])] [] [output]

private def deleteEvent (seq : EventIndex) (n : ℕ) (solid : String) : TimelineEvent :=
  kernelEvent seq "delete_solid" [("cascade", .bool true), ("solid_id", solidNumber n)] [solid] []

def differenceHistory : List TimelineEvent :=
  [boxEvent 1 "solid:1", boxEvent 2 "solid:2",
    kernelEvent 3 "boolean_difference" [("solid_a", solidNumber 1), ("solid_b", solidNumber 2)]
      ["solid:1", "solid:2"] ["solid:3"],
    deleteEvent 4 3 "solid:3"]

theorem differenceHistory_accepted :
    (ReplayChecks.recorded fun _ ↦ none).subsetReplayBoundary differenceHistory
      (some (0, ⟨1⟩)) (fun _ _ ↦ none) = none := rfl

theorem differenceHistory_keeps :
    letI : FloatDebug := ⟨fun x ↦ toString x⟩
    numberingKernel.KeepsAwaited numberingKernel.newModel differenceHistory := by
  decide +kernel

/-- The difference is taken of the rebuilt boxes, and it is the solid deleted. -/
theorem bindsRecorded_differenceHistory :
    letI : FloatDebug := ⟨fun x ↦ toString x⟩
    numberingKernel.BindsRecorded numberingKernel.newModel differenceHistory :=
  letI : FloatDebug := ⟨fun x ↦ toString x⟩
  bindsRecorded_of_keepsAwaited numberingKernel numberingKernel.newModel
    differenceHistory_accepted differenceHistory_keeps

private def extrudeEvent (seq : EventIndex) (output : String) : TimelineEvent :=
  kernelEvent seq "sketch_extrude" [("direction", floats [0, 0, 1]),
    ("distance", .number (.float 1)), ("origin", floats [0, 0, 0]),
    ("regions", .array [.object [("holes", .array []),
      ("outer", .array [floats [0, 0], floats [1, 0], floats [0, 1]])]]),
    ("u_axis", floats [1, 0, 0]), ("v_axis", floats [0, 1, 0])] [] [output]

def extrudedHistory : List TimelineEvent :=
  [extrudeEvent 1 "solid:1", boxEvent 2 "solid:2", deleteEvent 3 1 "solid:1"]

theorem extrudedHistory_resolves :
    letI : FloatDebug := ⟨fun x ↦ toString x⟩
    let before := numberingKernel.stateBefore numberingKernel.newModel extrudedHistory
    numberingKernel.madeAt (.collect extrudedHistory) (before 0) (extrudeEvent 1 "solid:1") =
        some 0 ∧
      numberingKernel.madeAt (.collect extrudedHistory) (before 1) (boxEvent 2 "solid:2") =
        some 1 ∧
      liveId (before 2).2.idRemap 1 = 1 := by
  decide +kernel

/-- **An accepted history that misbinds**: the extrusion stamps nothing, and the box carries its
number. -/
theorem extrudedHistory_not_bindsRecorded :
    letI : FloatDebug := ⟨fun x ↦ toString x⟩
    (ReplayChecks.recorded fun _ ↦ none).subsetReplayBoundary extrudedHistory
        (some (0, ⟨1⟩)) (fun _ _ ↦ none) = none ∧
      ¬ numberingKernel.BindsRecorded numberingKernel.newModel extrudedHistory := by
  refine ⟨rfl, fun hbinds ↦ ?_⟩
  obtain ⟨j, solid, hj, hmade, hlive⟩ := hbinds 2 (by decide) 1 (by decide)
  obtain rfl : 0 = j := Option.some.inj hj
  obtain ⟨hextruded, -, hresolved⟩ := extrudedHistory_resolves
  have hzero : solid = 0 := Option.some.inj (hmade.symm.trans hextruded)
  have hone : solid = 1 := hlive.symm.trans hresolved
  exact absurd (hzero.symm.trans hone) (by decide)

end GeometryKernel

end RosheraCad
