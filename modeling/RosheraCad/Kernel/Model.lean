import RosheraCad.Brep.Snapshot
import RosheraCad.Recorder.Staging

/-!
# The kernel model and its snapshot

The kernel model is the topology with its sidecars, and the context of the operation being applied.
`with_rollback` takes a snapshot before it runs an operation's body, and restores it when the body
fails. A field that the snapshot does not list is not undone.
-/

namespace RosheraCad

/-- A 128-bit persistent identifier of a topological entity, by its number. -/
abbrev PersistentId := ℕ

inductive LengthUnit
  | millimetre
  | centimetre
  | metre
  | inch
  | foot
  deriving DecidableEq

/-- The types of the data a kernel model carries whole, and what a new model holds of them. -/
structure ModelData where
  Curve : Type
  Surface : Type
  PCurve : Type
  SketchPlane : Type
  DatumStore : Type
  DatumGraph : Type
  LocationDescriptor : Type
  SolidProvenance : Type
  ConstructionGeometry : Type
  GdtSidecar : Type
  DatumReferenceFrame : Type
  LabelSidecar : Type
  ShellTables : Type
  seededDatums : DatumStore
  newDatumGraph : DatumGraph
  newGdt : GdtSidecar
  newLabels : LabelSidecar
  defaultTolerance : F64 × F64

/-- B-Rep model container with all topology stores, its sidecars and the operation context. -/
structure KernelModel (D : ModelData) extends BRepModel D.Curve D.Surface where
  pcurves : IdStore D.PCurve
  shellTables : OrderedMap ℕ ℕ
  sketchPlanes : OrderedMap String D.SketchPlane
  datums : D.DatumStore
  datumGraph : D.DatumGraph
  locationCache : OrderedMap ℕ D.LocationDescriptor
  capApexHint : OrderedMap ℕ (F64 × F64 × F64)
  recorder : Option ℕ
  tolerance : F64 × F64
  vertexPids : OrderedMap ℕ PersistentId
  edgePids : OrderedMap ℕ PersistentId
  facePids : OrderedMap ℕ PersistentId
  solidPids : OrderedMap ℕ PersistentId
  pidToVertex : OrderedMap PersistentId ℕ
  pidToEdge : OrderedMap PersistentId ℕ
  pidToFace : OrderedMap PersistentId ℕ
  pidToSolid : OrderedMap PersistentId ℕ
  currentEventKey : Option String
  currentReservedSequence : Option ℕ
  rootCounter : ℕ
  solidProvenance : OrderedMap ℕ D.SolidProvenance
  solidConstruction : OrderedMap ℕ D.ConstructionGeometry
  documentUnit : LengthUnit
  gdt : D.GdtSidecar
  drf : OrderedMap ℕ D.DatumReferenceFrame
  labels : D.LabelSidecar

def KernelModel.new (D : ModelData) : KernelModel D where
  vertices := .empty
  curves := .empty
  surfaces := .empty
  edges := .empty
  loops := .empty
  faces := .empty
  shells := .empty
  solids := .empty
  pcurves := .empty
  shellTables := ∅
  sketchPlanes := ∅
  datums := D.seededDatums
  datumGraph := D.newDatumGraph
  locationCache := ∅
  capApexHint := ∅
  recorder := none
  tolerance := D.defaultTolerance
  vertexPids := ∅
  edgePids := ∅
  facePids := ∅
  solidPids := ∅
  pidToVertex := ∅
  pidToEdge := ∅
  pidToFace := ∅
  pidToSolid := ∅
  currentEventKey := none
  currentReservedSequence := none
  rootCounter := 0
  solidProvenance := ∅
  solidConstruction := ∅
  documentUnit := .millimetre
  gdt := D.newGdt
  drf := ∅
  labels := D.newLabels

def KernelModel.attachRecorder {D : ModelData} (m : KernelModel D) (recorder : Option ℕ) :
    KernelModel D :=
  { m with recorder := recorder }

/-! ## The snapshot -/

structure ModelSnapshot (D : ModelData) where
  vertices : IdStore Vertex
  curves : IdStore D.Curve
  pcurves : IdStore D.PCurve
  edges : IdStore Edge
  loops : IdStore Loop
  surfaces : IdStore D.Surface
  faces : IdStore Face
  shells : IdStore Shell
  shellTables : OrderedMap ℕ ℕ
  solids : IdStore Solid
  sketchPlanes : OrderedMap String D.SketchPlane
  datums : D.DatumStore
  datumGraph : D.DatumGraph
  locationCache : OrderedMap ℕ D.LocationDescriptor
  tolerance : F64 × F64
  vertexPids : OrderedMap ℕ PersistentId
  edgePids : OrderedMap ℕ PersistentId
  facePids : OrderedMap ℕ PersistentId
  solidPids : OrderedMap ℕ PersistentId
  pidToVertex : OrderedMap PersistentId ℕ
  pidToEdge : OrderedMap PersistentId ℕ
  pidToFace : OrderedMap PersistentId ℕ
  pidToSolid : OrderedMap PersistentId ℕ
  rootCounter : ℕ
  gdt : D.GdtSidecar
  drf : OrderedMap ℕ D.DatumReferenceFrame
  solidConstruction : OrderedMap ℕ D.ConstructionGeometry
  labels : D.LabelSidecar

namespace ModelSnapshot

variable {D : ModelData}

def take (m : KernelModel D) : ModelSnapshot D where
  vertices := m.vertices
  curves := m.curves
  pcurves := m.pcurves
  edges := m.edges
  loops := m.loops
  surfaces := m.surfaces
  faces := m.faces
  shells := m.shells
  shellTables := m.shellTables
  solids := m.solids
  sketchPlanes := m.sketchPlanes
  datums := m.datums
  datumGraph := m.datumGraph
  locationCache := m.locationCache
  tolerance := m.tolerance
  vertexPids := m.vertexPids
  edgePids := m.edgePids
  facePids := m.facePids
  solidPids := m.solidPids
  pidToVertex := m.pidToVertex
  pidToEdge := m.pidToEdge
  pidToFace := m.pidToFace
  pidToSolid := m.pidToSolid
  rootCounter := m.rootCounter
  gdt := m.gdt
  drf := m.drf
  solidConstruction := m.solidConstruction
  labels := m.labels

/-- Restore a model to the captured state; what the snapshot does not list stays. -/
def restore (s : ModelSnapshot D) (m : KernelModel D) : KernelModel D :=
  { m with
    vertices := s.vertices
    curves := s.curves
    pcurves := s.pcurves
    edges := s.edges
    loops := s.loops
    surfaces := s.surfaces
    faces := s.faces
    shells := s.shells
    shellTables := s.shellTables
    solids := s.solids
    sketchPlanes := s.sketchPlanes
    datums := s.datums
    datumGraph := s.datumGraph
    locationCache := s.locationCache
    tolerance := s.tolerance
    vertexPids := s.vertexPids
    edgePids := s.edgePids
    facePids := s.facePids
    solidPids := s.solidPids
    pidToVertex := s.pidToVertex
    pidToEdge := s.pidToEdge
    pidToFace := s.pidToFace
    pidToSolid := s.pidToSolid
    rootCounter := s.rootCounter
    gdt := s.gdt
    drf := s.drf
    solidConstruction := s.solidConstruction
    labels := s.labels }

/-- **What a snapshot carries over**: everything but the recorder, the operation context, the apex
hints, the provenance and the unit. -/
theorem restore_take (m m' : KernelModel D) : (take m).restore m' =
    { m with
      capApexHint := m'.capApexHint
      recorder := m'.recorder
      currentEventKey := m'.currentEventKey
      currentReservedSequence := m'.currentReservedSequence
      solidProvenance := m'.solidProvenance
      documentUnit := m'.documentUnit } := rfl

end ModelSnapshot

/-! ## What a model refers to -/

structure Shared (D : ModelData) where
  tables : ℕ → D.ShellTables
  staging : ℕ → StagingState
  handed : ℕ → List StagedOp

def Shared.call {D : ModelData} (s : Shared D) (recorder : ℕ) (c : StagingCall) : Shared D :=
  { s with
    staging := Function.update s.staging recorder ((s.staging recorder).call c).1
    handed := Function.update s.handed recorder
      (s.handed recorder ++ ((s.staging recorder).call c).2) }

/-- A model with what it refers to. -/
structure World (D : ModelData) where
  model : KernelModel D
  shared : Shared D

namespace World

variable {D : ModelData} (w : World D)

def callRecorder (c : StagingCall) : World D :=
  match w.model.recorder with
  | some recorder => { w with shared := w.shared.call recorder c }
  | none => w

def beginPendingRecord : World D := w.callRecorder .start

def commitPendingRecord : World D := w.callRecorder (.stop .commit)

def abortPendingRecord : World D :=
  let w := w.callRecorder (.stop .abort)
  { w with model := { w.model with currentEventKey := none, currentReservedSequence := none } }

theorem model_callRecorder (c : StagingCall) : (w.callRecorder c).model = w.model := by
  rw [callRecorder]
  split <;> rfl

theorem tables_callRecorder (c : StagingCall) :
    (w.callRecorder c).shared.tables = w.shared.tables := by
  rw [callRecorder]
  split <;> rfl

end World

/-- An operation on a model: it succeeds or fails, and leaves a model either way. -/
abbrev KernelOp (D : ModelData) (E T : Type) := World D → Except E T × World D

/-- Wrap a mutating body in snapshot and restore semantics. -/
def withRollback {D : ModelData} {E T : Type} (body : KernelOp D E T) : KernelOp D E T :=
  fun w ↦
    let snapshot := ModelSnapshot.take w.model
    match body w.beginPendingRecord with
    | (.ok out, w) => (.ok out, w.commitPendingRecord)
    | (.error e, w) =>
      let w := w.abortPendingRecord
      (.error e, { w with model := snapshot.restore w.model })

/-- The models agree in every field except the recorder and the operation context. -/
structure World.SameModel {D : ModelData} (w w' : World D) : Prop where
  model : { w'.model with
    recorder := w.model.recorder
    currentEventKey := w.model.currentEventKey
    currentReservedSequence := w.model.currentReservedSequence } = w.model
  tables : ∀ id ref : ℕ, w.model.shellTables[id]? = some ref →
    w'.shared.tables ref = w.shared.tables ref

/-! ## What a rollback restores -/

variable {D : ModelData} {E T : Type}

/-- A body leaves the fields a snapshot does not copy as they were. -/
structure World.KeepsUncopied (w left : World D) : Prop where
  capApexHint : left.model.capApexHint = w.model.capApexHint
  solidProvenance : left.model.solidProvenance = w.model.solidProvenance
  documentUnit : left.model.documentUnit = w.model.documentUnit
  tables : ∀ id ref : ℕ, w.model.shellTables[id]? = some ref →
    left.shared.tables ref = w.shared.tables ref

theorem withRollback_of_ok {body : KernelOp D E T} {w left : World D} {out : T}
    (h : body w.beginPendingRecord = (.ok out, left)) :
    ∃ w', withRollback body w = (.ok out, w') ∧ w'.model = left.model :=
  ⟨left.commitPendingRecord, by rw [withRollback, h], left.model_callRecorder _⟩

/-- An error leaves the snapshot with the uncopied fields of the failed body, and no operation
context. -/
theorem withRollback_of_error {body : KernelOp D E T} {w left : World D} {e : E}
    (h : body w.beginPendingRecord = (.error e, left)) :
    (withRollback body w).2.model =
        { w.model with
          capApexHint := left.model.capApexHint
          recorder := left.model.recorder
          currentEventKey := none
          currentReservedSequence := none
          solidProvenance := left.model.solidProvenance
          documentUnit := left.model.documentUnit } ∧
      (withRollback body w).2.shared.tables = left.shared.tables := by
  have hmodel := left.model_callRecorder (.stop .abort)
  have htables := left.tables_callRecorder (.stop .abort)
  simp only [withRollback, h, World.abortPendingRecord, ModelSnapshot.restore_take]
  rw [hmodel, htables]
  exact ⟨rfl, rfl⟩

theorem exists_of_withRollback_error {body : KernelOp D E T} {w : World D} {e : E}
    (h : (withRollback body w).1 = .error e) :
    ∃ left, body w.beginPendingRecord = (.error e, left) := by
  rcases hbody : body w.beginPendingRecord with ⟨_ | out, left⟩
  · simp only [withRollback, hbody, Except.error.injEq] at h
    exact ⟨left, by rw [h]⟩
  · simp [withRollback, hbody] at h

/-- **A rollback restores the model** just when the failed body left alone what a snapshot does not
copy. -/
theorem withRollback_restores_iff (body : KernelOp D E T) (w : World D) (e : E)
    (h : (withRollback body w).1 = .error e) :
    w.SameModel (withRollback body w).2 ↔ w.KeepsUncopied (body w.beginPendingRecord).2 := by
  obtain ⟨left, hbody⟩ := exists_of_withRollback_error h
  obtain ⟨hmodel, htables⟩ := withRollback_of_error hbody
  rw [hbody]
  constructor
  · rintro ⟨hsame, hshared⟩
    rw [hmodel] at hsame
    rw [htables] at hshared
    have hhints := congrArg KernelModel.capApexHint hsame
    have hprovenance := congrArg KernelModel.solidProvenance hsame
    have hunit := congrArg KernelModel.documentUnit hsame
    exact ⟨hhints, hprovenance, hunit, hshared⟩
  · rintro ⟨hhints, hprovenance, hunit, hshared⟩
    refine ⟨?_, by rwa [htables]⟩
    rw [hmodel, hhints, hprovenance, hunit]

/-! ## An example -/

/-- Models that carry nothing. -/
@[reducible] def exampleData : ModelData where
  Curve := Unit
  Surface := Unit
  PCurve := Unit
  SketchPlane := Unit
  DatumStore := Unit
  DatumGraph := Unit
  LocationDescriptor := Unit
  SolidProvenance := Unit
  ConstructionGeometry := Unit
  GdtSidecar := Unit
  DatumReferenceFrame := Unit
  LabelSidecar := Unit
  ShellTables := Unit
  seededDatums := ()
  newDatumGraph := ()
  newGdt := ()
  newLabels := ()
  defaultTolerance := (0, 0)

def exampleWorld : World exampleData :=
  ⟨.new exampleData, fun _ ↦ (), fun _ ↦ .new, fun _ ↦ []⟩

/-- A body that adds a face with an apex hint, as a boolean does for a cap, and fails. -/
private def capThenFail : KernelOp exampleData String Unit := fun w ↦
  let face := w.model.faces.add ⟨0, 0, [], .forward⟩
  (.error "result failed validation",
    { w with model := { w.model with
      faces := face.2
      capApexHint := w.model.capApexHint.insert face.1 (0, 0, 0) } })

/-- A body that adds a vertex and fails is undone. -/
theorem withRollback_restores_iff_vertex :
    exampleWorld.SameModel (withRollback (E := String) (T := Unit) (fun w ↦
      (.error "degenerate", { w with model := { w.model with
        vertices := (w.model.vertices.add ⟨(0, 0, 0), 0⟩).2 } })) exampleWorld).2 :=
  (withRollback_restores_iff _ _ "degenerate" rfl).mpr ⟨rfl, rfl, rfl, fun _ _ _ ↦ rfl⟩

/-- **The hint of a rolled-back face stays**, on an id the next face is given. -/
theorem not_withRollback_restores_cap :
    (withRollback capThenFail exampleWorld).2.model.capApexHint[0]? = some (0, 0, 0) ∧
      (withRollback capThenFail exampleWorld).2.model.faces.nextId = 0 ∧
      ¬ ∀ (body : KernelOp exampleData String Unit) (w : World exampleData) (e : String),
        (withRollback body w).1 = .error e → w.SameModel (withRollback body w).2 := by
  refine ⟨by decide, rfl, fun h ↦ ?_⟩
  have hsame := (h capThenFail exampleWorld _ rfl).model
  have hhint := congrArg (fun m ↦ m.capApexHint[0]?) hsame
  exact absurd hhint (by decide)

end RosheraCad
