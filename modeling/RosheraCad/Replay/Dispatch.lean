import RosheraCad.Replay.Incremental
import RosheraCad.Replay.Recorded

/-!
# Dispatching a recorded event

Replay routes an event by its kind to a kernel call. The numbers in its payload are the recording
model's, so each is first looked up in the remap. After the call most kinds that make an entity
stamp it: the first recorded output is remapped to the one the call answered. A deletion drops every
number that stood for the solid.
-/

namespace RosheraCad

/-! ## Errors -/

/-- Errors raised while replaying a single event. -/
inductive ReplayError
  | unknownKind (kind : String)
  | invalidParameters (kind reason : String)
  | kernelError (kind message : String)
  | danglingReference (kind entity : String)
  | nonGeometryStale (kind reason : String)
  deriving DecidableEq

def ReplayError.text : ReplayError → String
  | unknownKind kind => "unknown operation kind: " ++ kind
  | invalidParameters kind reason => "invalid parameters for " ++ kind ++ ": " ++ reason
  | kernelError kind message => "kernel rejected operation " ++ kind ++ ": " ++ message
  | danglingReference kind entity =>
    "dangling reference in " ++ kind ++ ": " ++ entity ++ " no longer resolves"
  | nonGeometryStale kind reason =>
    "non-geometry event skipped (" ++ kind ++ "): " ++ reason

def fallbackError (kind : String) : ReplayError :=
  if '.' ∈ kind.toList then
    .nonGeometryStale kind
      "no B-Rep replay arm; the geometry is unaffected, the document record is stale"
  else .unknownKind kind

def numField (v : Json) (name kind : String) : Except ReplayError ℚ :=
  match (v.get? name).bind Json.asF64? with
  | some x => .ok x
  | none => .error (.invalidParameters kind ("missing or non-numeric field `" ++ name ++ "`"))

/-! ## Live entities -/

/-- A number the rebuilt model gives to a solid, a face, an edge or a vertex. -/
abbrev LiveId := BitVec 32

inductive GeometryId
  | face (id : LiveId)
  | solid (id : LiveId)
  | edge (id : LiveId)
  | vertex (id : LiveId)
  deriving DecidableEq

def GeometryId.toU64 : GeometryId → ℕ
  | face id | solid id | edge id | vertex id => id.toNat

/-- The live entities a payload names. -/
structure Bindings where
  solids : List LiveId := []
  faces : List LiveId := []
  edges : List LiveId := []

/-- Translate a recorded number, falling back to the number itself. -/
def remapId (id : ℕ) (idRemap : IdRemap) : ℕ := idRemap[id]?.getD id

def liveId (idRemap : IdRemap) (id : ℕ) : LiveId := BitVec.ofNat 32 (remapId id idRemap)

def stampOutputs (newId : ℕ) (recorded : List ℕ) (idRemap : IdRemap) : IdRemap :=
  match recorded with
  | [] => idRemap
  | recordedId :: _ => idRemap.insert recordedId newId

def dropEntries (solid : LiveId) (idRemap : IdRemap) : IdRemap :=
  idRemap.keep fun id ↦ idRemap[id]? ≠ some solid.toNat

/-! ## What a payload names -/

/-- Which recorded numbers an arm resolves. -/
inductive Refs
  | nothing
  | params (keys : List String)
  | face
  | stampedFace
  /-- The solid under `solid_id` and the faces under `faces_to_remove`. -/
  | opened
  | blend
  | first
  | inputFaces
  | inputEdges

namespace Refs

def requiredInputs (kind : String) (parameters : Json) : Except ReplayError (List Json) :=
  match (parameters.get? "inputs").bind Json.asArray? with
  | some inputs => .ok inputs
  | none => .error (.invalidParameters kind "missing inputs[]")

def firstSolid (kind : String) (inputs : List Json) : Except ReplayError ℕ :=
  match inputs.head?.bind fun v ↦ parseEntityRef v "solid" with
  | some id => .ok id
  | none => .error (.invalidParameters kind "inputs[0] expected `solid:<id>`")

/-- Resolve what a payload names. -/
def bind (kind : String) (parameters : Json) (idRemap : IdRemap) :
    Refs → Except ReplayError Bindings
  | nothing => .ok {}
  | params keys => do
    let ids ← keys.mapM fun key ↦ numField (envelopeParams parameters) key kind
    return { solids := ids.map fun id ↦ liveId idRemap (asU64 id) }
  | face => do
    let id ← numField (envelopeParams parameters) "face_id" kind
    return { faces := [liveId idRemap (asU64 id)] }
  | stampedFace => do
    let id ← numField (envelopeParams parameters) "face_id" kind
    if asU64 id ∈ idRemap then return { faces := [liveId idRemap (asU64 id)] }
    else .error (.danglingReference kind ("face:" ++ toString (asU64 id)))
  | opened => do
    let id ← numField (envelopeParams parameters) "solid_id" kind
    match ((envelopeParams parameters).get? "faces_to_remove").bind Json.asArray? with
    | none => .error (.invalidParameters kind "missing `faces_to_remove`")
    | some faces =>
      return { solids := [liveId idRemap (asU64 id)]
               faces := (faces.filterMap Json.asU64?).map (liveId idRemap) }
  | blend => do
    let inputs ← requiredInputs kind parameters
    if inputs = [] then .error (.invalidParameters kind "empty inputs[]")
    else
      let id ← firstSolid kind inputs
      return { solids := [liveId idRemap id]
               edges := ((inputs.drop 1).filterMap fun v ↦ parseEntityRef v "edge").map
                 (liveId idRemap) }
  | first => do
    let id ← firstSolid kind (recordedChannel parameters "inputs")
    return { solids := [liveId idRemap id] }
  | inputFaces => do
    let inputs ← requiredInputs kind parameters
    return { faces := (inputs.filterMap fun v ↦ parseEntityRef v "face").map (liveId idRemap) }
  | inputEdges => do
    let inputs ← requiredInputs kind parameters
    return { edges := (inputs.filterMap fun v ↦ parseEntityRef v "edge").map (liveId idRemap) }

end Refs

/-! ## The arms -/

inductive Arm
  | create
  | build (refs : Refs)
  | buildUnstamped
  | edit (refs : Refs)
  | reanchor
  | deleteSolid
  | note (valid : Json → Bool) (reason : String)

private def hasSketch (inner : Json) : Bool := ((inner.get? "csketch_id").bind Json.asStr?).isSome

private def isObject : Json → Bool
  | .object _ => true
  | _ => false

private def hasColour (inner : Json) : Bool :=
  ((inner.get? "rgb").bind Json.asArray?).any fun rgb ↦ rgb.length = 3

def armOf (kind : String) : Option Arm :=
  if kind ∈ ["create_point_2d", "create_line_2d", "create_circle_2d", "create_rectangle_2d",
      "create_box_3d", "create_sphere_3d", "create_cylinder_3d", "create_cone_3d",
      "create_torus_3d"] then
    some .create
  else if kind ∈ ["create_plane_3d", "extrude_polygon", "nurbs_loft", "revolve_typed",
      "revolve_meridian"] then
    some (.build .nothing)
  else if kind ∈ ["sketch_extrude", "sketch_revolve"] then some .buildUnstamped
  else if kind = "extrude_face" then some (.build .face)
  else if kind = "revolve_face" then some (.build .stampedFace)
  else if kind = "offset_solid" then some (.build .opened)
  else if kind ∈ ["boolean_union", "boolean_intersection", "boolean_difference"] then
    some (.build (.params ["solid_a", "solid_b"]))
  else if kind = "deep_clone_solid" then some (.build (.params ["source_solid_id"]))
  else if kind ∈ ["sweep_profile", "loft_profiles"] then some (.build .inputEdges)
  else if kind = "solid_reanchor" then some .reanchor
  else if kind ∈ ["fillet_edges", "chamfer_edges"] then some (.edit .blend)
  else if kind ∈ ["transform_solid", "mirror"] then some (.edit (.params ["solid_id"]))
  else if kind = "transform_faces" then some (.edit .inputFaces)
  else if kind = "transform_edges" then some (.edit .inputEdges)
  else if kind = "set_name" then some (.edit .first)
  else if kind ∈ ["datum_create", "datum_create_derived", "datum_rename", "datum_set_transform",
      "datum_set_visibility", "datum_delete", "clear_geometry"] then
    some (.edit .nothing)
  else if kind = "delete_solid" then some .deleteSolid
  else if kind ∈ ["csketch_trim", "csketch_extend", "csketch_offset", "csketch_mirror",
      "csketch_pattern_linear", "csketch_pattern_circular", "csketch_pattern_curve",
      "csketch_pattern_phyllotaxis", "csketch_construction"] then
    some (.note hasSketch "missing `csketch_id`")
  else if kind = "timeline_operation" then some (.note isObject "payload is not an object")
  else if kind = "set_color" then some (.note hasColour "missing/malformed `rgb` [r,g,b]")
  else none

def Arm.remapAfter (idRemap : IdRemap) (outputs : List ℕ) : Arm → Option GeometryId → IdRemap
  | .create, some entity | .build _, some entity | .reanchor, some entity =>
    stampOutputs entity.toU64 outputs idRemap
  | .deleteSolid, some (.solid solid) => dropEntries solid idRemap
  | _, _ => idRemap

/-! ## The kernel -/

structure GeometryKernel (Model Assemblies Snapshot : Type*) where
  newModel : Model
  noAssemblies : Assemblies
  take : Model → Snapshot
  restore : Snapshot → Model → Model
  setEventKey : Option String → Model → Model
  create : String → Json → Model → Except ReplayError GeometryId × Model
  build : String → Json → Bindings → Model → Except ReplayError LiveId × Model
  edit : String → Json → Bindings → Model → Except ReplayError Unit × Model
  containsSolid : Model → LiveId → Bool
  deleteSolid : LiveId → Bool → Model → Except ReplayError Unit × Model
  dispatchAssembly : String → Json → Assemblies → Except ReplayError Unit × Assemblies

namespace GeometryKernel

variable {Model Assemblies Snapshot : Type*} (kernel : GeometryKernel Model Assemblies Snapshot)

/-- The call of an arm that works in place, with the first solid it was given. -/
def runEdit (refs : Refs) (kind : String) (parameters : Json) (idRemap : IdRemap) (model : Model) :
    Except ReplayError (Option GeometryId) × Model :=
  match refs.bind kind parameters idRemap with
  | .error e => (.error e, model)
  | .ok bindings =>
    let (result, model) := kernel.edit kind parameters bindings model
    (result.map fun () ↦ bindings.solids.head?.map .solid, model)

def runArm (kind : String) (parameters : Json) (idRemap : IdRemap) (model : Model) :
    Arm → Except ReplayError (Option GeometryId) × Model
  | .create =>
    let (result, model) := kernel.create kind parameters model
    (result.map some, model)
  | .build refs =>
    match refs.bind kind parameters idRemap with
    | .error e => (.error e, model)
    | .ok bindings =>
      let (result, model) := kernel.build kind parameters bindings model
      (result.map fun solid ↦ some (.solid solid), model)
  | .buildUnstamped =>
    let (result, model) := kernel.build kind parameters {} model
    (result.map fun solid ↦ some (.solid solid), model)
  | .edit refs => kernel.runEdit refs kind parameters idRemap model
  | .reanchor => kernel.runEdit (.params ["solid_id"]) kind parameters idRemap model
  | .deleteSolid =>
    match numField (envelopeParams parameters) "solid_id" kind with
    | .error e => (.error e, model)
    | .ok id =>
      let solid := liveId idRemap (asU64 id)
      let cascade := match (envelopeParams parameters).get? "cascade" with
        | some (.bool cascade) => cascade
        | _ => true
      -- A solid that is already gone needs no deletion.
      if kernel.containsSolid model solid then
        let (result, model) := kernel.deleteSolid solid cascade model
        (result.map fun () ↦ some (.solid solid), model)
      else (.ok (some (.solid solid)), model)
  | .note valid reason =>
    if valid (envelopeParams parameters) then (.ok none, model)
    else (.error (.invalidParameters kind reason), model)

def dispatchGeneric (kind : String) (parameters : Json) (model : Model) (idRemap : IdRemap) :
    Except ReplayError Unit × Model × IdRemap :=
  match armOf kind with
  | none => (.error (fallbackError kind), model, idRemap)
  | some arm =>
    match kernel.runArm kind parameters idRemap model arm with
    | (.error e, model) => (.error e, model, idRemap)
    | (.ok entity, model) =>
      let outputs := (recordedChannel parameters "outputs").filterMap parseAnyEntityRef
      (.ok (), model, arm.remapAfter idRemap outputs entity)

def isAssembly (commandType : String) : Bool := "assembly.".toList.isPrefixOf commandType.toList

def applyEvent (model : Model) (assemblies : Assemblies) (idRemap : IdRemap)
    (event : TimelineEvent) : Except ReplayError Unit × Model × Assemblies × IdRemap :=
  let model := kernel.setEventKey (some ("evt:" ++ toString event.sequenceNumber)) model
  let (result, model, assemblies, idRemap) := match event.operation with
    | .generic commandType parameters =>
      if isAssembly commandType then
        let (result, assemblies) := kernel.dispatchAssembly commandType parameters assemblies
        (result, model, assemblies, idRemap)
      else
        let (result, model, idRemap) :=
          kernel.dispatchGeneric commandType parameters model idRemap
        (result, model, assemblies, idRemap)
    | other => (.error (.unknownKind ("non-Generic operation variant: Discriminant("
        ++ toString other.ctorIdx ++ ")")), model, assemblies, idRemap)
  (result, kernel.setEventKey none model, assemblies, idRemap)

def toReplayKernel : ReplayKernel Model Assemblies Snapshot where
  newModel := kernel.newModel
  noAssemblies := kernel.noAssemblies
  applyEvent model assemblies idRemap event :=
    let (result, rest) := kernel.applyEvent model assemblies idRemap event
    (result.mapError ReplayError.text, rest)
  take := kernel.take
  restore := kernel.restore

end GeometryKernel

end RosheraCad
