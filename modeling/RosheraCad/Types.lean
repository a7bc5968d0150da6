import RosheraCad.Json
import RosheraCad.Library.OrderedMap

/-!
# Identifiers, operations and events

An identifier is a UUID under a kind. An operation keeps the entities it names as identifiers and
every other field in its serialised form, which is what operations are compared by. The recorder
bridge wraps a kernel record into the envelope of a generic operation.
-/

namespace RosheraCad

abbrev Bytes := List UInt8

def asciiBytes (s : String) : Bytes := s.toList.map fun c ↦ UInt8.ofNat c.toNat

/-! ## Identifiers -/

/-- A UUID: 128 bits, the first byte the most significant. -/
abbrev Uuid := BitVec 128

namespace Uuid

def hexDigit (n : ℕ) : Char :=
  if n < 10 then Char.ofNat (48 + n) else Char.ofNat (87 + n)

def hexDigits (u : Uuid) : List Char :=
  (List.range 32).map fun i ↦ hexDigit ((u.toNat >>> (4 * (31 - i))) % 16)

def toText (u : Uuid) : String :=
  let digits := hexDigits u
  let group (start len : ℕ) : String := String.ofList ((digits.drop start).take len)
  group 0 8 ++ "-" ++ group 8 4 ++ "-" ++ group 12 4 ++ "-" ++ group 16 4 ++ "-" ++ group 20 12

def nil : Uuid := 0

instance : Std.TransOrd Uuid := inferInstance

example : toText 0xabcdef = "00000000-0000-0000-0000-000000abcdef" := by decide

end Uuid

inductive IdKind
  | event
  | branch
  | entity
  deriving DecidableEq

structure Id (kind : IdKind) where
  uuid : Uuid
  deriving DecidableEq

namespace Id

variable {kind : IdKind}

instance : LawfulBEq (Id kind) := inferInstance

instance : Ord (Id kind) := ⟨compareOn Id.uuid⟩

instance : Std.TransOrd (Id kind) := inferInstanceAs (Std.TransCmp (compareOn Id.uuid))

instance : Std.LawfulEqOrd (Id kind) where
  eq_of_compare {a b} h := by
    cases a
    cases b
    exact congrArg _ (Std.LawfulEqOrd.eq_of_compare h)

def toText (i : Id kind) : String := i.uuid.toText

end Id

/-- Unique identifier for timeline events. -/
abbrev EventId := Id .event

abbrev BranchId := Id .branch

/-- Unique identifier for entities (geometry objects). -/
abbrev EntityId := Id .entity

def BranchId.main : BranchId := ⟨Uuid.nil⟩

abbrev SessionId := String

/-- Sequential event index in the timeline: a global sequence number. -/
abbrev EventIndex := ℕ

/-- An instant. -/
structure Timestamp where
  nanos : ℤ
  deriving DecidableEq

inductive Author
  | user (id name : String)
  | aiAgent (id model : String)
  | system
  deriving DecidableEq

/-! ## Operations -/

/-- Geometry operations. Fields that name no entity of the selection are kept in their serialised
form. -/
inductive Operation
  | createSketch (plane elements : Json)
  | createPrimitive (primitiveType parameters : Json)
  | extrude (sketchId : EntityId) (distance direction : Json)
  | revolve (sketchId : EntityId) (axis angle : Json)
  | loft (profiles : List EntityId) (guideCurves : Json)
  | sweep (profile path : EntityId)
  | booleanUnion (operands : List EntityId)
  | booleanIntersection (operands : List EntityId)
  | booleanDifference (target : EntityId) (tools : List EntityId)
  | fillet (edges : List EntityId) (radius : Json) (perEdgeOverrides : Option Json)
  | chamfer (edges : List EntityId) (distance angle : Json)
  | pattern (features : List EntityId) (patternType : Json)
  | transform (entities : List EntityId) (transformation : Json)
  | delete (entities : List EntityId)
  | modify (entity : EntityId) (modifications : Json)
  | createCheckpoint (name description : String) (tags : List String)
  | batch (operations : List Operation) (description : String)
  | boolean (operation : Json) (operandA operandB : EntityId)
  | generic (commandType : String) (parameters : Json)

private def entityJson (e : EntityId) : Json := .string e.toText

private def entitiesJson (es : List EntityId) : Json := .array (es.map entityJson)

namespace Operation

mutual

/-- The wire form of an operation: its fields and its variant's name under `type`. -/
def toValue : Operation → Json
  | createSketch plane elements =>
    .object [("elements", elements), ("plane", plane), ("type", .string "CreateSketch")]
  | createPrimitive primitiveType parameters =>
    .object [("parameters", parameters), ("primitive_type", primitiveType),
      ("type", .string "CreatePrimitive")]
  | extrude sketchId distance direction =>
    .object [("direction", direction), ("distance", distance), ("sketch_id", entityJson sketchId),
      ("type", .string "Extrude")]
  | revolve sketchId axis angle =>
    .object [("angle", angle), ("axis", axis), ("sketch_id", entityJson sketchId),
      ("type", .string "Revolve")]
  | loft profiles guideCurves =>
    .object [("guide_curves", guideCurves), ("profiles", entitiesJson profiles),
      ("type", .string "Loft")]
  | sweep profile path =>
    .object [("path", entityJson path), ("profile", entityJson profile), ("type", .string "Sweep")]
  | booleanUnion operands =>
    .object [("operands", entitiesJson operands), ("type", .string "BooleanUnion")]
  | booleanIntersection operands =>
    .object [("operands", entitiesJson operands), ("type", .string "BooleanIntersection")]
  | booleanDifference target tools =>
    .object [("target", entityJson target), ("tools", entitiesJson tools),
      ("type", .string "BooleanDifference")]
  | fillet edges radius perEdgeOverrides =>
    .object ([("edges", entitiesJson edges)]
      ++ (perEdgeOverrides.toList.map fun overrides ↦ ("per_edge_overrides", overrides))
      ++ [("radius", radius), ("type", .string "Fillet")])
  | chamfer edges distance angle =>
    .object [("angle", angle), ("distance", distance), ("edges", entitiesJson edges),
      ("type", .string "Chamfer")]
  | pattern features patternType =>
    .object [("features", entitiesJson features), ("pattern_type", patternType),
      ("type", .string "Pattern")]
  | transform entities transformation =>
    .object [("entities", entitiesJson entities), ("transformation", transformation),
      ("type", .string "Transform")]
  | delete entities =>
    .object [("entities", entitiesJson entities), ("type", .string "Delete")]
  | modify entity modifications =>
    .object [("entity", entityJson entity), ("modifications", modifications),
      ("type", .string "Modify")]
  | createCheckpoint name description tags =>
    .object [("description", .string description), ("name", .string name),
      ("tags", .ofStrings tags), ("type", .string "CreateCheckpoint")]
  | batch operations description =>
    .object [("description", .string description), ("operations", .array (toValues operations)),
      ("type", .string "Batch")]
  | boolean operation operandA operandB =>
    .object [("operand_a", entityJson operandA), ("operand_b", entityJson operandB),
      ("operation", operation), ("type", .string "Boolean")]
  | generic commandType parameters =>
    .object [("command_type", .string commandType), ("parameters", parameters),
      ("type", .string "Generic")]

def toValues : List Operation → List Json
  | [] => []
  | op :: ops => toValue op :: toValues ops

end

end Operation

/-! ## Events -/

inductive EntityType
  | sketch
  | solid
  | surface
  | curve
  | point
  | edge
  | face
  | vertex
  | loop
  | datum
  | assembly
  | component
  | mate
  deriving DecidableEq

inductive ValidationRequirement
  | mustExist
  | mustBeType (entityType : EntityType)
  | mustSatisfy (predicate : String)
  deriving DecidableEq

structure EntityReference where
  id : EntityId
  expectedType : EntityType
  validation : ValidationRequirement
  deriving DecidableEq

structure OperationInputs where
  requiredEntities : List EntityReference
  optionalEntities : List EntityReference
  parameters : Json

structure CreatedEntity where
  id : EntityId
  entityType : EntityType
  name : Option String
  deriving DecidableEq

structure OperationOutputs where
  created : List CreatedEntity
  modified : List EntityId
  deleted : List EntityId

def OperationInputs.default : OperationInputs := ⟨[], [], .null⟩

def OperationOutputs.default : OperationOutputs := ⟨[], [], []⟩

/-- Main timeline event structure. -/
structure TimelineEvent where
  id : EventId
  sequenceNumber : EventIndex
  author : Author
  operation : Operation
  inputs : OperationInputs
  outputs : OperationOutputs
  branchId : BranchId

/-- A kernel event on the main branch: an operation of a kind, in the wire envelope. -/
def TimelineEvent.ofWire (seq : EventIndex) (kind : String) (inputs outputs : List String) :
    TimelineEvent where
  id := ⟨BitVec.ofNat 128 seq⟩
  sequenceNumber := seq
  author := .system
  operation := .generic kind (.object [("inputs", .ofStrings inputs),
    ("outputs", .ofStrings outputs), ("params", .object [])])
  inputs := .default
  outputs := .default
  branchId := .main

structure RecordedOperation where
  kind : String
  parameters : Json
  inputs : List String
  outputs : List String
  deleted : List String
  facets : List (String × Json)

namespace RecordedOperation

variable (record : RecordedOperation)

def envelope : List (String × Json) :=
  (if record.deleted = [] then [] else [("deleted", .ofStrings record.deleted)])
    ++ (if record.facets = [] then [] else [("facets", .object record.facets)])
    ++ [("inputs", .ofStrings record.inputs), ("outputs", .ofStrings record.outputs),
      ("params", record.parameters)]

def toTimelineOperation : Operation := .generic record.kind (.object record.envelope)

end RecordedOperation

end RosheraCad
