import RosheraCad.Types
import Mathlib.Algebra.Group.Nat.Defs

/-!
# Kernel references and the typed lineage channels

A kernel operation names entities by references of the form `"<kind>:<id>"`. An integer id is
packed, with its kind, into the 128 bits of an `EntityId`:

```text
byte  0 1 2 3 4   5      6 7      8 .. 15
     [ MAGIC   ][kind][ 0x0000 ][ id: u64 big-endian ]
```

One reference that cannot be represented leaves the event's typed channels empty.
-/

namespace RosheraCad

/-- What the engine uses of the UUID library: reading a UUID from its textual forms. -/
class UuidParser where
  parseStr : String → Option Uuid

namespace KernelRef

/-- Magic prefix marking an `EntityId` as an encoded kernel wire ref: the bytes of `Roshk`. -/
def magic : BitVec 40 := 0x526f73686b#40

/-- A wire ref parsed into the typed channel's representation. -/
structure ParsedRef where
  entityType : EntityType
  id : EntityId
  kindInId : Bool
  deriving DecidableEq

/-- Why a single kernel wire ref could not be carried by the typed channels. -/
inductive KernelRefError
  | malformed (reference : String)
  | unknownKind (reference kind : String)
  | unrepresentableId (reference : String)
  | ambiguousId (reference : String)
  deriving DecidableEq

/-- Why a kernel envelope could not be projected onto the typed channels. -/
inductive EnvelopeError
  | ref (channel : String) (source : KernelRefError)
  | nonStringRef (channel : String)
  | kindLostInBareChannel (reference channel : String)
  | outputAlsoDeleted (reference : String)
  deriving DecidableEq

/-! ## Kinds -/

def wireTag : EntityType → String
  | .sketch => "sketch"
  | .solid => "solid"
  | .surface => "surface"
  | .curve => "curve"
  | .point => "point"
  | .edge => "edge"
  | .face => "face"
  | .vertex => "vertex"
  | .loop => "loop"
  | .datum => "datum"
  | .assembly => "assembly"
  | .component => "component"
  | .mate => "mate"

def entityTypeForTag (tag : String) : Option EntityType :=
  if tag = "sketch" then some .sketch
  else if tag = "solid" then some .solid
  else if tag = "surface" then some .surface
  else if tag = "curve" then some .curve
  else if tag = "point" then some .point
  else if tag = "edge" then some .edge
  else if tag = "face" then some .face
  else if tag = "vertex" then some .vertex
  else if tag = "loop" then some .loop
  else if tag = "datum" then some .datum
  else if tag = "assembly" then some .assembly
  else if tag = "component" then some .component
  else if tag = "mate" then some .mate
  else none

def kindCode : EntityType → BitVec 8
  | .sketch => 1
  | .solid => 2
  | .surface => 3
  | .curve => 4
  | .point => 5
  | .edge => 6
  | .face => 7
  | .vertex => 8
  | .loop => 9
  | .datum => 10
  | .assembly => 11
  | .component => 12
  | .mate => 13

def kindForCode (code : BitVec 8) : Option EntityType :=
  match code.toNat with
  | 1 => some .sketch
  | 2 => some .solid
  | 3 => some .surface
  | 4 => some .curve
  | 5 => some .point
  | 6 => some .edge
  | 7 => some .face
  | 8 => some .vertex
  | 9 => some .loop
  | 10 => some .datum
  | 11 => some .assembly
  | 12 => some .component
  | 13 => some .mate
  | _ => none

theorem entityTypeForTag_wireTag (k : EntityType) : entityTypeForTag (wireTag k) = some k := by
  cases k <;> decide

theorem kindForCode_kindCode (k : EntityType) : kindForCode (kindCode k) = some k := by
  cases k <;> rfl

/-- Encode an integer-valued kernel ref into an `EntityId` that carries both its kind and id. -/
def encode (entityType : EntityType) (id : BitVec 64) : EntityId :=
  ⟨magic ++ kindCode entityType ++ 0#16 ++ id⟩

/-- Recover the kind and the id from an `EntityId` produced by `encode`. -/
def decode (id : EntityId) : Option (EntityType × BitVec 64) :=
  if id.uuid.extractLsb' 88 40 ≠ magic ∨ id.uuid.extractLsb' 64 16 ≠ 0 then none
  else (kindForCode (id.uuid.extractLsb' 80 8)).map fun k ↦ (k, id.uuid.extractLsb' 0 64)

/-- `str::parse::<u64>`: an optional plus sign and at least one decimal digit, in range. -/
def parseU64 (text : List Char) : Option (BitVec 64) :=
  let digits := if text.head? = some '+' then text.tail else text
  if digits = [] ∨ ¬ digits.all Char.isDigit then none
  else
    let n := digits.foldl (fun n c ↦ 10 * n + (c.toNat - 48)) 0
    if n < 2 ^ 64 then some (BitVec.ofNat 64 n) else none

variable [UuidParser]

/-- Parse one canonical `"<kind>:<id>"` kernel wire ref. -/
def parseRef (reference : String) : Except KernelRefError ParsedRef :=
  let (tag, rest) := reference.toList.span (· ≠ ':')
  match rest with
  | [] => .error (.malformed reference)
  | _ :: rest =>
    if tag = [] ∨ rest = [] then .error (.malformed reference)
    else match entityTypeForTag (String.ofList tag) with
    | none => .error (.unknownKind reference (String.ofList tag))
    | some entityType =>
      match parseU64 rest with
      | some numeric => .ok ⟨entityType, encode entityType numeric, true⟩
      | none =>
        match UuidParser.parseStr (String.ofList rest) with
        | some uuid =>
          if (decode ⟨uuid⟩).isSome then .error (.ambiguousId reference)
          else .ok ⟨entityType, ⟨uuid⟩, false⟩
        | none => .error (.unrepresentableId reference)

/-! ## The projection -/

omit [UuidParser] in
/-- Read one lineage channel. One that is absent or no array claims nothing. -/
def wireList (parameters : Json) (channel : String) : Except EnvelopeError (List String) :=
  match (parameters.get? channel).bind Json.asArray? with
  | none => .ok []
  | some array => array.mapM fun entry ↦
      match entry.asStr? with
      | some s => .ok s
      | none => .error (.nonStringRef channel)

/-- Deduplicate refs, preserving first-occurrence order, and parse each exactly once. -/
def parseChannel (refs : List String) (channel : String) :
    Except EnvelopeError (List (String × ParsedRef)) :=
  refs.eraseDups.mapM fun reference ↦
    match parseRef reference with
    | .ok parsed => .ok (reference, parsed)
    | .error source => .error (.ref channel source)

omit [UuidParser] in
def splitOutputs (inputKeys : List String) : List (String × ParsedRef) →
    Except EnvelopeError (List CreatedEntity × List EntityId)
  | [] => .ok ([], [])
  | (key, parsed) :: refs =>
    if key ∈ inputKeys then
      if parsed.kindInId then do
        let (created, modified) ← splitOutputs inputKeys refs
        return (created, parsed.id :: modified)
      else .error (.kindLostInBareChannel key "modified")
    else do
      let (created, modified) ← splitOutputs inputKeys refs
      return (⟨parsed.id, parsed.entityType, none⟩ :: created, modified)

omit [UuidParser] in
def deletedIds (outputKeys : List String) (refs : List (String × ParsedRef)) :
    Except EnvelopeError (List EntityId) :=
  refs.mapM fun (key, parsed) ↦
    if key ∈ outputKeys then .error (.outputAlsoDeleted key)
    else if parsed.kindInId then .ok parsed.id
    else .error (.kindLostInBareChannel key "deleted")

/-- Project a kernel envelope's recorded lineage onto the event's typed channels. -/
def projectEnvelope (parameters : Json) :
    Except EnvelopeError (OperationInputs × OperationOutputs) := do
  let inputRefs ← parseChannel (← wireList parameters "inputs") "inputs"
  let outputRefs ← parseChannel (← wireList parameters "outputs") "outputs"
  let deletedRefs ← parseChannel (← wireList parameters "deleted") "deleted"
  let (created, modified) ← splitOutputs (inputRefs.map Prod.fst) outputRefs
  let deleted ← deletedIds (outputRefs.map Prod.fst) deletedRefs
  let requiredEntities := inputRefs.map fun (_, parsed) ↦
    (⟨parsed.id, parsed.entityType, .mustExist⟩ : EntityReference)
  return (⟨requiredEntities, [], .null⟩, ⟨created, modified, deleted⟩)

end KernelRef

end RosheraCad
