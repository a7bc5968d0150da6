import RosheraCad.Types

/-!
# Parameter overrides

A parameter edit is appended as a `param.mould` event that names its target by sequence number and
parameter, or by a name a `param.name` event bound to them. Replay folds all of them first, and the
last edit of a parameter wins.
-/

namespace RosheraCad

/-- How the standard library prints a float in its debug form. -/
class FloatDebug where
  text : ℚ → String

/-! ## Rewriting parameters -/

mutual

/-- Replace every numeric occurrence of an object key. The flag says whether there was one. -/
def setNumericRecursive (key : String) (newValue : ℚ) : Json → Json × Bool
  | .object entries =>
    let (entries, changed) := setNumericEntries key newValue entries
    (.object entries, changed)
  | .array items =>
    let (items, changed) := setNumericItems key newValue items
    (.array items, changed)
  | value => (value, false)

def setNumericEntries (key : String) (newValue : ℚ) :
    List (String × Json) → List (String × Json) × Bool
  | [] => ([], false)
  | (k, v) :: entries =>
    let (v, changed) :=
      if k = key ∧ v.isNumber then (.number (.float newValue), true)
      else setNumericRecursive key newValue v
    let (entries, changed') := setNumericEntries key newValue entries
    ((k, v) :: entries, changed || changed')

def setNumericItems (key : String) (newValue : ℚ) : List Json → List Json × Bool
  | [] => ([], false)
  | v :: items =>
    let (v, changed) := setNumericRecursive key newValue v
    let (items, changed') := setNumericItems key newValue items
    (v :: items, changed || changed')

end

def carriesPair (numericKey profileKey : String) (entries : List (String × Json)) : Bool :=
  (entries.lookup numericKey).any Json.isNumber &&
    ((entries.lookup profileKey).bind Json.asStr?).any fun s ↦
      s.startsWith "Constant(" && s.endsWith ")"

section Profiles

variable [FloatDebug]

mutual

def restateConstantProfile (numericKey profileKey : String) (newValue : ℚ) : Json → Json × Bool
  | .object entries =>
    let pair := carriesPair numericKey profileKey entries
    let (entries, changed) := restateEntries numericKey profileKey newValue pair entries
    (.object entries, pair || changed)
  | .array items =>
    let (items, changed) := restateItems numericKey profileKey newValue items
    (.array items, changed)
  | value => (value, false)

def restateEntries (numericKey profileKey : String) (newValue : ℚ) (pair : Bool) :
    List (String × Json) → List (String × Json) × Bool
  | [] => ([], false)
  | (k, v) :: entries =>
    let (v, changed) :=
      if pair ∧ k = profileKey then
        (.string ("Constant(" ++ FloatDebug.text newValue ++ ")"), false)
      else restateConstantProfile numericKey profileKey newValue v
    let (entries, changed') := restateEntries numericKey profileKey newValue pair entries
    ((k, v) :: entries, changed || changed')

def restateItems (numericKey profileKey : String) (newValue : ℚ) :
    List Json → List Json × Bool
  | [] => ([], false)
  | v :: items =>
    let (v, changed) := restateConstantProfile numericKey profileKey newValue v
    let (items, changed') := restateItems numericKey profileKey newValue items
    (v :: items, changed || changed')

end

/-- Recorded quantities that some events encode twice: numeric key and profile key. -/
def redundantProfileEncodings : List (String × String) := [("radius", "fillet_type")]

/-- After a rewrite of `key`, re-state any textual encoding of the same quantity. -/
def reconcileRedundantEncodings (value : Json) (key : String) (newValue : ℚ) : Json × Bool :=
  match redundantProfileEncodings.lookup key with
  | none => (value, false)
  | some profileKey => restateConstantProfile key profileKey newValue value

end Profiles

/-! ## The folded overrides -/

def mouldCommand : String := "param.mould"

def nameCommand : String := "param.name"

def isParamMeta (commandType : String) : Bool :=
  commandType = mouldCommand || commandType = nameCommand

def TimelineEvent.genericParams (e : TimelineEvent) (command : String) : Option Json :=
  match e.operation with
  | .generic commandType parameters => if commandType = command then some parameters else none
  | _ => none

def TimelineEvent.isParamMeta (e : TimelineEvent) : Bool :=
  match e.operation with
  | .generic commandType _ => RosheraCad.isParamMeta commandType
  | _ => false

def envelopeParams (parameters : Json) : Json := (parameters.get? "params").getD parameters

def assocInsert {K V : Type*} [DecidableEq K] (l : List (K × V)) (k : K) (v : V) : List (K × V) :=
  l.filter (·.1 ≠ k) ++ [(k, v)]

structure NameBindings where
  byName : List (String × EventIndex × String)

namespace NameBindings

def ofEvent (e : TimelineEvent) : Option (EventIndex × String × EventIndex × String) := do
  let p := envelopeParams (← e.genericParams nameCommand)
  let name ← (← p.get? "name").asStr?
  let seq ← (← p.get? "target_sequence").asU64?
  let param ← (← p.get? "parameter").asStr?
  return (e.sequenceNumber, name, seq, param)

def collect (events : List TimelineEvent) : NameBindings :=
  let ordered := (events.filterMap ofEvent).insertionSort fun a b ↦ a.1 ≤ b.1
  ⟨ordered.foldl (fun byName b ↦ assocInsert byName b.2.1 b.2.2) []⟩

def resolve (names : NameBindings) (name : String) : Option (EventIndex × String) :=
  names.byName.lookup name

end NameBindings

structure ParsedMould where
  targetSequence : Option EventIndex
  parameter : Option String
  name : Option String
  value : ℚ

def parseMould (parameters : Json) : Option ParsedMould :=
  let p := envelopeParams parameters
  ((p.get? "value").bind Json.asF64?).map fun value ↦
    { targetSequence := (p.get? "target_sequence").bind Json.asU64?
      parameter := (p.get? "parameter").bind Json.asStr?
      name := (p.get? "name").bind Json.asStr?
      value }

/-- Where an override applies: what it names, else what its name is bound to. -/
def ParsedMould.target (m : ParsedMould) (names : NameBindings) : Option (EventIndex × String) :=
  match m.targetSequence, m.parameter, m.name with
  | some seq, some param, _ => some (seq, param)
  | _, _, some name => names.resolve name
  | _, _, _ => none

structure OverrideSet where
  resolved : List ((EventIndex × String) × ℚ)

namespace OverrideSet

def empty : OverrideSet := ⟨[]⟩

/-- Fold every override of a log, the latest of a parameter winning. -/
def collect (events : List TimelineEvent) : OverrideSet :=
  let names := NameBindings.collect events
  let ordered := (events.filterMap fun e ↦
    ((e.genericParams mouldCommand).bind parseMould).map fun m ↦
      (e.sequenceNumber, m)).insertionSort fun a b ↦ a.1 ≤ b.1
  ⟨ordered.foldl (fun resolved m ↦
    match m.2.target names with
    | some key => assocInsert resolved key m.2.value
    | none => resolved) []⟩

variable (overrides : OverrideSet)

def minTargetSequence : Option EventIndex := (overrides.resolved.map fun r ↦ r.1.1).min?

def applicable (seq : EventIndex) : List (String × ℚ) :=
  ((overrides.resolved.filter fun r ↦ r.1.1 = seq).map fun r ↦ (r.1.2, r.2)).insertionSort
    fun a b ↦ a.1 ≤ b.1

/-- Write one override into the parameters. A second encoding of the quantity is re-stated. -/
def writeOverride [FloatDebug] (inner : Json × Bool) (o : String × ℚ) : Json × Bool :=
  let (value, changed) := setNumericRecursive o.1 o.2 inner.1
  if changed then ((reconcileRedundantEncodings value o.1 o.2).1, true) else (value, inner.2)

def writeOverrides [FloatDebug] (parameters : Json) (os : List (String × ℚ)) : Json × Bool :=
  match parameters, parameters.get? "params" with
  | .object entries, some inner =>
    let (inner, changed) := os.foldl writeOverride (inner, false)
    (.object (entries.map fun e ↦ if e.1 = "params" then (e.1, inner) else e), changed)
  | _, _ => os.foldl writeOverride (parameters, false)

def overriddenEvent [FloatDebug] (event : TimelineEvent) : Option TimelineEvent :=
  match event.operation with
  | .generic commandType parameters =>
    match overrides.applicable event.sequenceNumber with
    | [] => none
    | os =>
      let (parameters, changed) := writeOverrides parameters os
      if changed then some { event with operation := .generic commandType parameters } else none
  | _ => none

theorem applicable_eq_nil (seq : EventIndex) (h : ∀ r ∈ overrides.resolved, r.1.1 ≠ seq) :
    overrides.applicable seq = [] := by
  have hnone : overrides.resolved.filter (fun r ↦ r.1.1 = seq) = [] :=
    List.filter_eq_nil_iff.mpr fun r hr ↦ by simpa using h r hr
  rw [applicable, hnone]
  rfl

theorem overriddenEvent_eq_none [FloatDebug] {floor : EventIndex} {event : TimelineEvent}
    (hfloor : overrides.minTargetSequence = some floor) (h : event.sequenceNumber < floor) :
    overrides.overriddenEvent event = none := by
  have hle := (List.min?_eq_some_iff.mp hfloor).2
  have happlicable := overrides.applicable_eq_nil event.sequenceNumber fun r hr heq ↦ by
    have htarget : floor ≤ r.1.1 := hle r.1.1 (List.mem_map_of_mem hr)
    exact Nat.not_le.mpr h (heq ▸ htarget)
  unfold overriddenEvent
  rw [happlicable]
  rcases event.operation <;> rfl

theorem overriddenEvent_empty [FloatDebug] (event : TimelineEvent) :
    empty.overriddenEvent event = none := by
  unfold overriddenEvent
  rw [empty.applicable_eq_nil _ fun r hr ↦ absurd hr List.not_mem_nil]
  rcases event.operation <;> rfl

end OverrideSet

end RosheraCad
