import RosheraCad.Json

/-!
# Dispatch gates

Every tool call of a session passes the gates before its handler runs, and its outcome is recorded
after. The gates that fetch live facts come last and read no session state.
-/

namespace RosheraCad

namespace Gates

/-! ## Results -/

structure ToolResult where
  content : List String
  isError : Bool
  halted : Bool

/-- Reading and writing JSON, and the key of a call. -/
structure Runtime where
  parse : String → Option Json
  stringify : Json → String
  refusalKey : String → Json → String

variable (rt : Runtime)

def gateRefusal (payload : List (String × Json)) : ToolResult :=
  ⟨[rt.stringify (.object (("refused", .bool true) :: payload))], true, false⟩

def isHaltResult (result : ToolResult) : Bool := result.isError && result.halted

def isWordChar (c : Char) : Bool := c.isAlphanum || c = '_'

def hasMarkerFrom (before : Option Char) : List Char → Bool
  | [] => false
  | c :: cs =>
    (!before.any isWordChar && "REFUSED".toList.isPrefixOf (c :: cs) &&
        !((c :: cs).drop 7).head?.any isWordChar)
      || hasMarkerFrom (some c) cs

def isObject : Json → Bool
  | .object _ => true
  | .array _ => true
  | _ => false

def typedRefusalOf (result : ToolResult) : Option (Option String) :=
  match result.content.head? with
  | none => none
  | some text =>
    match (rt.parse text).filter isObject with
    | some data =>
      -- A payload is judged by its `refused` field alone.
      match data.get? "refused" with
      | some refused =>
        if refused = .bool true || isObject refused then
          some ((data.get? "gate").bind Json.asStr?)
        else none
      | none => none
    | none => if result.isError && hasMarkerFrom none text.toList then some none else none

/-! ## Tool classification -/

/-- Tools that cannot change kernel or session state. -/
def readOnly : List String :=
  ["list_parts", "get_part", "render_part", "scene_view", "section_view", "verify_part",
    "mass_properties", "get_pointer", "select_face", "select_edge", "get_face",
    "get_revolve_profile", "plane_from_face", "point_query", "ray_query", "region_query",
    "occupancy_view", "part_coverage", "part_distance", "part_features", "dfm_check", "kb_lookup",
    "ground_truth", "measure_faces", "verify_claim", "timeline_history", "recipe_get",
    "timeline_branches", "timeline_conflicts", "timeline_checkpoints", "timeline_scrub",
    "rebuild_certificate", "label_list", "label_resolve", "blackboard_list",
    "assembly_list_instances", "assembly_view", "assembly_dof", "assembly_interference",
    "assembly_verify", "drawing_query", "drawing_read_semantics", "gdt_report", "export_part",
    "drawing_export_sheet", "find_tool", "describe_tool", "invoke", "workbench", "cad_program"]

def mutatesSolids : List String :=
  ["create_box", "create_cylinder", "create_sphere", "create_cone", "boolean", "boolean_many",
    "revolve", "nurbs_loft", "shell", "fillet_edges", "chamfer_edges", "drill_pattern",
    "transform", "sketch_extrude", "psketch_extrude", "psketch_revolve", "import_step",
    "timeline_mould", "delete_part", "clear_parts"]

def liveFactGates : List String :=
  ["unsound_base", "sheet_unsound", "sheet_quality", "sheet_uncertified", "single_point_run",
    "single_point_cumulative", "verification_scope"]

def verifies : List String := ["verify_part", "verify_claim"]

/-! ## Checkpoint names -/

def isSpace (c : Char) : Bool :=
  [0x9, 0xA, 0xB, 0xC, 0xD, 0x20, 0xA0, 0x1680, 0x2028, 0x2029, 0x202F, 0x205F, 0x3000,
    0xFEFF].contains c.toNat || (0x2000 ≤ c.toNat && c.toNat ≤ 0x200A)

def trim (name : String) : List Char :=
  ((name.toList.dropWhile isSpace).reverse.dropWhile isSpace).reverse

def isSeparator (c : Char) : Bool := isSpace c || ['-', '_', '#', ':', '.'].contains c

def afterWord (words : List String) (name : List Char) : List (List Char) :=
  name :: words.filterMap fun word ↦
    if word.toList.isPrefixOf (name.map Char.toLower) then
      some ((name.drop word.length).dropWhile isSeparator)
    else none

/-- `GENERIC_CHECKPOINT_NAME`: a sequence position instead of a design intent. -/
def isGenericName (name : List Char) : Bool :=
  (afterWord ["step", "op", "operation", "cut", "feature", "part", "checkpoint", "chkpt", "cp",
    "test", "wip", "tmp", "temp", "misc"] name).any fun rest ↦ rest.all Char.isDigit

def clockGroup : List Char → Option (List Char)
  | [] => none
  | c :: rest =>
    let digits := (rest.takeWhile Char.isDigit).length
    if [':', '-', '/', '.'].contains c && 1 ≤ digits && digits ≤ 2 then
      some (rest.dropWhile Char.isDigit)
    else none

def isClockEnd (rest : List Char) : Bool :=
  rest.isEmpty ||
    ["am".toList, "pm".toList].contains ((rest.dropWhile isSpace).map Char.toLower)

def isClockReading (name : List Char) : Bool :=
  let digits := (name.takeWhile Char.isDigit).length
  1 ≤ digits && digits ≤ 4 &&
    match clockGroup (name.dropWhile Char.isDigit) with
    | none => false
    | some rest => isClockEnd rest || (clockGroup rest).any isClockEnd

def isClockName (name : List Char) : Bool :=
  (afterWord ["step", "op", "operation", "checkpoint", "chkpt", "cp"] name).any isClockReading

/-! ## Session state -/

structure CachedRefusal where
  tool : String
  turn : ℕ
  result : ToolResult

structure OpenIntent where
  name : String
  turn : ℕ

/-- Work done under the open intent and not looked at since. -/
structure Unverified where
  tools : List String
  count : ℕ

def mapSet {α : Type} (map : List (String × α)) (key : String) (value : α) : List (String × α) :=
  if (map.lookup key).isSome then map.map fun e ↦ if e.1 = key then (key, value) else e
  else map ++ [(key, value)]

/-- The state of the session the gates keep. -/
structure Session where
  refusalCache : List (String × CachedRefusal)
  openIntent : Option OpenIntent
  intentUnverified : Unverified
  pointRuns : List (String × ℕ)
  pointCumulative : List (String × ℕ)

def Session.new : Session := ⟨[], none, ⟨[], 0⟩, [], []⟩

def Session.clearUnverified (session : Session) : Session :=
  { session with intentUnverified := ⟨[], 0⟩ }

def Session.addUnverified (session : Session) (tool : String) : Session :=
  { session with intentUnverified :=
    { tools := if session.intentUnverified.tools.contains tool then session.intentUnverified.tools
        else session.intentUnverified.tools ++ [tool]
      count := session.intentUnverified.count + 1 } }

def singlePointKey (tool : String) (args : Json) : Option String :=
  if tool = "psketch_add_entity" && args.get? "kind" = some (.string "point") then
    ((args.get? "csketch_id").bind Json.asStr?).map ("psketch_add_entity:" ++ ·)
  else if tool = "sketch_points" &&
      ((args.get? "points").bind Json.asArray?).any (·.length = 1) then
    ((args.get? "sketch_id").bind Json.asStr?).map ("sketch_points:" ++ ·)
  else none

def stringArg (args : Json) (name : String) : String :=
  ((args.get? name).bind Json.asStr?).getD ""

def skipsVerification (args : Json) : Bool := args.get? "skip_verification" = some (.bool true)

/-! ## Before the dispatch -/

def singlePointRunMax : ℕ := 8

def singlePointCumulativeMax : ℕ := 32

inductive Gate
  | refuse (refusal : ToolResult)
  /-- The flag says whether the verification gate would have refused it without the escape. -/
  | proceed (gate6WouldHaveRefused : Bool)
  | fetch

def singlePointGate (session : Session) (tool : String) (args : Json) : Option ToolResult :=
  match singlePointKey tool args with
  | none => none
  | some key =>
    let run := (session.pointRuns.lookup key).getD 0
    let cumulative := (session.pointCumulative.lookup key).getD 0
    if singlePointRunMax ≤ run then
      some (gateRefusal rt [("gate", .string "single_point_run"),
        ("points_placed", .number (.posInt run))])
    else if singlePointCumulativeMax ≤ cumulative then
      some (gateRefusal rt [("gate", .string "single_point_cumulative"),
        ("points_placed_cumulative", .number (.posInt cumulative))])
    else none

def checkpointGate (session : Session) (args : Json) : Gate :=
  let trimmed := trim (stringArg args "name")
  if isGenericName trimmed || isClockName trimmed then
    .refuse (gateRefusal rt [("gate", .string "intent")])
  else
    match session.openIntent with
    | none => .proceed false
    | some closing =>
      if session.intentUnverified.count = 0 then .proceed false
      else if skipsVerification args then .proceed true
      else
        .refuse (gateRefusal rt [("gate", .string "verification_scope"),
          ("closing_intent", .string closing.name),
          ("unverified_operations", .ofStrings session.intentUnverified.tools),
          ("unverified_count", .number (.posInt session.intentUnverified.count))])

def preDispatchGate (session : Session) (tool : String) (args : Json) : Gate :=
  match session.refusalCache.lookup (rt.refusalKey tool args) with
  | some hit =>
    -- An identical re-issue of a refused call is answered from the cache.
    .refuse { hit.result with content := hit.result.content ++
      ["[refusal cache] this exact call was refused at turn " ++ toString hit.turn ++
        " and no state-changing operation has succeeded since — the answer above is unchanged " ++
        "and was served without re-running anything. An identical re-issue will keep receiving " ++
        "it: change the arguments or the design, or escalate quoting the refusal."] }
  | none =>
    match singlePointGate rt session tool args with
    | some refusal => .refuse refusal
    | none =>
      if tool = "timeline_checkpoint" then checkpointGate rt session args
      else if mutatesSolids.contains tool && session.openIntent.isNone then
        .refuse (gateRefusal rt [("gate", .string "intent")])
      else .fetch

/-! ## After the dispatch -/

def verifyClaimActuallyMeasured (args : Json) (result : ToolResult) : Bool :=
  let bindings := ((args.get? "bindings").bind Json.asArray?).getD []
  let measuresGeometry := bindings.any fun b ↦
    (b.get? "measure").bind (·.get? "kind") ≠ some (.string "constant")
  measuresGeometry &&
    match result.content.head?.bind rt.parse with
    | some data => data.get? "refused" ≠ some (.bool true)
    | none => false

def recordPoints (session : Session) (tool : String) (args : Json) (result : ToolResult) :
    Session :=
  match singlePointKey tool args with
  | none => { session with pointRuns := [] }
  | some key =>
    if result.isError then session
    else
      let runs := if 64 ≤ session.pointRuns.length then [] else session.pointRuns
      -- At 64 sketches the oldest total is evicted.
      let totals := if (session.pointCumulative.lookup key).isNone &&
          64 ≤ session.pointCumulative.length then session.pointCumulative.tail
        else session.pointCumulative
      { session with
        pointRuns := mapSet runs key ((runs.lookup key).getD 0 + 1)
        pointCumulative := mapSet totals key ((totals.lookup key).getD 0 + 1) }

/-- Remember a refusal, unless the call's refusal is remembered; at 128 the oldest is dropped. -/
def cacheRefusal (session : Session) (tool : String) (args : Json) (result : ToolResult)
    (turn : ℕ) : Session :=
  let key := rt.refusalKey tool args
  if (session.refusalCache.lookup key).isSome then session
  else
    let cache := if 128 ≤ session.refusalCache.length then session.refusalCache.tail
      else session.refusalCache
    { session with refusalCache := mapSet cache key ⟨tool, turn, result⟩ }

def recordSuccess (session : Session) (tool : String) (args : Json) (result : ToolResult)
    (turn : ℕ) : Session :=
  if tool = "timeline_checkpoint" then
    { session with openIntent := some ⟨stringArg args "name", turn⟩ }.clearUnverified
  else if tool = "clear_timeline" then { session with openIntent := none }.clearUnverified
  else if tool = "clear_parts" then session.clearUnverified
  else if verifies.contains tool then
    if tool = "verify_part" || verifyClaimActuallyMeasured rt args result then
      session.clearUnverified
    else session
  else if mutatesSolids.contains tool && session.openIntent.isSome then session.addUnverified tool
  else session

def recordDispatchOutcome (session : Session) (tool : String) (args : Json) (result : ToolResult)
    (turn : ℕ) : Session :=
  let session := recordPoints session tool args result
  match typedRefusalOf rt result with
  | some gate =>
    if gate.any liveFactGates.contains then session
    else cacheRefusal rt session tool args result turn
  | none =>
    let session := if readOnly.contains tool then session else { session with refusalCache := [] }
    if !result.isError then recordSuccess rt session tool args result turn
    else if isHaltResult result && mutatesSolids.contains tool && session.openIntent.isSome then
      session.addUnverified tool
    else session

end Gates

end RosheraCad
