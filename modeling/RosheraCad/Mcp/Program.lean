import RosheraCad.Mcp.Chaining

/-!
# Programs of operations

A program runs some operations one after another through the handlers that single calls use. Every
operation is validated before any runs, but one with placeholders only just before its handler would
run. The program stops at the first failure, and nothing is rolled back.
-/

namespace RosheraCad

namespace CadProgram

/-! ## Tools and results -/

inductive ContentBlock
  | text (s : String)
  | image
  | other

structure OpResult where
  content : List ContentBlock
  isError : Bool

/-- What comes of running a handler. -/
inductive Outcome
  | returned (result : OpResult)
  | threw (message : String)

structure RegisteredTool (B P : Type) where
  schema : JsValue B → Except String P

structure ToolTable (B P : Type) where
  get : String → Option (RegisteredTool B P)
  nearest : String → List String

inductive ValidateError
  | unknownTool (nearest : List String)
  | invalidArgs (message : String)

variable {B P : Type} (realm : Realm B) (table : ToolTable B P)

def validateOp (name : String) (args : JsValue B) : Except ValidateError P :=
  match table.get name with
  | none => .error (.unknownTool (table.nearest name))
  | some entry => (entry.schema args).mapError .invalidArgs

def ValidateError.message (tool : String) : ValidateError → String
  | .unknownTool _ => "unknown tool '" ++ tool ++ "'"
  | .invalidArgs message => message

namespace OpResult

variable (result : OpResult)

def textBlocks : List String := result.content.filterMap fun
  | .text s => some s
  | _ => none

def hasImage : Bool := result.content.any fun
  | .image => true
  | _ => false

end OpResult

def parsedObject (text : String) : Option Json :=
  (realm.parse text).filter fun
    | .object _ => true
    | .array _ => true
    | _ => false

def firstJsonOf (result : OpResult) : Option Json :=
  result.textBlocks.findSome? (parsedObject realm)

/-- The first so many UTF-16 units of a text. Half a character is not kept. -/
def sliceUnits : ℕ → List Char → List Char
  | _, [] => []
  | n, c :: cs =>
    let width := if c.toNat < 0x10000 then 1 else 2
    if width ≤ n then c :: sliceUnits (n - width) cs else []

def extractCertificate (result : OpResult) : Option (ReadValue B) × Option String :=
  let texts := result.textBlocks
  let certificate := texts.findSome? fun text ↦
    (parsedObject realm text).bind fun data ↦ (ReadValue.json data).property? realm "perception"
  match certificate with
  | some certificate => (some certificate, none)
  | none =>
    let summary := match texts.findSome? (parsedObject realm) with
      | some data =>
        let keys := (ReadValue.json data).objectKeys realm
        "ok — returned \x7b" ++ ", ".intercalate keys ++ "\x7d" ++
          (if result.hasImage then " + image content" else "") ++
          " (no soundness certificate on this op)"
      | none =>
        if result.hasImage then "ok — image content (no soundness certificate on this op)"
        else
          match texts.head? with
          | none | some "" => "ok — no textual result"
          | some text => "ok — " ++ String.ofList (sliceUnits 120 text.toList)
    (none, some summary)

def errorTextOf (result : OpResult) : String :=
  result.textBlocks.head?.getD "op failed with no error message"

/-! ## Validation up front -/

/-- An operation of a program. -/
structure Op where
  tool : String
  args : Option Json

/-- The arguments; none are those of an empty object. -/
def Op.raw (op : Op) : Json := op.args.getD (.object [])

structure Program where
  name : Option String
  ops : List Op
  allowDestructive : Bool

/-- Meta-tools may never appear as a program op. -/
def metaOps : List String := ["find_tool", "describe_tool", "invoke", "workbench", "cad_program"]

def destructiveOps : List String := ["clear_parts", "delete_part"]

structure ValidationIssue where
  index : ℕ
  tool : String
  reason : String

/-- The arguments of an operation that passed: parsed, or to be substituted first. -/
inductive PreparedArgs (P : Type)
  | parsed (p : P)
  | deferred (raw : Json)

structure PreparedOp (P : Type) where
  tool : String
  args : PreparedArgs P

def unknownReason (tool : String) (near : List String) : String :=
  "unknown tool '" ++ tool ++ "'" ++
    if near = [] then "" else " (did you mean: " ++ ", ".intercalate near ++ "?)"

def PlaceholderTarget.isBad (i : ℕ) : PlaceholderTarget → Bool
  | .prev => i = 0
  | .op n => i ≤ n

def badReason (i : ℕ) (ref : PlaceholderRef) : String :=
  "'" ++ ref.token ++ "' references " ++
    (match ref.target with
      | .prev => "the previous op, but this is the first op"
      | .op n => "op " ++ toString n ++ ", which does not run before op " ++ toString i) ++
    " — a placeholder may only read an EARLIER op's result."

def prepareDeferred (i : ℕ) (op : Op) : Except ValidationIssue (PreparedOp P) :=
  if (table.get op.tool).isNone then
    .error ⟨i, op.tool, unknownReason op.tool (table.nearest op.tool)⟩
  else
    match (collectPlaceholders op.raw).find? (·.target.isBad i) with
    | some bad => .error ⟨i, op.tool, badReason i bad⟩
    | none => .ok ⟨op.tool, .deferred op.raw⟩

def prepareLiteral (i : ℕ) (op : Op) : Except ValidationIssue (PreparedOp P) :=
  match substitutePlaceholders realm i [] op.raw with
  | .error message => .error ⟨i, op.tool, message⟩
  | .ok literal =>
    match validateOp table op.tool literal with
    | .error (.unknownTool near) => .error ⟨i, op.tool, unknownReason op.tool near⟩
    | .error (.invalidArgs message) => .error ⟨i, op.tool, message⟩
    | .ok parsed => .ok ⟨op.tool, .parsed parsed⟩

def prepareOp (allowDestructive : Bool) (i : ℕ) (op : Op) :
    Except ValidationIssue (PreparedOp P) :=
  if op.tool ∈ metaOps then
    .error ⟨i, op.tool, "'" ++ op.tool ++ "' is a meta/composition tool and cannot be a program " ++
      "op (no recursion; call the concrete tools directly)."⟩
  else if op.tool ∈ destructiveOps ∧ !allowDestructive then
    .error ⟨i, op.tool, "'" ++ op.tool ++ "' is destructive; set allow_destructive: true on the " ++
      "program to permit it."⟩
  -- The schema validation of an op with placeholders moves to execution time.
  else if collectPlaceholders op.raw ≠ [] then prepareDeferred table i op
  else prepareLiteral realm table i op

def prepareOps (p : Program) : List (Except ValidationIssue (PreparedOp P)) :=
  p.ops.mapIdx (prepareOp realm table p.allowDestructive)

def validationIssues (p : Program) : List ValidationIssue :=
  (prepareOps realm table p).filterMap fun
    | .error issue => some issue
    | .ok _ => none

def preparedOps (p : Program) : List (PreparedOp P) :=
  (prepareOps realm table p).filterMap Except.toOption

/-! ## Execution -/

structure LedgerEntry (B : Type) where
  index : ℕ
  tool : String
  ok : Bool
  certificate : Option (ReadValue B)
  summary : Option String
  error : Option String

structure HandlerCall (P : Type) where
  index : ℕ
  tool : String
  args : P

structure Execution (B P : Type) where
  calls : List (HandlerCall P)
  ledger : List (LedgerEntry B)
  chainResults : List (Option Json)
  completed : ℕ
  stoppedAt : Option ℕ

/-- The arguments a handler is called with: parsed up front, or substituted and parsed now. -/
def resolveArgs (i : ℕ) (chainResults : List (Option Json)) (op : PreparedOp P) : Except String P :=
  match op.args with
  | .parsed parsed => .ok parsed
  | .deferred raw =>
    match substitutePlaceholders realm i chainResults raw with
    | .error message => .error ("placeholder resolution failed: " ++ message ++ ". The " ++
        toString i ++ " op(s) before this ran and their state is live.")
    | .ok substituted => (validateOp table op.tool substituted).mapError fun e ↦
        e.message op.tool ++ " (schema-validated at execution time, after placeholder resolution)"

/-- Nothing was run yet. -/
def Execution.init : Execution B P := ⟨[], [], [], 0, none⟩

def Execution.stop (s : Execution B P) (i : ℕ) (tool message : String) : Execution B P :=
  { s with
    ledger := s.ledger ++ [
      { index := i, tool, ok := false, certificate := none, summary := none, error := message }]
    stoppedAt := some i }

def Execution.call (s : Execution B P) (i : ℕ) (tool : String) (parsed : P) : Execution B P :=
  { s with calls := s.calls ++ [{ index := i, tool, args := parsed }] }

def Execution.complete (s : Execution B P) (i : ℕ) (tool : String) (result : OpResult) :
    Execution B P :=
  let (certificate, summary) := extractCertificate realm result
  { s with
    ledger := s.ledger ++ [{ index := i, tool, ok := true, certificate, summary, error := none }]
    chainResults := s.chainResults ++ [firstJsonOf realm result]
    completed := s.completed + 1 }

variable (outcome : ℕ → Outcome)

def runOp (s : Execution B P) : PreparedOp P × ℕ → Except (Execution B P) (Execution B P)
  | (op, i) =>
    match resolveArgs realm table i s.chainResults op with
    | .error message => .error (s.stop i op.tool message)
    | .ok parsed =>
      let s := s.call i op.tool parsed
      match outcome i with
      | .threw message => .error (s.stop i op.tool message)
      | .returned result =>
        if result.isError then .error (s.stop i op.tool (errorTextOf result))
        else .ok (s.complete realm i op.tool result)

def execute (ops : List (PreparedOp P)) : Execution B P :=
  match ops.zipIdx.foldlM (runOp realm table outcome) Execution.init with
  | .ok s => s
  | .error s => s

structure ValidationReport where
  name : Option String
  total : ℕ
  executed : ℕ
  errors : List ValidationIssue
  note : String

structure RunReport (B : Type) where
  ok : Bool
  name : Option String
  completed : ℕ
  total : ℕ
  stoppedAt : Option ℕ
  ops : List (LedgerEntry B)
  note : String

inductive Reply (B : Type)
  | refused (report : ValidationReport)
  | ran (report : RunReport B)

def refusedNote : String :=
  "No ops were executed — validation failed up front (every op is " ++
    "checked before any runs, so a bad batch costs nothing). Fix the " ++ "listed ops and resubmit."

def Execution.note (s : Execution B P) : String :=
  match s.stoppedAt with
  | none => "All ops completed; each ledger entry carries the op's own certificate. " ++
      "State matches the ledger."
  | some i => "Stopped at op " ++ toString i ++ " (" ++
      ((s.ledger.getLast?.map LedgerEntry.tool).getD "undefined") ++ "). No rollback: " ++
      "the first " ++ toString s.completed ++ " op(s) are applied and live; ops after the stop " ++
      "were never attempted. State matches the ledger exactly — undo/truncate is your " ++
      "explicit next call."

def cadProgram (p : Program) : Reply B × List (HandlerCall P) :=
  let issues := validationIssues realm table p
  if issues ≠ [] then (.refused ⟨p.name, p.ops.length, 0, issues, refusedNote⟩, [])
  else
    let s := execute realm table outcome (preparedOps realm table p)
    (.ran ⟨s.stoppedAt.isNone, p.name, s.completed, p.ops.length, s.stoppedAt, s.ledger, s.note⟩,
      s.calls)

end CadProgram

end RosheraCad
