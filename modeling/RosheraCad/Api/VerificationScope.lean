import RosheraCad.Json
import RosheraCad.Library.OrderedMap
import RosheraCad.Library.Run

/-!
# Verification scope

The server's rule for agents: check what was built before the intent is closed. A ledger keeps, for
each session, the geometry changes nobody has checked; a look, a wipe or a checkpoint that succeeded
removes the entry. Other requests come in between a request's check and its record.
-/

namespace RosheraCad

namespace VerificationScope

/-! ## The ledger -/

structure Unverified where
  count : ℕ
  built : List String
  deriving DecidableEq

/-- Per-agent-session tally of geometry changes not yet verified. -/
abbrev VerificationLedger := OrderedMap String Unverified

namespace VerificationLedger

variable (ledger : VerificationLedger) (key : String)

def recordBuilt (what : String) : VerificationLedger :=
  let entry := ledger[key]?.getD ⟨0, []⟩
  ledger.insert key
    ⟨entry.count + 1, if entry.built.contains what then entry.built else entry.built ++ [what]⟩

/-- The session looked, closed, or wiped its work. -/
def settle : VerificationLedger := ledger.erase key

def pending : Option Unverified := ledger[key]?.filter (0 < ·.count)

end VerificationLedger

/-! ## Requests -/

inductive Method
  | get
  | head
  | options
  | post
  | put
  | patch
  | delete
  deriving DecidableEq

def Method.name : Method → String
  | .get => "GET"
  | .head => "HEAD"
  | .options => "OPTIONS"
  | .post => "POST"
  | .put => "PUT"
  | .patch => "PATCH"
  | .delete => "DELETE"

/-- A request, as far as the rule reads it. -/
structure ScopeRequest where
  agent : Option String
  agentSession : Option String
  method : Method
  path : String
  query : Option String
  body : Option Json
  guarded : Bool

/-- What a handler answers: whether it succeeded, and the body as JSON where it can be buffered. -/
structure ScopeResponse where
  success : Bool
  body : Option Json
  deriving DecidableEq

def isWhitespace (c : Char) : Bool :=
  [0x9, 0xA, 0xB, 0xC, 0xD, 0x20, 0x85, 0xA0, 0x1680, 0x2028, 0x2029, 0x202F, 0x205F,
    0x3000].contains c.toNat || (0x2000 ≤ c.toNat && c.toNat ≤ 0x200A)

/-- A header value without the white space around it, when something is left. -/
def headerText (value : Option String) : Option String :=
  (value.map fun s ↦
    String.ofList
      ((s.toList.dropWhile isWhitespace).reverse.dropWhile isWhitespace).reverse).filter (· ≠ "")

/-- The agent session a request belongs to, or nothing for a person. -/
def agentSessionKey (request : ScopeRequest) : Option String :=
  (headerText request.agent).map fun agent ↦
    match headerText request.agentSession with
    | some session => "session:" ++ session
    | none => "agent:" ++ agent

def isPerceptionPath (path : String) : Bool :=
  match (path.toList.reverse.dropWhile (· = '/')).reverse.splitOn '/' with
  | [root, api, agent, parts, id, perception] =>
    root.isEmpty && api = "api".toList && agent = "agent".toList && parts = "parts".toList &&
      !id.isEmpty && perception = "perception".toList
  | _ => false

def isFull (query : Option String) : Bool :=
  query.any fun q ↦ (q.toList.splitOn '&').any fun pair ↦
    ["full=1".toList, "full=true".toList, "full".toList].contains pair

/-- What the layer needs to know about a request. -/
inductive Kind
  | checkpoint
  | fullCertificateRead
  | claimCheck
  | wipe
  | other
  deriving DecidableEq

def classify (request : ScopeRequest) : Kind :=
  if request.method = .post && request.path = "/api/timeline/checkpoint" then .checkpoint
  else if request.method = .post && request.path = "/api/agent/verify-claim" then .claimCheck
  else if (request.method = .post && request.path = "/api/timeline/clear") ||
      (request.method = .delete && request.path = "/api/agent/parts") then .wipe
  else if request.method = .get && isPerceptionPath request.path && isFull request.query then
    .fullCertificateRead
  else .other

def skips (body : Json) : Bool := body.get? "skip_verification" = some (.bool true)

def measuresGeometry (body : Json) : Bool :=
  (((body.get? "bindings").bind Json.asArray?).getD []).any fun b ↦
    (b.get? "measure").bind (·.get? "kind") ≠ some (.string "constant")

def givesVerdict : Json → Bool
  | .object entries => entries.lookup "refused" ≠ some (.bool true)
  | _ => false

/-! ## The layers -/

structure Refusal where
  built : List String
  count : ℕ
  next : String
  deriving DecidableEq

def gate (ledger : VerificationLedger) (request : ScopeRequest) : Option Refusal :=
  match agentSessionKey request, classify request, request.body with
  | some key, .checkpoint, some body =>
    match ledger.pending key with
    | some pending =>
      if skips body then none
      else some ⟨pending.built, pending.count, ((body.get? "name").bind Json.asStr?).getD ""⟩
    | none => none
  | _, _, _ => none

def settles (request : ScopeRequest) (response : ScopeResponse) : Bool :=
  response.success &&
    match classify request, request.body with
    | .fullCertificateRead, _ => true
    | .wipe, _ => true
    | .checkpoint, some _ => true
    | .claimCheck, some body => measuresGeometry body && response.body.any givesVerdict
    | _, _ => false

/-- The intent gate: a request on a guarded route that is no read and no preview builds. -/
def builds (request : ScopeRequest) : Bool :=
  request.guarded && !([.get, .head, .options].contains request.method) &&
    !"/preview".toList.reverse.isPrefixOf request.path.toList.reverse

/-! ## Requests side by side -/

inductive ScopePhase
  | waiting
  | running
  | handled (response : ScopeResponse)
  | refused (refusal : Refusal)
  | answered (response : ScopeResponse)

inductive ScopeEvent
  | started (i : ℕ)
  | built (i : ℕ)
  | answered (i : ℕ) (response : ScopeResponse)
  deriving DecidableEq

/-- The ledger with the requests. -/
structure ScopeState where
  ledger : VerificationLedger
  phase : ℕ → ScopePhase
  history : List ScopeEvent

inductive ScopeStep
  | arrive (i : ℕ)
  | handle (i : ℕ) (response : ScopeResponse)
  | answer (i : ℕ)

namespace ScopeState

variable (requests : ℕ → ScopeRequest)

/-- A server no request has come to. -/
def new : ScopeState := ⟨∅, fun _ ↦ .waiting, []⟩

def builtBy (request : ScopeRequest) (response : ScopeResponse) : Option String :=
  if builds request && response.success then agentSessionKey request else none

def settledBy (request : ScopeRequest) (response : ScopeResponse) : Option String :=
  if settles request response then agentSessionKey request else none

def next : ScopeState → ScopeStep → ScopeState
  | s, .arrive i =>
    match gate s.ledger (requests i) with
    | some refusal => { s with phase := Function.update s.phase i (.refused refusal) }
    | none => { s with
        phase := Function.update s.phase i .running
        history := s.history ++ [.started i] }
  | s, .handle i response =>
    match builtBy (requests i) response with
    | some key => { s with
        ledger := s.ledger.recordBuilt key ((requests i).method.name ++ " " ++ (requests i).path)
        phase := Function.update s.phase i (.handled response)
        history := s.history ++ [.built i] }
    | none => { s with phase := Function.update s.phase i (.handled response) }
  | s, .answer i =>
    match s.phase i with
    | .handled response => { s with
        ledger := match settledBy (requests i) response with
          | some key => s.ledger.settle key
          | none => s.ledger
        phase := Function.update s.phase i (.answered response)
        history := s.history ++ [.answered i response] }
    | _ => s

/-- When a step may be taken. A checkpoint without a buffered body is rejected by its handler. -/
def Enabled (s : ScopeState) : ScopeStep → Prop
  | .arrive i => s.phase i = .waiting
  | .handle i response => s.phase i = .running ∧
      (classify (requests i) = .checkpoint → (requests i).body = none → response.success = false)
  | .answer i => ∃ response, s.phase i = .handled response

end ScopeState

def serving (requests : ℕ → ScopeRequest) : GuardedSystem ScopeState ScopeStep where
  init := .new
  enabled := ScopeState.Enabled requests
  step := ScopeState.next requests

end VerificationScope

end RosheraCad
