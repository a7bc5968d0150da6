import RosheraCad.Api.Idempotency
import RosheraCad.Api.VerificationScope
import RosheraCad.Types

/-!
# The method gate of the agent transport

Every message of an agent client passes this gate. It may name one of a few methods, and one that
sets up a session may not choose another provider or other extensions.

The first raw byte of a body tells a batch. A body that does not parse passes, as does a message
without a method.
-/

namespace RosheraCad

namespace AcpGate

open Idempotency (Body Bytes toBytes)

/-! ## The gate -/

def allowedAcpMethods : List String :=
  ["initialize", "authenticate", "session/new", "session/load", "session/list", "session/prompt",
    "session/cancel", "$/cancel_request"]

/-- Body cap for gate buffering, 16 MiB. -/
def maxAcpPostBytes : ℕ := 16 * 1024 * 1024

def forbiddenSessionMetaKeys : List String :=
  ["provider", "enabledExtensions", "recipeDeeplink", "recipeId"]

def sessionMetaInspectedMethods : List String := ["session/new", "session/load"]

def forbiddenSessionMetaKey (message : Json) : Option String := do
  let params ← message.get? "params"
  let value ← params.get? "_meta"
  match value with
  | .object entries => forbiddenSessionMetaKeys.find? fun key ↦ (entries.lookup key).isSome
  | _ => none

/-- A request, as far as the gate reads it. -/
structure AcpRequest where
  method : String
  connection : Option String
  upgrade : Option String
  body : Body
  deriving DecidableEq

def toAsciiLowercase (s : List Char) : List Char := s.map Char.toLower

def eqIgnoreAsciiCase (s t : List Char) : Bool := toAsciiLowercase s == toAsciiLowercase t

/-- The text without the white space around it. -/
def trim (s : List Char) : List Char :=
  ((s.dropWhile VerificationScope.isWhitespace).reverse.dropWhile
    VerificationScope.isWhitespace).reverse

def headerContainsToken (value : Option String) (token : String) : Bool :=
  value.any fun v ↦ (v.toList.splitOn ',').any fun part ↦ eqIgnoreAsciiCase (trim part) token.toList

def isWebsocketUpgrade (request : AcpRequest) : Bool :=
  request.method == "GET" && headerContainsToken request.connection "upgrade" &&
    request.upgrade.any fun v ↦ eqIgnoreAsciiCase v.toList "websocket".toList

inductive ErrorCode
  | acpMethodNotAllowed
  | acpWebsocketDisabled
  | acpForbiddenSessionMeta
  deriving DecidableEq

structure ApiError where
  code : ErrorCode
  message : String
  hint : String
  details : Option Json
  deriving DecidableEq

def acpMethodNotAllowed (method : String) (allowed : List String) : ApiError where
  code := .acpMethodNotAllowed
  message := "ACP method '" ++ method ++ "' is not allowed through Roshera's agent surface"
  hint := "Provider selection, config mutation, and extension management are server-configured " ++
    "through Roshera's own settings surface (PUT /api/ai/provider), never through the agent " ++
    "transport."
  details := some (.object [("allowed_methods", .ofStrings allowed), ("method", .string method)])

def acpWebsocketDisabled : ApiError where
  code := .acpWebsocketDisabled
  message := "the /acp WebSocket transport is disabled; use HTTP POST + SSE"
  hint := "POST JSON-RPC messages to /acp and read responses via the SSE stream (GET /acp with " ++
    "Accept: text/event-stream). The WebSocket upgrade is refused because its frames bypass " ++
    "Roshera's method gate."
  details := none

def acpForbiddenSessionMeta (method key : String) : ApiError where
  code := .acpForbiddenSessionMeta
  message := "ACP '" ++ method ++ "' carried a forbidden _meta key: '" ++ key ++ "'"
  hint := "Provider selection, extension enablement, and recipe loading are server-configured " ++
    "through Roshera's own settings surface, never through _meta on session/new or " ++
    "session/load. Drop the key and retry — Roshera's own MCP server is injected automatically."
  details := some (.object [("meta_key", .string key), ("method", .string method)])

inductive GateAnswer
  | refused (error : ApiError)
  | payloadTooLarge
  | forwarded (request : AcpRequest)
  deriving DecidableEq

variable (fromSlice : Bytes → Option Json)

def refusalOf (message : Json) : Option ApiError :=
  match (message.get? "method").bind Json.asStr? with
  | some method =>
    if allowedAcpMethods.contains method then
      if sessionMetaInspectedMethods.contains method then
        (forbiddenSessionMetaKey message).map (acpForbiddenSessionMeta method)
      else none
    else some (acpMethodNotAllowed method allowedAcpMethods)
  | none => none

def acpMethodGate (request : AcpRequest) : GateAnswer :=
  if isWebsocketUpgrade request then .refused acpWebsocketDisabled
  else if request.method ≠ "POST" then .forwarded request
  else
    match toBytes request.body maxAcpPostBytes with
    | none => .payloadTooLarge
    | some bytes =>
      -- A batch is told by its first byte, before anything is parsed.
      if bytes.head? = some 0x5B then
        .refused (acpMethodNotAllowed "<json-rpc batch>" allowedAcpMethods)
      else
        match (fromSlice bytes).bind refusalOf with
        | some error => .refused error
        | none => .forwarded { request with body := .bytes bytes }

/-! ## Default deny -/

def Names (message : Json) (method : String) : Prop :=
  ∃ entries, message = .object entries ∧ entries.lookup "method" = some (.string method)

def Carries (message : Json) (key : String) : Prop :=
  ∃ entries params metaEntries, message = .object entries ∧
    entries.lookup "params" = some (.object params) ∧
    params.lookup "_meta" = some (.object metaEntries) ∧ key ∈ metaEntries.map Prod.fst

/-- A message that may reach the agent: no batch, its method allowed, no session with a forbidden
key. -/
structure Harmless (message : Json) : Prop where
  single : ∀ items, message ≠ .array items
  allowed : ∀ method, Names message method → method ∈ allowedAcpMethods
  noMeta : ∀ method, Names message method → method ∈ sessionMetaInspectedMethods →
    ∀ key ∈ forbiddenSessionMetaKeys, ¬ Carries message key

/-- **Default deny**: whatever is forwarded and parses is harmless. -/
def DefaultDeny (request : AcpRequest) : Prop :=
  ∀ forwarded bytes, acpMethodGate fromSlice request = .forwarded forwarded →
    forwarded.body = .bytes bytes → ∀ message, fromSlice bytes = some message → Harmless message

/-- The first byte of an array is its bracket: no white space stands before it. -/
def ArrayAtOnce (bytes : Bytes) : Prop :=
  ∀ items, fromSlice bytes = some (.array items) → bytes.head? = some 0x5B

variable {fromSlice} {request : AcpRequest} {message : Json} {method : String}

theorem get?_eq_some_iff {value entry : Json} {key : String} :
    value.get? key = some entry ↔ ∃ entries, value = .object entries ∧
      entries.lookup key = some entry := by
  rcases value with _ | _ | _ | _ | _ | entries
  case object => simp
  all_goals simp [Json.get?]

theorem asStr?_eq_some_iff {value : Json} {s : String} :
    value.asStr? = some s ↔ value = .string s := by
  rcases value with _ | _ | _ | _ | _ | _ <;> simp [Json.asStr?]

theorem names_iff : (message.get? "method").bind Json.asStr? = some method ↔
    Names message method := by
  rw [Option.bind_eq_some_iff]
  constructor
  · rintro ⟨value, hvalue, hstr⟩
    obtain rfl := asStr?_eq_some_iff.mp hstr
    exact get?_eq_some_iff.mp hvalue
  · intro h
    exact ⟨.string method, get?_eq_some_iff.mpr h, rfl⟩

theorem lookup_isSome_iff {α : Type} {entries : List (String × α)} {key : String} :
    (entries.lookup key).isSome ↔ key ∈ entries.map Prod.fst := by
  rw [List.lookup_isSome_iff, List.mem_map]
  exact exists_congr fun e ↦ and_congr_right fun _ ↦ beq_iff_eq.trans eq_comm

theorem forbiddenSessionMetaKey_eq_none_iff :
    forbiddenSessionMetaKey message = none ↔
      ∀ key ∈ forbiddenSessionMetaKeys, ¬ Carries message key := by
  have hcarries (key : String) : Carries message key ↔ ∃ params metaEntries,
      message.get? "params" = some params ∧ params.get? "_meta" = some (.object metaEntries) ∧
        (metaEntries.lookup key).isSome := by
    constructor
    · rintro ⟨entries, params, metaEntries, rfl, hparams, hmeta, hkey⟩
      exact ⟨.object params, metaEntries, hparams, hmeta, lookup_isSome_iff.mpr hkey⟩
    · rintro ⟨params, metaEntries, hparams, hmeta, hkey⟩
      obtain ⟨entries, rfl, hentries⟩ := get?_eq_some_iff.mp hparams
      obtain ⟨ps, rfl, hps⟩ := get?_eq_some_iff.mp hmeta
      exact ⟨entries, ps, metaEntries, rfl, hentries, hps, lookup_isSome_iff.mp hkey⟩
  simp only [hcarries]
  rw [forbiddenSessionMetaKey]
  rcases hparams : message.get? "params" with _ | params
  · simp
  rcases hmeta : params.get? "_meta" with _ | value
  · simp [hmeta]
  rcases value with _ | _ | _ | _ | _ | metaEntries
  case object =>
    simp only [Option.bind_eq_bind, Option.bind_some, hmeta, List.find?_eq_none]
    refine forall₂_congr fun key _ ↦ not_congr ⟨fun h ↦ ⟨params, _, rfl, hmeta, h⟩, ?_⟩
    rintro ⟨params', metaEntries', hparams', hmeta', h⟩
    obtain rfl := Option.some_inj.mp hparams'
    obtain rfl := Json.object.inj (Option.some_inj.mp (hmeta.symm.trans hmeta'))
    exact h
  all_goals
    refine iff_of_true (by simp only [Option.bind_eq_bind, Option.bind_some, hmeta]) ?_
    rintro key - ⟨params', metaEntries', hparams', hmeta', -⟩
    obtain rfl := Option.some_inj.mp hparams'
    rw [hmeta] at hmeta'
    exact absurd (Option.some_inj.mp hmeta') nofun

/-- **The gate passes just the messages that are harmless but for being a batch.** -/
theorem refusalOf_eq_none_iff :
    refusalOf message = none ↔
      (∀ method, Names message method → method ∈ allowedAcpMethods) ∧
      ∀ method, Names message method → method ∈ sessionMetaInspectedMethods →
        ∀ key ∈ forbiddenSessionMetaKeys, ¬ Carries message key := by
  simp only [← names_iff, ← forbiddenSessionMetaKey_eq_none_iff]
  rw [refusalOf]
  rcases (message.get? "method").bind Json.asStr? with _ | method
  · simp
  · simp only [List.contains_iff_mem, Option.some_inj, forall_eq']
    by_cases hallowed : method ∈ allowedAcpMethods
    · by_cases hinspected : method ∈ sessionMetaInspectedMethods
      · simp [hallowed, hinspected]
      · simp [hallowed, hinspected]
    · simp [hallowed]

theorem acpMethodGate_eq_forwarded_iff (hpost : request.method = "POST") {forwarded : AcpRequest} :
    acpMethodGate fromSlice request = .forwarded forwarded ↔
      ∃ bytes, toBytes request.body maxAcpPostBytes = some bytes ∧
        bytes.head? ≠ some 0x5B ∧ (∀ message, fromSlice bytes = some message →
          refusalOf message = none) ∧ forwarded = { request with body := .bytes bytes } := by
  have hwebsocket : isWebsocketUpgrade request = false := by simp [isWebsocketUpgrade, hpost]
  rw [acpMethodGate, hwebsocket, if_neg Bool.false_ne_true, if_neg (not_not.mpr hpost)]
  rcases toBytes request.body maxAcpPostBytes with _ | bytes
  · simp
  by_cases hbatch : bytes.head? = some 0x5B
  · simp [hbatch]
  rcases hmessage : fromSlice bytes with _ | message
  · simp [hbatch, hmessage, eq_comm]
  · rcases hrefusal : refusalOf message with _ | error
    · simp [hbatch, hmessage, hrefusal, eq_comm]
    · simp [hbatch, hmessage, hrefusal]

theorem arrayAtOnce_of_defaultDeny (hpost : request.method = "POST")
    (h : DefaultDeny fromSlice request) {bytes : Bytes}
    (hbytes : toBytes request.body maxAcpPostBytes = some bytes) : ArrayAtOnce fromSlice bytes := by
  intro items hitems
  by_contra hbatch
  -- An array names no method, so nothing but its first byte can stop it.
  have hpasses : refusalOf (.array items) = none := rfl
  have hforwarded := (acpMethodGate_eq_forwarded_iff hpost).mpr
    ⟨bytes, hbytes, hbatch, fun message hmessage ↦ by
      rwa [← Option.some_inj.mp (hitems.symm.trans hmessage)], rfl⟩
  exact (h _ bytes hforwarded rfl _ hitems).single items rfl

/-- **The gate denies by default exactly when an array begins with its bracket.** -/
theorem defaultDeny_iff (hpost : request.method = "POST") :
    DefaultDeny fromSlice request ↔
      ∀ bytes, toBytes request.body maxAcpPostBytes = some bytes → ArrayAtOnce fromSlice bytes := by
  refine ⟨fun h bytes hbytes ↦ arrayAtOnce_of_defaultDeny hpost h hbytes, ?_⟩
  intro h forwarded bytes hforwarded hbody message hmessage
  obtain ⟨bytes', hbytes, hbatch, hpasses, rfl⟩ :=
    (acpMethodGate_eq_forwarded_iff hpost).mp hforwarded
  obtain rfl := Body.bytes.inj hbody
  obtain ⟨hallowed, hmeta⟩ := refusalOf_eq_none_iff.mp (hpasses message hmessage)
  refine ⟨?_, hallowed, hmeta⟩
  rintro items rfl
  exact hbatch (h bytes' hbytes items hmessage)

/-! ## Examples -/

private def rpc (method : String) : Json :=
  .object [("id", .number (.posInt 1)), ("jsonrpc", .string "2.0"), ("method", .string method)]

private def posted (s : String) : AcpRequest := ⟨"POST", none, none, .bytes (asciiBytes s)⟩

private def callText : String :=
  "\x7b\"id\":1,\"jsonrpc\":\"2.0\",\"method\":\"initialize\"\x7d"

private def batchText : String :=
  " [\x7b\"id\":1,\"jsonrpc\":\"2.0\",\"method\":\"providers/set\"\x7d]"

private def readTexts (bytes : Bytes) : Option Json :=
  if bytes = asciiBytes callText then some (rpc "initialize")
  else if bytes = asciiBytes batchText then some (.array [rpc "providers/set"])
  else none

/-- A call of an allowed method is forwarded, and is harmless. -/
theorem defaultDeny_call : DefaultDeny readTexts (posted callText) := by
  refine (defaultDeny_iff rfl).mpr fun bytes hbytes items hitems ↦ ?_
  obtain rfl : asciiBytes callText = bytes := Option.some_inj.mp hbytes
  have hcall : readTexts (asciiBytes callText) = some (rpc "initialize") := by
    rw [readTexts, if_pos rfl]
  exact absurd (Option.some_inj.mp (hcall.symm.trans hitems)) nofun

/-- **A batch behind a blank is forwarded.** -/
theorem not_defaultDeny_batch :
    ¬ ∀ (fromSlice : Bytes → Option Json) (request : AcpRequest), request.method = "POST" →
      DefaultDeny fromSlice request := by
  intro h
  have hbatch : readTexts (asciiBytes batchText) = some (.array [rpc "providers/set"]) := by
    decide +kernel
  have hatOnce : (asciiBytes batchText).head? = some 0x5B :=
    arrayAtOnce_of_defaultDeny rfl (h readTexts (posted batchText) rfl) (by decide +kernel) _ hbatch
  exact absurd hatOnce (by decide +kernel)

end AcpGate

end RosheraCad
