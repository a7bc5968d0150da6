import RosheraCad.Library.OrderedMap
import RosheraCad.Library.Run

/-!
# HTTP idempotency for mutating endpoints

A request that names an idempotency key is looked up in a cache before its handler runs, and its
answer is stored afterwards; other requests may come in between. A key names one command: who asked,
what was asked, and which attempt it is.
-/

namespace RosheraCad

namespace Idempotency

abbrev Bytes := List UInt8

inductive Body
  | bytes (b : Bytes)
  | broken
  deriving DecidableEq

/-- `to_bytes`: collect a body with a hard cap. -/
def toBytes (body : Body) (limit : ℕ) : Option Bytes :=
  match body with
  | .bytes b => if b.length ≤ limit then some b else none
  | .broken => none

def maxBufferedBody : ℕ := 4 * 1024 * 1024

def maxKeyLen : ℕ := 255

inductive Principal
  | user (userId : String)
  | anonymous
  deriving DecidableEq

/-- What an idempotency key actually names. -/
structure CacheKey where
  principal : Principal
  method : String
  target : String
  clientKey : String
  deriving DecidableEq

namespace CacheKey

def components (key : CacheKey) : List String :=
  match key.principal with
  | .user userId => [key.method, key.target, key.clientKey, userId]
  | .anonymous => [key.method, key.target, key.clientKey]

theorem components_injective : Function.Injective components := by
  rintro ⟨_ | _, _, _, _⟩ ⟨_ | _, _, _, _⟩ h
  all_goals
    simp only [components, List.cons.injEq, List.nil_eq, reduceCtorEq, and_false, and_true] at h
  · obtain ⟨rfl, rfl, rfl, rfl⟩ := h
    rfl
  · obtain ⟨rfl, rfl, rfl⟩ := h
    rfl

instance : Ord CacheKey := ⟨compareOn components⟩

instance : Std.TransOrd CacheKey := inferInstanceAs (Std.TransCmp (compareOn components))

instance : Std.LawfulEqOrd CacheKey where
  eq_of_compare h := components_injective (Std.LawfulEqOrd.eq_of_compare h)

end CacheKey

structure CachedResponse where
  requestFingerprint : BitVec 64
  status : ℕ
  contentType : Option String
  body : Bytes
  insertedAt : ℕ

/-! ## The store -/

structure IdempotencyStore where
  entries : OrderedMap CacheKey CachedResponse
  maxEntries : ℕ
  ttl : ℕ

namespace IdempotencyStore

variable (store : IdempotencyStore)

def withCapacityAndTtl (maxEntries ttl : ℕ) : IdempotencyStore := ⟨∅, maxEntries, ttl⟩

def isExpired (now : ℕ) (cached : CachedResponse) : Bool := store.ttl < now - cached.insertedAt

/-- Look up a key. An expired entry is dropped. -/
def get (key : CacheKey) (now : ℕ) : Option CachedResponse × IdempotencyStore :=
  match store.entries[key]? with
  | some cached =>
    if store.isExpired now cached then (none, { store with entries := store.entries.erase key })
    else (some cached, store)
  | none => (none, store)

/-- Drop every expired entry, else the oldest entries down to four fifths of the cap. -/
def sweepForCapacity (now : ℕ) : IdempotencyStore :=
  let expired := (store.entries.toList.filter fun e ↦ store.isExpired now e.2).map Prod.fst
  let entries := store.entries.eraseKeys expired
  if entries.size < store.maxEntries then { store with entries := entries }
  else
    let floor := store.maxEntries * 4 / 5
    let byAge := (entries.toList.map fun e ↦ (e.1, e.2.insertedAt)).insertionSort (·.2 ≤ ·.2)
    let toDrop := byAge.length - floor
    { store with entries := entries.eraseKeys ((byAge.take toDrop).map Prod.fst) }

def insert (key : CacheKey) (value : CachedResponse) (now : ℕ) : IdempotencyStore :=
  let store := if store.maxEntries ≤ store.entries.size then store.sweepForCapacity now else store
  { store with entries := store.entries.insert key value }

end IdempotencyStore

/-! ## The layer -/

/-- A request, as far as the layer reads it. -/
structure Request where
  method : String
  rawKey : Option String
  pathAndQuery : Option String
  path : String
  authInfo : Option String
  body : Body

structure Response where
  status : ℕ
  headers : List (String × String)
  body : Body
  deriving DecidableEq

def Response.header (response : Response) (name : String) : Option String :=
  response.headers.lookup name

def Response.isServerError (response : Response) : Bool :=
  500 ≤ response.status && response.status < 600

inductive ErrorCode
  | idempotencyKeyEmpty
  | idempotencyKeyTooLong
  | idempotencyKeyReused
  | idempotencyBodyTooLarge
  | idempotencyResponseTooLarge
  deriving DecidableEq

structure ApiError where
  code : ErrorCode
  message : String
  hint : Option String
  deriving DecidableEq

inductive Answer
  | response (response : Response)
  | error (e : ApiError)
  deriving DecidableEq

def isMutating (method : String) : Bool := ["POST", "PUT", "PATCH", "DELETE"].contains method

def clientKey (request : Request) : Except ApiError (Option String) :=
  if !isMutating request.method then .ok none
  else
    match request.rawKey with
    | none => .ok none
    | some s =>
      if s.isEmpty then
        .error ⟨.idempotencyKeyEmpty, "Idempotency-Key header was present but empty", none⟩
      else if maxKeyLen < s.utf8ByteSize then
        .error ⟨.idempotencyKeyTooLong, "Idempotency-Key exceeds 255 bytes", none⟩
      else .ok (some s)

def scopedKey (request : Request) (clientKey : String) : CacheKey where
  principal :=
    match request.authInfo with
    | some userId => .user userId
    | none => .anonymous
  method := request.method
  target := request.pathAndQuery.getD request.path
  clientKey := clientKey

def replayedHeader : String := "idempotency-replayed"

/-- The response sent on a cache hit. -/
def replay (cached : CachedResponse) : Response where
  status := cached.status
  headers := (match cached.contentType with
    | some contentType => [("content-type", contentType)]
    | none => []) ++ [(replayedHeader, "true")]
  body := .bytes cached.body

def bodyTooLarge : ApiError :=
  ⟨.idempotencyBodyTooLarge,
    "Request body exceeds the 4194304-byte limit imposed by the idempotency layer", none⟩

def keyReused : ApiError :=
  ⟨.idempotencyKeyReused,
    "Idempotency-Key reused with a different request body. Use a fresh key for a new command.",
    some "Generate a fresh UUID per logical command."⟩

def responseTooLarge : ApiError :=
  ⟨.idempotencyResponseTooLarge, "Response body exceeded idempotency buffer limit", none⟩

inductive Phase
  | waiting
  | running
  | completed (response : Response)
  | answered (handler : Option Response) (answer : Answer)
  deriving DecidableEq

section Layer

variable (fingerprint : Bytes → BitVec 64)

/-- The layer up to the handler: validate the key, buffer the body and look the key up. -/
def onRequest (store : IdempotencyStore) (request : Request) (now : ℕ) :
    Phase × IdempotencyStore :=
  match clientKey request with
  | .error e => (.answered none (.error e), store)
  | .ok none => (.running, store)
  | .ok (some s) =>
    match toBytes request.body maxBufferedBody with
    | none => (.answered none (.error bodyTooLarge), store)
    | some body =>
      match store.get (scopedKey request s) now with
      | (some cached, store) =>
        if cached.requestFingerprint = fingerprint body then
          (.answered none (.response (replay cached)), store)
        else (.answered none (.error keyReused), store)
      | (none, store) => (.running, store)

/-- The layer after the handler: a transient failure or an unprotected request is forwarded. -/
def onResponse (request : Request) (response : Response) : Phase :=
  match clientKey request with
  | .ok (some _) =>
    if response.isServerError then .answered (some response) (.response response)
    else .completed response
  | _ => .answered (some response) (.response response)

def onBuffered (store : IdempotencyStore) (request : Request) (response : Response) (now : ℕ) :
    Phase × IdempotencyStore :=
  match toBytes response.body maxBufferedBody with
  | none => (.answered (some response) (.error responseTooLarge), store)
  | some body =>
    match clientKey request, toBytes request.body maxBufferedBody with
    | .ok (some s), some requestBody =>
      (.answered (some response) (.response { response with body := .bytes body }),
        store.insert (scopedKey request s)
          ⟨fingerprint requestBody, response.status, response.header "content-type", body, now⟩
          now)
    | _, _ => (.answered (some response) (.response response), store)

/-! ## Requests in flight -/

/-- The store, and where each request stands. -/
structure LayerState where
  store : IdempotencyStore
  phase : ℕ → Phase

/-- A request is looked up, its handler answers, or its answer is stored. -/
inductive LayerStep
  | lookup (i now : ℕ)
  | complete (i : ℕ) (response : Response)
  | save (i now : ℕ)

def LayerState.Enabled (s : LayerState) : LayerStep → Prop
  | .lookup i _ => s.phase i = .waiting
  | .complete i _ => s.phase i = .running
  | .save i _ => ∃ response, s.phase i = .completed response

def LayerState.next (requests : ℕ → Request) (s : LayerState) : LayerStep → LayerState
  | .lookup i now =>
    let out := onRequest fingerprint s.store (requests i) now
    ⟨out.2, Function.update s.phase i out.1⟩
  | .complete i response =>
    { s with phase := Function.update s.phase i (onResponse (requests i) response) }
  | .save i now =>
    match s.phase i with
    | .completed response =>
      let out := onBuffered fingerprint s.store (requests i) response now
      ⟨out.2, Function.update s.phase i out.1⟩
    | _ => s

/-- Requests that share an empty cache. -/
def system (requests : ℕ → Request) (maxEntries ttl : ℕ) :
    GuardedSystem LayerState LayerStep where
  init := ⟨.withCapacityAndTtl maxEntries ttl, fun _ ↦ .waiting⟩
  enabled := LayerState.Enabled
  step := LayerState.next fingerprint requests

end Layer

/-! ## What a sweep and a lookup leave -/

namespace IdempotencyStore

variable {store : IdempotencyStore} {key k : CacheKey} {cached : CachedResponse} {now : ℕ}

theorem getElem?_of_sweepForCapacity
    (h : (store.sweepForCapacity now).entries[k]? = some cached) :
    store.entries[k]? = some cached := by
  have hof {ks : List CacheKey} {m : OrderedMap CacheKey CachedResponse}
      (h : (m.eraseKeys ks)[k]? = some cached) : m[k]? = some cached := by
    rw [OrderedMap.getElem?_eraseKeys] at h
    split at h
    · contradiction
    · exact h
  simp only [sweepForCapacity] at h
  split at h
  · exact hof h
  · exact hof (hof h)

theorem getElem?_of_get (h : (store.get key now).2.entries[k]? = some cached) :
    store.entries[k]? = some cached := by
  rw [get] at h
  split at h
  · split at h
    · rw [OrderedMap.lookup_erase] at h
      split at h
      · contradiction
      · exact h
    · exact h
  · exact h

theorem getElem?_insert_self (store : IdempotencyStore) (key : CacheKey)
    (value : CachedResponse) (now : ℕ) :
    (store.insert key value now).entries[key]? = some value := by
  simp [insert]

theorem getElem?_of_insert {value : CachedResponse} (hne : k ≠ key)
    (h : (store.insert key value now).entries[k]? = some cached) :
    store.entries[k]? = some cached := by
  simp only [insert, OrderedMap.lookup_insert, if_neg hne] at h
  split at h
  · exact getElem?_of_sweepForCapacity h
  · exact h

end IdempotencyStore

end Idempotency

end RosheraCad
