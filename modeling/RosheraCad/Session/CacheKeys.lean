import RosheraCad.CanonicalRef
import RosheraCad.Session.TtlCache

/-!
# The keys of the session caches

A permission is written, read and invalidated under the ids with a colon between them, which two
pairs may share. An object is written under its bare id, and read and invalidated under the debug
form of the id. What a lookup should answer is told by a record kept beside the caches.
-/

namespace RosheraCad

namespace Cache

/-- What is cached: objects and permissions, each with the id it carries and its estimated size. -/
structure CacheValues where
  CADObject : Type
  UserPermissions : Type
  objectId : CADObject → Uuid
  userId : UserPermissions → String
  objectSize : CADObject → UInt64
  permissionsSize : UserPermissions → UInt64

/-- Cache configuration, as far as objects and permissions are concerned. -/
structure CacheConfig where
  objectCapacity : ℕ
  permissionCapacity : ℕ
  maxSizeMb : UInt64
  objectTtl : ℕ
  permissionTtl : ℕ

def debugGeometryId (objectId : Uuid) : String := "GeometryId(" ++ objectId.toText ++ ")"

def objectKey (sessionId : String) (objectId : Uuid) : String :=
  sessionId ++ ":" ++ objectId.toText

def geometryKey (sessionId : String) (objectId : Uuid) : String :=
  sessionId ++ ":" ++ debugGeometryId objectId

def permissionKey (sessionId userId : String) : String := sessionId ++ ":" ++ userId

variable {V : CacheValues}

structure CacheManager (LO : LruCache String (CacheEntry V.CADObject))
    (LP : LruCache String (CacheEntry V.UserPermissions)) where
  objects : TtlLruCache LO
  permissions : TtlLruCache LP

/-- What a manager is asked to do, with the times its clocks show. -/
inductive Request (V : CacheValues)
  | getObject (sessionId : String) (objectId : Uuid) (now : ℕ)
  | cacheObject (sessionId : String) (object : V.CADObject) (now : ℕ)
  | invalidateObject (sessionId : String) (objectId : Uuid)
  | getPermissions (sessionId userId : String) (now : ℕ)
  | cachePermissions (sessionId : String) (permissions : V.UserPermissions) (now : ℕ)
  | invalidatePermissions (sessionId userId : String)
  | invalidateSession (sessionId : String)
  | cleanExpired (objectClock permissionClock : String → ℕ)
  | clearAll

namespace CacheManager

variable {LO : LruCache String (CacheEntry V.CADObject)}
  {LP : LruCache String (CacheEntry V.UserPermissions)}

/-- A new manager: half of the bytes are for objects, an eighth for permissions. -/
def new (LO : LruCache String (CacheEntry V.CADObject))
    (LP : LruCache String (CacheEntry V.UserPermissions)) (config : CacheConfig) :
    CacheManager LO LP :=
  let maxBytes := config.maxSizeMb * 1024 * 1024
  ⟨.new LO config.objectCapacity (maxBytes / 2) (some config.objectTtl),
    .new LP config.permissionCapacity (maxBytes / 8) (some config.permissionTtl)⟩

variable (m : CacheManager LO LP)

def getObject (sessionId : String) (objectId : Uuid) (now : ℕ) :
    Option V.CADObject × CacheManager LO LP :=
  let (object, objects) := m.objects.get (geometryKey sessionId objectId) now
  (object, { m with objects })

def cacheObject (sessionId : String) (object : V.CADObject) (now : ℕ) : CacheManager LO LP :=
  { m with
    objects := m.objects.put (objectKey sessionId (V.objectId object)) object
      (V.objectSize object) now }

def invalidateObject (sessionId : String) (objectId : Uuid) : CacheManager LO LP :=
  { m with objects := (m.objects.remove (geometryKey sessionId objectId)).2 }

def getPermissions (sessionId userId : String) (now : ℕ) :
    Option V.UserPermissions × CacheManager LO LP :=
  let (found, permissions) := m.permissions.get (permissionKey sessionId userId) now
  (found, { m with permissions })

def cachePermissions (sessionId : String) (permissions : V.UserPermissions) (now : ℕ) :
    CacheManager LO LP :=
  { m with
    permissions := m.permissions.put (permissionKey sessionId (V.userId permissions)) permissions
      (V.permissionsSize permissions) now }

def invalidatePermissions (sessionId userId : String) : CacheManager LO LP :=
  { m with permissions := (m.permissions.remove (permissionKey sessionId userId)).2 }

def invalidateSession (_sessionId : String) : CacheManager LO LP :=
  ⟨m.objects.clear, m.permissions.clear⟩

def cleanExpired (objectClock permissionClock : String → ℕ) : CacheManager LO LP :=
  ⟨m.objects.cleanExpired objectClock, m.permissions.cleanExpired permissionClock⟩

def clearAll : CacheManager LO LP := ⟨m.objects.clear, m.permissions.clear⟩

def step : Request V → CacheManager LO LP
  | .getObject sessionId objectId now => (m.getObject sessionId objectId now).2
  | .cacheObject sessionId object now => m.cacheObject sessionId object now
  | .invalidateObject sessionId objectId => m.invalidateObject sessionId objectId
  | .getPermissions sessionId userId now => (m.getPermissions sessionId userId now).2
  | .cachePermissions sessionId permissions now => m.cachePermissions sessionId permissions now
  | .invalidatePermissions sessionId userId => m.invalidatePermissions sessionId userId
  | .invalidateSession sessionId => m.invalidateSession sessionId
  | .cleanExpired objectClock permissionClock => m.cleanExpired objectClock permissionClock
  | .clearAll => m.clearAll

end CacheManager

/-! ## What was cached for a pair -/

structure Deposit (α : Type) where
  value : α
  createdAt : ℕ
  ttl : Option ℕ

def Deposit.isExpired {α : Type} (d : Deposit α) (now : ℕ) : Bool :=
  d.ttl.any fun ttl ↦ ttl < now - d.createdAt

def CacheEntry.deposit {α : Type} (e : CacheEntry α) : Deposit α := ⟨e.value, e.createdAt, e.ttl⟩

def dueAt {α : Type} (d : Option (Deposit α)) (now : ℕ) : Option α :=
  d.bind fun d ↦ if d.isExpired now then none else some d.value

section Record

variable {α I : Type} [DecidableEq I] {L : LruCache String (CacheEntry α)}

def stillHeld (key : I → String) (s s' : TtlLruCache L) (held : I → Option (Deposit α)) (i : I) :
    Option (Deposit α) :=
  if (s.entries.lookup (key i)).isSome ∧ (s'.entries.lookup (key i)).isNone then none else held i

def TtlLruCache.withRoom (s : TtlLruCache L) (sizeBytes : UInt64) : TtlLruCache L :=
  { s with cache := (s.roomFor sizeBytes).1, stats := (s.roomFor sizeBytes).2 }

/-- The record after a put: entries may leave to make room for it, and because of the capacity. -/
def heldAfterPut (key : I → String) (s : TtlLruCache L) (i : I) (value : α) (sizeBytes : UInt64)
    (now : ℕ) (held : I → Option (Deposit α)) : I → Option (Deposit α) :=
  Function.update
    (stillHeld key (s.withRoom sizeBytes) (s.put (key i) value sizeBytes now)
      (stillHeld key s (s.withRoom sizeBytes) held))
    i (some ⟨value, now, s.defaultTtl⟩)

def Narrows (s s' : TtlLruCache L) : Prop :=
  ∀ k e', s'.entries.lookup k = some e' →
    ∃ e, s.entries.lookup k = some e ∧ e.deposit = e'.deposit

namespace Narrows

variable {s s' : TtlLruCache L}

theorem of_lookup (h : ∀ k e', s'.entries.lookup k = some e' → s.entries.lookup k = some e') :
    Narrows s s' := fun k e' he' ↦ ⟨e', h k e' he', rfl⟩

theorem get (s : TtlLruCache L) (key : String) (now : ℕ) : Narrows s (s.get key now).2 := by
  rcases hlookup : s.entries.lookup key with _ | entry
  · refine of_lookup fun k e' h ↦ ?_
    rwa [(TtlLruCache.get_of_none hlookup now).2] at h
  · rcases hexpired : entry.isExpired now with _ | _
    · intro k e' h
      rw [(TtlLruCache.get_of_live hlookup hexpired).2, Recency.lookup_cons] at h
      split at h
      next hk =>
        obtain rfl := Option.some_inj.mp h
        exact ⟨entry, hk ▸ hlookup, rfl⟩
      next hk =>
        rw [Recency.lookup_remove, if_neg hk] at h
        exact ⟨e', h, rfl⟩
    · refine of_lookup fun k e' h ↦ ?_
      rw [(TtlLruCache.get_of_expired hlookup hexpired).2, Recency.lookup_remove] at h
      split at h
      next => cases h
      next => exact h

theorem clear (s : TtlLruCache L) : Narrows s s.clear := by
  have hentries : s.clear.entries = [] := L.iter_clear _
  refine of_lookup fun k e' h ↦ ?_
  rw [hentries] at h
  cases h

theorem cleanExpired (hnodup : (s.entries.map Prod.fst).Nodup) (clock : String → ℕ) :
    Narrows s (s.cleanExpired clock) := by
  refine of_lookup fun k e' h ↦ ?_
  rw [(TtlLruCache.cleanExpired_frame s clock hnodup).1] at h
  exact Recency.lookup_of_mem hnodup (List.mem_filter.mp (Recency.mem_of_lookup h)).1

theorem withRoom (s : TtlLruCache L) (sizeBytes : UInt64) : Narrows s (s.withRoom sizeBytes) :=
  of_lookup fun _ _ h ↦
    Recency.lookup_of_prefix (TtlLruCache.makeRoom_frame (L.len s.cache) (s.cache, s.stats)).1 h

end Narrows

def KeysOnce (s : TtlLruCache L) : Prop := (s.entries.map Prod.fst).Nodup

namespace KeysOnce

variable {s : TtlLruCache L}

theorem get (h : KeysOnce s) (key : String) (now : ℕ) : KeysOnce (s.get key now).2 := by
  rcases hlookup : s.entries.lookup key with _ | entry
  · rw [KeysOnce, (TtlLruCache.get_of_none hlookup now).2]
    exact h
  · rcases hexpired : entry.isExpired now with _ | _
    · rw [KeysOnce, (TtlLruCache.get_of_live hlookup hexpired).2]
      exact List.nodup_cons.mpr ⟨Recency.not_mem_remove, Recency.nodup_remove h⟩
    · rw [KeysOnce, (TtlLruCache.get_of_expired hlookup hexpired).2]
      exact Recency.nodup_remove h

theorem remove (h : KeysOnce s) (key : String) : KeysOnce (s.remove key).2 := by
  rw [KeysOnce, (TtlLruCache.remove_frame s key).1]
  exact Recency.nodup_remove h

theorem withRoom (h : KeysOnce s) (sizeBytes : UInt64) : KeysOnce (s.withRoom sizeBytes) :=
  ((TtlLruCache.makeRoom_frame (L.len s.cache) (s.cache, s.stats)).1.sublist.map Prod.fst).nodup h

theorem put (h : KeysOnce s) (key : String) (value : α) (sizeBytes : UInt64) (now : ℕ) :
    KeysOnce (s.put key value sizeBytes now) := by
  rw [KeysOnce, TtlLruCache.put, (TtlLruCache.putWithTtl_frame s key value sizeBytes _ now).1]
  exact Recency.nodup_put _ _ (h.withRoom sizeBytes)

theorem clear (s : TtlLruCache L) : KeysOnce s.clear := by
  have hentries : s.clear.entries = [] := L.iter_clear _
  rw [KeysOnce, hentries]
  exact List.nodup_nil

theorem cleanExpired (h : KeysOnce s) (clock : String → ℕ) : KeysOnce (s.cleanExpired clock) := by
  rw [KeysOnce, (TtlLruCache.cleanExpired_frame s clock h).1]
  exact (List.filter_sublist.map Prod.fst).nodup h

end KeysOnce

theorem lookup_put_key (s : TtlLruCache L) (key : String) (value : α) (sizeBytes : UInt64)
    (now : ℕ) : (s.put key value sizeBytes now).entries.lookup key =
      some (.new value s.defaultTtl sizeBytes now) := by
  rw [TtlLruCache.put, (TtlLruCache.putWithTtl_frame s key value sizeBytes _ now).1]
  exact Recency.lookup_put_self ..

theorem lookup_of_lookup_put {s : TtlLruCache L} {key k : String} {value : α} {sizeBytes : UInt64}
    {now : ℕ} {e : CacheEntry α} (hne : k ≠ key)
    (h : (s.put key value sizeBytes now).entries.lookup k = some e) :
    (s.withRoom sizeBytes).entries.lookup k = some e := by
  rw [TtlLruCache.put, (TtlLruCache.putWithTtl_frame s key value sizeBytes _ now).1] at h
  exact Recency.lookup_of_lookup_put hne h

/-- Every entry was cached for the pair that used its key last, and the record of that pair tells
it. -/
structure Matches (key : I → String) (fits : I → α → Prop) (s : TtlLruCache L)
    (held : I → Option (Deposit α)) (owner : String → Option I) : Prop where
  keysOnce : KeysOnce s
  found : ∀ k e, s.entries.lookup k = some e →
    ∃ i, owner k = some i ∧ key i = k ∧ fits i e.value
  own : ∀ i, owner (key i) = some i →
    (s.entries.lookup (key i)).map CacheEntry.deposit = held i
  held_fits : ∀ i d, held i = some d → fits i d.value
  unused : ∀ i, owner (key i) = none → held i = none

namespace Matches

variable {key : I → String} {fits : I → α → Prop} {s s' : TtlLruCache L}
  {held : I → Option (Deposit α)} {owner : String → Option I}

omit [DecidableEq I] in
theorem eq_some_of_stillHeld {i : I} {d : Deposit α} (h : stillHeld key s s' held i = some d) :
    held i = some d := by
  rw [stillHeld] at h
  split at h
  next => cases h
  next => exact h

omit [DecidableEq I] in
theorem narrow (h : Matches key fits s held owner) (hnarrows : Narrows s s')
    (honce : KeysOnce s') : Matches key fits s' (stillHeld key s s' held) owner where
  keysOnce := honce
  found k e' he' := by
    obtain ⟨e, he, hdeposit⟩ := hnarrows k e' he'
    obtain ⟨i, howner, hkey, hfits⟩ := h.found k e he
    have hvalue : e.value = e'.value := congrArg Deposit.value hdeposit
    exact ⟨i, howner, hkey, hvalue ▸ hfits⟩
  own i howner := by
    have hown := h.own i howner
    rw [stillHeld]
    rcases hlookup : s'.entries.lookup (key i) with _ | e'
    · rcases hbefore : s.entries.lookup (key i) with _ | e
      · rw [hbefore] at hown
        exact hown
      · rfl
    · obtain ⟨e, he, hdeposit⟩ := hnarrows _ _ hlookup
      rw [he] at hown
      rw [if_neg fun hgone ↦ Bool.false_ne_true hgone.2, ← hown, Option.map_some, Option.map_some,
        hdeposit]
  held_fits i d hd := h.held_fits i d (eq_some_of_stillHeld hd)
  unused i howner := by
    rw [stillHeld, h.unused i howner, ite_self]

/-- **A pair caches a value of its own.** -/
theorem put (h : Matches key fits s held owner) {i : I} {value : α} (hfits : fits i value)
    (sizeBytes : UInt64) (now : ℕ) :
    Matches key fits (s.put (key i) value sizeBytes now)
      (heldAfterPut key s i value sizeBytes now held)
      (Function.update owner (key i) (some i)) := by
  have hroom := h.narrow (Narrows.withRoom s sizeBytes) (h.keysOnce.withRoom sizeBytes)
  have hself := lookup_put_key s (key i) value sizeBytes now
  refine ⟨h.keysOnce.put .., fun k e he ↦ ?_, fun j howner ↦ ?_, fun j d hd ↦ ?_,
    fun j howner ↦ ?_⟩
  · by_cases hk : k = key i
    · subst hk
      obtain rfl := Option.some_inj.mp (hself.symm.trans he)
      exact ⟨i, Function.update_self .., rfl, hfits⟩
    · obtain ⟨j, howner, hkey, hj⟩ := hroom.found k e (lookup_of_lookup_put hk he)
      exact ⟨j, (Function.update_of_ne hk ..).trans howner, hkey, hj⟩
  · by_cases hk : key j = key i
    · rw [hk, Function.update_self, Option.some_inj] at howner
      subst howner
      rw [hself, heldAfterPut, Function.update_self]
      rfl
    · rw [Function.update_of_ne hk] at howner
      have hne : j ≠ i := fun heq ↦ hk (congrArg key heq)
      have hown := hroom.own j howner
      rw [heldAfterPut, Function.update_of_ne hne, stillHeld]
      rcases hlookup : (s.put (key i) value sizeBytes now).entries.lookup (key j) with _ | e
      · rcases hbefore : (s.withRoom sizeBytes).entries.lookup (key j) with _ | e
        · rw [hbefore] at hown
          exact hown
        · rfl
      · rw [lookup_of_lookup_put hk hlookup] at hown
        rw [if_neg fun hgone ↦ Bool.false_ne_true hgone.2]
        exact hown
  · by_cases hj : j = i
    · subst hj
      rw [heldAfterPut, Function.update_self, Option.some_inj] at hd
      exact hd ▸ hfits
    · rw [heldAfterPut, Function.update_of_ne hj] at hd
      exact hroom.held_fits j d (eq_some_of_stillHeld hd)
  · by_cases hk : key j = key i
    · rw [hk, Function.update_self] at howner
      cases howner
    · rw [Function.update_of_ne hk] at howner
      have hne : j ≠ i := fun heq ↦ hk (congrArg key heq)
      rw [heldAfterPut, Function.update_of_ne hne, stillHeld, hroom.unused j howner, ite_self]

/-- **A pair invalidates what it has cached.** -/
theorem remove (h : Matches key fits s held owner) (i : I) :
    Matches key fits (s.remove (key i)).2 (Function.update held i none)
      (Function.update owner (key i) (some i)) := by
  have hlookup (k : String) : (s.remove (key i)).2.entries.lookup k =
      if k = key i then none else s.entries.lookup k := by
    rw [(TtlLruCache.remove_frame s (key i)).1, Recency.lookup_remove]
  refine ⟨h.keysOnce.remove _, fun k e he ↦ ?_, fun j howner ↦ ?_, fun j d hd ↦ ?_,
    fun j howner ↦ ?_⟩
  · rw [hlookup] at he
    split at he
    next => cases he
    next hk =>
      obtain ⟨j, howner, hkey, hj⟩ := h.found k e he
      exact ⟨j, (Function.update_of_ne hk ..).trans howner, hkey, hj⟩
  · rw [hlookup]
    by_cases hk : key j = key i
    · rw [hk, Function.update_self, Option.some_inj] at howner
      subst howner
      rw [if_pos rfl, Function.update_self]
      rfl
    · rw [Function.update_of_ne hk] at howner
      have hne : j ≠ i := fun heq ↦ hk (congrArg key heq)
      rw [if_neg hk, Function.update_of_ne hne]
      exact h.own j howner
  · by_cases hj : j = i
    · subst hj
      rw [Function.update_self] at hd
      cases hd
    · rw [Function.update_of_ne hj] at hd
      exact h.held_fits j d hd
  · by_cases hk : key j = key i
    · rw [hk, Function.update_self] at howner
      cases howner
    · rw [Function.update_of_ne hk] at howner
      have hne : j ≠ i := fun heq ↦ hk (congrArg key heq)
      rw [Function.update_of_ne hne]
      exact h.unused j howner

end Matches

end Record

/-! ## The manager and its record -/

/-- A manager, and the record of what should be found in its caches. -/
structure Tracked (LO : LruCache String (CacheEntry V.CADObject))
    (LP : LruCache String (CacheEntry V.UserPermissions)) where
  manager : CacheManager LO LP
  objectsHeld : String × Uuid → Option (Deposit V.CADObject)
  permissionsHeld : String × String → Option (Deposit V.UserPermissions)
  permissionsOwner : String → Option (String × String)

namespace Tracked

variable {LO : LruCache String (CacheEntry V.CADObject)}
  {LP : LruCache String (CacheEntry V.UserPermissions)}

def objectKeyOf (i : String × Uuid) : String := objectKey i.1 i.2

def permissionKeyOf (i : String × String) : String := permissionKey i.1 i.2

def next (t : Tracked LO LP) (request : Request V) : Tracked LO LP :=
  let manager := t.manager.step request
  let stillObjects := stillHeld objectKeyOf t.manager.objects manager.objects t.objectsHeld
  let stillPermissions :=
    stillHeld permissionKeyOf t.manager.permissions manager.permissions t.permissionsHeld
  match request with
  | .cacheObject sessionId object now =>
    { t with
      manager
      objectsHeld := heldAfterPut objectKeyOf t.manager.objects (sessionId, V.objectId object)
        object (V.objectSize object) now t.objectsHeld }
  | .invalidateObject sessionId objectId =>
    { t with manager, objectsHeld := Function.update t.objectsHeld (sessionId, objectId) none }
  | .cachePermissions sessionId permissions now =>
    { t with
      manager
      permissionsHeld := heldAfterPut permissionKeyOf t.manager.permissions
        (sessionId, V.userId permissions) permissions (V.permissionsSize permissions) now
        t.permissionsHeld
      permissionsOwner := Function.update t.permissionsOwner
        (permissionKey sessionId (V.userId permissions))
        (some (sessionId, V.userId permissions)) }
  | .invalidatePermissions sessionId userId =>
    { t with
      manager
      permissionsHeld := Function.update t.permissionsHeld (sessionId, userId) none
      permissionsOwner := Function.update t.permissionsOwner (permissionKey sessionId userId)
        (some (sessionId, userId)) }
  | .getObject .. | .getPermissions .. | .invalidateSession _ | .cleanExpired .. | .clearAll =>
    { t with manager, objectsHeld := stillObjects, permissionsHeld := stillPermissions }

/-- A lookup answers what is held for its pair and has not run out. -/
def Right (t : Tracked LO LP) : Request V → Prop
  | .getObject sessionId objectId now =>
    (t.manager.getObject sessionId objectId now).1 = dueAt (t.objectsHeld (sessionId, objectId)) now
  | .getPermissions sessionId userId now =>
    (t.manager.getPermissions sessionId userId now).1 =
      dueAt (t.permissionsHeld (sessionId, userId)) now
  | _ => True

/-- There is no object to be found, and permissions under the key were for the same pair, or there
are none. -/
def Apart (t : Tracked LO LP) : Request V → Prop
  | .getObject sessionId objectId now => dueAt (t.objectsHeld (sessionId, objectId)) now = none
  | .getPermissions sessionId userId now =>
    (∀ i, t.permissionsOwner (permissionKey sessionId userId) = some i →
      i = (sessionId, userId)) ∨
    ((∀ entry, t.manager.permissions.entries.lookup (permissionKey sessionId userId) = some entry →
        entry.isExpired now = true) ∧
      dueAt (t.permissionsHeld (sessionId, userId)) now = none)
  | _ => True

/-- A new manager, of which nothing is recorded. -/
def tracking (LO : LruCache String (CacheEntry V.CADObject))
    (LP : LruCache String (CacheEntry V.UserPermissions)) (config : CacheConfig) :
    GuardedSystem (Tracked LO LP) (Request V) where
  init := ⟨.new LO LP config, fun _ ↦ none, fun _ ↦ none, fun _ ↦ none⟩
  enabled _ _ := True
  step := next

theorem exists_toText_eq (u : Uuid) : ∃ before c, u.toText.toList = before ++ [c] ∧
    Uuid.IsLowerHex c := by
  have hne : (u.hexDigits.drop 20).take 12 ≠ [] := by
    refine List.ne_nil_of_length_pos ?_
    rw [List.length_take, List.length_drop, Uuid.length_hexDigits]
    exact Nat.zero_lt_succ _
  have hmem : ((u.hexDigits.drop 20).take 12).getLast hne ∈ u.hexDigits :=
    List.mem_of_mem_drop (List.mem_of_mem_take (List.getLast_mem hne))
  have hsplit := List.dropLast_append_getLast hne
  refine ⟨u.hexDigits.take 8 ++ '-' :: ((u.hexDigits.drop 8).take 4 ++
    '-' :: ((u.hexDigits.drop 12).take 4 ++ '-' :: ((u.hexDigits.drop 16).take 4 ++
      '-' :: ((u.hexDigits.drop 20).take 12).dropLast))), _, ?_,
    Uuid.isLowerHex_of_mem_hexDigits hmem⟩
  simp only [Uuid.toList_toText, Uuid.hyphenate, List.append_assoc, List.cons_append, hsplit]

theorem objectKey_ne_geometryKey (s s' : String) (o o' : Uuid) :
    objectKey s o ≠ geometryKey s' o' := by
  intro h
  obtain ⟨before, c, htext, hc⟩ := exists_toText_eq o
  have hlists := congrArg String.toList h
  rw [objectKey, geometryKey, debugGeometryId] at hlists
  simp only [String.toList_append, htext, ← List.append_assoc] at hlists
  obtain ⟨-, hlast⟩ := List.append_inj' hlists rfl
  rw [List.head_eq_of_cons_eq hlast, Uuid.IsLowerHex] at hc
  exact absurd hc (by decide)

theorem permissionKey_inj {s s' u : String} (h : permissionKey s u = permissionKey s' u) :
    s = s' := by
  have hlists := congrArg String.toList h
  rw [permissionKey, permissionKey] at hlists
  simp only [String.toList_append, List.append_assoc] at hlists
  exact String.toList_inj.mp (List.append_inj_left' hlists rfl)

/-! ## The invariant -/

structure Written (s : TtlLruCache LO) : Prop where
  keysOnce : KeysOnce s
  keys : ∀ k e, s.entries.lookup k = some e → ∃ i, objectKeyOf i = k

theorem Written.narrow {s s' : TtlLruCache LO} (h : Written s) (hnarrows : Narrows s s')
    (honce : KeysOnce s') : Written s' where
  keysOnce := honce
  keys k e' he' := by
    obtain ⟨e, he, -⟩ := hnarrows k e' he'
    exact h.keys k e he

theorem Written.put {s : TtlLruCache LO} (h : Written s) (i : String × Uuid)
    (object : V.CADObject) (sizeBytes : UInt64) (now : ℕ) :
    Written (s.put (objectKeyOf i) object sizeBytes now) where
  keysOnce := h.keysOnce.put ..
  keys k e he := by
    by_cases hk : k = objectKeyOf i
    · exact ⟨i, hk.symm⟩
    · exact (h.narrow (Narrows.withRoom s sizeBytes) (h.keysOnce.withRoom sizeBytes)).keys k e
        (lookup_of_lookup_put hk he)

def OfUser (i : String × String) (permissions : V.UserPermissions) : Prop :=
  V.userId permissions = i.2

/-- What holds of a manager and its record. -/
structure Consistent (t : Tracked LO LP) : Prop where
  objects : Written t.manager.objects
  permissions : Matches permissionKeyOf OfUser t.manager.permissions t.permissionsHeld
    t.permissionsOwner

variable {t : Tracked LO LP}

theorem Consistent.init (config : CacheConfig) : Consistent (tracking LO LP config).init := by
  have hobjects : (tracking LO LP config).init.manager.objects.entries = [] := LO.iter_new _
  have hpermissions : (tracking LO LP config).init.manager.permissions.entries = [] :=
    LP.iter_new _
  refine ⟨⟨?_, fun k e he ↦ ?_⟩, ?_, fun k e he ↦ ?_, fun i h ↦ ?_, fun i d h ↦ ?_, fun i _ ↦ rfl⟩
  · rw [KeysOnce, hobjects]
    exact List.nodup_nil
  · rw [hobjects] at he
    cases he
  · rw [KeysOnce, hpermissions]
    exact List.nodup_nil
  · rw [hpermissions] at he
    cases he
  · cases h
  · cases h

/-- **One request keeps what holds.** -/
theorem Consistent.next (h : Consistent t) (request : Request V) : Consistent (t.next request) := by
  -- A cache that a request leaves alone loses nothing.
  have hsame : stillHeld permissionKeyOf t.manager.permissions t.manager.permissions
      t.permissionsHeld = t.permissionsHeld := by
    funext i
    rw [stillHeld]
    refine if_neg fun hgone ↦ ?_
    rw [Option.isNone_iff_eq_none.mp hgone.2] at hgone
    exact Bool.false_ne_true hgone.1
  cases request with
  | getObject sessionId objectId now =>
    have hpermissions := h.permissions
    rw [← hsame] at hpermissions
    exact ⟨h.objects.narrow (Narrows.get _ _ _) (h.objects.keysOnce.get _ _), hpermissions⟩
  | cacheObject sessionId object now =>
    exact ⟨h.objects.put (sessionId, V.objectId object) object _ now, h.permissions⟩
  | invalidateObject sessionId objectId =>
    refine ⟨h.objects.narrow (Narrows.of_lookup fun k e he ↦ ?_) (h.objects.keysOnce.remove _),
      h.permissions⟩
    have hentries := (TtlLruCache.remove_frame t.manager.objects (geometryKey sessionId objectId)).1
    change (t.manager.objects.remove (geometryKey sessionId objectId)).2.entries.lookup k = _ at he
    rw [hentries, Recency.lookup_remove] at he
    split at he
    next => cases he
    next => exact he
  | getPermissions sessionId userId now =>
    exact ⟨h.objects, h.permissions.narrow (Narrows.get _ _ _) (h.permissions.keysOnce.get _ _)⟩
  | cachePermissions sessionId permissions now =>
    have hfits : OfUser (sessionId, V.userId permissions) permissions := rfl
    exact ⟨h.objects, h.permissions.put hfits _ now⟩
  | invalidatePermissions sessionId userId =>
    exact ⟨h.objects, h.permissions.remove (sessionId, userId)⟩
  | invalidateSession sessionId =>
    exact ⟨h.objects.narrow (Narrows.clear _) (KeysOnce.clear _),
      h.permissions.narrow (Narrows.clear _) (KeysOnce.clear _)⟩
  | cleanExpired objectClock permissionClock =>
    exact ⟨h.objects.narrow (Narrows.cleanExpired h.objects.keysOnce _)
        (h.objects.keysOnce.cleanExpired _),
      h.permissions.narrow (Narrows.cleanExpired h.permissions.keysOnce _)
        (h.permissions.keysOnce.cleanExpired _)⟩
  | clearAll =>
    exact ⟨h.objects.narrow (Narrows.clear _) (KeysOnce.clear _),
      h.permissions.narrow (Narrows.clear _) (KeysOnce.clear _)⟩

/-! ## When a lookup is right -/

theorem Consistent.getObject_eq_none (h : Consistent t) (sessionId : String) (objectId : Uuid)
    (now : ℕ) : (t.manager.getObject sessionId objectId now).1 = none := by
  refine (TtlLruCache.get_of_none ?_ now).1
  rw [Option.eq_none_iff_forall_ne_some]
  intro e he
  obtain ⟨i, hkey⟩ := h.objects.keys _ e he
  exact objectKey_ne_geometryKey _ _ _ _ hkey

theorem getPermissions_eq (t : Tracked LO LP) (sessionId userId : String) (now : ℕ) :
    (t.manager.getPermissions sessionId userId now).1 =
      dueAt ((t.manager.permissions.entries.lookup (permissionKey sessionId userId)).map
        CacheEntry.deposit) now := by
  change (t.manager.permissions.get (permissionKey sessionId userId) now).1 = _
  rcases hlookup : t.manager.permissions.entries.lookup (permissionKey sessionId userId) with _ | e
  · exact (TtlLruCache.get_of_none hlookup now).1
  · rcases hexpired : e.isExpired now with _ | _
    · refine (TtlLruCache.get_of_live hlookup hexpired).1.trans (if_neg ?_).symm
      exact ne_true_of_eq_false hexpired
    · exact (TtlLruCache.get_of_expired hlookup hexpired).1.trans (if_pos hexpired).symm

theorem Consistent.right_getPermissions_iff (h : Consistent t) (sessionId userId : String)
    (now : ℕ) : Right t (.getPermissions sessionId userId now) ↔
      Apart t (.getPermissions sessionId userId now) := by
  rw [Right, Apart, getPermissions_eq]
  by_cases hown : ∀ i, t.permissionsOwner (permissionKey sessionId userId) = some i →
      i = (sessionId, userId)
  · refine iff_of_true (congrArg (dueAt · now) ?_) (Or.inl hown)
    rcases howner : t.permissionsOwner (permissionKey sessionId userId) with _ | i
    · rw [h.permissions.unused (sessionId, userId) howner]
      rcases hlookup : t.manager.permissions.entries.lookup (permissionKey sessionId userId)
        with _ | e
      · rfl
      · obtain ⟨i, hi, -⟩ := h.permissions.found _ e hlookup
        rw [howner] at hi
        cases hi
    · obtain rfl := hown i howner
      exact h.permissions.own (sessionId, userId) howner
  · rw [or_iff_right hown]
    obtain ⟨i, hi⟩ := not_forall.mp hown
    obtain ⟨howner, hne⟩ := Classical.not_imp.mp hi
    have hfree : dueAt ((t.manager.permissions.entries.lookup
          (permissionKey sessionId userId)).map CacheEntry.deposit) now = none ↔
        ∀ entry, t.manager.permissions.entries.lookup (permissionKey sessionId userId) =
          some entry → entry.isExpired now = true := by
      rcases t.manager.permissions.entries.lookup (permissionKey sessionId userId) with _ | e
      · exact iff_of_true rfl fun e he ↦ by cases he
      · rcases hexpired : e.isExpired now with _ | _
        · refine iff_of_false ?_ fun hall ↦ ?_
          · change (if e.isExpired now then none else some e.value) ≠ none
            rw [hexpired]
            exact Option.some_ne_none _
          · exact Bool.false_ne_true (hexpired.symm.trans (hall e rfl))
        · refine iff_of_true (if_pos hexpired) ?_
          rintro _ ⟨⟩
          exact hexpired
    constructor
    · intro hright
      -- An entry of another pair has another user's permissions.
      have hnone : dueAt ((t.manager.permissions.entries.lookup
          (permissionKey sessionId userId)).map CacheEntry.deposit) now = none := by
        rcases hdue : dueAt ((t.manager.permissions.entries.lookup
          (permissionKey sessionId userId)).map CacheEntry.deposit) now with _ | value
        · rfl
        · exfalso
          rw [hdue] at hright
          obtain ⟨d, hd, hvalue⟩ := Option.bind_eq_some_iff.mp hdue
          obtain ⟨e, he, rfl⟩ := Option.map_eq_some_iff.mp hd
          obtain ⟨d', hd', hvalue'⟩ := Option.bind_eq_some_iff.mp hright.symm
          have hsome {d : Deposit V.UserPermissions} {now : ℕ} {value : V.UserPermissions}
              (hd : (if d.isExpired now then none else some d.value) = some value) :
              d.value = value := by
            split at hd
            next => cases hd
            next => exact Option.some_inj.mp hd
          obtain ⟨j, howner', hkey, huser⟩ := h.permissions.found _ e he
          obtain rfl := Option.some_inj.mp (howner.symm.trans howner')
          have huser' : OfUser (sessionId, userId) d'.value := h.permissions.held_fits _ _ hd'
          rw [hsome hvalue', ← hsome hvalue] at huser'
          have hsecond : i.2 = userId := huser.symm.trans huser'
          obtain ⟨session, user⟩ := i
          obtain rfl : user = userId := hsecond
          exact hne (congrArg (·, user) (permissionKey_inj hkey))
      exact ⟨hfree.mp hnone, hright.symm.trans hnone⟩
    · rintro ⟨hexpired, hnone⟩
      rw [hfree.mpr hexpired, hnone]

theorem reachable_consistent (config : CacheConfig)
    (h : (tracking LO LP config).Reachable t) : Consistent t :=
  h.invariant Consistent (Consistent.init config) fun _ request _ hs _ _ ↦ hs.next request

/-- **Every lookup of every run is right just when its pair is apart.** -/
theorem right_iff_apart (config : CacheConfig) (h : (tracking LO LP config).Reachable t)
    (request : Request V) : Right t request ↔ Apart t request := by
  have hconsistent := reachable_consistent config h
  cases request with
  | getObject sessionId objectId now =>
    rw [Right, Apart, hconsistent.getObject_eq_none]
    exact eq_comm
  | getPermissions sessionId userId now =>
    exact hconsistent.right_getPermissions_iff sessionId userId now
  | _ => exact Iff.rfl

def bareValues : CacheValues := ⟨Uuid, String, id, id, fun _ ↦ 1, fun _ ↦ 1⟩

def bare : GuardedSystem (Tracked (listLru String (CacheEntry bareValues.CADObject))
    (listLru String (CacheEntry bareValues.UserPermissions))) (Request bareValues) :=
  tracking _ _ ⟨10, 10, 100, 300, 300⟩

/-- Permissions that were cached for a pair are found for it. -/
theorem right_iff_apart_cached : Right
    (bare.run bare.init [.cachePermissions "a" "b" 0]) (.getPermissions "a" "b" 1) := by
  refine (right_iff_apart ⟨10, 10, 100, 300, 300⟩ (.step .init trivial trivial) _).mpr
    (Or.inl fun i howner ↦ ?_)
  exact (Option.some_inj.mp howner).symm

/-- **Permissions are served for another pair**: a user's id has a colon. -/
theorem not_right_colon : ¬ ∀ (V : CacheValues) (LO : LruCache String (CacheEntry V.CADObject))
    (LP : LruCache String (CacheEntry V.UserPermissions)) (config : CacheConfig)
    (t : Tracked LO LP), (tracking LO LP config).Reachable t → ∀ request, Right t request := by
  intro h
  have hright := h bareValues (listLru String _) (listLru String _) ⟨10, 10, 100, 300, 300⟩
    (bare.run bare.init [.cachePermissions "a" "b:c" 0]) (.step .init trivial trivial)
    (.getPermissions "a:b" "c" 1)
  have hfound : ((bare.run bare.init [.cachePermissions "a" "b:c" 0]).manager.getPermissions
      "a:b" "c" 1).1 = some "b:c" := rfl
  rw [Right, hfound] at hright
  exact Option.some_ne_none _ hright

end Tracked

end Cache

end RosheraCad
