import RosheraCad.Library.Recency
import RosheraCad.Library.Run

/-!
# The cache of a session

A least-recently-used cache whose entries expire, and which counts the bytes they take. The order of
recency is kept by a library, of which its documentation is assumed. Of the six ways to leave the
cache two are not counted.
-/

namespace RosheraCad

namespace Cache

/-- The library: caches of a capacity, and what its operations do to the entries. -/
structure LruCache (K V : Type) [DecidableEq K] where
  Carrier : Type
  new : ℕ → Carrier
  cap : Carrier → ℕ
  iter : Carrier → List (K × V)
  getMut : K → (V → V) → Carrier → Option V × Carrier
  pop : K → Carrier → Option V × Carrier
  popLru : Carrier → Option (K × V) × Carrier
  put : K → V → Carrier → Option V × Carrier
  clear : Carrier → Carrier
  iter_new : ∀ n, iter (new n) = []
  cap_new : ∀ n, cap (new n) = n
  getMut_fst : ∀ k f c, (getMut k f c).1 = (iter c).lookup k
  iter_getMut : ∀ k f c, iter (getMut k f c).2 = Recency.use k f (iter c)
  cap_getMut : ∀ k f c, cap (getMut k f c).2 = cap c
  pop_fst : ∀ k c, (pop k c).1 = (iter c).lookup k
  iter_pop : ∀ k c, iter (pop k c).2 = Recency.remove k (iter c)
  cap_pop : ∀ k c, cap (pop k c).2 = cap c
  popLru_fst : ∀ c, (popLru c).1 = (iter c).getLast?
  iter_popLru : ∀ c, iter (popLru c).2 = (iter c).dropLast
  cap_popLru : ∀ c, cap (popLru c).2 = cap c
  put_fst : ∀ k v c, (put k v c).1 = (Recency.put (cap c) k v (iter c)).1
  iter_put : ∀ k v c, iter (put k v c).2 = (Recency.put (cap c) k v (iter c)).2
  cap_put : ∀ k v c, cap (put k v c).2 = cap c
  iter_clear : ∀ c, iter (clear c) = []
  cap_clear : ∀ c, cap (clear c) = cap c

def LruCache.len {K V : Type} [DecidableEq K] (L : LruCache K V) (c : L.Carrier) : ℕ :=
  (L.iter c).length

def listLru (K V : Type) [DecidableEq K] : LruCache K V where
  Carrier := ℕ × List (K × V)
  new n := (n, [])
  cap := Prod.fst
  iter := Prod.snd
  getMut k f c := (c.2.lookup k, c.1, Recency.use k f c.2)
  pop k c := (c.2.lookup k, c.1, Recency.remove k c.2)
  popLru c := (c.2.getLast?, c.1, c.2.dropLast)
  put k v c := ((Recency.put c.1 k v c.2).1, c.1, (Recency.put c.1 k v c.2).2)
  clear c := (c.1, [])
  iter_new _ := rfl
  cap_new _ := rfl
  getMut_fst _ _ _ := rfl
  iter_getMut _ _ _ := rfl
  cap_getMut _ _ _ := rfl
  pop_fst _ _ := rfl
  iter_pop _ _ := rfl
  cap_pop _ _ := rfl
  popLru_fst _ := rfl
  iter_popLru _ := rfl
  cap_popLru _ := rfl
  put_fst _ _ _ := rfl
  iter_put _ _ _ := rfl
  cap_put _ _ _ := rfl
  iter_clear _ := rfl
  cap_clear _ := rfl

/-! ## The code -/

/-- Cache entry with its time to live. -/
structure CacheEntry (V : Type) where
  value : V
  createdAt : ℕ
  lastAccessed : ℕ
  ttl : Option ℕ
  accessCount : ℕ
  sizeBytes : UInt64
  deriving DecidableEq

namespace CacheEntry

variable {V : Type}

def new (value : V) (ttl : Option ℕ) (sizeBytes : UInt64) (now : ℕ) : CacheEntry V :=
  ⟨value, now, now, ttl, 0, sizeBytes⟩

def isExpired (entry : CacheEntry V) (now : ℕ) : Bool :=
  entry.ttl.any fun ttl ↦ ttl < now - entry.createdAt

def touch (entry : CacheEntry V) (now : ℕ) : CacheEntry V :=
  { entry with lastAccessed := now, accessCount := entry.accessCount + 1 }

end CacheEntry

structure CacheStats where
  hits : ℕ
  misses : ℕ
  evictions : ℕ
  sizeBytes : UInt64
  entryCount : ℕ
  deriving DecidableEq

def saturatingSub (a b : UInt64) : UInt64 := if a < b then 0 else a - b

variable {K V : Type} [DecidableEq K]

/-- A cache with expiring entries. -/
structure TtlLruCache (L : LruCache K (CacheEntry V)) where
  cache : L.Carrier
  stats : CacheStats
  maxSizeBytes : UInt64
  defaultTtl : Option ℕ

/-- The clock's times come with an operation: for a clean-up, one for each entry. -/
inductive CacheOp (K V : Type)
  | get (key : K) (now : ℕ)
  | put (key : K) (value : V) (sizeBytes : UInt64) (now : ℕ)
  | putWithTtl (key : K) (value : V) (sizeBytes : UInt64) (ttl : Option ℕ) (now : ℕ)
  | remove (key : K)
  | clear
  | cleanExpired (clock : K → ℕ)

namespace TtlLruCache

variable {L : LruCache K (CacheEntry V)}

/-- A new cache. A capacity of zero becomes one. -/
def new (L : LruCache K (CacheEntry V)) (capacity : ℕ) (maxSizeBytes : UInt64)
    (defaultTtl : Option ℕ) : TtlLruCache L :=
  ⟨L.new (if capacity = 0 then 1 else capacity), ⟨0, 0, 0, 0, 0⟩, maxSizeBytes, defaultTtl⟩

/-- Get a value. An expired entry is dropped. -/
def get (s : TtlLruCache L) (key : K) (now : ℕ) : Option V × TtlLruCache L :=
  match L.getMut key (fun e ↦ if e.isExpired now then e else e.touch now) s.cache with
  | (some entry, cache) =>
    if entry.isExpired now then
      (none, { s with
        cache := (L.pop key cache).2
        stats := { s.stats with misses := s.stats.misses + 1 } })
    else
      (some entry.value, { s with
        cache
        stats := { s.stats with hits := s.stats.hits + 1 } })
  | (none, cache) => (none, { s with
      cache
      stats := { s.stats with misses := s.stats.misses + 1 } })

/-- Evict entries until there is space; as many rounds as there are entries are enough. -/
def makeRoom (L : LruCache K (CacheEntry V)) (maxSizeBytes sizeBytes : UInt64) :
    ℕ → L.Carrier × CacheStats → L.Carrier × CacheStats
  | 0, s => s
  | n + 1, (cache, stats) =>
    if maxSizeBytes < stats.sizeBytes + sizeBytes ∧ 0 < L.len cache then
      match L.popLru cache with
      | (some (_, evicted), cache) =>
        makeRoom L maxSizeBytes sizeBytes n (cache,
          { stats with
            sizeBytes := saturatingSub stats.sizeBytes evicted.sizeBytes
            evictions := stats.evictions + 1 })
      | (none, cache) => makeRoom L maxSizeBytes sizeBytes n (cache, stats)
    else (cache, stats)

def putWithTtl (s : TtlLruCache L) (key : K) (value : V) (sizeBytes : UInt64) (ttl : Option ℕ)
    (now : ℕ) : TtlLruCache L :=
  let (cache, stats) := makeRoom L s.maxSizeBytes sizeBytes (L.len s.cache) (s.cache, s.stats)
  let entry := CacheEntry.new value ttl sizeBytes now
  let (replaced, cache) := L.put key entry cache
  let stats :=
    match replaced with
    | some old => { stats with sizeBytes := saturatingSub stats.sizeBytes old.sizeBytes }
    | none => stats
  { s with
    cache
    stats := { stats with
      sizeBytes := stats.sizeBytes + sizeBytes
      entryCount := L.len cache } }

def put (s : TtlLruCache L) (key : K) (value : V) (sizeBytes : UInt64) (now : ℕ) : TtlLruCache L :=
  s.putWithTtl key value sizeBytes s.defaultTtl now

def remove (s : TtlLruCache L) (key : K) : Option V × TtlLruCache L :=
  match L.pop key s.cache with
  | (some entry, cache) => (some entry.value, { s with
      cache
      stats := { s.stats with
        sizeBytes := saturatingSub s.stats.sizeBytes entry.sizeBytes
        entryCount := L.len cache } })
  | (none, cache) => (none, { s with cache })

def clear (s : TtlLruCache L) : TtlLruCache L :=
  { s with
    cache := L.clear s.cache
    stats := { s.stats with sizeBytes := 0, entryCount := 0 } }

def popExpired (s : TtlLruCache L) (key : K) : TtlLruCache L :=
  match L.pop key s.cache with
  | (some entry, cache) =>
    { s with
      cache
      stats := { s.stats with
        sizeBytes := saturatingSub s.stats.sizeBytes entry.sizeBytes
        evictions := s.stats.evictions + 1 } }
  | (none, cache) => { s with cache }

def cleanExpired (s : TtlLruCache L) (clock : K → ℕ) : TtlLruCache L :=
  let toRemove := ((L.iter s.cache).filter fun e ↦ e.2.isExpired (clock e.1)).map Prod.fst
  let s := toRemove.foldl popExpired s
  { s with stats := { s.stats with entryCount := L.len s.cache } }

def step (s : TtlLruCache L) : CacheOp K V → TtlLruCache L
  | .get key now => (s.get key now).2
  | .put key value sizeBytes now => s.put key value sizeBytes now
  | .putWithTtl key value sizeBytes ttl now => s.putWithTtl key value sizeBytes ttl now
  | .remove key => (s.remove key).2
  | .clear => s.clear
  | .cleanExpired clock => s.cleanExpired clock

/-! ## The account -/

/-- The entries of a cache, the one used last first. -/
def entries (s : TtlLruCache L) : List (K × CacheEntry V) := L.iter s.cache

def sizeOf (l : List (K × CacheEntry V)) : ℕ := Recency.total (·.sizeBytes.toNat) l

/-- The statistics tell the size and the number of the entries. -/
structure Accounted (s : TtlLruCache L) : Prop where
  size : s.stats.sizeBytes.toNat = sizeOf s.entries
  count : s.stats.entryCount = s.entries.length

/-- A lookup finds no expired entry, and a put drops nothing of a size for the capacity alone. -/
def Accounts (s : TtlLruCache L) : CacheOp K V → Prop
  | .get key now => ∀ entry, s.entries.lookup key = some entry → entry.isExpired now = false
  | .put key _ sizeBytes _ | .putWithTtl key _ sizeBytes _ _ =>
    s.stats.sizeBytes.toNat + sizeBytes.toNat < 2 ^ 64 ∧
      (s.stats.sizeBytes.toNat + sizeBytes.toNat ≤ s.maxSizeBytes.toNat →
        key ∈ s.entries.map Prod.fst ∨ s.entries.length < L.cap s.cache ∨
          ∀ e, s.entries.getLast? = some e → e.2.sizeBytes = 0)
  | .remove _ | .clear | .cleanExpired _ => True

def Fits (s : TtlLruCache L) : CacheOp K V → Prop
  | .put key value sizeBytes now =>
    sizeBytes ≤ s.maxSizeBytes →
      sizeOf (s.put key value sizeBytes now).entries ≤ s.maxSizeBytes.toNat
  | .putWithTtl key value sizeBytes ttl now =>
    sizeBytes ≤ s.maxSizeBytes →
      sizeOf (s.putWithTtl key value sizeBytes ttl now).entries ≤ s.maxSizeBytes.toNat
  | .get .. | .remove _ | .clear | .cleanExpired _ => True

def caching (L : LruCache K (CacheEntry V)) (capacity : ℕ) (maxSizeBytes : UInt64)
    (defaultTtl : Option ℕ) : GuardedSystem (TtlLruCache L) (CacheOp K V) where
  init := new L capacity maxSizeBytes defaultTtl
  enabled _ _ := True
  step := step

/-- What holds of a cache whose operations were accounted for, even while a clean-up goes on. -/
structure Sized (s : TtlLruCache L) : Prop where
  size : s.stats.sizeBytes.toNat = sizeOf s.entries
  nodup : (s.entries.map Prod.fst).Nodup
  length_le : s.entries.length ≤ L.cap s.cache
  cap_pos : 0 < L.cap s.cache

/-- What holds of a cache whose operations were accounted for. -/
structure Sound (s : TtlLruCache L) : Prop extends Sized s where
  count : s.stats.entryCount = s.entries.length

theorem toNat_saturatingSub (a b : UInt64) : (saturatingSub a b).toNat = a.toNat - b.toNat := by
  rw [saturatingSub]
  split
  next h =>
    rw [Nat.sub_eq_zero_of_le (Nat.le_of_lt (UInt64.lt_iff_toNat_lt.mp h))]
    rfl
  next h => rw [UInt64.toNat_sub_of_le _ _ (UInt64.not_lt.mp h)]

theorem toNat_add_of_lt {a b : UInt64} (h : a.toNat + b.toNat < 2 ^ 64) :
    (a + b).toNat = a.toNat + b.toNat := by
  rw [UInt64.toNat_add, Nat.mod_eq_of_lt h]

section MakeRoom

variable {maxSizeBytes sizeBytes : UInt64} {cache : L.Carrier} {stats : CacheStats}

theorem makeRoom_frame (n : ℕ) (s : L.Carrier × CacheStats) :
    L.iter (makeRoom L maxSizeBytes sizeBytes n s).1 <+: L.iter s.1 ∧
      L.cap (makeRoom L maxSizeBytes sizeBytes n s).1 = L.cap s.1 := by
  induction n generalizing s with
  | zero => exact ⟨List.prefix_rfl, rfl⟩
  | succ n ih =>
    obtain ⟨cache, stats⟩ := s
    have hiter := L.iter_popLru cache
    have hcap := L.cap_popLru cache
    have hsub (cache' : L.Carrier) (h : L.iter cache' = (L.iter cache).dropLast) :
        L.iter cache' <+: L.iter cache := h ▸ List.dropLast_prefix _
    rw [makeRoom]
    split
    · split
      next hpop =>
        rw [hpop] at hiter hcap
        exact ⟨(ih _).1.trans (hsub _ hiter), (ih _).2.trans hcap⟩
      next hpop =>
        rw [hpop] at hiter hcap
        exact ⟨(ih _).1.trans (hsub _ hiter), (ih _).2.trans hcap⟩
    · exact ⟨List.prefix_rfl, rfl⟩

/-- Making room keeps the account, and stops when there is room or nothing is left. -/
structure MadeRoom (L : LruCache K (CacheEntry V)) (maxSizeBytes sizeBytes : UInt64)
    (s s' : L.Carrier × CacheStats) : Prop where
  size : s'.2.sizeBytes.toNat = sizeOf (L.iter s'.1)
  less : s'.2.sizeBytes.toNat ≤ s.2.sizeBytes.toNat
  room : s'.2.sizeBytes.toNat + sizeBytes.toNat ≤ maxSizeBytes.toNat ∨ L.iter s'.1 = []
  gone : maxSizeBytes.toNat < s.2.sizeBytes.toNat + sizeBytes.toNat → L.iter s.1 ≠ [] →
    (L.iter s'.1).length < (L.iter s.1).length
  kept : s.2.sizeBytes.toNat + sizeBytes.toNat ≤ maxSizeBytes.toNat → L.iter s'.1 = L.iter s.1

theorem madeRoom (n : ℕ) (hn : (L.iter cache).length ≤ n)
    (hsize : stats.sizeBytes.toNat = sizeOf (L.iter cache))
    (hfits : stats.sizeBytes.toNat + sizeBytes.toNat < 2 ^ 64) :
    MadeRoom L maxSizeBytes sizeBytes (cache, stats)
      (makeRoom L maxSizeBytes sizeBytes n (cache, stats)) := by
  induction n generalizing cache stats with
  | zero =>
    have hnil : L.iter cache = [] := List.eq_nil_of_length_eq_zero (Nat.le_zero.mp hn)
    exact ⟨hsize, Nat.le_refl _, Or.inr hnil, fun _ hne ↦ absurd hnil hne, fun _ ↦ rfl⟩
  | succ n ih =>
    have hover : maxSizeBytes < stats.sizeBytes + sizeBytes ↔
        maxSizeBytes.toNat < stats.sizeBytes.toNat + sizeBytes.toNat := by
      rw [UInt64.lt_iff_toNat_lt, toNat_add_of_lt hfits]
    rw [makeRoom]
    split
    next h =>
      obtain ⟨hlt, hlen⟩ := h
      have hne : L.iter cache ≠ [] := List.ne_nil_of_length_pos hlen
      have hlast := (L.popLru_fst cache).trans (List.getLast?_eq_some_getLast hne)
      have htotal := Recency.total_dropLast
        (fun entry : CacheEntry V ↦ entry.sizeBytes.toNat) hne
      split
      next evicted cache' hpop =>
        rw [hpop] at hlast
        have hiter : L.iter cache' = (L.iter cache).dropLast := by
          rw [← L.iter_popLru, hpop]
        rw [← Option.some_inj.mp hlast] at htotal
        have hsize' : (saturatingSub stats.sizeBytes evicted.sizeBytes).toNat =
            sizeOf (L.iter cache') := by
          rw [toNat_saturatingSub, hsize, hiter, sizeOf, sizeOf, ← htotal]
          exact Nat.add_sub_cancel ..
        have hless : (saturatingSub stats.sizeBytes evicted.sizeBytes).toNat ≤
            stats.sizeBytes.toNat := by
          rw [toNat_saturatingSub]
          exact Nat.sub_le ..
        have hshort : (L.iter cache').length < (L.iter cache).length := by
          rw [hiter, List.length_dropLast]
          exact Nat.sub_one_lt_of_lt hlen
        have hrest := @ih cache' { stats with
          sizeBytes := saturatingSub stats.sizeBytes evicted.sizeBytes
          evictions := stats.evictions + 1 } (by omega) hsize'
            (Nat.lt_of_le_of_lt (Nat.add_le_add_right hless _) hfits)
        refine ⟨hrest.size, Nat.le_trans hrest.less hless, hrest.room, fun _ _ ↦ ?_,
          fun hfit ↦ ?_⟩
        · exact Nat.lt_of_le_of_lt (makeRoom_frame n _).1.length_le hshort
        · exact absurd (hover.mp hlt) (Nat.not_lt.mpr hfit)
      next hpop =>
        rw [hpop] at hlast
        cases hlast
    next h =>
      have hroom : stats.sizeBytes.toNat + sizeBytes.toNat ≤ maxSizeBytes.toNat ∨
          L.iter cache = [] := by
        rcases Nat.eq_zero_or_pos (L.len cache) with hzero | hlen
        · exact Or.inr (List.eq_nil_of_length_eq_zero hzero)
        · exact Or.inl (Nat.not_lt.mp fun hlt ↦ h ⟨hover.mpr hlt, hlen⟩)
      refine ⟨hsize, Nat.le_refl _, hroom, fun hlt hne ↦ ?_, fun _ ↦ rfl⟩
      exact absurd (hroom.resolve_right hne) (Nat.not_le.mpr hlt)

end MakeRoom

/-! ## What an operation does to the entries -/

section Entries

variable {s : TtlLruCache L} {key : K} {value : V} {sizeBytes : UInt64} {ttl : Option ℕ} {now : ℕ}

theorem get_frame (s : TtlLruCache L) (key : K) (now : ℕ) :
    (s.get key now).2.stats.sizeBytes = s.stats.sizeBytes ∧
      (s.get key now).2.stats.entryCount = s.stats.entryCount ∧
      L.cap (s.get key now).2.cache = L.cap s.cache ∧
      (s.get key now).2.maxSizeBytes = s.maxSizeBytes ∧
      (s.get key now).2.defaultTtl = s.defaultTtl := by
  have hcap := L.cap_getMut key (fun e ↦ if e.isExpired now then e else e.touch now) s.cache
  rw [get]
  split
  next hget =>
    rw [hget] at hcap
    split
    · exact ⟨rfl, rfl, (L.cap_pop ..).trans hcap, rfl, rfl⟩
    · exact ⟨rfl, rfl, hcap, rfl, rfl⟩
  next hget =>
    rw [hget] at hcap
    exact ⟨rfl, rfl, hcap, rfl, rfl⟩

theorem get_of_none (h : s.entries.lookup key = none) (now : ℕ) :
    (s.get key now).1 = none ∧ (s.get key now).2.entries = s.entries := by
  have hfst := L.getMut_fst key (fun e ↦ if e.isExpired now then e else e.touch now) s.cache
  have hiter := L.iter_getMut key (fun e ↦ if e.isExpired now then e else e.touch now) s.cache
  rw [← entries, h] at hfst
  rw [← entries, Recency.use, h] at hiter
  rw [get]
  split
  next hget =>
    rw [hget] at hfst
    cases hfst
  next hget =>
    rw [hget] at hiter
    exact ⟨rfl, hiter⟩

theorem get_of_expired {entry : CacheEntry V} (h : s.entries.lookup key = some entry)
    (hexpired : entry.isExpired now = true) :
    (s.get key now).1 = none ∧ (s.get key now).2.entries = Recency.remove key s.entries := by
  have hfst := L.getMut_fst key (fun e ↦ if e.isExpired now then e else e.touch now) s.cache
  have hiter := L.iter_getMut key (fun e ↦ if e.isExpired now then e else e.touch now) s.cache
  rw [← entries, h] at hfst
  rw [← entries, Recency.use, h] at hiter
  rw [get]
  split
  next hget =>
    rw [hget] at hfst hiter
    obtain rfl := Option.some_inj.mp hfst
    rw [if_pos hexpired]
    refine ⟨rfl, (L.iter_pop ..).trans ?_⟩
    rw [hiter, Recency.remove, List.filter_cons, if_neg (by simp), ← Recency.remove,
      Recency.remove_eq_self Recency.not_mem_remove]
  next hget =>
    rw [hget] at hfst
    cases hfst

theorem get_of_live {entry : CacheEntry V} (h : s.entries.lookup key = some entry)
    (hlive : entry.isExpired now = false) :
    (s.get key now).1 = some entry.value ∧
      (s.get key now).2.entries = (key, entry.touch now) :: Recency.remove key s.entries := by
  have hfst := L.getMut_fst key (fun e ↦ if e.isExpired now then e else e.touch now) s.cache
  have hiter := L.iter_getMut key (fun e ↦ if e.isExpired now then e else e.touch now) s.cache
  rw [← entries, h] at hfst
  rw [← entries, Recency.use, h] at hiter
  rw [get]
  split
  next hget =>
    rw [hget] at hfst hiter
    obtain rfl := Option.some_inj.mp hfst
    rw [if_neg (ne_true_of_eq_false hlive)]
    refine ⟨rfl, hiter.trans ?_⟩
    exact congrArg (fun v ↦ (key, v) :: _) (if_neg (ne_true_of_eq_false hlive))
  next hget =>
    rw [hget] at hfst
    cases hfst

theorem remove_frame (s : TtlLruCache L) (key : K) :
    (s.remove key).2.entries = Recency.remove key s.entries ∧
      L.cap (s.remove key).2.cache = L.cap s.cache ∧
      (s.remove key).2.maxSizeBytes = s.maxSizeBytes ∧
      (s.remove key).2.defaultTtl = s.defaultTtl := by
  have hiter := L.iter_pop key s.cache
  have hcap := L.cap_pop key s.cache
  rw [remove]
  split
  next hpop =>
    rw [hpop] at hiter hcap
    exact ⟨hiter, hcap, rfl, rfl⟩
  next hpop =>
    rw [hpop] at hiter hcap
    exact ⟨hiter, hcap, rfl, rfl⟩

theorem popExpired_frame (s : TtlLruCache L) (key : K) :
    (s.popExpired key).entries = Recency.remove key s.entries ∧
      L.cap (s.popExpired key).cache = L.cap s.cache ∧
      (s.popExpired key).maxSizeBytes = s.maxSizeBytes ∧
      (s.popExpired key).defaultTtl = s.defaultTtl := by
  have hiter := L.iter_pop key s.cache
  have hcap := L.cap_pop key s.cache
  rw [popExpired]
  split
  next hpop =>
    rw [hpop] at hiter hcap
    exact ⟨hiter, hcap, rfl, rfl⟩
  next hpop =>
    rw [hpop] at hiter hcap
    exact ⟨hiter, hcap, rfl, rfl⟩

theorem foldl_popExpired_frame (s : TtlLruCache L) (keys : List K) :
    (keys.foldl popExpired s).entries = s.entries.filter (·.1 ∉ keys) ∧
      L.cap (keys.foldl popExpired s).cache = L.cap s.cache ∧
      (keys.foldl popExpired s).maxSizeBytes = s.maxSizeBytes ∧
      (keys.foldl popExpired s).defaultTtl = s.defaultTtl := by
  induction keys generalizing s with
  | nil => exact ⟨(List.filter_eq_self.mpr fun _ _ ↦ rfl).symm, rfl, rfl, rfl⟩
  | cons key keys ih =>
    obtain ⟨hentries, hcap, hmax, httl⟩ := popExpired_frame s key
    obtain ⟨hentries', hcap', hmax', httl'⟩ := ih (s.popExpired key)
    refine ⟨?_, hcap'.trans hcap, hmax'.trans hmax, httl'.trans httl⟩
    rw [List.foldl_cons, hentries', hentries, Recency.remove, List.filter_filter]
    refine List.filter_congr fun e _ ↦ ?_
    rw [Bool.eq_iff_iff]
    simp [and_comm]

theorem cleanExpired_frame (s : TtlLruCache L) (clock : K → ℕ)
    (hnodup : (s.entries.map Prod.fst).Nodup) :
    (s.cleanExpired clock).entries = s.entries.filter (fun e ↦ !e.2.isExpired (clock e.1)) ∧
      L.cap (s.cleanExpired clock).cache = L.cap s.cache ∧
      (s.cleanExpired clock).maxSizeBytes = s.maxSizeBytes ∧
      (s.cleanExpired clock).defaultTtl = s.defaultTtl := by
  obtain ⟨hentries, hcap, hmax, httl⟩ := foldl_popExpired_frame s
    ((s.entries.filter fun e ↦ e.2.isExpired (clock e.1)).map Prod.fst)
  refine ⟨?_, hcap, hmax, httl⟩
  refine hentries.trans (List.filter_congr fun e he ↦ ?_)
  have hmem : e.1 ∈ (s.entries.filter fun e ↦ e.2.isExpired (clock e.1)).map Prod.fst ↔
      e.2.isExpired (clock e.1) = true := by
    constructor
    · intro h
      obtain ⟨e', he', hkey⟩ := List.mem_map.mp h
      obtain ⟨hmem, hexpired⟩ := List.mem_filter.mp he'
      have hlookup := Recency.lookup_of_mem hnodup hmem
      rw [hkey, Recency.lookup_of_mem hnodup he, Option.some_inj] at hlookup
      rwa [hlookup, ← hkey]
    · intro h
      exact List.mem_map_of_mem (List.mem_filter.mpr ⟨he, h⟩)
  rw [Bool.eq_iff_iff, decide_eq_true_iff, hmem, Bool.not_eq_true', Bool.not_eq_true]

def roomFor (s : TtlLruCache L) (sizeBytes : UInt64) : L.Carrier × CacheStats :=
  makeRoom L s.maxSizeBytes sizeBytes (L.len s.cache) (s.cache, s.stats)

theorem putWithTtl_frame (s : TtlLruCache L) (key : K) (value : V) (sizeBytes : UInt64)
    (ttl : Option ℕ) (now : ℕ) :
    (s.putWithTtl key value sizeBytes ttl now).entries =
        (Recency.put (L.cap s.cache) key (.new value ttl sizeBytes now)
          (L.iter (s.roomFor sizeBytes).1)).2 ∧
      L.cap (s.putWithTtl key value sizeBytes ttl now).cache = L.cap s.cache ∧
      (s.putWithTtl key value sizeBytes ttl now).maxSizeBytes = s.maxSizeBytes ∧
      (s.putWithTtl key value sizeBytes ttl now).defaultTtl = s.defaultTtl := by
  have hcap : L.cap (s.roomFor sizeBytes).1 = L.cap s.cache := (makeRoom_frame _ _).2
  refine ⟨?_, ?_, rfl, rfl⟩
  · rw [← hcap]
    exact L.iter_put ..
  · rw [← hcap]
    exact L.cap_put ..

theorem putWithTtl_stats (s : TtlLruCache L) (key : K) (value : V) (sizeBytes : UInt64)
    (ttl : Option ℕ) (now : ℕ) :
    (s.putWithTtl key value sizeBytes ttl now).stats.sizeBytes =
        ((L.iter (s.roomFor sizeBytes).1).lookup key).elim (s.roomFor sizeBytes).2.sizeBytes
          (fun old ↦ saturatingSub (s.roomFor sizeBytes).2.sizeBytes old.sizeBytes) + sizeBytes ∧
      (s.putWithTtl key value sizeBytes ttl now).stats.entryCount =
        (s.putWithTtl key value sizeBytes ttl now).entries.length := by
  refine ⟨?_, rfl⟩
  have hput := L.put_fst key (.new value ttl sizeBytes now) (s.roomFor sizeBytes).1
  have hreplaced (c : ℕ) (v : CacheEntry V) (l : List (K × CacheEntry V)) :
      (Recency.put c key v l).1 = l.lookup key := by
    rw [Recency.put]
    split
    next h => exact h.symm
    next h => exact h.symm
  rw [hreplaced] at hput
  rw [← hput]
  simp only [putWithTtl, roomFor]
  cases (L.put key (.new value ttl sizeBytes now)
    (makeRoom L s.maxSizeBytes sizeBytes (L.len s.cache) (s.cache, s.stats)).1).1 <;> rfl

end Entries

/-! ## The account is kept -/

section Steps

variable {s : TtlLruCache L} {key : K} {value : V} {sizeBytes : UInt64} {ttl : Option ℕ} {now : ℕ}

theorem Sound.new (L : LruCache K (CacheEntry V)) (capacity : ℕ) (maxSizeBytes : UInt64)
    (defaultTtl : Option ℕ) : Sound (new L capacity maxSizeBytes defaultTtl) := by
  have hentries : (TtlLruCache.new L capacity maxSizeBytes defaultTtl).entries = [] := L.iter_new _
  refine ⟨⟨?_, ?_, ?_, ?_⟩, ?_⟩
  · rw [hentries]
    rfl
  · rw [hentries]
    exact List.nodup_nil
  · rw [hentries]
    exact Nat.zero_le _
  · refine Nat.lt_of_lt_of_eq ?_ (L.cap_new _).symm
    split
    next => exact Nat.one_pos
    next h => exact Nat.pos_of_ne_zero h
  · rw [hentries]
    rfl

theorem Sized.of_remove {s' : TtlLruCache L} (h : Sized s)
    (hentries : s'.entries = Recency.remove key s.entries) (hcap : L.cap s'.cache = L.cap s.cache)
    (hsize : s'.stats.sizeBytes.toNat = s.stats.sizeBytes.toNat -
      (s.entries.lookup key).elim 0 (·.sizeBytes.toNat)) : Sized s' := by
  refine ⟨?_, ?_, ?_, ?_⟩
  · rw [hsize, hentries, h.size]
    rcases hlookup : s.entries.lookup key with _ | entry
    · rw [Recency.remove_eq_self (Recency.lookup_eq_none_iff.mp hlookup)]
      rfl
    · rw [sizeOf, ← Recency.total_remove _ h.nodup hlookup]
      exact Nat.add_sub_cancel_left ..
  · rw [hentries]
    exact Recency.nodup_remove h.nodup
  · rw [hentries, hcap]
    exact Nat.le_trans Recency.remove_sublist.length_le h.length_le
  · rw [hcap]
    exact h.cap_pos

theorem Sound.remove (h : Sound s) (key : K) : Sound (s.remove key).2 := by
  obtain ⟨hentries, hcap, -, -⟩ := remove_frame s key
  have hpop : (L.pop key s.cache).1 = s.entries.lookup key := L.pop_fst key s.cache
  refine ⟨h.toSized.of_remove hentries hcap ?_, ?_⟩
  · rw [← hpop, TtlLruCache.remove]
    split
    next hsome =>
      rw [hsome]
      exact toNat_saturatingSub ..
    next hnone =>
      rw [hnone]
      rfl
  · rcases hlookup : s.entries.lookup key with _ | entry
    · rw [hentries, Recency.remove_eq_self (Recency.lookup_eq_none_iff.mp hlookup),
        TtlLruCache.remove]
      split
      next hsome =>
        rw [hsome, hlookup] at hpop
        cases hpop
      next => exact h.count
    · rw [TtlLruCache.remove]
      split
      next => rfl
      next hnone =>
        rw [hnone, hlookup] at hpop
        cases hpop

theorem Sized.popExpired (h : Sized s) (key : K) : Sized (s.popExpired key) := by
  obtain ⟨hentries, hcap, -, -⟩ := popExpired_frame s key
  have hpop : (L.pop key s.cache).1 = s.entries.lookup key := L.pop_fst key s.cache
  refine h.of_remove hentries hcap ?_
  rw [← hpop, TtlLruCache.popExpired]
  split
  next hsome =>
    rw [hsome]
    exact toNat_saturatingSub ..
  next hnone =>
    rw [hnone]
    rfl

theorem Sized.foldl_popExpired (h : Sized s) (keys : List K) :
    Sized (keys.foldl TtlLruCache.popExpired s) := by
  induction keys generalizing s with
  | nil => exact h
  | cons key keys ih => exact ih (h.popExpired key)

theorem Sound.cleanExpired (h : Sound s) (clock : K → ℕ) : Sound (s.cleanExpired clock) := by
  obtain ⟨hsize, hnodup, hlength, hcap⟩ := h.toSized.foldl_popExpired
    ((s.entries.filter fun e ↦ e.2.isExpired (clock e.1)).map Prod.fst)
  exact ⟨⟨hsize, hnodup, hlength, hcap⟩, rfl⟩

theorem Sound.clear (h : Sound s) : Sound s.clear := by
  have hentries : s.clear.entries = [] := L.iter_clear _
  refine ⟨⟨?_, ?_, ?_, ?_⟩, ?_⟩
  · rw [hentries]
    rfl
  · rw [hentries]
    exact List.nodup_nil
  · rw [hentries]
    exact Nat.zero_le _
  · exact Nat.lt_of_lt_of_eq h.cap_pos (L.cap_clear _).symm
  · rw [hentries]
    rfl

/-- **A lookup that finds no expired entry** keeps the account. -/
theorem Sound.get (h : Sound s)
    (hlive : ∀ entry, s.entries.lookup key = some entry → entry.isExpired now = false) :
    Sound (s.get key now).2 := by
  obtain ⟨hsize, hcount, hcap, -, -⟩ := get_frame s key now
  rcases hlookup : s.entries.lookup key with _ | entry
  · have hentries := (get_of_none hlookup now).2
    refine ⟨⟨?_, ?_, ?_, ?_⟩, ?_⟩
    · rw [hsize, hentries, h.size]
    · rw [hentries]
      exact h.nodup
    · rw [hentries, hcap]
      exact h.length_le
    · rw [hcap]
      exact h.cap_pos
    · rw [hcount, hentries, h.count]
  · have hentries := (get_of_live hlookup (hlive entry hlookup)).2
    have hlength := Recency.length_remove h.nodup hlookup
    refine ⟨⟨?_, ?_, ?_, ?_⟩, ?_⟩
    · rw [hsize, hentries, sizeOf, Recency.total_cons, h.size]
      exact (Recency.total_remove _ h.nodup hlookup).symm
    · rw [hentries]
      exact List.nodup_cons.mpr ⟨Recency.not_mem_remove, Recency.nodup_remove h.nodup⟩
    · rw [hentries, List.length_cons, hlength, hcap]
      exact h.length_le
    · rw [hcap]
      exact h.cap_pos
    · rw [hcount, hentries, List.length_cons, hlength, h.count]

theorem sizeOf_rest (h : Sized s) (hfits : s.stats.sizeBytes.toNat + sizeBytes.toNat < 2 ^ 64)
    (hdrops : s.stats.sizeBytes.toNat + sizeBytes.toNat ≤ s.maxSizeBytes.toNat →
      key ∈ s.entries.map Prod.fst ∨ s.entries.length < L.cap s.cache ∨
        ∀ e, s.entries.getLast? = some e → e.2.sizeBytes = 0)
    (hnone : (L.iter (s.roomFor sizeBytes).1).lookup key = none) :
    sizeOf (if (L.iter (s.roomFor sizeBytes).1).length < L.cap s.cache then
        L.iter (s.roomFor sizeBytes).1 else (L.iter (s.roomFor sizeBytes).1).dropLast) =
      sizeOf (L.iter (s.roomFor sizeBytes).1) := by
  split
  next => rfl
  next hfull =>
    have hroom : MadeRoom L s.maxSizeBytes sizeBytes (s.cache, s.stats) (s.roomFor sizeBytes) :=
      madeRoom _ (Nat.le_refl _) h.size hfits
    have hle : (L.iter (s.roomFor sizeBytes).1).length ≤ s.entries.length :=
      (makeRoom_frame _ _).1.length_le
    have hcap := h.cap_pos
    have hlength := h.length_le
    have hne : s.entries ≠ [] := List.ne_nil_of_length_pos (by omega)
    -- The cache was full, so there was room already and all entries are there.
    have hfit : s.stats.sizeBytes.toNat + sizeBytes.toNat ≤ s.maxSizeBytes.toNat := by
      refine Nat.not_lt.mp fun hlt ↦ ?_
      have hgone : (L.iter (s.roomFor sizeBytes).1).length < s.entries.length := hroom.gone hlt hne
      omega
    have hkept : L.iter (s.roomFor sizeBytes).1 = s.entries := hroom.kept hfit
    rw [hkept] at hnone hfull ⊢
    rcases hdrops hfit with hmem | hlt | hzero
    · exact absurd hmem (Recency.lookup_eq_none_iff.mp hnone)
    · exact absurd hlt hfull
    · have htotal := Recency.total_dropLast
        (fun entry : CacheEntry V ↦ entry.sizeBytes.toNat) hne
      rw [hzero _ (List.getLast?_eq_some_getLast hne)] at htotal
      exact htotal

/-- **A put that is accounted for** keeps the account, and if its entry fits, all entries fit. -/
theorem Sound.putWithTtl (h : Sound s) (hfits : s.stats.sizeBytes.toNat + sizeBytes.toNat < 2 ^ 64)
    (hdrops : s.stats.sizeBytes.toNat + sizeBytes.toNat ≤ s.maxSizeBytes.toNat →
      key ∈ s.entries.map Prod.fst ∨ s.entries.length < L.cap s.cache ∨
        ∀ e, s.entries.getLast? = some e → e.2.sizeBytes = 0) :
    Sound (s.putWithTtl key value sizeBytes ttl now) ∧ (sizeBytes ≤ s.maxSizeBytes →
      sizeOf (s.putWithTtl key value sizeBytes ttl now).entries ≤ s.maxSizeBytes.toNat) := by
  obtain ⟨hentries, hcap, -, -⟩ := putWithTtl_frame s key value sizeBytes ttl now
  obtain ⟨hsize, hcount⟩ := putWithTtl_stats s key value sizeBytes ttl now
  have hroom : MadeRoom L s.maxSizeBytes sizeBytes (s.cache, s.stats) (s.roomFor sizeBytes) :=
    madeRoom _ (Nat.le_refl _) h.size hfits
  have hbegins : L.iter (s.roomFor sizeBytes).1 <+: s.entries := (makeRoom_frame _ _).1
  have hnodup := (hbegins.sublist.map Prod.fst).nodup h.nodup
  have hless : (s.roomFor sizeBytes).2.sizeBytes.toNat ≤ s.stats.sizeBytes.toNat := hroom.less
  have hlength := Nat.le_trans hbegins.length_le h.length_le
  -- The new size and the new entries, by whether the key was there.
  have hnew : (s.putWithTtl key value sizeBytes ttl now).stats.sizeBytes.toNat =
        sizeOf (s.putWithTtl key value sizeBytes ttl now).entries ∧
      (s.putWithTtl key value sizeBytes ttl now).entries.length ≤ L.cap s.cache ∧
      (s.putWithTtl key value sizeBytes ttl now).stats.sizeBytes.toNat ≤
        (s.roomFor sizeBytes).2.sizeBytes.toNat + sizeBytes.toNat := by
    rw [hentries, Recency.put, hsize]
    rcases hlookup : (L.iter (s.roomFor sizeBytes).1).lookup key with _ | old
    · have hadd : ((s.roomFor sizeBytes).2.sizeBytes + sizeBytes).toNat =
          (s.roomFor sizeBytes).2.sizeBytes.toNat + sizeBytes.toNat :=
        toNat_add_of_lt (by omega)
      refine ⟨?_, ?_, Nat.le_of_eq hadd⟩
      · rw [Option.elim_none, hadd, sizeOf, Recency.total_cons, ← sizeOf,
          sizeOf_rest h.toSized hfits hdrops hlookup, hroom.size]
        exact Nat.add_comm ..
      · have hcap := h.cap_pos
        rw [List.length_cons]
        split
        next hlt => exact hlt
        next =>
          rw [List.length_dropLast]
          omega
    · have htotal := Recency.total_remove
        (fun entry : CacheEntry V ↦ entry.sizeBytes.toNat) hnodup hlookup
      have hremoved := Recency.length_remove hnodup hlookup
      have hsub := toNat_saturatingSub (s.roomFor sizeBytes).2.sizeBytes old.sizeBytes
      have hadd : (saturatingSub (s.roomFor sizeBytes).2.sizeBytes old.sizeBytes +
          sizeBytes).toNat =
            (saturatingSub (s.roomFor sizeBytes).2.sizeBytes old.sizeBytes).toNat +
              sizeBytes.toNat :=
        toNat_add_of_lt (by omega)
      refine ⟨?_, ?_, ?_⟩
      · rw [Option.elim_some, hadd, hsub, hroom.size, sizeOf, ← htotal, Nat.add_sub_cancel_left,
          sizeOf, Recency.total_cons]
        exact Nat.add_comm ..
      · rw [List.length_cons, hremoved]
        exact hlength
      · rw [Option.elim_some, hadd, hsub]
        exact Nat.add_le_add_right (Nat.sub_le ..) _
  refine ⟨⟨⟨hnew.1, ?_, ?_, ?_⟩, hcount⟩, fun hle ↦ ?_⟩
  · rw [hentries]
    exact Recency.nodup_put _ _ hnodup
  · rw [hcap]
    exact hnew.2.1
  · rw [hcap]
    exact h.cap_pos
  · rw [← hnew.1]
    rcases hroom.room with hroom' | hnil
    · exact Nat.le_trans hnew.2.2 hroom'
    · have hzero : (s.roomFor sizeBytes).2.sizeBytes.toNat = 0 := by
        rw [hroom.size, hnil]
        rfl
      rw [hzero, Nat.zero_add] at hnew
      exact Nat.le_trans hnew.2.2 (UInt64.le_iff_toNat_le.mp hle)

/-- **An operation that is accounted for keeps the account.** -/
theorem Sound.step (h : Sound s) {op : CacheOp K V} (hop : Accounts s op) :
    Sound (s.step op) ∧ Fits s op := by
  cases op with
  | get key now => exact ⟨h.get hop, trivial⟩
  | put key value sizeBytes now => exact h.putWithTtl hop.1 hop.2
  | putWithTtl key value sizeBytes ttl now => exact h.putWithTtl hop.1 hop.2
  | remove key => exact ⟨h.remove key, trivial⟩
  | clear => exact ⟨h.clear, trivial⟩
  | cleanExpired clock => exact ⟨h.cleanExpired clock, trivial⟩

/-- **The statistics tell the size and the number of the entries** in every run whose operations are
accounted for; a put of an entry that fits leaves entries that fit. -/
theorem accounted_of_accounts (L : LruCache K (CacheEntry V)) (capacity : ℕ)
    (maxSizeBytes : UInt64) (defaultTtl : Option ℕ) {s : TtlLruCache L}
    (h : (caching L capacity maxSizeBytes defaultTtl).ReachableUnder Accounts s) :
    Accounted s ∧ ∀ op, Accounts s op → Fits s op := by
  have hsound : Sound s := h.invariant Sound (Sound.new L capacity maxSizeBytes defaultTtl)
    fun _ _ _ hinv _ hop ↦ (hinv.step hop).1
  exact ⟨⟨hsound.size, hsound.count⟩, fun _ hop ↦ (hsound.step hop).2⟩

end Steps

/-- Numbers in a cache of one entry and a hundred bytes. -/
abbrev single : GuardedSystem (TtlLruCache (listLru ℕ (CacheEntry ℕ))) (CacheOp ℕ ℕ) :=
  caching (listLru ℕ (CacheEntry ℕ)) 1 100 none

/-- A put into the empty cache, replaced by another one. -/
theorem accounted_of_accounts_single :
    Accounted (single.run single.init [.put 0 7 10 0, .put 0 8 20 1]) := by
  refine (accounted_of_accounts _ 1 100 none (.step (.step .init trivial ?_) trivial ?_)).1
  · exact ⟨by decide, fun _ ↦ Or.inr (Or.inl (by decide))⟩
  · exact ⟨by decide, fun _ ↦ Or.inl (by decide)⟩

/-- **An entry the library drops is still counted.** -/
theorem not_accounted_dropped : ¬ ∀ (K V : Type) (_ : DecidableEq K) (L : LruCache K (CacheEntry V))
    (capacity : ℕ) (maxSizeBytes : UInt64) (defaultTtl : Option ℕ) (s : TtlLruCache L),
    (caching L capacity maxSizeBytes defaultTtl).Reachable s → Accounted s := by
  intro h
  have hsize := (h ℕ ℕ _ (listLru ℕ (CacheEntry ℕ)) 1 100 none
    (single.run single.init [.put 0 7 10 0, .put 1 8 20 1])
    (.step (.step .init trivial trivial) trivial trivial)).size
  exact absurd hsize (by decide)

end TtlLruCache

end Cache

end RosheraCad
