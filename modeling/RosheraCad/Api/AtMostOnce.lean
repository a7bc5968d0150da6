import RosheraCad.Api.Idempotency

/-!
# At most one execution for each key

A request looked up while another with its key is running, or while that one's answer is being
buffered, runs its handler too; and an answer too large to buffer is never stored. Runs in which
neither happens, and in which the entry is kept, execute each key at most once.
-/

namespace RosheraCad

namespace Idempotency

def Request.cacheKey (request : Request) : Option CacheKey :=
  match clientKey request with
  | .ok (some s) => some (scopedKey request s)
  | _ => none

def Request.buffered (request : Request) : Option Bytes := toBytes request.body maxBufferedBody

def LayerState.Completed (s : LayerState) (i : ℕ) (response : Response) : Prop :=
  response.isServerError = false ∧
    (s.phase i = .completed response ∨ ∃ answer, s.phase i = .answered (some response) answer)

def Answer.IsReplayOf (answer : Answer) (response : Response) : Prop :=
  ∃ replayed : Response, answer = .response replayed ∧ replayed.status = response.status ∧
    replayed.header "content-type" = response.header "content-type" ∧
    replayed.body = response.body ∧ replayed.header replayedHeader = some "true"

section

variable (fingerprint : Bytes → BitVec 64) (requests : ℕ → Request) (key : CacheKey)

/-- **At most one execution for a key.** -/
structure AtMostOnce (s : LayerState) : Prop where
  once : ∀ i j r r', (requests i).cacheKey = some key → (requests j).cacheKey = some key →
    s.Completed i r → s.Completed j r' → i = j
  /-- Any other request with that body is answered by a replay, unless its handler failed
  transiently. -/
  replayed : ∀ i r, (requests i).cacheKey = some key → s.Completed i r →
    ∀ j, j ≠ i → (requests j).cacheKey = some key → (requests j).body = (requests i).body →
      ∀ handler answer, s.phase j = .answered handler answer →
        (handler = none ∧ answer.IsReplayOf r) ∨
          ∃ e, handler = some e ∧ e.isServerError = true ∧ answer = .response e
  quiet : ∀ i r, (requests i).cacheKey = some key → s.Completed i r →
    ∀ j, j ≠ i → (requests j).cacheKey = some key → s.phase j ≠ .running

/-- The entry of the key neither expires nor is evicted. -/
def Kept (s : LayerState) (a : LayerStep) : Prop :=
  key ∈ s.store.entries → key ∈ (s.next fingerprint requests a).store.entries

instance (s : LayerState) (a : LayerStep) : Decidable (Kept fingerprint requests key s a) :=
  inferInstanceAs (Decidable (_ → _))

/-- A definitive answer can be buffered, no other handler of its key runs, and its key is not looked
up until it is stored. -/
def Serial (s : LayerState) : LayerStep → Prop
  | .lookup i _ => (requests i).cacheKey = some key →
      ∀ j, (requests j).cacheKey = some key → ∀ r, s.phase j ≠ .completed r
  | .complete i response => (requests i).cacheKey = some key → response.isServerError = false →
      (toBytes response.body maxBufferedBody).isSome = true ∧
        ∀ j, j ≠ i → (requests j).cacheKey = some key → s.phase j ≠ .running
  | .save _ _ => True

end

/-! ## The state of a key -/

section State

variable (fingerprint : Bytes → BitVec 64) (requests : ℕ → Request) (key : CacheKey)

def Failed (request : Request) (phase : Phase) : Prop :=
  (request.buffered = none ∧ phase = .answered none (.error bodyTooLarge)) ∨
    ∃ e : Response, e.isServerError = true ∧ phase = .answered (some e) (.response e)

structure Undecided (cached : Option CachedResponse) (phase : ℕ → Phase) : Prop where
  absent : cached = none
  phases : ∀ j, (requests j).cacheKey = some key → phase j = .waiting ∨
    (phase j = .running ∧ (requests j).buffered.isSome = true) ∨ Failed (requests j) (phase j)

structure StoredAs (cached : CachedResponse) (request : Request) (response : Response) : Prop where
  fingerprint : request.buffered.map fingerprint = some cached.requestFingerprint
  status : cached.status = response.status
  contentType : cached.contentType = response.header "content-type"
  body : toBytes response.body maxBufferedBody = some cached.body

def hit (cached : CachedResponse) (body : Bytes) : Answer :=
  if cached.requestFingerprint = fingerprint body then .response (replay cached)
  else .error keyReused

structure Decided (cached : Option CachedResponse) (phase : ℕ → Phase) (i : ℕ)
    (response : Response) : Prop where
  named : (requests i).cacheKey = some key
  readable : (requests i).buffered.isSome = true
  definitive : response.isServerError = false
  fits : (toBytes response.body maxBufferedBody).isSome = true
  own : (phase i = .completed response ∧ cached = none) ∨
    ∃ c answer, phase i = .answered (some response) answer ∧ cached = some c ∧
      StoredAs fingerprint c (requests i) response
  others : ∀ j, j ≠ i → (requests j).cacheKey = some key → phase j = .waiting ∨
    Failed (requests j) (phase j) ∨ ∃ c body, cached = some c ∧
      (requests j).buffered = some body ∧ phase j = .answered none (hit fingerprint c body)

def KeyInv (cached : Option CachedResponse) (phase : ℕ → Phase) : Prop :=
  Undecided requests key cached phase ∨
    ∃ i response, Decided fingerprint requests key cached phase i response

end State

section

variable {fingerprint : Bytes → BitVec 64} {requests : ℕ → Request} {key : CacheKey}
  {cached : Option CachedResponse} {phase phase' : ℕ → Phase} {i j : ℕ} {response : Response}
  {request : Request} {s : LayerState} {store : IdempotencyStore} {c : CachedResponse}

theorem KeyInv.congr (h : KeyInv fingerprint requests key cached phase)
    (hphase : ∀ j, (requests j).cacheKey = some key → phase' j = phase j) :
    KeyInv fingerprint requests key cached phase' := by
  rcases h with ⟨habsent, hphases⟩ | ⟨i, response, h⟩
  · refine Or.inl ⟨habsent, fun j hj ↦ ?_⟩
    rw [hphase j hj]
    exact hphases j hj
  · refine Or.inr ⟨i, response, h.named, h.readable, h.definitive, h.fits, ?_, fun j hji hj ↦ ?_⟩
    · rw [hphase i h.named]
      exact h.own
    · rw [hphase j hj]
      exact h.others j hji hj

theorem Failed.ne_running {p : Phase} (h : Failed request p) : p ≠ .running := by
  rcases h with ⟨-, rfl⟩ | ⟨e, -, rfl⟩ <;> exact nofun

theorem Failed.ne_completed {p : Phase} (h : Failed request p) : p ≠ .completed response := by
  rcases h with ⟨-, rfl⟩ | ⟨e, -, rfl⟩ <;> exact nofun

theorem LayerState.Completed.handler (h : s.Completed j response) :
    s.phase j ≠ .waiting ∧ s.phase j ≠ .running ∧ ∀ answer, s.phase j ≠ .answered none answer := by
  rcases h.2 with hphase | ⟨answer, hphase⟩ <;> simp [hphase]

theorem Failed.not_completed (h : Failed request (s.phase j)) :
    ¬ s.Completed j response := by
  intro hcompleted
  rcases h with ⟨-, h⟩ | ⟨e, he, h⟩
  · exact hcompleted.handler.2.2 _ h
  · obtain ⟨hdefinitive, hphase⟩ := hcompleted
    rw [h] at hphase
    rcases hphase with hphase | ⟨answer, hphase⟩
    · contradiction
    · obtain ⟨heq, -⟩ := Phase.answered.inj hphase
      rw [Option.some_inj.mp heq, hdefinitive] at he
      contradiction

theorem header_replay (c : CachedResponse) :
    (replay c).header "content-type" = c.contentType ∧
      (replay c).header replayedHeader = some "true" := by
  rcases hct : c.contentType with _ | contentType
  · simp only [replay, Response.header, hct]
    decide
  · simp only [replay, Response.header, hct, replayedHeader]
    exact ⟨by simp, by simp [List.lookup_cons]⟩

theorem body_of_toBytes {body : Body} {limit : ℕ} {b : Bytes} (h : toBytes body limit = some b) :
    body = .bytes b := by
  rcases body with b' | _
  · rw [toBytes] at h
    split at h
    · rw [Option.some_inj.mp h]
    · contradiction
  · contradiction

theorem StoredAs.isReplayOf {body : Bytes}
    (h : StoredAs fingerprint c request response) (hbody : request.buffered = some body) :
    (hit fingerprint c body).IsReplayOf response := by
  have hfingerprint := h.fingerprint
  rw [hbody, Option.map_some, Option.some_inj] at hfingerprint
  obtain ⟨hcontentType, hmark⟩ := header_replay c
  rw [hit, if_pos hfingerprint.symm]
  exact ⟨replay c, rfl, h.status, hcontentType.trans h.contentType, (body_of_toBytes h.body).symm,
    hmark⟩

theorem Decided.eq_of_completed (h : Decided fingerprint requests key cached
    s.phase i response) {r : Response} (hj : (requests j).cacheKey = some key)
    (hcompleted : s.Completed j r) : j = i := by
  by_contra hji
  rcases h.others j hji hj with hphase | hfailed | ⟨c, body, -, -, hphase⟩
  · exact hcompleted.handler.1 hphase
  · exact hfailed.not_completed hcompleted
  · exact hcompleted.handler.2.2 _ hphase

theorem Decided.response_eq (h : Decided fingerprint requests key cached
    s.phase i response) {r : Response} (hcompleted : s.Completed i r) : r = response := by
  rcases h.own with ⟨hphase, -⟩ | ⟨c, answer, hphase, -, -⟩
  · rcases hcompleted.2 with h | ⟨answer, h⟩
    · exact (Phase.completed.inj (hphase.symm.trans h)).symm
    · exact absurd (hphase.symm.trans h) nofun
  · rcases hcompleted.2 with h | ⟨answer, h⟩
    · exact absurd (hphase.symm.trans h) nofun
    · exact (Option.some_inj.mp (Phase.answered.inj (hphase.symm.trans h)).1).symm

theorem KeyInv.atMostOnce
    (h : KeyInv fingerprint requests key cached s.phase) : AtMostOnce requests key s := by
  rcases h with ⟨-, hphases⟩ | ⟨i, response, h⟩
  · have hnone {j : ℕ} {r : Response} (hj : (requests j).cacheKey = some key) :
        ¬ s.Completed j r := by
      intro hcompleted
      rcases hphases j hj with hphase | ⟨hphase, -⟩ | hfailed
      · exact hcompleted.handler.1 hphase
      · exact hcompleted.handler.2.1 hphase
      · exact hfailed.not_completed hcompleted
    exact ⟨fun j _ r _ hj _ h _ ↦ absurd h (hnone hj), fun j r hj h ↦ absurd h (hnone hj),
      fun j r hj h ↦ absurd h (hnone hj)⟩
  · refine ⟨fun j j' r r' hj hj' hcompleted hcompleted' ↦ ?_,
      fun j r hj hcompleted j' hne hj' hbody handler answer hanswered ↦ ?_,
      fun j r hj hcompleted j' hne hj' hrunning ↦ ?_⟩
    · exact (h.eq_of_completed hj hcompleted).trans (h.eq_of_completed hj' hcompleted').symm
    · obtain rfl := h.eq_of_completed hj hcompleted
      obtain rfl := h.response_eq hcompleted
      rcases h.others j' hne hj' with hphase | (⟨hnone, -⟩ | ⟨e, he, hphase⟩) |
        ⟨c, body, hcached, hread, hphase⟩
      · exact absurd (hphase.symm.trans hanswered) nofun
      · -- A body as readable as the other was not refused.
        have hreadable := h.readable
        rw [Request.buffered, ← hbody] at hreadable
        rw [Request.buffered] at hnone
        rw [hnone] at hreadable
        contradiction
      · obtain ⟨hhandler, hanswer⟩ := Phase.answered.inj (hphase.symm.trans hanswered)
        exact Or.inr ⟨e, hhandler.symm, he, hanswer.symm⟩
      · obtain ⟨hhandler, hanswer⟩ := Phase.answered.inj (hphase.symm.trans hanswered)
        -- The answer replayed is the one that was stored for the completed request.
        rcases h.own with ⟨-, habsent⟩ | ⟨c', -, -, hcached', hstored⟩
        · exact absurd (habsent.symm.trans hcached) nofun
        · obtain rfl := Option.some_inj.mp (hcached.symm.trans hcached')
          rw [Request.buffered, hbody] at hread
          exact Or.inl ⟨hhandler.symm, hanswer ▸ hstored.isReplayOf hread⟩
    · obtain rfl := h.eq_of_completed hj hcompleted
      rcases h.others j' hne hj' with hphase | hfailed | ⟨c, body, -, -, hphase⟩
      · exact absurd (hphase.symm.trans hrunning) nofun
      · exact hfailed.ne_running hrunning
      · exact absurd (hphase.symm.trans hrunning) nofun

/-! ## Steps -/

theorem exists_of_cacheKey (h : request.cacheKey = some key) :
    ∃ s, clientKey request = .ok (some s) ∧ scopedKey request s = key := by
  rw [Request.cacheKey] at h
  split at h
  · next s hs => exact ⟨s, hs, Option.some_inj.mp h⟩
  · contradiction

theorem onRequest_cases {now : ℕ} (h : request.cacheKey = some key)
    (hkept : key ∈ store.entries → key ∈ (onRequest fingerprint store request now).2.entries) :
    (request.buffered = none ∧
        onRequest fingerprint store request now = (.answered none (.error bodyTooLarge), store)) ∨
      ∃ body, request.buffered = some body ∧
        ((store.entries[key]? = none ∧
            onRequest fingerprint store request now = (.running, store)) ∨
          ∃ c, store.entries[key]? = some c ∧ onRequest fingerprint store request now =
            (.answered none (hit fingerprint c body), store)) := by
  obtain ⟨s, hs, rfl⟩ := exists_of_cacheKey h
  rcases hread : request.buffered with _ | body
  · rw [Request.buffered] at hread
    exact Or.inl ⟨rfl, by rw [onRequest, hs]; simp only [hread]⟩
  · rw [Request.buffered] at hread
    refine Or.inr ⟨body, rfl, ?_⟩
    rw [onRequest, hs] at hkept ⊢
    simp only [hread] at hkept ⊢
    rcases hget : store.entries[scopedKey request s]? with _ | c
    · refine Or.inl ⟨rfl, ?_⟩
      rw [IdempotencyStore.get, hget]
    · refine Or.inr ⟨c, rfl, ?_⟩
      by_cases hexpired : store.isExpired now c = true
      · -- An expired entry would be dropped.
        have hmem := hkept (OrderedMap.mem_of_getElem? hget)
        rw [IdempotencyStore.get, hget] at hmem
        simp only [hexpired, if_true, OrderedMap.mem_iff_exists, OrderedMap.lookup_erase,
          reduceCtorEq, exists_false] at hmem
      · rw [IdempotencyStore.get, hget]
        simp only [hexpired, Bool.false_eq_true, if_false, hit]
        split <;> rfl

theorem onRequest_entries {now : ℕ}
    (h : (onRequest fingerprint store request now).2.entries[key]? = some c) :
    store.entries[key]? = some c := by
  rcases hs : clientKey request with e | _ | s
  · rwa [onRequest, hs] at h
  · rwa [onRequest, hs] at h
  · rcases hread : toBytes request.body maxBufferedBody with _ | body
    · simpa only [onRequest, hs, hread] using h
    · rw [onRequest, hs] at h
      simp only [hread] at h
      have hget : (store.get (scopedKey request s) now).2.entries[key]? = some c →
          store.entries[key]? = some c := IdempotencyStore.getElem?_of_get
      rcases hout : store.get (scopedKey request s) now with ⟨_ | cached, store'⟩
      · rw [hout] at h hget
        exact hget h
      · rw [hout] at h hget
        dsimp only at h
        split at h
        · exact hget h
        · exact hget h

theorem onBuffered_entries {now : ℕ} (hne : request.cacheKey ≠ some key)
    (h : (onBuffered fingerprint store request response now).2.entries[key]? = some c) :
    store.entries[key]? = some c := by
  rw [onBuffered] at h
  split at h
  · exact h
  · split at h
    · next s _ hs _ =>
      have hkey : key ≠ scopedKey request s := by
        rintro rfl
        exact hne (by rw [Request.cacheKey, hs])
      exact IdempotencyStore.getElem?_of_insert hkey h
    · exact h

theorem Undecided.update (h : Undecided requests key cached phase) {p : Phase}
    (hp : p = .waiting ∨ (p = .running ∧ (requests i).buffered.isSome = true) ∨
      Failed (requests i) p) :
    Undecided requests key cached (Function.update phase i p) := by
  refine ⟨h.absent, fun j hj ↦ ?_⟩
  by_cases hji : j = i
  · subst hji
    rw [Function.update_self]
    exact hp
  · rw [Function.update_of_ne hji]
    exact h.phases j hj

section

variable (h : Decided fingerprint requests key cached phase i response)

include h

theorem Decided.update
    (hji : j ≠ i) {p : Phase} (hp : p = .waiting ∨ Failed (requests j) p ∨ ∃ c body,
      cached = some c ∧ (requests j).buffered = some body ∧
        p = .answered none (hit fingerprint c body)) :
    Decided fingerprint requests key cached (Function.update phase j p) i response := by
  refine ⟨h.named, h.readable, h.definitive, h.fits, ?_, fun j' hj'i hj' ↦ ?_⟩
  · rw [Function.update_of_ne hji.symm]
    exact h.own
  · by_cases hj'j : j' = j
    · subst hj'j
      rw [Function.update_self]
      exact hp
    · rw [Function.update_of_ne hj'j]
      exact h.others j' hj'i hj'

theorem Decided.own_ne :
    phase i ≠ .waiting ∧ phase i ≠ .running := by
  rcases h.own with ⟨hphase, -⟩ | ⟨c, answer, hphase, -⟩ <;> simp [hphase]

theorem Decided.others_ne (hji : j ≠ i) (hj : (requests j).cacheKey = some key) :
    phase j ≠ .running ∧ ∀ r, phase j ≠ .completed r := by
  rcases h.others j hji hj with hphase | hfailed | ⟨c, body, -, -, hphase⟩
  · simp [hphase]
  · exact ⟨hfailed.ne_running, fun r ↦ hfailed.ne_completed⟩
  · simp [hphase]

end

theorem getElem?_of_kept {m m' : OrderedMap CacheKey CachedResponse}
    (hsub : ∀ c, m'[key]? = some c → m[key]? = some c) (hkept : key ∈ m → key ∈ m') :
    m'[key]? = m[key]? := by
  rcases hm : m[key]? with _ | c
  · rw [Option.eq_none_iff_forall_ne_some]
    intro c hc
    exact absurd (hm.symm.trans (hsub c hc)) nofun
  · obtain ⟨c', hc'⟩ := OrderedMap.mem_iff_exists.mp (hkept (OrderedMap.mem_of_getElem? hm))
    rw [hc', ← hsub c' hc', hm]

variable {s : LayerState} {a : LayerStep} {now : ℕ}

section

variable (hinv : KeyInv fingerprint requests key s.store.entries[key]? s.phase)

include hinv

section

variable (hi : (requests i).cacheKey = some key)

include hi

theorem KeyInv.lookup (hwaiting : s.phase i = .waiting)
    (hkept : Kept fingerprint requests key s (.lookup i now))
    (hserial : Serial requests key s (.lookup i now)) :
    KeyInv fingerprint requests key
      (s.next fingerprint requests (.lookup i now)).store.entries[key]?
      (s.next fingerprint requests (.lookup i now)).phase := by
  rcases onRequest_cases hi hkept with
    ⟨hnone, hout⟩ | ⟨body, hread, ⟨habsent, hout⟩ | ⟨c, hc, hout⟩⟩
  all_goals
    simp only [LayerState.next, hout]
    rcases hinv with hundecided | ⟨i₀, response, hdecided⟩
  · exact Or.inl (hundecided.update (Or.inr (Or.inr (Or.inl ⟨hnone, rfl⟩))))
  · have hne : i ≠ i₀ := fun heq ↦ hdecided.own_ne.1 (heq ▸ hwaiting)
    exact Or.inr ⟨i₀, response, hdecided.update hne (Or.inr (Or.inl (Or.inl ⟨hnone, rfl⟩)))⟩
  · refine Or.inl (hundecided.update (Or.inr (Or.inl ⟨rfl, ?_⟩)))
    rw [hread, Option.isSome_some]
  · -- A decided key has an entry, or an answer about to be stored.
    rcases hdecided.own with ⟨hcompleted, -⟩ | ⟨c, answer, -, hc, -⟩
    · exact absurd hcompleted (hserial hi i₀ hdecided.named response)
    · exact absurd (habsent.symm.trans hc) nofun
  · exact absurd (hundecided.absent.symm.trans hc) nofun
  · have hne : i ≠ i₀ := fun heq ↦ hdecided.own_ne.1 (heq ▸ hwaiting)
    exact Or.inr ⟨i₀, response,
      hdecided.update hne (Or.inr (Or.inr ⟨c, body, hc, hread, rfl⟩))⟩

theorem KeyInv.complete (hrunning : s.phase i = .running)
    (hserial : Serial requests key s (.complete i response)) :
    KeyInv fingerprint requests key s.store.entries[key]?
      (Function.update s.phase i (onResponse (requests i) response)) := by
  obtain ⟨t, ht, -⟩ := exists_of_cacheKey hi
  rw [onResponse, ht]
  rcases hinv with hundecided | ⟨i₀, response₀, hdecided⟩
  · rcases herror : response.isServerError with _ | _
    · obtain ⟨hfits, halone⟩ := hserial hi herror
      have hreadable : (requests i).buffered.isSome = true := by
        rcases hundecided.phases i hi with hphase | ⟨-, hread⟩ | hfailed
        · exact absurd (hphase.symm.trans hrunning) nofun
        · exact hread
        · exact absurd hrunning hfailed.ne_running
      refine Or.inr ⟨i, response, hi, hreadable, herror, hfits, Or.inl ⟨?_, hundecided.absent⟩,
        fun j hji hj ↦ ?_⟩
      · simp
      · rw [Function.update_of_ne hji]
        rcases hundecided.phases j hj with hphase | ⟨hphase, -⟩ | hfailed
        · exact Or.inl hphase
        · exact absurd hphase (halone j hji hj)
        · exact Or.inr (Or.inl hfailed)
    · exact Or.inl (hundecided.update (Or.inr (Or.inr (Or.inr ⟨response, herror, by simp⟩))))
  · by_cases hii : i = i₀
    · exact absurd (hii ▸ hrunning) hdecided.own_ne.2
    · exact absurd hrunning (hdecided.others_ne hii hi).1

theorem KeyInv.save (hcompleted : s.phase i = .completed response) :
    KeyInv fingerprint requests key
      (onBuffered fingerprint s.store (requests i) response now).2.entries[key]?
      (Function.update s.phase i (onBuffered fingerprint s.store (requests i) response now).1) := by
  obtain ⟨t, ht, rfl⟩ := exists_of_cacheKey hi
  rcases hinv with hundecided | ⟨i₀, response₀, hdecided⟩
  · rcases hundecided.phases i hi with hphase | ⟨hphase, -⟩ | hfailed
    · exact absurd (hphase.symm.trans hcompleted) nofun
    · exact absurd (hphase.symm.trans hcompleted) nofun
    · exact absurd hcompleted hfailed.ne_completed
  · obtain rfl : i = i₀ := by
      by_contra hii
      exact (hdecided.others_ne hii hi).2 response hcompleted
    rcases hdecided.own with ⟨hphase, habsent⟩ | ⟨c, answer, hphase, -⟩
    · obtain rfl := Phase.completed.inj (hphase.symm.trans hcompleted)
      obtain ⟨b, hb⟩ := Option.isSome_iff_exists.mp hdecided.fits
      obtain ⟨body, hbody⟩ := Option.isSome_iff_exists.mp hdecided.readable
      rw [Request.buffered] at hbody
      simp only [onBuffered, hb, ht, hbody, IdempotencyStore.getElem?_insert_self]
      refine Or.inr ⟨i, response₀, hi, hdecided.readable, hdecided.definitive, hdecided.fits,
        Or.inr ⟨_, _, Function.update_self .., rfl, ?_, rfl, rfl, hb⟩, fun j hji hj ↦ ?_⟩
      · rw [Request.buffered, hbody]
        rfl
      · rw [Function.update_of_ne hji]
        rcases hdecided.others j hji hj with hphase | hfailed | ⟨c, body, hc, -⟩
        · exact Or.inl hphase
        · exact Or.inr (Or.inl hfailed)
        · exact absurd (habsent.symm.trans hc) nofun
    · exact absurd (hphase.symm.trans hcompleted) nofun

end

/-- **Every step keeps the invariant** of a key whose entry it keeps. -/
theorem KeyInv.next (henabled : s.Enabled a) (hkept : Kept fingerprint requests key s a)
    (hserial : Serial requests key s a) :
    KeyInv fingerprint requests key (s.next fingerprint requests a).store.entries[key]?
      (s.next fingerprint requests a).phase := by
  -- A step of another request changes neither the entry nor the requests with the key.
  have hother {i : ℕ} {p : Phase} (hi : (requests i).cacheKey ≠ some key) :
      KeyInv fingerprint requests key s.store.entries[key]? (Function.update s.phase i p) :=
    hinv.congr fun j hj ↦ Function.update_of_ne (fun heq : j = i ↦ hi (heq ▸ hj)) _ _
  rcases a with ⟨i, now⟩ | ⟨i, response⟩ | ⟨i, now⟩
  · by_cases hi : (requests i).cacheKey = some key
    · exact hinv.lookup hi henabled hkept hserial
    · have hentry := getElem?_of_kept (fun c ↦ onRequest_entries) hkept
      exact hentry ▸ hother hi
  · by_cases hi : (requests i).cacheKey = some key
    · exact hinv.complete hi henabled hserial
    · exact hother hi
  · obtain ⟨response, hcompleted⟩ := henabled
    rw [Kept] at hkept
    simp only [LayerState.next, hcompleted] at hkept ⊢
    by_cases hi : (requests i).cacheKey = some key
    · exact hinv.save hi hcompleted
    · rw [getElem?_of_kept (fun c ↦ onBuffered_entries hi) hkept]
      exact hother hi

end

/-- **At most one execution for a key** in every run in which its definitive answer comes alone and
can be buffered, and its entry is kept. -/
theorem atMostOnce_of_serial (fingerprint : Bytes → BitVec 64) (requests : ℕ → Request)
    (maxEntries ttl : ℕ) (key : CacheKey) (s : LayerState)
    (h : (system fingerprint requests maxEntries ttl).ReachableUnder
      (fun s a ↦ Kept fingerprint requests key s a ∧ Serial requests key s a) s) :
    AtMostOnce requests key s := by
  have hinv : KeyInv fingerprint requests key s.store.entries[key]? s.phase := by
    refine h.invariant (fun s ↦ KeyInv fingerprint requests key s.store.entries[key]? s.phase)
      (Or.inl ⟨?_, fun j _ ↦ Or.inl rfl⟩) fun s a _ hinv henabled hguard ↦
        hinv.next henabled hguard.1 hguard.2
    exact Std.ExtTreeMap.getElem?_empty
  exact hinv.atMostOnce

end

/-! ## An example -/

private def retries : ℕ → Request := fun _ ↦
  ⟨"POST", some "k1", some "/echo", "/echo", some "agent", .bytes [104, 105]⟩

private def retryKey : CacheKey := ⟨.user "agent", "POST", "/echo", "k1"⟩

private def created : Response := ⟨201, [("content-type", "application/json")], .bytes [123, 125]⟩

/-- Requests with these retries, compared by the length of their bodies. -/
private def retrySystem : GuardedSystem LayerState LayerStep :=
  system (fun b ↦ BitVec.ofNat 64 b.length) retries 50000 86400

private def retryAfter : List LayerStep :=
  [.lookup 0 0, .complete 0 created, .save 0 1, .lookup 1 2]

/-- A retry after the answer was stored is answered from the cache. -/
theorem atMostOnce_of_serial_retry :
    (retrySystem.run retrySystem.init retryAfter).phase 1 =
        .answered none (.response ⟨201, [("content-type", "application/json"),
          ("idempotency-replayed", "true")], .bytes [123, 125]⟩) ∧
      AtMostOnce retries retryKey (retrySystem.run retrySystem.init retryAfter) := by
  refine ⟨rfl, atMostOnce_of_serial (fun b ↦ BitVec.ofNat 64 b.length) retries 50000 86400 retryKey
    _ (GuardedSystem.ReachableUnder.run .init ?_)⟩
  refine ⟨rfl, ⟨by decide, fun _ j _ r ↦ nofun⟩, rfl, ⟨by decide, fun _ _ ↦ ⟨rfl, ?_⟩⟩,
    ⟨created, rfl⟩, ⟨by decide, trivial⟩, rfl, ⟨by decide, fun _ j _ r hphase ↦ ?_⟩, trivial⟩
  · intro j hj _ hphase
    have hwaiting : Function.update (fun _ : ℕ ↦ Phase.waiting) 0 .running j = .waiting :=
      Function.update_of_ne hj _ _
    exact absurd (hwaiting.symm.trans hphase) nofun
  · rcases j with _ | j
    · exact absurd hphase nofun
    · exact absurd hphase nofun

private def overlapping : List LayerStep :=
  [.lookup 0 0, .lookup 1 0, .complete 0 created, .complete 1 created]

/-- **Two requests that overlap both run their handlers.** -/
theorem not_atMostOnce_overlap :
    ¬ ∀ s, retrySystem.ReachableUnder
        (Kept (fun b ↦ BitVec.ofNat 64 b.length) retries retryKey) s →
      AtMostOnce retries retryKey s := by
  intro h
  have hreach : retrySystem.ReachableUnder
      (Kept (fun b ↦ BitVec.ofNat 64 b.length) retries retryKey)
      (retrySystem.run retrySystem.init overlapping) :=
    GuardedSystem.ReachableUnder.run .init
      ⟨rfl, by decide, rfl, by decide, rfl, by decide, rfl, by decide, trivial⟩
  have honce := (h _ hreach).once 0 1 created created rfl rfl ⟨rfl, Or.inl rfl⟩ ⟨rfl, Or.inl rfl⟩
  exact absurd honce (by decide)

end Idempotency

end RosheraCad
