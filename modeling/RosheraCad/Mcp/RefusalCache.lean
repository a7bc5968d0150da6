import RosheraCad.Mcp.Dispatch

/-!
# The refusal cache

A refusal is remembered when it is recorded, which may be long after it was computed. A dispatch
that changes the state drops every refusal remembered so far, but not those still to come.
-/

namespace RosheraCad

namespace Gates

def DispatchPhase.turn? : DispatchPhase → Option ℕ
  | .waiting => none
  | .fetching turn => some turn
  | .running turn => some turn
  | .finished turn _ => some turn
  | .recorded turn _ => some turn

def isStable (rt : Runtime) (result : ToolResult) : Bool :=
  (typedRefusalOf rt result).any fun gate ↦ !gate.any liveFactGates.contains

def IsLiveRefusal (rt : Runtime) (result : ToolResult) : Prop :=
  ∃ gate ∈ liveFactGates, ∃ payload notes, result =
    { namedRefusal rt gate payload with content := (namedRefusal rt gate payload).content ++ notes }

section Properties

variable (rt : Runtime) (calls : ℕ → Call)

def Serves (s : DispatchState) (i : ℕ) (hit : CachedRefusal) : Prop :=
  s.phase i = .waiting ∧
    s.session.refusalCache.lookup (rt.refusalKey (calls i).tool (calls i).args) = some hit

/-- What is served was given to an earlier call of the same tool and arguments, and is no live fact.
-/
def ServesEarlier (s : DispatchState) : Prop :=
  ∀ i hit, Serves rt calls s i hit →
    (∃ j, calls j = calls i ∧ s.phase j = .recorded hit.turn hit.result ∧
      (typedRefusalOf rt hit.result).isSome = true) ∧ ¬ IsLiveRefusal rt hit.result

/-- No dispatch has changed the state since what is served was computed. -/
def ServesFresh (s : DispatchState) : Prop :=
  ∀ i hit, Serves rt calls s i hit → s.computed hit.turn = s.changes

def CachedInTime (s : DispatchState) : DispatchStep → Prop
  | .record i => ∀ turn result, s.phase i = .finished turn result → isStable rt result = true →
      s.session.refusalCache.lookup (rt.refusalKey (calls i).tool (calls i).args) = none →
        s.computed turn = s.changes
  | _ => True

/-- The key tells the calls of a session apart. -/
def KeysApart : Prop :=
  ∀ i j, rt.refusalKey (calls i).tool (calls i).args = rt.refusalKey (calls j).tool (calls j).args →
    calls i = calls j

/-- A refusal that was minted and written out names its gate when it is read. -/
def ReadsGate : Prop :=
  ∀ gate payload, typedRefusalOf rt (namedRefusal rt gate payload) = some (some gate)

/-! ## The invariant -/

/-- Each turn is of one dispatch, and the cache holds refusals that were recorded. -/
structure Remembers (s : DispatchState) : Prop where
  turns : ∀ i t, (s.phase i).turn? = some t → t ≤ s.turn
  distinct : ∀ i j t, (s.phase i).turn? = some t → (s.phase j).turn? = some t → i = j
  cached : ∀ e ∈ s.session.refusalCache, isStable rt e.2.result = true ∧
    ∃ j, e.1 = rt.refusalKey (calls j).tool (calls j).args ∧
      s.phase j = .recorded e.2.turn e.2.result

def CacheFresh (s : DispatchState) : Prop :=
  ∀ e ∈ s.session.refusalCache, s.computed e.2.turn = s.changes

end Properties

section

variable {rt : Runtime} {calls : ℕ → Call} {s : DispatchState} {i j turn : ℕ} {result : ToolResult}

theorem Remembers.new : Remembers rt calls DispatchState.new := ⟨nofun, nofun, nofun⟩

section

variable (h : Remembers rt calls s)

include h

theorem Remembers.setPhase (phase : DispatchPhase) (hturn : phase.turn? = (s.phase i).turn?)
    (hrecorded : ∀ t r, s.phase i ≠ .recorded t r) : Remembers rt calls (s.setPhase i phase) := by
  have hphase : ∀ j, ((s.setPhase i phase).phase j).turn? = (s.phase j).turn? := by
    intro j
    rcases DispatchState.setPhase_cases (s := s) (i := i) (j := j) (p := phase) rfl with
      ⟨rfl, hj⟩ | ⟨-, hj⟩
    · rw [← hj, hturn]
    · rw [← hj]
  refine ⟨fun j t hj ↦ h.turns j t (hphase j ▸ hj), fun j k t hj hk ↦ ?_, fun e he ↦ ?_⟩
  · exact h.distinct j k t (hphase j ▸ hj) (hphase k ▸ hk)
  · obtain ⟨hstable, j, hkey, hj⟩ := h.cached e he
    refine ⟨hstable, j, hkey, ?_⟩
    have hji : j ≠ i := by
      rintro rfl
      exact hrecorded _ _ hj
    simp only [DispatchState.setPhase]
    rwa [Function.update_of_ne hji]

theorem Remembers.enter (phase : DispatchPhase) (hwaiting : s.phase i = .waiting)
    (hturn : phase.turn? = some (s.turn + 1)) :
    Remembers rt calls { s.setPhase i phase with turn := s.turn + 1 } := by
  have hcases : ∀ j t, ((s.setPhase i phase).phase j).turn? = some t →
      (j = i ∧ t = s.turn + 1) ∨ (j ≠ i ∧ (s.phase j).turn? = some t) := by
    intro j t hj
    rcases DispatchState.setPhase_cases (s := s) (i := i) (j := j) (p := phase) rfl with
      ⟨rfl, hphase⟩ | ⟨hji, hphase⟩
    · rw [← hphase, hturn] at hj
      exact Or.inl ⟨rfl, (Option.some_inj.mp hj).symm⟩
    · rw [← hphase] at hj
      exact Or.inr ⟨hji, hj⟩
  refine ⟨fun j t hj ↦ ?_, fun j k t hj hk ↦ ?_, fun e he ↦ ?_⟩
  · rcases hcases j t hj with ⟨-, rfl⟩ | ⟨-, hj⟩
    · exact le_rfl
    · exact (h.turns j t hj).trans (Nat.le_succ _)
  · rcases hcases j t hj with ⟨rfl, rfl⟩ | ⟨-, hj'⟩
    · rcases hcases k _ hk with ⟨rfl, -⟩ | ⟨-, hk'⟩
      · rfl
      · exact absurd (h.turns k _ hk') (by omega)
    · rcases hcases k t hk with ⟨rfl, rfl⟩ | ⟨-, hk'⟩
      · exact absurd (h.turns j _ hj') (by omega)
      · exact h.distinct j k t hj' hk'
  · obtain ⟨hstable, j, hkey, hj⟩ := h.cached e he
    refine ⟨hstable, j, hkey, ?_⟩
    have hji : j ≠ i := by
      rintro rfl
      rw [hwaiting] at hj
      contradiction
    simp only [DispatchState.setPhase]
    rwa [Function.update_of_ne hji]

theorem Remembers.congr {s' : DispatchState}
    (hcache : s'.session.refusalCache = s.session.refusalCache) (hturn : s'.turn = s.turn)
    (hphase : s'.phase = s.phase) : Remembers rt calls s' :=
  ⟨hphase ▸ hturn ▸ h.turns, hphase ▸ h.distinct, hcache ▸ hphase ▸ h.cached⟩

theorem Remembers.turn_ne {e : String × CachedRefusal}
    (he : e ∈ s.session.refusalCache) (hturn : (s.phase i).turn? = some turn)
    (hrecorded : ∀ t r, s.phase i ≠ .recorded t r) : e.2.turn ≠ turn := by
  rintro rfl
  obtain ⟨-, j, -, hj⟩ := h.cached e he
  obtain rfl := h.distinct i j _ hturn (by rw [hj]; rfl)
  exact hrecorded _ _ hj

/-- **The outcome of a call is recorded.** -/
theorem Remembers.record (hphase : s.phase i = .finished turn result) :
    Remembers rt calls (s.next rt calls (.record i)) := by
  simp only [DispatchState.next, hphase]
  have hmoved : Remembers rt calls (s.setPhase i (.recorded turn result)) := by
    refine h.setPhase _ (by rw [hphase]; rfl) fun t r hr ↦ ?_
    rw [hphase] at hr
    contradiction
  refine ⟨hmoved.turns, hmoved.distinct, fun e he ↦ ?_⟩
  rcases mem_refusalCache he with he | ⟨rfl, -, gate, hgate, hlive⟩
  · exact hmoved.cached e he
  · refine ⟨?_, i, rfl, ?_⟩
    · simp [isStable, hgate, hlive]
    · simp only [DispatchState.setPhase, Function.update_self]

/-- **One step keeps the invariant.** -/
theorem Remembers.step {a : DispatchStep} (henabled : s.Enabled calls a) :
    Remembers rt calls (s.next rt calls a) := by
  rcases a with i | ⟨i, refusal⟩ | ⟨i, result⟩ | ⟨i, j⟩ | i
  · simp only [DispatchState.next]
    split
    · exact (h.enter (.finished _ _) henabled rfl).congr rfl rfl rfl
    · exact (h.enter (.running _) henabled rfl).congr rfl rfl rfl
    · exact (h.enter (.fetching _) henabled rfl).congr rfl rfl rfl
  · obtain ⟨⟨turn, hphase⟩, -⟩ := henabled
    have hmoved {p : DispatchPhase} (hp : p.turn? = some turn) :
        Remembers rt calls (s.setPhase i p) :=
      h.setPhase p (by rw [hphase, hp]; rfl) (by rw [hphase]; exact nofun)
    rcases refusal with _ | ⟨gate, payload⟩
    · simp only [DispatchState.next, hphase]
      exact (hmoved (p := .running turn) rfl).congr rfl rfl rfl
    · simp only [DispatchState.next, hphase]
      exact (hmoved (p := .finished turn _) rfl).congr rfl rfl rfl
  · obtain ⟨turn, hphase⟩ := henabled
    simp only [DispatchState.next, hphase]
    exact (h.setPhase (.finished turn result) (by rw [hphase]; rfl)
      (by rw [hphase]; exact nofun)).congr rfl rfl rfl
  · obtain ⟨⟨turn, hphase⟩, ⟨inner, result, hinner⟩, -⟩ := henabled
    simp only [DispatchState.next, hphase, hinner]
    exact (h.setPhase (.finished turn result) (by rw [hphase]; rfl)
      (by rw [hphase]; exact nofun)).congr rfl rfl rfl
  · obtain ⟨turn, result, hphase⟩ := henabled
    exact h.record hphase

end

theorem Remembers.of_reachable {G : DispatchState → DispatchStep → Prop}
    (h : (dispatching rt calls).ReachableUnder G s) : Remembers rt calls s :=
  h.invariant _ .new fun _ _ _ h henabled _ ↦ h.step henabled

/-! ## Freshness -/

theorem CacheFresh.stamp (h : CacheFresh s) {computed : ℕ}
    (hturn : ∀ e ∈ s.session.refusalCache, e.2.turn ≠ turn) :
    CacheFresh { s with computed := Function.update s.computed turn computed } := by
  intro e he
  simp only [Function.update_of_ne (hturn e he)]
  exact h e he

/-- **One step keeps the cache fresh** when no refusal is cached too late. -/
theorem CacheFresh.step (h : CacheFresh s) (hinv : Remembers rt calls s) {a : DispatchStep}
    (henabled : s.Enabled calls a) (htime : CachedInTime rt calls s a) :
    CacheFresh (s.next rt calls a) := by
  rcases a with i | ⟨i, refusal⟩ | ⟨i, result⟩ | ⟨i, j⟩ | i
  · simp only [DispatchState.next]
    split
    · refine CacheFresh.stamp (s := { s with }) h fun e he ↦ ?_
      obtain ⟨-, j, -, hj⟩ := hinv.cached e he
      have := hinv.turns j e.2.turn (by rw [hj]; rfl)
      omega
    · exact h
    · exact h
  · obtain ⟨⟨turn, hphase⟩, -⟩ := henabled
    rcases refusal with _ | ⟨gate, payload⟩
    · simp only [DispatchState.next, hphase]
      exact h
    · simp only [DispatchState.next, hphase]
      exact h.stamp fun e he ↦ hinv.turn_ne he (by rw [hphase]; rfl) (by rw [hphase]; exact nofun)
  · obtain ⟨turn, hphase⟩ := henabled
    simp only [DispatchState.next, hphase]
    exact h.stamp fun e he ↦ hinv.turn_ne he (by rw [hphase]; rfl) (by rw [hphase]; exact nofun)
  · obtain ⟨⟨turn, hphase⟩, ⟨inner, result, hinner⟩, -⟩ := henabled
    simp only [DispatchState.next, hphase, hinner]
    exact h.stamp fun e he ↦ hinv.turn_ne he (by rw [hphase]; rfl) (by rw [hphase]; exact nofun)
  · obtain ⟨turn, result, hphase⟩ := henabled
    simp only [DispatchState.next, hphase]
    intro e he
    by_cases hchanges : changesState rt (calls i).tool result = true
    · -- Whatever was remembered is dropped.
      rw [refusalCache_of_changes hchanges] at he
      contradiction
    · simp only [hchanges, Bool.false_eq_true, if_false]
      rcases mem_refusalCache he with he | ⟨rfl, hlookup, gate, hgate, hlive⟩
      · exact h e he
      · exact htime turn result hphase (by simp [isStable, hgate, hlive]) hlookup

theorem IsLiveRefusal.not_stable (hreads : ReadsGate rt) (h : IsLiveRefusal rt result) :
    isStable rt result = false := by
  obtain ⟨gate, hgate, payload, notes, rfl⟩ := h
  have hnamed := hreads gate payload
  rw [isStable, typedRefusalOf_append (by rw [hnamed]; rfl), hnamed]
  simp [hgate]

end

/-- **The refusal cache** serves what an earlier call of the same tool and arguments was given, and
no live fact; it is fresh where nothing changes the state between the computing of a refusal and its
caching. -/
theorem servesFresh_of_cachedInTime (rt : Runtime) (calls : ℕ → Call) (hkeys : KeysApart rt calls)
    (hreads : ReadsGate rt) :
    (∀ s, (dispatching rt calls).Reachable s → ServesEarlier rt calls s) ∧
    ∀ s, (dispatching rt calls).ReachableUnder (CachedInTime rt calls) s →
      ServesFresh rt calls s := by
  have hmem {s : DispatchState} {i : ℕ} {hit : CachedRefusal} (h : Serves rt calls s i hit) :
      (rt.refusalKey (calls i).tool (calls i).args, hit) ∈ s.session.refusalCache := by
    obtain ⟨before, after, heq, -⟩ := List.lookup_eq_some_iff.mp h.2
    rw [heq]
    exact List.mem_append_right _ List.mem_cons_self
  refine ⟨fun s h i hit hserves ↦ ?_, fun s h i hit hserves ↦ ?_⟩
  · obtain ⟨hstable, j, hkey, hj⟩ := (Remembers.of_reachable h).cached _ (hmem hserves)
    refine ⟨⟨j, hkeys j i hkey.symm, hj, ?_⟩, fun hlive ↦ ?_⟩
    · exact Option.isSome_of_any hstable
    · rw [hlive.not_stable hreads] at hstable
      contradiction
  · have hfresh : CacheFresh s := by
      refine h.invariant CacheFresh ?_ fun t a hreachable ht henabled htime ↦ ?_
      · exact fun e he ↦ absurd he List.not_mem_nil
      · exact ht.step (Remembers.of_reachable hreachable) henabled htime
    exact hfresh _ (hmem hserves)

/-! ## Two runs -/

/-- A runtime that writes a refusal as a mark and its gate, and reads it back. -/
private def marking : Runtime where
  parse text := match text.toList with
    | '!' :: gate => some (.object [("refused", .bool true), ("gate", .string (.ofList gate))])
    | _ => none
  stringify refusal := .ofList ('!' :: (((refusal.get? "gate").bind Json.asStr?).getD "").toList)
  refusalKey tool _ := tool

private theorem readsGate_marking : ReadsGate marking := by
  intro gate payload
  have hparse : marking.parse (marking.stringify (.object (("refused", .bool true) ::
      ("gate", .string gate) :: payload))) =
      some (.object [("refused", .bool true), ("gate", .string gate)]) := by
    simp [marking, List.lookup_cons, Json.asStr?]
  simp only [typedRefusalOf, namedRefusal, gateRefusal, List.head?_cons, hparse]
  rfl

/-- A name is bound to a parameter of an event; a redo brings back the event it is of. -/
private def binding : ℕ → Call
  | 1 => ⟨"timeline_redo", .object []⟩
  | _ => ⟨"bind_parameter_name", .object [("name", .string "bore")]⟩

private theorem keysApart_binding : KeysApart marking binding := by
  intro i j h
  have hcases : ∀ k, (k = 1 ∧ binding k = ⟨"timeline_redo", .object []⟩) ∨
      binding k = ⟨"bind_parameter_name", .object [("name", .string "bore")]⟩ := by
    intro k
    rcases Decidable.em (k = 1) with rfl | hk
    · exact Or.inl ⟨rfl, rfl⟩
    · right
      unfold binding
      split
      · contradiction
      · rfl
  rcases hcases i with ⟨-, hi⟩ | hi <;> rcases hcases j with ⟨-, hj⟩ | hj <;> rw [hi, hj] at h ⊢
  · exact absurd (show "timeline_redo" = "bind_parameter_name" from h) (by decide)
  · exact absurd (show "bind_parameter_name" = "timeline_redo" from h) (by decide)

private def unbound : ToolResult := ⟨["!"], true, false⟩

/-- The refusal is recorded as soon as the handler gives it. -/
theorem servesFresh_atOnce : ServesFresh marking binding ((dispatching marking binding).run .new
    [.gate 0, .live 0 none, .handle 0 unbound, .record 0]) := by
  refine (servesFresh_of_cachedInTime marking binding keysApart_binding readsGate_marking).2 _
    (GuardedSystem.ReachableUnder.init.run ?_)
  refine ⟨rfl, trivial, ⟨⟨_, rfl⟩, nofun⟩, trivial, ⟨_, rfl⟩, trivial, ⟨_, _, rfl⟩, ?_, trivial⟩
  intro turn result hphase _ _
  obtain ⟨rfl, -⟩ := DispatchPhase.finished.inj hphase
  rfl

private def late : List DispatchStep :=
  [.gate 0, .live 0 none, .handle 0 unbound, .gate 1, .live 1 none,
    .handle 1 ⟨["done"], false, false⟩, .record 1, .record 0]

/-- **A refusal the redo has made wrong is served**: it was cached after the redo had dropped the
cache. -/
theorem not_servesFresh_late :
    ¬ ∀ (rt : Runtime) (calls : ℕ → Call), KeysApart rt calls → ReadsGate rt →
      ∀ s, (dispatching rt calls).Reachable s →
        ServesEarlier rt calls s ∧ ServesFresh rt calls s := by
  intro h
  have hreachable : (dispatching marking binding).Reachable
      ((dispatching marking binding).run .new late) := by
    refine GuardedSystem.ReachableUnder.init.run ?_
    exact ⟨rfl, trivial, ⟨⟨_, rfl⟩, nofun⟩, trivial, ⟨_, rfl⟩, trivial, rfl, trivial,
      ⟨⟨_, rfl⟩, nofun⟩, trivial, ⟨_, rfl⟩, trivial, ⟨_, _, rfl⟩, trivial, ⟨_, _, rfl⟩, trivial,
      trivial⟩
  have hstale := (h _ _ keysApart_binding readsGate_marking _ hreachable).2 2
    ⟨"bind_parameter_name", 1, unbound⟩ ⟨rfl, rfl⟩
  exact absurd hstale (by decide +kernel)

end Gates

end RosheraCad
