import RosheraCad.Replay.Mould
import RosheraCad.Library.SortedPrefix

/-!
# Incremental rebuild

An override changes only the events from its target on. So the model below the earliest target is
kept: the next rebuild restores it and replays the rest of the log. The kept prefix is found again
by the sequence numbers and identifiers of its events.
-/

namespace RosheraCad

abbrev IdRemap := OrderedMap ℕ ℕ

structure ReplayKernel (Model Assemblies Snapshot : Type*) where
  newModel : Model
  noAssemblies : Assemblies
  applyEvent : Model → Assemblies → IdRemap → TimelineEvent →
    Except String Unit × Model × Assemblies × IdRemap
  take : Model → Snapshot
  restore : Snapshot → Model → Model

/-- The first event a replay failed to re-execute. -/
structure ReplayFailure where
  sequenceNumber : EventIndex
  eventId : String
  error : String
  deriving DecidableEq

structure ReplayOutcome (Assemblies : Type*) where
  eventsApplied : ℕ
  eventsSkipped : ℕ
  firstFailure : Option ReplayFailure
  idRemap : IdRemap
  assemblies : Assemblies

/-- Count the result of an event, keeping the first failure. -/
def ReplayOutcome.count {Assemblies : Type*} (outcome : ReplayOutcome Assemblies)
    (event : TimelineEvent) : Except String Unit → ReplayOutcome Assemblies
  | .ok () => { outcome with eventsApplied := outcome.eventsApplied + 1 }
  | .error err =>
    { outcome with
      eventsSkipped := outcome.eventsSkipped + 1
      firstFailure := outcome.firstFailure.or
        (some ⟨event.sequenceNumber, event.id.toText, err⟩) }

namespace ReplayKernel

variable {Model Assemblies Snapshot : Type*} (kernel : ReplayKernel Model Assemblies Snapshot)

def noOutcome : ReplayOutcome Assemblies := ⟨0, 0, none, ∅, kernel.noAssemblies⟩

variable [FloatDebug] {events : List TimelineEvent} {known : Set TimelineEvent}

/-! ## Full replay -/

def rebuildStep (overrides : OverrideSet) (s : Model × ReplayOutcome Assemblies)
    (event : TimelineEvent) : Model × ReplayOutcome Assemblies :=
  if event.isParamMeta then (s.1, { s.2 with eventsApplied := s.2.eventsApplied + 1 })
  else
    let dispatched := (overrides.overriddenEvent event).getD event
    let (result, model, assemblies, idRemap) :=
      kernel.applyEvent s.1 s.2.assemblies s.2.idRemap dispatched
    (model, { s.2 with assemblies, idRemap }.count event result)

def rebuildModelFromEvents (model : Model) (events : List TimelineEvent) :
    Model × ReplayOutcome Assemblies :=
  events.foldl (kernel.rebuildStep (.collect events)) (model, kernel.noOutcome)

structure Slice (Model Assemblies : Type*) where
  model : Model
  idRemap : IdRemap
  assemblies : Assemblies
  outcome : ReplayOutcome Assemblies

def sliceStep (overrides : OverrideSet) (s : Slice Model Assemblies) (event : TimelineEvent) :
    Slice Model Assemblies :=
  if event.isParamMeta then
    { s with outcome := { s.outcome with eventsApplied := s.outcome.eventsApplied + 1 } }
  else
    let dispatched := (overrides.overriddenEvent event).getD event
    let (result, model, assemblies, idRemap) :=
      kernel.applyEvent s.model s.assemblies s.idRemap dispatched
    { model, assemblies, idRemap, outcome := s.outcome.count event result }

def replaySlice (overrides : OverrideSet) (s : Slice Model Assemblies)
    (events : List TimelineEvent) : Slice Model Assemblies :=
  events.foldl (kernel.sliceStep overrides) s

/-! ## The prefix cache -/

/-- A memoised prefix: what replaying every event below the floor left. -/
structure PrefixCache (Model Assemblies : Type*) where
  floor : EventIndex
  prefixModel : Model
  idRemap : IdRemap
  assemblies : Assemblies
  prefixApplied : ℕ
  prefixSkipped : ℕ
  prefixFirstFailure : Option ReplayFailure
  signature : List (EventIndex × Uuid)

structure IncrementalStats where
  eventsReused : ℕ
  eventsReexecuted : ℕ
  cacheHit : Bool
  deriving DecidableEq

/-- Sequence number and id of each event below the floor, in sequence order. -/
def prefixSignature (events : List TimelineEvent) (floor : EventIndex) :
    List (EventIndex × Uuid) :=
  ((events.filter (·.sequenceNumber < floor)).map fun e ↦
    (e.sequenceNumber, e.id.uuid)).insertionSort fun a b ↦ a.1 < b.1 ∨ a.1 = b.1 ∧ a.2 ≤ b.2

def memoise (events : List TimelineEvent) (overrides : OverrideSet) (floor : EventIndex) :
    PrefixCache Model Assemblies :=
  let slice := kernel.replaySlice overrides
    ⟨kernel.newModel, ∅, kernel.noAssemblies, kernel.noOutcome⟩
    (events.filter (·.sequenceNumber < floor))
  { floor
    prefixModel := slice.model
    idRemap := slice.idRemap
    assemblies := slice.assemblies
    prefixApplied := slice.outcome.eventsApplied
    prefixSkipped := slice.outcome.eventsSkipped
    prefixFirstFailure := slice.outcome.firstFailure
    signature := prefixSignature events floor }

def resume (cached : PrefixCache Model Assemblies) (overrides : OverrideSet)
    (suffix : List TimelineEvent) : Model × ReplayOutcome Assemblies :=
  let model := kernel.restore (kernel.take cached.prefixModel) kernel.newModel
  let slice := kernel.replaySlice overrides
    ⟨model, cached.idRemap, cached.assemblies, kernel.noOutcome⟩ suffix
  (slice.model,
    { eventsApplied := cached.prefixApplied + slice.outcome.eventsApplied
      eventsSkipped := cached.prefixSkipped + slice.outcome.eventsSkipped
      firstFailure := cached.prefixFirstFailure.or slice.outcome.firstFailure
      idRemap := slice.idRemap
      assemblies := slice.assemblies })

structure IncrementalResult (Model Assemblies : Type*) where
  model : Model
  outcome : ReplayOutcome Assemblies
  stats : IncrementalStats
  cache : Option (PrefixCache Model Assemblies)

def incrementalRebuild (events : List TimelineEvent)
    (cache : Option (PrefixCache Model Assemblies)) : IncrementalResult Model Assemblies :=
  let overrides := OverrideSet.collect events
  match overrides.minTargetSequence with
  | none =>
    let (model, outcome) := kernel.rebuildModelFromEvents kernel.newModel events
    ⟨model, outcome, ⟨0, outcome.eventsApplied, false⟩, cache⟩
  | some floor =>
    let hit := cache.filter fun c ↦ c.floor = floor ∧ c.signature = prefixSignature events floor
    let cached := hit.getD (kernel.memoise events overrides floor)
    let suffix := events.filter (floor ≤ ·.sequenceNumber)
    let (model, outcome) := kernel.resume cached overrides suffix
    ⟨model, outcome, ⟨cached.signature.length,
      suffix.length - (suffix.filter TimelineEvent.isParamMeta).length, hit.isSome⟩, some cached⟩

/-! ## Slices and full replay -/

section Slices

variable {overrides overrides' : OverrideSet}

def Slice.onto (s : Slice Model Assemblies) (base : ReplayOutcome Assemblies) :
    Model × ReplayOutcome Assemblies :=
  (s.model,
    { eventsApplied := base.eventsApplied + s.outcome.eventsApplied
      eventsSkipped := base.eventsSkipped + s.outcome.eventsSkipped
      firstFailure := base.firstFailure.or s.outcome.firstFailure
      idRemap := s.idRemap
      assemblies := s.assemblies })

theorem rebuildStep_onto (s : Slice Model Assemblies) (base : ReplayOutcome Assemblies)
    (event : TimelineEvent) :
    kernel.rebuildStep overrides (s.onto base) event =
      (kernel.sliceStep overrides s event).onto base := by
  unfold rebuildStep sliceStep
  by_cases hmeta : event.isParamMeta
  · rw [if_pos hmeta, if_pos hmeta]
    rfl
  · rw [if_neg hmeta, if_neg hmeta]
    rcases hresult : kernel.applyEvent s.model s.assemblies s.idRemap
        ((overrides.overriddenEvent event).getD event) with ⟨_ | err, model, assemblies, idRemap⟩
    · simp only [Slice.onto, hresult, ReplayOutcome.count, Option.or_assoc, Nat.add_assoc]
    · simp only [Slice.onto, hresult, ReplayOutcome.count, Nat.add_assoc]

theorem foldl_rebuildStep_onto (events : List TimelineEvent) (s : Slice Model Assemblies)
    (base : ReplayOutcome Assemblies) :
    events.foldl (kernel.rebuildStep overrides) (s.onto base) =
      (kernel.replaySlice overrides s events).onto base := by
  induction events generalizing s with
  | nil => rfl
  | cons event events ih =>
    rw [List.foldl_cons, rebuildStep_onto, ih]
    rfl

theorem replaySlice_congr (s : Slice Model Assemblies)
    (h : ∀ e ∈ events, overrides.overriddenEvent e = overrides'.overriddenEvent e) :
    kernel.replaySlice overrides s events = kernel.replaySlice overrides' s events := by
  refine List.foldl_ext _ _ s fun s e he ↦ ?_
  rw [sliceStep, sliceStep, h e he]

end Slices

/-! ## Ascending logs -/

/-- A log in ascending sequence order. -/
def Ascending (events : List TimelineEvent) : Prop :=
  events.Pairwise (·.sequenceNumber < ·.sequenceNumber)

instance (events : List TimelineEvent) : Decidable (Ascending events) :=
  inferInstanceAs (Decidable (events.Pairwise (·.sequenceNumber < ·.sequenceNumber)))

omit [FloatDebug] in
theorem filter_append_filter_of_ascending (h : Ascending events) (floor : EventIndex) :
    events.filter (·.sequenceNumber < floor) ++ events.filter (floor ≤ ·.sequenceNumber) =
      events := by
  induction events with
  | nil => rfl
  | cons e events ih =>
    obtain ⟨hhead, htail⟩ := List.pairwise_cons.mp h
    rcases Nat.lt_or_ge e.sequenceNumber floor with hlt | hge
    · rw [List.filter_cons_of_pos (by simpa using hlt),
        List.filter_cons_of_neg (by simpa using hlt), List.cons_append, ih htail]
    · -- Everything after an event at or above the floor is above it.
      have hbelow : events.filter (·.sequenceNumber < floor) = [] :=
        List.filter_eq_nil_iff.mpr fun e' he' ↦ by
          have hlt := hhead e' he'
          simpa using Nat.le_trans hge (Nat.le_of_lt hlt)
      have habove : events.filter (floor ≤ ·.sequenceNumber) = events :=
        List.filter_eq_self.mpr fun e' he' ↦ by
          have hlt := hhead e' he'
          simpa using Nat.le_trans hge (Nat.le_of_lt hlt)
      rw [List.filter_cons_of_neg (by simpa using hge),
        List.filter_cons_of_pos (by simpa using hge), hbelow, habove, List.nil_append]

omit [FloatDebug] in
theorem prefixSignature_of_ascending (h : Ascending events) (floor : EventIndex) :
    prefixSignature events floor =
      (events.filter (·.sequenceNumber < floor)).map fun e ↦ (e.sequenceNumber, e.id.uuid) := by
  refine List.Pairwise.insertionSort_eq ?_
  refine List.pairwise_map.mpr ((h.filter _).imp fun hlt ↦ ?_)
  exact Or.inl hlt

omit [FloatDebug] in
theorem eq_of_map_signature (hids : ∀ e ∈ known, ∀ e' ∈ known, e.id = e'.id → e = e') :
    ∀ {l l' : List TimelineEvent}, (∀ e ∈ l, e ∈ known) → (∀ e ∈ l', e ∈ known) →
      l.map (fun e ↦ (e.sequenceNumber, e.id.uuid)) =
        l'.map (fun e ↦ (e.sequenceNumber, e.id.uuid)) → l = l' := by
  intro l
  induction l with
  | nil =>
    intro l' _ _ h
    exact (List.map_eq_nil_iff.mp h.symm).symm
  | cons e l ih =>
    intro l' hl hl' h
    rcases l' with _ | ⟨e', l'⟩
    · exact absurd h (List.cons_ne_nil _ _)
    · obtain ⟨hhead, htail⟩ := List.cons.inj h
      have hid : e.id = e'.id := by
        rcases e with ⟨⟨u⟩, _⟩
        rcases e' with ⟨⟨u'⟩, _⟩
        exact congrArg Id.mk (Prod.mk.inj hhead).2
      rw [hids e (hl e (by simp)) e' (hl' e' (by simp)) hid,
        ih (fun x hx ↦ hl x (by simp [hx])) (fun x hx ↦ hl' x (by simp [hx])) htail]

/-! ## The cache is sound -/

/-- A cache holds what replaying some known ascending prefix below its floor left. -/
def Sound (known : Set TimelineEvent) (c : PrefixCache Model Assemblies) : Prop :=
  ∃ events, Ascending events ∧ (∀ e ∈ events, e ∈ known) ∧
    c = kernel.memoise events .empty c.floor

theorem memoise_congr {overrides : OverrideSet}
    {floor : EventIndex} (hfloor : overrides.minTargetSequence = some floor) :
    kernel.memoise events overrides floor = kernel.memoise events .empty floor := by
  have hnone : ∀ e ∈ events.filter (·.sequenceNumber < floor),
      overrides.overriddenEvent e = OverrideSet.empty.overriddenEvent e := fun e he ↦ by
    have hlt : e.sequenceNumber < floor := by simpa using (List.mem_filter.mp he).2
    rw [overrides.overriddenEvent_eq_none hfloor hlt, OverrideSet.overriddenEvent_empty]
  have hslice := kernel.replaySlice_congr
    ⟨kernel.newModel, ∅, kernel.noAssemblies, kernel.noOutcome⟩ hnone
  unfold memoise
  rw [hslice]

theorem memoise_eq_of_signature
    (hids : ∀ e ∈ known, ∀ e' ∈ known, e.id = e'.id → e = e') {events events' : List TimelineEvent}
    (hasc : Ascending events) (hasc' : Ascending events') (hknown : ∀ e ∈ events, e ∈ known)
    (hknown' : ∀ e ∈ events', e ∈ known) {overrides : OverrideSet} {floor : EventIndex}
    (h : prefixSignature events floor = prefixSignature events' floor) :
    kernel.memoise events overrides floor = kernel.memoise events' overrides floor := by
  have hpre : events.filter (·.sequenceNumber < floor) =
      events'.filter (·.sequenceNumber < floor) := by
    rw [prefixSignature_of_ascending hasc, prefixSignature_of_ascending hasc'] at h
    exact eq_of_map_signature hids (fun e he ↦ hknown e (List.mem_filter.mp he).1)
      (fun e he ↦ hknown' e (List.mem_filter.mp he).1) h
  unfold memoise
  rw [hpre, h]

/-- **Replaying on from the prefix of a log** is replaying the log. -/
theorem resume_memoise (hrestore : ∀ m, kernel.restore (kernel.take m) kernel.newModel = m)
    (hasc : Ascending events) (floor : EventIndex) :
    kernel.resume (kernel.memoise events (.collect events) floor) (.collect events)
        (events.filter (floor ≤ ·.sequenceNumber)) =
      kernel.rebuildModelFromEvents kernel.newModel events := by
  let start : Slice Model Assemblies :=
    ⟨kernel.newModel, ∅, kernel.noAssemblies, kernel.noOutcome⟩
  let first := kernel.replaySlice (.collect events) start
    (events.filter (·.sequenceNumber < floor))
  let between : Slice Model Assemblies :=
    ⟨first.model, first.idRemap, first.assemblies, kernel.noOutcome⟩
  have hstart : (kernel.newModel, kernel.noOutcome) = start.onto kernel.noOutcome := rfl
  have hbetween : first.onto kernel.noOutcome = between.onto first.outcome := by
    simp only [Slice.onto, noOutcome, between, Nat.zero_add, Nat.add_zero, Option.none_or,
      Option.or_none]
  -- The full replay is cut where the slices are.
  have hfull : kernel.rebuildModelFromEvents kernel.newModel events =
      (kernel.replaySlice (.collect events) between
        (events.filter (floor ≤ ·.sequenceNumber))).onto first.outcome := by
    have hsplit := filter_append_filter_of_ascending hasc floor
    calc kernel.rebuildModelFromEvents kernel.newModel events
        = (events.filter (·.sequenceNumber < floor) ++
            events.filter (floor ≤ ·.sequenceNumber)).foldl
              (kernel.rebuildStep (.collect events)) (start.onto kernel.noOutcome) := by
          rw [hsplit, ← hstart, rebuildModelFromEvents]
      _ = (events.filter (floor ≤ ·.sequenceNumber)).foldl
            (kernel.rebuildStep (.collect events)) (between.onto first.outcome) := by
          rw [List.foldl_append, foldl_rebuildStep_onto, ← hbetween]
      _ = _ := kernel.foldl_rebuildStep_onto _ between first.outcome
  rw [hfull, resume, memoise, hrestore]
  rfl

theorem incrementalRebuild_sound
    (hrestore : ∀ m, kernel.restore (kernel.take m) kernel.newModel = m)
    (hids : ∀ e ∈ known, ∀ e' ∈ known, e.id = e'.id → e = e')
    {cache : Option (PrefixCache Model Assemblies)} (hcache : ∀ c ∈ cache, kernel.Sound known c)
    (hasc : Ascending events) (hknown : ∀ e ∈ events, e ∈ known) :
    let result := kernel.incrementalRebuild events cache
    (result.model, result.outcome) = kernel.rebuildModelFromEvents kernel.newModel events ∧
      ∀ c ∈ result.cache, kernel.Sound known c := by
  unfold incrementalRebuild
  rcases hfloor : (OverrideSet.collect events).minTargetSequence with _ | floor
  · simp only [hfloor]
    exact ⟨trivial, hcache⟩
  · -- Whether it was found or not, the prefix is the one this log would memoise.
    have hcached : (cache.filter fun c ↦ c.floor = floor ∧
        c.signature = prefixSignature events floor).getD
          (kernel.memoise events (.collect events) floor) =
        kernel.memoise events (.collect events) floor := by
      rcases hhit : cache.filter fun c ↦ c.floor = floor ∧
          c.signature = prefixSignature events floor with _ | c
      · rw [hhit, Option.getD_none]
      · rw [hhit, Option.getD_some]
        obtain ⟨hc, hmatch⟩ := Option.filter_eq_some_iff.mp hhit
        obtain ⟨rfl, hsignature⟩ := of_decide_eq_true hmatch
        obtain ⟨events', hasc', hknown', hc'⟩ := hcache c hc
        have hsignature' : prefixSignature events' c.floor = prefixSignature events c.floor := by
          rw [← hsignature, hc']
          rfl
        rw [kernel.memoise_congr hfloor]
        exact hc'.trans
          (kernel.memoise_eq_of_signature hids hasc' hasc hknown' hknown hsignature')
    simp only [hfloor, hcached, kernel.resume_memoise hrestore hasc floor]
    refine ⟨trivial, fun c hc ↦ ?_⟩
    obtain rfl := Option.some.inj hc
    exact ⟨events, hasc, hknown, kernel.memoise_congr hfloor⟩

/-! ## Runs of rebuilds -/

inductive RebuildCall
  | incremental (events : List TimelineEvent)
  | full (events : List TimelineEvent)

def RebuildCall.log : RebuildCall → List TimelineEvent
  | .incremental events => events
  | .full events => events

def cacheAfterCall (cache : Option (PrefixCache Model Assemblies)) :
    RebuildCall → Option (PrefixCache Model Assemblies)
  | .incremental events => (kernel.incrementalRebuild events cache).cache
  | .full _ => cache

/-- The cache a sequence of calls leaves, the first of them finding none. -/
def cacheAfter (calls : List RebuildCall) : Option (PrefixCache Model Assemblies) :=
  calls.foldl kernel.cacheAfterCall none

theorem foldl_cacheAfterCall_sound
    (hrestore : ∀ m, kernel.restore (kernel.take m) kernel.newModel = m)
    (hids : ∀ e ∈ known, ∀ e' ∈ known, e.id = e'.id → e = e')
    {calls : List RebuildCall} (hasc : ∀ call ∈ calls, Ascending call.log)
    (hknown : ∀ call ∈ calls, ∀ e ∈ call.log, e ∈ known) :
    ∀ cache : Option (PrefixCache Model Assemblies), (∀ c ∈ cache, kernel.Sound known c) →
      ∀ c ∈ calls.foldl kernel.cacheAfterCall cache, kernel.Sound known c := by
  induction calls with
  | nil => exact fun cache hcache ↦ hcache
  | cons call calls ih =>
    intro cache hcache
    obtain ⟨hasc, hascs⟩ := List.forall_mem_cons.mp hasc
    obtain ⟨hknown, hknowns⟩ := List.forall_mem_cons.mp hknown
    refine ih hascs hknowns _ ?_
    rcases call with events | events
    · exact (kernel.incrementalRebuild_sound hrestore hids hcache hasc hknown).2
    · exact hcache

end ReplayKernel

/-- **An incremental rebuild is a full replay.** After any sequence of rebuilds, an incremental
rebuild of an ascending log leaves the model, the counts, the remap, the assemblies and the first
failure that replaying the log into an empty model leaves. -/
theorem incrementalRebuild_eq_rebuild [FloatDebug] {Model Assemblies Snapshot : Type*}
    (kernel : ReplayKernel Model Assemblies Snapshot)
    (hrestore : ∀ m, kernel.restore (kernel.take m) kernel.newModel = m)
    (calls : List ReplayKernel.RebuildCall) (events : List TimelineEvent)
    (hasc : ∀ log ∈ events :: calls.map ReplayKernel.RebuildCall.log, ReplayKernel.Ascending log)
    (hids : ∀ log ∈ events :: calls.map ReplayKernel.RebuildCall.log,
      ∀ log' ∈ events :: calls.map ReplayKernel.RebuildCall.log,
        ∀ e ∈ log, ∀ e' ∈ log', e.id = e'.id → e = e') :
    let result := kernel.incrementalRebuild events (kernel.cacheAfter calls)
    (result.model, result.outcome) = kernel.rebuildModelFromEvents kernel.newModel events := by
  let known : Set TimelineEvent :=
    {e | ∃ log ∈ events :: calls.map ReplayKernel.RebuildCall.log, e ∈ log}
  have hknown : ∀ e ∈ known, ∀ e' ∈ known, e.id = e'.id → e = e' := by
    rintro e ⟨log, hlog, he⟩ e' ⟨log', hlog', he'⟩
    exact hids log hlog log' hlog' e he e' he'
  have hcalls : ∀ call ∈ calls, call.log ∈ events :: calls.map ReplayKernel.RebuildCall.log :=
    fun call hcall ↦ List.mem_cons_of_mem _ (List.mem_map_of_mem hcall)
  have hcache := kernel.foldl_cacheAfterCall_sound hrestore hknown
    (fun call hcall ↦ hasc _ (hcalls call hcall))
    (fun call hcall e he ↦ ⟨call.log, hcalls call hcall, he⟩) none
    fun c hc ↦ absurd hc (Option.not_mem_none c)
  exact (kernel.incrementalRebuild_sound hrestore hknown hcache (hasc events (by simp))
    fun e he ↦ ⟨events, by simp, he⟩).1

private def eventKernel : ReplayKernel (List EventId) Unit (List EventId) where
  newModel := []
  noAssemblies := ()
  applyEvent model assemblies idRemap event := (.ok (), model ++ [event.id], assemblies, idRemap)
  take := id
  restore snapshot _ := snapshot

private def mouldedLog (radius : ℚ) (mould : EventId) : List TimelineEvent :=
  let event (id : EventId) (seq : EventIndex) (kind : String) (params : List (String × Json)) :
      TimelineEvent :=
    ⟨id, seq, .system, .generic kind (.object [("params", .object params)]), ⟨[], [], .null⟩,
      ⟨[], [], []⟩, .main⟩
  [event ⟨1⟩ 0 "create_sphere_3d" [("radius", .number (.posInt 4))],
    event ⟨2⟩ 1 "fillet_edges" [("radius", .number (.posInt 1))],
    event mould 2 mouldCommand [("parameter", .string "radius"),
      ("target_sequence", .number (.posInt 1)), ("value", .number (.float radius))]]

/-- A second override of a fillet is rebuilt from the cache the first one left. -/
theorem incrementalRebuild_eq_rebuild_example :
    letI : FloatDebug := ⟨fun x ↦ toString x⟩
    let result := eventKernel.incrementalRebuild (mouldedLog 2 ⟨4⟩)
      (eventKernel.cacheAfter [.incremental (mouldedLog 3 ⟨3⟩)])
    result.stats.cacheHit = true ∧
      (result.model, result.outcome) =
        eventKernel.rebuildModelFromEvents eventKernel.newModel (mouldedLog 2 ⟨4⟩) := by
  let _ : FloatDebug := ⟨fun x ↦ toString x⟩
  refine ⟨by decide, incrementalRebuild_eq_rebuild eventKernel (fun _ ↦ rfl) _ _ (by decide) ?_⟩
  intro log hlog log' hlog' e he e' he' hid
  simp only [List.map_cons, List.map_nil, List.mem_cons, List.not_mem_nil, or_false,
    ReplayKernel.RebuildCall.log] at hlog hlog'
  rcases hlog with rfl | rfl <;> rcases hlog' with rfl | rfl <;>
    simp only [mouldedLog, List.mem_cons, List.not_mem_nil, or_false] at he he' <;>
    rcases he with rfl | rfl | rfl <;> rcases he' with rfl | rfl | rfl <;>
    first | rfl | exact absurd hid (by decide)

end RosheraCad
