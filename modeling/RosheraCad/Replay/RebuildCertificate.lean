import RosheraCad.CanonicalRef
import RosheraCad.Projection.Dependency
import RosheraCad.Replay.Report

/-!
# The rebuild certificate

After a parameter edit the certificate gives every event a verdict: how its own replay went, and
whether the edit reaches it, or whether something above it broke. Only geometry is meant to take
part in the last, but the pass that propagates a break looks at the replay results alone, and a
sheet has one like any other event.
-/

namespace RosheraCad

/-! ## Verdicts -/

inductive FeatureStatus
  | rebuilt
  | unaffected
  | failed (reason : String)
  | dangling (entity : String)
  | blocked (bySequence : EventIndex)
  | stale (reason : String)
  deriving DecidableEq

def FeatureStatus.isBreak : FeatureStatus → Bool
  | .rebuilt | .unaffected | .stale _ => false
  | .failed _ | .dangling _ | .blocked _ => true

structure FeatureVerdict where
  eventId : String
  sequence : EventIndex
  kind : String
  status : FeatureStatus
  deriving DecidableEq

structure RebuildCertificate where
  targetSequence : Option EventIndex
  verdicts : List FeatureVerdict
  dirtySequences : List EventIndex
  isSound : Bool

def isDocumentFeature (kind : String) : Bool := "drawing.".toList.isPrefixOf kind.toList

def TimelineEvent.kind (event : TimelineEvent) : String :=
  match event.operation with
  | .generic commandType _ => commandType
  | _ => "non-generic"

def TimelineEvent.isDocument (event : TimelineEvent) : Bool := isDocumentFeature event.kind

def featureEvents (events : List TimelineEvent) : List TimelineEvent :=
  events.filter fun e ↦ !e.isParamMeta

def EventResult.status : EventResult → Option FeatureStatus
  | .ok => none
  | .failed reason => some (.failed reason)
  | .dangling entity => some (.dangling entity)
  | .stale reason => some (.stale reason)

def TimelineEvent.verdict (event : TimelineEvent) (status : FeatureStatus) : FeatureVerdict :=
  ⟨event.id.toText, event.sequenceNumber, event.kind, status⟩

section Passes

variable [GraphLibrary] [UuidDeriver] (order : EdgeOrder) (events : List TimelineEvent)

def dependentSequences (event : TimelineEvent) : List EventIndex :=
  let seqOfEvent : OrderedMap EventId EventIndex :=
    OrderedMap.insertEntries ∅ ((featureEvents events).map fun e ↦ (e.id, e.sequenceNumber))
  match (Dependency.buildDependencyGraph order events).computeRebuildPlan event.id with
  | .ok plan => plan.filterMap (seqOfEvent[·]?)
  | .error _ => []

def dirtySet (target : Option EventIndex) : OrderedSet EventIndex :=
  match target.bind fun t ↦ (featureEvents events).find? (·.sequenceNumber = t) with
  | some event => (∅ : OrderedSet EventIndex).insertMany
      (event.sequenceNumber :: dependentSequences order events event)
  | none => ∅

def blockedBy (perEvent : OrderedMap EventIndex EventResult) : OrderedMap EventIndex EventIndex :=
  let broken := (featureEvents events).filter fun e ↦
    perEvent[e.sequenceNumber]?.any EventResult.isBroken
  OrderedMap.keepLeast ∅ (broken.flatMap fun b ↦
    (dependentSequences order events b).map fun s ↦ (s, b.sequenceNumber))

/-- First pass: a feature's own status from the replay report and the dirty set. -/
def ownStatus (perEvent : OrderedMap EventIndex EventResult) (target : Option EventIndex)
    (event : TimelineEvent) : FeatureStatus :=
  match perEvent[event.sequenceNumber]?.bind EventResult.status with
  | some status => status
  | none =>
    if target.isSome ∧ event.sequenceNumber ∉ dirtySet order events target then .unaffected
    else .rebuilt

def propagate (blocked : OrderedMap EventIndex EventIndex) (v : FeatureVerdict) : FeatureVerdict :=
  match v.status with
  | .rebuilt | .unaffected =>
    match blocked[v.sequence]? with
    | some bySequence => { v with status := .blocked bySequence }
    | none => v
  | _ => v

def verdictsOf (perEvent : OrderedMap EventIndex EventResult) (target : Option EventIndex) :
    List FeatureVerdict :=
  (((featureEvents events).map fun e ↦ e.verdict (ownStatus order events perEvent target e)).map
    (propagate (blockedBy order events perEvent))).insertionSort fun v w ↦ v.sequence ≤ w.sequence

end Passes

namespace CertificateKernel

variable {Model Assemblies Snapshot Drawing : Type*}
  (kernel : CertificateKernel Model Assemblies Snapshot Drawing)

/-- Re-measured soundness: replay skipped nothing, there is a solid, and the model validates. -/
def measureIsSound (model : Model) (eventsSkipped : ℕ) : Bool :=
  eventsSkipped = 0 && !kernel.hasNoSolids model && kernel.isValid model

variable [FloatDebug] [UuidParser] [GraphLibrary] [UuidDeriver]

/-- Build the certificate for a log after a mould, with the rebuilt model and its sheets. -/
def certifyRebuild (order : EdgeOrder) (events : List TimelineEvent) (target : Option EventIndex) :
    Model × RebuildCertificate × OrderedMap Uuid Drawing :=
  let report := kernel.replayWithReport events
  let verdicts := verdictsOf order events report.perEvent target
  let noGeometryBreak := (verdicts.filter fun v ↦ !isDocumentFeature v.kind).all fun v ↦
    !v.status.isBreak
  (report.model,
    { targetSequence := target
      verdicts
      dirtySequences := (dirtySet order events target).toList
      isSound := noGeometryBreak &&
        kernel.measureIsSound report.model report.outcome.eventsSkipped },
    report.drawings)

end CertificateKernel

/-! ## What a certificate promises -/

def Below (events : List TimelineEvent) (a b : TimelineEvent) : Prop :=
  Relation.TransGen (Dependency.DependsOn events) a.id b.id

def Dirty (events : List TimelineEvent) (target : Option EventIndex) (e : TimelineEvent) : Prop :=
  ∃ t ∈ events, target = some t.sequenceNumber ∧ (t = e ∨ Below events t e)

namespace CertificateKernel

variable {Model Assemblies Snapshot Drawing : Type*}
  (kernel : CertificateKernel Model Assemblies Snapshot Drawing)

section Promise

variable [FloatDebug] [UuidParser] (events : List TimelineEvent)

def Breaks (b : TimelineEvent) : Prop :=
  b ∈ featureEvents events ∧ ∃ r, kernel.ReplaysAs events b r ∧ r.isBroken = true

def Replays (e : TimelineEvent) : Prop :=
  e ∈ featureEvents events ∧ kernel.ReplaysAs events e .ok

def BelowGeometry (e : TimelineEvent) : Prop :=
  ∃ b, kernel.Breaks events b ∧ ¬ b.isDocument ∧ Below events b e

structure VerdictsTrue (target : Option EventIndex) (status : TimelineEvent → FeatureStatus) :
    Prop where
  kept : ∀ e ∈ featureEvents events, ∀ r s, kernel.ReplaysAs events e r → r.status = some s →
    status e = s
  blocked_iff : ∀ e, kernel.Replays events e → ¬ e.isDocument → ∀ s, status e = .blocked s ↔
    IsLeast {w | ∃ b, kernel.Breaks events b ∧ ¬ b.isDocument ∧ Below events b e ∧
      b.sequenceNumber = w} s
  document_free : ∀ e ∈ featureEvents events, e.isDocument → ∀ s, status e ≠ .blocked s
  blocked_by : ∀ e ∈ featureEvents events, ∀ s, status e = .blocked s →
    ∃ b, kernel.Breaks events b ∧ ¬ b.isDocument ∧ b.sequenceNumber = s
  others : ∀ e, kernel.Replays events e → (∀ s, status e ≠ .blocked s) →
    (target.isSome ∧ ¬ Dirty events target e → status e = .unaffected) ∧
      (¬ (target.isSome ∧ ¬ Dirty events target e) → status e = .rebuilt)

structure Certifies (target : Option EventIndex)
    (result : Model × RebuildCertificate × OrderedMap Uuid Drawing) : Prop where
  verdicts : ∃ status, result.2.1.verdicts =
    (featureEvents events).map (fun e ↦ e.verdict (status e)) ∧
      kernel.VerdictsTrue events target status
  ordered : result.2.1.verdicts.Pairwise fun v w ↦ v.sequence < w.sequence
  sound : result.2.1.isSound = true → ∀ v ∈ result.2.1.verdicts, ¬ isDocumentFeature v.kind →
    v.status.isBreak = false
  model_eq : result.1 =
    (kernel.toReplayKernel.rebuildModelFromEvents kernel.newModel events).1

/-- Documents take no part in blocking: a replayed document is below nothing broken, and replayed
geometry below a broken document is below geometry that broke before it. A parameter event that is
targeted has no replayed event below it, unless broken geometry is above that. -/
structure OnlyGeometryBlocks (target : Option EventIndex) : Prop where
  document : ∀ e, kernel.Replays events e → e.isDocument → ∀ b, kernel.Breaks events b →
    ¬ Below events b e
  geometry : ∀ e, kernel.Replays events e → ¬ e.isDocument → ∀ d, kernel.Breaks events d →
    d.isDocument → Below events d e → ∃ b, kernel.Breaks events b ∧ ¬ b.isDocument ∧
      Below events b e ∧ b.sequenceNumber < d.sequenceNumber
  meta_target : ∀ t ∈ events, t.isParamMeta → target = some t.sequenceNumber →
    ∀ e, kernel.Replays events e → Below events t e → kernel.BelowGeometry events e

end Promise

end CertificateKernel

/-! ## What the passes compute -/

variable {e : TimelineEvent}

theorem mem_featureEvents {events : List TimelineEvent} :
    e ∈ featureEvents events ↔ e ∈ events ∧ ¬ e.isParamMeta := by
  rw [featureEvents, List.mem_filter, Bool.not_eq_true', Bool.not_eq_true]

section Passes

variable [GraphLibrary] [LawfulGraphLibrary] [UuidDeriver] {order : EdgeOrder}
  {events : List TimelineEvent}

theorem mem_dependentSequences (h : AppendOrder events) (he : e ∈ events)
    {s : EventIndex} : s ∈ dependentSequences order events e ↔
      ∃ d ∈ featureEvents events, Below events e d ∧ d.sequenceNumber = s := by
  obtain ⟨plan, hplan, hmem⟩ :=
    Dependency.exists_rebuildPlan order h (List.mem_map_of_mem (f := (·.id)) he)
  have hindex (id : EventId) (s : EventIndex) : (OrderedMap.insertEntries ∅
      ((featureEvents events).map fun e ↦ (e.id, e.sequenceNumber)))[id]? = some s ↔
        ∃ d ∈ featureEvents events, d.id = id ∧ d.sequenceNumber = s := by
    rw [OrderedMap.getElem?_insertEntries_iff]
    · simp
    · intro id v w hv hw
      obtain ⟨d, hd, hdv⟩ := List.mem_map.mp hv
      obtain ⟨d', hd', hdw⟩ := List.mem_map.mp hw
      obtain ⟨rfl, rfl⟩ := Prod.mk.inj hdv
      obtain ⟨hid, rfl⟩ := Prod.mk.inj hdw
      rw [h.eq_of_id (mem_featureEvents.mp hd').1 (mem_featureEvents.mp hd).1 hid]
  simp only [dependentSequences, hplan, List.mem_filterMap, hindex, hmem]
  constructor
  · rintro ⟨_, hbelow, d, hd, rfl, hs⟩
    exact ⟨d, hd, hbelow, hs⟩
  · rintro ⟨d, hd, hbelow, hs⟩
    exact ⟨d.id, hbelow, d, hd, rfl, hs⟩

theorem mem_dirtySet (h : AppendOrder events) {target : Option EventIndex}
    (he : e ∈ featureEvents events) : e.sequenceNumber ∈ dirtySet order events target ↔
      ∃ t ∈ featureEvents events, target = some t.sequenceNumber ∧ (t = e ∨ Below events t e) := by
  have hunique {a b : TimelineEvent} (ha : a ∈ featureEvents events)
      (hb : b ∈ featureEvents events) (hab : a.sequenceNumber = b.sequenceNumber) : a = b :=
    h.eq_of_sequence (mem_featureEvents.mp ha).1 (mem_featureEvents.mp hb).1 hab
  rw [dirtySet]
  cases hfind : target.bind fun t ↦ (featureEvents events).find? (·.sequenceNumber = t) with
  | none =>
    refine iff_of_false Std.ExtTreeSet.not_mem_empty ?_
    rintro ⟨t, ht, rfl, -⟩
    rw [Option.bind_some, List.find?_eq_none] at hfind
    exact hfind t ht (decide_eq_true rfl)
  | some t =>
    obtain ⟨seq, rfl, hfound⟩ := Option.bind_eq_some_iff.mp hfind
    have ht := List.mem_of_find?_eq_some hfound
    have hseq : t.sequenceNumber = seq := by simpa using List.find?_some hfound
    subst hseq
    rw [OrderedSet.mem_insertMany, List.mem_cons,
      mem_dependentSequences h (mem_featureEvents.mp ht).1]
    constructor
    · rintro (hmem | heq | ⟨d, hd, hbelow, hseq⟩)
      · exact absurd hmem Std.ExtTreeSet.not_mem_empty
      · exact ⟨t, ht, rfl, .inl (hunique ht he heq.symm)⟩
      · exact ⟨t, ht, rfl, .inr (hunique hd he hseq ▸ hbelow)⟩
    · rintro ⟨t', ht', hseq, hreach⟩
      obtain rfl := hunique ht ht' (Option.some_inj.mp hseq)
      rcases hreach with rfl | hbelow
      · exact .inr (.inl rfl)
      · exact .inr (.inr ⟨e, he, hbelow, rfl⟩)

/-- **The second pass finds the first break above an event.** -/
theorem blockedBy_cases (order : EdgeOrder) (h : AppendOrder events)
    (perEvent : OrderedMap EventIndex EventResult)
    (he : e ∈ featureEvents events) :
    ((blockedBy order events perEvent)[e.sequenceNumber]? = none ∧
      ∀ b ∈ featureEvents events, perEvent[b.sequenceNumber]?.any EventResult.isBroken = true →
        ¬ Below events b e) ∨
      ∃ s, (blockedBy order events perEvent)[e.sequenceNumber]? = some s ∧
        IsLeast {w | ∃ b ∈ featureEvents events,
          perEvent[b.sequenceNumber]?.any EventResult.isBroken = true ∧ Below events b e ∧
            b.sequenceNumber = w} s := by
  have hpairs (w : EventIndex) : (e.sequenceNumber, w) ∈ ((featureEvents events).filter fun e ↦
      perEvent[e.sequenceNumber]?.any EventResult.isBroken).flatMap (fun b ↦
        (dependentSequences order events b).map fun s ↦ (s, b.sequenceNumber)) ↔
      ∃ b ∈ featureEvents events, perEvent[b.sequenceNumber]?.any EventResult.isBroken = true ∧
        Below events b e ∧ b.sequenceNumber = w := by
    simp only [List.mem_flatMap, List.mem_filter, List.mem_map, Prod.mk.injEq]
    constructor
    · rintro ⟨b, ⟨hb, hbroken⟩, s, hs, rfl, rfl⟩
      obtain ⟨d, hd, hbelow, hseq⟩ :=
        (mem_dependentSequences h (mem_featureEvents.mp hb).1).mp hs
      obtain rfl := h.eq_of_sequence (mem_featureEvents.mp hd).1 (mem_featureEvents.mp he).1 hseq
      exact ⟨b, hb, hbroken, hbelow, rfl⟩
    · rintro ⟨b, hb, hbroken, hbelow, rfl⟩
      exact ⟨b, ⟨hb, hbroken⟩, e.sequenceNumber,
        (mem_dependentSequences h (mem_featureEvents.mp hb).1).mpr ⟨e, he, hbelow, rfl⟩, rfl, rfl⟩
  rw [blockedBy]
  rcases OrderedMap.keepLeast_cases (((featureEvents events).filter fun e ↦
      perEvent[e.sequenceNumber]?.any EventResult.isBroken).flatMap fun b ↦
        (dependentSequences order events b).map fun s ↦ (s, b.sequenceNumber))
      e.sequenceNumber with ⟨hnone, hempty⟩ | ⟨s, hs, hleast⟩
  · exact .inl ⟨hnone, fun b hb hbroken hbelow ↦
      hempty b.sequenceNumber ((hpairs _).mpr ⟨b, hb, hbroken, hbelow, rfl⟩)⟩
  · simp only [hpairs] at hleast
    exact .inr ⟨s, hs, hleast⟩

end Passes

namespace CertificateKernel

variable {Model Assemblies Snapshot Drawing : Type*}
  {kernel : CertificateKernel Model Assemblies Snapshot Drawing} [FloatDebug] [UuidParser]
  [GraphLibrary] [UuidDeriver] {order : EdgeOrder} {events : List TimelineEvent}
  {target : Option EventIndex}

def givenStatus (kernel : CertificateKernel Model Assemblies Snapshot Drawing) (order : EdgeOrder)
    (events : List TimelineEvent) (target : Option EventIndex) (e : TimelineEvent) :
    FeatureStatus :=
  let perEvent := (kernel.replayWithReport events).perEvent
  (propagate (blockedBy order events perEvent)
    (e.verdict (ownStatus order events perEvent target e))).status

omit [FloatDebug] [UuidParser] [GraphLibrary] [UuidDeriver] in
theorem propagate_verdict (blocked : OrderedMap EventIndex EventIndex) (e : TimelineEvent)
    (status : FeatureStatus) : propagate blocked (e.verdict status) =
      e.verdict (propagate blocked (e.verdict status)).status := by
  rw [propagate]
  split
  · split <;> rfl
  · split <;> rfl
  · rfl

theorem verdictsOf_eq (h : AppendOrder events) :
    verdictsOf order events (kernel.replayWithReport events).perEvent target =
      (featureEvents events).map fun e ↦ e.verdict (kernel.givenStatus order events target e) := by
  have hmap : ((featureEvents events).map fun e ↦ e.verdict
      (ownStatus order events (kernel.replayWithReport events).perEvent target e)).map
        (propagate (blockedBy order events (kernel.replayWithReport events).perEvent)) =
      (featureEvents events).map fun e ↦
        e.verdict (kernel.givenStatus order events target e) := by
    rw [List.map_map]
    exact List.map_congr_left fun e _ ↦ propagate_verdict _ e _
  rw [verdictsOf, hmap]
  refine List.Pairwise.insertionSort_eq (List.pairwise_map.mpr ?_)
  exact (h.ascending.sublist List.filter_sublist).imp fun hlt ↦ hlt.le

omit [GraphLibrary] [UuidDeriver] in
theorem perEvent_iff (h : AppendOrder events) (he : e ∈ featureEvents events)
    {r : EventResult} : (kernel.replayWithReport events).perEvent[e.sequenceNumber]? = some r ↔
      kernel.ReplaysAs events e r :=
  perEvent_eq_some_iff kernel h.ascending (mem_featureEvents.mp he).1 (mem_featureEvents.mp he).2

omit [GraphLibrary] [UuidDeriver] in
theorem any_isBroken_iff (h : AppendOrder events) {b : TimelineEvent}
    (hb : b ∈ featureEvents events) :
    (kernel.replayWithReport events).perEvent[b.sequenceNumber]?.any EventResult.isBroken = true ↔
      kernel.Breaks events b := by
  rw [Option.any_eq_true]
  constructor
  · rintro ⟨r, hr, hbroken⟩
    exact ⟨hb, r, (perEvent_iff h hb).mp hr, hbroken⟩
  · rintro ⟨-, r, hr, hbroken⟩
    exact ⟨r, (perEvent_iff h hb).mpr hr, hbroken⟩

theorem givenStatus_kept (h : AppendOrder events)
    (he : e ∈ featureEvents events) {r : EventResult} {s : FeatureStatus}
    (hr : kernel.ReplaysAs events e r) (hs : r.status = some s) :
    kernel.givenStatus order events target e = s := by
  have hown : ownStatus order events (kernel.replayWithReport events).perEvent target e = s := by
    rw [ownStatus, (perEvent_iff h he).mpr hr, Option.bind_some, hs]
  rw [givenStatus, hown, propagate]
  cases r with
  | ok => cases hs
  | failed reason =>
    obtain rfl := Option.some_inj.mp hs
    rfl
  | dangling entity =>
    obtain rfl := Option.some_inj.mp hs
    rfl
  | stale reason =>
    obtain rfl := Option.some_inj.mp hs
    rfl

def DirtyFeature (events : List TimelineEvent) (target : Option EventIndex) (e : TimelineEvent) :
    Prop :=
  ∃ t ∈ featureEvents events, target = some t.sequenceNumber ∧ (t = e ∨ Below events t e)

/-- **The verdict of an event that replayed**: blocked by the first break above it, whatever kind of
event that is, and otherwise settled by the dirty set. -/
theorem givenStatus_cases [LawfulGraphLibrary] (order : EdgeOrder) (target : Option EventIndex)
    (h : AppendOrder events)
    (he : kernel.Replays events e) :
    ((∀ b, kernel.Breaks events b → ¬ Below events b e) ∧
      (target.isSome ∧ ¬ DirtyFeature events target e →
        kernel.givenStatus order events target e = .unaffected) ∧
      (¬ (target.isSome ∧ ¬ DirtyFeature events target e) →
        kernel.givenStatus order events target e = .rebuilt)) ∨
      ∃ s, kernel.givenStatus order events target e = .blocked s ∧
        IsLeast {w | ∃ b, kernel.Breaks events b ∧ Below events b e ∧ b.sequenceNumber = w} s := by
  obtain ⟨hfeature, hok⟩ := he
  have hdirty : target.isSome ∧ e.sequenceNumber ∉ dirtySet order events target ↔
      target.isSome ∧ ¬ DirtyFeature events target e := by
    rw [mem_dirtySet h hfeature, DirtyFeature]
  have hown : ownStatus order events (kernel.replayWithReport events).perEvent target e =
      if target.isSome ∧ e.sequenceNumber ∉ dirtySet order events target then .unaffected
      else .rebuilt := by
    rw [ownStatus, (perEvent_iff h hfeature).mpr hok]
    rfl
  have hset (w : EventIndex) : (∃ b ∈ featureEvents events,
      (kernel.replayWithReport events).perEvent[b.sequenceNumber]?.any EventResult.isBroken = true ∧
        Below events b e ∧ b.sequenceNumber = w) ↔
      ∃ b, kernel.Breaks events b ∧ Below events b e ∧ b.sequenceNumber = w :=
    exists_congr fun b ↦
      ⟨fun ⟨hb, hbroken, hrest⟩ ↦ ⟨(any_isBroken_iff h hb).mp hbroken, hrest⟩,
        fun ⟨hbroken, hrest⟩ ↦ ⟨hbroken.1, (any_isBroken_iff h hbroken.1).mpr hbroken, hrest⟩⟩
  rcases blockedBy_cases order h (kernel.replayWithReport events).perEvent hfeature with
    ⟨hnone, hfree⟩ | ⟨s, hs, hleast⟩
  · refine .inl ⟨fun b hb ↦ hfree b hb.1 ((any_isBroken_iff h hb.1).mpr hb), ?_, ?_⟩
    · intro hclean
      rw [givenStatus, hown, if_pos (hdirty.mpr hclean)]
      simp only [propagate, TimelineEvent.verdict, hnone]
    · intro hreached
      rw [givenStatus, hown, if_neg (mt hdirty.mp hreached)]
      simp only [propagate, TimelineEvent.verdict, hnone]
  · simp only [hset] at hleast
    refine .inr ⟨s, ?_, hleast⟩
    rw [givenStatus, hown]
    split_ifs
    · simp only [propagate, TimelineEvent.verdict, hs]
    · simp only [propagate, TimelineEvent.verdict, hs]

omit [GraphLibrary] [UuidDeriver] in
theorem exists_replaysAs (kernel : CertificateKernel Model Assemblies Snapshot Drawing)
    (he : e ∈ featureEvents events) :
    ∃ r, kernel.ReplaysAs events e r := by
  obtain ⟨i, hi⟩ := List.mem_iff_getElem?.mp (mem_featureEvents.mp he).1
  exact ⟨_, i, hi, rfl⟩

theorem replays_of_blocked (h : AppendOrder events) (he : e ∈ featureEvents events) {s : EventIndex}
    (hs : kernel.givenStatus order events target e = .blocked s) : kernel.Replays events e := by
  obtain ⟨r, hr⟩ := exists_replaysAs kernel he
  cases r with
  | ok => exact ⟨he, hr⟩
  | failed reason => cases hs.symm.trans (givenStatus_kept h he hr rfl)
  | dangling entity => cases hs.symm.trans (givenStatus_kept h he hr rfl)
  | stale reason => cases hs.symm.trans (givenStatus_kept h he hr rfl)

omit [FloatDebug] [UuidParser] [GraphLibrary] [UuidDeriver] in
theorem dirty_iff (he : e ∈ featureEvents events) : Dirty events target e ↔
    DirtyFeature events target e ∨
      ∃ t ∈ events, t.isParamMeta ∧ target = some t.sequenceNumber ∧ Below events t e := by
  constructor
  · rintro ⟨t, ht, htarget, hreach⟩
    by_cases hmeta : t.isParamMeta
    · refine .inr ⟨t, ht, hmeta, htarget, hreach.resolve_left ?_⟩
      rintro rfl
      exact (mem_featureEvents.mp he).2 hmeta
    · exact .inl ⟨t, mem_featureEvents.mpr ⟨ht, hmeta⟩, htarget, hreach⟩
  · rintro (⟨t, ht, htarget, hreach⟩ | ⟨t, ht, -, htarget, hbelow⟩)
    · exact ⟨t, (mem_featureEvents.mp ht).1, htarget, hreach⟩
    · exact ⟨t, ht, htarget, .inr hbelow⟩

/-! ## Where the verdicts are true -/

omit [GraphLibrary] [UuidDeriver] in
theorem VerdictsTrue.congr {status status' : TimelineEvent → FeatureStatus}
    (htrue : kernel.VerdictsTrue events target status)
    (hsame : ∀ e ∈ featureEvents events, status e = status' e) :
    kernel.VerdictsTrue events target status' where
  kept e he r s hr hs := (hsame e he).symm.trans (htrue.kept e he r s hr hs)
  blocked_iff e he hgeometry s := by
    rw [← hsame e he.1]
    exact htrue.blocked_iff e he hgeometry s
  document_free e he hdoc s := by
    rw [← hsame e he]
    exact htrue.document_free e he hdoc s
  blocked_by e he s hs := htrue.blocked_by e he s ((hsame e he).trans hs)
  others e he hnot := by
    rw [← hsame e he.1] at hnot ⊢
    exact htrue.others e he hnot

theorem VerdictsTrue.onlyGeometryBlocks [LawfulGraphLibrary] (h : AppendOrder events)
    (htrue : kernel.VerdictsTrue events target (kernel.givenStatus order events target)) :
    kernel.OnlyGeometryBlocks events target where
  document e he hdoc b hb hbelow := by
    rcases givenStatus_cases order target h he with
      ⟨hfree, -⟩ | ⟨s, hs, -⟩
    · exact hfree b hb hbelow
    · exact htrue.document_free e he.1 hdoc s hs
  geometry e he hgeometry d hd hdoc hbelow := by
    rcases givenStatus_cases order target h he with
      ⟨hfree, -⟩ | ⟨s, hs, -, hleast⟩
    · exact absurd hbelow (hfree d hd)
    · obtain ⟨⟨b, hb, hbgeometry, hbbelow, rfl⟩, -⟩ := (htrue.blocked_iff e he hgeometry s).mp hs
      refine ⟨b, hb, hbgeometry, hbbelow, lt_of_le_of_ne (hleast ⟨d, hd, hbelow, rfl⟩) fun heq ↦ ?_⟩
      obtain rfl :=
        h.eq_of_sequence (mem_featureEvents.mp hb.1).1 (mem_featureEvents.mp hd.1).1 heq
      exact hbgeometry hdoc
  meta_target t ht hmeta htarget e he hbelow := by
    by_contra hnone
    have hdirty : Dirty events target e := ⟨t, ht, htarget, .inr hbelow⟩
    -- No event that has a verdict is at the target's sequence.
    have hclean : ¬ DirtyFeature events target e := by
      rintro ⟨t', ht', htarget', -⟩
      obtain rfl := h.eq_of_sequence ht (mem_featureEvents.mp ht').1
        (Option.some_inj.mp (htarget.symm.trans htarget'))
      exact (mem_featureEvents.mp ht').2 hmeta
    rcases givenStatus_cases order target h he with
      ⟨-, hunaffected, -⟩ | ⟨s, hs, -⟩
    · have hgiven := hunaffected ⟨by rw [htarget]; rfl, hclean⟩
      have hrebuilt := (htrue.others e he fun s hs ↦ by cases hgiven.symm.trans hs).2
        fun hcase ↦ hcase.2 hdirty
      cases hgiven.symm.trans hrebuilt
    · by_cases hdoc : e.isDocument
      · exact htrue.document_free e he.1 hdoc s hs
      · obtain ⟨⟨b, hb, hgeometry, hbbelow, -⟩, -⟩ := (htrue.blocked_iff e he hdoc s).mp hs
        exact hnone ⟨b, hb, hgeometry, hbbelow⟩

namespace OnlyGeometryBlocks

omit [GraphLibrary] [UuidDeriver] in
theorem isLeast_geometry (honly : kernel.OnlyGeometryBlocks events target)
    (he : kernel.Replays events e) (hgeometry : ¬ e.isDocument) {s : EventIndex}
    (hs : IsLeast {w | ∃ b, kernel.Breaks events b ∧ Below events b e ∧ b.sequenceNumber = w} s) :
    IsLeast {w | ∃ b, kernel.Breaks events b ∧ ¬ b.isDocument ∧ Below events b e ∧
      b.sequenceNumber = w} s := by
  obtain ⟨⟨b, hb, hbelow, rfl⟩, hleast⟩ := hs
  refine ⟨⟨b, hb, fun hdoc ↦ ?_, hbelow, rfl⟩, ?_⟩
  · obtain ⟨b', hb', -, hbelow', hlt⟩ := honly.geometry e he hgeometry b hb hdoc hbelow
    exact (hleast ⟨b', hb', hbelow', rfl⟩).not_gt hlt
  · rintro w ⟨b', hb', -, hbelow', rfl⟩
    exact hleast ⟨b', hb', hbelow', rfl⟩

theorem verdictsTrue [LawfulGraphLibrary] (honly : kernel.OnlyGeometryBlocks events target)
    (h : AppendOrder events) :
    kernel.VerdictsTrue events target (kernel.givenStatus order events target) := by
  -- No document event is blocked, and geometry is blocked by geometry.
  have hfree : ∀ e ∈ featureEvents events, e.isDocument → ∀ s,
      kernel.givenStatus order events target e ≠ .blocked s := by
    intro e he hdoc s hs
    have hreplays := replays_of_blocked h he hs
    rcases givenStatus_cases order target h hreplays with
      ⟨-, hunaffected, hrebuilt⟩ | ⟨s, -, ⟨b, hb, hbelow, -⟩, -⟩
    · by_cases hcase : target.isSome ∧ ¬ DirtyFeature events target e
      · cases hs.symm.trans (hunaffected hcase)
      · cases hs.symm.trans (hrebuilt hcase)
    · exact honly.document e hreplays hdoc b hb hbelow
  have hblocked : ∀ e, kernel.Replays events e → ¬ e.isDocument → ∀ s,
      kernel.givenStatus order events target e = .blocked s ↔
        IsLeast {w | ∃ b, kernel.Breaks events b ∧ ¬ b.isDocument ∧ Below events b e ∧
          b.sequenceNumber = w} s := by
    intro e he hgeometry s
    rcases givenStatus_cases order target h he with
      ⟨hnone, hunaffected, hrebuilt⟩ | ⟨first, hfirst, hleast⟩
    · refine iff_of_false (fun hs ↦ ?_) ?_
      · by_cases hcase : target.isSome ∧ ¬ DirtyFeature events target e
        · cases hs.symm.trans (hunaffected hcase)
        · cases hs.symm.trans (hrebuilt hcase)
      · rintro ⟨⟨b, hb, -, hbelow, -⟩, -⟩
        exact hnone b hb hbelow
    · have hgeo := honly.isLeast_geometry he hgeometry hleast
      rw [hfirst, FeatureStatus.blocked.injEq]
      exact ⟨fun heq ↦ heq ▸ hgeo, hgeo.unique⟩
  constructor
  · intro e he r s hr hs
    exact givenStatus_kept h he hr hs
  · exact hblocked
  · exact hfree
  · intro e he s hs
    have hgeometry : ¬ e.isDocument := fun hdoc ↦ hfree e he hdoc s hs
    obtain ⟨⟨b, hb, hbgeometry, -, hseq⟩, -⟩ :=
      (hblocked e (replays_of_blocked h he hs) hgeometry s).mp hs
    exact ⟨b, hb, hbgeometry, hseq⟩
  · intro e he hnot
    rcases givenStatus_cases order target h he with
      ⟨hnone, hunaffected, hrebuilt⟩ | ⟨s, hs, -⟩
    · -- A parameter event above `e` would have broken geometry above `e` as well.
      have hiff : Dirty events target e ↔ DirtyFeature events target e := by
        rw [dirty_iff he.1, or_iff_left]
        rintro ⟨t, ht, hmeta, htarget, hbelow⟩
        obtain ⟨b, hb, -, hbbelow⟩ := honly.meta_target t ht hmeta htarget e he hbelow
        exact hnone b hb hbbelow
      rw [hiff]
      exact ⟨hunaffected, hrebuilt⟩
    · exact absurd hs (hnot s)

end OnlyGeometryBlocks

theorem isBreak_of_isSound (hsound : (kernel.certifyRebuild order events target).2.1.isSound = true)
    {v : FeatureVerdict} (hv : v ∈ (kernel.certifyRebuild order events target).2.1.verdicts)
    (hgeometry : ¬ isDocumentFeature v.kind) : v.status.isBreak = false := by
  rw [certifyRebuild] at hsound hv
  dsimp only at hsound hv
  rw [Bool.and_eq_true, List.all_eq_true] at hsound
  have hbreak := hsound.1 v (List.mem_filter.mpr ⟨hv, by simpa using hgeometry⟩)
  rwa [Bool.not_eq_true'] at hbreak

theorem certifies_iff_verdictsTrue [LawfulEventKey kernel.toGeometryKernel]
    (h : AppendOrder events) :
    kernel.Certifies events target (kernel.certifyRebuild order events target) ↔
      kernel.VerdictsTrue events target (kernel.givenStatus order events target) := by
  have hverdicts : (kernel.certifyRebuild order events target).2.1.verdicts =
      (featureEvents events).map fun e ↦ e.verdict (kernel.givenStatus order events target e) :=
    verdictsOf_eq h
  constructor
  · rintro ⟨⟨status, hstatus, htrue⟩, -, -, -⟩
    refine htrue.congr fun e he ↦ ?_
    have hverdict := List.map_inj_left.mp (hstatus.symm.trans hverdicts) e he
    exact (FeatureVerdict.mk.inj hverdict).2.2.2
  · intro htrue
    have hordered : (kernel.certifyRebuild order events target).2.1.verdicts.Pairwise
        fun v w ↦ v.sequence < w.sequence := by
      rw [hverdicts]
      exact List.pairwise_map.mpr (h.ascending.sublist List.filter_sublist)
    constructor
    · exact ⟨_, hverdicts, htrue⟩
    · exact hordered
    · exact fun hsound v hv hgeometry ↦ isBreak_of_isSound hsound hv hgeometry
    · exact replayWithReport_model kernel events

/-- **A certificate is what it should be exactly where documents take no part in blocking**, and a
parameter event that is targeted has no unblocked event below it. -/
theorem certifies_iff [LawfulGraphLibrary] [LawfulEventKey kernel.toGeometryKernel]
    (order : EdgeOrder) {events : List TimelineEvent} (h : AppendOrder events)
    (target : Option EventIndex) :
    kernel.Certifies events target (kernel.certifyRebuild order events target) ↔
      kernel.OnlyGeometryBlocks events target :=
  (certifies_iff_verdictsTrue h).trans ⟨fun htrue ↦ htrue.onlyGeometryBlocks h,
    fun honly ↦ honly.verdictsTrue h⟩

end CertificateKernel

/-! ## Example certificates -/

namespace CertificateKernel

/-- A kernel that counts its solids and refuses every edit. Its sheets are empty, and pass. -/
def refusingKernel : CertificateKernel ℕ Unit ℕ Unit where
  newModel := 0
  noAssemblies := ()
  take := id
  restore snapshot _ := snapshot
  setEventKey _ model := model
  create _ _ model := (.ok (.solid (BitVec.ofNat 32 model)), model + 1)
  build _ _ _ model := (.ok (BitVec.ofNat 32 model), model + 1)
  edit kind _ _ model := (.error (.kernelError kind "Invalid radius: 9"), model)
  containsSolid model solid := solid.toNat < model
  deleteSolid _ _ model := (.ok (), model)
  dispatchAssembly _ _ assemblies := (.ok (), assemblies)
  standardDrawingAuto _ _ _ := .ok ()
  setDrawingId _ sheet := sheet
  verifyDrawing _ := (true, 0)
  hasNoSolids model := model = 0
  isValid _ := true

instance : LawfulEventKey refusingKernel.toGeometryKernel := ⟨fun _ _ ↦ rfl, rfl⟩

/-- A box, a fillet of it that no longer fits, and an event whose payload names the box. -/
def filletedLog (kind key output : String) : List TimelineEvent :=
  [.ofWire 0 "create_box_3d" [] ["solid:0"],
    .ofWire 1 "fillet_edges" ["solid:0", "edge:4"] ["solid:0"],
    { TimelineEvent.ofWire 2 kind [] [] with
      operation := .generic kind (.object [("inputs", .ofStrings ["solid:0"]),
        ("outputs", .ofStrings [output]), ("params", .object [(key, .number (.posInt 0))])]) }]

def copiedLog : List TimelineEvent :=
  filletedLog "deep_clone_solid" "source_solid_id" "solid:1"

def sheetLog : List TimelineEvent :=
  filletedLog "drawing.create_from_part" "solid_id" "drawing:00000000-0000-0000-0000-000000000007"

/-- The copy is blocked by the fillet. -/
theorem certifies_copiedLog :
    letI := kahnLibrary
    letI := Dependency.nilDeriver
    letI : FloatDebug := ⟨fun x ↦ toString x⟩
    letI := KernelRef.hyphenatedUuids
    refusingKernel.Certifies copiedLog (some 0)
      (refusingKernel.certifyRebuild Dependency.sameOrder copiedLog (some 0)) := by
  let _ := kahnLibrary
  let _ := Dependency.nilDeriver
  let _ : FloatDebug := ⟨fun x ↦ toString x⟩
  let _ := KernelRef.hyphenatedUuids
  have := kahnLibrary_lawful
  have hgeometry : ∀ e ∈ featureEvents copiedLog, ¬ e.isDocument := by decide
  have hfeature : ∀ e ∈ copiedLog, ¬ e.isParamMeta := by decide
  exact (certifies_iff Dependency.sameOrder ⟨by decide, by decide⟩ (some 0)).mpr
    { document := fun e he hdoc ↦ absurd hdoc (hgeometry e he.1)
      geometry := fun e _ _ d hd hdoc ↦ absurd hdoc (hgeometry d hd.1)
      meta_target := fun t ht hmeta ↦ absurd hmeta (hfeature t ht) }

theorem status_sheetLog :
    letI := kahnLibrary
    letI := Dependency.nilDeriver
    letI : FloatDebug := ⟨fun x ↦ toString x⟩
    letI := KernelRef.hyphenatedUuids
    (refusingKernel.certifyRebuild Dependency.sameOrder sheetLog (some 0)).2.1.verdicts.map
        (·.status) =
      [.rebuilt, .failed "kernel rejected operation fillet_edges: Invalid radius: 9",
        .blocked 1] := by
  decide +kernel

/-- **A blocked sheet**: it is derived anew, and blocked by the fillet none the less. -/
theorem sheetLog_not_certifies :
    letI := kahnLibrary
    letI := Dependency.nilDeriver
    letI : FloatDebug := ⟨fun x ↦ toString x⟩
    letI := KernelRef.hyphenatedUuids
    ¬ refusingKernel.Certifies sheetLog (some 0)
      (refusingKernel.certifyRebuild Dependency.sameOrder sheetLog (some 0)) := by
  let _ := kahnLibrary
  let _ := Dependency.nilDeriver
  let _ : FloatDebug := ⟨fun x ↦ toString x⟩
  let _ := KernelRef.hyphenatedUuids
  rintro ⟨⟨status, hverdicts, htrue⟩, -, -, -⟩
  have hstatus := congrArg (·[2]?) status_sheetLog
  have hfeatures : featureEvents sheetLog = sheetLog := rfl
  have hsheet : sheetLog[2]? = some sheetLog[2] := rfl
  have hmem : sheetLog[2] ∈ featureEvents sheetLog := by
    rw [hfeatures]
    exact List.getElem_mem _
  simp only [hverdicts, hfeatures, List.getElem?_map, hsheet, Option.map_some] at hstatus
  exact htrue.document_free _ hmem (by decide) 1 (Option.some_inj.mp hstatus)

end CertificateKernel

end RosheraCad
