import Mathlib.Logic.Equiv.List
import RosheraCad.Storage.EventLog
import RosheraCad.Timeline.State

/-!
# Storage index

The index keeps where each event is written, which stand on each branch, and which created or
modified each entity. It saves itself on every hundredth event, without the events that modified an
entity; a rebuild clears the maps and looks for the segments above the directory the log writes to.
-/

namespace RosheraCad

/-! ## Files -/

structure FileCodec (α : Type) where
  serialize : α → Except String Bytes
  deserialize : Bytes → Except String α

/-- Every value is serialized, and read back. -/
def FileCodec.RoundTrips {α : Type} (codec : FileCodec α) : Prop :=
  ∀ a, ∃ data, codec.serialize a = .ok data ∧ codec.deserialize data = .ok a

/-- Index snapshot for persistence. The time it was taken at is written too, and never read. -/
structure IndexSnapshot where
  eventCount : ℕ

/-- What the index uses of the serialization library: one codec for each of its files. -/
class IndexCodec where
  snapshot : FileCodec IndexSnapshot
  locations : FileCodec (List (EventId × EventLocation))
  branchEvents : FileCodec (List (BranchId × List (ℕ × EventId)))
  entityCreators : FileCodec (List (EntityId × List EventId))

/-- The library round-trips. -/
class LawfulIndexCodec [IndexCodec] : Prop where
  snapshot : IndexCodec.snapshot.RoundTrips
  locations : IndexCodec.locations.RoundTrips
  branchEvents : IndexCodec.branchEvents.RoundTrips
  entityCreators : IndexCodec.entityCreators.RoundTrips

abbrev Files := OrderedMap String Bytes

def Files.writeAll (files : Files) :
    List (String × Except String Bytes) → Files × Except EventLogError Unit
  | [] => (files, .ok ())
  | (_, .error message) :: _ => (files, .error (.serializationError message))
  | (name, .ok data) :: rest => writeAll (files.insert name data) rest

def Files.read {α : Type} (files : Files) (codec : FileCodec α) (name : String) :
    Except EventLogError (Option α) :=
  match files[name]? with
  | none => .ok none
  | some data => ((codec.deserialize data).mapError .serializationError).map some

/-! ## The index -/

/-- Index for fast event lookups. -/
structure StorageIndex where
  eventLocations : OrderedMap EventId EventLocation
  branchEvents : OrderedMap BranchId (OrderedMap ℕ EventId)
  entityCreators : OrderedMap EntityId (List EventId)
  entityModifiers : OrderedMap EntityId (List EventId)
  eventCount : ℕ

namespace StorageIndex

def empty : StorageIndex := ⟨∅, ∅, ∅, ∅, 0⟩

variable (index : StorageIndex)

def insertEvent (event : TimelineEvent) (location : EventLocation) : StorageIndex where
  eventLocations := index.eventLocations.insert event.id location
  branchEvents := index.branchEvents.insert event.branchId
    ((index.branchEvents[event.branchId]?.getD ∅).insert event.sequenceNumber event.id)
  entityCreators := index.entityCreators.push (event.outputs.created.map fun e ↦ (e.id, event.id))
  entityModifiers := index.entityModifiers.push (event.outputs.modified.map fun e ↦ (e, event.id))
  eventCount := (index.eventCount + 1) % 2 ^ 64

/-! ### Lookups -/

def getEventLocation (eventId : EventId) : Except TimelineError EventLocation :=
  match index.eventLocations[eventId]? with
  | some location => .ok location
  | none => .error (.eventNotFound eventId)

def getBranchEvents (branchId : BranchId) (start stop : ℕ) :
    Except TimelineError (List EventLocation) :=
  match index.branchEvents[branchId]? with
  | none => .error (.branchNotFound branchId)
  | some events => .ok ((List.range' start (stop + 1 - start)).filterMap fun seq ↦
      events[seq]?.bind fun eventId ↦ index.eventLocations[eventId]?)

def getEntityCreators (entityId : EntityId) : List EventId :=
  index.entityCreators[entityId]?.getD []

def getEntityModifiers (entityId : EntityId) : List EventId :=
  index.entityModifiers[entityId]?.getD []

def getEventCount : ℕ := index.eventCount

/-- Two indexes answer every lookup alike. -/
structure SameAnswers (index index' : StorageIndex) : Prop where
  location : ∀ e, index'.getEventLocation e = index.getEventLocation e
  branch : ∀ b start stop, index'.getBranchEvents b start stop = index.getBranchEvents b start stop
  creators : ∀ e, index'.getEntityCreators e = index.getEntityCreators e
  modifiers : ∀ e, index'.getEntityModifiers e = index.getEntityModifiers e
  count : index'.getEventCount = index.getEventCount

section Codec

variable [IndexCodec]

def persistToDisk (files : Files) : Files × Except EventLogError Unit :=
  files.writeAll
    [("index.dat", IndexCodec.snapshot.serialize ⟨index.eventCount⟩),
      ("locations.dat", IndexCodec.locations.serialize index.eventLocations.toList),
      ("branch_events.dat", IndexCodec.branchEvents.serialize
        (index.branchEvents.toList.map fun (branchId, events) ↦ (branchId, events.toList))),
      ("entity_creators.dat", IndexCodec.entityCreators.serialize index.entityCreators.toList)]

/-- The branches of a file, each read into the map it has so far. -/
def loadBranches (branches : List (BranchId × List (ℕ × EventId))) :
    OrderedMap BranchId (OrderedMap ℕ EventId) :=
  branches.foldl (fun m (branchId, events) ↦
    m.insert branchId ((m[branchId]?.getD ∅).insertEntries events)) ∅

/-- Create a new storage index, and load the existing one if there is any. -/
def new (files : Files) : Except EventLogError StorageIndex := do
  match ← files.read IndexCodec.snapshot "index.dat" with
  | none => return empty
  | some snapshot =>
    let locations ← files.read IndexCodec.locations "locations.dat"
    let branches ← files.read IndexCodec.branchEvents "branch_events.dat"
    let creators ← files.read IndexCodec.entityCreators "entity_creators.dat"
    return {
      eventLocations := OrderedMap.insertEntries ∅ (locations.getD [])
      branchEvents := loadBranches (branches.getD [])
      entityCreators := OrderedMap.insertEntries ∅ (creators.getD [])
      entityModifiers := ∅
      eventCount := snapshot.eventCount }

end Codec

end StorageIndex

/-! ## The index and its files -/

structure IndexOnDisk where
  index : StorageIndex
  files : Files

namespace IndexOnDisk

variable [IndexCodec] (s : IndexOnDisk)

def indexEventWithLocation (event : TimelineEvent) (location : EventLocation) :
    IndexOnDisk × Except EventLogError Unit :=
  let index := s.index.insertEvent event location
  if index.eventCount % 100 = 0 then
    let (files, result) := index.persistToDisk s.files
    (⟨index, files⟩, result)
  else (⟨index, s.files⟩, .ok ())

def indexEvent (event : TimelineEvent) : IndexOnDisk × Except EventLogError Unit :=
  s.indexEventWithLocation event ⟨0, 0, 0⟩

def scanSegment [EventCodec] : ℕ → Bytes → IndexOnDisk → IndexOnDisk × Except EventLogError Unit
  | 0, _, s => (s, .ok ())
  | _, [], s => (s, .ok ())
  | fuel + 1, b :: bytes, s =>
    match EventCodec.deserialize (b :: bytes) with
    | .error _ => scanSegment fuel bytes s
    | .ok event =>
      match s.indexEvent event with
      | (s, .error e) => (s, .error e)
      | (s, .ok ()) =>
        let size := match EventCodec.serialize event with
          | .ok data => data.length
          | .error _ => 1024
        scanSegment fuel ((b :: bytes).drop size) s

def scanSegments [EventCodec] : List Bytes → IndexOnDisk → IndexOnDisk × Except EventLogError Unit
  | [], s => (s, .ok ())
  | bytes :: rest, s =>
    match scanSegment bytes.length bytes s with
    | (s, .error e) => (s, .error e)
    | (s, .ok ()) => scanSegments rest s

def isSegmentFile (name : String) : Bool :=
  "segment_".toList.isPrefixOf name.toList && ".log".toList.isSuffixOf name.toList

def rebuildFromLog [EventCodec] (base : Files) : IndexOnDisk × Except EventLogError Unit :=
  let segments := (base.toList.filter fun file ↦ isSegmentFile file.1).map Prod.snd
  scanSegments segments ⟨{ StorageIndex.empty with eventCount := s.index.eventCount }, s.files⟩

end IndexOnDisk

/-! ## Events appended and indexed -/

namespace EventLog

/-- Append an event: serialize it, rotate a full segment, write. -/
def append [EventCodec] (log : EventLog) (event : TimelineEvent) :
    EventLog × Except EventLogError EventLocation :=
  match log.prepare event with
  | .error e => (log, .error e)
  | .ok a => (if a.rotate then log.rotateSegment else log).writeEntry a none

end EventLog

/-- A storage directory in use: the files in it, the log in `events` and the index in `index`. -/
structure IndexedLog where
  base : Files
  log : EventLog
  disk : IndexOnDisk

namespace IndexedLog

/-- A log and an index on an empty directory. -/
def new (compressionEnabled : Bool) : IndexedLog :=
  ⟨∅, .new ∅ compressionEnabled, ⟨.empty, ∅⟩⟩

section Codec

variable [EventCodec] [IndexCodec]

/-- Append an event to the log and index it with the returned location. -/
def store (s : IndexedLog) (event : TimelineEvent) : Except EventLogError IndexedLog :=
  match s.log.append event with
  | (_, .error e) => .error e
  | (log, .ok location) =>
    match s.disk.indexEventWithLocation event location with
    | (_, .error e) => .error e
    | (disk, .ok ()) => .ok { s with log, disk }

def storeAll (s : IndexedLog) (events : List TimelineEvent) : Except EventLogError IndexedLog :=
  events.foldlM store s

/-- A restart and a rebuild both give an index that answers as before. -/
def Recovers (s : IndexedLog) : Prop :=
  (∃ restarted, StorageIndex.new s.disk.files = .ok restarted ∧
    s.disk.index.SameAnswers restarted) ∧
    s.disk.index.SameAnswers (s.disk.rebuildFromLog s.base).1.index

end Codec

end IndexedLog

section Load

theorem loadBranches_toList (m : OrderedMap BranchId (OrderedMap ℕ EventId)) :
    StorageIndex.loadBranches (m.toList.map fun (b, events) ↦ (b, events.toList)) = m := by
  have hfold : ∀ (l : List (BranchId × List (ℕ × EventId)))
      (acc : OrderedMap BranchId (OrderedMap ℕ EventId)), (l.map Prod.fst).Nodup →
      (∀ p ∈ l, p.1 ∉ acc) →
      l.foldl (fun m (b, events) ↦ m.insert b ((m[b]?.getD ∅).insertEntries events)) acc =
        acc.insertEntries (l.map fun (b, events) ↦ (b, OrderedMap.insertEntries ∅ events)) := by
    intro l
    induction l with
    | nil => exact fun _ _ _ ↦ rfl
    | cons p l ih =>
      intro acc hnodup hnew
      rw [List.map_cons, List.nodup_cons] at hnodup
      have hp : acc[p.1]? = none := OrderedMap.not_mem_iff.mp (hnew p List.mem_cons_self)
      rw [List.foldl_cons, List.map_cons, OrderedMap.insertEntries_cons]
      dsimp only
      rw [hp, Option.getD_none]
      refine ih _ hnodup.2 fun q hq hmem ↦ ?_
      rcases Std.ExtTreeMap.mem_insert.mp hmem with heq | hmem
      · rw [Std.LawfulEqOrd.compare_eq_iff_eq] at heq
        exact hnodup.1 (heq ▸ List.mem_map_of_mem hq)
      · exact hnew q (List.mem_cons_of_mem _ hq) hmem
  have hkeys : ((m.toList.map fun (b, events) ↦ (b, events.toList)).map Prod.fst).Nodup := by
    rw [List.map_map]
    exact Std.ExtTreeMap.map_fst_toList_eq_keys (t := m) ▸ Std.ExtTreeMap.nodup_keys
  have hback : ((m.toList.map fun (b, events) ↦ (b, events.toList)).map
      fun (b, events) ↦ (b, OrderedMap.insertEntries ∅ events)) = m.toList := by
    rw [List.map_map]
    refine (List.map_congr_left fun p _ ↦ ?_).trans (List.map_id _)
    exact congrArg (p.1, ·) (OrderedMap.insertEntries_toList p.2)
  rw [StorageIndex.loadBranches, hfold _ _ hkeys fun _ _ ↦ Std.ExtTreeMap.not_mem_empty, hback,
    OrderedMap.insertEntries_toList]

theorem Files.read_eq {α : Type} {files : Files} {codec : FileCodec α} {name : String}
    {data : Bytes} {a : α} (hget : files[name]? = some data) (ha : codec.deserialize data = .ok a) :
    files.read codec name = .ok (some a) := by
  rw [Files.read, hget]
  simp only [ha, Except.mapError, Except.map]

/-- **What a save keeps**: everything but the events that modified an entity. -/
theorem exists_new_persistToDisk [IndexCodec] [LawfulIndexCodec] (index : StorageIndex)
    (files : Files) : ∃ files', index.persistToDisk files = (files', .ok ()) ∧
      StorageIndex.new files' = .ok { index with entityModifiers := ∅ } := by
  obtain ⟨b₁, hser₁, hde₁⟩ := LawfulIndexCodec.snapshot ⟨index.eventCount⟩
  obtain ⟨b₂, hser₂, hde₂⟩ := LawfulIndexCodec.locations index.eventLocations.toList
  obtain ⟨b₃, hser₃, hde₃⟩ := LawfulIndexCodec.branchEvents
    (index.branchEvents.toList.map fun (b, events) ↦ (b, events.toList))
  obtain ⟨b₄, hser₄, hde₄⟩ := LawfulIndexCodec.entityCreators index.entityCreators.toList
  set written : Files := OrderedMap.insertEntries files [("index.dat", b₁),
    ("locations.dat", b₂), ("branch_events.dat", b₃), ("entity_creators.dat", b₄)]
  have hget : written["index.dat"]? = some b₁ ∧ written["locations.dat"]? = some b₂ ∧
      written["branch_events.dat"]? = some b₃ ∧ written["entity_creators.dat"]? = some b₄ := by
    simp only [written, OrderedMap.insertEntries_cons, OrderedMap.insertEntries_nil,
      OrderedMap.lookup_insert]
    simp
  obtain ⟨hget₁, hget₂, hget₃, hget₄⟩ := hget
  refine ⟨written, ?_, ?_⟩
  · rw [StorageIndex.persistToDisk, hser₁, hser₂, hser₃, hser₄]
    rfl
  · simp only [StorageIndex.new, Files.read_eq hget₁ hde₁, Files.read_eq hget₂ hde₂,
      Files.read_eq hget₃ hde₃, Files.read_eq hget₄ hde₄, bind, Except.bind, pure, Except.pure,
      Option.getD_some, loadBranches_toList, OrderedMap.insertEntries_toList]

end Load

/-! ## What a run keeps -/

structure IndexInv [IndexCodec] (events : List TimelineEvent) (disk : IndexOnDisk) : Prop where
  count_eq : disk.index.eventCount = events.length % 2 ^ 64
  located : ∀ e ∈ events, e.id ∈ disk.index.eventLocations
  modified_iff : (∀ e, disk.index.getEntityModifiers e = []) ↔ ∀ e ∈ events, e.outputs.modified = []
  empty_of_nil : events = [] → disk.index = .empty
  /-- What is loaded was saved on a hundredth event, without the events that modified an entity. -/
  loads : ∃ loaded, StorageIndex.new disk.files = .ok loaded ∧ loaded.entityModifiers = ∅ ∧
    loaded.eventCount % 100 = 0 ∧ (disk.index.eventCount % 100 = 0 →
      loaded = { disk.index with entityModifiers := ∅ })

section Run

variable [IndexCodec] {events : List TimelineEvent} {disk : IndexOnDisk}

theorem indexInv_nil : IndexInv [] ⟨.empty, ∅⟩ where
  count_eq := rfl
  located _ he := absurd he List.not_mem_nil
  modified_iff := iff_of_true
    (fun _ ↦ by simp [StorageIndex.getEntityModifiers, StorageIndex.empty])
    fun _ he ↦ absurd he List.not_mem_nil
  empty_of_nil _ := rfl
  loads := by
    refine ⟨.empty, ?_, rfl, rfl, fun _ ↦ rfl⟩
    simp [StorageIndex.new, Files.read, bind, Except.bind, pure, Except.pure]

/-- **Indexing an event keeps the invariant.** -/
theorem IndexInv.index [LawfulIndexCodec] (h : IndexInv events disk) (event : TimelineEvent)
    (location : EventLocation) : ∃ disk', disk.indexEventWithLocation event location =
      (disk', .ok ()) ∧ IndexInv (events ++ [event]) disk' := by
  set index := disk.index.insertEvent event location with hindex
  have hcount : index.eventCount = (events ++ [event]).length % 2 ^ 64 := by
    rw [hindex, StorageIndex.insertEvent, h.count_eq, List.length_append, List.length_singleton]
    exact Nat.mod_add_mod ..
  have hlocated : ∀ e ∈ events ++ [event], e.id ∈ index.eventLocations := by
    intro e he
    rcases List.mem_append.mp he with he | he
    · exact Std.ExtTreeMap.mem_insert.mpr (.inr (h.located e he))
    · rw [List.mem_singleton.mp he]
      exact Std.ExtTreeMap.mem_insert_self
  have hmodified : (∀ e, index.getEntityModifiers e = []) ↔
      ∀ e ∈ events ++ [event], e.outputs.modified = [] := by
    have hpush : ∀ e, index.getEntityModifiers e = disk.index.getEntityModifiers e ++
        ((event.outputs.modified.map fun e ↦ (e, event.id)).filter (·.1 = e)).map Prod.snd :=
      fun e ↦ OrderedMap.getD_push ..
    simp only [hpush, List.append_eq_nil_iff, forall_and, h.modified_iff, List.forall_mem_append,
      List.forall_mem_singleton]
    refine and_congr_right fun _ ↦ ?_
    constructor
    · intro hnone
      refine List.eq_nil_iff_forall_not_mem.mpr fun e he ↦ ?_
      have hmem : (e, event.id) ∈
          (event.outputs.modified.map fun e ↦ (e, event.id)).filter (·.1 = e) :=
        List.mem_filter.mpr ⟨List.mem_map_of_mem he, decide_eq_true rfl⟩
      rw [List.map_eq_nil_iff.mp (hnone e)] at hmem
      exact List.not_mem_nil hmem
    · intro hnil e
      rw [hnil]
      rfl
  have hnil : events ++ [event] ≠ [] := List.append_ne_nil_of_right_ne_nil _ (List.cons_ne_nil _ _)
  rw [IndexOnDisk.indexEventWithLocation, ← hindex]
  -- On every hundredth the index is written out, and that is what is loaded next.
  split_ifs with hfull
  · obtain ⟨files', hpersist, hnew⟩ := exists_new_persistToDisk index disk.files
    refine ⟨⟨index, files'⟩, by rw [hpersist], hcount, hlocated, hmodified,
      fun h ↦ absurd h hnil, _, hnew, rfl, hfull, fun _ ↦ rfl⟩
  · obtain ⟨loaded, hnew, hmodifiers, hsaved, -⟩ := h.loads
    exact ⟨⟨index, disk.files⟩, rfl, hcount, hlocated, hmodified, fun h ↦ absurd h hnil,
      loaded, hnew, hmodifiers, hsaved, fun h ↦ absurd h hfull⟩

variable [EventCodec] [LawfulIndexCodec]

theorem indexInv_storeAll {compressionEnabled : Bool} {s : IndexedLog}
    (h : (IndexedLog.new compressionEnabled).storeAll events = .ok s) :
    s.base = ∅ ∧ IndexInv events s.disk := by
  induction events using List.reverseRecOn generalizing s with
  | nil =>
    obtain rfl := Except.ok.inj h
    exact ⟨rfl, indexInv_nil⟩
  | append_singleton events event ih =>
    rw [IndexedLog.storeAll, List.foldlM_append] at h
    cases hbefore : (IndexedLog.new compressionEnabled).storeAll events with
    | error e =>
      rw [IndexedLog.storeAll] at hbefore
      rw [hbefore] at h
      cases h
    | ok before =>
      obtain ⟨hbase, hinv⟩ := ih hbefore
      rw [IndexedLog.storeAll] at hbefore
      rw [hbefore] at h
      replace h : (before.store event >>= pure) = .ok s := h
      rw [bind_pure, IndexedLog.store] at h
      split at h
      · cases h
      · next log location _ =>
        obtain ⟨disk', hdisk, hinv'⟩ := hinv.index event location
        rw [hdisk] at h
        obtain rfl := Except.ok.inj h
        exact ⟨hbase, hinv'⟩

/-! ## Recovery -/

omit [EventCodec] [LawfulIndexCodec] in
/-- **A restart answers as before** exactly when the last event was a hundredth and none modified an
entity. -/
theorem IndexInv.sameAnswers_iff (h : IndexInv events disk) {loaded : StorageIndex}
    (hloaded : StorageIndex.new disk.files = .ok loaded) :
    disk.index.SameAnswers loaded ↔
      events.length % 2 ^ 64 % 100 = 0 ∧ ∀ e ∈ events, e.outputs.modified = [] := by
  obtain ⟨loaded', hnew, hnone, hsaved, heq⟩ := h.loads
  obtain rfl := Except.ok.inj (hloaded.symm.trans hnew)
  have hmodifiers : ∀ e, loaded.getEntityModifiers e = [] := by
    intro e
    rw [StorageIndex.getEntityModifiers, hnone]
    simp
  rw [← h.count_eq, ← h.modified_iff]
  constructor
  · intro hsame
    refine ⟨(show loaded.eventCount = disk.index.eventCount from hsame.count) ▸ hsaved,
      fun e ↦ ?_⟩
    rw [← hsame.modifiers, hmodifiers]
  · rintro ⟨hfull, hunmodified⟩
    obtain rfl := heq hfull
    exact ⟨fun _ ↦ rfl, fun _ _ _ ↦ rfl, fun _ ↦ rfl,
      fun e ↦ (hmodifiers e).trans (hunmodified e).symm, rfl⟩

omit [LawfulIndexCodec] in
theorem IndexInv.sameAnswers_rebuild_iff (h : IndexInv events disk) :
    disk.index.SameAnswers (disk.rebuildFromLog ∅).1.index ↔ events = [] := by
  have hrebuilt : (disk.rebuildFromLog ∅).1.index =
      { StorageIndex.empty with eventCount := disk.index.eventCount } := by
    have hnone : (∅ : Files).toList = [] :=
      List.isEmpty_iff.mp (Std.ExtTreeMap.isEmpty_toList.trans Std.ExtTreeMap.isEmpty_empty)
    rw [IndexOnDisk.rebuildFromLog, hnone]
    rfl
  rw [hrebuilt]
  constructor
  · intro hsame
    refine List.eq_nil_iff_forall_not_mem.mpr fun e he ↦ ?_
    obtain ⟨location, hlocation⟩ := OrderedMap.mem_iff_exists.mp (h.located e he)
    have hanswer := hsame.location e.id
    simp [StorageIndex.getEventLocation, StorageIndex.empty, hlocation] at hanswer
  · intro hnil
    rw [h.empty_of_nil hnil]
    exact ⟨fun _ ↦ rfl, fun _ _ _ ↦ rfl, fun _ ↦ rfl, fun _ ↦ rfl, rfl⟩

/-- **A restart and a rebuild both recover the index** only when no event was indexed. The restart
alone does when the last event was a hundredth and none modified an entity. -/
theorem recovers_iff {compressionEnabled : Bool} {s : IndexedLog}
    (h : (IndexedLog.new compressionEnabled).storeAll events = .ok s) :
    (s.Recovers ↔ events = []) ∧
      ((∃ restarted, StorageIndex.new s.disk.files = .ok restarted ∧
        s.disk.index.SameAnswers restarted) ↔
          events.length % 2 ^ 64 % 100 = 0 ∧ ∀ e ∈ events, e.outputs.modified = []) := by
  obtain ⟨hbase, hinv⟩ := indexInv_storeAll h
  obtain ⟨loaded, hnew, -⟩ := hinv.loads
  have hrestart : (∃ restarted, StorageIndex.new s.disk.files = .ok restarted ∧
      s.disk.index.SameAnswers restarted) ↔
        events.length % 2 ^ 64 % 100 = 0 ∧ ∀ e ∈ events, e.outputs.modified = [] := by
    rw [← hinv.sameAnswers_iff hnew]
    exact ⟨fun ⟨_, hnew', hsame⟩ ↦ Except.ok.inj (hnew.symm.trans hnew') ▸ hsame,
      fun hsame ↦ ⟨_, hnew, hsame⟩⟩
  refine ⟨?_, hrestart⟩
  rw [IndexedLog.Recovers, hrestart, hbase, hinv.sameAnswers_rebuild_iff]
  refine ⟨And.right, ?_⟩
  rintro rfl
  exact ⟨⟨rfl, fun _ he ↦ absurd he List.not_mem_nil⟩, rfl⟩

end Run

/-! ### With concrete libraries -/

def unaryCodec (α : Type) [Encodable α] : FileCodec α where
  serialize a := .ok (List.replicate (Encodable.encode a) 0)
  deserialize b :=
    match Encodable.decode b.length with
    | some a => .ok a
    | none => .error "no number of a value"

theorem unaryCodec_roundTrips (α : Type) [Encodable α] : (unaryCodec α).RoundTrips := by
  intro a
  refine ⟨_, rfl, ?_⟩
  show (match Encodable.decode (List.replicate (Encodable.encode a) (0 : UInt8)).length with
    | some a => Except.ok a
    | none => .error "no number of a value") = Except.ok a
  rw [List.length_replicate, Encodable.encodek]

instance {kind : IdKind} : Encodable (Id kind) :=
  .ofLeftInverse (fun i ↦ i.uuid.toNat) (fun n ↦ ⟨BitVec.ofNat 128 n⟩) fun _ ↦
    congrArg Id.mk (by rw [BitVec.ofNat_toNat, BitVec.setWidth_eq])

instance : Encodable EventLocation :=
  .ofLeftInverse (fun l ↦ (l.segment, l.offset, l.size)) (fun t ↦ ⟨t.1, t.2.1, t.2.2⟩)
    fun _ ↦ rfl

instance : Encodable IndexSnapshot :=
  .ofLeftInverse IndexSnapshot.eventCount IndexSnapshot.mk fun _ ↦ rfl

@[reducible] def unaryIndexCodec : IndexCodec where
  snapshot := unaryCodec _
  locations := unaryCodec _
  branchEvents := unaryCodec _
  entityCreators := unaryCodec _

theorem unaryIndexCodec_lawful : @LawfulIndexCodec unaryIndexCodec :=
  @LawfulIndexCodec.mk unaryIndexCodec (unaryCodec_roundTrips _) (unaryCodec_roundTrips _)
    (unaryCodec_roundTrips _) (unaryCodec_roundTrips _)

/-- After one event, neither way answers as before. -/
theorem recovers_iff_one :
    letI := LogRun.sampleCodec
    letI := unaryIndexCodec
    ∃ s, (IndexedLog.new false).storeAll [LogRun.sampleEvent 1] = .ok s ∧ ¬ s.Recovers := by
  let _ := LogRun.sampleCodec
  let _ := unaryIndexCodec
  have := unaryIndexCodec_lawful
  have hstored : ∃ s, (IndexedLog.new false).storeAll [LogRun.sampleEvent 1] = .ok s := ⟨_, rfl⟩
  obtain ⟨s, hstored⟩ := hstored
  exact ⟨s, hstored, fun h ↦ List.cons_ne_nil _ _ ((recovers_iff hstored).1.mp h)⟩

/-- A restart after the first event answers that there are none. -/
theorem not_recovers_after_one :
    ¬ ∀ [EventCodec] [LawfulEventCodec] [IndexCodec] [LawfulIndexCodec] (compressionEnabled : Bool)
      (events : List TimelineEvent) (s : IndexedLog),
      (IndexedLog.new compressionEnabled).storeAll events = .ok s → s.Recovers := by
  intro hall
  let _ := LogRun.sampleCodec
  have := LogRun.sampleCodec_lawful
  let _ := unaryIndexCodec
  have := unaryIndexCodec_lawful
  have hstored : ∃ s, (IndexedLog.new false).storeAll [LogRun.sampleEvent 1] = .ok s := ⟨_, rfl⟩
  obtain ⟨s, hstored⟩ := hstored
  obtain ⟨restarted, hnew, hsame⟩ := (hall _ _ _ hstored).1
  exact absurd (((indexInv_storeAll hstored).2.sameAnswers_iff hnew).mp hsame).1 (by decide)

end RosheraCad
