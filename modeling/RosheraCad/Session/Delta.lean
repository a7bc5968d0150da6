import RosheraCad.Types

/-!
# Session deltas

A tracker computes the delta between a state of a session and the next one and numbers it, and
applies a delta that is numbered above everything it has seen. A delta with a value that does not
decode is applied half way.

The server keeps the recent deltas. Of too many, the oldest are compressed and put where no query
looks, and a compaction merges five at a time.
-/

namespace RosheraCad

namespace Delta

/-! ## Session states -/

structure Codec (α : Type) where
  toValue : α → Json
  fromValue : Json → Option α
  fromValue_toValue : ∀ a, fromValue (toValue a) = some a

theorem Codec.toValue_injective {α : Type} (codec : Codec α) :
    Function.Injective codec.toValue := by
  intro a b h
  refine Option.some_inj.mp ?_
  rw [← codec.fromValue_toValue a, h, codec.fromValue_toValue b]

/-- The types a session carries as a whole, with the serialisation of those a delta sends alone. -/
structure Payloads where
  Mesh : Type
  AnalyticalGeometry : Type
  CachedMesh : Type
  Transform3D : Type
  MaterialProperties : Type
  SessionSettings : Type
  AICommand : Type
  transform : Codec Transform3D
  material : Codec MaterialProperties
  settings : Codec SessionSettings

abbrev ObjectId := Uuid

def metadataCodec : Codec (OrderedMap String Json) where
  toValue m := .object m.toList
  fromValue
    | .object entries => some (OrderedMap.insertEntries ∅ entries)
    | _ => none
  fromValue_toValue m := by
    refine congrArg some (OrderedMap.ext_lookup fun k ↦ Option.ext fun v ↦ ?_)
    rw [OrderedMap.getElem?_insertEntries_iff fun _ _ _ ↦ OrderedMap.toList_functional]
    simp

variable (P : Payloads)

/-- An object of a session. -/
structure CADObject where
  id : ObjectId
  name : String
  mesh : P.Mesh
  analyticalGeometry : Option P.AnalyticalGeometry
  cachedMeshes : OrderedMap String P.CachedMesh
  transform : P.Transform3D
  material : P.MaterialProperties
  visible : Bool
  locked : Bool
  parent : Option ObjectId
  children : List ObjectId
  metadata : OrderedMap String Json
  createdAt : ℕ
  modifiedAt : ℕ

inductive UserRole
  | viewer
  | editor
  | owner
  deriving DecidableEq

structure UserInfo where
  id : String
  name : String
  color : ℚ × ℚ × ℚ × ℚ
  lastActivity : ℕ
  role : UserRole
  cursorPosition : Option (ℚ × ℚ × ℚ)
  selectedObjects : List ObjectId
  deriving DecidableEq

structure HistoryEntry where
  id : ObjectId
  command : P.AICommand
  timestamp : ℕ
  userId : Option String
  undoData : Option Json
  redoData : Option Json
  description : String

/-- The state of a session, as far as deltas reach. -/
structure SessionState where
  objects : OrderedMap ObjectId (CADObject P)
  history : List (HistoryEntry P)
  historyIndex : ℕ
  modifiedAt : ℕ
  activeUsers : List UserInfo
  settings : P.SessionSettings
  metadata : OrderedMap String Json

/-! ## Deltas -/

inductive DeltaType
  | added
  | modified
  | removed
  | transformed
  deriving DecidableEq

structure ObjectDelta where
  id : ObjectId
  deltaType : DeltaType
  changes : Option Json
  object : Option (CADObject P)
  transform : Option Json

structure TimelineDelta where
  newEntries : List (HistoryEntry P)
  branchChange : Option String
  indexChange : Option ℕ

structure UserChanges where
  joined : List UserInfo
  left : List String
  updates : OrderedMap String Json

structure SessionDelta where
  sessionId : Uuid
  sequence : ℕ
  timestamp : ℕ
  objectDeltas : List (ObjectDelta P)
  timelineDelta : Option (TimelineDelta P)
  metadataChanges : Option (OrderedMap String Json)
  userChanges : Option UserChanges
  settingsChanges : Option Json

structure HashedFields where
  id : ObjectId
  name : String
  visible : Bool
  locked : Bool
  transform : Json
  material : Json

/-- The hashes that changes are told by. -/
structure Hashes where
  fields : HashedFields → BitVec 64
  hashValue : Json → BitVec 64

structure DeltaTracker where
  sessionId : Uuid
  sequence : ℕ
  objectHashes : OrderedMap ObjectId (BitVec 64)
  metadataHashes : OrderedMap String (BitVec 64)

def DeltaTracker.new (sessionId : Uuid) : DeltaTracker := ⟨sessionId, 0, ∅, ∅⟩

inductive SessionError
  | persistenceError
  deriving DecidableEq

/-! ## Computing a delta -/

section Compute

variable {P} (hash : Hashes)

def CADObject.hashed (obj : CADObject P) : HashedFields :=
  ⟨obj.id, obj.name, obj.visible, obj.locked, P.transform.toValue obj.transform,
    P.material.toValue obj.material⟩

def hashObject (obj : CADObject P) : BitVec 64 := hash.fields obj.hashed

/-- The fields of an object that are compared, in the order of the sorted map that takes them. -/
def objectChanges (old new : CADObject P) : List (String × Json) :=
  (if old.locked ≠ new.locked then [("locked", .bool new.locked)] else []) ++
  (if P.material.toValue old.material ≠ P.material.toValue new.material then
    [("material", P.material.toValue new.material)] else []) ++
  (if old.metadata ≠ new.metadata then
    [("metadata", metadataCodec.toValue new.metadata)] else []) ++
  (if old.name ≠ new.name then [("name", .string new.name)] else []) ++
  (if P.transform.toValue old.transform ≠ P.transform.toValue new.transform then
    [("transform", P.transform.toValue new.transform)] else []) ++
  (if old.visible ≠ new.visible then [("visible", .bool new.visible)] else [])

def computeObjectChanges (old new : CADObject P) : Json := .object (objectChanges old new)

def isTransformOnly : Json → Bool
  | .object entries => entries.length == 1 && (entries.lookup "transform").isSome
  | _ => false

def extractTransform (changes : Json) : Option Json := changes.get? "transform"

def objectDelta (cached : Option (BitVec 64)) (oldObject : Option (CADObject P)) (id : ObjectId)
    (newObj : CADObject P) : Option (ObjectDelta P) :=
  match oldObject with
  | some oldObj =>
    if cached.getD (hashObject hash oldObj) ≠ hashObject hash newObj then
      let changes := computeObjectChanges oldObj newObj
      if isTransformOnly changes then
        some ⟨id, .transformed, some changes, none, extractTransform changes⟩
      else some ⟨id, .modified, some changes, none, none⟩
    else none
  | none => some ⟨id, .added, none, some newObj, none⟩

def computeObjectDeltas (hashes : OrderedMap ObjectId (BitVec 64))
    (oldObjects newObjects : OrderedMap ObjectId (CADObject P)) :
    List (ObjectDelta P) × OrderedMap ObjectId (BitVec 64) :=
  let removed := oldObjects.keys.filter (· ∉ newObjects)
  (newObjects.toList.filterMap (fun e ↦ objectDelta hash hashes[e.1]? oldObjects[e.1]? e.1 e.2) ++
      removed.map fun id ↦ ⟨id, .removed, none, none, none⟩,
    (hashes.insertEntries (newObjects.toList.map fun e ↦ (e.1, hashObject hash e.2))).eraseKeys
      removed)

def computeTimelineDelta (oldState newState : SessionState P) : Option (TimelineDelta P) :=
  let oldLen := oldState.history.length
  let newLen := newState.history.length
  if oldLen = newLen ∧ oldState.historyIndex = newState.historyIndex then none
  else
    some
      ⟨if oldLen < newLen then newState.history.drop oldLen else [], none,
        if oldState.historyIndex ≠ newState.historyIndex then some newState.historyIndex else none⟩

def computeMetadataChanges (hashes : OrderedMap String (BitVec 64))
    (oldMetadata newMetadata : OrderedMap String Json) :
    Option (OrderedMap String Json) × OrderedMap String (BitVec 64) :=
  let changed := newMetadata.toList.filter fun e ↦
    match oldMetadata[e.1]? with
    | some oldValue => hashes[e.1]?.getD (hash.hashValue oldValue) ≠ hash.hashValue e.2
    | none => true
  let removed := oldMetadata.keys.filter (· ∉ newMetadata)
  let changes := (OrderedMap.insertEntries ∅ changed).insertEntries (removed.map (·, .null))
  (if changes.isEmpty then none else some changes,
    (hashes.insertEntries (newMetadata.toList.map fun e ↦ (e.1, hash.hashValue e.2))).eraseKeys
      removed)

def computeUserChanges (oldUsers newUsers : List UserInfo) : Option UserChanges :=
  let oldIds := oldUsers.map UserInfo.id
  let newIds := newUsers.map UserInfo.id
  let joined := newUsers.filter (·.id ∉ oldIds)
  let left := oldIds.dedup.filter (· ∉ newIds)
  if joined.isEmpty && left.isEmpty then none else some ⟨joined, left, ∅⟩

def computeDelta (tracker : DeltaTracker) (now : ℕ) (oldState newState : SessionState P) :
    SessionDelta P × DeltaTracker :=
  let sequence := tracker.sequence + 1
  let (objectDeltas, objectHashes) :=
    computeObjectDeltas hash tracker.objectHashes oldState.objects newState.objects
  let (metadataChanges, metadataHashes) :=
    computeMetadataChanges hash tracker.metadataHashes oldState.metadata newState.metadata
  let settings := P.settings.toValue newState.settings
  ({ sessionId := tracker.sessionId
     sequence
     timestamp := now
     objectDeltas
     timelineDelta := computeTimelineDelta oldState newState
     metadataChanges
     userChanges := computeUserChanges oldState.activeUsers newState.activeUsers
     settingsChanges :=
       if P.settings.toValue oldState.settings ≠ settings then some settings else none },
    { tracker with sequence, objectHashes, metadataHashes })

def createSnapshot (tracker : DeltaTracker) (now : ℕ) (state : SessionState P) :
    SessionDelta P × DeltaTracker :=
  let sequence := tracker.sequence + 1
  ({ sessionId := tracker.sessionId
     sequence
     timestamp := now
     objectDeltas := state.objects.toList.map fun e ↦ ⟨e.1, .added, none, some e.2, none⟩
     timelineDelta :=
       if state.history.isEmpty then none else some ⟨state.history, none, some state.historyIndex⟩
     metadataChanges := if state.metadata.isEmpty then none else some state.metadata
     userChanges :=
       if state.activeUsers.isEmpty then none else some ⟨state.activeUsers, [], ∅⟩
     settingsChanges := some (P.settings.toValue state.settings) },
    { tracker with
      sequence
      objectHashes :=
        OrderedMap.insertEntries ∅ (state.objects.toList.map fun e ↦ (e.1, hashObject hash e.2))
      metadataHashes :=
        OrderedMap.insertEntries ∅
          (state.metadata.toList.map fun e ↦ (e.1, hash.hashValue e.2)) })

end Compute

/-! ## Applying a delta -/

section Apply

variable {P}

def decode {σ α : Type} (codec : Codec α) (value : Json) : EStateM SessionError σ α :=
  match codec.fromValue value with
  | some a => pure a
  | none => throw .persistenceError

def applyObjectChange : String × Json → EStateM SessionError (CADObject P) Unit
  | ("name", .string name) => modify fun obj ↦ { obj with name }
  | ("visible", .bool visible) => modify fun obj ↦ { obj with visible }
  | ("locked", .bool locked) => modify fun obj ↦ { obj with locked }
  | ("transform", value) => do
    let transform ← decode P.transform value
    modify fun obj ↦ { obj with transform }
  | ("material", value) => do
    let material ← decode P.material value
    modify fun obj ↦ { obj with material }
  | ("metadata", value) => do
    let metadata ← decode metadataCodec value
    modify fun obj ↦ { obj with metadata }
  | _ => pure ()

def applyObjectChanges : Json → EStateM SessionError (CADObject P) Unit
  | .object entries => entries.forM applyObjectChange
  | _ => pure ()

def applyTransform (value : Json) : EStateM SessionError (CADObject P) Unit := do
  let transform ← decode P.transform value
  modify fun obj ↦ { obj with transform }

def onObject (id : ObjectId) (act : EStateM SessionError (CADObject P) Unit) :
    EStateM SessionError (OrderedMap ObjectId (CADObject P)) Unit := fun objects ↦
  match objects[id]? with
  | none => .ok () objects
  | some obj =>
    match act obj with
    | .ok _ obj => .ok () (objects.insert id obj)
    | .error e obj => .error e (objects.insert id obj)

def applyObjectDelta (d : ObjectDelta P) :
    EStateM SessionError (OrderedMap ObjectId (CADObject P)) Unit :=
  match d.deltaType with
  | .added =>
    match d.object with
    | some object => modify fun objects ↦ objects.insert d.id object
    | none => pure ()
  | .modified =>
    match d.changes with
    | some changes => onObject d.id (applyObjectChanges changes)
    | none => pure ()
  | .removed => modify fun objects ↦ objects.erase d.id
  | .transformed =>
    match d.transform with
    | some transform => onObject d.id (applyTransform transform)
    | none => pure ()

def onObjects (act : EStateM SessionError (OrderedMap ObjectId (CADObject P)) Unit) :
    EStateM SessionError (SessionState P) Unit := fun state ↦
  match act state.objects with
  | .ok _ objects => .ok () { state with objects }
  | .error e objects => .error e { state with objects }

theorem onObjects_ok {act : EStateM SessionError (OrderedMap ObjectId (CADObject P)) Unit}
    {state : SessionState P} {objects : OrderedMap ObjectId (CADObject P)}
    (h : act state.objects = .ok () objects) :
    onObjects act state = .ok () { state with objects } := by
  simp only [onObjects, h]

def applyTimelineDelta (d : Option (TimelineDelta P)) (state : SessionState P) : SessionState P :=
  match d with
  | some d =>
    { state with
      history := state.history ++ d.newEntries
      historyIndex := d.indexChange.getD state.historyIndex }
  | none => state

def applyMetadataChange (metadata : OrderedMap String Json) (e : String × Json) :
    OrderedMap String Json :=
  match e.2 with
  | .null => metadata.erase e.1
  | value => metadata.insert e.1 value

def applyMetadataChanges (d : Option (OrderedMap String Json)) (state : SessionState P) :
    SessionState P :=
  match d with
  | some changes =>
    { state with metadata := changes.toList.foldl applyMetadataChange state.metadata }
  | none => state

def join (users : List UserInfo) (user : UserInfo) : List UserInfo :=
  if users.any (·.id = user.id) then users else users ++ [user]

def applyUserChanges (d : Option UserChanges) (state : SessionState P) : SessionState P :=
  match d with
  | some d =>
    { state with
      activeUsers := d.joined.foldl join (state.activeUsers.filter fun u ↦ !d.left.contains u.id) }
  | none => state

def applySettingsChanges (d : Option Json) : EStateM SessionError (SessionState P) Unit :=
  match d with
  | some value => do
    let settings ← decode P.settings value
    modify fun state ↦ { state with settings }
  | none => pure ()

def applyParts (delta : SessionDelta P) : EStateM SessionError (SessionState P) Unit := do
  onObjects (delta.objectDeltas.forM applyObjectDelta)
  modify (applyTimelineDelta delta.timelineDelta)
  modify (applyMetadataChanges delta.metadataChanges)
  modify (applyUserChanges delta.userChanges)
  applySettingsChanges delta.settingsChanges
  modify fun state ↦ { state with modifiedAt := delta.timestamp }

/-- Apply a delta to a session state. One that is not above the tracker's counter is skipped. -/
def applyDelta (delta : SessionDelta P) :
    EStateM SessionError (DeltaTracker × SessionState P) Unit := fun (tracker, state) ↦
  if delta.sequence ≤ tracker.sequence then .ok () (tracker, state)
  else
    match applyParts delta state with
    | .ok _ state => .ok () ({ tracker with sequence := delta.sequence }, state)
    | .error e state => .error e (tracker, state)

theorem applyDelta_of_lt {delta : SessionDelta P} {tracker : DeltaTracker}
    {state state' : SessionState P} (h : tracker.sequence < delta.sequence)
    (happly : applyParts delta state = .ok () state') :
    applyDelta delta (tracker, state) =
      .ok () ({ tracker with sequence := delta.sequence }, state') := by
  simp only [applyDelta, if_neg (Nat.not_le.mpr h), happly]

end Apply

/-! ## Merging deltas -/

section Batch

variable {P}

def batchObjectDeltas (deltas : List (SessionDelta P)) : List (ObjectDelta P) :=
  (OrderedMap.insertEntries ∅
    (deltas.flatMap fun delta ↦ delta.objectDeltas.map fun d ↦ (d.id, d))).toList.map Prod.snd

def batchTimelineDeltas (deltas : List (SessionDelta P)) : Option (TimelineDelta P) :=
  let timelines := deltas.filterMap SessionDelta.timelineDelta
  let entries := timelines.flatMap TimelineDelta.newEntries
  let index := timelines.reverse.findSome? TimelineDelta.indexChange
  let branch := timelines.reverse.findSome? TimelineDelta.branchChange
  if entries.isEmpty && index.isNone && branch.isNone then none else some ⟨entries, branch, index⟩

def batchUserChanges (deltas : List (SessionDelta P)) : Option UserChanges :=
  let changes := deltas.filterMap SessionDelta.userChanges
  let joined := changes.flatMap UserChanges.joined
  let left := changes.flatMap UserChanges.left
  let updates := OrderedMap.insertEntries ∅ (changes.flatMap fun c ↦ c.updates.toList)
  if joined.isEmpty && left.isEmpty && updates.isEmpty then none else some ⟨joined, left, updates⟩

/-- The result carries the number of the last delta, and the last metadata and settings changes. -/
def batchDeltas : List (SessionDelta P) → Option (SessionDelta P)
  | [] => none
  | [delta] => some delta
  | first :: second :: rest =>
    let deltas := first :: second :: rest
    let last := (second :: rest).getLast (List.cons_ne_nil _ _)
    some
      { sessionId := first.sessionId
        sequence := last.sequence
        timestamp := last.timestamp
        objectDeltas := batchObjectDeltas deltas
        timelineDelta := batchTimelineDeltas deltas
        metadataChanges := deltas.reverse.findSome? SessionDelta.metadataChanges
        userChanges := batchUserChanges deltas
        settingsChanges := deltas.reverse.findSome? SessionDelta.settingsChanges }

end Batch

/-! ## The delta manager -/

def maxDeltasInMemory : ℕ := 1000

structure DeltaStatistics where
  totalDeltas : ℕ
  compressedSize : ℕ
  oldestSequence : ℕ
  newestSequence : ℕ

variable (P : Payloads)

structure SessionDeltaStorage where
  deltas : List (SessionDelta P)
  compressedDeltas : List Bytes
  tracker : DeltaTracker
  currentState : SessionState P
  lastSnapshotSequence : ℕ
  stats : DeltaStatistics

/-- What a snapshot request answers. -/
structure Snapshot where
  sequence : ℕ
  timestamp : ℕ
  state : SessionState P
  delta : SessionDelta P

variable {P} (compress : SessionDelta P → Option Bytes)

namespace SessionDeltaStorage

def new (sessionId : Uuid) (initial : SessionState P) : SessionDeltaStorage P :=
  ⟨[], [], .new sessionId, initial, 0, ⟨0, 0, 0, 0⟩⟩

def count (s : SessionDeltaStorage P) (delta : SessionDelta P) : SessionDeltaStorage P :=
  { s with
    stats :=
      { s.stats with
        totalDeltas := s.stats.totalDeltas + 1
        oldestSequence :=
          if s.stats.oldestSequence = 0 then delta.sequence else s.stats.oldestSequence
        newestSequence := delta.sequence } }

def compressOldest (s : SessionDeltaStorage P) : SessionDeltaStorage P :=
  match s.deltas with
  | [] => s
  | old :: deltas =>
    match compress old with
    | some compressed =>
      { s with
        deltas
        compressedDeltas := s.compressedDeltas ++ [compressed]
        stats := { s.stats with compressedSize := s.stats.compressedSize + compressed.length } }
    | none => { s with deltas }

def dropOldest (s : SessionDeltaStorage P) : SessionDeltaStorage P :=
  { s with
    compressedDeltas := s.compressedDeltas.drop (s.compressedDeltas.length - maxDeltasInMemory) }

def keep (s : SessionDeltaStorage P) (delta : SessionDelta P) : SessionDeltaStorage P :=
  let s := { s with deltas := s.deltas ++ [delta] }
  (if maxDeltasInMemory < s.deltas.length then s.compressOldest compress else s).dropOldest

def addDelta (delta : SessionDelta P) : EStateM SessionError (SessionDeltaStorage P) Unit := fun s ↦
  let s := s.count delta
  match applyDelta delta (s.tracker, s.currentState) with
  | .ok _ (tracker, currentState) =>
    .ok () ({ s with tracker, currentState }.keep compress delta)
  | .error e (tracker, currentState) => .error e { s with tracker, currentState }

def getDeltasSince (s : SessionDeltaStorage P) (since : ℕ) : List (SessionDelta P) :=
  s.deltas.filter (since < ·.sequence)

/-- Apply multiple deltas, going back to the original state on failure. -/
def applyDeltasAtomic (deltas : List (SessionDelta P)) :
    EStateM SessionError (SessionDeltaStorage P) Unit := fun s ↦
  match deltas.forM (addDelta compress) s with
  | .ok _ s' => .ok () s'
  | .error e s' => .error e { s' with currentState := s.currentState }

def generateSnapshot (hash : Hashes) (now : ℕ) (s : SessionDeltaStorage P) :
    Snapshot P × SessionDeltaStorage P :=
  let (delta, tracker) := createSnapshot hash s.tracker now s.currentState
  (⟨delta.sequence, delta.timestamp, s.currentState, delta⟩,
    { s with tracker, lastSnapshotSequence := delta.sequence })

def chunks {α : Type} (l : List α) : List (List α) :=
  (List.range ((l.length + 4) / 5)).map fun i ↦ (l.drop (5 * i)).take 5

/-- Merge small deltas, and compress down to half of what memory may hold. -/
def compactDeltas (s : SessionDeltaStorage P) : SessionDeltaStorage P :=
  let s :=
    if 10 < s.deltas.length then { s with deltas := (chunks s.deltas).filterMap batchDeltas } else s
  (compressOldest compress)^[s.deltas.length - maxDeltasInMemory / 2] s

end SessionDeltaStorage

end Delta

end RosheraCad
