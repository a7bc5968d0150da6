import RosheraCad.Brep.Snapshot
import RosheraCad.Replay.Incremental
import RosheraCad.Ros.Signature
import RosheraCad.Timeline.State

/-!
# The payloads of the chunks

HIST holds the branch manifests and the events of a timeline, PROV the commands of an AI tracker,
GEOM a snapshot of the model, each as MessagePack. META is a JSON object that names the author, the
software and the units, and counts the entities.
-/

namespace RosheraCad

/-! ## HIST -/

abbrev BranchManifest := Branch

structure HistChunk where
  schemaVersion : UInt32
  writtenAt : Timestamp
  branches : List BranchManifest
  events : List TimelineEvent

def HistChunk.new (writtenAt : Timestamp) (branches : List BranchManifest)
    (events : List TimelineEvent) : HistChunk :=
  { schemaVersion := 1, writtenAt, branches, events }

def HistChunk.empty (writtenAt : Timestamp) : HistChunk := .new writtenAt [] []

/-! ## PROV -/

inductive TrackingLevel
  | basic
  | detailed
  | forensic
  deriving DecidableEq

def TrackingLevel.toU8 : TrackingLevel → UInt8
  | basic => 0
  | detailed => 1
  | forensic => 2

structure PrivacySettings where
  anonymizePrompts : Bool
  hashOnlyMode : Bool
  excludeResponses : Bool
  localOnly : Bool
  retentionDays : UInt32
  piiDetection : Bool
  deriving DecidableEq

def PrivacySettings.default : PrivacySettings := ⟨false, false, false, false, 0, true⟩

structure AIProvenanceHeader where
  version : UInt32
  commandCount : UInt32
  firstTimestamp : UInt64
  lastTimestamp : UInt64
  trackingLevel : TrackingLevel
  privacySettings : PrivacySettings
  sessionCount : UInt32
  totalComputeTimeMs : UInt64
  deriving DecidableEq

def AIProvenanceHeader.new (now : UInt64) (trackingLevel : TrackingLevel)
    (privacySettings : PrivacySettings) : AIProvenanceHeader :=
  ⟨1, 0, now, now, trackingLevel, privacySettings, 1, 0⟩

structure SessionInfo where
  id : UInt64
  startTime : UInt64
  endTime : Option UInt64
  commandCount : UInt32
  userId : Option String
  context : List (String × String)
  deriving DecidableEq

/-- AI command tracker. -/
structure AICommandTracker (AICommand : Type) where
  header : AIProvenanceHeader
  commands : List AICommand
  currentSession : UInt64
  sessions : List (UInt64 × SessionInfo)

def AICommandTracker.new {AICommand : Type} (now sessionId : UInt64) (trackingLevel : TrackingLevel)
    (privacySettings : PrivacySettings) : AICommandTracker AICommand where
  header := .new now trackingLevel privacySettings
  commands := []
  currentSession := sessionId
  sessions := [(sessionId, ⟨sessionId, now, none, 0, none, []⟩)]

structure ProvChunk (AICommand : Type) where
  schemaVersion : UInt32
  session : UInt64
  commands : List AICommand
  privacy : PrivacySettings
  trackingLevel : TrackingLevel
  sessions : List (UInt64 × SessionInfo)
  header : AIProvenanceHeader
  deriving DecidableEq

namespace ProvChunk

variable {AICommand : Type}

def fromTracker (tracker : AICommandTracker AICommand) : ProvChunk AICommand where
  schemaVersion := 1
  session := tracker.currentSession
  commands := tracker.commands
  privacy := tracker.header.privacySettings
  trackingLevel := tracker.header.trackingLevel
  sessions := tracker.sessions
  header := tracker.header

def empty (now sessionId : UInt64) (trackingLevel : TrackingLevel) (privacy : PrivacySettings) :
    ProvChunk AICommand :=
  fromTracker (.new now sessionId trackingLevel privacy)

end ProvChunk

/-! ## META -/

abbrev RosReplayFailure := ReplayFailure

inductive RosReplayStatus
  | verified (eventsApplied : ℕ)
  | incomplete (eventsApplied eventsSkipped : ℕ) (firstFailure : RosReplayFailure)
  | notAttempted
  deriving DecidableEq

private def natJson (n : ℕ) : Json := .number (.posInt n)

/-- The wire form of a replay status: its fields, and its name under `verdict`. -/
def RosReplayStatus.toValue : RosReplayStatus → Json
  | verified eventsApplied =>
    .object [("events_applied", natJson eventsApplied), ("verdict", .string "verified")]
  | incomplete eventsApplied eventsSkipped firstFailure =>
    .object [("events_applied", natJson eventsApplied), ("events_skipped", natJson eventsSkipped),
      ("first_failure", .object [("error", .string firstFailure.error),
        ("event_id", .string firstFailure.eventId),
        ("sequence_number", natJson firstFailure.sequenceNumber)]),
      ("verdict", .string "incomplete")]
  | notAttempted => .object [("verdict", .string "unverified")]

structure MetaData where
  author : String
  created : UInt64
  software : String
  units : String
  vertices : ℕ
  edges : ℕ
  faces : ℕ
  solids : ℕ
  includeSnapshot : Bool
  replayStatus : RosReplayStatus

def MetaData.toJson (m : MetaData) : Json :=
  .object [("author", .string m.author), ("created", natJson m.created.toNat),
    ("edges", natJson m.edges), ("faces", natJson m.faces),
    ("include_snapshot", .bool m.includeSnapshot), ("name", .string "Roshera CAD Model"),
    ("replay_status", m.replayStatus.toValue), ("software", .string m.software),
    ("solids", natJson m.solids), ("units", .string m.units), ("vertices", natJson m.vertices)]

theorem MetaData.get?_replayStatus (m : MetaData) :
    m.toJson.get? "replay_status" = some m.replayStatus.toValue := rfl

/-- JSON text and its reading (`serde_json`). -/
class SerdeJson where
  toString : Json → Bytes
  fromSlice : Bytes → Option Json
  replayStatusFromValue : Json → Option RosReplayStatus

/-! ## Encodings to compute with -/

abbrev exampleHist : MessagePack HistChunk where
  toVecNamed hist :=
    if hist.schemaVersion = 1 ∧ hist.writtenAt = ⟨0⟩ ∧ hist.branches.isEmpty ∧ hist.events.isEmpty
    then some [0x90]
    else none
  fromSlice bytes := if bytes = [0x90] then some (.empty ⟨0⟩) else none

theorem lawful_exampleHist : letI := exampleHist; LawfulMessagePack HistChunk := by
  let := exampleHist
  refine ⟨fun {hist bytes} h ↦ ?_⟩
  obtain ⟨schemaVersion, writtenAt, branches, events⟩ := hist
  have hbytes : (if _ then _ else _) = _ := h
  by_cases hempty : schemaVersion = 1 ∧ writtenAt = ⟨0⟩ ∧ branches.isEmpty ∧ events.isEmpty
  · rw [if_pos hempty] at hbytes
    obtain ⟨rfl, rfl, hbranches, hevents⟩ := hempty
    rw [← Option.some.inj hbytes, List.isEmpty_iff.mp hbranches, List.isEmpty_iff.mp hevents]
    rfl
  · rw [if_neg hempty] at hbytes
    cases hbytes

abbrev exampleProv : MessagePack (ProvChunk Unit) where
  toVecNamed prov := if prov = .empty 0 0 .detailed .default then some [0x91] else none
  fromSlice bytes := if bytes = [0x91] then some (.empty 0 0 .detailed .default) else none

theorem lawful_exampleProv : letI := exampleProv; LawfulMessagePack (ProvChunk Unit) := by
  let := exampleProv
  refine ⟨fun {prov bytes} h ↦ ?_⟩
  have hbytes : (if _ then _ else _) = _ := h
  by_cases hempty : prov = .empty 0 0 .detailed .default
  · rw [if_pos hempty] at hbytes
    rw [← Option.some.inj hbytes, hempty]
    rfl
  · rw [if_neg hempty] at hbytes
    cases hbytes

abbrev exampleSnapshot : MessagePack (BRepSnapshot Unit Unit) where
  toVecNamed s :=
    if s.vertices.isEmpty ∧ s.curves.isEmpty ∧ s.edges.isEmpty ∧ s.loops.isEmpty ∧
        s.faces.isEmpty ∧ s.surfaces.isEmpty ∧ s.shells.isEmpty ∧ s.solids.isEmpty
    then some [0x98]
    else none
  fromSlice bytes := if bytes = [0x98] then some ⟨[], [], [], [], [], [], [], []⟩ else none

theorem lawful_exampleSnapshot :
    letI := exampleSnapshot; LawfulMessagePack (BRepSnapshot Unit Unit) := by
  let := exampleSnapshot
  refine ⟨fun {snapshot bytes} h ↦ ?_⟩
  obtain ⟨vertices, curves, edges, loops, faces, surfaces, shells, solids⟩ := snapshot
  have hbytes : (if _ then _ else _) = _ := h
  by_cases hempty : vertices.isEmpty ∧ curves.isEmpty ∧ edges.isEmpty ∧ loops.isEmpty ∧
      faces.isEmpty ∧ surfaces.isEmpty ∧ shells.isEmpty ∧ solids.isEmpty
  · rw [if_pos hempty] at hbytes
    simp only [List.isEmpty_iff] at hempty
    obtain ⟨rfl, rfl, rfl, rfl, rfl, rfl, rfl, rfl⟩ := hempty
    rw [← Option.some.inj hbytes]
    rfl
  · rw [if_neg hempty] at hbytes
    cases hbytes

mutual

def Json.text : Json → Bytes
  | .null => asciiBytes "null"
  | .bool b => asciiBytes (if b then "true" else "false")
  | .number (.posInt n) => asciiBytes (toString n)
  | .number (.negInt n) => asciiBytes (toString n)
  | .number (.float _) => []
  | .string s => asciiBytes "\"" ++ asciiBytes s ++ asciiBytes "\""
  | .array items => asciiBytes "[" ++ Json.itemTexts items ++ asciiBytes "]"
  | .object entries => [0x7b] ++ Json.entryTexts entries ++ [0x7d]

def Json.itemTexts : List Json → Bytes
  | [] => []
  | [item] => Json.text item
  | item :: items => Json.text item ++ asciiBytes "," ++ Json.itemTexts items

def Json.entryTexts : List (String × Json) → Bytes
  | [] => []
  | [(key, value)] => Json.text (.string key) ++ asciiBytes ":" ++ Json.text value
  | (key, value) :: entries =>
    Json.text (.string key) ++ asciiBytes ":" ++ Json.text value ++ asciiBytes "," ++
      Json.entryTexts entries

end

private def readStatus (value : Json) : Option RosReplayStatus :=
  match (value.get? "verdict").bind Json.asStr? with
  | some "verified" => return .verified (← (value.get? "events_applied").bind Json.asU64?)
  | some "incomplete" => do
    let eventsApplied ← (value.get? "events_applied").bind Json.asU64?
    let eventsSkipped ← (value.get? "events_skipped").bind Json.asU64?
    let failure ← value.get? "first_failure"
    let sequenceNumber ← (failure.get? "sequence_number").bind Json.asU64?
    let eventId ← (failure.get? "event_id").bind Json.asStr?
    let error ← (failure.get? "error").bind Json.asStr?
    return .incomplete eventsApplied eventsSkipped ⟨sequenceNumber, eventId, error⟩
  | some "unverified" => some .notAttempted
  | _ => none

abbrev exampleJson (known : List Json) : SerdeJson where
  toString := Json.text
  fromSlice bytes := known.find? (·.text = bytes)
  replayStatusFromValue := readStatus

theorem replayStatusFromValue_exampleJson (known : List Json) (status : RosReplayStatus) :
    (exampleJson known).replayStatusFromValue status.toValue = some status := by
  rcases status with n | ⟨n, m, ⟨sequenceNumber, eventId, error⟩⟩ | - <;> rfl

end RosheraCad
