import RosheraCad.Library.Float32
import RosheraCad.Ros.Payload

/-!
# The tracker of AI commands

A tracker numbers the commands of each session from zero, by a counter kept with the session, and
the header counts all commands and adds up their times. An addition that overflows panics.
-/

namespace RosheraCad

/-! ## Commands -/

inductive CommandType
  | create | modify | delete | analyze | optimize | simulate | render | generate | transform
  | validate | export | import | custom (code : UInt8)
  deriving DecidableEq

/-- Single AI command provenance record. -/
structure AICommand where
  id : ByteVec 16
  timestamp : UInt64
  sessionId : UInt64
  sequenceNum : UInt32
  commandType : CommandType
  modelId : ByteVec 32
  modelVersion : UInt32
  modelName : Option String
  confidence : F32
  computeTimeMs : UInt32
  tokenCount : Option UInt32
  promptHash : ByteVec 32
  responseHash : ByteVec 32
  resultHash : ByteVec 32
  affectedObjects : List String
  parentCommandId : Option (ByteVec 16)
  prompt : Option String
  response : Option String
  parameters : Option (List (String × Json))
  error : Option String
  userId : Option String
  approvalId : Option String
  tags : List String
  deriving DecidableEq

namespace AICommand

private def zeroHash : ByteVec 32 := List.Vector.replicate 32 0

/-- Create a new AI command record, given its random id and the time. -/
def new (id : ByteVec 16) (timestamp : UInt64) (commandType : CommandType) (modelId : ByteVec 32)
    (modelVersion : UInt32) (sessionId : UInt64) (sequenceNum : UInt32) : AICommand where
  id
  timestamp
  sessionId
  sequenceNum
  commandType
  modelId
  modelVersion
  modelName := none
  confidence := ⟨0⟩
  computeTimeMs := 0
  tokenCount := none
  promptHash := zeroHash
  responseHash := zeroHash
  resultHash := zeroHash
  affectedObjects := []
  parentCommandId := none
  prompt := none
  response := none
  parameters := none
  error := none
  userId := none
  approvalId := none
  tags := []

variable [Sha2]

private def sha256 (data : Bytes) : ByteVec 32 :=
  ⟨Sha2.digest .sha256 data, Sha2.length_digest .sha256 data⟩

def calculateHashes (cmd : AICommand) (prompt response : String) (result : Bytes) : AICommand :=
  { cmd with
    promptHash := sha256 prompt.toUTF8.data.toList
    responseHash := sha256 response.toUTF8.data.toList
    resultHash := sha256 result }

end AICommand

/-- Replacement of personal data by the regular expressions of the tracker. -/
class Anonymizer where
  anonymizeText : String → String

/-! ## The tracker -/

/-- What a command is tracked with: the arguments, then its random id and the time. -/
structure TrackCall where
  commandType : CommandType
  modelId : ByteVec 32
  modelVersion : UInt32
  prompt : String
  response : String
  affectedObjects : List String
  confidence : F32
  computeTimeMs : UInt32
  parameters : Option (List (String × Json))
  id : ByteVec 16
  now : UInt64

def TrackingLevel.shouldTrackPrompts : TrackingLevel → Bool
  | .detailed | .forensic => true
  | .basic => false

def TrackingLevel.shouldTrackResponses : TrackingLevel → Bool
  | .forensic => true
  | _ => false

def TrackingLevel.shouldTrackParameters : TrackingLevel → Bool
  | .forensic => true
  | _ => false

def checkedSucc (n : UInt32) : Option UInt32 :=
  if n.toNat + 1 < 2 ^ 32 then some (n + 1) else none

theorem isSome_checkedSucc {n : UInt32} : (checkedSucc n).isSome ↔ n.toNat + 1 < 2 ^ 32 := by
  rw [checkedSucc]
  split <;> simp_all

theorem checkedSucc_eq_some {n m : UInt32} (h : checkedSucc n = some m) :
    m.toNat = n.toNat + 1 := by
  rw [checkedSucc] at h
  split at h
  · next hlt =>
    cases h
    rw [UInt32.toNat_add]
    exact Nat.mod_eq_of_lt hlt
  · cases h

namespace AICommandTracker

def modifySession (sessions : List (UInt64 × SessionInfo)) (sessionId : UInt64)
    (f : SessionInfo → SessionInfo) : List (UInt64 × SessionInfo) :=
  sessions.map fun e ↦ if e.1 = sessionId then (e.1, f e.2) else e

def startSession (t : AICommandTracker AICommand) (now sessionId : UInt64)
    (userId : Option String) : Option (AICommandTracker AICommand × UInt64) := do
  let info : SessionInfo := ⟨sessionId, now, none, 0, userId, []⟩
  let sessionCount ← checkedSucc t.header.sessionCount
  some ({ t with
    header := { t.header with sessionCount }
    currentSession := sessionId
    sessions := (sessionId, info) :: t.sessions.filter fun e ↦ e.1 ≠ sessionId }, sessionId)

def endSession (t : AICommandTracker AICommand) (now : UInt64) : AICommandTracker AICommand :=
  { t with
    sessions := modifySession t.sessions t.currentSession fun s ↦ { s with endTime := some now } }

variable [Sha2] [Anonymizer]

/-- The record of a command, with what the privacy settings and the level let it keep. -/
def record (t : AICommandTracker AICommand) (call : TrackCall) (sequenceNum : UInt32) : AICommand :=
  let privacy := t.header.privacySettings
  let level := t.header.trackingLevel
  let cmd := AICommand.new call.id call.now call.commandType call.modelId call.modelVersion
    t.currentSession sequenceNum
  let cmd := { cmd with
    confidence := call.confidence
    computeTimeMs := call.computeTimeMs
    affectedObjects := call.affectedObjects }
  let cmd := cmd.calculateHashes call.prompt call.response []
  let cmd :=
    if !privacy.hashOnlyMode && level.shouldTrackPrompts then
      { cmd with
        prompt := some (if privacy.anonymizePrompts then Anonymizer.anonymizeText call.prompt
          else call.prompt) }
    else cmd
  let cmd :=
    if !privacy.excludeResponses && !privacy.hashOnlyMode && level.shouldTrackResponses then
      { cmd with response := some call.response }
    else cmd
  if level.shouldTrackParameters then { cmd with parameters := call.parameters } else cmd

def trackCommand (t : AICommandTracker AICommand) (call : TrackCall) :
    Option (AICommandTracker AICommand × ByteVec 16) := do
  let session := t.sessions.lookup t.currentSession
  let sequenceNum := (session.map SessionInfo.commandCount).getD 0
  let cmd := t.record call sequenceNum
  let commandCount ← checkedSucc t.header.commandCount
  let totalComputeTimeMs ← checkedAdd t.header.totalComputeTimeMs call.computeTimeMs.toUInt64
  let sessions ← match session with
    | some s => do
      let count ← checkedSucc s.commandCount
      some (modifySession t.sessions t.currentSession fun s ↦ { s with commandCount := count })
    | none => some t.sessions
  some ({ t with
    header := { t.header with commandCount, lastTimestamp := cmd.timestamp, totalComputeTimeMs }
    sessions
    commands := t.commands ++ [cmd] }, cmd.id)

end AICommandTracker

def ProvChunk.intoTracker {AICommand : Type} (chunk : ProvChunk AICommand) :
    AICommandTracker AICommand where
  header := chunk.header
  commands := chunk.commands
  currentSession := chunk.session
  sessions := chunk.sessions

/-! ## The validation -/

inductive ProvenanceError
  | commandSequenceError (commandId details : String)
  deriving DecidableEq

namespace AICommandTracker

def sequences (t : AICommandTracker AICommand) (sessionId : UInt64) : List UInt32 :=
  (t.commands.filter fun c ↦ c.sessionId = sessionId).map AICommand.sequenceNum

def validateSequences (sessionId : UInt64) (sorted : List UInt32) : Except ProvenanceError Unit :=
  sorted.zipIdx.forM fun e ↦
    ensure (e.1 = UInt32.ofNat e.2)
      (.commandSequenceError s!"session:{sessionId}" s!"Expected sequence {e.2}, got {e.1}")

/-- Validate command chain integrity. The sessions are those of the commands, in some order. -/
def validateChain (t : AICommandTracker AICommand) : Except ProvenanceError Unit :=
  (t.commands.map AICommand.sessionId).dedup.forM fun sessionId ↦
    validateSequences sessionId ((t.sequences sessionId).mergeSort fun a b ↦ decide (a ≤ b))

end AICommandTracker

section Sessions

variable {sessions : List (UInt64 × SessionInfo)} {id sessionId : UInt64}

theorem lookup_modifySession {f : SessionInfo → SessionInfo} :
    (AICommandTracker.modifySession sessions sessionId f).lookup id =
      if id = sessionId then (sessions.lookup id).map f else sessions.lookup id := by
  induction sessions with
  | nil => simp [AICommandTracker.modifySession]
  | cons e sessions ih =>
    rw [AICommandTracker.modifySession, List.map_cons] at *
    obtain ⟨k, s⟩ := e
    by_cases hk : id = k
    · subst hk
      by_cases hid : id = sessionId
      · simp [hid]
      · simp [hid]
    · by_cases hs : k = sessionId
      · simp [List.lookup_cons, hs, ih, beq_eq_false_iff_ne.mpr (hs ▸ hk)]
      · simp [List.lookup_cons, hs, ih, beq_eq_false_iff_ne.mpr hk]

theorem lookup_filter_ne (h : id ≠ sessionId) :
    (sessions.filter fun e ↦ e.1 ≠ sessionId).lookup id = sessions.lookup id := by
  induction sessions with
  | nil => rfl
  | cons e sessions ih =>
    obtain ⟨k, s⟩ := e
    by_cases hk : k = sessionId
    · rw [List.filter_cons_of_neg (by simpa using hk), ih, List.lookup_cons,
        beq_eq_false_iff_ne.mpr (hk ▸ h)]
    · rw [List.filter_cons_of_pos (by simpa using hk), List.lookup_cons, List.lookup_cons, ih]

end Sessions

/-! ## Runs -/

section Runs

variable [Sha2] [Anonymizer]

/-- The trackers reached by calls that return, and by conversions to a PROV chunk and back. -/
inductive AICommandTracker.Reachable : AICommandTracker AICommand → Prop
  | new (now sessionId : UInt64) (trackingLevel : TrackingLevel)
      (privacySettings : PrivacySettings) :
      Reachable (.new now sessionId trackingLevel privacySettings)
  | startSession {t t' : AICommandTracker AICommand} {now sessionId id : UInt64}
      {userId : Option String} : Reachable t → t.sessions.lookup sessionId = none →
      t.startSession now sessionId userId = some (t', id) → Reachable t'
  | endSession {t : AICommandTracker AICommand} (now : UInt64) :
      Reachable t → Reachable (t.endSession now)
  | trackCommand {t t' : AICommandTracker AICommand} {call : TrackCall} {id : ByteVec 16} :
      Reachable t → t.trackCommand call = some (t', id) → Reachable t'
  | converted {t : AICommandTracker AICommand} :
      Reachable t → Reachable (ProvChunk.fromTracker t).intoTracker

structure AICommandTracker.Counted (t : AICommandTracker AICommand) : Prop where
  current : (t.sessions.lookup t.currentSession).isSome
  known : ∀ c ∈ t.commands, (t.sessions.lookup c.sessionId).isSome
  sequences : ∀ sessionId s, t.sessions.lookup sessionId = some s →
    t.sequences sessionId = (List.range s.commandCount.toNat).map UInt32.ofNat
  commandCount : t.header.commandCount.toNat = t.commands.length
  totalComputeTimeMs : t.header.totalComputeTimeMs.toNat =
    (t.commands.map fun c ↦ c.computeTimeMs.toNat).sum

namespace AICommandTracker

theorem record_fields (t : AICommandTracker AICommand) (call : TrackCall) (sequenceNum : UInt32) :
    (t.record call sequenceNum).sessionId = t.currentSession ∧
      (t.record call sequenceNum).sequenceNum = sequenceNum ∧
      (t.record call sequenceNum).computeTimeMs = call.computeTimeMs := by
  rw [record]
  split_ifs <;> exact ⟨rfl, rfl, rfl⟩

theorem trackCommand_cases {t t' : AICommandTracker AICommand} {call : TrackCall}
    {id : ByteVec 16} {s : SessionInfo} (hs : t.sessions.lookup t.currentSession = some s)
    (h : t.trackCommand call = some (t', id)) :
    ∃ commandCount total count, checkedSucc t.header.commandCount = some commandCount ∧
      checkedAdd t.header.totalComputeTimeMs call.computeTimeMs.toUInt64 = some total ∧
      checkedSucc s.commandCount = some count ∧
      t' = { t with
        header := { t.header with
          commandCount
          lastTimestamp := (t.record call s.commandCount).timestamp
          totalComputeTimeMs := total }
        sessions := modifySession t.sessions t.currentSession fun s ↦
          { s with commandCount := count }
        commands := t.commands ++ [t.record call s.commandCount] } := by
  rw [trackCommand, hs] at h
  simp only [Option.map_some, Option.getD_some, Option.bind_eq_bind, Option.bind_eq_some_iff,
    Option.some.injEq, Prod.mk.injEq] at h
  obtain ⟨commandCount, hcommandCount, total, htotal, count, hcount, _, rfl, rfl, -⟩ := h
  exact ⟨commandCount, total, count, hcommandCount, htotal, hcount, rfl⟩

/-! ### The counters -/

variable {t t' : AICommandTracker AICommand}

omit [Sha2] [Anonymizer] in
theorem Counted.new (now sessionId : UInt64) (trackingLevel : TrackingLevel)
    (privacySettings : PrivacySettings) :
    Counted (.new now sessionId trackingLevel privacySettings) where
  current := by simp [AICommandTracker.new]
  known _ hc := absurd hc List.not_mem_nil
  sequences id s h := by
    by_cases hid : id = sessionId
    · have heq : (⟨sessionId, now, none, 0, none, []⟩ : SessionInfo) = s := by
        simpa [AICommandTracker.new, hid] using h
      rw [← heq]
      rfl
    · simp [AICommandTracker.new, List.lookup_cons, beq_eq_false_iff_ne.mpr hid] at h
  commandCount := rfl
  totalComputeTimeMs := rfl

omit [Sha2] [Anonymizer] in
theorem Counted.sequences_eq_nil (h : t.Counted) {sessionId : UInt64}
    (hfresh : t.sessions.lookup sessionId = none) : t.sequences sessionId = [] := by
  rw [AICommandTracker.sequences, List.map_eq_nil_iff, List.filter_eq_nil_iff]
  intro c hc heq
  have hknown := h.known c hc
  rw [of_decide_eq_true heq, hfresh] at hknown
  cases hknown

omit [Sha2] [Anonymizer] in
theorem Counted.startSession (h : t.Counted) {now sessionId id : UInt64} {userId : Option String}
    (hfresh : t.sessions.lookup sessionId = none)
    (hstart : t.startSession now sessionId userId = some (t', id)) : t'.Counted := by
  obtain ⟨sessionCount, -, hstart⟩ := Option.bind_eq_some_iff.mp hstart
  cases hstart
  have hlookup : ∀ id ≠ sessionId, List.lookup id ((sessionId,
      (⟨sessionId, now, none, 0, userId, []⟩ : SessionInfo)) ::
        t.sessions.filter fun e ↦ e.1 ≠ sessionId) = t.sessions.lookup id := by
    intro id hid
    rw [List.lookup_cons, beq_eq_false_iff_ne.mpr hid, lookup_filter_ne hid]
  refine ⟨by simp, fun c hc ↦ ?_, fun id s hs ↦ ?_, h.commandCount, h.totalComputeTimeMs⟩
  · have hne : c.sessionId ≠ sessionId := by
      rintro heq
      have hknown := h.known c hc
      rw [heq, hfresh] at hknown
      cases hknown
    show (List.lookup _ _).isSome
    rw [hlookup _ hne]
    exact h.known c hc
  · by_cases hid : id = sessionId
    · subst hid
      have heq : (⟨id, now, none, 0, userId, []⟩ : SessionInfo) = s := by simpa using hs
      rw [← heq]
      exact h.sequences_eq_nil hfresh
    · exact h.sequences id s ((hlookup id hid).symm.trans hs)

omit [Sha2] [Anonymizer] in
theorem Counted.endSession (h : t.Counted) (now : UInt64) : (t.endSession now).Counted := by
  have hlookup : ∀ id, (t.endSession now).sessions.lookup id =
      if id = t.currentSession then
        (t.sessions.lookup id).map fun s ↦ { s with endTime := some now }
      else t.sessions.lookup id := by
    intro id
    rw [AICommandTracker.endSession, lookup_modifySession]
  have hisSome : ∀ id, ((t.endSession now).sessions.lookup id).isSome =
      (t.sessions.lookup id).isSome := by
    intro id
    rw [hlookup]
    split <;> simp
  refine ⟨?_, fun c hc ↦ ?_, fun id s hs ↦ ?_, h.commandCount, h.totalComputeTimeMs⟩
  · rw [hisSome]
    exact h.current
  · rw [hisSome]
    exact h.known c hc
  · rw [hlookup] at hs
    split at hs
    · obtain ⟨s₀, hs₀, rfl⟩ := Option.map_eq_some_iff.mp hs
      exact h.sequences id s₀ hs₀
    · exact h.sequences id s hs

theorem Counted.trackCommand (h : t.Counted) {call : TrackCall} {id : ByteVec 16}
    (htrack : t.trackCommand call = some (t', id)) : t'.Counted := by
  obtain ⟨s, hs⟩ := Option.isSome_iff_exists.mp h.current
  obtain ⟨commandCount, total, count, hcommandCount, htotal, hcount, rfl⟩ :=
    trackCommand_cases hs htrack
  obtain ⟨hsession, hnumber, htime⟩ := t.record_fields call s.commandCount
  have hlookup : ∀ id, (modifySession t.sessions t.currentSession fun s ↦
      { s with commandCount := count }).lookup id =
        if id = t.currentSession then
          (t.sessions.lookup id).map fun s ↦ { s with commandCount := count }
        else t.sessions.lookup id := fun id ↦ lookup_modifySession
  have hisSome : ∀ id, ((modifySession t.sessions t.currentSession fun s ↦
      { s with commandCount := count }).lookup id).isSome = (t.sessions.lookup id).isSome := by
    intro id
    rw [hlookup]
    split <;> simp
  refine ⟨(hisSome _).trans h.current, ?_, ?_, ?_, ?_⟩
  · intro c hc
    rw [hisSome]
    rcases List.mem_append.mp hc with hc | hc
    · exact h.known c hc
    · rw [List.mem_singleton.mp hc, hsession]
      exact h.current
  · intro id s' hs'
    rw [hlookup] at hs'
    rw [AICommandTracker.sequences, List.filter_append, List.map_append,
      ← AICommandTracker.sequences]
    by_cases hid : id = t.currentSession
    · rw [if_pos hid, hid, hs] at hs'
      cases hs'
      -- the new command takes the number after those of its session
      rw [List.filter_cons_of_pos (by simp [hsession, hid]), List.filter_nil, hid,
        h.sequences _ s hs, checkedSucc_eq_some hcount, List.range_succ, List.map_append,
        List.map_singleton, List.map_singleton, hnumber, UInt32.ofNat_toNat]
    · rw [if_neg hid] at hs'
      rw [List.filter_cons_of_neg (by simp [hsession, Ne.symm hid]), List.filter_nil,
        List.map_nil, List.append_nil]
      exact h.sequences id s' hs'
  · show commandCount.toNat = _
    rw [checkedSucc_eq_some hcommandCount, h.commandCount, List.length_append,
      List.length_singleton]
  · show total.toNat = _
    rw [checkedAdd_eq_some.mp htotal, h.totalComputeTimeMs, List.map_append, List.sum_append,
      List.map_singleton, List.sum_singleton, htime, UInt32.toNat_toUInt64]

omit [Anonymizer] [Sha2] in
theorem validateSequences_range {n : ℕ} (hn : n < 2 ^ 32) (sessionId : UInt64) :
    validateSequences sessionId
      (((List.range n).map UInt32.ofNat).mergeSort fun a b ↦ decide (a ≤ b)) = .ok () := by
  have hsorted : ((List.range n).map UInt32.ofNat).Pairwise fun a b ↦ decide (a ≤ b) = true := by
    rw [List.pairwise_map]
    refine List.pairwise_lt_range.imp_of_mem fun {i j} _ hj hij ↦ decide_eq_true ?_
    have hj' : j < n := List.mem_range.mp hj
    have hsize : UInt32.size = 2 ^ 32 := rfl
    rw [UInt32.le_iff_toNat_le, UInt32.toNat_ofNat_of_lt' (by omega),
      UInt32.toNat_ofNat_of_lt' (by omega)]
    exact hij.le
  rw [List.mergeSort_of_pairwise hsorted, validateSequences, Except.forM_eq_ok]
  rintro ⟨number, i⟩ hmem
  rw [List.mem_zipIdx_iff_getElem?, List.getElem?_map, Option.map_eq_some_iff] at hmem
  obtain ⟨j, hj, rfl⟩ := hmem
  obtain ⟨hlt, hget⟩ := List.getElem?_eq_some_iff.mp hj
  have hij : j = i := hget.symm.trans (List.getElem_range hlt)
  exact ensure_eq_ok.mpr (congrArg UInt32.ofNat hij)

omit [Anonymizer] [Sha2] in
/-- **The chain of a tracker whose counters are right is valid.** -/
theorem Counted.validateChain (h : t.Counted) : t.validateChain = .ok () := by
  rw [AICommandTracker.validateChain, Except.forM_eq_ok]
  intro sessionId hmem
  obtain ⟨c, hc, rfl⟩ := List.mem_map.mp (List.mem_dedup.mp hmem)
  obtain ⟨s, hs⟩ := Option.isSome_iff_exists.mp (h.known c hc)
  rw [h.sequences c.sessionId s hs]
  exact validateSequences_range s.commandCount.toNat_lt c.sessionId

omit [Anonymizer] [Sha2] in
theorem Counted.commandCount_eq_countP (h : t.Counted) {sessionId : UInt64} {s : SessionInfo}
    (hs : t.sessions.lookup sessionId = some s) :
    s.commandCount.toNat = t.commands.countP fun c ↦ c.sessionId = sessionId := by
  have hlength := congrArg List.length (h.sequences sessionId s hs)
  rw [AICommandTracker.sequences, List.length_map, List.length_map, List.length_range] at hlength
  rw [List.countP_eq_length_filter]
  exact hlength.symm

theorem Counted.isSome_trackCommand (h : t.Counted) (call : TrackCall) :
    (t.trackCommand call).isSome ↔ t.commands.length + 1 < 2 ^ 32 := by
  obtain ⟨s, hs⟩ := Option.isSome_iff_exists.mp h.current
  constructor
  · intro htrack
    obtain ⟨⟨t', id⟩, htrack⟩ := Option.isSome_iff_exists.mp htrack
    obtain ⟨commandCount, -, -, hcount, -⟩ := trackCommand_cases hs htrack
    rw [← h.commandCount]
    exact isSome_checkedSucc.mp (by rw [hcount, Option.isSome_some])
  · intro hlt
    obtain ⟨commandCount, hcommandCount⟩ := Option.isSome_iff_exists.mp
      (isSome_checkedSucc.mpr (h.commandCount.symm ▸ hlt))
    obtain ⟨count, hcount⟩ : ∃ count, checkedSucc s.commandCount = some count := by
      refine Option.isSome_iff_exists.mp (isSome_checkedSucc.mpr ?_)
      rw [h.commandCount_eq_countP hs]
      have hle := List.countP_le_length (p := fun c ↦ c.sessionId = t.currentSession)
        (l := t.commands)
      omega
    -- each time is below the width of a counter, and there are fewer of them
    have hsum : ∀ l : List AICommand,
        (l.map fun c ↦ c.computeTimeMs.toNat).sum ≤ l.length * (2 ^ 32 - 1) := by
      intro l
      induction l with
      | nil => exact le_rfl
      | cons c l ih =>
        have hc := c.computeTimeMs.toNat_lt
        rw [List.map_cons, List.sum_cons, List.length_cons]
        omega
    have htotal : t.header.totalComputeTimeMs.toNat + call.computeTimeMs.toUInt64.toNat <
        2 ^ 64 := by
      have hle := hsum t.commands
      have hc := call.computeTimeMs.toNat_lt
      rw [h.totalComputeTimeMs, UInt32.toNat_toUInt64]
      omega
    have hadd : checkedAdd t.header.totalComputeTimeMs call.computeTimeMs.toUInt64 =
        some (t.header.totalComputeTimeMs + call.computeTimeMs.toUInt64) := if_pos htotal
    rw [AICommandTracker.trackCommand, hs]
    simp [hcommandCount, hcount, hadd]

theorem Reachable.counted (h : t.Reachable) : t.Counted := by
  induction h with
  | new now sessionId trackingLevel privacySettings => exact .new now sessionId _ _
  | startSession _ hfresh hstart ih => exact ih.startSession hfresh hstart
  | endSession now _ ih => exact ih.endSession now
  | trackCommand _ htrack ih => exact ih.trackCommand htrack
  | converted _ ih => exact ih

/-- **Every tracker reached counts its commands.** Its chain is valid, the header counts all and
adds up their times, and each session counts its own. -/
theorem Reachable.validateChain_and_counts (h : t.Reachable) :
    t.validateChain = .ok () ∧
      t.header.commandCount.toNat = t.commands.length ∧
      (∀ sessionId s, t.sessions.lookup sessionId = some s →
        s.commandCount.toNat = t.commands.countP fun c ↦ c.sessionId = sessionId) ∧
      t.header.totalComputeTimeMs.toNat =
        (t.commands.map fun c ↦ c.computeTimeMs.toNat).sum := by
  have hcounted := h.counted
  exact ⟨hcounted.validateChain, hcounted.commandCount,
    fun _ _ hs ↦ hcounted.commandCount_eq_countP hs, hcounted.totalComputeTimeMs⟩

end AICommandTracker

end Runs

/-! ## A run to compute with -/

def exampleTrackCall (computeTimeMs : UInt32) : TrackCall where
  commandType := .create
  modelId := List.Vector.replicate 32 1
  modelVersion := 1
  prompt := "a cube"
  response := "done"
  affectedObjects := ["cube"]
  confidence := ⟨0x3f800000⟩
  computeTimeMs
  parameters := none
  id := List.Vector.replicate 16 0
  now := 0

namespace AICommandTracker

/-- A session started, a command in it, its end, and another command after a conversion. -/
def exampleRun [Sha2] [Anonymizer] : Option (AICommandTracker AICommand) :=
  ((AICommandTracker.new 0 7 .detailed .default).startSession 1 8 none).bind fun s ↦
    (s.1.trackCommand (exampleTrackCall 5)).bind fun s ↦
      ((ProvChunk.fromTracker (s.1.endSession 2)).intoTracker.trackCommand
        (exampleTrackCall 6)).map Prod.fst

theorem exampleRun_reachable [Sha2] [Anonymizer] {t : AICommandTracker AICommand}
    (h : exampleRun = some t) : t.Reachable := by
  obtain ⟨⟨t₁, id₁⟩, h₁, h⟩ := Option.bind_eq_some_iff.mp h
  obtain ⟨⟨t₂, id₂⟩, h₂, h⟩ := Option.bind_eq_some_iff.mp h
  obtain ⟨⟨t₃, id₃⟩, h₃, rfl⟩ := Option.map_eq_some_iff.mp h
  have hnew : Reachable (.new 0 7 .detailed .default) := .new 0 7 .detailed .default
  have hreach : t₂.Reachable := (hnew.startSession (by decide) h₁).trackCommand h₂
  exact (hreach.endSession 2).converted.trackCommand h₃

/-- The run of two commands, one of them after the end of its session. -/
theorem validateChain_exampleRun :
    letI := exampleSha2
    letI : Anonymizer := ⟨id⟩
    ∃ t, exampleRun = some t ∧ t.validateChain = .ok () ∧ t.header.commandCount.toNat = 2 ∧
      t.header.totalComputeTimeMs.toNat = 11 := by
  let := exampleSha2
  let : Anonymizer := ⟨id⟩
  have hsome : (exampleRun.map fun t ↦ t.commands.map fun c ↦ c.computeTimeMs.toNat) =
      some [5, 6] := by
    decide +kernel
  obtain ⟨t, hrun, htimes⟩ := Option.map_eq_some_iff.mp hsome
  obtain ⟨hvalid, hcount, -, htotal⟩ := (exampleRun_reachable hrun).validateChain_and_counts
  refine ⟨t, hrun, hvalid, ?_, ?_⟩
  · rw [hcount, ← List.length_map, htimes]
    rfl
  · rw [htotal, htimes]
    rfl

end AICommandTracker

end RosheraCad
