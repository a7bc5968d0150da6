import RosheraCad.KernelRef
import RosheraCad.Library.Run

/-!
# Append-only event log

Events are written one after another into segment files. An append returns where its entry stands:
the segment, and the offset the file reported before the write. A file opened for appending reports
position zero until something is written through it.
-/

namespace RosheraCad

/-! ## Bytes -/

def u32ToLe (n : ℕ) : Bytes :=
  [UInt8.ofNat n, UInt8.ofNat (n / 256), UInt8.ofNat (n / 256 ^ 2), UInt8.ofNat (n / 256 ^ 3)]

def u32FromLe (bytes : Bytes) : ℕ := bytes.foldr (fun b n ↦ b.toNat + 256 * n) 0

theorem u32FromLe_u32ToLe {n : ℕ} (h : n < 2 ^ 32) : u32FromLe (u32ToLe n) = n := by
  simp only [u32FromLe, u32ToLe, List.foldr_cons, List.foldr_nil, UInt8.toNat_ofNat']
  omega

/-! ## The entries of a log -/

structure EventHeader where
  magic : ℕ
  version : ℕ
  eventId : Uuid
  size : ℕ
  checksum : ℕ
  compressed : Bool
  deriving DecidableEq

def magicNumber : ℕ := 0x54494D45

/-- What the log uses of the serialization, compression and checksum libraries. -/
class EventCodec where
  serialize : TimelineEvent → Except String Bytes
  deserialize : Bytes → Except String TimelineEvent
  serializeHeader : EventHeader → Except String Bytes
  deserializeHeader : Bytes → Except String EventHeader
  compress : Bytes → Bytes
  decompress : Bytes → Except String Bytes
  crc32 : Bytes → ℕ

open EventCodec in
/-- The libraries round-trip, and a header is small. -/
class LawfulEventCodec [EventCodec] : Prop where
  deserialize_serialize {e : TimelineEvent} {b : Bytes} (h : serialize e = .ok b) :
    deserialize b = .ok e
  deserialize_serializeHeader {header : EventHeader} {b : Bytes}
    (h : serializeHeader header = .ok b) : deserializeHeader b = .ok header
  length_serializeHeader {header : EventHeader} {b : Bytes} (h : serializeHeader header = .ok b) :
    b.length ≤ 4096
  decompress_compress (b : Bytes) : decompress (compress b) = .ok b

structure EventLocation where
  segment : ℕ
  offset : ℕ
  size : ℕ
  deriving DecidableEq

inductive EventLogError
  | notFound (path : String)
  | unexpectedEof
  | writeFailed
  | invalidData (message : String)
  | serializationError (message : String)
  deriving DecidableEq

/-! ## The state -/

structure OpenFile where
  name : String
  cursor : ℕ
  deriving DecidableEq

structure EventLog where
  files : OrderedMap String Bytes
  currentSegment : ℕ
  currentFile : Option OpenFile
  currentSize : ℕ
  maxSegmentSize : ℕ
  compressionEnabled : Bool

variable {header : EventHeader}

namespace EventLog

def segmentName (segment : ℕ) : String :=
  let digits := Nat.toDigits 10 segment
  String.ofList ("segment_".toList ++ List.replicate (8 - digits.length) '0' ++ digits ++
    ".log".toList)

def segmentNumber (name : String) : Option ℕ :=
  if "segment_".toList.isPrefixOf name.toList ∧ ".log".toList.isSuffixOf name.toList then
    (KernelRef.parseU64 ((name.toList.drop 8).take 8)).map BitVec.toNat
  else none

def findLatestSegment (files : OrderedMap String Bytes) : ℕ :=
  files.keys.foldl (fun latest name ↦
    match segmentNumber name with
    | some n => max latest n
    | none => latest) 0

/-- Create a new event log on a directory. -/
def new (files : OrderedMap String Bytes) (compressionEnabled : Bool) : EventLog where
  files := files
  currentSegment := findLatestSegment files
  currentFile := none
  currentSize := 0
  maxSegmentSize := 100 * 1024 * 1024
  compressionEnabled := compressionEnabled

def content (log : EventLog) (name : String) : Bytes := log.files[name]?.getD []

/-! ## Appending -/

structure Appending where
  event : TimelineEvent
  payload : Bytes
  rotate : Bool

section Codec

variable [EventCodec]

open EventCodec

/-- The first part of an append: serialize, compress, check the size of the segment. -/
def prepare (log : EventLog) (event : TimelineEvent) : Except EventLogError Appending :=
  match serialize event with
  | .error message => .error (.serializationError message)
  | .ok data =>
    let compressed := if log.compressionEnabled then compress data else data
    .ok ⟨event, compressed, log.maxSegmentSize < log.currentSize + compressed.length⟩

def rotateSegment (log : EventLog) : EventLog :=
  { log with
    currentFile := none
    currentSegment := log.currentSegment + 1
    currentSize := 0 }

def rotateFails (log : EventLog) : EventLog := { log with currentFile := none }

def openCurrent (log : EventLog) : EventLog × OpenFile :=
  match log.currentFile with
  | some file => (log, file)
  | none =>
    let file : OpenFile := ⟨segmentName log.currentSegment, 0⟩
    ({ log with
        files := log.files.insert file.name (log.content file.name)
        currentFile := some file }, file)

def entryHeader (log : EventLog) (a : Appending) : EventHeader where
  magic := magicNumber
  version := 1
  eventId := a.event.id.uuid
  size := a.payload.length % 2 ^ 32
  checksum := crc32 a.payload
  compressed := log.compressionEnabled

def entryBytes (log : EventLog) (a : Appending) : Except EventLogError Bytes :=
  match serializeHeader (log.entryHeader a) with
  | .error message => .error (.serializationError message)
  | .ok header =>
    if header.length < 2 ^ 32 then .ok (u32ToLe header.length ++ header ++ a.payload)
    else .error (.serializationError
      ("event header too large: " ++ toString header.length ++ " bytes"))

def writeAll (log : EventLog) (file : OpenFile) (bytes : Bytes) : EventLog :=
  if bytes = [] then log
  else
    let content := log.content file.name ++ bytes
    { log with
      files := log.files.insert file.name content
      currentFile := some ⟨file.name, content.length⟩ }

def writeEntry (log : EventLog) (a : Appending) (cut : Option ℕ) :
    EventLog × Except EventLogError EventLocation :=
  let (log, file) := log.openCurrent
  match log.entryBytes a with
  | .error e => (log, .error e)
  | .ok bytes =>
    match cut with
    | some n => (log.writeAll file (bytes.take n), .error .writeFailed)
    | none =>
      let log := log.writeAll file bytes
      ({ log with currentSize := log.currentSize + bytes.length },
        .ok ⟨log.currentSegment % 2 ^ 32, file.cursor, bytes.length % 2 ^ 32⟩)

def readExact (n : ℕ) (bytes : Bytes) : Except EventLogError (Bytes × Bytes) :=
  if n ≤ bytes.length then .ok (bytes.take n, bytes.drop n) else .error .unexpectedEof

def readData (header : EventHeader) (rest : Bytes) : Except EventLogError TimelineEvent := do
  if header.magic ≠ magicNumber then .error (.invalidData "Invalid magic number")
  let (data, _) ← readExact header.size rest
  if crc32 data ≠ header.checksum then .error (.invalidData "Checksum mismatch")
  let decompressed ←
    if header.compressed then
      (decompress data).mapError fun e ↦ .invalidData ("Decompression failed: " ++ e)
    else .ok data
  (deserialize decompressed).mapError .serializationError

def readEvent (log : EventLog) (location : EventLocation) : Except EventLogError TimelineEvent := do
  let name := segmentName location.segment
  let content ← match log.files[name]? with
    | some content => Except.ok content
    | none => .error (.notFound name)
  let (lengthBytes, rest) ← readExact 4 (content.drop location.offset)
  let headerLength := u32FromLe lengthBytes
  if 4096 < headerLength then
    .error (.invalidData ("event header length out of range: " ++ toString headerLength))
  let (headerBytes, rest) ← readExact headerLength rest
  let header ← (deserializeHeader headerBytes).mapError .serializationError
  readData header rest

end Codec

/-! ## What a write does -/

def Grows (files files' : OrderedMap String Bytes) : Prop :=
  ∀ (name : String) (content : Bytes), files[name]? = some content →
    ∃ more, files'[name]? = some (content ++ more)

theorem Grows.refl (files : OrderedMap String Bytes) : Grows files files :=
  fun _ content h ↦ ⟨[], by rw [h, List.append_nil]⟩

theorem Grows.trans {a b c : OrderedMap String Bytes} (hab : Grows a b) (hbc : Grows b c) :
    Grows a c := by
  intro name content h
  obtain ⟨more, h⟩ := hab name content h
  obtain ⟨rest, h⟩ := hbc name _ h
  exact ⟨more ++ rest, by rw [h, List.append_assoc]⟩

theorem Grows.insert (log : EventLog) (name : String) (more : Bytes) :
    Grows log.files (log.files.insert name (log.content name ++ more)) := by
  intro other content h
  rw [OrderedMap.lookup_insert]
  by_cases heq : other = name
  · subst heq
    exact ⟨more, by rw [if_pos rfl, EventLog.content, h, Option.getD_some]⟩
  · exact ⟨[], by rw [if_neg heq, h, List.append_nil]⟩

/-- A file is that of the current segment, and its cursor is at the end. -/
def Tracked (log : EventLog) (file : OpenFile) : Prop :=
  file.name = segmentName log.currentSegment ∧ (log.content file.name).length = file.cursor

variable {log : EventLog}

theorem openCurrent_spec (htracked : ∀ f, log.currentFile = some f → Tracked log f)
    (hempty : log.currentFile = none → log.content (segmentName log.currentSegment) = []) :
    ∃ log' file, log.openCurrent = (log', file) ∧ Tracked log' file ∧
      log'.currentFile = some file ∧ Grows log.files log'.files ∧
      log'.currentSegment = log.currentSegment ∧
      log'.compressionEnabled = log.compressionEnabled := by
  rcases hfile : log.currentFile with _ | file
  · have hopen : log.openCurrent = ({ log with
        files := log.files.insert (segmentName log.currentSegment)
          (log.content (segmentName log.currentSegment))
        currentFile := some ⟨segmentName log.currentSegment, 0⟩ },
        ⟨segmentName log.currentSegment, 0⟩) := by
      rw [openCurrent, hfile]
    refine ⟨_, _, hopen, ⟨rfl, ?_⟩, rfl, ?_, rfl, rfl⟩
    · have := hempty hfile
      simp [EventLog.content] at this ⊢
      exact this
    · have hgrows := Grows.insert log (segmentName log.currentSegment) []
      rwa [List.append_nil] at hgrows
  · exact ⟨log, file, by rw [openCurrent, hfile], htracked file hfile, hfile, .refl _, rfl, rfl⟩

theorem writeAll_spec {file : OpenFile} (hopen : log.currentFile = some file)
    (htracked : Tracked log file) (bytes : Bytes) :
    (∀ f, (log.writeAll file bytes).currentFile = some f → Tracked (log.writeAll file bytes) f) ∧
      Grows log.files (log.writeAll file bytes).files ∧
      (log.writeAll file bytes).currentSegment = log.currentSegment ∧
      (log.writeAll file bytes).compressionEnabled = log.compressionEnabled := by
  unfold writeAll
  split_ifs with hbytes
  · refine ⟨fun f hf ↦ ?_, .refl _, rfl, rfl⟩
    rw [hopen] at hf
    exact Option.some_inj.mp hf ▸ htracked
  · refine ⟨fun f hf ↦ ?_, .insert log file.name bytes, rfl, rfl⟩
    obtain rfl := Option.some_inj.mp hf
    refine ⟨htracked.1, ?_⟩
    simp [EventLog.content]

theorem readExact_append (a b : Bytes) : readExact a.length (a ++ b) = .ok (a, b) := by
  simp [readExact]

section Lawful

variable [EventCodec] {event : TimelineEvent}

open EventCodec

/-! ## Reading an entry back -/

structure IsEntry (event : TimelineEvent) (entry : Bytes) (header : EventHeader)
    (headerBytes payload : Bytes) : Prop where
  entry_eq : entry = u32ToLe headerBytes.length ++ headerBytes ++ payload
  header_eq : serializeHeader header = .ok headerBytes
  magic_eq : header.magic = magicNumber
  size_eq : header.size = payload.length
  checksum_eq : header.checksum = crc32 payload
  payload_eq : ∃ data, serialize event = .ok data ∧
    payload = if header.compressed then compress data else data

/-- The data of an append on its way is its event, serialized and perhaps compressed. -/
def Prepared (compressionEnabled : Bool) (a : Appending) : Prop :=
  ∃ data, serialize a.event = .ok data ∧
    a.payload = if compressionEnabled then compress data else data

def Stored (files : OrderedMap String Bytes) (location : EventLocation) (event : TimelineEvent) :
    Prop :=
  ∃ before entry after header headerBytes payload, IsEntry event entry header headerBytes payload ∧
    files[segmentName location.segment]? = some (before ++ (entry ++ after)) ∧
    before.length = location.offset

theorem Stored.mono {files files' : OrderedMap String Bytes} {location : EventLocation}
    (h : Stored files location event) (hgrows : Grows files files') :
    Stored files' location event := by
  obtain ⟨before, entry, after, header, headerBytes, payload, hentry, hfile, hoffset⟩ := h
  obtain ⟨more, hfile⟩ := hgrows _ _ hfile
  refine ⟨before, entry, after ++ more, header, headerBytes, payload, hentry, ?_, hoffset⟩
  rw [hfile]
  simp only [List.append_assoc]

theorem stored_writeAll {file : OpenFile} (htracked : Tracked log file)
    (hsegment : log.currentSegment < 2 ^ 32) {entry headerBytes : Bytes}
    {payload : Bytes}
    (hentry : IsEntry event entry header headerBytes payload) (size : ℕ) :
    Stored (log.writeAll file entry).files ⟨log.currentSegment % 2 ^ 32, file.cursor, size⟩
      event := by
  have hne : entry ≠ [] := by
    rw [hentry.entry_eq]
    simp [u32ToLe]
  refine ⟨log.content file.name, entry, [], header, headerBytes, payload, hentry, ?_, htracked.2⟩
  rw [writeAll, if_neg hne, Nat.mod_eq_of_lt hsegment, ← htracked.1]
  simp

theorem isEntry_of_entryBytes {a : Appending} {bytes : Bytes}
    (h : log.entryBytes a = .ok bytes) (hsize : a.payload.length < 2 ^ 32)
    (hprepared : Prepared log.compressionEnabled a) :
    ∃ headerBytes, IsEntry a.event bytes (log.entryHeader a) headerBytes a.payload := by
  rw [entryBytes] at h
  rcases hheader : serializeHeader (log.entryHeader a) with _ | headerBytes
  · simp [hheader] at h
  · simp only [hheader] at h
    split_ifs at h with hlength
    exact ⟨headerBytes, (Except.ok.inj h).symm, hheader, rfl, Nat.mod_eq_of_lt hsize, rfl,
      hprepared⟩

variable [LawfulEventCodec]

theorem readData_of_isEntry {entry headerBytes payload : Bytes}
    (h : IsEntry event entry header headerBytes payload) (after : Bytes) :
    readData header (payload ++ after) = .ok event := by
  obtain ⟨data, hdata, hpayload⟩ := h.payload_eq
  have hread : readExact header.size (payload ++ after) = .ok (payload, after) := by
    rw [h.size_eq, readExact_append]
  have hdecode := LawfulEventCodec.deserialize_serialize hdata
  by_cases hcompressed : header.compressed
  · rw [if_pos hcompressed] at hpayload
    subst hpayload
    simp [readData, h.magic_eq, hread, h.checksum_eq, hcompressed, bind, Except.bind,
      LawfulEventCodec.decompress_compress, hdecode, Except.mapError]
  · rw [if_neg hcompressed] at hpayload
    subst hpayload
    simp [readData, h.magic_eq, hread, h.checksum_eq, hcompressed, bind, Except.bind,
      hdecode, Except.mapError]

theorem readEvent_of_stored {location : EventLocation}
    (h : Stored log.files location event) : log.readEvent location = .ok event := by
  obtain ⟨before, entry, after, header, headerBytes, payload, hentry, hfile, hoffset⟩ := h
  have hcap := LawfulEventCodec.length_serializeHeader hentry.header_eq
  have hdrop : (before ++ (entry ++ after)).drop location.offset =
      u32ToLe headerBytes.length ++ (headerBytes ++ (payload ++ after)) := by
    rw [← hoffset, List.drop_left, hentry.entry_eq]
    simp only [List.append_assoc]
  have hlength : readExact 4 (u32ToLe headerBytes.length ++ (headerBytes ++ (payload ++ after))) =
      .ok (u32ToLe headerBytes.length, headerBytes ++ (payload ++ after)) :=
    readExact_append (u32ToLe headerBytes.length) _
  have hvalue : u32FromLe (u32ToLe headerBytes.length) = headerBytes.length :=
    u32FromLe_u32ToLe (by omega)
  have hheader := LawfulEventCodec.deserialize_serializeHeader hentry.header_eq
  simp [readEvent, hfile, hdrop, hlength, hvalue, Nat.not_lt.mpr hcap, readExact_append, hheader,
    bind, Except.bind, Except.mapError, readData_of_isEntry hentry]

end Lawful

end EventLog

/-! ## Runs -/

/-- A log in use: the appends on their way, and the locations that were returned so far. -/
structure LogRun where
  log : EventLog
  pending : List EventLog.Appending
  returned : List (EventLocation × TimelineEvent)

/-- Several appends may be on their way, and each step of one may come between those of another. -/
inductive LogAction
  | call (event : TimelineEvent)
  | rotate (i : ℕ) (flushed : Bool)
  | write (i : ℕ) (cut : Option ℕ)
  | restart (compressionEnabled : Bool)

namespace LogRun

section Run

variable [EventCodec] {s : LogRun}

def enabled (s : LogRun) : LogAction → Prop
  | .call _ => True
  | .rotate i _ => ∃ a, s.pending[i]? = some a ∧ a.rotate = true
  | .write i _ => ∃ a, s.pending[i]? = some a ∧ a.rotate = false
  | .restart _ => True

def step (s : LogRun) : LogAction → LogRun
  | .call event =>
    match s.log.prepare event with
    | .ok a => { s with pending := s.pending ++ [a] }
    | .error _ => s
  | .rotate i flushed =>
    if flushed then
      { s with
        log := s.log.rotateSegment
        pending := s.pending.modify i fun a ↦ { a with rotate := false } }
    else { s with log := s.log.rotateFails, pending := s.pending.eraseIdx i }
  | .write i cut =>
    match s.pending[i]? with
    | none => s
    | some a =>
      match s.log.writeEntry a cut with
      | (log, .ok location) =>
        ⟨log, s.pending.eraseIdx i, s.returned ++ [(location, a.event)]⟩
      | (log, .error _) => { s with log := log, pending := s.pending.eraseIdx i }
  | .restart compressionEnabled => ⟨.new s.log.files compressionEnabled, [], s.returned⟩

/-- A log on an empty directory, and all that may happen to it. -/
def system (compressionEnabled : Bool) : GuardedSystem LogRun LogAction where
  init := ⟨.new ∅ compressionEnabled, [], []⟩
  enabled := enabled
  step := step

/-- A write goes to a file that is open or empty; and the numbers fit into 32 bits. -/
def WritesTracked (s : LogRun) : LogAction → Prop
  | .write i _ =>
    (s.log.currentFile = none →
      s.log.content (EventLog.segmentName s.log.currentSegment) = []) ∧
    s.log.currentSegment < 2 ^ 32 ∧ ∀ a, s.pending[i]? = some a → a.payload.length < 2 ^ 32
  | _ => True

/-! ### What a run keeps -/

/-- What a run keeps while it opens empty files only. -/
structure Inv (s : LogRun) : Prop where
  tracked : ∀ file, s.log.currentFile = some file →
    file.name = EventLog.segmentName s.log.currentSegment ∧
      (s.log.content file.name).length = file.cursor
  prepared : ∀ a ∈ s.pending, EventLog.Prepared s.log.compressionEnabled a
  stored : ∀ p ∈ s.returned, EventLog.Stored s.log.files p.1 p.2

theorem inv_init (compressionEnabled : Bool) : Inv (system compressionEnabled).init := by
  refine ⟨fun file hfile ↦ ?_, fun a ha ↦ ?_, fun p hp ↦ ?_⟩
  · exact nomatch hfile
  · exact absurd ha List.not_mem_nil
  · exact absurd hp List.not_mem_nil

theorem Inv.call (h : Inv s) (event : TimelineEvent) :
    Inv (s.step (.call event)) := by
  rw [step]
  rcases hprepare : s.log.prepare event with _ | a
  · exact h
  · refine ⟨h.tracked, fun b hb ↦ ?_, h.stored⟩
    rcases List.mem_append.mp hb with hb | hb
    · exact h.prepared b hb
    · obtain rfl := List.mem_singleton.mp hb
      rw [EventLog.prepare] at hprepare
      rcases hdata : EventCodec.serialize event with _ | data
      · simp [hdata] at hprepare
      · simp only [hdata, Except.ok.injEq] at hprepare
        subst hprepare
        exact ⟨data, hdata, rfl⟩

theorem Inv.rotate (h : Inv s) (i : ℕ) (flushed : Bool) :
    Inv (s.step (.rotate i flushed)) := by
  rw [step]
  split_ifs
  · refine ⟨fun file hfile ↦ (nomatch hfile), fun a ha ↦ ?_, h.stored⟩
    obtain ⟨j, hj⟩ := List.mem_iff_getElem?.mp ha
    rw [List.getElem?_modify] at hj
    obtain ⟨b, hb, rfl⟩ := Option.map_eq_some_iff.mp hj
    have hprepared := h.prepared b (List.mem_of_getElem? hb)
    rcases eq_or_ne i j with rfl | hij
    · rw [if_pos rfl]
      exact hprepared
    · rw [if_neg hij]
      exact hprepared
  · refine ⟨fun file hfile ↦ (nomatch hfile), fun a ha ↦ ?_, h.stored⟩
    exact h.prepared a (List.mem_of_mem_eraseIdx ha)

theorem Inv.write [LawfulEventCodec] (h : Inv s) {i : ℕ} {cut : Option ℕ}
    (hguard : s.WritesTracked (.write i cut)) : Inv (s.step (.write i cut)) := by
  obtain ⟨hempty, hsegment, hsize⟩ := hguard
  rw [step]
  rcases hi : s.pending[i]? with _ | a
  · exact h
  have hprepared := h.prepared a (List.mem_of_getElem? hi)
  have hrest : ∀ b ∈ s.pending.eraseIdx i, EventLog.Prepared s.log.compressionEnabled b :=
    fun b hb ↦ h.prepared b (List.mem_of_mem_eraseIdx hb)
  obtain ⟨log, file, hopen, htracked, hcurrent, hgrows, hseg, hcomp⟩ :=
    EventLog.openCurrent_spec h.tracked hempty
  rw [← hseg] at hsegment
  rw [← hcomp] at hprepared hrest
  simp only [EventLog.writeEntry, hopen]
  rcases hbytes : log.entryBytes a with _ | bytes
  · refine ⟨fun f hf ↦ ?_, hrest, fun p hp ↦ (h.stored p hp).mono hgrows⟩
    rw [hcurrent] at hf
    exact Option.some_inj.mp hf ▸ htracked
  · rcases cut with _ | n
    · obtain ⟨htracked', hgrows', hseg', hcomp'⟩ :=
        EventLog.writeAll_spec hcurrent htracked bytes
      obtain ⟨headerBytes, hentry⟩ := EventLog.isEntry_of_entryBytes hbytes (hsize a hi) hprepared
      refine ⟨htracked', by simpa only [hcomp'] using hrest, fun p hp ↦ ?_⟩
      rcases List.mem_append.mp hp with hp | hp
      · exact (h.stored p hp).mono (hgrows.trans hgrows')
      · obtain rfl := List.mem_singleton.mp hp
        simp only [hseg']
        exact EventLog.stored_writeAll htracked hsegment hentry _
    · -- a torn write is not returned, and what follows it is written behind
      obtain ⟨htracked', hgrows', -, hcomp'⟩ :=
        EventLog.writeAll_spec hcurrent htracked (bytes.take n)
      exact ⟨htracked', by simpa only [hcomp'] using hrest,
        fun p hp ↦ (h.stored p hp).mono (hgrows.trans hgrows')⟩

theorem Inv.restart (h : Inv s) (compressionEnabled : Bool) :
    Inv (s.step (.restart compressionEnabled)) := by
  refine ⟨fun file hfile ↦ ?_, fun a ha ↦ ?_, h.stored⟩
  · exact nomatch hfile
  · exact absurd ha List.not_mem_nil

/-- **What an append returned reads back, at any later time**, over every run in which every write
goes to a file that is open or empty. -/
theorem readEvent_returned [LawfulEventCodec] {compressionEnabled : Bool} {s : LogRun}
    (h : (system compressionEnabled).ReachableUnder WritesTracked s) :
    ∀ p ∈ s.returned, s.log.readEvent p.1 = .ok p.2 := by
  have hinv : Inv s := by
    refine h.invariant Inv (inv_init compressionEnabled) fun s i _ hs _ hguard ↦ ?_
    rcases i with event | ⟨i, flushed⟩ | ⟨i, cut⟩ | compressionEnabled
    · exact hs.call event
    · exact hs.rotate i flushed
    · exact hs.write hguard
    · exact hs.restart compressionEnabled
  exact fun p hp ↦ EventLog.readEvent_of_stored (hinv.stored p hp)

end Run

/-! ### Runs with concrete libraries -/

def sampleEvent (n : ℕ) : TimelineEvent :=
  { TimelineEvent.ofWire n "noop" [] [] with operation := .generic "noop" .null }

def sampleBytes : TimelineEvent → Except String Bytes
  | ⟨id, seq, .system, .generic kind .null, ⟨[], [], .null⟩, ⟨[], [], []⟩, branch⟩ =>
    if id = ⟨BitVec.ofNat 128 seq⟩ ∧ kind = "noop" ∧ branch = .main ∧ seq < 256 then
      .ok [UInt8.ofNat seq]
    else .error "no sample"
  | _ => .error "no sample"

def sampleHeader (n : ℕ) : EventHeader := ⟨magicNumber, 1, BitVec.ofNat 128 n, 1, n, false⟩

def sampleHeaderBytes (header : EventHeader) : Except String Bytes :=
  if header = sampleHeader header.checksum ∧ header.checksum < 256 then
    .ok [UInt8.ofNat header.checksum]
  else .error "no sample"

def sampleNumber : Bytes → Except String ℕ
  | [n] => .ok n.toNat
  | _ => .error "no sample"

@[reducible] def sampleCodec : EventCodec where
  serialize := sampleBytes
  deserialize b := (sampleNumber b).map sampleEvent
  serializeHeader := sampleHeaderBytes
  deserializeHeader b := (sampleNumber b).map sampleHeader
  compress b := b
  decompress b := .ok b
  crc32 b := u32FromLe (b.take 4)

private theorem sampleNumber_ofNat {n : ℕ} (h : n < 256) :
    sampleNumber [UInt8.ofNat n] = .ok n := by
  rw [sampleNumber, UInt8.toNat_ofNat', Nat.mod_eq_of_lt h]

private theorem sampleHeaderBytes_eq_ok {b : Bytes}
    (h : sampleHeaderBytes header = .ok b) : b = [UInt8.ofNat header.checksum] ∧
      header.checksum < 256 ∧ header = sampleHeader header.checksum := by
  rw [sampleHeaderBytes] at h
  split_ifs at h with hsample
  exact ⟨(Except.ok.inj h).symm, hsample.2, hsample.1⟩

theorem sampleCodec_lawful : @LawfulEventCodec sampleCodec := by
  refine @LawfulEventCodec.mk sampleCodec (fun {e b} h ↦ ?_) (fun {header b} h ↦ ?_)
    (fun {header b} h ↦ ?_) fun b ↦ rfl
  · change sampleBytes e = .ok b at h
    show (sampleNumber b).map sampleEvent = .ok e
    unfold sampleBytes at h
    split at h
    · split_ifs at h with hsample
      obtain ⟨rfl, rfl, rfl, hlt⟩ := hsample
      obtain rfl := Except.ok.inj h
      rw [sampleNumber_ofNat hlt]
      rfl
    · exact nomatch h
  · obtain ⟨rfl, hlt, hsample⟩ := sampleHeaderBytes_eq_ok h
    show (sampleNumber [UInt8.ofNat header.checksum]).map sampleHeader = .ok header
    rw [sampleNumber_ofNat hlt, hsample]
    rfl
  · obtain ⟨rfl, -⟩ := sampleHeaderBytes_eq_ok h
    simp

/-- Two appends overlap, and the process restarts: both locations are read. -/
theorem readEvent_returned_overlapping :
    letI := sampleCodec
    ∃ s, (system false).ReachableUnder WritesTracked s ∧ s.returned.length = 2 ∧
      ∀ p ∈ s.returned, s.log.readEvent p.1 = .ok p.2 := by
  let _ := sampleCodec
  have := sampleCodec_lawful
  have hreach : (system false).ReachableUnder WritesTracked ((system false).run (system false).init
      [.call (sampleEvent 1), .call (sampleEvent 2), .write 1 none, .write 0 none,
        .restart true]) := by
    have hbound {s : LogRun} {i : ℕ} {b : EventLog.Appending} (hi : s.pending[i]? = some b)
        (hb : b.payload.length < 2 ^ 32) : ∀ a, s.pending[i]? = some a →
          a.payload.length < 2 ^ 32 := by
      intro a ha
      rw [hi] at ha
      exact Option.some_inj.mp ha ▸ hb
    refine .run .init ⟨trivial, trivial, trivial, trivial, ⟨_, rfl, rfl⟩, ?_, ⟨_, rfl, rfl⟩, ?_,
      trivial, trivial, trivial⟩
    · exact ⟨fun _ ↦ rfl, by decide, hbound rfl (by decide)⟩
    · exact ⟨fun h ↦ (nomatch h), by decide, hbound rfl (by decide)⟩
  exact ⟨_, hreach, rfl, readEvent_returned hreach⟩

/-- The process appends, ends, and a new one appends. -/
def restarted : LogRun :=
  letI := sampleCodec
  (system false).run (system false).init [.call (sampleEvent 1), .write 0 none, .restart false,
    .call (sampleEvent 2), .write 0 none]

theorem reachable_restarted : (@system sampleCodec false).Reachable restarted :=
  letI := sampleCodec
  .run .init ⟨trivial, trivial, ⟨_, rfl, rfl⟩, trivial, trivial, trivial, trivial, trivial,
    ⟨_, rfl, rfl⟩, trivial, trivial⟩

theorem readEvent_restarted :
    @EventLog.readEvent sampleCodec restarted.log ⟨0, 0, 6⟩ = .ok (sampleEvent 1) := rfl

/-- The location returned for the second event reads the first. -/
theorem not_readEvent_returned :
    ¬ ∀ [EventCodec] [LawfulEventCodec] (compressionEnabled : Bool) (s : LogRun),
      (system compressionEnabled).Reachable s →
        ∀ p ∈ s.returned, s.log.readEvent p.1 = .ok p.2 := by
  intro hclaim
  have hmem : (⟨0, 0, 6⟩, sampleEvent 2) ∈ restarted.returned :=
    List.mem_cons_of_mem _ List.mem_cons_self
  have hread := @hclaim sampleCodec sampleCodec_lawful false restarted reachable_restarted _ hmem
  have hsame : sampleEvent 1 = sampleEvent 2 :=
    Except.ok.inj (readEvent_restarted.symm.trans hread)
  exact absurd (congrArg TimelineEvent.sequenceNumber hsame) (by decide)

end LogRun

end RosheraCad
