import RosheraCad.Library.Float32
import RosheraCad.Library.HashChain
import RosheraCad.Ros.Audit

/-!
# The security audit log

A log is a queue of entries of bounded length, each naming the hash of the one pushed before it.
What exceeds the bound is dropped from the front. Serialization to JSON, which can fail by its type,
and SHA-256 are parameters.
-/

namespace RosheraCad

/-! ## Events and entries -/

inductive AuditEvent
  | accessGranted (resource : String) (level : UInt32)
  | accessDenied (resource : String) (level : UInt32) (reason : String)
  | accessRevoked (resource principal : String)
  | chunkEncrypted (chunkType : String) (size : UInt64)
  | chunkDecrypted (chunkType : String) (success : Bool)
  | keyRotation (keyCount : UInt32)
  | fileCreated (fileId : String)
  | fileOpened (fileId version : String)
  | fileSigned (signerId algorithm : String)
  | fileExported (format : String) (chunks : List String)
  | aiCommandExecuted (commandType modelId : String) (confidence : F32)
  | aiTrackingEnabled (level : String)
  | authenticationFailed (method : String) (attempts : UInt32)
  | suspiciousActivity (details : String)
  | configurationChanged (setting oldValue newValue : String)
  deriving DecidableEq

inductive AuditSeverity
  | info
  | warning
  | high
  | critical
  deriving DecidableEq

def AuditSeverity.toNat : AuditSeverity → ℕ
  | .info => 0
  | .warning => 1
  | .high => 2
  | .critical => 3

def AuditEvent.severity : AuditEvent → AuditSeverity
  | .accessDenied .. | .authenticationFailed .. => .warning
  | .suspiciousActivity .. => .critical
  | .configurationChanged .. | .keyRotation .. => .high
  | _ => .info

structure AuditEntry where
  id : ByteVec 16
  timestamp : UInt64
  event : AuditEvent
  severity : AuditSeverity
  userId : Option String
  sessionId : Option String
  ipAddress : Option String
  userAgent : Option String
  prevHash : Option (ByteVec 32)
  deriving DecidableEq

structure AuditContext where
  userId : String
  sessionId : Option String
  ipAddress : Option String
  userAgent : Option String

inductive AuditError
  | hashComputationFailed (reason : String)
  deriving DecidableEq

class AuditJson where
  toVec : AuditEntry → Except String Bytes

namespace AuditEntry

/-- An entry for an event, with its random id and the reading of the clock. -/
def new (id : ByteVec 16) (timestamp : UInt64) (event : AuditEvent) : AuditEntry where
  id
  timestamp
  event
  severity := event.severity
  userId := none
  sessionId := none
  ipAddress := none
  userAgent := none
  prevHash := none

def withContext (entry : AuditEntry) (ctx : AuditContext) : AuditEntry :=
  { entry with
    userId := some ctx.userId
    sessionId := ctx.sessionId
    ipAddress := ctx.ipAddress
    userAgent := ctx.userAgent }

/-- The content hash of an entry for the audit chain. -/
def hash [AuditJson] [Sha2] (entry : AuditEntry) : Except AuditError (ByteVec 32) :=
  match AuditJson.toVec entry with
  | .error reason => .error (.hashComputationFailed reason)
  | .ok data => .ok ⟨Sha2.digest .sha256 data, Sha2.length_digest .sha256 data⟩

end AuditEntry

/-! ## The log -/

structure SecurityAuditLog where
  entries : List AuditEntry
  maxEntries : ℕ
  failedAttempts : OrderedMap String (List UInt64)

/-- A call of `log`: its entry, and what it reads for an entry it injects. A new entry names no
hash. -/
structure LogCall where
  entry : AuditEntry
  unchained : entry.prevHash = none
  now : UInt64
  suspiciousId : ByteVec 16
  suspiciousTimestamp : UInt64

structure LogOutcome where
  log : SecurityAuditLog
  evicted : List AuditEntry
  result : Except AuditError Unit

/-- Pop from the front while the queue is longer than the bound: what is popped, what is left. -/
def evict (maxEntries : ℕ) : List AuditEntry → List AuditEntry × List AuditEntry
  | [] => ([], [])
  | e :: l =>
    if maxEntries < (e :: l).length then (e :: (evict maxEntries l).1, (evict maxEntries l).2)
    else ([], e :: l)

namespace SecurityAuditLog

def new (maxEntries : ℕ) : SecurityAuditLog where
  entries := []
  maxEntries
  failedAttempts := ∅

/-- Five attempts within five minutes. The age of an attempt is not checked for overflow. -/
def isSuspiciousPattern (log : SecurityAuditLog) (now : UInt64) (userId : String) : Bool :=
  match log.failedAttempts[userId]? with
  | some attempts => decide (5 ≤ attempts.countP fun ts ↦ decide (now - ts < 5 * 60 * 1000))
  | none => false

def push (log : SecurityAuditLog) (new : List AuditEntry) : LogOutcome :=
  let (evicted, entries) := evict log.maxEntries (log.entries ++ new)
  { log := { log with entries }, evicted, result := .ok () }

def replaced (log : SecurityAuditLog) (i : ℕ) (entry : AuditEntry) : SecurityAuditLog :=
  { log with entries := log.entries.set i entry }

variable [AuditJson] [Sha2]

def chain (log : SecurityAuditLog) (entry : AuditEntry) : Except AuditError AuditEntry :=
  match log.entries.getLast? with
  | some last => last.hash.map fun h ↦ { entry with prevHash := some h }
  | none => .ok entry

def log (log : SecurityAuditLog) (call : LogCall) : LogOutcome :=
  match log.chain call.entry with
  | .error err => { log, evicted := [], result := .error err }
  | .ok entry =>
    match entry.event, entry.userId with
    | .authenticationFailed .., some userId =>
      let attempts := (log.failedAttempts[userId]?.getD []) ++ [entry.timestamp]
      let log := { log with failedAttempts := log.failedAttempts.insert userId attempts }
      if log.isSuspiciousPattern call.now userId then
        let suspicious :=
          { AuditEntry.new call.suspiciousId call.suspiciousTimestamp (.suspiciousActivity
              s!"Multiple failed auth attempts for user: {userId}") with
            prevHash := entry.prevHash }
        -- the injected entry takes the place of the event's, which is linked to it instead
        match suspicious.hash with
        | .error err => { log, evicted := [], result := .error err }
        | .ok h => log.push [suspicious, { entry with prevHash := some h }]
      else log.push [entry]
    | _, _ => log.push [entry]

def logAll (log : SecurityAuditLog) (calls : List LogCall) : SecurityAuditLog × List AuditEntry :=
  calls.foldl (fun s call ↦
    let outcome := s.1.log call
    (outcome.log, s.2 ++ outcome.evicted)) (log, [])

end SecurityAuditLog

/-! ## Verification -/

/-- The index of the entry, the hash expected there and the one it names, both hexadecimal. -/
structure ChainBreakWitness where
  breakIndex : ℕ
  expectedHash : String
  foundHash : String
  deriving DecidableEq

inductive ChainVerdict
  | intact
  | broken (witness : ChainBreakWitness)
  deriving DecidableEq

def hexOrEmpty (hash : Option (ByteVec 32)) : String :=
  (hash.map fun h ↦ toHex h.toList).getD ""

def verifyFrom [AuditJson] [Sha2] (i : ℕ) (prevHash : Option (ByteVec 32)) :
    List AuditEntry → Except AuditError ChainVerdict
  | [] => .ok .intact
  | entry :: rest =>
    if entry.prevHash ≠ prevHash then
      .ok (.broken ⟨i, hexOrEmpty prevHash, hexOrEmpty entry.prevHash⟩)
    else
      match entry.hash with
      | .error err => .error err
      | .ok h => verifyFrom (i + 1) (some h) rest

def SecurityAuditLog.verifyChain [AuditJson] [Sha2] (log : SecurityAuditLog) :
    Except AuditError ChainVerdict :=
  verifyFrom 0 none log.entries

theorem evict_append (n : ℕ) (l : List AuditEntry) : (evict n l).1 ++ (evict n l).2 = l := by
  induction l with
  | nil => rfl
  | cons e l ih =>
    rw [evict]
    split
    · exact congrArg (e :: ·) ih
    · rfl

theorem evict_ne_nil {n : ℕ} (hn : 1 ≤ n) {l : List AuditEntry} (hl : l ≠ []) :
    (evict n l).2 ≠ [] := by
  induction l with
  | nil => exact absurd rfl hl
  | cons e l ih =>
    rw [evict]
    split
    · next hlong =>
      refine ih fun hnil ↦ ?_
      rw [hnil, List.length_singleton] at hlong
      omega
    · exact List.cons_ne_nil e l

/-! ## The chain of all entries -/

section

variable [AuditJson] [Sha2]

def AuditEntry.digest (entry : AuditEntry) : ByteVec 32 :=
  match entry.hash with
  | .ok h => h
  | .error _ => List.Vector.replicate 32 0

abbrev Chained (prevHash : Option (ByteVec 32)) (entries : List AuditEntry) : Prop :=
  HashChain.Linked AuditEntry.prevHash AuditEntry.digest prevHash entries

def AuditJson.Total : Prop := ∀ entry, ∃ data, AuditJson.toVec entry = .ok data

variable (hjson : AuditJson.Total)

include hjson

theorem AuditEntry.hash_eq_digest (entry : AuditEntry) : entry.hash = .ok entry.digest := by
  obtain ⟨data, hdata⟩ := hjson entry
  have hhash : entry.hash = .ok ⟨Sha2.digest .sha256 data, Sha2.length_digest .sha256 data⟩ := by
    rw [AuditEntry.hash, hdata]
  rw [AuditEntry.digest, hhash]

namespace SecurityAuditLog

theorem chain_eq (log : SecurityAuditLog) (entry : AuditEntry) (h : entry.prevHash = none) :
    log.chain entry =
      .ok { entry with prevHash := log.entries.getLast?.map AuditEntry.digest } := by
  rw [chain]
  rcases log.entries.getLast? with _ | last
  · rw [Option.map_none, ← h]
  · dsimp only
    rw [last.hash_eq_digest hjson]
    rfl

/-- **A call appends one or two entries**, linked to what is stored, and then evicts. -/
theorem log_cases (log : SecurityAuditLog) (call : LogCall) :
    ∃ new attempts, new ≠ [] ∧ Chained (log.entries.getLast?.map AuditEntry.digest) new ∧
      log.log call = ({ log with failedAttempts := attempts } : SecurityAuditLog).push new := by
  rw [SecurityAuditLog.log, log.chain_eq hjson call.entry call.unchained]
  dsimp only
  split
  · split
    · rw [AuditEntry.hash_eq_digest hjson]
      refine ⟨_, _, ?_, ?_, rfl⟩
      · exact List.cons_ne_nil _ _
      · exact ⟨rfl, rfl, trivial⟩
    · refine ⟨_, _, ?_, ?_, rfl⟩
      · exact List.cons_ne_nil _ _
      · exact ⟨rfl, trivial⟩
  · refine ⟨_, log.failedAttempts, ?_, ?_, rfl⟩
    · exact List.cons_ne_nil _ _
    · exact ⟨rfl, trivial⟩

end SecurityAuditLog

structure AuditInvariant (n : ℕ) (s : SecurityAuditLog × List AuditEntry) : Prop where
  chained : Chained none (s.2 ++ s.1.entries)
  maxEntries : s.1.maxEntries = n
  evicted_eq_nil : s.1.entries = [] → s.2 = []

omit hjson in
theorem AuditInvariant.init (n : ℕ) : AuditInvariant n (SecurityAuditLog.new n, []) where
  chained := trivial
  maxEntries := rfl
  evicted_eq_nil _ := rfl

theorem AuditInvariant.log {n : ℕ} (hn : 1 ≤ n) {s : SecurityAuditLog × List AuditEntry}
    (hs : AuditInvariant n s) (call : LogCall) :
    AuditInvariant n ((s.1.log call).log, s.2 ++ (s.1.log call).evicted) := by
  obtain ⟨new, attempts, hne, hnew, hlog⟩ := s.1.log_cases hjson call
  rw [hlog, SecurityAuditLog.push]
  have hmax : s.1.maxEntries = n := hs.maxEntries
  refine ⟨?_, hmax, fun hnil ↦ ?_⟩
  · -- what follows all entries pushed so far follows the last one stored
    have htip : HashChain.tip AuditEntry.digest none (s.2 ++ s.1.entries) =
        s.1.entries.getLast?.map AuditEntry.digest := by
      rw [HashChain.tip_append, HashChain.tip_eq_getLast?]
      rcases hlast : s.1.entries.getLast? with _ | last
      · rw [hs.evicted_eq_nil (List.getLast?_eq_none_iff.mp hlast)]
        rfl
      · rfl
    show Chained none ((s.2 ++ (evict _ _).1) ++ (evict _ _).2)
    rw [List.append_assoc, evict_append, ← List.append_assoc]
    exact HashChain.linked_append.mpr ⟨hs.chained, by rw [htip]; exact hnew⟩
  · refine absurd hnil (evict_ne_nil ?_ ?_)
    · rw [hmax]
      exact hn
    · exact List.append_ne_nil_of_right_ne_nil _ hne

theorem AuditInvariant.logAll {n : ℕ} (hn : 1 ≤ n) (calls : List LogCall) :
    AuditInvariant n ((SecurityAuditLog.new n).logAll calls) := by
  rw [SecurityAuditLog.logAll]
  induction calls using List.reverseRecOn with
  | nil => exact AuditInvariant.init n
  | append_singleton calls call ih =>
    rw [List.foldl_concat]
    exact ih.log hjson hn call

/-! ## What the verification answers -/

theorem verifyFrom_eq_intact_iff {i : ℕ} {prevHash : Option (ByteVec 32)}
    {entries : List AuditEntry} :
    verifyFrom i prevHash entries = .ok .intact ↔ Chained prevHash entries := by
  induction entries generalizing i prevHash with
  | nil => exact iff_of_true rfl trivial
  | cons entry rest ih =>
    show _ ↔ entry.prevHash = prevHash ∧ Chained (some entry.digest) rest
    rw [verifyFrom, entry.hash_eq_digest hjson, ← @ih (i + 1)]
    by_cases h : entry.prevHash = prevHash
    · rw [if_neg (not_not.mpr h)]
      exact (and_iff_right h).symm
    · rw [if_pos h]
      exact iff_of_false nofun fun h' ↦ h h'.1

theorem verifyFrom_of_breaksAt {i j : ℕ} {prevHash : Option (ByteVec 32)}
    {entries : List AuditEntry}
    (h : HashChain.BreaksAt AuditEntry.prevHash AuditEntry.digest prevHash entries j) :
    ∃ witness, verifyFrom i prevHash entries = .ok (.broken witness) ∧
      witness.breakIndex = i + j := by
  obtain ⟨before, entry, after, rfl, rfl, hbefore, hbreak⟩ := h
  induction before generalizing i prevHash with
  | nil =>
    refine ⟨⟨i, hexOrEmpty prevHash, hexOrEmpty entry.prevHash⟩, ?_, rfl⟩
    rw [List.nil_append, verifyFrom]
    exact if_pos hbreak
  | cons e before ih =>
    obtain ⟨he, hbefore⟩ := hbefore
    obtain ⟨witness, hverify, hindex⟩ := @ih (i + 1) _ hbefore hbreak
    refine ⟨witness, ?_, ?_⟩
    · rw [List.cons_append, verifyFrom, if_neg (not_not.mpr he), e.hash_eq_digest hjson]
      exact hverify
    · rw [hindex, List.length_cons]
      omega

omit hjson in
theorem AuditInvariant.breaksAt_zero {n : ℕ} {s : SecurityAuditLog × List AuditEntry}
    (hs : AuditInvariant n s) (hevicted : s.2 ≠ []) :
    HashChain.BreaksAt AuditEntry.prevHash AuditEntry.digest none s.1.entries 0 := by
  obtain ⟨entry, rest, hentries⟩ := List.exists_cons_of_ne_nil (mt hs.evicted_eq_nil hevicted)
  obtain ⟨-, hrest⟩ := HashChain.linked_append.mp hs.chained
  rw [hentries] at hrest ⊢
  refine HashChain.breaksAt_cons_zero ?_
  obtain ⟨before, last, hlast⟩ := (List.eq_nil_or_concat s.2).resolve_left hevicted
  rw [hrest.1, hlast, HashChain.tip_eq_getLast?]
  simp

theorem verifyChain_replace {log : SecurityAuditLog} (hintact : log.verifyChain = .ok .intact)
    {i : ℕ} {entry entry' : AuditEntry} (hget : log.entries[i]? = some entry)
    (hlast : i + 1 < log.entries.length) (hdiff : entry' ≠ entry)
    (hinj : entry'.hash = entry.hash → entry' = entry) :
    ∃ witness, (log.replaced i entry').verifyChain = .ok (.broken witness) ∧
      (witness.breakIndex = i ∨ witness.breakIndex = i + 1) := by
  have hchained : Chained none log.entries := (verifyFrom_eq_intact_iff hjson).mp hintact
  -- the chain around the entry, which has a successor
  obtain ⟨before, next, after, hentries, hlen⟩ : ∃ before next after,
      log.entries = before ++ entry :: next :: after ∧ before.length = i := by
    obtain ⟨hi, rfl⟩ := List.getElem?_eq_some_iff.mp hget
    refine ⟨log.entries.take i, log.entries[i + 1], log.entries.drop (i + 2), ?_, ?_⟩
    · rw [← List.drop_eq_getElem_cons hlast, ← List.drop_eq_getElem_cons hi,
        List.take_append_drop]
    · exact List.length_take_of_le hi.le
  rw [hentries] at hchained
  have hset : log.entries.set i entry' = before ++ entry' :: next :: after := by
    rw [hentries, ← hlen, List.set_append_right _ _ le_rfl, Nat.sub_self, List.set_cons_zero]
  have hhash : entry'.digest ≠ entry.digest := by
    refine fun heq ↦ hdiff (hinj ?_)
    rw [AuditEntry.hash_eq_digest hjson, AuditEntry.hash_eq_digest hjson, heq]
  rw [SecurityAuditLog.verifyChain, SecurityAuditLog.replaced, hset]
  rcases HashChain.breaksAt_replace hchained (.inr hhash) with hbreak | hbreak
  · obtain ⟨witness, hverify, hindex⟩ := verifyFrom_of_breaksAt hjson (i := 0) hbreak
    exact ⟨witness, hverify, .inl (by omega)⟩
  · obtain ⟨witness, hverify, hindex⟩ := verifyFrom_of_breaksAt hjson (i := 0) hbreak
    exact ⟨witness, hverify, .inr (by omega)⟩

/-- **The audit chain.** After any calls the verification answers intact if nothing was evicted, and
broken at the first entry otherwise. In an intact log another entry in the place of one but the last
breaks the chain there or next, unless the hashes are equal. -/
theorem verifyChain_logAll {n : ℕ} (hn : 1 ≤ n) (calls : List LogCall) :
    let s := (SecurityAuditLog.new n).logAll calls
    (s.1.verifyChain = .ok .intact ↔ s.2 = []) ∧
      (s.2 ≠ [] → ∃ witness, s.1.verifyChain = .ok (.broken witness) ∧ witness.breakIndex = 0) ∧
      (s.1.verifyChain = .ok .intact → ∀ (i : ℕ) (entry entry' : AuditEntry),
        s.1.entries[i]? = some entry → i + 1 < s.1.entries.length → entry' ≠ entry →
        (entry'.hash = entry.hash → entry' = entry) →
        ∃ witness, (s.1.replaced i entry').verifyChain = .ok (.broken witness) ∧
          (witness.breakIndex = i ∨ witness.breakIndex = i + 1)) := by
  have hs := AuditInvariant.logAll hjson hn calls
  refine ⟨⟨fun hintact ↦ ?_, fun hnil ↦ ?_⟩, fun hevicted ↦ ?_, ?_⟩
  · by_contra hevicted
    obtain ⟨witness, hbroken, -⟩ := verifyFrom_of_breaksAt hjson (i := 0)
      (hs.breaksAt_zero hevicted)
    rw [SecurityAuditLog.verifyChain, hbroken] at hintact
    cases hintact
  · refine (verifyFrom_eq_intact_iff hjson).mpr ?_
    have hchained := hs.chained
    rw [hnil, List.nil_append] at hchained
    exact hchained
  · exact verifyFrom_of_breaksAt hjson (hs.breaksAt_zero hevicted)
  · intro hintact i entry entry' hget hlast hdiff hinj
    exact verifyChain_replace hjson hintact hget hlast hdiff hinj

end

/-! ## A log to compute with -/

abbrev exampleAuditJson : AuditJson where
  toVec entry := .ok (entry.id.toList ++ exampleBytes 8 entry.timestamp.toNat ++
    (entry.prevHash.map List.Vector.toList).getD [])

theorem exampleAuditJson_total : letI := exampleAuditJson; AuditJson.Total :=
  fun _ ↦ ⟨_, rfl⟩

def exampleCall (n : ℕ) : LogCall where
  entry := .new ⟨exampleBytes 16 n, length_exampleBytes 16 n⟩ (UInt64.ofNat n)
    (.accessGranted "GEOM" 1)
  unchained := rfl
  now := 0
  suspiciousId := ⟨exampleBytes 16 0, length_exampleBytes 16 0⟩
  suspiciousTimestamp := 0

def exampleLog (n : ℕ) : SecurityAuditLog × List AuditEntry :=
  letI := exampleAuditJson
  letI := exampleSha2
  (SecurityAuditLog.new n).logAll [exampleCall 1, exampleCall 2, exampleCall 3]

/-- Of three entries a log for two keeps a broken chain, and a log for three an intact one, of which
the second entry cannot be replaced unseen. -/
theorem verifyChain_logAll_three :
    letI := exampleAuditJson
    letI := exampleSha2
    (∃ witness, (exampleLog 2).1.verifyChain = .ok (.broken witness) ∧ witness.breakIndex = 0) ∧
      ∃ witness, ((exampleLog 3).1.replaced 1 (exampleCall 4).entry).verifyChain =
          .ok (.broken witness) ∧
        (witness.breakIndex = 1 ∨ witness.breakIndex = 2) := by
  let := exampleAuditJson
  let := exampleSha2
  obtain ⟨-, hbroken, -⟩ := verifyChain_logAll exampleAuditJson_total (n := 2) (by decide)
    [exampleCall 1, exampleCall 2, exampleCall 3]
  obtain ⟨hintact, -, hreplace⟩ := verifyChain_logAll exampleAuditJson_total (n := 3) (by decide)
    [exampleCall 1, exampleCall 2, exampleCall 3]
  refine ⟨hbroken (by decide +kernel), ?_⟩
  have hget : (exampleLog 3).1.entries[1]? =
      some ((exampleLog 3).1.entries.get ⟨1, by decide +kernel⟩) := List.getElem?_eq_getElem _
  have hne : (exampleCall 4).entry ≠ (exampleLog 3).1.entries.get ⟨1, by decide +kernel⟩ := by
    decide +kernel
  exact hreplace (hintact.mpr (by decide +kernel)) 1 _ _ hget (by decide +kernel) hne
    (by decide +kernel)

end RosheraCad
