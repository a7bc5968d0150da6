import RosheraCad.Recorder.Staging
import RosheraCad.Library.BoundedLedger
import RosheraCad.Library.Run
import Mathlib.Algebra.GroupWithZero.Nat

/-!
# Recording failures

`record` answers before an operation is in the timeline. An operation lost to the channel, the
timeline or the store is put on one failure list. The list is taken by `take_failures`, or by the
worker for a flush. What a receiver drops unread is in no place any more.
-/

namespace RosheraCad

/-! ## Failures -/

inductive Origin
  | mcp
  | rest
  | websocket
  | viewportBridge
  | replay
  | notDetermined
  deriving DecidableEq

namespace Origin

def wireName : Origin → String
  | mcp => "mcp"
  | rest => "rest"
  | websocket => "websocket"
  | viewportBridge => "viewport_bridge"
  | replay => "replay"
  | notDetermined => "not_determined"

def ofWireName? (name : String) : Option Origin :=
  [mcp, rest, websocket, viewportBridge, replay, notDetermined].find? (·.wireName = name)

theorem ofWireName?_wireName (origin : Origin) : ofWireName? origin.wireName = some origin := by
  cases origin <;> rfl

end Origin

def Json.variantName? : Json → Option String
  | .string name => some name
  | .object [(name, .null)] => some name
  | _ => none

def Json.originFields? : Json → Option (Json × Json)
  | .object entries =>
    match entries.lookup "channel", entries.lookup "basis" with
    | some channel, some basis => some (channel, basis)
    | _, _ => none
  | .array [channel, basis] => some (channel, basis)
  | _ => none

def Json.originChannel? (facet : Json) : Option Origin :=
  match facet.originFields? with
  | some (channel, basis) =>
    match basis.variantName? with
    | some "client_header" | some "server_observed" =>
      channel.variantName?.bind Origin.ofWireName?
    | _ => none
  | none => none

def channelOf (record : RecordedOperation) : Origin :=
  ((record.facets.lookup "roshera.origin").bind Json.originChannel?).getD .notDetermined

inductive RecordFailureStage
  | enqueue
  | append
  | persist
  deriving DecidableEq

structure RecordFailure where
  stage : RecordFailureStage
  kind : String
  branch : BranchId
  sequence : Option EventIndex
  document : Option String
  author : Author
  channel : Origin
  error : String
  deriving DecidableEq

def maxPendingRecordFailures : ℕ := 256

/-- The failures of one take: the oldest are listed, and those past the cap counted. -/
abbrev RecordFailures := BoundedLedger maxPendingRecordFailures RecordFailure

def StagedOp.failure (op : StagedOp) (stage : RecordFailureStage) (sequence : Option EventIndex)
    (error : String) : RecordFailure :=
  ⟨stage, op.record.kind, op.branch, sequence, op.document, op.author, channelOf op.record, error⟩

inductive Applied
  | landed
  | appendFailed (error : String)
  | persistFailed (sequence : EventIndex) (discarded : Option (List EventIndex)) (error : String)

namespace Applied

/-- The text of a failed write: one that made a discard durable too says that this failed. -/
def persistError (discarded : Option (List EventIndex)) (error : String) : String :=
  match discarded with
  | some removed =>
    error ++ " (the redo-tail discard this operation made in memory, sequences ["
      ++ ", ".intercalate (removed.map toString)
      ++ "], did NOT reach disk either: the store still holds that tail and its applied head "
      ++ "until a restart reconciles them)"
  | none => error

def failure (op : StagedOp) : Applied → Option RecordFailure
  | .landed => none
  | .appendFailed error => some (op.failure .append op.reservedSequence error)
  | .persistFailed sequence discarded error =>
    some (op.failure .persist (some sequence) (persistError discarded error))

end Applied

/-! ## The recorder and its drain worker -/

inductive RecorderCmd
  | op (op : StagedOp)
  | flush (takeFailures : Bool) (reply : ℕ)

inductive Worker
  | idle
  | filing (failure : RecordFailure)
  | replying (reply : ℕ) (takeFailures : Bool) (answer : RecordFailures)
  | restoring (unsent : RecordFailures)

namespace Worker

def held : Worker → RecordFailures
  | replying _ _ answer => answer
  | restoring unsent => unsent
  | _ => .empty

def unfiled : Worker → List RecordFailure
  | filing failure => [failure]
  | _ => []

end Worker

structure Unread where
  /-- Whether a flush asked for it; a `settle` reads nothing from its answer. -/
  takeFailures : Bool
  answer : RecordFailures

/-- A recorder, its worker, and its callers. -/
structure FailureRun where
  staging : StagingState
  outgoing : List StagedOp
  queue : List RecorderCmd
  reserved : ℕ
  stopped : Bool
  unfiled : List RecordFailure
  failures : RecordFailures
  worker : Worker
  waiting : List ℕ
  nextFlush : ℕ
  inbox : List Unread
  answers : List RecordFailures
  failed : List RecordFailure
  filed : List RecordFailure

inductive RecorderAction
  /-- `record`, `begin_pending`, `commit_pending` or `abort_pending`. -/
  | call (c : StagingCall)
  | send (i : ℕ)
  | file (i : ℕ)
  | reserve
  | release
  | barrier (takeFailures : Bool)
  | apply (applied : Applied)
  | answer
  | workerFile
  | reply
  | restore
  | read (i : ℕ)
  | drop (i : ℕ)
  | hangUp (reply : ℕ)
  | takeFailures
  | stop

namespace FailureRun

variable (capacity : ℕ) (s : FailureRun)

def new : FailureRun :=
  ⟨.new, [], [], 0, false, [], .empty, .idle, [], 0, [], [], [], []⟩

def trySendOp (op : StagedOp) : Except String (List RecorderCmd) :=
  if s.stopped then .error "recorder unavailable: TimelineRecorder worker has shut down"
  else if s.queue.length + s.reserved < capacity then .ok (s.queue ++ [.op op])
  else .error ("recorder unavailable: TimelineRecorder channel saturated (capacity="
    ++ toString capacity ++ "); worker may be stalled")

def enabled : RecorderAction → Prop
  | .call _ | .hangUp _ | .takeFailures => True
  | .send i => i < s.outgoing.length
  | .file i => i < s.unfiled.length
  | .reserve => s.stopped = false ∧ s.queue.length + s.reserved < capacity
  | .release => 0 < s.reserved
  | .barrier _ => s.stopped = false ∧ 0 < s.reserved
  | .apply _ => ∃ op queue, s.worker = .idle ∧ s.queue = .op op :: queue
  | .answer => ∃ takeFailures reply queue,
      s.worker = .idle ∧ s.queue = .flush takeFailures reply :: queue
  | .workerFile => ∃ failure, s.worker = .filing failure
  | .reply => ∃ reply takeFailures answer, s.worker = .replying reply takeFailures answer
  | .restore => ∃ unsent, s.worker = .restoring unsent
  | .read i | .drop i => i < s.inbox.length
  | .stop => s.stopped = false ∧ s.worker = .idle

def callerFails (failure : RecordFailure) : FailureRun :=
  { s with unfiled := s.unfiled ++ [failure], failed := s.failed ++ [failure] }

def workerFails (failure : RecordFailure) : FailureRun :=
  { s with worker := .filing failure, failed := s.failed ++ [failure] }

def push (failure : RecordFailure) : FailureRun :=
  { s with failures := s.failures.push failure, filed := s.filed ++ [failure] }

def step : RecorderAction → FailureRun
  | .call c =>
    { s with staging := (s.staging.call c).1, outgoing := s.outgoing ++ (s.staging.call c).2 }
  | .send i =>
    match s.outgoing[i]? with
    | none => s
    | some op =>
      let sent := { s with outgoing := s.outgoing.eraseIdx i }
      match s.trySendOp capacity op with
      | .ok queue => { sent with queue := queue }
      | .error error => sent.callerFails (op.failure .enqueue op.reservedSequence error)
  | .file i =>
    match s.unfiled[i]? with
    | none => s
    | some failure => { s with unfiled := s.unfiled.eraseIdx i }.push failure
  | .reserve => { s with reserved := s.reserved + 1 }
  | .release => { s with reserved := s.reserved - 1 }
  | .barrier takeFailures =>
    { s with
      reserved := s.reserved - 1
      queue := s.queue ++ [.flush takeFailures s.nextFlush]
      waiting := s.waiting ++ [s.nextFlush]
      nextFlush := s.nextFlush + 1 }
  | .apply applied =>
    match s.worker, s.queue with
    | .idle, .op op :: queue =>
      match applied.failure op with
      | none => { s with queue := queue }
      | some failure => { s with queue := queue }.workerFails failure
    | _, _ => s
  | .answer =>
    match s.worker, s.queue with
    | .idle, .flush true reply :: queue =>
      { s with queue := queue, worker := .replying reply true s.failures, failures := .empty }
    | .idle, .flush false reply :: queue =>
      { s with queue := queue, worker := .replying reply false .empty }
    | _, _ => s
  | .workerFile =>
    match s.worker with
    | .filing failure => { s with worker := .idle }.push failure
    | _ => s
  | .reply =>
    match s.worker with
    | .replying reply takeFailures answer =>
      if reply ∈ s.waiting then
        { s with
          worker := .idle
          waiting := s.waiting.erase reply
          inbox := s.inbox ++ [⟨takeFailures, answer⟩] }
      else { s with worker := .restoring answer }
    | _ => s
  | .restore =>
    match s.worker with
    | .restoring unsent => { s with worker := .idle, failures := unsent.restore s.failures }
    | _ => s
  | .read i =>
    match s.inbox[i]? with
    | none => s
    | some ⟨takeFailures, answer⟩ =>
      { s with
        inbox := s.inbox.eraseIdx i
        answers := if takeFailures then s.answers ++ [answer] else s.answers }
  | .drop i => { s with inbox := s.inbox.eraseIdx i }
  | .hangUp reply => { s with waiting := s.waiting.erase reply }
  | .takeFailures => { s with failures := .empty, answers := s.answers ++ [s.failures] }
  | .stop => { s with stopped := true, queue := [], waiting := [] }

/-- A recorder with a channel of some capacity, and all that may happen to it. -/
def system : GuardedSystem FailureRun RecorderAction where
  init := new
  enabled := enabled capacity
  step := step capacity

/-- A flush that was answered is not dropped, unless its answer holds no failure. -/
def NoAnswerDropped (s : FailureRun) : RecorderAction → Prop
  | .drop i => ∀ unread, s.inbox[i]? = some unread → unread.answer.isEmpty = true
  | _ => True

/-! ## Where the failures are -/

abbrev Filed := RecordFailure × ℕ

def report (part : List Filed) : RecordFailures := .ofList (part.map Prod.fst)

def OldestFirst (part : List Filed) : Prop := part.Pairwise fun a b ↦ a.2 < b.2

/-- How many failures were put on the list and not reported yet. -/
def unreported : ℕ :=
  s.failures.total + s.worker.held.total + (s.inbox.map fun unread ↦ unread.answer.total).sum

/-- **Every failure is reported once.** Each belongs to one answer, or to what is not reported yet;
an answer lists the oldest of its failures, up to the cap, and counts the others. -/
def ReportedOnce : Prop :=
  s.failed.Perm (s.filed ++ (s.unfiled ++ s.worker.unfiled)) ∧
    (∃ parts : List (List Filed), ∃ rest : List Filed,
      s.answers = parts.map report ∧ (∀ part ∈ parts, OldestFirst part) ∧
        (parts.flatten ++ rest).Perm s.filed.zipIdx ∧ rest.length = s.unreported) ∧
    (s.answers.map BoundedLedger.total).sum + s.unreported +
      (s.unfiled ++ s.worker.unfiled).length = s.failed.length

structure Account where
  listed : List Filed
  held : List Filed
  sent : List (List Filed)
  answered : List (List Filed)

/-- A run is in the state an account says. -/
structure Accounted (a : Account) : Prop where
  failures : s.failures = report a.listed
  worker : s.worker.held = report a.held
  inbox : s.inbox.map Unread.answer = a.sent.map report
  answers : s.answers = a.answered.map report
  filed : (a.answered.flatten ++ (a.sent.flatten ++ (a.held ++ a.listed))).Perm s.filed.zipIdx
  oldest : OldestFirst (a.held ++ a.listed)
  parts : ∀ part ∈ a.answered ++ a.sent, OldestFirst part
  settling : ∀ reply answer, s.worker = .replying reply false answer → answer.isEmpty = true
  settled : ∀ unread ∈ s.inbox, unread.takeFailures = false → unread.answer.isEmpty = true
  failed : s.failed.Perm (s.filed ++ (s.unfiled ++ s.worker.unfiled))

variable {capacity s} {s' : FailureRun} {a : Account}

theorem eq_nil_of_report {part : List Filed} (h : (report part).isEmpty = true) : part = [] :=
  List.map_eq_nil_iff.mp (BoundedLedger.isEmpty_ofList.mp h)

theorem report_nil : report [] = .empty := BoundedLedger.ofList_nil

theorem total_report (part : List Filed) : (report part).total = part.length := by
  rw [report, BoundedLedger.total_ofList, List.length_map]

theorem report_restore (part later : List Filed) :
    (report part).restore (report later) = report (part ++ later) := by
  rw [report, report, BoundedLedger.restore_ofList, report, List.map_append]

theorem report_push (part : List Filed) (f : Filed) :
    (report part).push f.1 = report (part ++ [f]) := by
  rw [report, BoundedLedger.push_ofList, report, List.map_append, List.map_singleton]

private theorem perm_cons_eraseIdx {α : Type} {xs : List α} {i : ℕ} {x : α} (h : xs[i]? = some x) :
    xs.Perm (x :: xs.eraseIdx i) := by
  obtain ⟨hi, rfl⟩ := List.getElem?_eq_some_iff.mp h
  exact (List.getElem_cons_eraseIdx_perm hi).symm

private theorem map_eraseIdx {α β : Type} (f : α → β) (xs : List α) (i : ℕ) :
    (xs.eraseIdx i).map f = (xs.map f).eraseIdx i := by
  rw [List.eraseIdx_eq_take_drop_succ, List.eraseIdx_eq_take_drop_succ, List.map_append,
    List.map_take, List.map_drop]

/-! ### What each step keeps -/

section

variable (h : s.Accounted a)

include h

theorem Accounted.unchanged (hfailures : s'.failures = s.failures)
    (hworker : s'.worker = s.worker) (hinbox : s'.inbox = s.inbox)
    (hanswers : s'.answers = s.answers) (hunfiled : s'.unfiled = s.unfiled)
    (hfailed : s'.failed = s.failed) (hfiled : s'.filed = s.filed) : s'.Accounted a := by
  refine ⟨?_, ?_, ?_, ?_, ?_, h.oldest, h.parts, ?_, ?_, ?_⟩
  · rw [hfailures, h.failures]
  · rw [hworker, h.worker]
  · rw [hinbox, h.inbox]
  · rw [hanswers, h.answers]
  · rw [hfiled]
    exact h.filed
  · rw [hworker]
    exact h.settling
  · rw [hinbox]
    exact h.settled
  · rw [hfailed, hfiled, hunfiled, hworker]
    exact h.failed

theorem Accounted.callerFails (failure : RecordFailure) :
    (s.callerFails failure).Accounted a := by
  refine ⟨h.failures, h.worker, h.inbox, h.answers, h.filed, h.oldest, h.parts, h.settling,
    h.settled, ?_⟩
  have hmove : (s.filed ++ (s.unfiled ++ s.worker.unfiled) ++ [failure]).Perm
      (s.filed ++ ((s.unfiled ++ [failure]) ++ s.worker.unfiled)) := by
    rw [List.append_assoc, List.append_assoc, List.append_assoc]
    exact (List.perm_append_comm.append_left _).append_left _
  exact (h.failed.append_right _).trans hmove

theorem Accounted.workerFails (hidle : s.worker = .idle)
    (failure : RecordFailure) : (s.workerFails failure).Accounted a := by
  have hworker := h.worker
  have hfailed := h.failed
  rw [hidle] at hworker hfailed
  refine ⟨h.failures, hworker, h.inbox, h.answers, h.filed, h.oldest, h.parts, ?_, h.settled, ?_⟩
  · intro reply answer hreply
    exact nomatch hreply
  · show (s.failed ++ [failure]).Perm (s.filed ++ (s.unfiled ++ [failure]))
    have happend := hfailed.append_right [failure]
    rwa [show Worker.idle.unfiled = [] from rfl, List.append_nil, List.append_assoc] at happend

theorem Accounted.push {failure : RecordFailure} {worker : Worker}
    {unfiled : List RecordFailure} (hheld : worker.held = s.worker.held)
    (hidle : ∀ reply answer, worker = .replying reply false answer → s.worker = worker)
    (hunfiled : (s.unfiled ++ s.worker.unfiled).Perm (failure :: (unfiled ++ worker.unfiled))) :
    ({ s with worker := worker, unfiled := unfiled }.push failure).Accounted
      { a with listed := a.listed ++ [(failure, s.filed.length)] } := by
  refine ⟨?_, ?_, h.inbox, h.answers, ?_, ?_, h.parts, ?_, h.settled, ?_⟩
  · show s.failures.push failure = _
    rw [h.failures, ← report_push]
  · rw [← h.worker, ← hheld]
    rfl
  · show (a.answered.flatten ++ (a.sent.flatten ++ (a.held ++ (a.listed ++ [_])))).Perm
      (s.filed ++ [failure]).zipIdx
    rw [List.zipIdx_append, List.zipIdx_singleton, Nat.zero_add]
    simpa only [List.append_assoc] using h.filed.append_right [(failure, s.filed.length)]
  · show OldestFirst (a.held ++ (a.listed ++ [_]))
    rw [← List.append_assoc]
    refine List.pairwise_append.mpr ⟨h.oldest, List.pairwise_singleton _ _, fun f hf g hg ↦ ?_⟩
    obtain rfl := List.mem_singleton.mp hg
    have hmem := h.filed.subset (List.mem_append_right _ (List.mem_append_right _ hf))
    have hlt := List.snd_lt_of_mem_zipIdx hmem
    rwa [Nat.add_zero] at hlt
  · intro reply answer hreply
    exact h.settling reply answer ((hidle reply answer hreply).trans hreply)
  · show s.failed.Perm ((s.filed ++ [failure]) ++ (unfiled ++ worker.unfiled))
    rw [List.append_assoc, List.singleton_append]
    exact h.failed.trans (hunfiled.append_left _)

theorem Accounted.exists_sent {i : ℕ} {unread : Unread} (hi : s.inbox[i]? = some unread) :
    ∃ part, a.sent[i]? = some part ∧ unread.answer = report part := by
  have hanswer : (s.inbox.map Unread.answer)[i]? = some unread.answer := by
    rw [List.getElem?_map, hi, Option.map_some]
  rw [h.inbox, List.getElem?_map] at hanswer
  obtain ⟨part, hpart, heq⟩ := Option.map_eq_some_iff.mp hanswer
  exact ⟨part, hpart, heq.symm⟩

theorem Accounted.leave {i : ℕ} {part : List Filed}
    (hi : a.sent[i]? = some part) {answered : List (List Filed)} {answers : List RecordFailures}
    (hanswers : answers = answered.map report)
    (hanswered : answered = a.answered ++ [part] ∨ answered = a.answered ∧ part = []) :
    { s with inbox := s.inbox.eraseIdx i, answers := answers }.Accounted
      { a with sent := a.sent.eraseIdx i, answered := answered } := by
  have hsent : a.sent.flatten.Perm (part ++ (a.sent.eraseIdx i).flatten) :=
    (perm_cons_eraseIdx hi).flatten
  have hflatten : (answered.flatten ++ (a.sent.eraseIdx i).flatten).Perm
      (a.answered.flatten ++ a.sent.flatten) := by
    rcases hanswered with rfl | ⟨rfl, rfl⟩
    · rw [List.flatten_append, List.flatten_singleton, List.append_assoc]
      exact hsent.symm.append_left _
    · exact hsent.symm.append_left _
  have hparts : ∀ p ∈ answered ++ a.sent.eraseIdx i, p ∈ a.answered ++ a.sent := by
    intro p hp
    rcases List.mem_append.mp hp with hp | hp
    · rcases hanswered with rfl | ⟨rfl, -⟩
      · rcases List.mem_append.mp hp with hp | hp
        · exact List.mem_append_left _ hp
        · obtain rfl := List.mem_singleton.mp hp
          exact List.mem_append_right _ (List.mem_of_getElem? hi)
      · exact List.mem_append_left _ hp
    · exact List.mem_append_right _ (List.mem_of_mem_eraseIdx hp)
  refine ⟨h.failures, h.worker, ?_, hanswers, ?_, h.oldest, fun p hp ↦ h.parts p (hparts p hp),
    h.settling, fun unread hu ↦ h.settled unread (List.mem_of_mem_eraseIdx hu), h.failed⟩
  · show (s.inbox.eraseIdx i).map Unread.answer = (a.sent.eraseIdx i).map report
    rw [map_eraseIdx, map_eraseIdx, h.inbox]
  · have hall := hflatten.append_right (a.held ++ a.listed)
    rw [List.append_assoc, List.append_assoc] at hall
    exact hall.trans h.filed

end

/-! ### One step -/

section

variable (h : s.Accounted a)

include h

theorem Accounted.send (i : ℕ) : (s.step capacity (.send i)).Accounted a := by
  rw [step]
  rcases s.outgoing[i]? with _ | op
  · exact h
  · have hsent : { s with outgoing := s.outgoing.eraseIdx i }.Accounted a :=
      h.unchanged rfl rfl rfl rfl rfl rfl rfl
    rcases htry : s.trySendOp capacity op with error | queue
    · simp only [htry]
      exact hsent.callerFails _
    · simp only [htry]
      exact h.unchanged rfl rfl rfl rfl rfl rfl rfl

theorem Accounted.file (i : ℕ) :
    ∃ a', (s.step capacity (.file i)).Accounted a' := by
  rw [step]
  rcases hi : s.unfiled[i]? with _ | failure
  · exact ⟨a, h⟩
  · have hperm := (perm_cons_eraseIdx hi).append_right s.worker.unfiled
    exact ⟨_, h.push rfl (fun _ _ _ ↦ rfl) hperm⟩

theorem Accounted.apply (applied : Applied) :
    (s.step capacity (.apply applied)).Accounted a := by
  rw [step]
  split
  · rename_i op queue hidle _
    have hqueue : { s with queue := queue }.Accounted a :=
      h.unchanged rfl rfl rfl rfl rfl rfl rfl
    rcases hfailure : applied.failure op with _ | failure
    · exact hqueue
    · exact hqueue.workerFails hidle failure
  · exact h

/-- **A flush takes the list** into the worker's hand; a `settle` takes nothing. -/
theorem Accounted.answer : ∃ a', (s.step capacity .answer).Accounted a' := by
  rw [step]
  split
  · rename_i reply queue hidle _
    have hheld : a.held = [] := by
      refine eq_nil_of_report ?_
      rw [← h.worker, hidle]
      rfl
    have hfiled := h.filed
    have holdest := h.oldest
    have hfailed := h.failed
    rw [hheld, List.nil_append] at hfiled holdest
    rw [hidle] at hfailed
    refine ⟨{ a with held := a.listed, listed := [] }, report_nil.symm, h.failures, h.inbox,
      h.answers, ?_, ?_, h.parts, ?_, h.settled, hfailed⟩
    · rwa [List.append_nil]
    · rwa [List.append_nil]
    · intro reply answer hreply
      exact nomatch hreply
  · rename_i reply queue hidle _
    have hworker := h.worker
    have hfailed := h.failed
    rw [hidle] at hworker hfailed
    refine ⟨a, h.failures, hworker, h.inbox, h.answers, h.filed, h.oldest, h.parts, ?_, h.settled,
      hfailed⟩
    intro reply answer hreply
    cases hreply
    rfl
  · exact ⟨a, h⟩

theorem Accounted.workerFile :
    ∃ a', (s.step capacity .workerFile).Accounted a' := by
  rw [step]
  split
  · rename_i failure hfiling
    refine ⟨_, h.push ?_ ?_ ?_⟩
    · rw [hfiling]
      rfl
    · intro reply answer hreply
      exact nomatch hreply
    · rw [hfiling]
      rw [show Worker.idle.unfiled = [] from rfl, List.append_nil]
      exact List.perm_append_comm
  · exact ⟨a, h⟩

/-- **A sent answer** is in the inbox; an unsent one stays in the worker's hand. -/
theorem Accounted.reply : ∃ a', (s.step capacity .reply).Accounted a' := by
  rw [step]
  split
  · rename_i reply takeFailures answer hreplying
    have hworker := h.worker
    have hfailed := h.failed
    rw [hreplying] at hworker hfailed
    split_ifs
    · have holder := List.pairwise_append.mp h.oldest
      refine ⟨{ a with held := [], sent := a.sent ++ [a.held] }, h.failures, report_nil.symm, ?_,
        h.answers, ?_, holder.2.1, ?_, ?_, ?_, hfailed⟩
      · show (s.inbox ++ [_]).map Unread.answer = _
        rw [List.map_append, List.map_append, h.inbox, List.map_singleton, List.map_singleton,
          ← hworker]
        rfl
      · rw [List.flatten_append, List.flatten_singleton, List.nil_append, List.append_assoc]
        exact h.filed
      · intro part hpart
        rw [← List.append_assoc] at hpart
        rcases List.mem_append.mp hpart with hpart | hpart
        · exact h.parts part hpart
        · obtain rfl := List.mem_singleton.mp hpart
          exact holder.1
      · intro reply answer hreply
        exact nomatch hreply
      · intro unread hunread hsettle
        rcases List.mem_append.mp hunread with hunread | hunread
        · exact h.settled unread hunread hsettle
        · obtain rfl := List.mem_singleton.mp hunread
          obtain rfl : takeFailures = false := hsettle
          exact h.settling reply answer hreplying
    · refine ⟨a, h.failures, hworker, h.inbox, h.answers, h.filed, h.oldest, h.parts, ?_, h.settled,
        hfailed⟩
      intro reply answer hreply
      exact nomatch hreply
  · exact ⟨a, h⟩

/-- **What could not be sent** goes back on the list, before what was put on it since. -/
theorem Accounted.restore : ∃ a', (s.step capacity .restore).Accounted a' := by
  rw [step]
  split
  · rename_i unsent hrestoring
    have hworker := h.worker
    have hfailed := h.failed
    rw [hrestoring] at hworker hfailed
    refine ⟨{ a with held := [], listed := a.held ++ a.listed }, ?_, report_nil.symm, h.inbox,
      h.answers, h.filed, h.oldest, h.parts, ?_, h.settled, hfailed⟩
    · show unsent.restore s.failures = _
      rw [← report_restore, ← hworker, h.failures]
      rfl
    · intro reply answer hreply
      exact nomatch hreply
  · exact ⟨a, h⟩

theorem Accounted.read (i : ℕ) :
    ∃ a', (s.step capacity (.read i)).Accounted a' := by
  rw [step]
  rcases hi : s.inbox[i]? with _ | ⟨takeFailures, answer⟩
  · exact ⟨a, h⟩
  · obtain ⟨part, hpart, hanswer⟩ := h.exists_sent hi
    rcases takeFailures with _ | _
    · have hempty := h.settled _ (List.mem_of_getElem? hi) rfl
      rw [hanswer] at hempty
      exact ⟨_, h.leave hpart h.answers (Or.inr ⟨rfl, eq_nil_of_report hempty⟩)⟩
    · refine ⟨_, h.leave hpart ?_ (Or.inl rfl)⟩
      rw [List.map_append, List.map_singleton, ← h.answers, ← hanswer]
      rfl

theorem Accounted.drop (i : ℕ) (hguard : s.NoAnswerDropped (.drop i)) :
    ∃ a', (s.step capacity (.drop i)).Accounted a' := by
  rcases hi : s.inbox[i]? with _ | unread
  · have herase : s.inbox.eraseIdx i = s.inbox :=
      List.eraseIdx_of_length_le (List.getElem?_eq_none_iff.mp hi)
    exact ⟨a, h.unchanged rfl rfl herase rfl rfl rfl rfl⟩
  · obtain ⟨part, hpart, hanswer⟩ := h.exists_sent hi
    have hempty := hguard unread hi
    rw [hanswer] at hempty
    exact ⟨_, h.leave hpart h.answers (Or.inr ⟨rfl, eq_nil_of_report hempty⟩)⟩

theorem Accounted.takeFailures :
    ∃ a', (s.step capacity .takeFailures).Accounted a' := by
  have holder := List.pairwise_append.mp h.oldest
  refine ⟨{ a with listed := [], answered := a.answered ++ [a.listed] }, report_nil.symm, h.worker,
    h.inbox, ?_, ?_, ?_, ?_, h.settling, h.settled, h.failed⟩
  · show s.answers ++ [s.failures] = _
    rw [List.map_append, List.map_singleton, h.answers, h.failures]
  · have hmove : (a.listed ++ (a.sent.flatten ++ a.held)).Perm
        (a.sent.flatten ++ (a.held ++ a.listed)) := by
      rw [← List.append_assoc a.sent.flatten]
      exact List.perm_append_comm
    rw [List.flatten_append, List.flatten_singleton, List.append_nil, List.append_assoc]
    exact (hmove.append_left _).trans h.filed
  · rw [List.append_nil]
    exact holder.1
  · intro part hpart
    rcases List.mem_append.mp hpart with hpart | hpart
    · rcases List.mem_append.mp hpart with hpart | hpart
      · exact h.parts part (List.mem_append_left _ hpart)
      · obtain rfl := List.mem_singleton.mp hpart
        exact holder.2.1
    · exact h.parts part (List.mem_append_right _ hpart)

end

/-! ### A whole run -/

theorem accounted_new : new.Accounted ⟨[], [], [], []⟩ := by
  refine ⟨report_nil.symm, report_nil.symm, rfl, rfl, List.Perm.refl _, List.Pairwise.nil, ?_, ?_,
    ?_, List.Perm.refl _⟩
  · intro part hpart
    exact absurd hpart List.not_mem_nil
  · intro reply answer hreply
    exact nomatch hreply
  · intro unread hunread
    exact absurd hunread List.not_mem_nil

theorem Accounted.step {action : RecorderAction} (h : s.Accounted a)
    (hguard : s.NoAnswerDropped action) : ∃ a', (s.step capacity action).Accounted a' := by
  cases action with
  | call c => exact ⟨a, h.unchanged rfl rfl rfl rfl rfl rfl rfl⟩
  | send i => exact ⟨a, h.send i⟩
  | file i => exact h.file i
  | reserve => exact ⟨a, h.unchanged rfl rfl rfl rfl rfl rfl rfl⟩
  | release => exact ⟨a, h.unchanged rfl rfl rfl rfl rfl rfl rfl⟩
  | barrier takeFailures => exact ⟨a, h.unchanged rfl rfl rfl rfl rfl rfl rfl⟩
  | apply applied => exact ⟨a, h.apply applied⟩
  | answer => exact h.answer
  | workerFile => exact h.workerFile
  | reply => exact h.reply
  | restore => exact h.restore
  | read i => exact h.read i
  | drop i => exact h.drop i hguard
  | hangUp reply => exact ⟨a, h.unchanged rfl rfl rfl rfl rfl rfl rfl⟩
  | takeFailures => exact h.takeFailures
  | stop => exact ⟨a, h.unchanged rfl rfl rfl rfl rfl rfl rfl⟩

theorem exists_accounted (h : (system capacity).ReachableUnder NoAnswerDropped s) :
    ∃ a, s.Accounted a := by
  refine h.invariant (fun s ↦ ∃ a, s.Accounted a) ⟨_, accounted_new⟩ fun s action _ hs _ hguard ↦ ?_
  obtain ⟨a, ha⟩ := hs
  exact ha.step hguard

theorem sum_total_report (parts : List (List Filed)) :
    ((parts.map report).map BoundedLedger.total).sum = parts.flatten.length := by
  rw [List.map_map, List.length_flatten]
  exact congrArg List.sum (List.map_congr_left fun part _ ↦ total_report part)

theorem Accounted.unreported_eq (h : s.Accounted a) :
    s.unreported = (a.sent.flatten ++ (a.held ++ a.listed)).length := by
  have hinbox : (s.inbox.map fun unread ↦ unread.answer.total).sum = a.sent.flatten.length := by
    rw [← sum_total_report, ← h.inbox, List.map_map]
    rfl
  rw [unreported, h.failures, h.worker, hinbox, total_report, total_report, List.length_append,
    List.length_append]
  omega

theorem Accounted.reportedOnce (h : s.Accounted a) : s.ReportedOnce := by
  refine ⟨h.failed, ⟨a.answered, _, h.answers, fun part hpart ↦ ?_, h.filed,
    h.unreported_eq.symm⟩, ?_⟩
  · exact h.parts part (List.mem_append_left _ hpart)
  · have hfiled : a.answered.flatten.length + s.unreported = s.filed.length := by
      rw [h.unreported_eq, ← List.length_append, h.filed.length_eq, List.length_zipIdx]
    have hanswers : (s.answers.map BoundedLedger.total).sum = a.answered.flatten.length := by
      rw [h.answers, sum_total_report]
    have hfailed : s.failed.length =
        s.filed.length + (s.unfiled ++ s.worker.unfiled).length := by
      rw [h.failed.length_eq, List.length_append]
    omega

/-- **No failure is lost or reported twice** where no flush is dropped between sending and reading.
-/
theorem reportedOnce_of_reachable
    (h : (system capacity).ReachableUnder NoAnswerDropped s) : s.ReportedOnce := by
  obtain ⟨a, ha⟩ := exists_accounted h
  exact ha.reportedOnce

private def lostOp : StagedOp :=
  ⟨⟨"create_box_3d", .null, [], [], [], []⟩, none, .system, BranchId.main, none⟩

/-- A timeline that refuses, a channel too small, and a flush not waited for: the next
`take_failures` reports both. -/
theorem reportedOnce_after_hangUp :
    ∃ s, (system 1).ReachableUnder NoAnswerDropped s ∧ s.failed.length = 2 ∧
      s.unreported = 0 ∧ s.ReportedOnce := by
  have hreach : (system 1).ReachableUnder NoAnswerDropped ((system 1).run (system 1).init
      [.call (.item lostOp), .call (.item lostOp), .send 0, .send 0,
        .apply (.appendFailed "branch is not active"), .workerFile, .reserve, .barrier true,
        .answer, .file 0, .hangUp 0, .reply, .restore, .takeFailures]) := by
    refine .run .init ⟨trivial, trivial, trivial, trivial, Nat.zero_lt_succ _, trivial,
      Nat.zero_lt_succ _, trivial, ⟨_, _, rfl, rfl⟩, trivial, ⟨_, rfl⟩, trivial,
      ⟨rfl, Nat.zero_lt_one⟩, trivial, ⟨rfl, Nat.zero_lt_one⟩, trivial, ⟨_, _, _, rfl, rfl⟩,
      trivial, Nat.zero_lt_succ _, trivial, trivial, trivial, ⟨_, _, _, rfl⟩, trivial, ⟨_, rfl⟩,
      trivial, trivial, trivial, trivial⟩
  exact ⟨_, hreach, rfl, rfl, reportedOnce_of_reachable hreach⟩

/-- A flush dropped with its answer unread takes the failure with it. -/
theorem not_reportedOnce_of_reachable :
    ¬ ∀ (capacity : ℕ) (s : FailureRun), (system capacity).Reachable s → s.ReportedOnce := by
  intro hclaim
  have hreach : (system 1).Reachable ((system 1).run (system 1).init
      [.call (.item lostOp), .send 0, .apply (.appendFailed "branch is not active"), .workerFile,
        .reserve, .barrier true, .answer, .reply, .drop 0]) := by
    refine .run .init ⟨trivial, trivial, Nat.zero_lt_succ _, trivial, ⟨_, _, rfl, rfl⟩, trivial,
      ⟨_, rfl⟩, trivial, ⟨rfl, Nat.zero_lt_one⟩, trivial, ⟨rfl, Nat.zero_lt_one⟩, trivial,
      ⟨_, _, _, rfl, rfl⟩, trivial, ⟨_, _, _, rfl⟩, trivial, Nat.zero_lt_succ _, trivial, trivial⟩
  have hsum : 0 = 1 := (hclaim 1 _ hreach).2.2
  exact absurd hsum (by decide)

end FailureRun

end RosheraCad
