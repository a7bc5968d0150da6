import RosheraCad.Verdict.Safety
import Mathlib.Data.List.Perm.Subperm

/-!
# Quorum decisions and ticks

The quorum policy resolves once enough agents have approved, and rejects as soon as the agents still
to vote are too few. Approvals are never taken back, and each vote still to come adds at most one.
The text of a rejection is another matter: it counts the votes at the time.
-/

namespace RosheraCad

/-- Quorum-based policy. Both fields are open to the caller. -/
structure QuorumResolver where
  required : ℕ
  total : ℕ
  deriving DecidableEq

namespace QuorumResolver

def new (required total : ℕ) : Except VerdictError QuorumResolver :=
  if required = 0 then .error .emptyQuorum
  else if total = 0 then .error .emptyParticipants
  else if required > total then .error (.invalidQuorum required total)
  else .ok ⟨required, total⟩

def count (decision : VoteDecision) (votes : List Vote) : ℕ :=
  (votes.filter fun v ↦ v.decision = decision).length

/-- The outcome of the votes cast so far. -/
def resolve (q : QuorumResolver) : VerdictResolver := fun proposal votes ↦
  let approvals := count .approve votes
  let rejections := count .reject votes
  let abstains := count .abstain votes
  if approvals ≥ q.required then .resolved proposal.mutation
  else
    let consumed := approvals + rejections + abstains
    -- The subtraction stops at zero, as the saturating one does.
    let remaining := q.total - consumed
    if approvals + remaining < q.required then
      .rejected (s!"quorum unreachable: {approvals} approvals, {rejections} rejections, " ++
        s!"{abstains} abstains, {remaining} remaining of {q.total}; need {q.required}")
    else .pending

/-! ## Counting -/

variable {q : QuorumResolver} {p : Proposal} {votes all : List Vote}

theorem count_add_count_add_count (votes : List Vote) :
    count .approve votes + count .reject votes + count .abstain votes = votes.length := by
  induction votes with
  | nil => rfl
  | cons v votes ih =>
    simp only [count, List.filter_cons, List.length_cons] at ih ⊢
    cases v.decision <;> simp <;> omega

theorem count_le_of_subperm (decision : VoteDecision) (h : votes.Subperm all) :
    count decision votes ≤ count decision all :=
  (List.Subperm.filter (fun v : Vote ↦ decide (v.decision = decision)) h).length_le

theorem count_approve_le (h : votes.Subperm all) :
    count .approve all ≤ count .approve votes + (all.length - votes.length) := by
  have hall := count_add_count_add_count all
  have hvotes := count_add_count_add_count votes
  have hreject := count_le_of_subperm .reject h
  have habstain := count_le_of_subperm .abstain h
  omega

theorem resolve_of_le (h : q.required ≤ count .approve votes) :
    q.resolve p votes = .resolved p.mutation :=
  if_pos h

/-- Without enough approvals the policy waits as long as those still to vote could make up the
number. -/
theorem kind_resolve_of_lt (h : count .approve votes < q.required) :
    (q.resolve p votes).kind =
      if count .approve votes + (q.total - votes.length) < q.required then .rejected
      else .pending := by
  rw [resolve]
  dsimp only
  rw [if_neg (by omega), count_add_count_add_count]
  split <;> rfl

theorem kind_resolve_ne_pending (h : votes.length = q.total) :
    (q.resolve p votes).kind ≠ .pending := by
  by_cases hle : q.required ≤ count .approve votes
  · rw [resolve_of_le hle]
    exact nofun
  · have hlt := Nat.lt_of_not_le hle
    rw [kind_resolve_of_lt hlt, if_pos (by omega)]
    exact nofun

end QuorumResolver

/-- The same mutation is committed, or both reject, for whatever reason, or both wait. -/
def VerdictOutcome.SameVerdict : VerdictOutcome → VerdictOutcome → Prop
  | .resolved a, .resolved b => a = b
  | .rejected _, .rejected _ => True
  | .pending, .pending => True
  | _, _ => False

namespace QuorumResolver

variable {q : QuorumResolver} {p : Proposal} {votes all : List Vote}

theorem sameVerdict_of_rejected {a b : VerdictOutcome} (ha : a.kind = .rejected)
    (hb : b.kind = .rejected) : a.SameVerdict b := by
  cases a <;> cases ha
  cases b <;> cases hb
  trivial

theorem sameVerdict_resolve (hkind : (q.resolve p votes).kind ≠ .pending) (h : votes.Subperm all)
    (hall : all.length = q.total) : (q.resolve p votes).SameVerdict (q.resolve p all) := by
  by_cases hle : q.required ≤ count .approve votes
  · rw [resolve_of_le hle, resolve_of_le (hle.trans (count_le_of_subperm .approve h))]
    exact rfl
  · have hlt := Nat.lt_of_not_le hle
    have hunreachable : count .approve votes + (q.total - votes.length) < q.required := by
      by_contra hreach
      exact hkind (by rw [kind_resolve_of_lt hlt, if_neg hreach])
    -- Even if all that are left approve, the number is not reached.
    have hmost := count_approve_le h
    have hlen := h.length_le
    refine sameVerdict_of_rejected ?_ ?_
    · rw [kind_resolve_of_lt hlt, if_pos hunreachable]
    · rw [kind_resolve_of_lt (by omega), if_pos (by omega)]

end QuorumResolver

/-! ## The votes a room keeps -/

def votesOn (id : ProposalId) (script : List RoomOp) : List Vote :=
  script.filterMap fun
    | .vote c v => if c = id then some v else none
    | _ => none

def VoteOnce (id : ProposalId) (script : List RoomOp) : Prop :=
  (votesOn id script).Pairwise fun a b ↦ ¬ agentsMatch a.agent b.agent

instance (id : ProposalId) (script : List RoomOp) : Decidable (VoteOnce id script) :=
  inferInstanceAs (Decidable (List.Pairwise _ _))

theorem votesOn_append (id : ProposalId) (before after : List RoomOp) :
    votesOn id (before ++ after) = votesOn id before ++ votesOn id after :=
  List.filterMap_append

theorem VoteOnce.left {id : ProposalId} {before after : List RoomOp}
    (h : VoteOnce id (before ++ after)) : VoteOnce id before := by
  rw [VoteOnce, votesOn_append, List.pairwise_append] at h
  exact h.1

namespace RoomSimulator

variable {room : RoomSimulator} {resolve : VerdictResolver} {p : Proposal} {votes : List Vote}

def Keeps (room : RoomSimulator) (p : Proposal) (votes : List Vote) : Prop :=
  ∀ entry, room.pending[p.id]? = some entry → entry = (p, votes)

theorem castVote_of_new {v : Vote} (h : ∀ w ∈ votes, ¬ agentsMatch w.agent v.agent) :
    castVote v votes = votes ++ [v] := by
  induction votes with
  | nil => rfl
  | cons w votes ih =>
    rw [castVote, if_neg (h w List.mem_cons_self),
      ih fun u hu ↦ h u (List.mem_cons_of_mem w hu)]
    rfl

theorem keeps_propose_self (room : RoomSimulator) (p : Proposal) :
    (room.propose p.agent p.mutation p.target p.id).Keeps p [] := by
  intro entry h
  rw [propose, Std.ExtTreeMap.getElem?_insert_self] at h
  exact (Option.some.inj h).symm

namespace Keeps

section

variable (h : room.Keeps p votes)

include h

theorem propose (agent : AgentId) (mutation : Json)
    (target : ProposalTarget) {id : ProposalId} (hid : id ≠ p.id) :
    (room.propose agent mutation target id).Keeps p votes := by
  intro entry hentry
  rw [RoomSimulator.propose, OrderedMap.lookup_insert, if_neg hid.symm] at hentry
  exact h entry hentry

theorem vote_of_ne {id : ProposalId} (hid : id ≠ p.id) (v : Vote) :
    (room.vote id v).2.Keeps p votes := by
  intro entry hentry
  rw [RoomSimulator.vote] at hentry
  rcases hp : room.pending[id]? with - | ⟨proposal, cast⟩
  · rw [hp] at hentry
    exact h entry hentry
  · rw [hp] at hentry
    dsimp only at hentry
    rw [OrderedMap.lookup_insert, if_neg hid.symm] at hentry
    exact h entry hentry

theorem vote_self {v : Vote} (hv : ∀ w ∈ votes, ¬ agentsMatch w.agent v.agent) :
    (room.vote p.id v).2.Keeps p (votes ++ [v]) := by
  intro entry hentry
  rw [RoomSimulator.vote] at hentry
  rcases hp : room.pending[p.id]? with - | ⟨proposal, cast⟩
  · rw [hp] at hentry
    cases hp.symm.trans hentry
  · rw [hp] at hentry
    dsimp only at hentry
    rw [Std.ExtTreeMap.getElem?_insert_self] at hentry
    cases h _ hp
    rw [← Option.some.inj hentry, castVote_of_new hv]

theorem tick : (room.tick resolve).1.Keeps p votes := by
  intro entry hentry
  rw [getElem?_pending_tick] at hentry
  rcases hdue : room.due resolve p.id with - | outcome
  · rw [hdue] at hentry
    exact h entry hentry
  · rw [hdue] at hentry
    dsimp only at hentry
    split_ifs at hentry
    exact h entry hentry

end

/-- **A step adds the vote it casts on the proposal**, and no other. -/
theorem step {s : RoomRun} (h : s.room.Keeps p votes) (hp : p.id ∈ s.proposed) {op : RoomOp}
    (he : s.enabled op)
    (hop : ∀ v ∈ votesOn p.id [op], ∀ w ∈ votes, ¬ agentsMatch w.agent v.agent) :
    (s.step resolve op).room.Keeps p (votes ++ votesOn p.id [op]) := by
  cases op with
  | propose agent mutation target id =>
    have hid : id ≠ p.id := by
      rintro rfl
      exact he hp
    rw [show votesOn p.id [.propose agent mutation target id] = [] from rfl, List.append_nil]
    exact h.propose agent mutation target hid
  | vote id v =>
    by_cases hid : id = p.id
    · subst hid
      have hcast : votesOn p.id [.vote p.id v] = [v] := by simp [votesOn]
      rw [hcast] at hop ⊢
      exact h.vote_self (hop v (List.mem_singleton_self v))
    · rw [show votesOn p.id [.vote id v] = [] by simp [votesOn, hid], List.append_nil]
      exact h.vote_of_ne hid v
  | tick =>
    rw [show votesOn p.id [.tick] = [] from rfl, List.append_nil]
    exact h.tick

end Keeps

theorem outcome_of_mem_tick (h : room.Keeps p votes) {record : VerdictRecord}
    (hr : record ∈ (room.tick resolve).2) (hid : record.proposalId = p.id) :
    record.outcome = resolve p votes := by
  have hdue : room.due resolve p.id = some record.outcome := by
    rw [← mem_dues, ← map_tick, ← hid]
    exact List.mem_map.mpr ⟨record, hr, rfl⟩
  obtain ⟨entry, hentry⟩ := OrderedMap.mem_iff_exists.mp (mem_pending_of_due hdue)
  cases h entry hentry
  rw [due, hentry] at hdue
  dsimp only at hdue
  cases hr : resolve p votes with
  | pending =>
    rw [hr] at hdue
    dsimp only at hdue
    split_ifs at hdue
    exact (Option.some.inj hdue).symm
  | resolved mutation =>
    rw [hr] at hdue
    exact (Option.some.inj hdue).symm
  | rejected reason =>
    rw [hr] at hdue
    exact (Option.some.inj hdue).symm

theorem exists_record_of_kind (h : room.Keeps p votes) (hp : p.id ∈ room.pending)
    (hkind : (resolve p votes).kind ≠ .pending) :
    ∃ record ∈ (room.tick resolve).2, record.proposalId = p.id ∧ record.Terminal := by
  obtain ⟨entry, hentry⟩ := OrderedMap.mem_iff_exists.mp hp
  cases h entry hentry
  have hdue : room.due resolve p.id = some (resolve p votes) := by
    rw [due, hentry]
    dsimp only
    cases hr : resolve p votes with
    | pending => exact absurd (by rw [hr]; rfl) hkind
    | resolved mutation => rfl
    | rejected reason => rfl
  rw [← mem_dues, ← map_tick] at hdue
  obtain ⟨record, hr, heq⟩ := List.mem_map.mp hdue
  obtain ⟨hid, houtcome⟩ := Prod.mk.inj heq
  exact ⟨record, hr, hid, by rw [VerdictRecord.Terminal, houtcome]; exact hkind⟩

end RoomSimulator

/-! ## Ticks do not matter -/

/-- When ticks happen does not matter to a proposal, as far as `same` tells outcomes apart. -/
structure TickIndependent (same : VerdictOutcome → VerdictOutcome → Prop) (q : QuorumResolver)
    (p : Proposal) (s : RoomRun) (script : List RoomOp) : Prop where
  decided : ∀ before after, script = before ++ .tick :: after →
    ∀ record ∈ (((roomSystem q.resolve).run s before).room.tick q.resolve).2,
      record.proposalId = p.id → record.Terminal →
        ∀ all, (votesOn p.id before).Subperm all → all.length = q.total →
          same record.outcome (q.resolve p all)
  settled : ∀ before after, script = before ++ .tick :: after →
    (votesOn p.id before).length = q.total →
      (∃ record ∈ (((roomSystem q.resolve).run s before).room.tick q.resolve).2,
          record.proposalId = p.id ∧ record.Terminal) ∨
        ∃ record ∈ ((roomSystem q.resolve).run s before).room.history,
          record.proposalId = p.id ∧ record.Terminal

/-- The submission a run begins with. -/
def RoomOp.submit (p : Proposal) : RoomOp := .propose p.agent p.mutation p.target p.id

section Run

variable {q : QuorumResolver} {p : Proposal} {s : RoomRun} {script : List RoomOp}

theorem keeps_run (hp : p.id ∈ s.proposed) (hkeeps : s.room.Keeps p [])
    (ha : (roomSystem q.resolve).Admits (fun _ _ ↦ True) s script) (honce : VoteOnce p.id script) :
    ((roomSystem q.resolve).run s script).room.Keeps p (votesOn p.id script) ∧
      p.id ∈ ((roomSystem q.resolve).run s script).proposed := by
  induction script using List.reverseRecOn with
  | nil => exact ⟨hkeeps, hp⟩
  | append_singleton before op ih =>
    rw [VoteOnce, votesOn_append, List.pairwise_append] at honce
    obtain ⟨hbefore, henabled, -⟩ := GuardedSystem.admits_concat.mp ha
    obtain ⟨hkept, hmem⟩ := ih hbefore honce.1
    rw [GuardedSystem.run_concat, votesOn_append]
    refine ⟨hkept.step hmem henabled fun v hv w hw ↦ honce.2.2 w hw v hv, ?_⟩
    cases op with
    | propose => exact List.mem_cons_of_mem _ hmem
    | vote => exact hmem
    | tick => exact hmem

end Run

/-- **Quorum decisions do not depend on when ticks happen**, whatever the room, and however the
votes are interleaved with ticks and other proposals. -/
theorem QuorumResolver.tickIndependent_sameVerdict {q : QuorumResolver} {p : Proposal} {s : RoomRun}
    {script : List RoomOp} (hs : (roomSystem q.resolve).Reachable s)
    (ha : (roomSystem q.resolve).Admits (fun _ _ ↦ True) s (.submit p :: script))
    (honce : VoteOnce p.id script) :
    TickIndependent VerdictOutcome.SameVerdict q p ((roomSystem q.resolve).step s (.submit p))
      script := by
  obtain ⟨henabled, -, ha⟩ := ha
  have hsubmitted : (roomSystem q.resolve).Reachable ((roomSystem q.resolve).step s (.submit p)) :=
    hs.step henabled trivial
  refine ⟨fun before after heq record hr hid hterminal all hall hlen ↦ ?_,
    fun before after heq hlen ↦ ?_⟩
  · subst heq
    obtain ⟨hkept, -⟩ := keeps_run List.mem_cons_self (s.room.keeps_propose_self p) ha.left
      honce.left
    have houtcome := RoomSimulator.outcome_of_mem_tick hkept hr hid
    rw [VerdictRecord.Terminal, houtcome] at hterminal
    rw [houtcome]
    exact sameVerdict_resolve hterminal hall hlen
  · subst heq
    obtain ⟨hkept, hmem⟩ := keeps_run List.mem_cons_self (s.room.keeps_propose_self p) ha.left
      honce.left
    by_cases hpending : p.id ∈ ((roomSystem q.resolve).run
        ((roomSystem q.resolve).step s (.submit p)) before).room.pending
    · exact Or.inl
        (RoomSimulator.exists_record_of_kind hkept hpending (kind_resolve_ne_pending hlen))
    · -- A proposal leaves the room with a terminal record only.
      have hconsistent := consistent_of_reachable (hsubmitted.run ha.left)
      exact Or.inr ((hconsistent.closed_iff _ hmem).mp hpending)

/-- Two of three are needed, and both rejections come before the first tick. -/
def rejectedEarly : List RoomOp :=
  [.vote (exampleProposal 1) ⟨exampleAgent "bob", .reject⟩,
    .vote (exampleProposal 1) ⟨exampleAgent "carol", .reject⟩, .tick]

def exampleSubmitted : Proposal := ⟨exampleProposal 1, exampleAgent "alice", .null, .global⟩

theorem QuorumResolver.tickIndependent_rejectedEarly :
    TickIndependent VerdictOutcome.SameVerdict ⟨2, 3⟩ exampleSubmitted
      ((roomSystem (QuorumResolver.resolve ⟨2, 3⟩)).step ⟨.new, []⟩ (.submit exampleSubmitted))
      rejectedEarly :=
  tickIndependent_sameVerdict (s := ⟨.new, []⟩) .init (by decide) (by decide)

/-- The reason of an early rejection is not the one that is given when all have voted. -/
theorem QuorumResolver.not_tickIndependent_eq :
    ¬ TickIndependent (· = ·) ⟨2, 3⟩ exampleSubmitted
      ((roomSystem (QuorumResolver.resolve ⟨2, 3⟩)).step ⟨.new, []⟩ (.submit exampleSubmitted))
      rejectedEarly := by
  intro h
  have hcompleted := h.decided (rejectedEarly.take 2) [] rfl
    ⟨exampleProposal 1, .rejected
      "quorum unreachable: 0 approvals, 2 rejections, 0 abstains, 1 remaining of 3; need 2", none⟩
    (by decide) rfl (by decide)
    [⟨exampleAgent "bob", .reject⟩, ⟨exampleAgent "carol", .reject⟩,
      ⟨exampleAgent "dan", .abstain⟩] (List.Sublist.subperm (by decide)) rfl
  revert hcompleted
  decide

end RosheraCad
