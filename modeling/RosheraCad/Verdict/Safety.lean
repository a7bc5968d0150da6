import RosheraCad.Verdict.Room
import Mathlib.Data.List.Pairwise

/-!
# Safety of the verdict room

A run of a room takes proposals, votes and ticks in any order. A proposal has left the pending map
exactly when a terminal record was written, two records of one proposal are a pending one followed
by a terminal one, and the canonical stream is what the history committed.
-/

namespace RosheraCad

/-- A room and the proposals submitted to it. -/
structure RoomRun where
  room : RoomSimulator
  proposed : List ProposalId

/-- The calls a run takes. -/
inductive RoomOp
  | propose (agent : AgentId) (mutation : Json) (target : ProposalTarget) (id : ProposalId)
  | vote (id : ProposalId) (vote : Vote)
  | tick

namespace RoomRun

def enabled (s : RoomRun) : RoomOp → Prop
  | .propose _ _ _ id => id ∉ s.proposed
  | _ => True

instance (s : RoomRun) : ∀ op, Decidable (s.enabled op)
  | .propose _ _ _ id => inferInstanceAs (Decidable (id ∉ s.proposed))
  | .vote .. | .tick => isTrue trivial

def step (resolve : VerdictResolver) (s : RoomRun) : RoomOp → RoomRun
  | .propose agent mutation target id =>
    ⟨s.room.propose agent mutation target id, id :: s.proposed⟩
  | .vote id vote => { s with room := (s.room.vote id vote).2 }
  | .tick => { s with room := (s.room.tick resolve).1 }

end RoomRun

def roomSystem (resolve : VerdictResolver) : GuardedSystem RoomRun RoomOp where
  init := ⟨.new, []⟩
  enabled := RoomRun.enabled
  step := RoomRun.step resolve

instance (resolve : VerdictResolver) (s : RoomRun) (op : RoomOp) :
    Decidable ((roomSystem resolve).enabled s op) :=
  inferInstanceAs (Decidable (s.enabled op))

variable {resolve : VerdictResolver}

namespace RoomSimulator

variable {room : RoomSimulator} {proposed : List ProposalId}

/-! ## The invariant -/

def HasRecord (room : RoomSimulator) (id : ProposalId) (kind : OutcomeKind) : Prop :=
  ∃ record ∈ room.history, record.proposalId = id ∧ record.outcome.kind = kind

/-- Two records of one proposal: a pending one, then a terminal one. -/
def InOrder (a b : VerdictRecord) : Prop :=
  a.proposalId = b.proposalId → ¬ a.Terminal ∧ b.Terminal

/-- The invariant of a run. -/
structure Consistent (proposed : List ProposalId) (room : RoomSimulator) : Prop where
  pending_proposed : ∀ id ∈ room.pending, id ∈ proposed
  history_proposed : ∀ record ∈ room.history, record.proposalId ∈ proposed
  closed_iff : ∀ id ∈ proposed,
    id ∉ room.pending ↔ ∃ record ∈ room.history, record.proposalId = id ∧ record.Terminal
  last_iff : ∀ id, room.lastOutcome[id]? = some .pending ↔
    id ∈ room.pending ∧ ∃ record ∈ room.history, record.proposalId = id
  ordered : room.history.Pairwise InOrder
  canonical_eq : room.canonical = room.history.filterMap VerdictRecord.committed
  indexes : ∀ before record after, room.history = before ++ record :: after →
    record.committedOpIndex = match record.outcome with
      | .resolved _ => some (before.filterMap VerdictRecord.committed).length
      | _ => none

namespace Consistent

theorem new : Consistent [] RoomSimulator.new where
  pending_proposed id hid := by simp [RoomSimulator.new] at hid
  history_proposed record hr := by simp [RoomSimulator.new] at hr
  closed_iff id hid := by simp at hid
  last_iff id := by simp [RoomSimulator.new]
  ordered := .nil
  canonical_eq := rfl
  indexes before record after h := by simp [RoomSimulator.new] at h

variable {id : ProposalId}

section

variable (h : Consistent proposed room)

include h

theorem not_terminal (hid : id ∈ room.pending)
    {record : VerdictRecord} (hr : record ∈ room.history) (hrid : record.proposalId = id) :
    ¬ record.Terminal := by
  intro ht
  exact (h.closed_iff id (h.pending_proposed id hid)).mpr ⟨record, hr, hrid, ht⟩ hid

theorem withPending {pending : OrderedMap ProposalId (Proposal × List Vote)}
    (hkeys : ∀ id, id ∈ pending ↔ id ∈ room.pending) :
    Consistent proposed { room with pending } :=
  { h with
    pending_proposed := fun id hid ↦ h.pending_proposed id ((hkeys id).mp hid)
    closed_iff := fun id hid ↦ (not_congr (hkeys id)).trans (h.closed_iff id hid)
    last_iff := fun id ↦ (h.last_iff id).trans (and_congr_left' (hkeys id).symm) }

theorem vote (id : ProposalId) (v : Vote) :
    Consistent proposed (room.vote id v).2 := by
  rw [RoomSimulator.vote]
  rcases hp : room.pending[id]? with - | ⟨proposal, votes⟩
  · exact h
  · refine h.withPending fun c ↦ ?_
    rw [Std.ExtTreeMap.mem_insert, Std.LawfulEqOrd.compare_eq_iff_eq]
    constructor
    · rintro (rfl | hc)
      · exact OrderedMap.mem_of_getElem? hp
      · exact hc
    · exact Or.inr

theorem propose (agent : AgentId) (mutation : Json)
    (target : ProposalTarget) (hid : id ∉ proposed) :
    Consistent (id :: proposed) (room.propose agent mutation target id) := by
  have hmem : ∀ c, c ∈ (room.propose agent mutation target id).pending ↔
      c = id ∨ c ∈ room.pending := by
    intro c
    rw [RoomSimulator.propose, Std.ExtTreeMap.mem_insert, Std.LawfulEqOrd.compare_eq_iff_eq,
      eq_comm]
  have hnone : ∀ record ∈ room.history, record.proposalId ≠ id := by
    intro record hr heq
    exact hid (heq ▸ h.history_proposed record hr)
  refine { h with
           pending_proposed := fun c hc ↦ ?_, history_proposed := fun record hr ↦ ?_,
           closed_iff := fun c hc ↦ ?_, last_iff := fun c ↦ ?_ }
  · rcases (hmem c).mp hc with rfl | hc
    · exact List.mem_cons_self
    · exact List.mem_cons_of_mem _ (h.pending_proposed c hc)
  · exact List.mem_cons_of_mem _ (h.history_proposed record hr)
  · rw [hmem]
    by_cases heq : c = id
    · refine iff_of_false (fun hn ↦ hn (Or.inl heq)) ?_
      rintro ⟨record, hr, hrid, -⟩
      exact hnone record hr (hrid.trans heq)
    · rw [or_iff_right heq]
      exact h.closed_iff c ((List.mem_cons.mp hc).resolve_left heq)
  · rw [hmem]
    refine (h.last_iff c).trans (and_congr_left fun ⟨record, hr, hrid⟩ ↦ ?_)
    exact (or_iff_right fun heq ↦ hnone record hr (hrid.trans heq)).symm

private theorem ordered_recorded
    {outcome : VerdictOutcome} (hdue : room.due resolve id = some outcome) :
    (room.recorded id outcome).history.Pairwise InOrder := by
  rw [recorded, List.pairwise_append]
  refine ⟨h.ordered, List.pairwise_singleton _ _, fun a ha b hb hab ↦ ?_⟩
  obtain rfl := List.mem_singleton.mp hb
  have hid := mem_pending_of_due hdue
  refine ⟨h.not_terminal hid ha hab, kind_ne_pending_of_due hdue ?_⟩
  exact (h.last_iff id).mpr ⟨hid, a, ha, hab⟩

private theorem indexes_recorded (id : ProposalId)
    (outcome : VerdictOutcome) (before : List VerdictRecord) (record : VerdictRecord)
    (after : List VerdictRecord)
    (heq : (room.recorded id outcome).history = before ++ record :: after) :
    record.committedOpIndex = match record.outcome with
      | .resolved _ => some (before.filterMap VerdictRecord.committed).length
      | _ => none := by
  rcases List.eq_nil_or_concat after with rfl | ⟨after, last, rfl⟩
  · obtain ⟨hbefore, hrecord⟩ := List.append_inj' heq rfl
    obtain rfl := List.singleton_inj.mp hrecord
    rw [← hbefore, ← h.canonical_eq]
    rfl
  · rw [List.concat_eq_append, ← List.cons_append, ← List.append_assoc] at heq
    have hsplit : room.history ++ [room.recordOf id outcome] =
        (before ++ record :: after) ++ [last] := heq
    exact h.indexes before record after (List.append_inj' hsplit rfl).1

/-- **Recording a due outcome keeps the invariant.** -/
theorem recorded {outcome : VerdictOutcome} (hdue : room.due resolve id = some outcome) :
    Consistent proposed (room.recorded id outcome) := by
  have hid := mem_pending_of_due hdue
  have hhistory : ∀ record, record ∈ (room.recorded id outcome).history ↔
      record ∈ room.history ∨ record = room.recordOf id outcome := by
    intro record
    rw [RoomSimulator.recorded, List.mem_append, List.mem_singleton]
  have hpending : ∀ c, c ∈ (room.recorded id outcome).pending ↔
      c ∈ room.pending ∧ (c = id → outcome.kind = .pending) := by
    intro c
    rw [RoomSimulator.recorded]
    by_cases hk : outcome.kind = .pending
    · simp [hk]
    · rw [if_neg hk, Std.ExtTreeMap.mem_erase, Ne, Std.LawfulEqOrd.compare_eq_iff_eq, and_comm,
        eq_comm]
      simp only [hk, imp_false]
  refine { pending_proposed := fun c hc ↦ h.pending_proposed c ((hpending c).mp hc).1,
           history_proposed := fun record hr ↦ ?_, closed_iff := fun c hc ↦ ?_,
           last_iff := fun c ↦ ?_, ordered := h.ordered_recorded hdue, canonical_eq := ?_,
           indexes := h.indexes_recorded id outcome }
  · rcases (hhistory record).mp hr with hr | rfl
    · exact h.history_proposed record hr
    · exact h.pending_proposed id hid
  · -- A proposal is closed by this record or was closed by an earlier one.
    rw [hpending, not_and_or, Classical.not_imp]
    constructor
    · rintro (hnot | ⟨rfl, hk⟩)
      · obtain ⟨record, hr, hrid, ht⟩ := (h.closed_iff c hc).mp hnot
        exact ⟨record, (hhistory record).mpr (Or.inl hr), hrid, ht⟩
      · exact ⟨_, (hhistory _).mpr (Or.inr rfl), rfl, hk⟩
    · rintro ⟨record, hr, hrid, ht⟩
      rcases (hhistory record).mp hr with hr | rfl
      · exact Or.inl ((h.closed_iff c hc).mpr ⟨record, hr, hrid, ht⟩)
      · exact Or.inr ⟨hrid.symm, ht⟩
  · rw [hpending]
    have hlast : (room.recorded id outcome).lastOutcome[c]? =
        if c = id then if outcome.kind = .pending then some .pending else none
        else room.lastOutcome[c]? := by
      rw [RoomSimulator.recorded]
      by_cases hk : outcome.kind = .pending <;> by_cases hc : c = id <;> simp [hk, hc]
    rw [hlast]
    by_cases hc : c = id
    · subst hc
      rw [if_pos rfl]
      by_cases hk : outcome.kind = .pending
      · rw [if_pos hk]
        exact iff_of_true rfl ⟨⟨hid, fun _ ↦ hk⟩, _, (hhistory _).mpr (Or.inr rfl), rfl⟩
      · rw [if_neg hk]
        exact iff_of_false (Option.some_ne_none _).symm fun hall ↦ hk (hall.1.2 rfl)
    · -- Another proposal's last outcome stands.
      rw [if_neg hc, h.last_iff c]
      constructor
      · rintro ⟨hmem, record, hr, hrid⟩
        exact ⟨⟨hmem, fun heq ↦ absurd heq hc⟩, record, (hhistory record).mpr (Or.inl hr), hrid⟩
      · rintro ⟨⟨hmem, -⟩, record, hr, hrid⟩
        rcases (hhistory record).mp hr with hr | rfl
        · exact ⟨hmem, record, hr, hrid⟩
        · exact absurd hrid.symm hc
  · rw [RoomSimulator.recorded, List.filterMap_append, ← h.canonical_eq]
    rcases hcommitted : (room.recordOf id outcome).committed with - | op <;> simp [hcommitted]

end

theorem foldl_tickProposal (resolve : VerdictResolver) (ids : List ProposalId)
    {acc : RoomSimulator × List VerdictRecord} (h : Consistent proposed acc.1) :
    Consistent proposed (ids.foldl (tickProposal resolve) acc).1 := by
  induction ids generalizing acc with
  | nil => exact h
  | cons id ids ih =>
    refine ih ?_
    obtain ⟨room, produced⟩ := acc
    rw [tickProposal_eq]
    rcases hdue : room.due resolve id with - | outcome
    · exact h
    · exact h.recorded hdue

/-- **A step keeps the invariant.** -/
theorem step {s : RoomRun} (h : Consistent s.proposed s.room) {op : RoomOp} (he : s.enabled op) :
    Consistent (s.step resolve op).proposed (s.step resolve op).room := by
  cases op with
  | propose agent mutation target id => exact h.propose agent mutation target he
  | vote id v => exact h.vote id v
  | tick => exact h.foldl_tickProposal resolve _

end Consistent

/-! ## Safety -/

/-- What holds of a room at any time. -/
structure Safe (proposed : List ProposalId) (room : RoomSimulator) : Prop where
  one_state : ∀ id ∈ proposed,
    (id ∈ room.pending ∧ ¬ room.HasRecord id .resolved ∧ ¬ room.HasRecord id .rejected) ∨
      (id ∉ room.pending ∧ room.HasRecord id .resolved ∧ ¬ room.HasRecord id .rejected) ∨
      (id ∉ room.pending ∧ ¬ room.HasRecord id .resolved ∧ room.HasRecord id .rejected)
  terminal_once : ∀ id,
    (room.history.filter fun r ↦ r.proposalId = id ∧ r.Terminal).length ≤ 1
  pending_once : ∀ id,
    (room.history.filter fun r ↦ r.proposalId = id ∧ ¬ r.Terminal).length ≤ 1
  nothing_after : ∀ before record after, room.history = before ++ record :: after →
    record.Terminal → ∀ later ∈ after, later.proposalId ≠ record.proposalId
  votes_refused : ∀ record ∈ room.history, record.Terminal → ∀ v,
    room.vote record.proposalId v = (.error (.unknownProposal record.proposalId), room)
  canonical_eq : room.canonical = room.history.filterMap VerdictRecord.committed
  points_at_own : ∀ before record after mutation, room.history = before ++ record :: after →
    record.outcome = .resolved mutation →
      record.committedOpIndex = some (before.filterMap VerdictRecord.committed).length ∧
        room.canonical[(before.filterMap VerdictRecord.committed).length]? =
          some (verdictCommit mutation)

private theorem length_filter_le_one {α : Type} {R : α → α → Prop} {p : α → Bool} {l : List α}
    (h : l.Pairwise R) (hp : ∀ a b, p a → p b → ¬ R a b) : (l.filter p).length ≤ 1 := by
  have hfilter : (l.filter p).Pairwise R := h.filter p
  rcases hl : l.filter p with - | ⟨a, - | ⟨b, rest⟩⟩
  · exact Nat.zero_le _
  · exact Nat.le_refl _
  · rw [hl, List.pairwise_cons] at hfilter
    have ha : a ∈ l.filter p := hl ▸ List.mem_cons_self
    have hb : b ∈ l.filter p := hl ▸ List.mem_cons_of_mem _ List.mem_cons_self
    exact absurd (hfilter.1 b List.mem_cons_self)
      (hp a b (List.mem_filter.mp ha).2 (List.mem_filter.mp hb).2)

namespace Consistent

theorem terminal_unique (h : Consistent proposed room) {a b : VerdictRecord}
    (ha : a ∈ room.history) (hb : b ∈ room.history) (hab : a.proposalId = b.proposalId)
    (hat : a.Terminal) (hbt : b.Terminal) : a = b := by
  by_contra hne
  have hpair : room.history.Pairwise fun a b ↦ InOrder a b ∨ InOrder b a := h.ordered.imp Or.inl
  have : Std.Symm fun a b ↦ InOrder a b ∨ InOrder b a := ⟨fun _ _ ↦ Or.symm⟩
  rcases hpair.forall ha hb hne with hin | hin
  · exact (hin hab).1 hat
  · exact (hin hab.symm).1 hbt

theorem safe (h : Consistent proposed room) : Safe proposed room where
  one_state id hid := by
    have hterminal : ∀ kind, kind ≠ .pending → room.HasRecord id kind → id ∉ room.pending := by
      rintro kind hkind ⟨record, hr, hrid, rfl⟩
      exact (h.closed_iff id hid).mpr ⟨record, hr, hrid, hkind⟩
    by_cases hp : id ∈ room.pending
    · exact Or.inl ⟨hp, fun hr ↦ hterminal .resolved nofun hr hp,
        fun hr ↦ hterminal .rejected nofun hr hp⟩
    · obtain ⟨record, hr, hrid, ht⟩ := (h.closed_iff id hid).mp hp
      -- A closed proposal has one closing record, which tells its state.
      have honly : ∀ kind, kind ≠ .pending → room.HasRecord id kind →
          record.outcome.kind = kind := by
        rintro kind hkind ⟨other, ho, hoid, rfl⟩
        rw [h.terminal_unique hr ho (hrid.trans hoid.symm) ht hkind]
      rcases hk : record.outcome.kind with - | - | -
      · refine Or.inr (Or.inl ⟨hp, ⟨record, hr, hrid, hk⟩, fun hrej ↦ ?_⟩)
        cases hk.symm.trans (honly .rejected nofun hrej)
      · refine Or.inr (Or.inr ⟨hp, fun hres ↦ ?_, record, hr, hrid, hk⟩)
        cases hk.symm.trans (honly .resolved nofun hres)
      · exact absurd hk ht
  terminal_once id := by
    refine length_filter_le_one h.ordered fun a b ha hb hin ↦ ?_
    simp only [decide_eq_true_eq] at ha hb
    exact (hin (ha.1.trans hb.1.symm)).1 ha.2
  pending_once id := by
    refine length_filter_le_one h.ordered fun a b ha hb hin ↦ ?_
    simp only [decide_eq_true_eq] at ha hb
    exact hb.2 (hin (ha.1.trans hb.1.symm)).2
  nothing_after before record after heq ht later hlater hid := by
    have hordered := h.ordered
    rw [heq, List.pairwise_append, List.pairwise_cons] at hordered
    exact (hordered.2.1.1 later hlater hid.symm).1 ht
  votes_refused record hr ht v := by
    have hnot : record.proposalId ∉ room.pending :=
      (h.closed_iff _ (h.history_proposed record hr)).mpr ⟨record, hr, rfl, ht⟩
    rw [RoomSimulator.vote, OrderedMap.not_mem_iff.mp hnot]
  canonical_eq := h.canonical_eq
  points_at_own before record after mutation heq hout := by
    have hindex := h.indexes before record after heq
    rw [hout] at hindex
    refine ⟨hindex, ?_⟩
    rw [h.canonical_eq, heq, List.filterMap_append, List.getElem?_append_right (Nat.le_refl _),
      Nat.sub_self, List.filterMap_cons]
    simp [VerdictRecord.committed, hout]

end Consistent

end RoomSimulator

theorem consistent_of_reachable {s : RoomRun}
    (h : (roomSystem resolve).Reachable s) : s.room.Consistent s.proposed :=
  h.invariant (fun s ↦ s.room.Consistent s.proposed) .new fun _ _ _ hs he _ ↦ hs.step he

/-- **Verdict room safety**: whatever the resolver, and however proposals, votes and ticks follow
one another. -/
theorem roomSafe_of_reachable {resolve : VerdictResolver} {s : RoomRun}
    (h : (roomSystem resolve).Reachable s) : s.room.Safe s.proposed :=
  (consistent_of_reachable h).safe

def exampleAgent (name : String) : AgentId := .user name name

def exampleProposal (n : ℕ) : ProposalId := ⟨BitVec.ofNat 128 n⟩

def firstVoteResolver : VerdictResolver := fun proposal votes ↦
  match votes with
  | [] => .pending
  | v :: _ => if v.decision = .approve then .resolved proposal.mutation else .rejected "rejected"

/-- A run with a pending record, a changed vote, a resolution and a late vote is safe. -/
theorem roomSafe_of_lateVote :
    let s := (roomSystem firstVoteResolver).run ⟨.new, []⟩
      [.propose (exampleAgent "alice") .null .global (exampleProposal 1), .tick,
        .vote (exampleProposal 1) ⟨exampleAgent "bob", .reject⟩,
        .vote (exampleProposal 1) ⟨exampleAgent "bob", .approve⟩, .tick,
        .vote (exampleProposal 1) ⟨exampleAgent "carol", .reject⟩]
    s.room.Safe s.proposed :=
  roomSafe_of_reachable (GuardedSystem.ReachableUnder.run .init (by decide))

end RosheraCad
