import RosheraCad.Library.Alignment
import RosheraCad.Verdict.Safety

/-!
# Replaying a room

A script names a proposal by its position, since the room draws the identifier itself. A tick visits
the pending proposals in the order of their identifiers, so two replays commit the proposals of one
tick in the orders in which they happened to draw them.
-/

namespace RosheraCad

/-- A scripted action. A vote names a proposal by its position. -/
inductive ReplayAction
  | propose (agent : AgentId) (mutation : Json) (target : ProposalTarget)
  | vote (position : ℕ) (vote : Vote)
  | tick

namespace ReplayAction

def isPropose : ReplayAction → Bool
  | .propose .. => true
  | _ => false

end ReplayAction

structure Replay where
  room : RoomSimulator
  count : ℕ

namespace Replay

/-- The proposal at position `i` draws the identifier `draws i`. -/
def step (resolve : VerdictResolver) (draws : ℕ → ProposalId) (s : Replay) : ReplayAction → Replay
  | .propose agent mutation target =>
    ⟨s.room.propose agent mutation target (draws s.count), s.count + 1⟩
  | .vote position vote =>
    if position < s.count then { s with room := (s.room.vote (draws position) vote).2 } else s
  | .tick => { s with room := (s.room.tick resolve).1 }

end Replay

/-- Replay a script through a fresh room. -/
def replay (resolve : VerdictResolver) (draws : ℕ → ProposalId) (script : List ReplayAction) :
    Replay :=
  script.foldl (Replay.step resolve draws) ⟨.new, 0⟩

def DistinctDraws (draws : ℕ → ProposalId) (n : ℕ) : Prop :=
  ∀ i < n, ∀ j < n, draws i = draws j → i = j

instance (draws : ℕ → ProposalId) (n : ℕ) : Decidable (DistinctDraws draws n) :=
  inferInstanceAs (Decidable (∀ i < n, ∀ j < n, draws i = draws j → i = j))

/-- The number of identifiers a script draws. -/
def proposals (script : List ReplayAction) : ℕ := script.countP ReplayAction.isPropose

/-! ## Two replays -/

section TwoReplays

variable (resolve : VerdictResolver) (draws₁ draws₂ : ℕ → ProposalId)

structure RecordAlike (n : ℕ) (a b : VerdictRecord) : Prop where
  position : ∃ i < n, a.proposalId = draws₁ i ∧ b.proposalId = draws₂ i
  outcome : a.outcome = b.outcome
  index : a.committedOpIndex = b.committedOpIndex

/-- Two replays show the same canonical stream and, up to the identifiers, the same history. -/
structure SameUpToRenaming (s₁ s₂ : Replay) : Prop where
  canonical : s₁.room.canonical = s₂.room.canonical
  history : s₁.room.history.Forall₂ (RecordAlike draws₁ draws₂ s₁.count) s₂.room.history

structure TickAlike (s₁ s₂ : Replay) : Prop where
  answers : ∀ i < s₁.count, ∀ p₁ v₁ p₂ v₂, s₁.room.pending[draws₁ i]? = some (p₁, v₁) →
    s₂.room.pending[draws₂ i]? = some (p₂, v₂) → resolve p₁ v₁ = resolve p₂ v₂
  order : ∀ i < s₁.count, ∀ j < s₁.count, (s₁.room.due resolve (draws₁ i)).isSome →
    (s₁.room.due resolve (draws₁ j)).isSome →
      (compare (draws₁ i) (draws₁ j) = .lt ↔ compare (draws₂ i) (draws₂ j) = .lt)

/-- Every tick of the script meets the condition where it is taken. -/
def TicksAlike (script : List ReplayAction) : Prop :=
  ∀ before after, script = before ++ .tick :: after →
    TickAlike resolve draws₁ draws₂ (replay resolve draws₁ before) (replay resolve draws₂ before)

def ReplaysAlike (script : List ReplayAction) : Prop :=
  ∀ before, before <+: script →
    SameUpToRenaming draws₁ draws₂ (replay resolve draws₁ before) (replay resolve draws₂ before)

end TwoReplays

/-! ## What a room knows are the proposals it drew -/

structure Drawn (draws : ℕ → ProposalId) (s : Replay) : Prop where
  pending : ∀ id ∈ s.room.pending, ∃ i < s.count, id = draws i
  last : ∀ id ∈ s.room.lastOutcome, ∃ i < s.count, id = draws i

variable {resolve : VerdictResolver} {draws draws₁ draws₂ : ℕ → ProposalId} {s s₁ s₂ : Replay}
  {room : RoomSimulator}

theorem DistinctDraws.mono {m n : ℕ} (h : DistinctDraws draws n) (hmn : m ≤ n) :
    DistinctDraws draws m :=
  fun i hi j hj ↦ h i (hi.trans_le hmn) j (hj.trans_le hmn)

theorem Drawn.init : Drawn draws ⟨.new, 0⟩ where
  pending id hid := by simp [RoomSimulator.new] at hid
  last id hid := by simp [RoomSimulator.new] at hid

theorem RoomSimulator.mem_pending_vote {id c : ProposalId} {v : Vote}
    (hc : c ∈ (room.vote id v).2.pending) : c ∈ room.pending := by
  rw [RoomSimulator.vote] at hc
  rcases hp : room.pending[id]? with - | ⟨proposal, votes⟩
  · rwa [hp] at hc
  · rw [hp, Std.ExtTreeMap.mem_insert, Std.LawfulEqOrd.compare_eq_iff_eq] at hc
    rcases hc with rfl | hc
    · exact OrderedMap.mem_of_getElem? hp
    · exact hc

theorem RoomSimulator.lastOutcome_vote (room : RoomSimulator) (id : ProposalId) (v : Vote) :
    (room.vote id v).2.lastOutcome = room.lastOutcome := by
  rw [RoomSimulator.vote]
  rcases room.pending[id]? with - | ⟨proposal, votes⟩ <;> rfl

theorem RoomSimulator.mem_pending_tick {c : ProposalId}
    (hc : c ∈ (room.tick resolve).1.pending) : c ∈ room.pending := by
  obtain ⟨entry, hentry⟩ := OrderedMap.mem_iff_exists.mp hc
  rw [getElem?_pending_tick] at hentry
  rcases hdue : room.due resolve c with - | outcome
  · rw [hdue] at hentry
    exact OrderedMap.mem_of_getElem? hentry
  · exact mem_pending_of_due hdue

theorem RoomSimulator.mem_lastOutcome_tick {c : ProposalId}
    (hc : c ∈ (room.tick resolve).1.lastOutcome) : c ∈ room.lastOutcome ∨ c ∈ room.pending := by
  obtain ⟨kind, hkind⟩ := OrderedMap.mem_iff_exists.mp hc
  rw [getElem?_lastOutcome_tick] at hkind
  rcases hdue : room.due resolve c with - | outcome
  · rw [hdue] at hkind
    exact Or.inl (OrderedMap.mem_of_getElem? hkind)
  · exact Or.inr (mem_pending_of_due hdue)

theorem Drawn.step (h : Drawn draws s) (action : ReplayAction) :
    Drawn draws (s.step resolve draws action) := by
  have hsucc : ∀ {id}, (∃ i < s.count, id = draws i) → ∃ i < s.count + 1, id = draws i :=
    fun ⟨i, hi, heq⟩ ↦ ⟨i, hi.trans (Nat.lt_succ_self _), heq⟩
  rcases action with ⟨agent, mutation, target⟩ | ⟨position, v⟩ | -
  · refine ⟨fun id hid ↦ ?_, fun id hid ↦ hsucc (h.last id hid)⟩
    rw [Replay.step, RoomSimulator.propose, Std.ExtTreeMap.mem_insert,
      Std.LawfulEqOrd.compare_eq_iff_eq] at hid
    rcases hid with rfl | hid
    · exact ⟨s.count, Nat.lt_succ_self _, rfl⟩
    · exact hsucc (h.pending id hid)
  · rw [Replay.step]
    by_cases hlt : position < s.count
    · rw [if_pos hlt]
      refine ⟨fun id hid ↦ h.pending id (RoomSimulator.mem_pending_vote hid), fun id hid ↦ ?_⟩
      rw [RoomSimulator.lastOutcome_vote] at hid
      exact h.last id hid
    · rw [if_neg hlt]
      exact h
  · refine ⟨fun id hid ↦ h.pending id (RoomSimulator.mem_pending_tick hid), fun id hid ↦ ?_⟩
    rcases RoomSimulator.mem_lastOutcome_tick hid with hid | hid
    · exact h.last id hid
    · exact h.pending id hid

/-! ## The correspondence of two replays -/

/-- What a room keeps of a pending proposal, apart from its identifier. -/
def content (entry : Proposal × List Vote) : AgentId × Json × ProposalTarget × List Vote :=
  (entry.1.agent, entry.1.mutation, entry.1.target, entry.2)

structure Correspond (draws₁ draws₂ : ℕ → ProposalId) (s₁ s₂ : Replay) : Prop where
  same : SameUpToRenaming draws₁ draws₂ s₁ s₂
  count : s₁.count = s₂.count
  drawn₁ : Drawn draws₁ s₁
  drawn₂ : Drawn draws₂ s₂
  entry : ∀ i < s₁.count,
    s₁.room.pending[draws₁ i]?.map content = s₂.room.pending[draws₂ i]?.map content
  last : ∀ i < s₁.count, s₁.room.lastOutcome[draws₁ i]? = s₂.room.lastOutcome[draws₂ i]?

namespace Correspond

theorem init : Correspond draws₁ draws₂ ⟨.new, 0⟩ ⟨.new, 0⟩ where
  same := ⟨rfl, .nil⟩
  count := rfl
  drawn₁ := .init
  drawn₂ := .init
  entry i hi := absurd hi (Nat.not_lt_zero i)
  last i hi := absurd hi (Nat.not_lt_zero i)

private theorem fresh (h : Drawn draws s) (hdistinct : DistinctDraws draws (s.count + 1)) :
    s.room.lastOutcome[draws s.count]? = none := by
  refine OrderedMap.not_mem_iff.mp fun hmem ↦ ?_
  obtain ⟨i, hi, heq⟩ := h.last _ hmem
  have := hdistinct _ (Nat.lt_succ_self _) i (hi.trans (Nat.lt_succ_self _)) heq
  omega

section

variable (h : Correspond draws₁ draws₂ s₁ s₂)

include h

theorem propose (agent : AgentId) (mutation : Json)
    (target : ProposalTarget) (h₁ : DistinctDraws draws₁ (s₁.count + 1))
    (h₂ : DistinctDraws draws₂ (s₁.count + 1)) :
    Correspond draws₁ draws₂ (s₁.step resolve draws₁ (.propose agent mutation target))
      (s₂.step resolve draws₂ (.propose agent mutation target)) where
  same := by
    refine ⟨h.same.canonical, h.same.history.imp fun a b hab ↦ ⟨?_, hab.outcome, hab.index⟩⟩
    obtain ⟨i, hi, heq⟩ := hab.position
    exact ⟨i, hi.trans (Nat.lt_succ_self _), heq⟩
  count := congrArg (· + 1) h.count
  drawn₁ := h.drawn₁.step _
  drawn₂ := h.drawn₂.step _
  entry i hi := by
    have hi : i < s₁.count + 1 := hi
    simp only [Replay.step, RoomSimulator.propose, OrderedMap.lookup_insert]
    rcases Nat.lt_succ_iff_lt_or_eq.mp hi with hlt | rfl
    · have hne₁ : draws₁ i ≠ draws₁ s₁.count := fun heq ↦
        absurd (h₁ i hi _ (Nat.lt_succ_self _) heq) hlt.ne
      have hne₂ : draws₂ i ≠ draws₂ s₂.count := fun heq ↦
        absurd (h₂ i hi _ (h.count ▸ Nat.lt_succ_self _) heq) (h.count ▸ hlt.ne)
      rw [if_neg hne₁, if_neg hne₂]
      exact h.entry i hlt
    · rw [← h.count, if_pos rfl, if_pos rfl]
      rfl
  last i hi := by
    have hi : i < s₁.count + 1 := hi
    rcases Nat.lt_succ_iff_lt_or_eq.mp hi with hlt | rfl
    · exact h.last i hlt
    · refine (fresh h.drawn₁ h₁).trans ?_
      rw [h.count] at h₂ ⊢
      exact (fresh h.drawn₂ h₂).symm

private theorem entry_cases {i : ℕ} (hi : i < s₁.count) :
    (s₁.room.pending[draws₁ i]? = none ∧ s₂.room.pending[draws₂ i]? = none) ∨
      ∃ p₁ p₂ votes, s₁.room.pending[draws₁ i]? = some (p₁, votes) ∧
        s₂.room.pending[draws₂ i]? = some (p₂, votes) ∧
          content (p₁, votes) = content (p₂, votes) := by
  have hentry := h.entry i hi
  rcases he₁ : s₁.room.pending[draws₁ i]? with - | ⟨p₁, v₁⟩
  · rw [he₁, Option.map_none, eq_comm, Option.map_eq_none_iff] at hentry
    exact Or.inl ⟨rfl, hentry⟩
  · rw [he₁, Option.map_some, eq_comm, Option.map_eq_some_iff] at hentry
    obtain ⟨⟨p₂, v₂⟩, he₂, hcontent⟩ := hentry
    obtain rfl : v₂ = v₁ := congrArg (fun c ↦ c.2.2.2) hcontent
    exact Or.inr ⟨p₁, p₂, v₂, rfl, he₂, hcontent.symm⟩

theorem vote (position : ℕ) (v : Vote)
    (h₁ : DistinctDraws draws₁ s₁.count) (h₂ : DistinctDraws draws₂ s₁.count) :
    Correspond draws₁ draws₂ (s₁.step resolve draws₁ (.vote position v))
      (s₂.step resolve draws₂ (.vote position v)) := by
  have hd₁ : Drawn draws₁ (s₁.step resolve draws₁ (.vote position v)) := h.drawn₁.step _
  have hd₂ : Drawn draws₂ (s₂.step resolve draws₂ (.vote position v)) := h.drawn₂.step _
  rw [Replay.step] at hd₁ hd₂ ⊢
  rw [Replay.step]
  by_cases hlt : position < s₁.count
  · rw [if_pos hlt] at hd₁ ⊢
    rw [if_pos (h.count ▸ hlt)] at hd₂ ⊢
    rcases h.entry_cases hlt with ⟨he₁, he₂⟩ | ⟨p₁, p₂, votes, he₁, he₂, hcontent⟩
    · rw [RoomSimulator.vote, he₁, RoomSimulator.vote, he₂]
      exact h
    · rw [RoomSimulator.vote, he₁] at hd₁ ⊢
      rw [RoomSimulator.vote, he₂] at hd₂ ⊢
      refine { h with
               same := ⟨h.same.canonical, h.same.history⟩
               drawn₁ := hd₁
               drawn₂ := hd₂
               entry := fun i hi ↦ ?_ }
      simp only [OrderedMap.lookup_insert]
      by_cases hi' : i = position
      · rw [hi', if_pos rfl, if_pos rfl]
        simpa [content] using hcontent
      · rw [if_neg fun heq ↦ hi' (h₁ i hi _ hlt heq), if_neg fun heq ↦ hi' (h₂ i hi _ hlt heq)]
        exact h.entry i hi
  · rw [if_neg hlt, if_neg (h.count ▸ hlt)]
    exact h

end

/-! ## One tick -/

structure DueAlike (draws₁ draws₂ : ℕ → ProposalId) (n : ℕ) (a b : ProposalId × VerdictOutcome) :
    Prop where
  position : ∃ i < n, a.1 = draws₁ i ∧ b.1 = draws₂ i
  outcome : a.2 = b.2

theorem DueAlike.symm {n : ℕ} {a b : ProposalId × VerdictOutcome}
    (h : DueAlike draws₁ draws₂ n a b) : DueAlike draws₂ draws₁ n b a := by
  obtain ⟨⟨i, hi, ha, hb⟩, hout⟩ := h
  exact ⟨⟨i, hi, hb, ha⟩, hout.symm⟩

private theorem due_of_pending {id : ProposalId} {p : Proposal}
    {votes : List Vote} (h : room.pending[id]? = some (p, votes)) :
    room.due resolve id =
      if resolve p votes = .pending ∧ room.lastOutcome[id]? = some .pending then none
      else some (resolve p votes) := by
  rw [RoomSimulator.due, h]
  dsimp only
  rcases resolve p votes with mutation | reason | -
  · simp
  · simp
  · simp

theorem due_eq_iff (h : Correspond draws₁ draws₂ s₁ s₂) {i : ℕ} (hi : i < s₁.count) :
    s₁.room.due resolve (draws₁ i) = s₂.room.due resolve (draws₂ i) ↔
      ∀ p₁ v₁ p₂ v₂, s₁.room.pending[draws₁ i]? = some (p₁, v₁) →
        s₂.room.pending[draws₂ i]? = some (p₂, v₂) → resolve p₁ v₁ = resolve p₂ v₂ := by
  rcases h.entry_cases hi with ⟨he₁, he₂⟩ | ⟨p₁, p₂, votes, he₁, he₂, -⟩
  · refine iff_of_true ?_ fun p₁ v₁ p₂ v₂ hp₁ ↦ ?_
    · rw [RoomSimulator.due, RoomSimulator.due, he₁, he₂]
    · rw [he₁] at hp₁
      cases hp₁
  · rw [due_of_pending he₁, due_of_pending he₂, ← h.last i hi]
    constructor
    · rintro hdue _ _ _ _ hp₁ hp₂
      cases he₁.symm.trans hp₁
      cases he₂.symm.trans hp₂
      by_cases hlast : s₁.room.lastOutcome[draws₁ i]? = some .pending
      · simp only [hlast, and_true] at hdue
        by_cases ha₁ : resolve p₁ votes = .pending
        · by_cases ha₂ : resolve p₂ votes = .pending
          · rw [ha₁, ha₂]
          · rw [if_pos ha₁, if_neg ha₂] at hdue
            cases hdue
        · by_cases ha₂ : resolve p₂ votes = .pending
          · rw [if_neg ha₁, if_pos ha₂] at hdue
            cases hdue
          · rw [if_neg ha₁, if_neg ha₂] at hdue
            exact Option.some_inj.mp hdue
      · rw [if_neg fun h ↦ hlast h.2, if_neg fun h ↦ hlast h.2] at hdue
        exact Option.some_inj.mp hdue
    · intro hanswers
      rw [hanswers p₁ votes p₂ votes he₁ he₂]

private theorem due_position (h : Drawn draws s) {d : ProposalId × VerdictOutcome}
    (hd : d ∈ s.room.dues resolve) :
    ∃ i < s.count, d.1 = draws i ∧ s.room.due resolve (draws i) = some d.2 := by
  have hdue := RoomSimulator.mem_dues.mp hd
  obtain ⟨i, hi, heq⟩ := h.pending d.1 (RoomSimulator.mem_pending_of_due hdue)
  exact ⟨i, hi, heq, heq ▸ hdue⟩

instance : Std.Irrefl fun a b : ProposalId × VerdictOutcome ↦ compare a.1 b.1 = .lt where
  irrefl a h := by
    rw [Std.ReflOrd.compare_self] at h
    cases h

instance : Std.Asymm fun a b : ProposalId × VerdictOutcome ↦ compare a.1 b.1 = .lt where
  asymm a b h h' := by
    rw [Std.OrientedOrd.eq_swap, h'] at h
    cases h

private theorem sorted_pairs (room : RoomSimulator) :
    (room.dues resolve).Pairwise fun a b ↦ compare a.1 b.1 = .lt :=
  List.pairwise_map.mp RoomSimulator.sorted_dues

/-- **A tick that meets the condition records the same in the same order.** -/
theorem forall₂_dues (h : Correspond draws₁ draws₂ s₁ s₂)
    (halike : TickAlike resolve draws₁ draws₂ s₁ s₂) :
    (s₁.room.dues resolve).Forall₂ (DueAlike draws₁ draws₂ s₁.count) (s₂.room.dues resolve) := by
  have hdue : ∀ i < s₁.count,
      s₁.room.due resolve (draws₁ i) = s₂.room.due resolve (draws₂ i) :=
    fun i hi ↦ (h.due_eq_iff hi).mpr (halike.answers i hi)
  refine List.forall₂_of_monotone (sorted_pairs _) (sorted_pairs _) (fun d hd ↦ ?_) (fun d hd ↦ ?_)
    fun a ha a' ha' b hb b' hb' hab hab' ↦ ?_
  · obtain ⟨i, hi, heq, ho⟩ := due_position h.drawn₁ hd
    exact ⟨(draws₂ i, d.2), RoomSimulator.mem_dues.mpr (hdue i hi ▸ ho), ⟨i, hi, heq, rfl⟩, rfl⟩
  · obtain ⟨i, hi, heq, ho⟩ := due_position h.drawn₂ hd
    rw [← h.count] at hi
    exact ⟨(draws₁ i, d.2), RoomSimulator.mem_dues.mpr ((hdue i hi).trans ho),
      ⟨i, hi, rfl, heq⟩, rfl⟩
  · obtain ⟨i, hi, hai, hbi⟩ := hab.position
    obtain ⟨j, hj, haj, hbj⟩ := hab'.position
    have hsome : ∀ {d : ProposalId × VerdictOutcome} {k}, d ∈ s₁.room.dues resolve →
        d.1 = draws₁ k → (s₁.room.due resolve (draws₁ k)).isSome := by
      intro d k hd hdk
      rw [← hdk, RoomSimulator.mem_dues.mp hd]
      rfl
    rw [hai, haj, hbi, hbj]
    exact halike.order i hi j hj (hsome ha hai) (hsome ha' haj)

private theorem same_recordAll {n : ℕ} {ds₁ ds₂ : List (ProposalId × VerdictOutcome)}
    (hds : ds₁.Forall₂ (DueAlike draws₁ draws₂ n) ds₂) {room₁ room₂ : RoomSimulator}
    (hcanonical : room₁.canonical = room₂.canonical)
    (hhistory : room₁.history.Forall₂ (RecordAlike draws₁ draws₂ n) room₂.history) :
    (room₁.recordAll ds₁).canonical = (room₂.recordAll ds₂).canonical ∧
      (room₁.recordAll ds₁).history.Forall₂ (RecordAlike draws₁ draws₂ n)
        (room₂.recordAll ds₂).history := by
  induction hds generalizing room₁ room₂ with
  | nil => exact ⟨hcanonical, hhistory⟩
  | @cons a b as bs hab _ ih =>
    have hrecord :
        RecordAlike draws₁ draws₂ n (room₁.recordOf a.1 a.2) (room₂.recordOf b.1 b.2) := by
      refine ⟨hab.position, hab.outcome, ?_⟩
      simp only [RoomSimulator.recordOf, hab.outcome, hcanonical]
    refine @ih (room₁.recorded a.1 a.2) (room₂.recorded b.1 b.2) ?_ ?_
    · simp only [RoomSimulator.recorded, VerdictRecord.committed, hrecord.outcome, hcanonical]
    · exact List.rel_append hhistory (.cons hrecord .nil)

theorem tick (h : Correspond draws₁ draws₂ s₁ s₂) (halike : TickAlike resolve draws₁ draws₂ s₁ s₂) :
    Correspond draws₁ draws₂ (s₁.step resolve draws₁ .tick) (s₂.step resolve draws₂ .tick) where
  same := by
    have hsame := same_recordAll (h.forall₂_dues halike) h.same.canonical h.same.history
    rw [← RoomSimulator.tick_eq, ← RoomSimulator.tick_eq] at hsame
    exact ⟨hsame.1, hsame.2⟩
  count := h.count
  drawn₁ := h.drawn₁.step .tick
  drawn₂ := h.drawn₂.step .tick
  entry i hi := by
    have hdue := (h.due_eq_iff hi).mpr (halike.answers i hi)
    simp only [Replay.step, RoomSimulator.getElem?_pending_tick, hdue]
    rcases s₂.room.due resolve (draws₂ i) with - | outcome
    · exact h.entry i hi
    · by_cases hk : outcome.kind ≠ .pending
      · simp only [if_pos hk]
      · simp only [if_neg hk]
        exact h.entry i hi
  last i hi := by
    have hdue := (h.due_eq_iff hi).mpr (halike.answers i hi)
    simp only [Replay.step, RoomSimulator.getElem?_lastOutcome_tick, hdue]
    rcases s₂.room.due resolve (draws₂ i) with - | outcome
    · exact h.last i hi
    · rfl

private theorem forall₂_dues_of_same (h : Correspond draws₁ draws₂ s₁ s₂)
    (hsame : SameUpToRenaming draws₁ draws₂ (s₁.step resolve draws₁ .tick)
      (s₂.step resolve draws₂ .tick)) :
    (s₁.room.dues resolve).Forall₂ (DueAlike draws₁ draws₂ s₁.count) (s₂.room.dues resolve) := by
  have hmap : ((s₁.room.tick resolve).1.history.map fun r ↦ (r.proposalId, r.outcome)).Forall₂
      (DueAlike draws₁ draws₂ s₁.count)
      ((s₂.room.tick resolve).1.history.map fun r ↦ (r.proposalId, r.outcome)) := by
    rw [List.forall₂_map_left_iff, List.forall₂_map_right_iff]
    exact hsame.history.imp fun a b hab ↦ ⟨hab.position, hab.outcome⟩
  rw [RoomSimulator.tick_eq, RoomSimulator.tick_eq, RoomSimulator.map_history_recordAll,
    RoomSimulator.map_history_recordAll] at hmap
  -- the histories before the tick are aligned, so dropping them leaves the outcomes of the tick
  have hlen : (s₂.room.history.map fun r ↦ (r.proposalId, r.outcome)).length =
      s₁.room.history.length := (List.length_map _).trans h.same.history.length_eq.symm
  have hdrop := List.forall₂_drop s₁.room.history.length hmap
  rw [List.drop_left' (List.length_map _), List.drop_left' hlen] at hdrop
  exact hdrop

private theorem due_of_forall₂ {n : ℕ} (hdistinct : DistinctDraws draws₁ n)
    (hdues : (s₁.room.dues resolve).Forall₂ (DueAlike draws₁ draws₂ n) (s₂.room.dues resolve))
    {i : ℕ} (hi : i < n) {outcome : VerdictOutcome}
    (hdue : s₁.room.due resolve (draws₁ i) = some outcome) :
    s₂.room.due resolve (draws₂ i) = some outcome := by
  obtain ⟨b, hb, ⟨j, hj, hij, hbj⟩, hout⟩ :=
    hdues.exists_partner (RoomSimulator.mem_dues.mpr hdue)
  obtain rfl := hdistinct i hi j hj hij
  have hout : outcome = b.2 := hout
  rw [← hbj, hout]
  exact RoomSimulator.mem_dues.mp hb

private theorem lt_of_forall₂ {n : ℕ} (hdistinct : DistinctDraws draws₁ n)
    (hdues : (s₁.room.dues resolve).Forall₂ (DueAlike draws₁ draws₂ n) (s₂.room.dues resolve))
    {i j : ℕ} (hi : i < n) (hj : j < n) {oi oj : VerdictOutcome}
    (hoi : s₁.room.due resolve (draws₁ i) = some oi)
    (hoj : s₁.room.due resolve (draws₁ j) = some oj)
    (hlt : compare (draws₁ i) (draws₁ j) = .lt) : compare (draws₂ i) (draws₂ j) = .lt := by
  obtain ⟨b, -, b', -, hab, hab', hlt'⟩ := hdues.exists_lt (sorted_pairs _) (sorted_pairs _)
    (RoomSimulator.mem_dues.mpr hoi) (RoomSimulator.mem_dues.mpr hoj) hlt
  obtain ⟨k, hk, hik, hbk⟩ := hab.position
  obtain ⟨l, hl, hjl, hbl⟩ := hab'.position
  rw [hdistinct i hi k hk hik, hdistinct j hj l hl hjl, ← hbk, ← hbl]
  exact hlt'

theorem tickAlike (h : Correspond draws₁ draws₂ s₁ s₂) (h₁ : DistinctDraws draws₁ s₁.count)
    (h₂ : DistinctDraws draws₂ s₁.count)
    (hsame : SameUpToRenaming draws₁ draws₂ (s₁.step resolve draws₁ .tick)
      (s₂.step resolve draws₂ .tick)) : TickAlike resolve draws₁ draws₂ s₁ s₂ := by
  have hdues := h.forall₂_dues_of_same hsame
  have hflip : (s₂.room.dues resolve).Forall₂ (DueAlike draws₂ draws₁ s₁.count)
      (s₁.room.dues resolve) := hdues.flip.imp fun _ _ hba ↦ hba.symm
  refine ⟨fun i hi ↦ (h.due_eq_iff hi).mp ?_, fun i hi j hj hi' hj' ↦ ?_⟩
  · rcases hdue : s₂.room.due resolve (draws₂ i) with - | outcome
    · refine Option.eq_none_iff_forall_ne_some.mpr fun outcome hsome ↦ ?_
      rw [due_of_forall₂ h₁ hdues hi hsome] at hdue
      cases hdue
    · exact due_of_forall₂ h₂ hflip hi hdue
  · obtain ⟨oi, hoi⟩ := Option.isSome_iff_exists.mp hi'
    obtain ⟨oj, hoj⟩ := Option.isSome_iff_exists.mp hj'
    constructor
    · exact lt_of_forall₂ h₁ hdues hi hj hoi hoj
    · exact lt_of_forall₂ h₂ hflip hi hj (due_of_forall₂ h₁ hdues hi hoi)
        (due_of_forall₂ h₁ hdues hj hoj)

end Correspond

/-! ## Whole scripts -/

theorem replay_append (resolve : VerdictResolver) (draws : ℕ → ProposalId)
    (script : List ReplayAction) (action : ReplayAction) :
    replay resolve draws (script ++ [action]) =
      (replay resolve draws script).step resolve draws action := by
  rw [replay, List.foldl_append]
  rfl

theorem count_replay (resolve : VerdictResolver) (draws : ℕ → ProposalId)
    (script : List ReplayAction) : (replay resolve draws script).count = proposals script := by
  induction script using List.reverseRecOn with
  | nil => rfl
  | append_singleton script action ih =>
    rw [replay_append, proposals, List.countP_append, ← proposals, ← ih]
    rcases action with _ | ⟨position, v⟩ | _
    · rfl
    · rw [Replay.step]
      split <;> rfl
    · rfl

theorem proposals_le_append (script after : List ReplayAction) :
    proposals script ≤ proposals (script ++ after) := by
  rw [proposals, proposals, List.countP_append]
  exact Nat.le_add_right _ _

theorem TicksAlike.append {script after : List ReplayAction}
    (h : TicksAlike resolve draws₁ draws₂ (script ++ after)) :
    TicksAlike resolve draws₁ draws₂ script := by
  intro before rest heq
  refine h before (rest ++ after) ?_
  rw [heq, List.append_assoc, List.cons_append]

theorem correspond_replay {script : List ReplayAction}
    (h₁ : DistinctDraws draws₁ (proposals script)) (h₂ : DistinctDraws draws₂ (proposals script))
    (h : TicksAlike resolve draws₁ draws₂ script) :
    Correspond draws₁ draws₂ (replay resolve draws₁ script) (replay resolve draws₂ script) := by
  induction script using List.reverseRecOn with
  | nil => exact .init
  | append_singleton script action ih =>
    have hle := proposals_le_append script [action]
    have hih := ih (h₁.mono hle) (h₂.mono hle) h.append
    rw [replay_append, replay_append]
    have hcount := count_replay resolve draws₁ script
    rcases action with ⟨agent, mutation, target⟩ | ⟨position, v⟩ | -
    · have hsucc : proposals (script ++ [.propose agent mutation target]) =
          (replay resolve draws₁ script).count + 1 := by
        rw [hcount, proposals, List.countP_append]
        rfl
      exact hih.propose agent mutation target (hsucc ▸ h₁) (hsucc ▸ h₂)
    · exact hih.vote position v (hcount ▸ h₁.mono hle) (hcount ▸ h₂.mono hle)
    · exact hih.tick (h script [] rfl)

/-- **When a room replays alike**: exactly when, at every tick, the resolver answers alike about the
proposals of one position and the identifiers order those that are due alike. -/
theorem replaysAlike_iff {script : List ReplayAction}
    (h₁ : DistinctDraws draws₁ (proposals script)) (h₂ : DistinctDraws draws₂ (proposals script)) :
    ReplaysAlike resolve draws₁ draws₂ script ↔ TicksAlike resolve draws₁ draws₂ script := by
  constructor
  · intro hsame
    induction script using List.reverseRecOn with
    | nil => exact fun before after heq ↦ absurd heq.symm (by simp)
    | append_singleton script action ih =>
      have hle := proposals_le_append script [action]
      have hih := ih (h₁.mono hle) (h₂.mono hle) fun before hbefore ↦
        hsame before (hbefore.trans (List.prefix_append _ _))
      intro before after heq
      rcases List.eq_nil_or_concat after with rfl | ⟨after, last, rfl⟩
      · obtain ⟨rfl, htick⟩ := List.append_inj' heq rfl
        obtain rfl := List.singleton_inj.mp htick
        have hcount := count_replay resolve draws₁ script
        refine (correspond_replay (h₁.mono hle) (h₂.mono hle) hih).tickAlike
          (hcount ▸ h₁.mono hle) (hcount ▸ h₂.mono hle) ?_
        rw [← replay_append, ← replay_append]
        exact hsame _ List.prefix_rfl
      · rw [List.concat_eq_append, ← List.cons_append, ← List.append_assoc] at heq
        exact hih before after (List.append_inj' heq rfl).1
  · rintro halike before ⟨after, rfl⟩
    have hle := proposals_le_append before after
    exact (correspond_replay (h₁.mono hle) (h₂.mono hle) halike.append).same

/-- A policy that resolves a proposal as soon as it is asked. -/
def promptResolver : VerdictResolver := fun proposal _ ↦ .resolved proposal.mutation

def twoProposals : List ReplayAction :=
  [.propose (exampleAgent "alice") (.bool true) .global,
    .propose (exampleAgent "bob") (.bool false) .global, .tick]

def ascendingDraws (n : ℕ) : ProposalId := exampleProposal (n + 1)

def descendingDraws (n : ℕ) : ProposalId := exampleProposal (10 - n)

/-- Replays of two proposals that draw their identifiers in opposite orders. -/
theorem replaysAlike_iff_twoProposals :
    ReplaysAlike promptResolver ascendingDraws descendingDraws twoProposals ↔
      TicksAlike promptResolver ascendingDraws descendingDraws twoProposals :=
  replaysAlike_iff (by decide) (by decide)

/-- Two proposals committed by one tick come out in the order of the identifiers they drew. -/
theorem not_sameUpToRenaming_twoProposals :
    DistinctDraws ascendingDraws (proposals twoProposals) ∧
      DistinctDraws descendingDraws (proposals twoProposals) ∧
      ¬ SameUpToRenaming ascendingDraws descendingDraws
        (replay promptResolver ascendingDraws twoProposals)
        (replay promptResolver descendingDraws twoProposals) := by
  refine ⟨by decide, by decide, fun h ↦ ?_⟩
  have hhead : ((replay promptResolver ascendingDraws twoProposals).room.canonical.map
      Operation.toValue) = ((replay promptResolver descendingDraws twoProposals).room.canonical.map
      Operation.toValue) := congrArg _ h.canonical
  revert hhead
  decide

end RosheraCad
