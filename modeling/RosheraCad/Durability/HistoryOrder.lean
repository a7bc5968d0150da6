import RosheraCad.Durability.Rows
import RosheraCad.Timeline.Reachable

/-!
# The order of the walk over histories

The walk visits the branches in the order of a map. A branch met again on its own parent chain gets
no history, so on a loop of parents the branch the walk came in by decides where the loop is cut,
and that is memoised.
-/

namespace RosheraCad

def nextHistory (plans : OrderedMap BranchId BranchPlan) (own : OrderedMap BranchId SequenceSet)
    (r : OrderedMap BranchId SequenceSet × HistoryWalk) (id : BranchId) :
    OrderedMap BranchId SequenceSet × HistoryWalk :=
  let (history, walk) := historyOf plans own id true [] r.2
  (r.1.insert id history, walk)

def branchHistoriesIn (plans : OrderedMap BranchId BranchPlan)
    (own : OrderedMap BranchId SequenceSet) (order : List BranchId) :
    OrderedMap BranchId SequenceSet × List BranchFault :=
  let (histories, walk) := order.foldl (nextHistory plans own) (∅, ⟨[], []⟩)
  (histories, walk.faults)

theorem branchHistories_eq (plans : OrderedMap BranchId BranchPlan)
    (own : OrderedMap BranchId SequenceSet) :
    branchHistories plans own = branchHistoriesIn plans own plans.keys := rfl

section Order

variable (plans : OrderedMap BranchId BranchPlan) (own : OrderedMap BranchId SequenceSet)

/-- **Two boots agree**: the histories are the same whatever order the branches come in. -/
def OrderIndependent : Prop :=
  ∀ order order' : List BranchId, order.Perm plans.keys → order'.Perm plans.keys →
    (branchHistoriesIn plans own order).1 = (branchHistoriesIn plans own order').1

/-! ## Ancestors -/

def forkParent (b : BranchId) : Option BranchId :=
  match plans[b]? with
  | none => none
  | some plan =>
    match plan.inherited, plan.parent with
    | none, some parent => if parent ∈ plans then some parent else none
    | _, _ => none

def ancestor : ℕ → BranchId → Option BranchId
  | 0, b => some b
  | n + 1, b => (forkParent plans b).bind (ancestor n)

def OnLoop (b : BranchId) : Prop := ∃ n, ancestor plans (n + 1) b = some b

def listed (b : BranchId) : SequenceSet :=
  Std.ExtTreeSet.ofList ((plans[b]?.bind BranchPlan.inherited).getD [])

/-- A branch holds a sequence by itself: it is listed, one of its rows has it, or a merge inserted
it. -/
def Holds (k : EventIndex) (b : BranchId) (withMerges : Bool) : Prop :=
  k ∈ listed plans b ∨ k ∈ own.setAt b ∨ withMerges = true ∧ k ∈ (mergedIn plans).setAt b

def Keeps (k : EventIndex) (b : BranchId) : Prop :=
  ∀ plan, plans[b]? = some plan → k ∉ plan.discarded

/-- **The `n`-th ancestor hands a sequence down**: it holds it, and no branch on the way cuts it
off. -/
inductive HandsDown (k : EventIndex) : ℕ → BranchId → Bool → Prop
  | held {b : BranchId} {withMerges : Bool} : Holds plans own k b withMerges → Keeps plans k b →
      HandsDown k 0 b withMerges
  | passed {b p : BranchId} {withMerges : Bool} {n : ℕ} {plan : BranchPlan} :
      forkParent plans b = some p → plans[b]? = some plan → k ≤ plan.forkSequence →
      Keeps plans k b → HandsDown k n p false → HandsDown k (n + 1) b withMerges

/-- **Loops add nothing**: what an ancestor hands down is handed down by the nearer ones, up to any
ancestor on a loop. -/
def LoopsAddNothing : Prop :=
  ∀ (b c : BranchId) (n : ℕ), b ∈ plans → 1 ≤ n → ancestor plans n b = some c → OnLoop plans c →
    ∀ (k : EventIndex) (l : ℕ), HandsDown plans own k l b true →
      ∃ m ≤ n, HandsDown plans own k m b true

end Order

section Step

variable {plans : OrderedMap BranchId BranchPlan} {own : OrderedMap BranchId SequenceSet}
  {b p c : BranchId} {withMerges : Bool} {visiting : List (BranchId × Bool)} {walk : HistoryWalk}

theorem forkParent_eq_some : forkParent plans b = some p ↔ ∃ plan, plans[b]? = some plan ∧
    plan.inherited = none ∧ plan.parent = some p ∧ p ∈ plans := by
  unfold forkParent
  rcases plans[b]? with - | ⟨parent, fork, inherited, merged, head, tail, discarded⟩
  · simp
  · rcases inherited with - | inherited
    · rcases parent with - | parent
      · simp
      · by_cases hparent : parent ∈ plans
        · simp only [hparent, if_true, Option.some.injEq, exists_eq_left', true_and]
          constructor
          · rintro rfl
            exact ⟨rfl, hparent⟩
          · exact And.left
        · simp only [hparent, if_false, Option.some.injEq, exists_eq_left', true_and]
          refine iff_of_false nofun ?_
          rintro ⟨rfl, hmem⟩
          exact hparent hmem
    · simp

theorem forkParent_mem (h : forkParent plans b = some p) : p ∈ plans := by
  obtain ⟨-, -, -, -, hp⟩ := forkParent_eq_some.mp h
  exact hp

/-- **Everything a call does**: it answers from the memo, gives nothing, or finishes a history. -/
theorem historyOf_cases (plans : OrderedMap BranchId BranchPlan)
    (own : OrderedMap BranchId SequenceSet) (b : BranchId) (withMerges : Bool)
    (visiting : List (BranchId × Bool)) (walk : HistoryWalk) :
    (∃ done, walk.memo.lookup (b, withMerges) = some done ∧
      historyOf plans own b withMerges visiting walk = (done, walk)) ∨
    walk.memo.lookup (b, withMerges) = none ∧
      ((b, withMerges) ∈ visiting ∧ (historyOf plans own b withMerges visiting walk).1 = ∅ ∧
        (historyOf plans own b withMerges visiting walk).2.memo = walk.memo ∨
      (b, withMerges) ∉ visiting ∧ ∃ history,
        (historyOf plans own b withMerges visiting walk).1 = history ∧
        (forkParent plans b = none ∧
          history = finishHistory plans own b withMerges (listed plans b) ∧
          (historyOf plans own b withMerges visiting walk).2.memo =
            ((b, withMerges), history) :: walk.memo ∨
        ∃ p plan, forkParent plans b = some p ∧ plans[b]? = some plan ∧
          history = finishHistory plans own b withMerges
            ((historyOf plans own p false ((b, withMerges) :: visiting) walk).1.keep
              (· ≤ plan.forkSequence)) ∧
          (historyOf plans own b withMerges visiting walk).2.memo = ((b, withMerges), history) ::
            (historyOf plans own p false ((b, withMerges) :: visiting) walk).2.memo)) := by
  rw [historyOf]
  cases hlookup : walk.memo.lookup (b, withMerges) with
  | some done => exact .inl ⟨done, rfl, rfl⟩
  | none =>
    refine .inr ⟨rfl, ?_⟩
    by_cases hv : (b, withMerges) ∈ visiting
    · simp only [dif_pos hv]
      exact .inl ⟨hv, trivial, trivial⟩
    · simp only [dif_neg hv]
      refine .inr ⟨hv, _, rfl, ?_⟩
      split
      · next hnone =>
        refine .inl ⟨?_, ?_, rfl⟩
        · rw [forkParent, hnone]
        · rw [listed, hnone]
          rfl
      · next plan hplan =>
        rcases hinherited : plan.inherited with - | inherited
        · rcases hparent : plan.parent with - | parent
          · refine .inl ⟨?_, ?_, rfl⟩
            · simp only [forkParent, hplan, hinherited, hparent]
            · rw [listed, hplan, Option.bind_some, hinherited]
              rfl
          · by_cases hmem : parent ∈ plans
            · refine .inr ⟨parent, plan, ?_, hplan, ?_, ?_⟩
              · simp only [forkParent, hplan, hinherited, hparent, hmem, if_true]
              · simp only [hmem, if_true]
              · simp only [hmem, if_true]
            · refine .inl ⟨?_, ?_, ?_⟩
              · simp only [forkParent, hplan, hinherited, hparent, hmem, if_false]
              · simp only [hmem, if_false]
                rw [listed, hplan, Option.bind_some, hinherited]
                rfl
              · simp only [hmem, if_false]
        · refine .inl ⟨?_, ?_, rfl⟩
          · simp only [forkParent, hplan, hinherited]
          · rw [listed, hplan, Option.bind_some, hinherited]
            rfl

end Step

/-! ## What is handed down -/

section HandedDown

variable {plans : OrderedMap BranchId BranchPlan} {own : OrderedMap BranchId SequenceSet}
  {b c p : BranchId} {withMerges : Bool} {k : EventIndex} {n l : ℕ} {plan : BranchPlan}
  {history : SequenceSet}

def HandedDown (plans : OrderedMap BranchId BranchPlan) (own : OrderedMap BranchId SequenceSet)
    (n : ℕ) (b : BranchId) (withMerges : Bool) (history : SequenceSet) : Prop :=
  ∀ k, k ∈ history ↔ ∃ m ≤ n, HandsDown plans own k m b withMerges

theorem handsDown_zero : HandsDown plans own k 0 b withMerges ↔
    Holds plans own k b withMerges ∧ Keeps plans k b := by
  constructor
  · rintro (⟨hholds, hkeeps⟩ | -)
    exact ⟨hholds, hkeeps⟩
  · rintro ⟨hholds, hkeeps⟩
    exact .held hholds hkeeps

theorem handsDown_succ (hp : forkParent plans b = some p) (hplan : plans[b]? = some plan) :
    HandsDown plans own k (n + 1) b withMerges ↔
      k ≤ plan.forkSequence ∧ Keeps plans k b ∧ HandsDown plans own k n p false := by
  constructor
  · intro h
    cases h with
    | passed hp' hplan' hle hkeeps h =>
      obtain rfl := Option.some.inj (hp.symm.trans hp')
      obtain rfl := Option.some.inj (hplan.symm.trans hplan')
      exact ⟨hle, hkeeps, h⟩
  · rintro ⟨hle, hkeeps, h⟩
    exact .passed hp hplan hle hkeeps h

theorem HandsDown.le_of_root (h : HandsDown plans own k l b withMerges)
    (hc : ancestor plans n b = some c) (hroot : forkParent plans c = none) : l ≤ n := by
  induction h generalizing n with
  | held _ _ => exact Nat.zero_le n
  | passed hp _ _ _ _ ih =>
    cases n with
    | zero =>
      obtain rfl := Option.some.inj hc
      rw [hroot] at hp
      contradiction
    | succ n =>
      rw [ancestor, hp, Option.bind_some] at hc
      exact Nat.succ_le_succ (ih hc)

theorem mem_finish {inherited : SequenceSet} :
    k ∈ finishHistory plans own b withMerges inherited ↔
      (k ∈ inherited ∨ k ∈ own.setAt b ∨ withMerges = true ∧ k ∈ (mergedIn plans).setAt b) ∧
        Keeps plans k b :=
  mem_finishHistory

theorem not_mem_listed (hp : forkParent plans b = some p) : k ∉ listed plans b := by
  obtain ⟨plan, hplan, hinherited, -⟩ := forkParent_eq_some.mp hp
  rw [listed, hplan, Option.bind_some, hinherited]
  exact Std.ExtTreeSet.not_mem_empty

theorem handedDown_root (hroot : forkParent plans b = none) :
    HandedDown plans own n b withMerges
      (finishHistory plans own b withMerges (listed plans b)) := by
  intro k
  rw [mem_finish]
  constructor
  · intro h
    exact ⟨0, Nat.zero_le n, handsDown_zero.mpr h⟩
  · rintro ⟨m, -, h⟩
    obtain rfl : m = 0 := Nat.le_zero.mp (h.le_of_root rfl hroot)
    exact handsDown_zero.mp h

theorem handedDown_cut (hp : forkParent plans b = some p) :
    HandedDown plans own 0 b withMerges (finishHistory plans own b withMerges
      ((∅ : SequenceSet).keep (· ≤ plan.forkSequence))) := by
  intro k
  rw [mem_finish, OrderedSet.mem_keep]
  constructor
  · rintro ⟨hin, hkeeps⟩
    refine ⟨0, le_rfl, handsDown_zero.mpr ⟨.inr (hin.resolve_left ?_), hkeeps⟩⟩
    exact fun hempty ↦ Std.ExtTreeSet.not_mem_empty hempty.1
  · rintro ⟨m, hm, h⟩
    obtain rfl := Nat.le_zero.mp hm
    obtain ⟨hholds, hkeeps⟩ := handsDown_zero.mp h
    exact ⟨.inr (hholds.resolve_left (not_mem_listed hp)), hkeeps⟩

/-- A branch gets from its parent what the parent has, up to the fork. -/
theorem HandedDown.pass (h : HandedDown plans own n p false history)
    (hp : forkParent plans b = some p) (hplan : plans[b]? = some plan) :
    HandedDown plans own (n + 1) b withMerges (finishHistory plans own b withMerges
      (history.keep (· ≤ plan.forkSequence))) := by
  intro k
  rw [mem_finish, OrderedSet.mem_keep]
  constructor
  · rintro ⟨⟨hmem, hle⟩ | hin, hkeeps⟩
    · obtain ⟨m, hm, hdown⟩ := (h k).mp hmem
      exact ⟨m + 1, Nat.succ_le_succ hm,
        (handsDown_succ hp hplan).mpr ⟨of_decide_eq_true hle, hkeeps, hdown⟩⟩
    · exact ⟨0, Nat.zero_le _, handsDown_zero.mpr ⟨.inr hin, hkeeps⟩⟩
  · rintro ⟨m, hm, hdown⟩
    cases m with
    | zero =>
      obtain ⟨hholds, hkeeps⟩ := handsDown_zero.mp hdown
      exact ⟨.inr (hholds.resolve_left (not_mem_listed hp)), hkeeps⟩
    | succ m =>
      obtain ⟨hle, hkeeps, hdown⟩ := (handsDown_succ hp hplan).mp hdown
      refine ⟨.inl ⟨(h k).mpr ⟨m, Nat.le_of_succ_le_succ hm, hdown⟩, decide_eq_true hle⟩, hkeeps⟩

theorem HandsDown.drop (hc : ancestor plans (n + 1) b = some c)
    (h : HandsDown plans own k (n + 1 + l) b withMerges) : HandsDown plans own k l c false := by
  induction n generalizing b withMerges with
  | zero =>
    rw [Nat.zero_add, Nat.add_comm] at h
    cases h with
    | passed hp _ _ _ h =>
      rw [ancestor, hp, Option.bind_some] at hc
      cases hc
      exact h
  | succ n ih =>
    rw [Nat.add_right_comm] at h
    cases h with
    | passed hp _ _ _ h =>
      rw [ancestor, hp, Option.bind_some] at hc
      exact ih hc h

theorem HandsDown.exchange {m : ℕ} (hc : ancestor plans (n + 1) b = some c)
    (h : HandsDown plans own k (n + 1 + l) b withMerges) (hm : HandsDown plans own k m c false) :
    HandsDown plans own k (n + 1 + m) b withMerges := by
  induction n generalizing b withMerges with
  | zero =>
    rw [Nat.zero_add, Nat.add_comm] at h ⊢
    cases h with
    | passed hp hplan hle hkeeps h =>
      rw [ancestor, hp, Option.bind_some] at hc
      cases hc
      exact .passed hp hplan hle hkeeps hm
  | succ n ih =>
    rw [Nat.add_right_comm] at h ⊢
    cases h with
    | passed hp hplan hle hkeeps h =>
      rw [ancestor, hp, Option.bind_some] at hc
      exact .passed hp hplan hle hkeeps (ih hc h)

theorem HandsDown.exists_le_of_closed {i : ℕ} {q : BranchId}
    (hi : ancestor plans (i + 1) b = some q) (hin : i + 1 ≤ n)
    (hn : ancestor plans (n + 1) b = some q)
    (h : HandsDown plans own k l b withMerges) :
    ∃ m ≤ n, HandsDown plans own k m b withMerges := by
  induction l using Nat.strong_induction_on with
  | h l ih =>
    -- the part above `n` starts where the loop was entered, so it can be taken from there
    by_cases hl : l ≤ n
    · exact ⟨l, hl, h⟩
    · obtain ⟨l', rfl⟩ := Nat.exists_eq_add_of_lt (Nat.lt_of_not_le hl)
      rw [Nat.add_right_comm] at h ih
      have hq := h.drop hn
      have hshort : HandsDown plans own k (i + 1 + l') b withMerges := by
        obtain ⟨d, hd⟩ := Nat.exists_eq_add_of_le (Nat.le_succ_of_le hin)
        have hlong : HandsDown plans own k (i + 1 + (d + l')) b withMerges := by
          rwa [← Nat.add_assoc, ← hd]
        exact hlong.exchange hi hq
      exact ih (i + 1 + l') (by omega) hshort

end HandedDown

/-! ## What the walk computes -/

section Walk

variable {plans : OrderedMap BranchId BranchPlan} {own : OrderedMap BranchId SequenceSet}
  {b c p : BranchId} {withMerges : Bool} {visiting : List (BranchId × Bool)} {walk : HistoryWalk}

theorem chain_induction (plans : OrderedMap BranchId BranchPlan)
    {motive : BranchId → Bool → List (BranchId × Bool) → Prop}
    (up : ∀ b withMerges visiting, ((b, withMerges) ∉ visiting →
        ∀ p, forkParent plans b = some p → motive p false ((b, withMerges) :: visiting)) →
      motive b withMerges visiting)
    (b : BranchId) (withMerges : Bool) (visiting : List (BranchId × Bool)) :
    motive b withMerges visiting := by
  induction hn : (unvisited plans visiting).length using Nat.strong_induction_on
    generalizing b withMerges visiting with
  | h n ih =>
    refine up b withMerges visiting fun hv p hp ↦ ?_
    obtain ⟨plan, hplan, -⟩ := forkParent_eq_some.mp hp
    have hless := length_unvisited_cons (p := (b, withMerges)) (OrderedMap.mem_of_getElem? hplan) hv
    exact ih _ (hn ▸ hless) p false ((b, withMerges) :: visiting) rfl

/-- **The rule of the walk.** On its way up a call finds the memo as it was, so what it is called
under (`Ctx`) and what it answers (`Done`) are kept step by step. -/
theorem historyOf_rule {Ctx : List (BranchId × Bool) → BranchId → Bool → Prop}
    {Done : List (BranchId × Bool) → BranchId → Bool → SequenceSet → Prop}
    {memo : List ((BranchId × Bool) × SequenceSet)}
    (hctx : ∀ visiting b w p, Ctx visiting b w → forkParent plans b = some p →
      Ctx ((b, w) :: visiting) p false)
    (hmemo : ∀ e ∈ memo, ∀ visiting, Ctx visiting e.1.1 e.1.2 → Done visiting e.1.1 e.1.2 e.2)
    (hroot : ∀ visiting b w, Ctx visiting b w → forkParent plans b = none →
      Done visiting b w (finishHistory plans own b w (listed plans b)))
    (hpass : ∀ visiting b w p plan history, Ctx visiting b w → memo.lookup (b, w) = none →
      forkParent plans b = some p → plans[b]? = some plan →
      (memo.lookup (p, false) = none → (p, false) ∉ (b, w) :: visiting) →
      Done ((b, w) :: visiting) p false history →
      Done visiting b w (finishHistory plans own b w (history.keep (· ≤ plan.forkSequence))))
    (hcut : ∀ visiting b w p plan, Ctx visiting b w → forkParent plans b = some p →
      plans[b]? = some plan → (p, false) ∈ (b, w) :: visiting →
      Done visiting b w
        (finishHistory plans own b w ((∅ : SequenceSet).keep (· ≤ plan.forkSequence))))
    (hwalk : walk.memo = memo) (h : Ctx visiting b withMerges) :
    (memo.lookup (b, withMerges) = none ∧ (b, withMerges) ∈ visiting ∧
        (historyOf plans own b withMerges visiting walk).1 = ∅ ∨
      (memo.lookup (b, withMerges) = none → (b, withMerges) ∉ visiting) ∧
        Done visiting b withMerges (historyOf plans own b withMerges visiting walk).1) ∧
      ∀ e ∈ (historyOf plans own b withMerges visiting walk).2.memo,
        e ∈ memo ∨ ∃ visiting, Ctx visiting e.1.1 e.1.2 ∧ Done visiting e.1.1 e.1.2 e.2 := by
  induction b, withMerges, visiting using chain_induction plans with
  | up b withMerges visiting ih =>
    obtain ⟨done, hlookup, heq⟩ | ⟨hlookup, ⟨hv, hempty, hsame⟩ | ⟨hv, history, hhistory,
        ⟨hnone, hfinish, hnew⟩ | ⟨p, plan, hp, hplan, hfinish, hnew⟩⟩⟩ :=
      historyOf_cases plans own b withMerges visiting walk
    · rw [heq]
      rw [hwalk] at hlookup
      obtain ⟨before, after, hsplit, -⟩ := List.lookup_eq_some_iff.mp hlookup
      refine ⟨.inr ⟨fun hnone ↦ ?_, ?_⟩, fun e he ↦ .inl (hwalk ▸ he)⟩
      · rw [hlookup] at hnone
        contradiction
      · exact hmemo ((b, withMerges), done) (by rw [hsplit]; simp) visiting h
    · rw [hwalk] at hlookup
      exact ⟨.inl ⟨hlookup, hv, hempty⟩, fun e he ↦ .inl (hwalk ▸ hsame ▸ he)⟩
    · have hdone := hroot visiting b withMerges h hnone
      rw [← hfinish] at hdone
      rw [hhistory, hnew]
      refine ⟨.inr ⟨fun _ ↦ hv, hdone⟩, fun e he ↦ ?_⟩
      rcases List.mem_cons.mp he with rfl | he
      · exact .inr ⟨visiting, h, hdone⟩
      · exact .inl (hwalk ▸ he)
    · rw [hwalk] at hlookup
      obtain ⟨hanswer, hrest⟩ := ih hv p hp (hctx visiting b withMerges p h hp)
      -- the parent was met again, which cuts its part off, or has been answered for
      have hdone : Done visiting b withMerges history := by
        rw [hfinish]
        rcases hanswer with ⟨-, hmet, hempty⟩ | ⟨hfresh, hdone⟩
        · rw [hempty]
          exact hcut visiting b withMerges p plan h hp hplan hmet
        · exact hpass visiting b withMerges p plan _ h hlookup hp hplan hfresh hdone
      rw [hhistory, hnew]
      refine ⟨.inr ⟨fun _ ↦ hv, hdone⟩, fun e he ↦ ?_⟩
      rcases List.mem_cons.mp he with rfl | he
      · exact .inr ⟨visiting, h, hdone⟩
      · exact hrest e he

def ClosedUp (plans : OrderedMap BranchId BranchPlan)
    (memo : List ((BranchId × Bool) × SequenceSet)) (visiting : List (BranchId × Bool)) : Prop :=
  ∀ q ∈ memo.map Prod.fst, ∀ p, forkParent plans q.1 = some p →
    (p, false) ∈ memo.map Prod.fst ∨ (p, false) ∈ visiting

/-- A call forgets nothing, memoises what it is called for, and keeps the memo closed. -/
theorem historyOf_closedUp (h : ClosedUp plans walk.memo visiting) :
    let memo := (historyOf plans own b withMerges visiting walk).2.memo
    (∀ q ∈ walk.memo.map Prod.fst, q ∈ memo.map Prod.fst) ∧
      ((b, withMerges) ∈ memo.map Prod.fst ∨ (b, withMerges) ∈ visiting) ∧
      ClosedUp plans memo visiting := by
  induction b, withMerges, visiting using chain_induction plans with
  | up b withMerges visiting ih =>
    obtain ⟨done, hlookup, heq⟩ | ⟨hlookup, ⟨hv, hempty, hsame⟩ | ⟨hv, history, hhistory,
        ⟨hnone, hfinish, hnew⟩ | ⟨p, plan, hp, hplan, hfinish, hnew⟩⟩⟩ :=
      historyOf_cases plans own b withMerges visiting walk
    · rw [heq]
      obtain ⟨before, after, hsplit, -⟩ := List.lookup_eq_some_iff.mp hlookup
      exact ⟨fun q hq ↦ hq, .inl (by rw [hsplit]; simp), h⟩
    · intro memo
      rw [show memo = walk.memo from hsame]
      exact ⟨fun q hq ↦ hq, .inr hv, h⟩
    · intro memo
      rw [show memo = _ from hnew, List.map_cons]
      refine ⟨fun q hq ↦ List.mem_cons_of_mem _ hq, .inl List.mem_cons_self, ?_⟩
      intro q hq p hp
      rw [List.map_cons] at hq ⊢
      rcases List.mem_cons.mp hq with rfl | hq
      · rw [hnone] at hp
        contradiction
      · exact (h q hq p hp).imp_left (List.mem_cons_of_mem _)
    · have hweak : ClosedUp plans walk.memo ((b, withMerges) :: visiting) := fun q hq p hp ↦
        (h q hq p hp).imp_right (List.mem_cons_of_mem _)
      obtain ⟨hgrows, hparent, hclosed⟩ := ih hv p hp hweak
      intro memo
      rw [show memo = _ from hnew, List.map_cons]
      refine ⟨fun q hq ↦ List.mem_cons_of_mem _ (hgrows q hq), .inl List.mem_cons_self, ?_⟩
      intro q hq p' hp'
      rw [List.map_cons] at hq ⊢
      -- A parent that was being visited is this branch, which is memoised now, or still is.
      have hany : (p', false) ∈ ((historyOf plans own p false ((b, withMerges) :: visiting)
          walk).2.memo.map Prod.fst) ∨ (p', false) ∈ (b, withMerges) :: visiting := by
        rcases List.mem_cons.mp hq with rfl | hq
        · obtain rfl := Option.some.inj (hp.symm.trans hp')
          exact hparent
        · exact hclosed q hq p' hp'
      rcases hany with hmem | hmem
      · exact .inl (List.mem_cons_of_mem _ hmem)
      · rcases List.mem_cons.mp hmem with heq | hmem
        · exact .inl (heq ▸ List.mem_cons_self)
        · exact .inr hmem

/-! ### In any order -/

theorem ancestor_succ_eq_some {n : ℕ} (hp : forkParent plans b = some p) :
    ancestor plans (n + 1) b = ancestor plans n p := by
  rw [ancestor, hp, Option.bind_some]

theorem ancestor_parent {n : ℕ} (hc : ancestor plans n b = some c)
    (hp : forkParent plans c = some p) : ancestor plans (n + 1) b = some p := by
  induction n generalizing b with
  | zero =>
    obtain rfl := Option.some.inj hc
    exact ancestor_succ_eq_some hp
  | succ n ih =>
    obtain ⟨q, hq, hc⟩ := Option.bind_eq_some_iff.mp hc
    rw [ancestor_succ_eq_some hq]
    exact ih hc

theorem ancestor_mem {n : ℕ} (hc : ancestor plans (n + 1) b = some c) : c ∈ plans := by
  induction n generalizing b with
  | zero =>
    obtain ⟨p, hp, hc⟩ := Option.bind_eq_some_iff.mp hc
    obtain rfl := Option.some.inj hc
    exact forkParent_mem hp
  | succ n ih =>
    obtain ⟨p, hp, hc⟩ := Option.bind_eq_some_iff.mp hc
    exact ih hc

def Reaching (plans : OrderedMap BranchId BranchPlan) (own : OrderedMap BranchId SequenceSet)
    (b : BranchId) (withMerges : Bool) (history : SequenceSet) : Prop :=
  ∃ n c, HandedDown plans own n b withMerges history ∧ ancestor plans n b = some c ∧
    (forkParent plans c = none ∨ OnLoop plans c) ∧
    (withMerges = true → 1 ≤ n ∨ forkParent plans b = none)

/-- **Whatever was memoised before, a history reaches its nearest ancestor on a loop.** -/
theorem historyOf_reaching (hmemo : ∀ e ∈ walk.memo, Reaching plans own e.1.1 e.1.2 e.2) :
    Reaching plans own b true (historyOf plans own b true [] walk).1 ∧
      ∀ e ∈ (historyOf plans own b true [] walk).2.memo, Reaching plans own e.1.1 e.1.2 e.2 := by
  have hrule := @historyOf_rule plans own b true [] walk
    (fun visiting b w ↦ (w = true → visiting = []) ∧
      ∀ q ∈ visiting, ∃ n, ancestor plans (n + 1) q.1 = some b)
    (fun _ b w history ↦ Reaching plans own b w history) walk.memo ?_
    (fun e he _ _ ↦ hmemo e he) ?_ ?_ ?_ rfl ⟨fun _ ↦ rfl, nofun⟩
  · obtain ⟨hanswer, hrest⟩ := hrule
    refine ⟨?_, fun e he ↦ ?_⟩
    · rcases hanswer with ⟨-, hmet, -⟩ | ⟨-, hdone⟩
      · exact absurd hmet List.not_mem_nil
      · exact hdone
    · rcases hrest e he with hold | ⟨-, -, hdone⟩
      · exact hmemo e hold
      · exact hdone
  · rintro visiting b w p ⟨-, habove⟩ hp
    refine ⟨nofun, fun q hq ↦ ?_⟩
    rcases List.mem_cons.mp hq with rfl | hq
    · exact ⟨0, ancestor_succ_eq_some hp⟩
    · obtain ⟨n, hn⟩ := habove q hq
      exact ⟨n + 1, ancestor_parent hn hp⟩
  · intro visiting b w _ hroot
    exact ⟨0, b, handedDown_root hroot, rfl, .inl hroot, fun _ ↦ .inr hroot⟩
  · rintro visiting b w p plan history - - hp hplan - ⟨n, c, hdown, hc, hend, -⟩
    refine ⟨n + 1, c, hdown.pass hp hplan, ?_, hend, fun _ ↦ .inl (Nat.le_add_left 1 n)⟩
    rwa [ancestor_succ_eq_some hp]
  · rintro visiting b w p plan ⟨hfirst, habove⟩ hp hplan hmet
    -- The parent met again is the branch itself or one it was reached from.
    have hloop : OnLoop plans b := by
      rcases List.mem_cons.mp hmet with heq | hmet
      · obtain ⟨rfl, -⟩ := Prod.mk.inj heq
        exact ⟨0, ancestor_succ_eq_some hp⟩
      · obtain ⟨n, hn⟩ := habove _ hmet
        refine ⟨n + 1, ?_⟩
        rwa [ancestor_succ_eq_some hp]
    refine ⟨0, b, handedDown_cut hp, rfl, .inr hloop, fun hw ↦ ?_⟩
    subst hw
    rcases List.mem_cons.mp hmet with heq | hmet
    · exact nomatch (Prod.mk.inj heq).2
    · rw [hfirst rfl] at hmet
      exact absurd hmet List.not_mem_nil

theorem historyOf_first {k : EventIndex} {l : ℕ} (hempty : walk.memo = [])
    (hdown : HandsDown plans own k l b true) : k ∈ (historyOf plans own b true [] walk).1 := by
  have hrule := @historyOf_rule plans own b true [] walk (fun _ _ _ ↦ True)
    (fun visiting b w history ↦ ∃ n c, HandedDown plans own n b w history ∧
      ancestor plans n b = some c ∧ ∀ q, forkParent plans c = some q →
        (∃ i, i + 1 ≤ n ∧ ancestor plans (i + 1) b = some q) ∨ (q, false) ∈ (b, w) :: visiting)
    walk.memo
    (fun _ _ _ _ _ _ ↦ trivial) (by rw [hempty]; nofun) ?_ ?_ ?_ rfl trivial
  · -- the walk went up to a root, or to where the next parent is one it came through
    rcases hrule.1 with ⟨-, hmet, -⟩ | ⟨-, n, c, hhistory, hc, hclosed⟩
    · exact absurd hmet List.not_mem_nil
    · refine (hhistory k).mpr ?_
      rcases hq : forkParent plans c with - | q
      · exact ⟨l, hdown.le_of_root hc hq, hdown⟩
      · rcases hclosed q hq with ⟨i, hin, hi⟩ | hmem
        · exact hdown.exists_le_of_closed hi hin (ancestor_parent hc hq)
        · rcases List.mem_cons.mp hmem with heq | hmem
          · exact nomatch (Prod.mk.inj heq).2
          · exact absurd hmem List.not_mem_nil
  · intro visiting b w _ hroot
    refine ⟨0, b, handedDown_root hroot, rfl, fun q hq ↦ ?_⟩
    rw [hroot] at hq
    contradiction
  · rintro visiting b w p plan history - - hp hplan - ⟨n, c, hhistory, hc, hclosed⟩
    refine ⟨n + 1, c, hhistory.pass hp hplan, (ancestor_succ_eq_some hp).trans hc, fun q hq ↦ ?_⟩
    rcases hclosed q hq with ⟨i, hin, hi⟩ | hmem
    · exact .inl ⟨i + 1, Nat.succ_le_succ hin, (ancestor_succ_eq_some hp).trans hi⟩
    · rcases List.mem_cons.mp hmem with heq | hmem
      · obtain ⟨rfl, -⟩ := Prod.mk.inj heq
        exact .inl ⟨0, Nat.le_add_left 1 n, ancestor_succ_eq_some hp⟩
      · exact .inr hmem
  · rintro visiting b w p plan - hp hplan hmet
    refine ⟨0, b, handedDown_cut hp, rfl, fun q hq ↦ ?_⟩
    obtain rfl := Option.some.inj (hp.symm.trans hq)
    exact .inr hmet

/-! ### After an ancestor -/

theorem lookup_ne_none {memo : List ((BranchId × Bool) × SequenceSet)} {q : BranchId × Bool} :
    memo.lookup q ≠ none ↔ q ∈ memo.map Prod.fst := by
  rw [ne_eq, ← Option.not_isSome_iff_eq_none, not_not, List.lookup_isSome_iff]
  simp only [beq_iff_eq, List.mem_map]
  exact exists_congr fun e ↦ and_congr_right fun _ ↦ eq_comm

theorem ClosedUp.ancestor_mem {memo : List ((BranchId × Bool) × SequenceSet)} {n : ℕ}
    (h : ClosedUp plans memo []) (hb : (b, withMerges) ∈ memo.map Prod.fst)
    (hc : ancestor plans (n + 1) b = some c) : (c, false) ∈ memo.map Prod.fst := by
  induction n generalizing b withMerges with
  | zero =>
    obtain ⟨p, hp, hc⟩ := Option.bind_eq_some_iff.mp hc
    obtain rfl := Option.some.inj hc
    exact (h _ hb p hp).resolve_right List.not_mem_nil
  | succ n ih =>
    obtain ⟨p, hp, hc⟩ := Option.bind_eq_some_iff.mp hc
    exact ih ((h _ hb p hp).resolve_right List.not_mem_nil) hc

def Within (plans : OrderedMap BranchId BranchPlan) (own : OrderedMap BranchId SequenceSet)
    (c b : BranchId) (withMerges : Bool) (history : SequenceSet) : Prop :=
  ∀ n, ancestor plans n b = some c → (withMerges = true → 1 ≤ n) →
    ∀ k ∈ history, ∃ m ≤ n, HandsDown plans own k m b withMerges

/-- A memo computed from `c` on a loop: it holds `c`, and nothing in it goes further up. -/
structure StartedAt (plans : OrderedMap BranchId BranchPlan)
    (own : OrderedMap BranchId SequenceSet) (c : BranchId)
    (memo : List ((BranchId × Bool) × SequenceSet)) : Prop where
  closed : ClosedUp plans memo []
  mem : (c, false) ∈ memo.map Prod.fst
  within : ∀ e ∈ memo, Within plans own c e.1.1 e.1.2 e.2

theorem historyOf_within (hmemo : ∀ e ∈ walk.memo, Within plans own c e.1.1 e.1.2 e.2)
    (hstart : (c, false) ∈ walk.memo.map Prod.fst ∨ walk.memo = [] ∧ b = c) :
    Within plans own c b true (historyOf plans own b true [] walk).1 ∧
      ∀ e ∈ (historyOf plans own b true [] walk).2.memo, Within plans own c e.1.1 e.1.2 e.2 := by
  have hheld {b : BranchId} {w : Bool} {inherited : SequenceSet}
      (h : HandedDown plans own 0 b w (finishHistory plans own b w inherited)) :
      Within plans own c b w (finishHistory plans own b w inherited) := by
    intro n _ _ k hk
    obtain ⟨m, hm, hdown⟩ := (h k).mp hk
    exact ⟨m, hm.trans (Nat.zero_le n), hdown⟩
  have hrule := @historyOf_rule plans own b true [] walk
    (fun visiting b w ↦ (c, false) ∈ walk.memo.map Prod.fst ∨
      walk.memo = [] ∧ ((b, w) = (c, true) ∨
        ∀ p, forkParent plans c = some p → (p, false) ∈ (b, w) :: visiting))
    (fun _ b w history ↦ Within plans own c b w history) walk.memo ?_
    (fun e he _ _ ↦ hmemo e he) (fun _ _ _ _ hroot ↦ hheld (handedDown_root hroot)) ?_
    (fun _ _ _ _ _ _ hp _ _ ↦ hheld (handedDown_cut hp)) rfl
    (hstart.imp_right fun h ↦ ⟨h.1, .inl (by rw [h.2])⟩)
  · obtain ⟨hanswer, hrest⟩ := hrule
    refine ⟨?_, fun e he ↦ ?_⟩
    · rcases hanswer with ⟨-, hmet, -⟩ | ⟨-, hdone⟩
      · exact absurd hmet List.not_mem_nil
      · exact hdone
    · rcases hrest e he with hold | ⟨-, -, hdone⟩
      · exact hmemo e hold
      · exact hdone
  · rintro visiting b w p hctx hp
    refine hctx.imp_right fun ⟨hempty, hway⟩ ↦ ⟨hempty, .inr fun q hq ↦ ?_⟩
    rcases hway with heq | hway
    · obtain ⟨rfl, -⟩ := Prod.mk.inj heq
      obtain rfl := Option.some.inj (hp.symm.trans hq)
      exact List.mem_cons_self
    · exact List.mem_cons_of_mem _ (hway q hq)
  · intro visiting b w p plan history hctx hlookup hp hplan hfresh hdone n hn hw k hk
    rw [mem_finish, OrderedSet.mem_keep] at hk
    obtain ⟨⟨hmem, hle⟩ | hin, hkeeps⟩ := hk
    · cases n with
      | zero =>
        -- The branch is `c` again, whose parent the walk has already entered.
        obtain rfl := Option.some.inj hn
        have hw : w = false := Bool.eq_false_iff.mpr fun h ↦ absurd (hw h) (by decide)
        subst hw
        rcases hctx with hmem | ⟨hempty, heq | hway⟩
        · exact absurd hlookup (lookup_ne_none.mpr hmem)
        · exact nomatch (Prod.mk.inj heq).2
        · exact absurd (hway p hp) (hfresh (by rw [hempty]; rfl))
      | succ n =>
        rw [ancestor_succ_eq_some hp] at hn
        obtain ⟨m, hm, hdown⟩ := hdone n hn nofun k hmem
        exact ⟨m + 1, Nat.succ_le_succ hm,
          (handsDown_succ hp hplan).mpr ⟨of_decide_eq_true hle, hkeeps, hdown⟩⟩
    · exact ⟨0, Nat.zero_le n, handsDown_zero.mpr ⟨.inr hin, hkeeps⟩⟩

end Walk

/-! ## Every order -/

section Fold

variable {plans : OrderedMap BranchId BranchPlan} {own : OrderedMap BranchId SequenceSet}

/-- **Branch after branch.** What each call keeps and answers, the whole walk does. -/
theorem foldl_nextHistory {Inv : List ((BranchId × Bool) × SequenceSet) → Prop}
    {Good : BranchId → SequenceSet → Prop} {order : List BranchId}
    (hstep : ∀ b ∈ order, ∀ walk : HistoryWalk, Inv walk.memo →
      Good b (historyOf plans own b true [] walk).1 ∧
        Inv (historyOf plans own b true [] walk).2.memo)
    {r : OrderedMap BranchId SequenceSet × HistoryWalk} (hinv : Inv r.2.memo) (b : BranchId) :
    (b ∈ order →
      ∃ history, (order.foldl (nextHistory plans own) r).1[b]? = some history ∧ Good b history) ∧
    (b ∉ order → (order.foldl (nextHistory plans own) r).1[b]? = r.1[b]?) := by
  induction order generalizing r with
  | nil => exact ⟨nofun, fun _ ↦ rfl⟩
  | cons id order ih =>
    obtain ⟨hgood, hinv⟩ := hstep id List.mem_cons_self r.2 hinv
    have hih := @ih (fun b hb ↦ hstep b (List.mem_cons_of_mem _ hb)) (nextHistory plans own r id)
      hinv
    have hnext : (nextHistory plans own r id).1[b]? =
        if b = id then some (historyOf plans own id true [] r.2).1 else r.1[b]? :=
      OrderedMap.lookup_insert r.1 id b _
    rw [hnext] at hih
    constructor
    · intro hb
      -- a branch listed again gets its later history, which is as good
      by_cases hrest : b ∈ order
      · exact hih.1 hrest
      · obtain rfl := (List.mem_cons.mp hb).resolve_right hrest
        exact ⟨_, (hih.2 hrest).trans (if_pos rfl), hgood⟩
    · intro hb
      obtain ⟨hne, hrest⟩ := not_or.mp fun h ↦ hb (List.mem_cons.mpr h)
      exact (hih.2 hrest).trans (if_neg hne)

theorem branchHistoriesIn_first {b : BranchId} {order : List BranchId} (hb : b ∉ order) :
    ∃ history, (branchHistoriesIn plans own (b :: order)).1[b]? = some history ∧
      ∀ k l, HandsDown plans own k l b true → k ∈ history := by
  refine ⟨(historyOf plans own b true [] ⟨[], []⟩).1, ?_, fun k l ↦ historyOf_first rfl⟩
  have hrest := (@foldl_nextHistory plans own (fun _ ↦ True) (fun _ _ ↦ True) order
    (fun _ _ _ _ ↦ ⟨trivial, trivial⟩) (nextHistory plans own (∅, ⟨[], []⟩) b) trivial b).2 hb
  refine (show _ = _ from hrest).trans ?_
  exact (OrderedMap.lookup_insert _ b b _).trans (if_pos rfl)

theorem branchHistoriesIn_within {b c : BranchId} {order : List BranchId} (hloop : OnLoop plans c)
    (hb : b ∈ order) :
    ∃ history, (branchHistoriesIn plans own (c :: order)).1[b]? = some history ∧
      Within plans own c b true history := by
  refine (@foldl_nextHistory plans own (StartedAt plans own c)
    (fun b history ↦ Within plans own c b true history) order (fun b _ walk hinv ↦ ?_)
    (nextHistory plans own (∅, ⟨[], []⟩) c) ?_ b).1 hb
  · obtain ⟨hdone, hwithin⟩ := historyOf_within (b := b) hinv.within (.inl hinv.mem)
    obtain ⟨hgrows, -, hclosed⟩ := @historyOf_closedUp plans own b true [] walk hinv.closed
    exact ⟨hdone, hclosed, hgrows _ hinv.mem, hwithin⟩
  · obtain ⟨n, hn⟩ := hloop
    obtain ⟨-, hmem, hclosed⟩ := @historyOf_closedUp plans own c true [] ⟨[], []⟩ nofun
    refine ⟨hclosed, hclosed.ancestor_mem (hmem.resolve_right List.not_mem_nil) hn, ?_⟩
    exact (@historyOf_within plans own c c ⟨[], []⟩ nofun (.inr ⟨rfl, rfl⟩)).2

theorem branchHistoriesIn_whole {b : BranchId} {order : List BranchId}
    (h : LoopsAddNothing plans own) (horder : order.Perm plans.keys) (hb : b ∈ plans) :
    ∃ history, (branchHistoriesIn plans own order).1[b]? = some history ∧
      ∀ k, k ∈ history ↔ ∃ l, HandsDown plans own k l b true := by
  obtain ⟨history, hhistory, n, c, hdown, hc, hend, hfar⟩ := (@foldl_nextHistory plans own
    (fun memo ↦ ∀ e ∈ memo, Reaching plans own e.1.1 e.1.2 e.2)
    (fun b history ↦ Reaching plans own b true history) order
    (fun b _ walk hmemo ↦ historyOf_reaching hmemo) (∅, ⟨[], []⟩) nofun b).1
    (horder.mem_iff.mpr (Std.ExtTreeMap.mem_keys.mpr hb))
  refine ⟨history, hhistory, fun k ↦ (hdown k).trans ⟨fun ⟨m, _, hm⟩ ↦ ⟨m, hm⟩, ?_⟩⟩
  rintro ⟨l, hl⟩
  rcases hend with hroot | hloop
  · exact ⟨l, hl.le_of_root hc hroot, hl⟩
  · rcases hfar rfl with hn | hroot
    · exact h b c n hb hn hc hloop k l hl
    · exact ⟨l, (hl.le_of_root rfl hroot).trans (Nat.zero_le n), hl⟩

/-- Two orders that agree hand a branch the same: from the branch, and from its ancestor on a loop.
-/
theorem loopsAddNothing_of_orderIndependent (h : OrderIndependent plans own) :
    LoopsAddNothing plans own := by
  intro b c n hb hn hc hloop k l hdown
  obtain ⟨n, rfl⟩ := Nat.exists_eq_add_of_le' hn
  -- a branch on its own loop has all of the loop among its ancestors up to itself
  by_cases hbc : c = b
  · subst hbc
    obtain ⟨p, hp, hrest⟩ := Option.bind_eq_some_iff.mp hc
    exact hdown.exists_le_of_closed (ancestor_succ_eq_some hp) hn (ancestor_parent hc hp)
  have hmem {b : BranchId} (hb : b ∈ plans) : b ∈ plans.keys := Std.ExtTreeMap.mem_keys.mpr hb
  have hnodup : plans.keys.Nodup :=
    Std.ExtTreeMap.distinct_keys.imp fun hne heq ↦ hne (Std.compare_eq_iff_eq.mpr heq)
  have hcmem : c ∈ plans := ancestor_mem hc
  obtain ⟨history, hhistory, hfirst⟩ := @branchHistoriesIn_first plans own b (plans.keys.erase b)
    hnodup.not_mem_erase
  obtain ⟨history', hhistory', hwithin⟩ := @branchHistoriesIn_within plans own b c
    (plans.keys.erase c) hloop ((List.mem_erase_of_ne (Ne.symm hbc)).mpr (hmem hb))
  rw [h _ _ (List.perm_cons_erase (hmem hb)).symm (List.perm_cons_erase (hmem hcmem)).symm,
    hhistory'] at hhistory
  obtain rfl := Option.some.inj hhistory
  exact hwithin (n + 1) hc (fun _ ↦ hn) k (hfirst k l hdown)

/-- **Histories are independent of the order of the branches just when loops add nothing.** -/
theorem orderIndependent_iff : OrderIndependent plans own ↔ LoopsAddNothing plans own := by
  refine ⟨loopsAddNothing_of_orderIndependent, fun h order order' horder horder' ↦ ?_⟩
  refine OrderedMap.ext_lookup fun b ↦ ?_
  by_cases hb : b ∈ plans
  · obtain ⟨history, hhistory, hwhole⟩ := branchHistoriesIn_whole h horder hb
    obtain ⟨history', hhistory', hwhole'⟩ := branchHistoriesIn_whole h horder' hb
    rw [hhistory, hhistory']
    exact congrArg some (Std.ExtTreeSet.ext_mem fun k ↦ (hwhole k).trans (hwhole' k).symm)
  · have hnone {order : List BranchId} (horder : order.Perm plans.keys) :
        (branchHistoriesIn plans own order).1[b]? = none := by
      refine ((@foldl_nextHistory plans own (fun _ ↦ True) (fun _ _ ↦ True) order
        (fun _ _ _ _ ↦ ⟨trivial, trivial⟩) (∅, ⟨[], []⟩) trivial b).2 fun hmem ↦ hb ?_).trans
          Std.ExtTreeMap.getElem?_empty
      exact Std.ExtTreeMap.mem_keys.mp (horder.mem_iff.mp hmem)
    rw [hnone horder, hnone horder']

end Fold

def loopRecords : List BranchRecord :=
  [⟨⟨some (exampleBranch 2), 5, "a", .empty⟩, .uuid (exampleBranch 1)⟩,
    ⟨⟨some (exampleBranch 1), 5, "b", .empty⟩, .uuid (exampleBranch 2)⟩,
    ⟨⟨some (exampleBranch 1), 5, "c", .empty⟩, .uuid (exampleBranch 3)⟩]

def loopRow : EventRow :=
  .toEventData ⟨exampleEvent 1, 0, .system, exampleOp, .default, .default, exampleBranch 2⟩

/-- The third branch has the event when its history comes first, and not when the first branch's
does: that one memoises itself, without merges, as it met its parent again. -/
theorem not_orderIndependent_loopRecords :
    let plans := (restoreBranches loopRecords).plans
    ¬ OrderIndependent plans (scanRows plans [loopRow]).own := by
  intro plans h
  have hkeeps : ∀ e ∈ plans.toList, 0 ∉ e.2.discarded := by decide
  have hkeeps (b : BranchId) : Keeps plans 0 b := fun plan hplan ↦
    hkeeps (b, plan) (OrderedMap.mem_toList.mpr hplan)
  have hup : forkParent plans (exampleBranch 3) = some (exampleBranch 1) := by decide
  have hup' : forkParent plans (exampleBranch 1) = some (exampleBranch 2) := by decide
  obtain ⟨plan, hplan⟩ : ∃ plan, plans[exampleBranch 3]? = some plan := ⟨_, rfl⟩
  obtain ⟨plan', hplan'⟩ : ∃ plan, plans[exampleBranch 1]? = some plan := ⟨_, rfl⟩
  have hdown : HandsDown plans (scanRows plans [loopRow]).own 0 2 (exampleBranch 3) true :=
    .passed hup hplan (Nat.zero_le _) (hkeeps _) <|
      .passed hup' hplan' (Nat.zero_le _) (hkeeps _) <|
        .held (.inr (.inl (by decide))) (hkeeps _)
  obtain ⟨m, hm, hnear⟩ := loopsAddNothing_of_orderIndependent h (exampleBranch 3)
    (exampleBranch 1) 1 (by decide) le_rfl (by decide) ⟨1, by decide⟩ 0 2 hdown
  -- Neither the third branch nor the first has the event by itself.
  rcases Nat.le_one_iff_eq_zero_or_eq_one.mp hm with rfl | rfl
  · rcases (handsDown_zero.mp hnear).1 with hlisted | hown | ⟨-, hmerged⟩
    · exact not_mem_listed hup hlisted
    · exact absurd hown (by decide)
    · exact absurd hmerged (by decide)
  · rcases (handsDown_zero.mp ((handsDown_succ hup hplan).mp hnear).2.2).1 with
      hlisted | hown | ⟨hmerges, -⟩
    · exact not_mem_listed hup' hlisted
    · exact absurd hown (by decide)
    · exact absurd hmerges (by decide)

end RosheraCad
