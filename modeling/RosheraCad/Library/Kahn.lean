import RosheraCad.Library.OrderedSet
import Mathlib.Order.WellFoundedSet

/-!
# Kahn's algorithm

A finite directed graph is peeled from its sources. What remains is empty exactly when the graph has
no cycle. The algorithm keeps for each node the number of its predecessors that have not been
removed, and a queue of the nodes for which that number is zero.
-/

/-! ## Acyclic relations -/

def Acyclic {α : Type*} (r : α → α → Prop) : Prop := ∀ x, ¬ Relation.TransGen r x x

namespace Acyclic

variable {α : Type*} {r r' : α → α → Prop}

theorem mono (h : ∀ a b, r a b → r' a b) (hr : Acyclic r') : Acyclic r :=
  fun x hx ↦ hr x (Relation.TransGen.mono (fun a b ↦ h a b) _ _ hx)

theorem transGen_iff (hr : Acyclic r) {a b : α} :
    Relation.ReflTransGen r a b ∧ a ≠ b ↔ Relation.TransGen r a b := by
  rw [Relation.reflTransGen_iff_eq_or_transGen]
  constructor
  · rintro ⟨heq | hpath, hne⟩
    · exact absurd heq.symm hne
    · exact hpath
  · intro hpath
    refine ⟨.inr hpath, ?_⟩
    rintro rfl
    exact hr a hpath

/-- **A finite set in which every element has a predecessor lies behind a cycle.** -/
theorem eq_empty_of_forall_exists_pred (hr : Acyclic r) {s : Set α} (hs : s.Finite)
    (hpred : ∀ b ∈ s, ∃ a ∈ s, r a b) : s = ∅ := by
  have : IsStrictOrder α (Relation.TransGen r) :=
    { irrefl := hr, trans := fun _ _ _ ↦ Relation.TransGen.trans }
  by_contra hne
  obtain ⟨b, hb, hmin⟩ := (hs.wellFoundedOn (r := Relation.TransGen r)).has_min
    Set.univ ⟨(⟨_, (Set.nonempty_iff_ne_empty.mpr hne).some_mem⟩ : s), trivial⟩
  obtain ⟨a, ha, hab⟩ := hpred b b.2
  exact hmin ⟨a, ha⟩ trivial (Relation.TransGen.single hab)

end Acyclic

variable {α : Type*}

theorem exists_cycle_of_forall_exists_pred {r : α → α → Prop} {s : Set α}
    (hs : s.Finite) (hpred : ∀ b ∈ s, ∃ a ∈ s, r a b) {b : α} (hb : b ∈ s) :
    ∃ y, Relation.TransGen r y y ∧ Relation.ReflTransGen r y b := by
  by_contra hnone
  push Not at hnone
  -- without such a cycle, what leads to the element is acyclic
  have hacyclic : Acyclic fun a c ↦ r a c ∧ Relation.ReflTransGen r c b := by
    intro z hz
    obtain ⟨a, -, -, hzb⟩ := Relation.TransGen.tail'_iff.mp hz
    exact hnone z (Relation.TransGen.mono (fun _ _ h ↦ h.1) _ _ hz) hzb
  have hempty := hacyclic.eq_empty_of_forall_exists_pred
    (hs.subset (Set.sep_subset s fun a ↦ Relation.ReflTransGen r a b)) fun c hc ↦ by
      obtain ⟨a, ha, hac⟩ := hpred c hc.1
      exact ⟨a, ⟨ha, .head hac hc.2⟩, hac, hc.2⟩
  exact Set.eq_empty_iff_forall_notMem.mp hempty b ⟨hb, .refl⟩

/-- A path over two kinds of edges uses none of the second kind, or has a last edge of it. -/
theorem transGen_or {r n : α → α → Prop} {x y : α}
    (h : Relation.TransGen (fun a b ↦ r a b ∨ n a b) x y) :
    Relation.TransGen r x y ∨ ∃ a b, n a b ∧
      Relation.ReflTransGen (fun a b ↦ r a b ∨ n a b) x a ∧ Relation.ReflTransGen r b y := by
  induction h with
  | single hab =>
    rcases hab with hr | hn
    · exact Or.inl (.single hr)
    · exact Or.inr ⟨_, _, hn, .refl, .refl⟩
  | tail hxy hab ih =>
    rcases hab with hr | hn
    · rcases ih with ih | ⟨a, b, hn, hxa, hby⟩
      · exact Or.inl (ih.tail hr)
      · exact Or.inr ⟨a, b, hn, hxa, hby.tail hr⟩
    · exact Or.inr ⟨_, _, hn, hxy.to_reflTransGen, .refl⟩

/-- **One more edge closes a cycle exactly when its ends were connected the other way round.** -/
theorem Acyclic.or_single_iff {r : α → α → Prop} (hr : Acyclic r) {i j : α} :
    Acyclic (fun a b ↦ r a b ∨ a = i ∧ b = j) ↔ ¬ Relation.ReflTransGen r j i := by
  constructor
  · intro h hpath
    have hpath : Relation.ReflTransGen (fun a b ↦ r a b ∨ a = i ∧ b = j) j i :=
      Relation.ReflTransGen.mono (fun _ _ hab ↦ Or.inl hab) _ _ hpath
    exact h i (.head' (Or.inr ⟨rfl, rfl⟩) hpath)
  · intro hpath x hx
    rcases transGen_or hx with hx | ⟨a, b, ⟨rfl, rfl⟩, hxa, hbx⟩
    · exact hr x hx
    -- the cycle comes back from the end of the new edge to its start
    have hback : Relation.ReflTransGen (fun c d ↦ r c d ∨ c = a ∧ d = b) b a :=
      (Relation.ReflTransGen.mono (fun _ _ h ↦ Or.inl h) _ _ hbx).trans hxa
    rcases Relation.reflTransGen_iff_eq_or_transGen.mp hback with rfl | hback
    · exact hpath .refl
    rcases transGen_or hback with hback | ⟨_, _, ⟨rfl, rfl⟩, -, hba⟩
    · exact hpath hback.to_reflTransGen
    · exact hpath hba

/-- One more edge keeps a relation well-founded, unless its ends were connected the other way
round. -/
theorem wellFounded_or_single {r : α → α → Prop} (hr : WellFounded r) {i j : α}
    (h : ¬ Relation.ReflTransGen r j i) : WellFounded (fun a b ↦ r a b ∨ a = i ∧ b = j) := by
  -- below what the new edge does not lead up to nothing changes
  have hbelow {a : α} (ha : ¬ Relation.ReflTransGen r j a) :
      Acc (fun a b ↦ r a b ∨ a = i ∧ b = j) a := by
    induction hr.apply a with
    | intro a _ ih =>
      refine ⟨a, fun b hb ↦ ?_⟩
      rcases hb with hb | ⟨-, rfl⟩
      · exact ih b hb fun hjb ↦ ha (hjb.tail hb)
      · exact absurd .refl ha
  refine ⟨fun a ↦ ?_⟩
  induction hr.apply a with
  | intro a _ ih =>
    refine ⟨a, fun b hb ↦ ?_⟩
    rcases hb with hb | ⟨rfl, -⟩
    · exact ih b hb
    · exact hbelow h

/-! ## The algorithm -/

namespace Kahn

variable {K : Type*} [Ord K] [Std.TransOrd K] {removed : List K}

abbrev Adjacency (K : Type*) [Ord K] := OrderedMap K (OrderedSet K)

def Edge (adj : Adjacency K) (a b : K) : Prop := b ∈ adj.setAt a

theorem edge_collect [Std.LawfulEqOrd K] [DecidableEq K] {E : Type*} {l : List E}
    {source target : E → K} {a b : K} :
    Edge (OrderedMap.collect (l.map fun e ↦ (source e, [target e]))) a b ↔
      ∃ e ∈ l, source e = a ∧ target e = b := by
  rw [Edge, OrderedMap.mem_setAt_collect]
  constructor
  · rintro ⟨bs, hmem, hb⟩
    obtain ⟨e, he, heq⟩ := List.mem_map.mp hmem
    obtain ⟨rfl, rfl⟩ := Prod.mk.inj heq
    exact ⟨e, he, rfl, (List.mem_singleton.mp hb).symm⟩
  · rintro ⟨e, he, rfl, rfl⟩
    exact ⟨[target e], List.mem_map.mpr ⟨e, he, rfl⟩, List.mem_singleton_self _⟩

def bump (indegree : OrderedMap K ℕ) (targets : List K) : OrderedMap K ℕ :=
  targets.foldl (fun m t ↦ match m[t]? with
    | some d => m.insert t (d + 1)
    | none => m) indegree

/-- Count one incoming edge less for each of the targets; the nodes freed by it are returned. -/
def release (indegree : OrderedMap K ℕ) (targets : List K) : OrderedMap K ℕ × List K :=
  targets.foldl (fun s t ↦ match s.1[t]? with
    | some (d + 1) => (s.1.insert t d, if d = 0 then s.2 ++ [t] else s.2)
    | _ => s) (indegree, [])

/-- Peel nodes off the front of the queue. The removed nodes come last first. -/
def peel (adj : Adjacency K) : ℕ → OrderedMap K ℕ → List K → List K → List K
  | fuel + 1, indegree, n :: queue, removed =>
    let released := release indegree (adj.setAt n).toList
    peel adj fuel released.1 (queue ++ released.2) (n :: removed)
  | _, _, _, removed => removed

def indegrees (adj : Adjacency K) (nodes : OrderedSet K) : OrderedMap K ℕ :=
  bump (.insertEntries ∅ (nodes.toList.map fun n ↦ (n, 0))) (adj.toList.flatMap (·.2.toList))

def peeled (adj : Adjacency K) (nodes : OrderedSet K) : List K :=
  let indegree := indegrees adj nodes
  let queue := (indegree.toList.filter (·.2 = 0)).map Prod.fst
  peel adj nodes.size indegree queue []

def leftover [DecidableEq K] (adj : Adjacency K) (nodes : OrderedSet K) : List K :=
  let removed := peeled adj nodes
  nodes.toList.filter (· ∉ removed)

def sort [DecidableEq K] (adj : Adjacency K) (nodes : OrderedSet K) : Option (List K) :=
  match leftover adj nodes with
  | [] => some (peeled adj nodes).reverse
  | _ => none

/-! ## Counting -/

open Classical in
private theorem length_filter_cons [DecidableEq K] {l : List (K × OrderedSet K)}
    (hl : (l.map Prod.fst).Nodup) {n t : K} (hn : n ∉ removed) :
    (l.filter fun e ↦ e.1 ∉ n :: removed ∧ t ∈ e.2).length +
        (if ∃ s, (n, s) ∈ l ∧ t ∈ s then 1 else 0) =
      (l.filter fun e ↦ e.1 ∉ removed ∧ t ∈ e.2).length := by
  induction l with
  | nil => simp
  | cons e l ih =>
    obtain ⟨m, s⟩ := e
    obtain ⟨hm, hl⟩ := List.nodup_cons.mp hl
    have ih := ih hl
    by_cases hmn : m = n
    · subst hmn
      -- the other entries have other keys
      have hnone : ¬ ∃ s, (m, s) ∈ l ∧ t ∈ s := by
        rintro ⟨s', hs', -⟩
        exact hm (List.mem_map.mpr ⟨_, hs', rfl⟩)
      rw [if_neg hnone] at ih
      have hsome : (∃ s', (m, s') ∈ (m, s) :: l ∧ t ∈ s') ↔ t ∈ s := by
        constructor
        · rintro ⟨s', hs', ht⟩
          rcases List.mem_cons.mp hs' with heq | hs'
          · exact (Prod.mk.inj heq).2 ▸ ht
          · exact absurd ⟨s', hs', ht⟩ hnone
        · exact fun ht ↦ ⟨s, List.mem_cons_self, ht⟩
      by_cases ht : t ∈ s
      · rw [if_pos (hsome.mpr ht)]
        simp [hn, ht] at ih ⊢
        omega
      · rw [if_neg (hsome.not.mpr ht)]
        simp [ht] at ih ⊢
        omega
    · have hsome : (∃ s', (n, s') ∈ (m, s) :: l ∧ t ∈ s') ↔ ∃ s', (n, s') ∈ l ∧ t ∈ s' := by
        simp [Ne.symm hmn]
      simp only [hsome]
      by_cases hkeep : m ∉ removed ∧ t ∈ s
      · simp [hmn, hkeep] at ih ⊢
        omega
      · have hdrop : ¬ (m ∉ n :: removed ∧ t ∈ s) := by
          rintro ⟨h, ht⟩
          exact hkeep ⟨fun h' ↦ h (List.mem_cons_of_mem _ h'), ht⟩
        rw [List.filter_cons_of_neg (by simpa using hdrop),
          List.filter_cons_of_neg (by simpa using hkeep)]
        exact ih

section Counting

variable [Std.LawfulEqOrd K] {adj : Adjacency K}

theorem edge_iff {a b : K} :
    Edge adj a b ↔ ∃ s, (a, s) ∈ adj.toList ∧ b ∈ s := by
  rw [Edge, OrderedMap.setAt]
  simp only [OrderedMap.mem_toList]
  rcases adj[a]? with _ | s
  · simp
  · simp

variable [DecidableEq K]

def waitingFor (adj : Adjacency K) (removed : List K) (t : K) : ℕ :=
  (adj.toList.filter fun e ↦ e.1 ∉ removed ∧ t ∈ e.2).length

theorem waitingFor_eq_zero_iff {t : K} :
    waitingFor adj removed t = 0 ↔ ∀ s, Edge adj s t → s ∈ removed := by
  rw [waitingFor, List.length_eq_zero_iff, List.filter_eq_nil_iff]
  constructor
  · intro h s hs
    obtain ⟨ts, hmem, ht⟩ := edge_iff.mp hs
    by_contra hnot
    exact h (s, ts) hmem (decide_eq_true ⟨hnot, ht⟩)
  · rintro h ⟨s, ts⟩ hmem hboth
    obtain ⟨hnot, ht⟩ := of_decide_eq_true hboth
    exact hnot (h s (edge_iff.mpr ⟨ts, hmem, ht⟩))

theorem waitingFor_cons {n t : K} (hn : n ∉ removed) :
    waitingFor adj (n :: removed) t + (if t ∈ adj.setAt n then 1 else 0) =
      waitingFor adj removed t := by
  have hkeys : (adj.toList.map Prod.fst).Nodup := by
    rw [Std.ExtTreeMap.map_fst_toList_eq_keys]
    exact Std.ExtTreeMap.nodup_keys
  classical
  rw [waitingFor, waitingFor, ← length_filter_cons hkeys hn]
  congr 1
  exact if_congr edge_iff rfl rfl

theorem getElem?_bump (indegree : OrderedMap K ℕ) (targets : List K) (t : K) :
    (bump indegree targets)[t]? = indegree[t]?.map (· + targets.count t) := by
  unfold bump
  induction targets generalizing indegree with
  | nil => simp
  | cons a targets ih =>
    rw [List.foldl_cons, ih]
    rcases ha : indegree[a]? with _ | d
    · by_cases hta : t = a
      · subst hta
        simp [ha]
      · simp [List.count_cons_of_ne (Ne.symm hta)]
    · by_cases hta : t = a
      · subst hta
        simp [ha]
        omega
      · simp [hta, List.count_cons_of_ne (Ne.symm hta)]

def releaseOne (s : OrderedMap K ℕ × List K) (t : K) : OrderedMap K ℕ × List K :=
  match s.1[t]? with
  | some (d + 1) => (s.1.insert t d, if d = 0 then s.2 ++ [t] else s.2)
  | _ => s

theorem releaseOne_fst (s : OrderedMap K ℕ × List K) (a t : K) :
    (releaseOne s a).1[t]? = if t = a then s.1[t]?.map (· - 1) else s.1[t]? := by
  rw [releaseOne]
  rcases hd : s.1[a]? with _ | _ | d
  all_goals
    by_cases hta : t = a
    · subst hta
      simp [hd]
    · simp [hta]

omit [Std.LawfulEqOrd K] [DecidableEq K] in
theorem releaseOne_snd (s : OrderedMap K ℕ × List K) (a : K) :
    (releaseOne s a).2 = s.2 ++ if s.1[a]? = some 1 then [a] else [] := by
  rw [releaseOne]
  rcases hd : s.1[a]? with _ | _ | d
  · simp
  · simp
  · by_cases h0 : d = 0 <;> simp [h0]

theorem foldl_releaseOne (s : OrderedMap K ℕ × List K) {targets : List K} (h : targets.Nodup) :
    (∀ t : K, (targets.foldl releaseOne s).1[t]? =
      if t ∈ targets then s.1[t]?.map (· - 1) else s.1[t]?) ∧
    (targets.foldl releaseOne s).2 = s.2 ++ targets.filter (s.1[·]? = some 1) := by
  induction targets generalizing s with
  | nil => simp
  | cons a targets ih =>
    obtain ⟨ha, h⟩ := List.nodup_cons.mp h
    obtain ⟨hcount, hfreed⟩ := ih (releaseOne s a) h
    rw [List.foldl_cons]
    refine ⟨fun t ↦ ?_, ?_⟩
    · rw [hcount, releaseOne_fst]
      by_cases hta : t = a
      · subst hta
        simp [ha]
      · simp [hta]
    · -- The later targets are others, so their counts are as before.
      have hfilter : targets.filter ((releaseOne s a).1[·]? = some 1) =
          targets.filter (s.1[·]? = some 1) := by
        refine List.filter_congr fun t ht ↦ ?_
        have hta : t ≠ a := fun heq ↦ ha (heq ▸ ht)
        rw [releaseOne_fst, if_neg hta]
      rw [hfreed, releaseOne_snd, hfilter, List.filter_cons, List.append_assoc]
      by_cases hone : s.1[a]? = some 1 <;> simp [hone]

theorem release_eq (indegree : OrderedMap K ℕ) {targets : List K} (h : targets.Nodup) :
    (∀ t : K, (release indegree targets).1[t]? =
      if t ∈ targets then indegree[t]?.map (· - 1) else indegree[t]?) ∧
    (release indegree targets).2 = targets.filter (indegree[·]? = some 1) := by
  obtain ⟨hcount, hfreed⟩ := foldl_releaseOne (indegree, []) h
  exact ⟨hcount, hfreed⟩

/-! ## The invariant of the loop -/

variable {adj : Adjacency K} {nodes : OrderedSet K}

def Peeled (adj : Adjacency K) : List K → Prop
  | [] => True
  | n :: removed => (∀ s, Edge adj s n → s ∈ removed) ∧ Peeled adj removed

omit [Std.LawfulEqOrd K] [DecidableEq K] in
theorem Peeled.closed (h : Peeled adj removed) {x y : K} (hy : y ∈ removed)
    (hxy : Relation.ReflTransGen (Edge adj) x y) : x ∈ removed := by
  have hstep : ∀ b ∈ removed, ∀ a, Edge adj a b → a ∈ removed := by
    clear hy hxy
    induction removed with
    | nil => simp
    | cons n removed ih =>
      intro b hb a hab
      rcases List.mem_cons.mp hb with rfl | hb
      · exact List.mem_cons_of_mem _ (h.1 a hab)
      · exact List.mem_cons_of_mem _ (ih h.2 b hb a hab)
  induction hxy using Relation.ReflTransGen.head_induction_on with
  | refl => exact hy
  | head hab _ ih => exact hstep _ ih _ hab

omit [Std.LawfulEqOrd K] [DecidableEq K] in
theorem Peeled.not_cycle (h : Peeled adj removed) (hnodup : removed.Nodup)
    {x : K} (hx : x ∈ removed) : ¬ Relation.TransGen (Edge adj) x x := by
  induction removed with
  | nil => simp at hx
  | cons n removed ih =>
    obtain ⟨hn, hnodup⟩ := List.nodup_cons.mp hnodup
    rcases List.mem_cons.mp hx with rfl | hx
    · intro hcycle
      -- the last edge of the cycle leaves a node removed earlier
      obtain ⟨s, hxs, hs⟩ := Relation.TransGen.tail'_iff.mp hcycle
      exact hn (h.2.closed (h.1 s hs) hxs)
    · exact ih h.2 hnodup hx

structure LoopInv (adj : Adjacency K) (nodes : OrderedSet K) (indegree : OrderedMap K ℕ)
    (queue removed : List K) : Prop where
  counts : ∀ t : K, indegree[t]? = if t ∈ nodes then some (waitingFor adj removed t) else none
  nodup : (queue ++ removed).Nodup
  subset : ∀ t ∈ queue ++ removed, t ∈ nodes
  free : ∀ t ∈ nodes, waitingFor adj removed t = 0 ↔ t ∈ queue ++ removed
  peeled : Peeled adj removed

/-- **One turn of the loop** removes the front of the queue and queues the nodes it frees. -/
theorem LoopInv.step {indegree : OrderedMap K ℕ} {n : K} {queue removed : List K}
    (h : LoopInv adj nodes indegree (n :: queue) removed) :
    LoopInv adj nodes (release indegree (adj.setAt n).toList).1
      (queue ++ (release indegree (adj.setAt n).toList).2) (n :: removed) := by
  have htargets := OrderedSet.nodup_toList (adj.setAt n)
  obtain ⟨hcount, hfreed⟩ := release_eq indegree htargets
  have hnq : n ∉ queue ++ removed := (List.nodup_cons.mp h.nodup).1
  have hnr : n ∉ removed := fun hn ↦ hnq (List.mem_append_right _ hn)
  have hnodes : n ∈ nodes := h.subset n List.mem_cons_self
  have hwait (t : K) : waitingFor adj (n :: removed) t + (if t ∈ adj.setAt n then 1 else 0) =
      waitingFor adj removed t := waitingFor_cons hnr
  -- a node is freed when it waited for the front of the queue only
  have hmem (t : K) : t ∈ (release indegree (adj.setAt n).toList).2 ↔
      t ∈ adj.setAt n ∧ t ∈ nodes ∧ waitingFor adj removed t = 1 := by
    rw [hfreed, List.mem_filter, Std.ExtTreeSet.mem_toList, h.counts]
    by_cases ht : t ∈ nodes
    · simp [ht]
    · simp [ht]
  have hfresh : ∀ t ∈ (release indegree (adj.setAt n).toList).2, t ∉ n :: queue ++ removed := by
    intro t ht hqueued
    obtain ⟨-, htn, hone⟩ := (hmem t).mp ht
    have := (h.free t htn).mpr hqueued
    omega
  have hfreednodup : (release indegree (adj.setAt n).toList).2.Nodup := by
    rw [hfreed]
    exact htargets.filter _
  have hperm : (queue ++ (release indegree (adj.setAt n).toList).2 ++ n :: removed).Perm
      ((n :: queue ++ removed) ++ (release indegree (adj.setAt n).toList).2) := by
    rw [List.append_assoc, List.cons_append, List.cons_append, List.append_assoc]
    refine (List.perm_append_comm.append_left queue).trans ?_
    exact List.perm_middle
  refine ⟨fun t ↦ ?_, ?_, fun t ht ↦ ?_, fun t ht ↦ ?_, ?_, h.peeled⟩
  · -- the targets of the removed node have one edge less
    rw [hcount, h.counts]
    simp only [Std.ExtTreeSet.mem_toList]
    have := hwait t
    by_cases ht : t ∈ nodes
    · by_cases hnt : t ∈ adj.setAt n
      · simp [ht, hnt] at this ⊢
        omega
      · simpa [ht, hnt] using this.symm
    · simp [ht]
  · rw [hperm.nodup_iff, List.nodup_append]
    exact ⟨h.nodup, hfreednodup, fun a ha b hb hab ↦ hfresh b hb (hab ▸ ha)⟩
  · rcases List.mem_append.mp (hperm.mem_iff.mp ht) with ht | ht
    · exact h.subset t ht
    · exact ((hmem t).mp ht).2.1
  · rw [hperm.mem_iff, List.mem_append, hmem, ← h.free t ht]
    have := hwait t
    by_cases hnt : t ∈ adj.setAt n
    · simp [ht, hnt] at this ⊢
      omega
    · simp [hnt] at this ⊢
      omega
  · exact fun s hs ↦ waitingFor_eq_zero_iff.mp ((h.free n hnodes).mpr List.mem_cons_self) s hs

/-- **The loop runs to its end**: it removes all nodes that come free. -/
theorem LoopInv.peel {fuel : ℕ} {indegree : OrderedMap K ℕ} {queue removed : List K}
    (h : LoopInv adj nodes indegree queue removed) (hfuel : nodes.size ≤ fuel + removed.length) :
    ∃ indegree', LoopInv adj nodes indegree' [] (Kahn.peel adj fuel indegree queue removed) := by
  induction fuel generalizing indegree queue removed with
  | zero =>
    have hle : (queue ++ removed).length ≤ nodes.size := by
      rw [← Std.ExtTreeSet.length_toList]
      refine (List.subperm_of_subset h.nodup fun t ht ↦ ?_).length_le
      exact Std.ExtTreeSet.mem_toList.mpr (h.subset t ht)
    have hqueue : queue = [] := by
      rw [List.length_append] at hle
      exact List.length_eq_zero_iff.mp (by omega)
    subst hqueue
    exact ⟨indegree, h⟩
  | succ fuel ih =>
    rcases queue with _ | ⟨n, queue⟩
    · exact ⟨indegree, h⟩
    · rw [Kahn.peel]
      refine ih h.step ?_
      rw [List.length_cons]
      omega

private theorem count_targets (l : List (K × OrderedSet K)) (t : K) :
    (l.flatMap (·.2.toList)).count t = (l.filter fun e ↦ t ∈ e.2).length := by
  induction l with
  | nil => rfl
  | cons e l ih =>
    rw [List.flatMap_cons, List.count_append, ih, List.filter_cons]
    by_cases ht : t ∈ e.2
    · have hone : e.2.toList.count t = 1 :=
        List.count_eq_one_of_mem (OrderedSet.nodup_toList e.2) (Std.ExtTreeSet.mem_toList.mpr ht)
      rw [hone, if_pos (decide_eq_true ht), List.length_cons, Nat.add_comm]
    · have hnone : e.2.toList.count t = 0 :=
        List.count_eq_zero_of_not_mem fun h ↦ ht (Std.ExtTreeSet.mem_toList.mp h)
      rw [hnone, if_neg (by simpa using ht), Nat.zero_add]

theorem getElem?_indegrees (adj : Adjacency K) (nodes : OrderedSet K) (t : K) :
    (indegrees adj nodes)[t]? = if t ∈ nodes then some (waitingFor adj [] t) else none := by
  have hzero : (OrderedMap.insertEntries ∅ (nodes.toList.map fun n ↦ (n, 0)))[t]? =
      if t ∈ nodes then some 0 else none := by
    by_cases ht : t ∈ nodes
    · rw [if_pos ht]
      refine OrderedMap.getElem?_insertEntries_of_mem (fun w hw ↦ ?_) ?_ _
      · obtain ⟨n, -, heq⟩ := List.mem_map.mp hw
        exact (Prod.mk.inj heq).2.symm
      · exact List.mem_map.mpr ⟨t, Std.ExtTreeSet.mem_toList.mpr ht, rfl⟩
    · rw [if_neg ht, OrderedMap.getElem?_insertEntries_of_not_mem]
      · simp
      · intro v hv
        obtain ⟨n, hn, heq⟩ := List.mem_map.mp hv
        exact ht ((Prod.mk.inj heq).1 ▸ Std.ExtTreeSet.mem_toList.mp hn)
  rw [indegrees, getElem?_bump, hzero, count_targets]
  by_cases ht : t ∈ nodes
  · simp [ht, waitingFor]
  · simp [ht]

theorem LoopInv.start (adj : Adjacency K) (nodes : OrderedSet K) :
    LoopInv adj nodes (indegrees adj nodes)
      (((indegrees adj nodes).toList.filter (·.2 = 0)).map Prod.fst) [] := by
  have hmem (t : K) : t ∈ ((indegrees adj nodes).toList.filter (·.2 = 0)).map Prod.fst ↔
      t ∈ nodes ∧ waitingFor adj [] t = 0 := by
    constructor
    · intro h
      obtain ⟨⟨k, d⟩, hkd, rfl⟩ := List.mem_map.mp h
      obtain ⟨hkd, hzero⟩ := List.mem_filter.mp hkd
      rw [OrderedMap.mem_toList, getElem?_indegrees] at hkd
      split_ifs at hkd with hk
      · exact ⟨hk, (Option.some_inj.mp hkd).trans (of_decide_eq_true hzero)⟩
    · rintro ⟨ht, hzero⟩
      refine List.mem_map.mpr ⟨(t, 0), List.mem_filter.mpr ⟨?_, rfl⟩, rfl⟩
      rw [OrderedMap.mem_toList, getElem?_indegrees, if_pos ht, hzero]
  refine ⟨getElem?_indegrees adj nodes, ?_, fun t ht ↦ ?_, fun t ht ↦ ?_, trivial⟩
  · rw [List.append_nil]
    refine List.Nodup.sublist (List.filter_sublist.map Prod.fst) ?_
    rw [Std.ExtTreeMap.map_fst_toList_eq_keys]
    exact Std.ExtTreeMap.nodup_keys
  · rw [List.append_nil] at ht
    exact ((hmem t).mp ht).1
  · rw [List.append_nil, hmem]
    exact (and_iff_right ht).symm

theorem loopInv_peeled (adj : Adjacency K) (nodes : OrderedSet K) :
    ∃ indegree, LoopInv adj nodes indegree [] (Kahn.peeled adj nodes) :=
  (LoopInv.start adj nodes).peel (Nat.le_add_right _ _)

theorem mem_leftover_of_cycle {x : K} (hx : x ∈ nodes)
    (hcycle : Relation.TransGen (Edge adj) x x) : x ∈ leftover adj nodes := by
  obtain ⟨_, h⟩ := loopInv_peeled adj nodes
  have hnodup := h.nodup
  rw [List.nil_append] at hnodup
  rw [leftover, List.mem_filter, Std.ExtTreeSet.mem_toList]
  exact ⟨hx, decide_eq_true fun hremoved ↦ h.peeled.not_cycle hnodup hremoved hcycle⟩

section

variable (hadj : ∀ a b, Edge adj a b → a ∈ nodes)

include hadj

theorem exists_pred_of_mem_leftover {b : K}
    (hb : b ∈ leftover adj nodes) : ∃ a ∈ leftover adj nodes, Edge adj a b := by
  obtain ⟨_, h⟩ := loopInv_peeled adj nodes
  obtain ⟨hb, hnot⟩ := List.mem_filter.mp hb
  have hwaits := (h.free b (Std.ExtTreeSet.mem_toList.mp hb)).not.mpr (by simpa using hnot)
  rw [waitingFor_eq_zero_iff] at hwaits
  push Not at hwaits
  obtain ⟨a, hab, ha⟩ := hwaits
  refine ⟨a, List.mem_filter.mpr ⟨Std.ExtTreeSet.mem_toList.mpr (hadj a b hab), ?_⟩, hab⟩
  exact decide_eq_true ha

theorem exists_cycle_of_mem_leftover {x : K} (hx : x ∈ leftover adj nodes) :
    ∃ y, Relation.TransGen (Edge adj) y y ∧ Relation.ReflTransGen (Edge adj) y x :=
  exists_cycle_of_forall_exists_pred (s := {x | x ∈ leftover adj nodes}) (List.finite_toSet _)
    (fun _ hb ↦ exists_pred_of_mem_leftover hadj hb) hx

theorem leftover_eq_nil (hacyclic : Acyclic (Edge adj)) :
    leftover adj nodes = [] := by
  refine List.eq_nil_iff_forall_not_mem.mpr fun x hx ↦ ?_
  obtain ⟨y, hy, -⟩ := exists_cycle_of_mem_leftover hadj hx
  exact hacyclic y hy

end

theorem filter_leftover_eq_nil_iff {radj : Adjacency K}
    (hadj : ∀ a b, Edge adj a b → a ∈ nodes ∧ b ∈ nodes)
    (hradj : ∀ a b, Edge radj a b ↔ Edge adj b a) :
    (leftover adj nodes).filter (· ∈ leftover radj nodes) = [] ↔ Acyclic (Edge adj) := by
  constructor
  · intro hnil x hx
    obtain ⟨b, hxb, -⟩ := Relation.TransGen.head'_iff.mp hx
    have hnode := (hadj x b hxb).1
    have hback : Relation.TransGen (Edge radj) x x :=
      Relation.TransGen.mono (fun a b h ↦ (hradj a b).mpr h) _ _ (Relation.transGen_swap.mpr hx)
    exact List.filter_eq_nil_iff.mp hnil x (mem_leftover_of_cycle hnode hx)
      (decide_eq_true (mem_leftover_of_cycle hnode hback))
  · intro hacyclic
    rw [leftover_eq_nil (fun a b h ↦ (hadj a b h).1) hacyclic, List.filter_nil]

omit [Std.LawfulEqOrd K] [DecidableEq K] in
theorem Peeled.pairwise (h : Peeled adj removed) (hnodup : removed.Nodup) :
    removed.Pairwise fun x y ↦ ¬ Edge adj x y := by
  induction removed with
  | nil => exact .nil
  | cons n removed ih =>
    obtain ⟨hn, hnodup⟩ := List.nodup_cons.mp hnodup
    refine .cons (fun y hy hny ↦ ?_) (ih h.2 hnodup)
    exact hn (h.2.closed hy (.single hny))

theorem sort_eq_some {order : List K} (h : sort adj nodes = some order) :
    order.Nodup ∧ (∀ x, x ∈ order ↔ x ∈ nodes) ∧ order.Pairwise fun x y ↦ ¬ Edge adj y x := by
  obtain ⟨_, hinv⟩ := loopInv_peeled adj nodes
  have hnodup : (peeled adj nodes).Nodup := hinv.nodup
  rw [sort] at h
  split at h
  · next hnil =>
    obtain rfl := Option.some_inj.mp h
    refine ⟨List.nodup_reverse.mpr hnodup, fun x ↦ ?_, ?_⟩
    · rw [List.mem_reverse]
      refine ⟨fun hx ↦ hinv.subset x hx, fun hx ↦ ?_⟩
      have := List.filter_eq_nil_iff.mp hnil x (Std.ExtTreeSet.mem_toList.mpr hx)
      simpa using this
    · exact List.pairwise_reverse.mpr (hinv.peeled.pairwise hnodup)
  · exact nomatch h

theorem sort_eq_none_iff (hadj : ∀ a b, Edge adj a b → a ∈ nodes ∧ b ∈ nodes) :
    sort adj nodes = none ↔ ¬ Acyclic (Edge adj) := by
  constructor
  · intro h hacyclic
    rw [sort, leftover_eq_nil (fun a b hab ↦ (hadj a b hab).1) hacyclic] at h
    exact nomatch h
  · intro hcyclic
    rw [Acyclic] at hcyclic
    push Not at hcyclic
    obtain ⟨x, hx⟩ := hcyclic
    obtain ⟨b, hxb, -⟩ := Relation.TransGen.head'_iff.mp hx
    have hmem := mem_leftover_of_cycle (hadj x b hxb).1 hx
    rw [sort]
    split
    · next hnil =>
      rw [hnil] at hmem
      exact absurd hmem List.not_mem_nil
    · rfl

end Counting

end Kahn
