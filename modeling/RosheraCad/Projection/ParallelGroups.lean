import RosheraCad.Projection.FailedDependency

/-!
# Groups of events for parallel execution

A round goes through the events that remain, in order, and takes each that can be reordered with all
it took before, where neither leads to the other. In a list in topological order an event that is
left conflicts with one taken before it.
-/

namespace RosheraCad

class PathLibrary where
  hasPathConnecting {N E : Type} : DiGraph N E → ℕ → ℕ → Bool

open PathLibrary in
class LawfulPathLibrary [PathLibrary] : Prop where
  hasPathConnecting_iff {N E : Type} {g : DiGraph N E} (hg : g.WellFormed) {a b : ℕ}
    (ha : a < g.nodes.length) (hb : b < g.nodes.length) :
    hasPathConnecting g a b = true ↔ Relation.ReflTransGen g.Adj a b

namespace DependencyGraph

variable {g : DependencyGraph} {seen group rest : List EventId}

section

variable [PathLibrary] {remaining : List EventId}

open PathLibrary

def canReorder (g : DependencyGraph) (event₁ event₂ : EventId) : Bool :=
  match g.eventNodes[event₁]?, g.eventNodes[event₂]? with
  | some node₁, some node₂ =>
    !hasPathConnecting g.graph node₁ node₂ && !hasPathConnecting g.graph node₂ node₁
  | _, _ => true

def takeEvent (g : DependencyGraph) (s : List EventId × List EventId) (event : EventId) :
    List EventId × List EventId :=
  if s.1.all (g.canReorder event) then (s.1 ++ [event], s.2) else (s.1, s.2 ++ [event])

def takeGroup (g : DependencyGraph) (remaining : List EventId) : List EventId × List EventId :=
  remaining.foldl g.takeEvent ([], [])

/-- The group and the rest are what was gone through; the group can be reordered, and what is left
conflicts with it. -/
structure RoundInv (g : DependencyGraph) (seen group rest : List EventId) : Prop where
  perm : (group ++ rest).Perm seen
  group_sublist : group.Sublist seen
  rest_sublist : rest.Sublist seen
  apart : group.Pairwise fun a b ↦ g.canReorder b a = true
  conflict : ∀ b ∈ rest, ∃ a ∈ group, [a, b].Sublist seen ∧ g.canReorder b a = false

theorem RoundInv.step (h : g.RoundInv seen group rest) (event : EventId) :
    if group.all (g.canReorder event) then g.RoundInv (seen ++ [event]) (group ++ [event]) rest
    else g.RoundInv (seen ++ [event]) group (rest ++ [event]) := by
  have hkeep : ∀ b ∈ rest, ∃ a ∈ group, [a, b].Sublist (seen ++ [event]) ∧
      g.canReorder b a = false := by
    intro b hb
    obtain ⟨a, ha, hsub, hfalse⟩ := h.conflict b hb
    exact ⟨a, ha, hsub.trans (List.sublist_append_left _ _), hfalse⟩
  split_ifs with hall
  · refine ⟨?_, h.group_sublist.append (.refl _), h.rest_sublist.trans
      (List.sublist_append_left _ _), ?_, fun b hb ↦ ?_⟩
    · rw [List.append_assoc]
      refine (List.perm_append_comm.append_left group).trans ?_
      rw [← List.append_assoc]
      exact h.perm.append_right _
    · -- the event joins the group when it conflicts with none of it
      refine List.pairwise_append.mpr ⟨h.apart, List.pairwise_singleton _ _, fun a ha b hb ↦ ?_⟩
      rw [List.mem_singleton.mp hb]
      exact List.all_eq_true.mp hall a ha
    · obtain ⟨a, ha, hrest⟩ := hkeep b hb
      exact ⟨a, List.mem_append_left _ ha, hrest⟩
  · refine ⟨?_, h.group_sublist.trans (List.sublist_append_left _ _),
      h.rest_sublist.append (.refl _), h.apart, fun b hb ↦ ?_⟩
    · rw [← List.append_assoc]
      exact h.perm.append_right _
    · rcases List.mem_append.mp hb with hb | hb
      · exact hkeep b hb
      · obtain rfl := List.mem_singleton.mp hb
        -- it is left when it conflicts with one, which came before it
        rw [Bool.not_eq_true, List.all_eq_false] at hall
        obtain ⟨a, ha, hfalse⟩ := hall
        refine ⟨a, ha, ?_, by simpa using hfalse⟩
        exact (List.singleton_sublist.mpr (h.group_sublist.subset ha)).append (.refl [b])

theorem roundInv_takeGroup (g : DependencyGraph) (remaining : List EventId) :
    g.RoundInv remaining (g.takeGroup remaining).1 (g.takeGroup remaining).2 := by
  induction remaining using List.reverseRecOn with
  | nil => exact ⟨.refl _, .refl _, .refl _, .nil, nofun⟩
  | append_singleton seen event ih =>
    have hstep := ih.step event
    rw [takeGroup, List.foldl_append, List.foldl_cons, List.foldl_nil, ← takeGroup, takeEvent]
    split_ifs at hstep ⊢ with hall
    · exact hstep
    · exact hstep

theorem takeGroup_fst_ne_nil (g : DependencyGraph)
    (h : remaining ≠ []) : (g.takeGroup remaining).1 ≠ [] := by
  intro hnil
  have hinv := g.roundInv_takeGroup remaining
  rcases hrest : (g.takeGroup remaining).2 with - | ⟨b, rest⟩
  · have hperm := hinv.perm
    rw [hnil, hrest] at hperm
    exact h hperm.symm.eq_nil
  · obtain ⟨a, ha, -⟩ := hinv.conflict b (hrest ▸ List.mem_cons_self)
    rw [hnil] at ha
    cases ha

theorem length_takeGroup_snd_lt (g : DependencyGraph)
    (h : remaining ≠ []) : (g.takeGroup remaining).2.length < remaining.length := by
  have hlen := (g.roundInv_takeGroup remaining).perm.length_eq
  have hpos := List.length_pos_iff.mpr (g.takeGroup_fst_ne_nil h)
  rw [List.length_append] at hlen
  omega

/-- Independent event groups that can be executed in parallel: rounds, until nothing remains. -/
def getParallelGroups (g : DependencyGraph) (remaining : List EventId) : List (List EventId) :=
  if h : remaining = [] then []
  else
    have : (g.takeGroup remaining).2.length < remaining.length := g.length_takeGroup_snd_lt h
    if (g.takeGroup remaining).1.isEmpty then g.getParallelGroups (g.takeGroup remaining).2
    else (g.takeGroup remaining).1 :: g.getParallelGroups (g.takeGroup remaining).2
termination_by remaining.length

theorem getParallelGroups_nil (g : DependencyGraph) : g.getParallelGroups [] = [] := by
  rw [getParallelGroups, dif_pos rfl]

theorem getParallelGroups_of_ne_nil (g : DependencyGraph)
    (h : remaining ≠ []) : g.getParallelGroups remaining =
      (g.takeGroup remaining).1 :: g.getParallelGroups (g.takeGroup remaining).2 := by
  have hne : ¬ (g.takeGroup remaining).1.isEmpty := by
    rw [List.isEmpty_iff]
    exact g.takeGroup_fst_ne_nil h
  rw [getParallelGroups, dif_neg h]
  exact if_neg hne

end

/-! ## Order -/

def DependsOn (g : DependencyGraph) (b a : EventId) : Prop :=
  ∃ i j, g.eventNodes[a]? = some i ∧ g.eventNodes[b]? = some j ∧
    Relation.TransGen g.graph.Adj i j

/-- No event depends on a later one. -/
def TopologicallyOrdered (g : DependencyGraph) (events : List EventId) : Prop :=
  events.Pairwise fun a b ↦ ¬ g.DependsOn a b

section

variable [PathLibrary] [LawfulPathLibrary] {a b : EventId}

theorem Sound.canReorder_iff (h : g.Sound) :
    g.canReorder a b = true ↔ ¬ g.Leads a b ∧ ¬ g.Leads b a := by
  rw [canReorder, Leads, Leads]
  rcases ha : g.eventNodes[a]? with - | i
  · simp
  rcases hb : g.eventNodes[b]? with - | j
  · simp
  have hi := h.nodes a i ha
  have hj := h.nodes b j hb
  have hij := (LawfulPathLibrary.hasPathConnecting_iff h.wellFormed hi hj).not
  have hji := (LawfulPathLibrary.hasPathConnecting_iff h.wellFormed hj hi).not
  simp only [Bool.not_eq_true] at hij hji
  simp [hij, hji]

omit [PathLibrary] [LawfulPathLibrary] in
theorem DependsOn.leads (h : g.DependsOn b a) :
    g.Leads a b := by
  obtain ⟨i, j, hi, hj, hpath⟩ := h
  exact ⟨i, j, hi, hj, hpath.to_reflTransGen⟩

omit [PathLibrary] [LawfulPathLibrary] in
theorem Leads.trans_dependsOn {a b c : EventId} (h : g.Leads a b)
    (hc : g.DependsOn c b) : g.DependsOn c a := by
  obtain ⟨i, j, hi, hj, hpath⟩ := h
  obtain ⟨j', k, hj', hk, hpath'⟩ := hc
  cases hj.symm.trans hj'
  exact ⟨i, k, hi, hk, .trans_right hpath hpath'⟩

theorem Sound.leads_of_conflict (h : g.Sound)
    (horder : ¬ g.DependsOn a b) (hconflict : g.canReorder b a = false) : g.Leads a b := by
  have hnot := h.canReorder_iff.not.mp (Bool.not_eq_true _ ▸ hconflict)
  rw [not_and_or, not_not, not_not] at hnot
  rcases hnot with ⟨j, i, hj, hi, hpath⟩ | hleads
  · rcases Relation.reflTransGen_iff_eq_or_transGen.mp hpath with rfl | hpath
    · exact ⟨_, _, hi, hj, .refl⟩
    · exact absurd ⟨j, i, hj, hi, hpath⟩ horder
  · exact hleads

theorem RoundInv.not_dependsOn (hg : g.Sound) (h : g.RoundInv seen group rest)
    (ha : a ∈ group) (hb : b ∈ group) : ¬ g.DependsOn b a := by
  intro hdepends
  by_cases hab : a = b
  · subst hab
    obtain ⟨i, j, hi, hj, hpath⟩ := hdepends
    cases hi.symm.trans hj
    exact hg.acyclic i hpath
  · let : Std.Symm fun a b ↦ ¬ g.Leads a b ∧ ¬ g.Leads b a := ⟨fun _ _ h ↦ h.symm⟩
    have hapart : group.Pairwise fun a b ↦ ¬ g.Leads a b ∧ ¬ g.Leads b a :=
      h.apart.imp fun h ↦ (hg.canReorder_iff.mp h).symm
    exact (hapart.forall ha hb hab).1 hdepends.leads

theorem RoundInv.not_dependsOn_rest (hg : g.Sound) (h : g.RoundInv seen group rest)
    (horder : g.TopologicallyOrdered seen) {b c : EventId} (hb : b ∈ rest) (hc : c ∈ group) :
    ¬ g.DependsOn c b := by
  intro hdepends
  obtain ⟨a, ha, hsub, hconflict⟩ := h.conflict b hb
  have hleads : g.Leads a b :=
    hg.leads_of_conflict (List.pairwise_iff_forall_sublist.mp horder hsub) hconflict
  exact h.not_dependsOn hg ha hc (hleads.trans_dependsOn hdepends)

theorem Sound.getParallelGroups_ordered (h : g.Sound) {events : List EventId}
    (horder : g.TopologicallyOrdered events) :
    (g.getParallelGroups events).flatten.Perm events ∧
      (∀ group ∈ g.getParallelGroups events, group ≠ [] ∧
        ∀ a ∈ group, ∀ b ∈ group, ¬ g.DependsOn b a) ∧
      (g.getParallelGroups events).Pairwise fun earlier later ↦
        ∀ a ∈ later, ∀ b ∈ earlier, ¬ g.DependsOn b a := by
  induction hlen : events.length using Nat.strong_induction_on generalizing events with
  | _ n ih =>
    subst hlen
    by_cases hnil : events = []
    · subst hnil
      rw [getParallelGroups_nil]
      exact ⟨.refl _, nofun, .nil⟩
    have hinv := g.roundInv_takeGroup events
    obtain ⟨hperm, hgroups, hpairs⟩ := ih _ (g.length_takeGroup_snd_lt hnil)
      (horder.sublist hinv.rest_sublist) rfl
    rw [g.getParallelGroups_of_ne_nil hnil]
    refine ⟨?_, List.forall_mem_cons.mpr ⟨⟨g.takeGroup_fst_ne_nil hnil,
      fun a ha b hb ↦ hinv.not_dependsOn h ha hb⟩, hgroups⟩, List.pairwise_cons.mpr ⟨?_, hpairs⟩⟩
    · rw [List.flatten_cons]
      exact (hperm.append_left _).trans hinv.perm
    · intro later hlater a ha b hb
      have hrest := hperm.mem_iff.mp (List.mem_flatten.mpr ⟨later, hlater, ha⟩)
      exact hinv.not_dependsOn_rest h horder hrest hb

end

end DependencyGraph

@[reducible] def searchPaths : PathLibrary where
  hasPathConnecting g a b :=
    let next := fun n ↦ (g.incident n .outgoing).map (·.target)
    decide (b ∈ Search.visit next (1 + ((List.range g.nodes.length).flatMap next).length) [] [a])

theorem searchPaths_lawful : @LawfulPathLibrary searchPaths := by
  let _ : PathLibrary := searchPaths
  refine ⟨fun {N E g} hg {a b} ha hb ↦ ?_⟩
  have hstep : Search.Step (fun n ↦ (g.incident n .outgoing).map (·.target)) = g.Adj := by
    funext a b
    rw [Search.Step, List.mem_map, DiGraph.Adj, eq_iff_iff]
    simp only [DiGraph.incident, List.mem_filter, decide_eq_true_iff, and_assoc]
  rw [PathLibrary.hasPathConnecting, decide_eq_true_iff,
    (Search.visit_spec (List.range g.nodes.length) (fun c hc ↦ ?_) le_rfl).2, hstep]
  rw [hstep] at hc
  rw [List.mem_range]
  rcases Relation.ReflTransGen.cases_tail hc with rfl | ⟨d, -, e, he, -, rfl⟩
  · exact ha
  · exact (hg e he).2

namespace DependencyGraph

end DependencyGraph

end RosheraCad
