import Mathlib.Algebra.Order.BigOperators.Group.List
import Mathlib.Algebra.Order.Group.Nat
import Mathlib.Data.List.Dedup

/-!
# Search

An element taken from the front of a list is visited once, and its successors are put behind the
others, which makes the search breadth-first, or before them, which makes it depth-first. Enough
fuel is one for the start and one for each successor of an element that may be visited.
-/

namespace Search

variable {α : Type*} [DecidableEq α]

def visit (next : α → List α) : ℕ → List α → List α → List α
  | fuel + 1, visited, current :: queue =>
    if current ∈ visited then visit next fuel visited queue
    else visit next fuel (visited ++ [current]) (queue ++ next current)
  | _, visited, _ => visited

variable {next : α → List α} {support visited queue stack listed : List α} {current : α} {fuel : ℕ}

abbrev Step (next : α → List α) (a b : α) : Prop := b ∈ next a

/-- No element is visited twice, successors are visited or queued, and all are reached from the
start. -/
structure Inv (next : α → List α) (start : α) (visited queue : List α) : Prop where
  nodup : visited.Nodup
  start_mem : start ∈ visited ∨ start ∈ queue
  closed : ∀ a ∈ visited, ∀ b ∈ next a, b ∈ visited ∨ b ∈ queue
  reached : ∀ a ∈ visited ++ queue, Relation.ReflTransGen (Step next) start a

omit [DecidableEq α] in
theorem Inv.skip {start current : α}
    (h : Inv next start visited (current :: queue)) (hcurrent : current ∈ visited) :
    Inv next start visited queue := by
  have hdrop {b : α} (hb : b ∈ visited ∨ b ∈ current :: queue) : b ∈ visited ∨ b ∈ queue := by
    rcases hb with hb | hb
    · exact Or.inl hb
    · rcases List.mem_cons.mp hb with rfl | hb
      · exact Or.inl hcurrent
      · exact Or.inr hb
  refine ⟨h.nodup, hdrop h.start_mem, fun a ha b hb ↦ hdrop (h.closed a ha b hb), fun a ha ↦ ?_⟩
  refine h.reached a ?_
  rcases List.mem_append.mp ha with ha | ha
  · exact List.mem_append_left _ ha
  · exact List.mem_append_right _ (List.mem_cons_of_mem _ ha)

omit [DecidableEq α] in
theorem Inv.step {start current : α}
    (h : Inv next start visited (current :: queue)) (hcurrent : current ∉ visited) :
    Inv next start (visited ++ [current]) (queue ++ next current) := by
  have hkeep {b : α} (hb : b ∈ visited ∨ b ∈ current :: queue) :
      b ∈ visited ++ [current] ∨ b ∈ queue ++ next current := by
    rcases hb with hb | hb
    · exact Or.inl (List.mem_append_left _ hb)
    · rcases List.mem_cons.mp hb with rfl | hb
      · exact Or.inl (List.mem_append_right _ (List.mem_singleton_self _))
      · exact Or.inr (List.mem_append_left _ hb)
  have hreached := h.reached current (List.mem_append_right _ List.mem_cons_self)
  refine ⟨?_, hkeep h.start_mem, fun a ha b hb ↦ ?_, fun a ha ↦ ?_⟩
  · exact h.nodup.append (List.nodup_singleton _) (List.disjoint_singleton.mpr hcurrent)
  · rcases List.mem_append.mp ha with ha | ha
    · exact hkeep (h.closed a ha b hb)
    · obtain rfl := List.mem_singleton.mp ha
      exact Or.inr (List.mem_append_right _ hb)
  · rcases List.mem_append.mp ha with ha | ha
    · rcases List.mem_append.mp ha with ha | ha
      · exact h.reached a (List.mem_append_left _ ha)
      · obtain rfl := List.mem_singleton.mp ha
        exact hreached
    · rcases List.mem_append.mp ha with ha | ha
      · exact h.reached a (List.mem_append_right _ (List.mem_cons_of_mem _ ha))
      · exact hreached.tail ha

def pending (next : α → List α) (support visited : List α) : List α :=
  (support.filter (· ∉ visited)).flatMap next

theorem length_pending_step {support visited : List α} (hmem : current ∈ support)
    (hcurrent : current ∉ visited) :
    (pending next support (visited ++ [current])).length + (next current).length ≤
      (pending next support visited).length := by
  have hcount : (pending next support (visited ++ [current])).length +
      (if current ∈ support then (next current).length else 0) ≤
        (pending next support visited).length := by
    clear hmem
    induction support with
    | nil => simp [pending]
    | cons a support ih =>
      simp only [pending] at ih ⊢
      by_cases ha : a = current
      · subst ha
        simp [hcurrent] at ih ⊢
        split_ifs at ih <;> omega
      · by_cases hv : a ∈ visited
        · simpa [hv, Ne.symm ha] using ih
        · simp [hv, ha, Ne.symm ha] at ih ⊢
          omega
  rwa [if_pos hmem] at hcount

theorem Inv.length_step_le {start current : α}
    (hsupport : ∀ a, Relation.ReflTransGen (Step next) start a → a ∈ support)
    (h : Inv next start visited (current :: queue))
    (hcurrent : current ∉ visited)
    (hfuel : (current :: queue).length + (pending next support visited).length ≤ fuel + 1) :
    queue.length + (next current).length +
      (pending next support (visited ++ [current])).length ≤ fuel := by
  have hmem := hsupport current (h.reached current (List.mem_append_right _ List.mem_cons_self))
  have hpending : (pending next support (visited ++ [current])).length + (next current).length ≤
      (pending next support visited).length := length_pending_step hmem hcurrent
  rw [List.length_cons] at hfuel
  omega

/-- **With enough fuel the queue runs empty**, in a loop that queues no more than the successors. -/
theorem Inv.run {start : α} {loop : ℕ → List α → List α → List α}
    (hend : ∀ fuel visited, loop fuel visited [] = visited)
    (hskip : ∀ fuel visited current queue, current ∈ visited →
      loop (fuel + 1) visited (current :: queue) = loop fuel visited queue)
    (hvisit : ∀ fuel visited current queue, current ∉ visited →
      Inv next start visited (current :: queue) → ∃ queue',
        loop (fuel + 1) visited (current :: queue) = loop fuel (visited ++ [current]) queue' ∧
        Inv next start (visited ++ [current]) queue' ∧
        queue'.length ≤ queue.length + (next current).length)
    (hsupport : ∀ a, Relation.ReflTransGen (Step next) start a → a ∈ support)
    (h : Inv next start visited queue)
    (hfuel : queue.length + (pending next support visited).length ≤ fuel) :
    Inv next start (loop fuel visited queue) [] := by
  induction fuel generalizing visited queue with
  | zero =>
    obtain rfl : queue = [] := List.length_eq_zero_iff.mp (by omega)
    rwa [hend]
  | succ fuel ih =>
    rcases queue with _ | ⟨current, queue⟩
    · rwa [hend]
    · by_cases hcurrent : current ∈ visited
      · rw [hskip fuel visited current queue hcurrent]
        refine ih (h.skip hcurrent) ?_
        rw [List.length_cons] at hfuel
        omega
      · obtain ⟨queue', hloop, hinv, hle⟩ := hvisit fuel visited current queue hcurrent h
        rw [hloop]
        exact ih hinv ((Nat.add_le_add_right hle _).trans
          (h.length_step_le hsupport hcurrent hfuel))

theorem Inv.visit {start : α}
    (hsupport : ∀ a, Relation.ReflTransGen (Step next) start a → a ∈ support)
    (h : Inv next start visited queue)
    (hfuel : queue.length + (pending next support visited).length ≤ fuel) :
    Inv next start (Search.visit next fuel visited queue) [] :=
  h.run (fun fuel _ ↦ by cases fuel <;> rfl) (fun _ _ _ _ hcurrent ↦ if_pos hcurrent)
    (fun _ _ _ _ hcurrent h ↦ ⟨_, if_neg hcurrent, h.step hcurrent, List.length_append.le⟩)
    hsupport hfuel

omit [DecidableEq α] in
theorem Inv.start (start : α) : Inv next start [] [start] := by
  refine ⟨List.nodup_nil, Or.inr (List.mem_singleton_self _), by simp, fun a ha ↦ ?_⟩
  obtain rfl := List.mem_singleton.mp ha
  exact .refl

omit [DecidableEq α] in
theorem Inv.spec {start : α} {visited : List α} (h : Inv next start visited []) :
    visited.Nodup ∧ ∀ a, a ∈ visited ↔ Relation.ReflTransGen (Step next) start a := by
  refine ⟨h.nodup, fun a ↦ ⟨fun ha ↦ h.reached a (List.mem_append_left _ ha), fun ha ↦ ?_⟩⟩
  induction ha with
  | refl => simpa using h.start_mem
  | tail _ hab ih => simpa using h.closed _ ih _ hab

theorem visit_spec {start : α} (support : List α)
    (hsupport : ∀ a, Relation.ReflTransGen (Step next) start a → a ∈ support)
    (hfuel : 1 + (support.flatMap next).length ≤ fuel) :
    (visit next fuel [] [start]).Nodup ∧ ∀ a, a ∈ visit next fuel [] [start] ↔
      Relation.ReflTransGen (Step next) start a := by
  have hqueue : [start].length + (pending next support []).length ≤ fuel := by
    simpa [pending] using hfuel
  exact ((Inv.start start).visit hsupport hqueue).spec

/-! ## Queueing only what is new -/

def visitNew (next : α → List α) : ℕ → List α → List α → List α
  | fuel + 1, visited, current :: queue =>
    if current ∈ visited then visitNew next fuel visited queue
    else visitNew next fuel (visited ++ [current])
      (queue ++ (next current).filter (· ∉ visited ++ [current]))
  | _, visited, _ => visited

theorem Inv.prune {start : α} {visited queue more : List α}
    (h : Inv next start visited (queue ++ more)) :
    Inv next start visited (queue ++ more.filter (· ∉ visited)) := by
  have hkeep {b : α} (hb : b ∈ visited ∨ b ∈ queue ++ more) :
      b ∈ visited ∨ b ∈ queue ++ more.filter (· ∉ visited) := by
    by_cases hv : b ∈ visited
    · exact Or.inl hv
    · refine Or.inr ?_
      rcases List.mem_append.mp (hb.resolve_left hv) with hb | hb
      · exact List.mem_append_left _ hb
      · exact List.mem_append_right _ (List.mem_filter.mpr ⟨hb, decide_eq_true hv⟩)
  refine ⟨h.nodup, hkeep h.start_mem, fun a ha b hb ↦ hkeep (h.closed a ha b hb), fun a ha ↦ ?_⟩
  refine h.reached a ?_
  rcases List.mem_append.mp ha with ha | ha
  · exact List.mem_append_left _ ha
  · exact List.mem_append_right _
      ((List.Sublist.refl queue).append List.filter_sublist |>.subset ha)

theorem Inv.visitNew {start : α}
    (hsupport : ∀ a, Relation.ReflTransGen (Step next) start a → a ∈ support)
    (h : Inv next start visited queue)
    (hfuel : queue.length + (pending next support visited).length ≤ fuel) :
    Inv next start (Search.visitNew next fuel visited queue) [] :=
  h.run (fun fuel _ ↦ by cases fuel <;> rfl) (fun _ _ _ _ hcurrent ↦ if_pos hcurrent)
    (fun _ _ _ _ hcurrent h ↦ ⟨_, if_neg hcurrent, (h.step hcurrent).prune, by
      rw [List.length_append]
      exact Nat.add_le_add_left (List.length_filter_le _ _) _⟩) hsupport hfuel

theorem visitNew_spec {start : α} (support : List α)
    (hsupport : ∀ a, Relation.ReflTransGen (Step next) start a → a ∈ support)
    (hfuel : 1 + (support.flatMap next).length ≤ fuel) :
    (visitNew next fuel [] [start]).Nodup ∧ ∀ a, a ∈ visitNew next fuel [] [start] ↔
      Relation.ReflTransGen (Step next) start a := by
  have hqueue : [start].length + (pending next support []).length ≤ fuel := by
    simpa [pending] using hfuel
  exact (Inv.start start).visitNew hsupport hqueue |>.spec

/-! ## Depth first -/

def dive (next : α → List α) : ℕ → List α → List α → List α
  | fuel + 1, visited, current :: stack =>
    if current ∈ visited then dive next fuel visited stack
    else dive next fuel (visited ++ [current]) (next current ++ stack)
  | _, visited, _ => visited

/-- The first elements a depth-first search takes up, in order and as often as it does. -/
def taken (next : α → List α) : ℕ → List α → List α → List α
  | n + 1, visited, current :: stack =>
    current :: (if current ∈ visited then taken next n visited stack
      else taken next n (visited ++ [current]) (next current ++ stack))
  | _, _, _ => []

theorem mem_dive {a : α} :
    a ∈ dive next fuel visited stack ↔ a ∈ visited ∨ a ∈ taken next fuel visited stack := by
  induction fuel generalizing visited stack with
  | zero => simp [dive, taken]
  | succ fuel ih =>
    rcases stack with _ | ⟨current, stack⟩
    · simp [dive, taken]
    · rw [dive, taken, List.mem_cons]
      split_ifs with hcurrent
      · rw [ih]
        constructor
        · exact Or.imp_right Or.inr
        · rintro (ha | rfl | ha)
          · exact .inl ha
          · exact .inl hcurrent
          · exact .inr ha
      · rw [ih, List.mem_append, List.mem_singleton, or_assoc]

theorem reached_of_mem_taken {a start : α} {n : ℕ}
    (hstack : ∀ b ∈ stack, Relation.ReflTransGen (Step next) start b)
    (ha : a ∈ taken next n visited stack) : Relation.ReflTransGen (Step next) start a := by
  induction n generalizing visited stack with
  | zero => exact absurd ha List.not_mem_nil
  | succ n ih =>
    rcases stack with _ | ⟨current, stack⟩
    · exact absurd ha List.not_mem_nil
    · rw [taken] at ha
      have hcurrent := hstack current List.mem_cons_self
      have hrest : ∀ b ∈ stack, Relation.ReflTransGen (Step next) start b := fun b hb ↦
        hstack b (List.mem_cons_of_mem _ hb)
      rcases List.mem_cons.mp ha with rfl | ha
      · exact hcurrent
      · split_ifs at ha
        · exact ih hrest ha
        · refine ih (fun b hb ↦ ?_) ha
          rcases List.mem_append.mp hb with hb | hb
          · exact hcurrent.tail hb
          · exact hrest b hb

omit [DecidableEq α] in
theorem Inv.perm {start : α} {visited queue queue' : List α} (h : Inv next start visited queue)
    (hqueue : queue.Perm queue') : Inv next start visited queue' where
  nodup := h.nodup
  start_mem := h.start_mem.imp_right hqueue.mem_iff.mp
  closed a ha b hb := (h.closed a ha b hb).imp_right hqueue.mem_iff.mp
  reached a ha := h.reached a ((hqueue.append_left visited).mem_iff.mpr ha)

theorem Inv.dive {start : α}
    (hsupport : ∀ a, Relation.ReflTransGen (Step next) start a → a ∈ support)
    (h : Inv next start visited stack)
    (hfuel : stack.length + (pending next support visited).length ≤ fuel) :
    Inv next start (Search.dive next fuel visited stack) [] :=
  h.run (fun fuel _ ↦ by cases fuel <;> rfl) (fun _ _ _ _ hcurrent ↦ if_pos hcurrent)
    (fun _ _ _ stack hcurrent h ↦ ⟨_, if_neg hcurrent,
      (h.step hcurrent).perm List.perm_append_comm, by rw [List.length_append, Nat.add_comm]⟩)
    hsupport hfuel

/-- **With enough fuel the search takes up whatever is reached.** -/
theorem mem_taken_iff {a start : α} (support : List α)
    (hsupport : ∀ a, Relation.ReflTransGen (Step next) start a → a ∈ support)
    (hfuel : 1 + (support.flatMap next).length ≤ fuel) :
    a ∈ taken next fuel [] [start] ↔ Relation.ReflTransGen (Step next) start a := by
  have hstack : [start].length + (pending next support []).length ≤ fuel := by
    simpa [pending] using hfuel
  rw [← ((Inv.start start).dive hsupport hstack).spec.2 a, mem_dive]
  exact (or_iff_right List.not_mem_nil).symm

/-! ### By the number of edges -/

theorem length_flatMap_le {es : List (α × α)}
    (hlength : ∀ b, (next b).length ≤ (es.filter (·.1 = b)).length)
    (hnodup : support.Nodup) : (support.flatMap next).length ≤ es.length := by
  have hsum : ((support.map fun b ↦ (es.filter (·.1 = b)).length).sum) ≤ es.length := by
    clear hlength
    induction es with
    | nil => simp
    | cons e es ih =>
      have hsplit : (support.map fun b ↦ ((e :: es).filter (·.1 = b)).length).sum =
          (support.map fun b ↦ (es.filter (·.1 = b)).length).sum + support.count e.1 := by
        clear ih hnodup
        induction support with
        | nil => rfl
        | cons b support ih =>
          rw [List.map_cons, List.sum_cons, ih, List.map_cons, List.sum_cons, List.filter_cons,
            List.count_cons]
          by_cases hb : e.1 = b
          · simp [hb]
            omega
          · simp [hb, Ne.symm hb]
            omega
      rw [hsplit, List.length_cons]
      exact Nat.add_le_add ih (List.nodup_iff_count_le_one.mp hnodup e.1)
  rw [List.length_flatMap]
  exact (List.sum_le_sum fun b _ ↦ hlength b).trans hsum

/-- **A depth-first search takes up whatever is reached** in one step for the start and one for each
edge. -/
theorem mem_taken_iff_of_edges {es : List (α × α)} {a start : α}
    (hlength : ∀ b, (next b).length ≤ (es.filter (·.1 = b)).length)
    (hmem : ∀ b, ∀ c ∈ next b, c ∈ es.map Prod.snd) (hfuel : 1 + es.length ≤ fuel) :
    a ∈ taken next fuel [] [start] ↔ Relation.ReflTransGen (Step next) start a := by
  refine mem_taken_iff (start :: es.map Prod.snd).dedup (fun c hc ↦ List.mem_dedup.mpr ?_) ?_
  · -- the search stays among the start and the ends of edges
    cases hc with
    | refl => exact List.mem_cons_self
    | tail _ hstep => exact List.mem_cons_of_mem _ (hmem _ c hstep)
  · have := length_flatMap_le hlength (List.nodup_dedup (start :: es.map Prod.snd))
    omega

/-! ## Listing what is put on the stack

A search may answer with what it puts on the stack instead of what it visits, the last one on top.
Something that is put there again before it is visited is then listed again. This does not happen
just when no list of successors has one that reaches an earlier one of the list.
-/

def listing (next : α → List α) : ℕ → List α → List α → List α → Option (List α)
  | 0, _, _, _ => none
  | _ + 1, _, [], listed => some listed
  | fuel + 1, visited, current :: stack, listed =>
    if current ∈ visited then listing next fuel visited stack listed
    else
      let new := (next current).filter (· ∉ visited ++ [current])
      listing next fuel (visited ++ [current]) (new.reverse ++ stack) (listed ++ new)

theorem Inv.push {start current : α}
    (h : Inv next start visited (current :: stack)) (hcurrent : current ∉ visited) :
    Inv next start (visited ++ [current])
      (((next current).filter (· ∉ visited ++ [current])).reverse ++ stack) :=
  (h.step hcurrent).prune.perm
    (List.perm_append_comm.trans ((List.reverse_perm _).symm.append_right stack))

/-- **The rule of the search**: with enough fuel there is an answer, with what each visit keeps. -/
theorem Inv.listing {start : α} {I : List α → List α → List α → Prop}
    (hsupport : ∀ a, Relation.ReflTransGen (Step next) start a → a ∈ support)
    (hskip : ∀ visited current stack listed, I visited (current :: stack) listed →
      current ∈ visited → I visited stack listed)
    (hvisit : ∀ visited current stack listed, Inv next start visited (current :: stack) →
      I visited (current :: stack) listed → current ∉ visited →
      I (visited ++ [current]) (((next current).filter (· ∉ visited ++ [current])).reverse ++ stack)
        (listed ++ (next current).filter (· ∉ visited ++ [current])))
    (h : Inv next start visited stack)
    (hI : I visited stack listed)
    (hfuel : stack.length + (pending next support visited).length < fuel) :
    ∃ visited' listed', Search.listing next fuel visited stack listed = some listed' ∧
      Inv next start visited' [] ∧ I visited' [] listed' := by
  induction fuel generalizing visited stack listed with
  | zero => omega
  | succ fuel ih =>
    rcases stack with _ | ⟨current, stack⟩
    · exact ⟨visited, listed, rfl, h, hI⟩
    · rw [Search.listing]
      split_ifs with hcurrent
      · refine ih (h.skip hcurrent) (hskip _ _ _ _ hI hcurrent) ?_
        rw [List.length_cons] at hfuel
        omega
      · refine ih (h.push hcurrent) (hvisit _ _ _ _ h hI hcurrent) ?_
        have hle := h.length_step_le hsupport hcurrent
          (by rw [List.length_cons, Nat.add_right_comm])
        have hfilter := List.length_filter_le (· ∉ visited ++ [current]) (next current)
        rw [List.length_cons] at hfuel
        rw [List.length_append, List.length_reverse]
        omega

structure Listed (next : α → List α) (start : α) (visited stack listed : List α) : Prop where
  listed_of : ∀ a ∈ visited ++ stack, a = start ∨ a ∈ listed
  of_listed : ∀ a ∈ listed, a ∈ visited ++ stack ∧ Relation.TransGen (Step next) start a

omit [DecidableEq α] in
theorem Listed.skip {start current : α}
    (h : Listed next start visited (current :: stack) listed) (hcurrent : current ∈ visited) :
    Listed next start visited stack listed where
  listed_of a ha := h.listed_of a
    (((List.sublist_cons_self current stack).append_left visited).subset ha)
  of_listed a ha := by
    refine ⟨?_, (h.of_listed a ha).2⟩
    rcases List.mem_append.mp (h.of_listed a ha).1 with hv | hs
    · exact List.mem_append_left _ hv
    · rcases List.mem_cons.mp hs with rfl | hs
      · exact List.mem_append_left _ hcurrent
      · exact List.mem_append_right _ hs

theorem Listed.push {start current : α} (hinv : Inv next start visited (current :: stack))
    (h : Listed next start visited (current :: stack) listed) :
    Listed next start (visited ++ [current])
      (((next current).filter (· ∉ visited ++ [current])).reverse ++ stack)
      (listed ++ (next current).filter (· ∉ visited ++ [current])) where
  listed_of a ha := by
    simp only [List.mem_append, List.mem_reverse, List.mem_singleton] at ha ⊢
    have hold := h.listed_of a
    simp only [List.mem_append, List.mem_cons] at hold
    tauto
  of_listed a ha := by
    rcases List.mem_append.mp ha with ha | ha
    · refine ⟨?_, (h.of_listed a ha).2⟩
      have hold := (h.of_listed a ha).1
      simp only [List.mem_append, List.mem_cons] at hold ⊢
      tauto
    · refine ⟨List.mem_append_right _ (List.mem_append_left _ (List.mem_reverse.mpr ha)), ?_⟩
      exact Relation.TransGen.tail' (hinv.reached current (List.mem_append_right _
        List.mem_cons_self)) (List.mem_filter.mp ha).1

omit [DecidableEq α] in
theorem Listed.start (start : α) : Listed next start [] [start] [] where
  listed_of _ ha := Or.inl (List.mem_singleton.mp ha)
  of_listed _ ha := absurd ha List.not_mem_nil

theorem start_length_lt (support : List α) {start : α}
    (hfuel : 1 + (support.flatMap next).length < fuel) :
    [start].length + (pending next support []).length < fuel := by
  simpa [pending] using hfuel

theorem listing_spec {start : α} (support : List α)
    (hsupport : ∀ a, Relation.ReflTransGen (Step next) start a → a ∈ support)
    (hstart : ¬ Relation.TransGen (Step next) start start)
    (hfuel : 1 + (support.flatMap next).length < fuel) :
    ∃ listed, listing next fuel [] [start] [] = some listed ∧
      ∀ a, a ∈ listed ↔ Relation.TransGen (Step next) start a := by
  obtain ⟨visited, listed, hlisting, hinv, hlisted⟩ := (Inv.start start).listing
    (I := Listed next start) hsupport (fun _ _ _ _ ↦ Listed.skip)
    (fun _ _ _ _ hinv h _ ↦ h.push hinv) (Listed.start start)
    (start_length_lt support hfuel)
  refine ⟨listed, hlisting, fun a ↦ ⟨fun ha ↦ (hlisted.of_listed a ha).2, fun ha ↦ ?_⟩⟩
  have hvisited := (hinv.spec.2 a).mpr ha.to_reflTransGen
  rcases hlisted.listed_of a (List.mem_append_left _ hvisited) with rfl | hmem
  · exact absurd ha hstart
  · exact hmem

/-! ### Each once -/

def Ordered (next : α → List α) : Prop :=
  ∀ x p q, List.Sublist [p, q] (next x) → ¬ Relation.TransGen (Step next) q p

/-- Nothing is listed twice: what is on the stack is new, and reaches nothing below it. -/
structure Fresh (next : α → List α) (visited stack listed : List α) : Prop where
  unvisited : ∀ a ∈ stack, a ∉ visited
  unreached : stack.Pairwise fun a b ↦ a ≠ b ∧ ¬ Relation.TransGen (Step next) a b
  nodup : listed.Nodup

theorem Fresh.push (hnodup : ∀ x, (next x).Nodup) (hordered : Ordered next) {start current : α}
    (hlisted : Listed next start visited (current :: stack) listed)
    (h : Fresh next visited (current :: stack) listed) :
    Fresh next (visited ++ [current])
      (((next current).filter (· ∉ visited ++ [current])).reverse ++ stack)
      (listed ++ (next current).filter (· ∉ visited ++ [current])) := by
  have habove := (List.pairwise_cons.mp h.unreached).1
  have hnew {a : α} (ha : a ∈ (next current).filter (· ∉ visited ++ [current])) :
      Step next current a ∧ a ∉ visited ∧ a ≠ current := by
    have h := List.mem_filter.mp ha
    simpa using h
  have hbelow {a b : α} (ha : a ∈ (next current).filter (· ∉ visited ++ [current]))
      (hb : b ∈ stack) : a ≠ b := by
    rintro rfl
    exact (habove a hb).2 (.single (hnew ha).1)
  refine ⟨fun a ha ↦ ?_, List.pairwise_append.mpr ⟨?_, (List.pairwise_cons.mp h.unreached).2,
    fun a ha b hb ↦ ?_⟩, h.nodup.append ((hnodup current).filter _) fun a ha ha' ↦ ?_⟩
  · rw [List.mem_append, List.mem_singleton, not_or]
    rcases List.mem_append.mp ha with ha | ha
    · exact (hnew (List.mem_reverse.mp ha)).2
    · exact ⟨h.unvisited a (List.mem_cons_of_mem _ ha), (habove a ha).1.symm⟩
  · rw [List.pairwise_reverse]
    refine List.pairwise_iff_forall_sublist.mpr fun {p q} hpq ↦ ?_
    have hsub := hpq.trans List.filter_sublist
    exact ⟨(List.pairwise_iff_forall_sublist.mp (hnodup current) hsub).symm,
      hordered current p q hsub⟩
  · have ha := List.mem_reverse.mp ha
    exact ⟨hbelow ha hb, fun hreach ↦ (habove b hb).2 (.head (hnew ha).1 hreach)⟩
  · obtain ⟨-, hv, hc⟩ := hnew ha'
    rcases List.mem_append.mp (hlisted.of_listed a ha).1 with hmem | hmem
    · exact hv hmem
    · rcases List.mem_cons.mp hmem with rfl | hmem
      · exact hc rfl
      · exact hbelow ha' hmem rfl

omit [DecidableEq α] in
theorem Fresh.skip
    (h : Fresh next visited (current :: stack) listed) : Fresh next visited stack listed where
  unvisited a ha := h.unvisited a (List.mem_cons_of_mem _ ha)
  unreached := (List.pairwise_cons.mp h.unreached).2
  nodup := h.nodup

theorem listing_nodup {start : α} (support : List α)
    (hsupport : ∀ a, Relation.ReflTransGen (Step next) start a → a ∈ support)
    (hnodup : ∀ x, (next x).Nodup) (hordered : Ordered next)
    (hfuel : 1 + (support.flatMap next).length < fuel) {listed : List α}
    (hlisting : listing next fuel [] [start] [] = some listed) : listed.Nodup := by
  obtain ⟨visited, listed', hlisting', -, -, hfresh⟩ := (Inv.start start).listing
    (I := fun visited stack listed ↦ Listed next start visited stack listed ∧
      Fresh next visited stack listed) hsupport
    (fun _ _ _ _ h hcurrent ↦ ⟨h.1.skip hcurrent, h.2.skip⟩)
    (fun _ _ _ _ hinv h _ ↦ ⟨h.1.push hinv, h.2.push hnodup hordered h.1⟩)
    ⟨Listed.start start, by simp, List.pairwise_singleton .., List.nodup_nil⟩
    (start_length_lt support hfuel)
  rw [Option.some.inj (hlisting.symm.trans hlisting')]
  exact hfresh.nodup

/-- One successor of the start waits below another one that leads to it, or something was listed
twice. -/
def Waits (next : α → List α) (start p q : α) (visited stack listed : List α) : Prop :=
  (∃ above below, stack = above ++ p :: below ∧ p ∉ visited ∧ p ∉ above ∧ p ∈ listed ∧
    (q ∈ visited ∨ q ∈ above) ∧
    ∀ a ∈ visited, a ≠ start → ∀ b ∈ next a, b ∈ visited ∨ b ∈ above) ∨
  ¬ listed.Nodup

section

variable {start p q : α} (hirrefl : ∀ x, ¬ Relation.TransGen (Step next) x x)
  (hq : Step next start q) (hqp : Relation.TransGen (Step next) q p)

include hirrefl hq hqp

omit [DecidableEq α] in
theorem Waits.above_ne_nil {visited : List α} (hvisited : p ∉ visited) (hmem : q ∈ visited)
    (hclosed : ∀ a ∈ visited, a ≠ start → ∀ b ∈ next a, b ∈ visited) : False := by
  have hreach : ∀ {a}, Relation.ReflTransGen (Step next) q a → a ∈ visited := by
    intro a ha
    induction ha with
    | refl => exact hmem
    | tail hqa hab ih =>
      refine hclosed _ ih ?_ _ hab
      rintro rfl
      exact hirrefl _ (Relation.TransGen.head' hq hqa)
  exact hvisited (hreach hqp.to_reflTransGen)

omit [DecidableEq α] in
theorem Waits.exists_above
    (h : Waits next start p q visited (current :: stack) listed) (hlisted : listed.Nodup) :
    ∃ above below, stack = above ++ p :: below ∧ p ∉ visited ∧ p ≠ current ∧ p ∉ above ∧
      p ∈ listed ∧ (q ∈ visited ∨ q = current ∨ q ∈ above) ∧
      ∀ a ∈ visited, a ≠ start → ∀ b ∈ next a, b ∈ visited ∨ b = current ∨ b ∈ above := by
  obtain ⟨above, below, hstack, hp, habove, hmem, hqmem, hclosed⟩ :=
    h.resolve_right (not_not.mpr hlisted)
  rcases above with _ | ⟨a, above⟩
  · simp only [List.not_mem_nil, or_false] at hqmem hclosed
    exact (above_ne_nil hirrefl hq hqp hp hqmem hclosed).elim
  · obtain ⟨rfl, rfl⟩ := List.cons.inj hstack
    rw [List.mem_cons, not_or] at habove
    simp only [List.mem_cons] at hqmem hclosed
    exact ⟨above, below, rfl, hp, habove.1, habove.2, hmem, hqmem, hclosed⟩

omit [DecidableEq α] in
theorem Waits.skip
    (h : Waits next start p q visited (current :: stack) listed) (hcurrent : current ∈ visited) :
    Waits next start p q visited stack listed := by
  by_cases hlisted : listed.Nodup
  · obtain ⟨above, below, rfl, hp, -, habove, hmem, hqmem, hclosed⟩ :=
      h.exists_above hirrefl hq hqp hlisted
    refine Or.inl ⟨above, below, rfl, hp, habove, hmem, ?_, fun a ha hne b hb ↦ ?_⟩
    · rcases hqmem with h | rfl | h
      · exact Or.inl h
      · exact Or.inl hcurrent
      · exact Or.inr h
    · rcases hclosed a ha hne b hb with h | rfl | h
      · exact Or.inl h
      · exact Or.inl hcurrent
      · exact Or.inr h
  · exact Or.inr hlisted

theorem Waits.push (h : Waits next start p q visited (current :: stack) listed) :
    Waits next start p q (visited ++ [current])
      (((next current).filter (· ∉ visited ++ [current])).reverse ++ stack)
      (listed ++ (next current).filter (· ∉ visited ++ [current])) := by
  by_cases hlisted : listed.Nodup
  · obtain ⟨above, below, rfl, hp, hne, habove, hmem, hqmem, hclosed⟩ :=
      h.exists_above hirrefl hq hqp hlisted
    by_cases hagain : p ∈ (next current).filter (· ∉ visited ++ [current])
    · exact Or.inr fun hnodup ↦ (List.disjoint_of_nodup_append hnodup) hmem hagain
    · refine Or.inl ⟨((next current).filter (· ∉ visited ++ [current])).reverse ++ above, below,
        by rw [List.append_assoc], ?_, ?_, List.mem_append_left _ hmem, ?_,
        fun a ha hstart b hb ↦ ?_⟩
      · simp [hp, hne]
      · rw [List.mem_append, List.mem_reverse, not_or]
        exact ⟨hagain, habove⟩
      · simp only [List.mem_append, List.mem_singleton]
        tauto
      · have hold := hclosed a
        simp only [List.mem_append, List.mem_singleton, List.mem_reverse, List.mem_filter] at ha ⊢
        rcases ha with ha | rfl
        · have := hold ha hstart b hb
          tauto
        · by_cases hv : b ∈ visited ∨ b = a
          · exact Or.inl hv
          · exact Or.inr (Or.inl ⟨hb, decide_eq_true hv⟩)
  · exact Or.inr fun hnodup ↦ hlisted hnodup.of_append_left

/-- **Something is listed twice** where a successor of the start reaches an earlier one. -/
theorem listing_not_nodup (support : List α)
    (hsupport : ∀ a, Relation.ReflTransGen (Step next) start a → a ∈ support)
    (hnodup : (next start).Nodup) (hbefore : List.Sublist [p, q] (next start))
    (hfuel : 1 + (support.flatMap next).length < fuel) {listed : List α}
    (hlisting : listing next fuel [] [start] [] = some listed) : ¬ listed.Nodup := by
  have hfirst : Waits next start p q ([] ++ [start])
      (((next start).filter (· ∉ [] ++ [start])).reverse ++ [])
      ([] ++ (next start).filter (· ∉ [] ++ [start])) := by
    -- The start is not its own successor, so all of them are put on the stack.
    have hall : (next start).filter (· ∉ [] ++ [start]) = next start := by
      refine List.filter_eq_self.mpr fun a ha ↦ decide_eq_true ?_
      rw [List.nil_append, List.mem_singleton]
      rintro rfl
      exact hirrefl a (.single ha)
    rw [hall]
    obtain ⟨first, rest, hnext, hpfirst, hrest⟩ := List.cons_sublist_iff.mp hbefore
    obtain ⟨below, between, rfl⟩ := List.append_of_mem hpfirst
    have hpnot : p ∉ between ++ rest := by
      rw [hnext, List.append_assoc, List.cons_append, List.nodup_middle, List.nodup_cons] at hnodup
      exact fun h ↦ hnodup.1 (List.mem_append_right _ h)
    refine Or.inl ⟨(between ++ rest).reverse, below.reverse, ?_, ?_, ?_, ?_, Or.inr ?_, ?_⟩
    · rw [hnext]
      simp
    · rw [List.nil_append, List.mem_singleton]
      rintro rfl
      exact hirrefl p (Relation.TransGen.head hq hqp)
    · rwa [List.mem_reverse]
    · rw [hnext]
      simp
    · rw [List.mem_reverse]
      exact List.mem_append_right _ (List.singleton_sublist.mp hrest)
    · exact fun a ha hne ↦ absurd (List.mem_singleton.mp ha) hne
  obtain ⟨visited, listed', hlisting', -, hend⟩ := (Inv.start start).listing
    (I := fun visited stack listed ↦ (visited = [] ∧ stack = [start] ∧ listed = []) ∨
      Waits next start p q visited stack listed) hsupport
    (fun visited current stack listed h hcurrent ↦ by
      rcases h with ⟨rfl, -, -⟩ | h
      · exact absurd hcurrent List.not_mem_nil
      · exact Or.inr (h.skip hirrefl hq hqp hcurrent))
    (fun visited current stack listed _ h _ ↦ by
      rcases h with ⟨rfl, hstack, rfl⟩ | h
      · obtain ⟨rfl, rfl⟩ := List.cons.inj hstack
        exact Or.inr hfirst
      · exact Or.inr (h.push hirrefl hq hqp))
    (Or.inl ⟨rfl, rfl, rfl⟩) (start_length_lt support hfuel)
  rw [Option.some.inj (hlisting.symm.trans hlisting')]
  rcases hend with ⟨-, hnil, -⟩ | ⟨above, below, hnil, -⟩ | hend
  · exact absurd hnil (List.cons_ne_nil _ _).symm
  · exact absurd hnil.symm (List.append_ne_nil_of_right_ne_nil _ (List.cons_ne_nil _ _))
  · exact hend

end

end Search
