import Mathlib.Data.Set.Basic

/-!
# Sweeping in rounds

A round removes everything at once that is neither a root nor referred to by something still there.
When references lead from each stratum to the next, `n` rounds settle the first `n` strata below the
roots: what is left of them is what the roots reach.
-/

namespace Sweep

variable {α : Type*} (refs : α → Set α) (root : Set α)

def round (S : Set α) : Set α := {y | y ∈ S ∧ (y ∈ root ∨ ∃ x ∈ S, y ∈ refs x)}

inductive Reached (S : Set α) : α → Prop
  | root {y : α} : y ∈ S → y ∈ root → Reached S y
  | ref {x y : α} : Reached S x → y ∈ refs x → y ∈ S → Reached S y

variable {refs root} {S S' : Set α} {y : α}

theorem round_subset : round refs root S ⊆ S := fun _ hy ↦ hy.1

theorem Reached.mem (h : Reached refs root S y) : y ∈ S := by
  rcases h with ⟨hy, -⟩ | ⟨-, -, hy⟩
  · exact hy
  · exact hy

theorem Reached.mono (hS : ∀ y, Reached refs root S y → y ∈ S') (h : Reached refs root S y) :
    Reached refs root S' y := by
  induction h with
  | root hy hroot => exact .root (hS _ (.root hy hroot)) hroot
  | ref hx hxy hy ih => exact .ref ih hxy (hS _ (.ref hx hxy hy))

theorem Reached.mem_round (h : Reached refs root S y) : y ∈ round refs root S := by
  rcases h with ⟨hy, hroot⟩ | ⟨hx, hxy, hy⟩
  · exact ⟨hy, Or.inl hroot⟩
  · exact ⟨hy, Or.inr ⟨_, hx.mem, hxy⟩⟩

theorem Reached.mem_iterate (h : Reached refs root S y) (n : ℕ) :
    y ∈ (round refs root)^[n] S := by
  induction n generalizing S with
  | zero => exact h.mem
  | succ n ih =>
    rw [Function.iterate_succ_apply]
    exact ih (h.mono fun _ hy ↦ hy.mem_round)

theorem iterate_round_subset (n : ℕ) : (round refs root)^[n] S ⊆ S := by
  induction n with
  | zero => exact Set.Subset.rfl
  | succ n ih =>
    rw [Function.iterate_succ_apply']
    exact round_subset.trans ih

variable {rank : α → ℕ}

theorem reached_of_mem_iterate (hrank : ∀ x y, y ∈ refs x → rank y = rank x + 1)
    (hroot : ∀ y, rank y = 0 → y ∈ root) {n : ℕ} (hy : rank y ≤ n)
    (h : y ∈ (round refs root)^[n] S) : Reached refs root S y := by
  induction n generalizing y with
  | zero => exact .root h (hroot y (Nat.le_zero.mp hy))
  | succ n ih =>
    have hmem := iterate_round_subset (n + 1) h
    rw [Function.iterate_succ_apply'] at h
    obtain ⟨-, hr | ⟨x, hx, hxy⟩⟩ := h
    · exact .root hmem hr
    · -- What still refers to it lies one stratum up, and was there a round earlier.
      have hxrank := hrank x y hxy
      exact .ref (ih (by omega) hx) hxy hmem

variable (rank) in
/-- **As many rounds as there are strata** leave exactly what is reached. -/
theorem mem_iterate_iff (hrank : ∀ x y, y ∈ refs x → rank y = rank x + 1)
    (hroot : ∀ y, rank y = 0 → y ∈ root) {n : ℕ} (hn : ∀ y ∈ S, rank y ≤ n) :
    y ∈ (round refs root)^[n] S ↔ Reached refs root S y := by
  constructor
  · intro h
    exact reached_of_mem_iterate hrank hroot (hn y (iterate_round_subset n h)) h
  · intro h
    exact h.mem_iterate n

/-! ## What a cut leaves to sweep -/

def Closed (refs : α → Set α) (S : Set α) : Prop := ∀ x ∈ S, refs x ⊆ S

/-- Everything that is kept is a root or referred to: another round would remove nothing. -/
def Settled (refs : α → Set α) (root S : Set α) : Prop := round refs root S = S

theorem settled_iff : Settled refs root S ↔ ∀ y ∈ S, y ∈ root ∨ ∃ x ∈ S, y ∈ refs x :=
  ⟨fun h _ hy ↦ (h.superset hy).2, fun h ↦ round_subset.antisymm fun y hy ↦ ⟨hy, h y hy⟩⟩

theorem Reached.ref_of_closed {P cut : Set α} (hP : Closed refs P) (hcut : cut ⊆ root)
    (hrank : ∀ x y, y ∈ refs x → y ∉ root) {x : α} (h : Reached refs root (P \ cut) x)
    (hy : y ∈ refs x) : Reached refs root (P \ cut) y :=
  .ref h hy ⟨hP x h.mem.1 hy, fun hin ↦ hrank x y hy (hcut hin)⟩

theorem mem_iterate_of_ref {n : ℕ} {x : α} (hx : x ∈ (round refs root)^[n] S) (hxy : y ∈ refs x)
    (hy : y ∈ S) : y ∈ (round refs root)^[n] S := by
  induction n with
  | zero => exact hy
  | succ n ih =>
    rw [Function.iterate_succ_apply'] at hx ⊢
    have hbefore := round_subset hx
    exact ⟨ih hbefore, Or.inr ⟨x, hbefore, hxy⟩⟩

section Cut

variable {P cut : Set α} {n : ℕ}

theorem Reached.mem_iterate_of_uncut
    (hcut : ∀ y ∈ cut, ¬ Reached refs root (P \ (cut ∩ root)) y)
    (h : Reached refs root (P \ (cut ∩ root)) y) : y ∈ (round refs root)^[n] (P \ cut) := by
  have huncut : Reached refs root (P \ cut) y :=
    h.mono fun z hz ↦ ⟨hz.mem.1, fun hin ↦ hcut z hin hz⟩
  exact huncut.mem_iterate n

variable (rank) in
/-- **When a cut and some rounds do the whole job**: just when the roots that are left reach nothing
that was cut out, and everything that is left. -/
theorem closed_and_settled_iff (hrank : ∀ x y, y ∈ refs x → rank y = rank x + 1)
    (hroot : ∀ y, rank y = 0 ↔ y ∈ root) (hP : Closed refs P) :
    Closed refs ((round refs root)^[n] (P \ cut)) ∧
        Settled refs root ((round refs root)^[n] (P \ cut)) ↔
      (∀ y ∈ cut, ¬ Reached refs root (P \ (cut ∩ root)) y) ∧
        ∀ y ∈ (round refs root)^[n] (P \ cut), Reached refs root (P \ (cut ∩ root)) y := by
  have hnot : ∀ x y, y ∈ refs x → y ∉ root := by
    intro x y hy hin
    have := hrank x y hy
    have := (hroot y).mpr hin
    omega
  constructor
  · rintro ⟨hclosed, hsettled⟩
    -- The remaining roots stay, and what is left holds all they reach.
    have hkept : ∀ y, Reached refs root (P \ (cut ∩ root)) y →
        y ∈ (round refs root)^[n] (P \ cut) := by
      intro y hy
      induction hy with
      | @root y hy hr =>
        have hstart : y ∈ P \ cut := ⟨hy.1, fun hcut ↦ hy.2 ⟨hcut, hr⟩⟩
        have hreached : Reached refs root (P \ cut) y := .root hstart hr
        exact hreached.mem_iterate n
      | ref _ hxy _ ih => exact hclosed _ ih hxy
    refine ⟨fun y hy hreach ↦ (iterate_round_subset n (hkept y hreach)).2 hy, fun y hy ↦ ?_⟩
    have hall : ∀ k, (round refs root)^[k] ((round refs root)^[n] (P \ cut)) =
        (round refs root)^[n] (P \ cut) := fun k ↦ Function.iterate_fixed hsettled k
    have hreached := reached_of_mem_iterate hrank (fun y ↦ (hroot y).mp) (Nat.le_refl (rank y))
      ((hall (rank y)).superset hy)
    refine hreached.mono fun z hz ↦ ?_
    obtain ⟨hthere, huncut⟩ := iterate_round_subset n hz.mem
    exact ⟨hthere, fun h ↦ huncut h.1⟩
  · rintro ⟨hcut, hleft⟩
    refine ⟨fun x hx y hxy ↦ Reached.mem_iterate_of_uncut hcut ?_, settled_iff.mpr fun y hy ↦ ?_⟩
    · exact (hleft x hx).ref_of_closed hP Set.inter_subset_right hnot hxy
    · rcases hleft y hy with ⟨-, hr⟩ | ⟨hx, hxy, -⟩
      · exact Or.inl hr
      · exact Or.inr ⟨_, hx.mem_iterate_of_uncut hcut, hxy⟩

end Cut

end Sweep
