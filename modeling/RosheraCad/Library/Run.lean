import Mathlib.Logic.Basic

/-!
# Runs of a guarded system

A system has one initial state, a condition saying when an action may be taken, and one outcome for
each action. A run may be restricted further by a guard on its steps.

An invariant is proved from its initial case and one step, which may use that the state it starts
from is itself reached under the guard.
-/

universe u v

structure GuardedSystem (σ : Type u) (ι : Type v) where
  init : σ
  enabled : σ → ι → Prop
  step : σ → ι → σ

namespace GuardedSystem

variable {σ : Type u} {ι : Type v} (S : GuardedSystem σ ι)

/-- The states reached by runs all of whose steps are enabled and meet `G`. -/
inductive ReachableUnder (G : σ → ι → Prop) : σ → Prop
  | init : ReachableUnder G S.init
  | step {s : σ} {i : ι} : ReachableUnder G s → S.enabled s i → G s i →
      ReachableUnder G (S.step s i)

/-- The states reached by any run. -/
abbrev Reachable : σ → Prop := S.ReachableUnder fun _ _ ↦ True

variable {S} {G H : σ → ι → Prop} {s : σ}

theorem ReachableUnder.mono (hGH : ∀ s i, G s i → H s i) (h : S.ReachableUnder G s) :
    S.ReachableUnder H s := by
  induction h with
  | init => exact .init
  | step _ he hg ih => exact .step ih he (hGH _ _ hg)

/-- **The invariant rule**: what holds initially and is kept by every step holds of every state
reached. -/
theorem ReachableUnder.invariant (I : σ → Prop) (hinit : I S.init)
    (hstep : ∀ s i, S.ReachableUnder G s → I s → S.enabled s i → G s i → I (S.step s i))
    (h : S.ReachableUnder G s) : I s := by
  induction h with
  | init => exact hinit
  | step hr he hg ih => exact hstep _ _ hr ih he hg

/-! ## Runs given by their actions -/

variable (S G)

/-- The state a list of actions leads to. -/
def run (s : σ) (is : List ι) : σ := is.foldl S.step s

/-- Every action of the list is enabled, and meets the guard, where it is taken. -/
def Admits (s : σ) : List ι → Prop
  | [] => True
  | i :: is => S.enabled s i ∧ G s i ∧ Admits (S.step s i) is

instance Admits.decidable [∀ s i, Decidable (S.enabled s i)] [∀ s i, Decidable (G s i)] :
    ∀ (s : σ) (is : List ι), Decidable (S.Admits G s is)
  | _, [] => isTrue trivial
  | s, i :: is =>
    have := Admits.decidable (S.step s i) is
    inferInstanceAs (Decidable (_ ∧ _ ∧ _))

variable {S G}

theorem ReachableUnder.run (h : S.ReachableUnder G s) {is : List ι} (ha : S.Admits G s is) :
    S.ReachableUnder G (S.run s is) := by
  induction is generalizing s with
  | nil => exact h
  | cons i is ih => exact ih (h.step ha.1 ha.2.1) ha.2.2

theorem run_concat (is : List ι) (i : ι) : S.run s (is ++ [i]) = S.step (S.run s is) i := by
  rw [GuardedSystem.run, List.foldl_append]
  rfl

theorem admits_concat {is : List ι} {i : ι} :
    S.Admits G s (is ++ [i]) ↔ S.Admits G s is ∧ S.enabled (S.run s is) i ∧ G (S.run s is) i := by
  induction is generalizing s with
  | nil => exact ⟨fun h ↦ ⟨trivial, h.1, h.2.1⟩, fun h ↦ ⟨h.2.1, h.2.2, trivial⟩⟩
  | cons j is ih =>
    rw [List.cons_append, Admits, Admits, ih, and_assoc, and_assoc]
    rfl

/-- **A run is good all along** just when its steps meet the guard, where any other step spoils the
state. -/
theorem good_run_iff {I Good : σ → Prop} (henabled : ∀ s i, S.enabled s i)
    (hgood : ∀ s, I s → Good s) (hkeep : ∀ s i, I s → G s i → I (S.step s i))
    (hspoil : ∀ s i, I s → ¬ G s i → ¬ Good (S.step s i)) (h : I s) (is : List ι) :
    (∀ before, before <+: is → Good (S.run s before)) ↔ S.Admits G s is := by
  induction is generalizing s with
  | nil =>
    refine iff_of_true (fun before hbefore ↦ ?_) trivial
    rw [List.prefix_nil.mp hbefore]
    exact hgood s h
  | cons i is ih =>
    constructor
    · intro hall
      have hmeets : G s i := Classical.byContradiction fun hnot ↦
        hspoil s i h hnot (hall [i] (List.prefix_append [i] is))
      refine ⟨henabled s i, hmeets, (ih (hkeep s i h hmeets)).mp fun before hbefore ↦ ?_⟩
      exact hall (i :: before) ((List.prefix_cons_inj i).mpr hbefore)
    · rintro ⟨-, hmeets, hrest⟩ before hbefore
      rcases List.prefix_cons_iff.mp hbefore with rfl | ⟨rest, rfl, hbegins⟩
      · exact hgood s h
      · exact (ih (hkeep s i h hmeets)).mpr hrest rest hbegins

theorem Admits.left {before after : List ι} (h : S.Admits G s (before ++ after)) :
    S.Admits G s before := by
  induction before generalizing s with
  | nil => trivial
  | cons i before ih => exact ⟨h.1, h.2.1, ih h.2.2⟩

end GuardedSystem
