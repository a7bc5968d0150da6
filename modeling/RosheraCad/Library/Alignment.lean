import Mathlib.Data.List.Forall2
import Mathlib.Order.Basic

/-!
# Aligned lists

Two lists, each ascending in an order of its own, and a correspondence between their entries that
keeps the orders: the lists correspond entry by entry.
-/

namespace List

variable {α β : Type*} {ltA : α → α → Prop} {ltB : β → β → Prop} {R : α → β → Prop}

/-- **Ascending lists that correspond in order are aligned.** -/
theorem forall₂_of_monotone [Std.Irrefl ltA] [Std.Asymm ltA] [Std.Irrefl ltB] [Std.Asymm ltB]
    {as : List α} {bs : List β} (has : as.Pairwise ltA) (hbs : bs.Pairwise ltB)
    (hleft : ∀ a ∈ as, ∃ b ∈ bs, R a b) (hright : ∀ b ∈ bs, ∃ a ∈ as, R a b)
    (hlt : ∀ a ∈ as, ∀ a' ∈ as, ∀ b ∈ bs, ∀ b' ∈ bs, R a b → R a' b' → (ltA a a' ↔ ltB b b')) :
    Forall₂ R as bs := by
  induction as generalizing bs with
  | nil =>
    rcases bs with - | ⟨b, bs⟩
    · exact .nil
    · obtain ⟨a, ha, -⟩ := hright b mem_cons_self
      cases ha
  | cons a as ih =>
    rcases bs with - | ⟨b, bs⟩
    · obtain ⟨b, hb, -⟩ := hleft a mem_cons_self
      cases hb
    · obtain ⟨ha, has⟩ := pairwise_cons.mp has
      obtain ⟨hb, hbs⟩ := pairwise_cons.mp hbs
      -- a head with a partner in the other tail would put that partner before the other head
      have hab : R a b := by
        obtain ⟨b', hb', hab'⟩ := hleft a mem_cons_self
        rcases mem_cons.mp hb' with rfl | hb'
        · exact hab'
        · obtain ⟨a', ha', hab⟩ := hright b mem_cons_self
          rcases mem_cons.mp ha' with rfl | ha'
          · exact hab
          · have hlt' := (hlt a mem_cons_self a' (mem_cons_of_mem _ ha') b'
              (mem_cons_of_mem _ hb') b mem_cons_self hab' hab).mp (ha a' ha')
            exact absurd hlt' (Std.Asymm.asymm _ _ (hb b' hb'))
      refine .cons hab (ih has hbs (fun x hx ↦ ?_) (fun y hy ↦ ?_) ?_)
      · obtain ⟨y, hy, hxy⟩ := hleft x (mem_cons_of_mem _ hx)
        rcases mem_cons.mp hy with rfl | hy
        · have hlt' := (hlt a mem_cons_self x (mem_cons_of_mem _ hx) y mem_cons_self y
            mem_cons_self hab hxy).mp (ha x hx)
          exact absurd hlt' (Std.Irrefl.irrefl y)
        · exact ⟨y, hy, hxy⟩
      · obtain ⟨x, hx, hxy⟩ := hright y (mem_cons_of_mem _ hy)
        rcases mem_cons.mp hx with rfl | hx
        · have hlt' := (hlt x mem_cons_self x mem_cons_self b mem_cons_self y
            (mem_cons_of_mem _ hy) hab hxy).mpr (hb y hy)
          exact absurd hlt' (Std.Irrefl.irrefl x)
        · exact ⟨x, hx, hxy⟩
      · exact fun x hx x' hx' y hy y' hy' ↦ hlt x (mem_cons_of_mem _ hx) x' (mem_cons_of_mem _ hx')
          y (mem_cons_of_mem _ hy) y' (mem_cons_of_mem _ hy')

theorem Forall₂.exists_partner {as : List α} {bs : List β} (h : Forall₂ R as bs) {a : α}
    (ha : a ∈ as) : ∃ b ∈ bs, R a b := by
  induction h with
  | nil => cases ha
  | @cons x y xs ys hxy _ ih =>
    rcases mem_cons.mp ha with rfl | ha
    · exact ⟨y, mem_cons_self, hxy⟩
    · obtain ⟨b, hb, hab⟩ := ih ha
      exact ⟨b, mem_cons_of_mem _ hb, hab⟩

/-- **Aligned ascending lists correspond in order.** -/
theorem Forall₂.exists_lt [Std.Irrefl ltA] [Std.Asymm ltA] {as : List α} {bs : List β}
    (h : Forall₂ R as bs) (has : as.Pairwise ltA) (hbs : bs.Pairwise ltB) {a a' : α} (ha : a ∈ as)
    (ha' : a' ∈ as) (hlt : ltA a a') :
    ∃ b ∈ bs, ∃ b' ∈ bs, R a b ∧ R a' b' ∧ ltB b b' := by
  induction h with
  | nil => cases ha
  | @cons x y xs ys hxy hrest ih =>
    obtain ⟨hx, hxs⟩ := pairwise_cons.mp has
    obtain ⟨hy, hys⟩ := pairwise_cons.mp hbs
    rcases mem_cons.mp ha with rfl | htail
    · rcases mem_cons.mp ha' with rfl | ha'
      · exact absurd hlt (Std.Irrefl.irrefl a')
      · obtain ⟨b', hb', hab'⟩ := hrest.exists_partner ha'
        exact ⟨y, mem_cons_self, b', mem_cons_of_mem _ hb', hxy, hab', hy b' hb'⟩
    · rcases mem_cons.mp ha' with rfl | ha'
      · exact absurd (hx a htail) (Std.Asymm.asymm _ _ hlt)
      · obtain ⟨b, hb, b', hb', hall⟩ := ih hxs hys htail ha'
        exact ⟨b, mem_cons_of_mem _ hb, b', mem_cons_of_mem _ hb', hall⟩

end List
