import Mathlib.Data.Finset.Max

/-!
# Nested containment

Among finitely many things one may contain another. The containment is nested when any two things
that contain a third are comparable. Of two things, one containing the other, the depths differ by
one just when the outer one is the innermost container of the inner one.
-/

namespace Containment

variable {α : Type*}

/-- A strict order in which the containers of each thing form a chain. -/
structure Nested (R : α → α → Prop) : Prop where
  irrefl : ∀ a, ¬ R a a
  trans : ∀ a b c, R a b → R b c → R a c
  comparable : ∀ a b c, R a c → R b c → a = b ∨ R a b ∨ R b a

variable (s : Finset α) (R : α → α → Prop) [DecidableRel R]

def containers (a : α) : Finset α := s.filter (R · a)

def depth (a : α) : ℕ := (containers s R a).card

/-- A container that all others contain. -/
structure Innermost (b a : α) : Prop where
  mem : b ∈ s
  contains : R b a
  least : ∀ c ∈ s, R c a → c = b ∨ R c b

variable {s R} {a b c : α}

theorem mem_containers : b ∈ containers s R a ↔ b ∈ s ∧ R b a := Finset.mem_filter

namespace Nested

variable (h : Nested R)

include h

theorem containers_ssubset (hb : b ∈ s) (hba : R b a) :
    containers s R b ⊂ containers s R a := by
  refine Finset.ssubset_iff_subset_ne.mpr ⟨fun c hc ↦ ?_, fun heq ↦ ?_⟩
  · obtain ⟨hc, hcb⟩ := mem_containers.mp hc
    exact mem_containers.mpr ⟨hc, h.trans c b a hcb hba⟩
  · have hself : b ∈ containers s R b := heq ▸ mem_containers.mpr ⟨hb, hba⟩
    exact h.irrefl b (mem_containers.mp hself).2

theorem depth_lt (hb : b ∈ s) (hba : R b a) : depth s R b < depth s R a :=
  Finset.card_lt_card (h.containers_ssubset hb hba)

theorem innermost_iff : Innermost s R b a ↔
    b ∈ s ∧ R b a ∧ depth s R a = depth s R b + 1 := by
  constructor
  · intro hin
    refine ⟨hin.mem, hin.contains, ?_⟩
    have hcontainers : containers s R a = (containers s R b).cons b
        fun hb ↦ h.irrefl b (mem_containers.mp hb).2 := by
      ext c
      rw [Finset.mem_cons, mem_containers, mem_containers]
      constructor
      · rintro ⟨hc, hca⟩
        exact (hin.least c hc hca).imp_right fun hcb ↦ ⟨hc, hcb⟩
      · rintro (rfl | ⟨hc, hcb⟩)
        · exact ⟨hin.mem, hin.contains⟩
        · exact ⟨hc, h.trans c b a hcb hin.contains⟩
    rw [depth, hcontainers, Finset.card_cons, depth]
  · rintro ⟨hb, hba, hdepth⟩
    refine ⟨hb, hba, fun c hc hca ↦ ?_⟩
    rcases h.comparable c b a hca hba with hcb | hcb | hbc
    · exact Or.inl hcb
    · exact Or.inr hcb
    · -- A container between the two would take a depth of its own.
      have hbc := h.depth_lt hb hbc
      have hca := h.depth_lt hc hca
      omega

omit [DecidableRel R] in
theorem innermost_unique (hb : Innermost s R b a) (hc : Innermost s R c a) : b = c := by
  rcases hb.least c hc.mem hc.contains with hcb | hcb
  · exact hcb.symm
  · rcases hc.least b hb.mem hb.contains with hbc | hbc
    · exact hbc
    · exact absurd (h.trans b c b hbc hcb) (h.irrefl b)

theorem exists_innermost (hdepth : depth s R a ≠ 0) : ∃ b, Innermost s R b a := by
  have hne : (containers s R a).Nonempty := Finset.card_ne_zero.mp hdepth
  obtain ⟨b, hb, hmax⟩ := Finset.exists_max_image _ (depth s R) hne
  obtain ⟨hbs, hba⟩ := mem_containers.mp hb
  refine ⟨b, hbs, hba, fun c hc hca ↦ ?_⟩
  rcases h.comparable c b a hca hba with hcb | hcb | hbc
  · exact Or.inl hcb
  · exact Or.inr hcb
  · exact absurd (hmax c (mem_containers.mpr ⟨hc, hca⟩)) (Nat.not_le.mpr (h.depth_lt hbs hbc))

end Nested

end Containment
