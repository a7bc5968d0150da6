import Mathlib.Algebra.Order.Ring.Nat
import Mathlib.Data.List.Basic

/-!
# A list in blocks

A list is cut into blocks of one size from the front; what is left at the end is a shorter block.
The number of blocks is the quotient of the lengths, rounded up.
-/

universe u

namespace List

variable {A : Type u}

def blocks (n : ℕ) (l : List A) : List (List A) :=
  if 0 < n ∧ n ≤ l.length then l.take n :: blocks n (l.drop n) else if l = [] then [] else [l]
termination_by l.length
decreasing_by
  rw [length_drop]
  omega

variable {n : ℕ} {l : List A}

theorem blocks_of_le (hn : 0 < n) (h : n ≤ l.length) :
    blocks n l = l.take n :: blocks n (l.drop n) := by
  rw [blocks, if_pos ⟨hn, h⟩]

theorem blocks_of_lt (h : l.length < n) : blocks n l = if l = [] then [] else [l] := by
  rw [blocks, if_neg fun h' ↦ by omega]

@[simp] theorem blocks_nil : blocks n ([] : List A) = [] := by
  rw [blocks, if_neg fun h ↦ by simp at h; omega, if_pos rfl]

theorem blocks_cases (hn : 0 < n) (l : List A) :
    (l = [] ∧ blocks n l = []) ∨ (l ≠ [] ∧ l.length < n ∧ blocks n l = [l]) ∨
      (n ≤ l.length ∧ blocks n l = l.take n :: blocks n (l.drop n)) := by
  rcases lt_or_ge l.length n with hlt | hle
  · by_cases hl : l = []
    · exact .inl ⟨hl, by rw [blocks_of_lt hlt, if_pos hl]⟩
    · exact .inr (.inl ⟨hl, hlt, by rw [blocks_of_lt hlt, if_neg hl]⟩)
  · exact .inr (.inr ⟨hle, blocks_of_le hn hle⟩)

theorem blocks_induction (hn : 0 < n) {P : List A → List (List A) → Prop} (nil : P [] [])
    (short : ∀ l, l ≠ [] → l.length < n → P l [l])
    (block : ∀ l, n ≤ l.length → P (l.drop n) (blocks n (l.drop n)) →
      P l (l.take n :: blocks n (l.drop n))) (l : List A) : P l (blocks n l) := by
  induction h : l.length using Nat.strong_induction_on generalizing l with
  | _ k ih =>
    rcases blocks_cases hn l with ⟨rfl, hnil⟩ | ⟨hne, hlt, hshort⟩ | ⟨hle, hblock⟩
    · rw [hnil]
      exact nil
    · rw [hshort]
      exact short l hne hlt
    · rw [hblock]
      refine block l hle (ih (l.drop n).length ?_ (l.drop n) rfl)
      rw [length_drop]
      omega

theorem flatten_blocks (hn : 0 < n) (l : List A) : (blocks n l).flatten = l := by
  refine blocks_induction (P := fun l bs ↦ bs.flatten = l) hn rfl (fun l _ _ ↦ ?_)
    (fun l _ ih ↦ ?_) l
  · rw [flatten_cons, flatten_nil, append_nil]
  · rw [flatten_cons, ih, take_append_drop]

theorem length_le_of_mem_blocks (hn : 0 < n) (l : List A) :
    ∀ b ∈ blocks n l, b.length ≤ min n l.length := by
  refine blocks_induction (P := fun l bs ↦ ∀ b ∈ bs, b.length ≤ min n l.length) hn ?_ ?_ ?_ l
  · exact fun b hb ↦ absurd hb not_mem_nil
  · intro l _ hlt b hb
    rw [mem_singleton.mp hb]
    omega
  · intro l hle ih b hb
    rcases mem_cons.mp hb with rfl | hb
    · rw [length_take]
    · have hlen := ih b hb
      rw [length_drop] at hlen
      omega

theorem length_blocks_bounds (hn : 0 < n) (l : List A) :
    l.length ≤ (blocks n l).length * n ∧ (blocks n l).length * n < l.length + n := by
  refine blocks_induction (P := fun l bs ↦ l.length ≤ bs.length * n ∧ bs.length * n < l.length + n)
    hn ?_ ?_ ?_ l
  · simp [hn]
  · intro l hne hlt
    have hpos : 0 < l.length := length_pos_iff.mpr hne
    rw [length_singleton, one_mul]
    omega
  · intro l hle ih
    rw [length_drop] at ih
    rw [length_cons, Nat.add_one_mul]
    omega

theorem blocks_ne_nil (hn : 0 < n) (h : l ≠ []) : ∃ bs, blocks n l = l.take n :: bs := by
  rcases blocks_cases hn l with ⟨rfl, -⟩ | ⟨-, hlt, hshort⟩ | ⟨-, hblock⟩
  · exact absurd rfl h
  · exact ⟨[], by rw [hshort, take_of_length_le hlt.le]⟩
  · exact ⟨_, hblock⟩

end List
