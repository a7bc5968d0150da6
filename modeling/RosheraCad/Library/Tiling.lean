import Mathlib.Data.List.Chain
import Mathlib.Algebra.Order.BigOperators.Group.List
import Mathlib.Algebra.GroupWithZero.Nat

/-!
# Tilings

Spans of positions that cover a range exactly: none reaches outside, and every position belongs to
just one of them. Spans in order tile a range when their lengths add up to its length.
-/

/-- A half-open range of positions. -/
structure Span where
  start : ℕ
  len : ℕ

namespace Span

def stop (s : Span) : ℕ := s.start + s.len

def contains (s : Span) (p : ℕ) : Bool := s.start ≤ p && p < s.stop

theorem contains_iff {s : Span} {p : ℕ} : s.contains p ↔ s.start ≤ p ∧ p < s.stop := by
  rw [contains, Bool.and_eq_true, decide_eq_true_iff, decide_eq_true_iff]

/-- The spans partition the positions from `a` on below `b`. -/
structure Tiles (spans : List Span) (a b : ℕ) : Prop where
  inside : ∀ s ∈ spans, a ≤ s.start ∧ s.stop ≤ b
  covered : ∀ p, a ≤ p → p < b → spans.countP (·.contains p) = 1

theorem Tiles.perm {l₁ l₂ : List Span} {a b : ℕ} (h : Tiles l₁ a b) (hperm : l₁.Perm l₂) :
    Tiles l₂ a b := by
  refine ⟨fun s hs ↦ h.inside s (hperm.mem_iff.mpr hs), fun p ha hb ↦ ?_⟩
  rw [← hperm.countP_eq]
  exact h.covered p ha hb

theorem Tiles.singleton (s : Span) : Tiles [s] s.start s.stop := by
  refine ⟨fun t ht ↦ ?_, fun p ha hb ↦ ?_⟩
  · rw [List.mem_singleton.mp ht]
    exact ⟨le_rfl, le_rfl⟩
  · rw [List.countP_singleton, if_pos (contains_iff.mpr ⟨ha, hb⟩)]

variable {spans : List Span}

theorem countP_eq_zero {a b p : ℕ}
    (h : ∀ s ∈ spans, a ≤ s.start ∧ s.stop ≤ b) (hp : p < a ∨ b ≤ p) :
    spans.countP (·.contains p) = 0 := by
  rw [List.countP_eq_zero]
  intro s hs hcontains
  obtain ⟨hstart, hstop⟩ := contains_iff.mp hcontains
  have hin := h s hs
  omega

theorem Tiles.append {l₁ l₂ : List Span} {a b c : ℕ} (h₁ : Tiles l₁ a b) (h₂ : Tiles l₂ b c)
    (hab : a ≤ b) (hbc : b ≤ c) : Tiles (l₁ ++ l₂) a c := by
  refine ⟨fun s hs ↦ ?_, fun p ha hc ↦ ?_⟩
  · rcases List.mem_append.mp hs with hs | hs
    · have hin := h₁.inside s hs
      omega
    · have hin := h₂.inside s hs
      omega
  · rw [List.countP_append]
    by_cases hp : p < b
    · rw [h₁.covered p ha hp, countP_eq_zero h₂.inside (.inl hp)]
    · rw [countP_eq_zero h₁.inside (.inr (not_lt.mp hp)), h₂.covered p (not_lt.mp hp) hc]

theorem sum_len_le {a b : ℕ} (hab : a ≤ b) (horder : spans.Pairwise fun s t ↦ s.stop ≤ t.start)
    (hin : ∀ s ∈ spans, a ≤ s.start ∧ s.stop ≤ b) : a + (spans.map len).sum ≤ b := by
  induction spans generalizing a with
  | nil => simpa using hab
  | cons s spans ih =>
    rw [List.pairwise_cons] at horder
    rw [List.forall_mem_cons] at hin
    have hrest := ih hin.1.2 horder.2 fun t ht ↦ ⟨horder.1 t ht, (hin.2 t ht).2⟩
    have hstart := hin.1.1
    rw [List.map_cons, List.sum_cons]
    rw [stop] at hrest
    omega

theorem tiles_of_pairwise {a b : ℕ} (horder : spans.Pairwise fun s t ↦ s.stop ≤ t.start)
    (hin : ∀ s ∈ spans, a ≤ s.start ∧ s.stop ≤ b) (hsum : a + (spans.map len).sum = b) :
    Tiles spans a b := by
  induction spans generalizing a with
  | nil => exact ⟨nofun, fun p ha hb ↦ absurd hsum (by rw [List.map_nil, List.sum_nil]; omega)⟩
  | cons s spans ih =>
    rw [List.pairwise_cons] at horder
    rw [List.forall_mem_cons] at hin
    have hafter : ∀ t ∈ spans, s.stop ≤ t.start ∧ t.stop ≤ b :=
      fun t ht ↦ ⟨horder.1 t ht, (hin.2 t ht).2⟩
    have hroom := sum_len_le hin.1.2 horder.2 hafter
    rw [List.map_cons, List.sum_cons] at hsum
    -- the spans after the first leave it no room for a gap
    have hfirst : s.start = a := by
      have hstart := hin.1.1
      rw [stop] at hroom
      omega
    have hrest : Tiles spans s.stop b := ih horder.2 hafter (by rw [stop, hfirst]; omega)
    have hone := (Tiles.singleton s).append hrest (Nat.le_add_right _ _) hin.1.2
    rwa [hfirst] at hone

/-! ## Two spans -/

def Disjoint (s t : Span) : Prop := ∀ p, ¬ (s.contains p ∧ t.contains p)

/-- Sorted by their starts in whichever way, the first ends before the second starts. -/
def Clear (s t : Span) : Prop :=
  (s.start ≤ t.start → s.stop ≤ t.start) ∧ (t.start ≤ s.start → t.stop ≤ s.start)

/-- Sorted by their starts in one of the ways, the first ends before the second starts. -/
def Fits (s t : Span) : Prop :=
  (s.start < t.start → s.stop ≤ t.start) ∧ (t.start < s.start → t.stop ≤ s.start) ∧
    (s.start = t.start → s.len = 0 ∨ t.len = 0)

variable {s t : Span}

theorem disjoint_iff :
    s.Disjoint t ↔ s.len = 0 ∨ t.len = 0 ∨ s.stop ≤ t.start ∨ t.stop ≤ s.start := by
  constructor
  · intro h
    by_contra hover
    have hmax := h (max s.start t.start)
    rw [contains_iff, contains_iff] at hmax
    simp only [stop] at hover hmax
    omega
  · intro h p hp
    rw [contains_iff, contains_iff] at hp
    simp only [stop] at h hp
    omega

theorem Disjoint.symm (h : s.Disjoint t) : t.Disjoint s := fun p hp ↦ h p hp.symm

theorem Clear.symm (h : s.Clear t) : t.Clear s := And.symm h

theorem Fits.symm (h : s.Fits t) : t.Fits s :=
  ⟨h.2.1, h.1, fun heq ↦ (h.2.2 heq.symm).symm⟩

theorem disjoint_of_stop_le (h : s.stop ≤ t.start) : s.Disjoint t :=
  disjoint_iff.mpr (.inr (.inr (.inl h)))

theorem fits_of_stop_le (h : s.stop ≤ t.start) : s.Fits t := by
  rw [Fits]
  simp only [stop] at h ⊢
  omega

theorem Fits.stop_le (h : s.Fits t) (hle : s.start + s.stop ≤ t.start + t.stop) :
    s.stop ≤ t.start := by
  obtain ⟨hst, hts, heq⟩ := h
  simp only [stop] at hle hst hts ⊢
  omega

end Span
