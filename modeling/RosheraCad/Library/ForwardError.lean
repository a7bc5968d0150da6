import Mathlib.Tactic.Linarith
import Mathlib.Tactic.Positivity
import Mathlib.Tactic.FieldSimp
import Mathlib.Tactic.Ring

/-!
# Forward error of rounded arithmetic

An operation with rounding answers the exact result times `1 + d`, with `|d| ≤ u`. A value computed
in this way is within `((1 + u)ⁿ - 1) · P` of the exact one, where `n` counts roundings on the
longest way and the permanent `P` is the same expression with every difference a sum of magnitudes.
-/

namespace ForwardError

def rnd (d x : ℚ) : ℚ := x * (1 + d)

@[simp] theorem rnd_zero (x : ℚ) : rnd 0 x = x := by simp [rnd]

structure Approx (u : ℚ) (n : ℕ) (x P y : ℚ) : Prop where
  magnitude : |x| ≤ P
  error : |y - x| ≤ ((1 + u) ^ n - 1) * P

structure Above (u : ℚ) (n : ℕ) (P q : ℚ) : Prop where
  nonneg : 0 ≤ P
  low : (1 - u) ^ n * P ≤ q

variable {u d : ℚ} {m n : ℕ} {x x' P P' y y' : ℚ}

theorem Approx.exact (u x : ℚ) : Approx u 0 x |x| x :=
  ⟨le_rfl, by simp⟩

namespace Approx

section

variable (h : Approx u n x P y)

include h

theorem nonneg : 0 ≤ P := (abs_nonneg x).trans h.magnitude

theorem abs_value_le : |y| ≤ (1 + u) ^ n * P := by
  have htriangle := abs_add_le (y - x) x
  rw [sub_add_cancel] at htriangle
  linarith [h.error, h.magnitude]

theorem neg : Approx u n (-x) P (-y) where
  magnitude := by
    rw [abs_neg]
    exact h.magnitude
  error := by
    rw [neg_sub_neg, abs_sub_comm]
    exact h.error

theorem add (h' : Approx u n x' P' y') :
    Approx u n (x + x') (P + P') (y + y') where
  magnitude := (abs_add_le x x').trans (add_le_add h.magnitude h'.magnitude)
  error := by
    rw [add_sub_add_comm, mul_add]
    exact (abs_add_le _ _).trans (add_le_add h.error h'.error)

theorem sub (h' : Approx u n x' P' y') :
    Approx u n (x - x') (P + P') (y - y') := by
  rw [sub_eq_add_neg, sub_eq_add_neg]
  exact h.add h'.neg

end

end Approx

/-! ## What rounding does -/

section

variable (hu : 0 ≤ u)

include hu

theorem one_le_pow (n : ℕ) : 1 ≤ (1 + u) ^ n := one_le_pow₀ (by linarith)

namespace Approx

theorem mono (h : Approx u m x P y) (hmn : m ≤ n) : Approx u n x P y where
  magnitude := h.magnitude
  error := by
    refine h.error.trans (mul_le_mul_of_nonneg_right ?_ h.nonneg)
    exact sub_le_sub_right (pow_le_pow_right₀ (by linarith) hmn) 1

theorem mul (h : Approx u m x P y) (h' : Approx u n x' P' y') :
    Approx u (m + n) (x * x') (P * P') (y * y') where
  magnitude := by
    rw [abs_mul]
    exact mul_le_mul h.magnitude h'.magnitude (abs_nonneg _) h.nonneg
  error := by
    have hsplit : y * y' - x * x' = (y - x) * y' + x * (y' - x') := by ring
    have hm := one_le_pow hu m
    have hP := h.nonneg
    calc |y * y' - x * x'| ≤ |y - x| * |y'| + |x| * |y' - x'| := by
          rw [hsplit, ← abs_mul, ← abs_mul]
          exact abs_add_le _ _
      _ ≤ ((1 + u) ^ m - 1) * P * ((1 + u) ^ n * P') + P * (((1 + u) ^ n - 1) * P') := by
          refine add_le_add (mul_le_mul h.error h'.abs_value_le (abs_nonneg _) ?_)
            (mul_le_mul h.magnitude h'.error (abs_nonneg _) hP)
          exact mul_nonneg (by linarith) hP
      _ = ((1 + u) ^ (m + n) - 1) * (P * P') := by
          rw [pow_add]
          ring

theorem rnd (h : Approx u n x P y) (hd : |d| ≤ u) :
    Approx u (n + 1) x P (ForwardError.rnd d y) where
  magnitude := h.magnitude
  error := by
    have hsplit : ForwardError.rnd d y - x = (y - x) + d * y := by
      rw [ForwardError.rnd]
      ring
    calc |ForwardError.rnd d y - x| ≤ |y - x| + |d| * |y| := by
          rw [hsplit, ← abs_mul]
          exact abs_add_le _ _
      _ ≤ ((1 + u) ^ n - 1) * P + u * ((1 + u) ^ n * P) :=
          add_le_add h.error (mul_le_mul hd h.abs_value_le (abs_nonneg _) hu)
      _ = ((1 + u) ^ (n + 1) - 1) * P := by
          rw [pow_succ]
          ring

end Approx

end

namespace Above

theorem rnd (hu : u ≤ 1) (h : Above u n P y) (hd : |d| ≤ u) :
    Above u (n + 1) P (ForwardError.rnd d y) where
  nonneg := h.nonneg
  low := by
    have hlow := (abs_le.mp hd).1
    have hpow : 0 ≤ (1 - u) ^ n * P := mul_nonneg (pow_nonneg (by linarith) n) h.nonneg
    calc (1 - u) ^ (n + 1) * P = (1 - u) ^ n * P * (1 - u) := by
          rw [pow_succ]
          ring
      _ ≤ y * (1 + d) := mul_le_mul h.low (by linarith) (by linarith) (hpow.trans h.low)

theorem mono (hu0 : 0 ≤ u) (hu : u ≤ 1) (h : Above u m P y) (hmn : m ≤ n) : Above u n P y where
  nonneg := h.nonneg
  low := le_trans (mul_le_mul_of_nonneg_right
    (pow_le_pow_of_le_one (by linarith) (by linarith) hmn) h.nonneg) h.low

theorem add (h : Above u n P y) (h' : Above u n P' y') : Above u n (P + P') (y + y') where
  nonneg := add_nonneg h.nonneg h'.nonneg
  low := by
    rw [mul_add]
    exact add_le_add h.low h'.low

theorem mul (hu : u ≤ 1) (h : Above u m P y) (h' : Above u n P' y') :
    Above u (m + n) (P * P') (y * y') where
  nonneg := mul_nonneg h.nonneg h'.nonneg
  low := by
    have hlow (k : ℕ) {Q : ℚ} (hQ : 0 ≤ Q) : 0 ≤ (1 - u) ^ k * Q :=
      mul_nonneg (pow_nonneg (by linarith) k) hQ
    calc (1 - u) ^ (m + n) * (P * P') = (1 - u) ^ m * P * ((1 - u) ^ n * P') := by
          rw [pow_add]
          ring
      _ ≤ y * y' := mul_le_mul h.low h'.low (hlow n h'.nonneg) ((hlow m h.nonneg).trans h.low)

theorem scale {c : ℚ} (hc : 0 ≤ c) (h : Above u n P y) : Above u n (c * P) (c * y) where
  nonneg := mul_nonneg hc h.nonneg
  low := by
    rw [mul_left_comm]
    exact mul_le_mul_of_nonneg_left h.low hc

theorem abs_rnd (hu : u ≤ 1) (x : ℚ) (hd : |d| ≤ u) : Above u 1 |x| |ForwardError.rnd d x| where
  nonneg := abs_nonneg x
  low := by
    have hlow := (abs_le.mp hd).1
    rw [ForwardError.rnd, abs_mul, pow_one, mul_comm, abs_of_nonneg (a := 1 + d) (by linarith)]
    exact mul_le_mul_of_nonneg_left (by linarith) (abs_nonneg x)

end Above

/-! ## The sign of a sum of terms -/

def charged (u : ℚ) (n : ℕ) : ℚ := (1 + u) ^ n / (1 - u) - 1

section

variable (hu : 0 ≤ u) (hu1 : u < 1)

include hu hu1

theorem pow_succ_le_charged (n : ℕ) : (1 + u) ^ (n + 1) - 1 ≤ charged u n := by
  have hpow : 0 ≤ (1 + u) ^ n := pow_nonneg (by linarith) n
  rw [charged, pow_succ, div_eq_mul_inv]
  refine sub_le_sub_right (mul_le_mul_of_nonneg_left ?_ hpow) 1
  rw [← one_div, le_div_iff₀ (by linarith)]
  nlinarith

theorem Approx.div (h : Approx u n x P y) (hd : |d| ≤ u) :
    |y / (1 + d) - x| ≤ charged u n * P := by
  have hlow := (abs_le.mp hd).1
  have hpos : 0 < 1 + d := by linarith
  have hfactor : |d / (1 + d)| ≤ u / (1 - u) := by
    rw [abs_div, abs_of_pos hpos]
    exact div_le_div₀ hu hd (by linarith) (by linarith)
  have hsplit : y / (1 + d) - x = (y - x) + -(y * (d / (1 + d))) := by
    field_simp
    ring
  calc |y / (1 + d) - x| ≤ |y - x| + |y| * |d / (1 + d)| := by
        rw [hsplit, ← abs_mul, ← abs_neg (y * (d / (1 + d)))]
        exact abs_add_le _ _
    _ ≤ ((1 + u) ^ n - 1) * P + (1 + u) ^ n * P * (u / (1 - u)) :=
        add_le_add h.error (mul_le_mul h.abs_value_le hfactor (abs_nonneg _)
          ((abs_nonneg y).trans h.abs_value_le))
    _ = charged u n * P := by
        have hne : (1 - u) ≠ 0 := by linarith
        rw [charged]
        field_simp
        ring

/-- Two roundings at the end do not change which side of zero the sum may be on. -/
theorem rnd_le_of_scaled {c w v d d' : ℚ} (hc : 0 ≤ c) (hw : w ≤ c) (hd : |d| ≤ u) (hd' : |d'| ≤ u)
    (hv : v = w * (1 + d) ∨ v = w) : rnd d' v ≤ (1 + u) ^ 2 * c := by
  have hlow := (abs_le.mp hd).1
  have hhigh := (abs_le.mp hd).2
  have hlow' := (abs_le.mp hd').1
  have hhigh' := (abs_le.mp hd').2
  have hvc : v ≤ c * (1 + u) := by
    rcases hv with rfl | rfl
    · exact mul_le_mul hw (by linarith) (by linarith) hc
    · nlinarith
  calc rnd d' v ≤ c * (1 + u) * (1 + u) :=
        mul_le_mul hvc (by linarith) (by linarith) (by nlinarith)
    _ = (1 + u) ^ 2 * c := by ring

variable {x₁ x₂ x₃ x₄ P₁ P₂ P₃ P₄ y₁ y₂ y₃ y₄ d₁ d₂ d₃ : ℚ}

section

variable (h₁ : Approx u n x₁ P₁ y₁)

include h₁

section

variable (h₂ : Approx u n x₂ P₂ y₂)

include h₂

section

variable (h₃ : Approx u n x₃ P₃ y₃)

include h₃

/-- **Three terms**: the rounding of the first sum is charged to whichever part is the smaller. -/
theorem three_le (hd₁ : |d₁| ≤ u) (hd₂ : |d₂| ≤ u) (hneg : x₁ + x₂ + x₃ ≤ 0) :
    rnd d₂ (rnd d₁ (y₁ + y₂) + y₃) ≤
      (1 + u) ^ 2 * (((1 + u) ^ n - 1 + charged u n) / 2 * (P₁ + P₂ + P₃)) := by
  have hP₁ := h₁.nonneg
  have hP₂ := h₂.nonneg
  have hP₃ := h₃.nonneg
  have hone := one_le_pow hu n
  have hcharged := pow_succ_le_charged hu hu1 n
  have hgrow : (1 + u) ^ n ≤ (1 + u) ^ (n + 1) := pow_le_pow_right₀ (by linarith) n.le_succ
  have hsum : 0 ≤ ((1 + u) ^ n - 1 + charged u n) / 2 * (P₁ + P₂ + P₃) :=
    mul_nonneg (by linarith) (by linarith)
  have hpos : 1 + d₁ ≠ 0 := by linarith [(abs_le.mp hd₁).1]
  have h₁₂ := h₁.add h₂
  rcases le_total P₃ (P₁ + P₂) with hle | hle
  · have hscale : rnd d₁ (y₁ + y₂) + y₃ = (y₁ + y₂ + y₃ / (1 + d₁)) * (1 + d₁) := by
      rw [rnd]
      field_simp
    refine rnd_le_of_scaled hu hu1 hsum ?_ hd₁ hd₂ (Or.inl hscale)
    have herror := (abs_le.mp h₁₂.error).2
    have herror₃ := (abs_le.mp (h₃.div hu hu1 hd₁)).2
    nlinarith
  · refine rnd_le_of_scaled hu hu1 hsum ?_ hd₁ hd₂ (Or.inr rfl)
    have herror := (abs_le.mp (h₁₂.rnd hu hd₁).error).2
    have herror₃ := (abs_le.mp h₃.error).2
    nlinarith

/-- **Four terms**: the rounding of the second sum is charged to the last term. -/
theorem four_le {c : ℚ} (h₄ : Approx u n x₄ P₄ y₄) (hd₁ : |d₁| ≤ u) (hd₂ : |d₂| ≤ u)
    (hd₃ : |d₃| ≤ u) (hc : 0 ≤ c)
    (hsum : x₁ - x₂ + x₃ - x₄ + charged u n * (P₁ + P₂ + P₃ + P₄) ≤ c) :
    rnd d₃ (rnd d₂ (rnd d₁ (y₁ - y₂) + y₃) - y₄) ≤ (1 + u) ^ 2 * c := by
  have hP₁ := h₁.nonneg
  have hP₂ := h₂.nonneg
  have hP₃ := h₃.nonneg
  have hcharged := pow_succ_le_charged hu hu1 n
  have hpos : 1 + d₂ ≠ 0 := by linarith [(abs_le.mp hd₂).1]
  have hscale : rnd d₂ (rnd d₁ (y₁ - y₂) + y₃) - y₄ =
      (rnd d₁ (y₁ - y₂) + y₃ - y₄ / (1 + d₂)) * (1 + d₂) := by
    rw [rnd]
    field_simp
  refine rnd_le_of_scaled hu hu1 hc ?_ hd₂ hd₃ (Or.inl hscale)
  have herror := (abs_le.mp (((h₁.sub h₂).rnd hu hd₁).add (h₃.mono hu n.le_succ)).error).2
  have herror₄ := (abs_le.mp (h₄.div hu hu1 hd₂)).1
  nlinarith

theorem three_ge (hd₁ : |d₁| ≤ u) (hd₂ : |d₂| ≤ u) (hpos : 0 ≤ x₁ + x₂ + x₃) :
    -((1 + u) ^ 2 * (((1 + u) ^ n - 1 + charged u n) / 2 * (P₁ + P₂ + P₃))) ≤
      rnd d₂ (rnd d₁ (y₁ + y₂) + y₃) := by
  have hle := three_le hu hu1 h₁.neg h₂.neg h₃.neg hd₁ hd₂ (by linarith)
  have hneg : rnd d₂ (rnd d₁ (-y₁ + -y₂) + -y₃) = -rnd d₂ (rnd d₁ (y₁ + y₂) + y₃) := by
    simp only [rnd]
    ring
  linarith

theorem four_ge {c : ℚ} (h₄ : Approx u n x₄ P₄ y₄) (hd₁ : |d₁| ≤ u) (hd₂ : |d₂| ≤ u)
    (hd₃ : |d₃| ≤ u) (hc : 0 ≤ c)
    (hsum : charged u n * (P₁ + P₂ + P₃ + P₄) ≤ x₁ - x₂ + x₃ - x₄ + c) :
    -((1 + u) ^ 2 * c) ≤ rnd d₃ (rnd d₂ (rnd d₁ (y₁ - y₂) + y₃) - y₄) := by
  have hle := four_le hu hu1 h₁.neg h₂.neg h₃.neg h₄.neg hd₁ hd₂ hd₃ hc (by linarith)
  have hneg : rnd d₃ (rnd d₂ (rnd d₁ (-y₁ - -y₂) + -y₃) - -y₄) =
      -rnd d₃ (rnd d₂ (rnd d₁ (y₁ - y₂) + y₃) - y₄) := by
    simp only [rnd]
    ring
  linarith

end

end

end

end

end ForwardError
