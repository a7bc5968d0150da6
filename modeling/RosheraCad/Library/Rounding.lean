import Mathlib.Data.Int.Log
import Mathlib.Data.Rat.Floor
import Mathlib.Tactic.Positivity

/-!
# Rounding to a number of significant bits

A floating number of precision `p` is a multiple of a power of two, `2 ^ e`, below `2 ^ (p + e)`,
with no bound on the exponent. Rounding is to the nearest one, ties to even. The error of a sum of
two floating numbers is a floating number.
-/

namespace Rounding

def Multiple (e : ℤ) (x : ℚ) : Prop := ∃ k : ℤ, x = k * 2 ^ e

section

variable {e f : ℤ} {x y : ℚ}

theorem two_zpow_pos (e : ℤ) : (0 : ℚ) < 2 ^ e := zpow_pos two_pos e

theorem two_zpow_le (h : e ≤ f) : (2 : ℚ) ^ e ≤ 2 ^ f := zpow_le_zpow_right₀ one_le_two h

theorem two_zpow_succ (e : ℤ) : (2 : ℚ) ^ (e + 1) = 2 * 2 ^ e := by
  rw [zpow_add_one₀ two_ne_zero, mul_comm]

namespace Multiple

theorem zero (e : ℤ) : Multiple e 0 := ⟨0, by simp⟩

theorem zpow (h : e ≤ f) : Multiple e (2 ^ f) :=
  ⟨2 ^ (f - e).toNat, by
    rw [Int.cast_pow, Int.cast_ofNat, ← zpow_natCast, Int.toNat_of_nonneg (sub_nonneg.mpr h),
      ← zpow_add₀ two_ne_zero, sub_add_cancel]⟩

theorem add (hx : Multiple e x) (hy : Multiple e y) : Multiple e (x + y) := by
  obtain ⟨k, rfl⟩ := hx
  obtain ⟨l, rfl⟩ := hy
  exact ⟨k + l, by push_cast; ring⟩

theorem neg (hx : Multiple e x) : Multiple e (-x) := by
  obtain ⟨k, rfl⟩ := hx
  exact ⟨-k, by push_cast; ring⟩

theorem sub (hx : Multiple e x) (hy : Multiple e y) : Multiple e (x - y) := by
  rw [sub_eq_add_neg]
  exact hx.add hy.neg

theorem of_le (hx : Multiple f x) (h : e ≤ f) : Multiple e x := by
  obtain ⟨k, rfl⟩ := hx
  obtain ⟨l, hl⟩ := zpow h
  exact ⟨k * l, by rw [hl]; push_cast; ring⟩

theorem abs (hx : Multiple e x) : Multiple e |x| := by
  rcases abs_choice x with h | h <;> rw [h]
  · exact hx
  · exact hx.neg

theorem add_le_of_lt (hx : Multiple e x) (hy : Multiple e y) (h : x < y) : x + 2 ^ e ≤ y := by
  obtain ⟨k, rfl⟩ := hx
  obtain ⟨l, rfl⟩ := hy
  have hkl : k < l := by
    have := lt_of_mul_lt_mul_right h (two_zpow_pos e).le
    exact_mod_cast this
  have hle : (k : ℚ) + 1 ≤ l := by exact_mod_cast hkl
  nlinarith [two_zpow_pos e]

end Multiple

end

/-! ## To the nearest integer -/

def roundEven (x : ℚ) : ℤ :=
  if x - ⌊x⌋ < 1 / 2 then ⌊x⌋
  else if 1 / 2 < x - ⌊x⌋ then ⌊x⌋ + 1
  else if ⌊x⌋ % 2 = 0 then ⌊x⌋ else ⌊x⌋ + 1

theorem roundEven_cases (x : ℚ) :
    roundEven x = ⌊x⌋ ∧ x - ⌊x⌋ ≤ 1 / 2 ∨ roundEven x = ⌊x⌋ + 1 ∧ 1 / 2 ≤ x - ⌊x⌋ := by
  unfold roundEven
  split_ifs with h₁ h₂ h₃
  · exact Or.inl ⟨rfl, h₁.le⟩
  · exact Or.inr ⟨rfl, h₂.le⟩
  · exact Or.inl ⟨rfl, not_lt.mp h₂⟩
  · exact Or.inr ⟨rfl, not_lt.mp h₁⟩

theorem abs_sub_roundEven_le (x : ℚ) (k : ℤ) : |x - roundEven x| ≤ |x - k| := by
  have hfloor := Int.floor_le x
  have hceil := Int.lt_floor_add_one x
  have hsplit : (k : ℚ) ≤ ⌊x⌋ ∨ (⌊x⌋ : ℚ) + 1 ≤ k := by
    rcases le_or_gt k ⌊x⌋ with h | h
    · exact Or.inl (by exact_mod_cast h)
    · exact Or.inr (by exact_mod_cast h)
  rcases roundEven_cases x with ⟨hround, hhalf⟩ | ⟨hround, hhalf⟩ <;> rw [hround] <;>
    push_cast <;> rcases hsplit with h | h
  · rw [abs_of_nonneg (by linarith), abs_of_nonneg (by linarith)]
    linarith
  · rw [abs_of_nonneg (by linarith), abs_of_nonpos (by linarith)]
    linarith
  · rw [abs_of_nonpos (by linarith), abs_of_nonneg (by linarith)]
    linarith
  · rw [abs_of_nonpos (by linarith), abs_of_nonpos (by linarith)]
    linarith

theorem abs_sub_roundEven_le_half (x : ℚ) : |x - roundEven x| ≤ 1 / 2 := by
  have hfloor := Int.floor_le x
  have hceil := Int.lt_floor_add_one x
  rcases roundEven_cases x with ⟨hround, hhalf⟩ | ⟨hround, hhalf⟩ <;> rw [hround, abs_le] <;>
    push_cast <;> constructor <;> linarith

theorem even_of_abs_sub_roundEven {x : ℚ} (h : |x - roundEven x| = 1 / 2) :
    roundEven x % 2 = 0 := by
  have hfloor := Int.floor_le x
  unfold roundEven at h ⊢
  split_ifs at h ⊢ with h₁ h₂ h₃
  · rw [abs_of_nonneg (by linarith)] at h
    exact absurd h h₁.ne
  · push_cast at h
    have hceil := Int.lt_floor_add_one x
    rw [abs_of_nonpos (by linarith)] at h
    linarith
  · exact h₃
  · omega

theorem roundEven_eq {x : ℚ} {k : ℤ} (h : |x - k| ≤ 1 / 2) (heven : |x - k| = 1 / 2 → k % 2 = 0) :
    roundEven x = k := by
  have hround := abs_sub_roundEven_le_half x
  have hdist : |(roundEven x : ℚ) - k| ≤ 1 := by
    rw [show (roundEven x : ℚ) - k = (x - k) - (x - roundEven x) by ring]
    exact (abs_sub _ _).trans (by linarith)
  have hint : |roundEven x - k| ≤ 1 := by exact_mod_cast hdist
  rcases eq_or_ne (roundEven x) k with heq | hne
  · exact heq
  -- both at half a step, they would be neighbours and both even
  have hone : |(roundEven x : ℚ) - k| = 1 := by
    have : |roundEven x - k| = 1 := le_antisymm hint (Int.one_le_abs (sub_ne_zero.mpr hne))
    exact_mod_cast this
  have htriangle := abs_sub (x - k) (x - roundEven x)
  rw [show x - k - (x - roundEven x) = roundEven x - k by ring, hone] at htriangle
  have h₁ := heven (by linarith)
  have h₂ := even_of_abs_sub_roundEven (x := x) (by linarith)
  rw [abs_le] at hint
  omega

theorem roundEven_neg (x : ℚ) : roundEven (-x) = -roundEven x := by
  have habs : |-x - ((-roundEven x : ℤ) : ℚ)| = |x - roundEven x| := by
    rw [Int.cast_neg, sub_neg_eq_add, neg_add_eq_sub, abs_sub_comm]
  refine roundEven_eq (habs.le.trans (abs_sub_roundEven_le_half x)) fun h ↦ ?_
  have := even_of_abs_sub_roundEven (habs.symm.trans h)
  omega

/-! ## To a precision -/

section

variable (p : ℕ)

def IsFloat (x : ℚ) : Prop := ∃ e : ℤ, Multiple e x ∧ |x| < 2 ^ (p + e)

def lastBit (x : ℚ) : ℤ := Int.log 2 |x| + 1 - p

/-- The nearest number of `p` bits, ties to even. -/
def fl (x : ℚ) : ℚ := roundEven (x / 2 ^ lastBit p x) * 2 ^ lastBit p x

variable {p} {e f : ℤ} {x y a b : ℚ}

theorem zpow_le_abs (hx : x ≠ 0) : (2 : ℚ) ^ (p + lastBit p x) ≤ 2 * |x| := by
  have hlog := Int.zpow_log_le_self (b := 2) one_lt_two (abs_pos.mpr hx)
  rw [lastBit, show (p : ℤ) + (Int.log 2 |x| + 1 - p) = Int.log 2 |x| + 1 by ring, two_zpow_succ]
  exact mul_le_mul_of_nonneg_left (by exact_mod_cast hlog) two_pos.le

theorem abs_lt_zpow (x : ℚ) : |x| < 2 ^ (p + lastBit p x) := by
  have hlog := Int.lt_zpow_succ_log_self (b := 2) one_lt_two |x|
  rw [lastBit, show (p : ℤ) + (Int.log 2 |x| + 1 - p) = Int.log 2 |x| + 1 by ring]
  exact_mod_cast hlog

theorem multiple_lastBit_fl (x : ℚ) : Multiple (lastBit p x) (fl p x) := ⟨_, rfl⟩

theorem abs_sub_fl (x : ℚ) : |x - fl p x| =
    |x / 2 ^ lastBit p x - roundEven (x / 2 ^ lastBit p x)| * 2 ^ lastBit p x := by
  have hpos := two_zpow_pos (lastBit p x)
  rw [fl, ← abs_of_pos hpos, ← abs_mul, abs_of_pos hpos, sub_mul, div_mul_cancel₀ _ hpos.ne']

theorem fl_nearest_multiple (h : Multiple (lastBit p x) y) : |x - fl p x| ≤ |x - y| := by
  obtain ⟨k, rfl⟩ := h
  have hpos := two_zpow_pos (lastBit p x)
  rw [abs_sub_fl, show x - k * 2 ^ lastBit p x = (x / 2 ^ lastBit p x - k) * 2 ^ lastBit p x by
    rw [sub_mul, div_mul_cancel₀ _ hpos.ne'], abs_mul, abs_of_pos hpos]
  exact mul_le_mul_of_nonneg_right (abs_sub_roundEven_le _ k) hpos.le

theorem two_mul_abs_sub_fl_le (x : ℚ) : 2 * |x - fl p x| ≤ 2 ^ lastBit p x := by
  rw [abs_sub_fl]
  nlinarith [abs_sub_roundEven_le_half (x / 2 ^ lastBit p x), two_zpow_pos (lastBit p x)]

theorem fl_of_multiple (h : Multiple (lastBit p x) x) : fl p x = x := by
  have := fl_nearest_multiple h
  rw [sub_self, abs_zero] at this
  exact (sub_eq_zero.mp (abs_nonpos_iff.mp this)).symm

theorem Multiple.fl (h : Multiple e x) : Multiple e (fl p x) := by
  rcases le_total e (lastBit p x) with hle | hle
  · exact (multiple_lastBit_fl x).of_le hle
  · rwa [fl_of_multiple (h.of_le hle)]

/-- A number of `p` bits from some power on is a multiple of what the last bit then stands for. -/
theorem IsFloat.multiple (h : IsFloat p x) (hle : (2 : ℚ) ^ (p + e) ≤ 2 * |x|) : Multiple e x := by
  obtain ⟨f, hf, hlt⟩ := h
  refine hf.of_le ?_
  by_contra! hfe
  have := two_zpow_le (show (p : ℤ) + (f + 1) ≤ p + e by omega)
  rw [← add_assoc, two_zpow_succ] at this
  linarith

theorem fl_of_isFloat (h : IsFloat p x) : fl p x = x := by
  rcases eq_or_ne x 0 with rfl | hx
  · exact fl_of_multiple (.zero _)
  · exact fl_of_multiple (h.multiple (zpow_le_abs hx))

theorem isFloat_of_le (hp : 0 < p) (h : Multiple e x) (hle : |x| ≤ 2 ^ (p + e)) : IsFloat p x := by
  rcases hle.lt_or_eq with hlt | heq
  · exact ⟨e, h, hlt⟩
  · refine ⟨e + 1, ?_, ?_⟩
    · have hm : Multiple (e + 1) |x| := by
        rw [heq]
        exact .zpow (by omega)
      rcases abs_choice x with hx | hx
      · rwa [hx] at hm
      · rw [hx] at hm
        simpa using hm.neg
    · rw [heq, ← add_assoc, two_zpow_succ]
      linarith [two_zpow_pos (p + e)]

theorem isFloat_fl (hp : 0 < p) (x : ℚ) : IsFloat p (fl p x) := by
  have hm := multiple_lastBit_fl (p := p) x
  refine isFloat_of_le hp hm ?_
  by_contra! hlt
  have hpow : Multiple (lastBit p x) (2 ^ (p + lastBit p x)) := .zpow (by omega)
  have hstep := hpow.add_le_of_lt hm.abs hlt
  have herror := two_mul_abs_sub_fl_le (p := p) x
  have htriangle := abs_sub_abs_le_abs_sub (fl p x) x
  rw [abs_sub_comm] at htriangle
  linarith [abs_lt_zpow (p := p) x, two_zpow_pos (lastBit p x)]

theorem IsFloat.neg (h : IsFloat p x) : IsFloat p (-x) := by
  obtain ⟨e, he, hlt⟩ := h
  exact ⟨e, he.neg, by rwa [abs_neg]⟩

theorem fl_nearest (hp : 0 < p) (x : ℚ) (hy : IsFloat p y) : |x - fl p x| ≤ |x - y| := by
  by_cases hm : Multiple (lastBit p x) y
  · exact fl_nearest_multiple hm
  rcases eq_or_ne x 0 with rfl | hx
  · rw [fl_of_multiple (.zero _), sub_self, abs_zero]
    exact abs_nonneg _
  -- the power of two at the start of the binade is between the two
  have hlt : 2 * |y| < 2 ^ (p + lastBit p x) := not_le.mp (mt hy.multiple hm)
  have hpow := two_zpow_succ (p + lastBit p x - 1)
  rw [sub_add_cancel] at hpow
  have hle := zpow_le_abs (p := p) hx
  have hstart : Multiple (lastBit p x) (2 ^ (p + lastBit p x - 1)) := .zpow (by omega)
  have htriangle := abs_sub_abs_le_abs_sub x y
  rcases abs_cases x with ⟨habs, -⟩ | ⟨habs, -⟩
  · refine (fl_nearest_multiple hstart).trans ?_
    rw [abs_of_nonneg (by linarith)]
    linarith
  · refine (fl_nearest_multiple hstart.neg).trans ?_
    rw [abs_of_nonpos (by linarith)]
    linarith

/-! ## Sums that keep their error -/

theorem error_isFloat (hp : 0 < p) (ha : IsFloat p a) (hb : IsFloat p b) :
    IsFloat p (a + b - fl p (a + b)) := by
  have hnear (c d : ℚ) (hd : IsFloat p d) (hc : c + d = a + b) : |a + b - fl p (a + b)| ≤ |c| := by
    have := fl_nearest hp (a + b) hd
    rwa [← hc, add_sub_cancel_right, hc] at this
  obtain ⟨e, he, hae⟩ := ha
  obtain ⟨f, hf, hbf⟩ := hb
  rcases le_total e f with hle | hle
  · have hsum := he.add (hf.of_le hle)
    exact ⟨e, hsum.sub hsum.fl, (hnear a b ⟨f, hf, hbf⟩ rfl).trans_lt hae⟩
  · have hsum := (he.of_le hle).add hf
    exact ⟨f, hsum.sub hsum.fl, (hnear b a ⟨e, he, hae⟩ (add_comm b a)).trans_lt hbf⟩

/-- **What a rounded sum is more than its first term** is a number of `p` bits. -/
theorem sub_isFloat (hp : 0 < p) (ha : IsFloat p a) (hae : Multiple e a) (hbe : Multiple e b)
    (hb : |b| < 2 ^ (p + e)) : IsFloat p (fl p (a + b) - a) := by
  by_cases hexact : fl p (a + b) = a + b
  · rw [hexact, add_sub_cancel_left]
    exact ⟨e, hbe, hb⟩
  have hne : a + b ≠ 0 := by
    intro h
    exact hexact (by rw [h, fl_of_multiple (.zero _)])
  have hlast : e < lastBit p (a + b) := by
    by_contra! hle
    exact hexact (fl_of_multiple ((hae.add hbe).of_le hle))
  have herror := two_mul_abs_sub_fl_le (p := p) (a + b)
  have hdiff : |fl p (a + b) - a| ≤ |b| + |a + b - fl p (a + b)| := by
    rw [show fl p (a + b) - a = b - (a + b - fl p (a + b)) by ring]
    exact abs_sub _ _
  set h := lastBit p (a + b) with hh
  rcases (Int.add_one_le_iff.mpr hlast).eq_or_lt with heq | hlt
  · -- the error is at most one step of the second term
    rw [← heq, two_zpow_succ] at herror
    have hstep := hbe.abs.add_le_of_lt (.zpow (show e ≤ p + e by omega)) hb
    exact isFloat_of_le hp ((hae.add hbe).fl.sub hae) (by linarith)
  · -- the first term is so large that its last bit is next to that of the sum
    have hbig := zpow_le_abs (p := p) hne
    rw [← hh] at hbig
    have h₁ := two_zpow_succ (p + h - 1)
    have h₂ := two_zpow_succ (p + h - 2)
    rw [sub_add_cancel] at h₁
    rw [show (p + h - 2 + 1 : ℤ) = p + h - 1 by ring] at h₂
    have hsmall := hb.trans_le (two_zpow_le (show (p : ℤ) + e ≤ p + h - 2 by omega))
    have htriangle := abs_add_le a b
    have hlow := two_zpow_le (show h - 1 ≤ (p : ℤ) + h - 2 by omega)
    have hhalf := two_zpow_succ (h - 1)
    rw [sub_add_cancel] at hhalf
    have hshift : (p : ℤ) + (h - 1) = p + h - 1 := by ring
    have ha' : Multiple (h - 1) a := ha.multiple (by rw [hshift]; linarith)
    refine isFloat_of_le hp (((multiple_lastBit_fl (a + b)).of_le (sub_one_lt _).le).sub ha') ?_
    rw [hshift]
    linarith

variable (p) in
def twoSum (a b : ℚ) : ℚ × ℚ :=
  let x := fl p (a + b)
  let bvirt := fl p (x - a)
  let avirt := fl p (x - bvirt)
  let bround := fl p (b - bvirt)
  let around := fl p (a - avirt)
  (x, fl p (around + bround))

variable (p) in
def fastTwoSum (a b : ℚ) : ℚ × ℚ :=
  let x := fl p (a + b)
  let bvirt := fl p (x - a)
  (x, fl p (b - bvirt))

theorem fastTwoSum_of_isFloat (hp : 0 < p) (ha : IsFloat p a) (hb : IsFloat p b)
    (hsub : IsFloat p (fl p (a + b) - a)) :
    (fastTwoSum p a b).1 + (fastTwoSum p a b).2 = a + b := by
  have herror := error_isFloat hp ha hb
  simp only [fastTwoSum]
  rw [fl_of_isFloat hsub, sub_sub_eq_add_sub, add_comm b, fl_of_isFloat herror]
  ring

theorem twoSum_exact (hp : 0 < p) (ha : IsFloat p a) (hb : IsFloat p b) :
    (twoSum p a b).1 + (twoSum p a b).2 = a + b := by
  have herror := error_isFloat hp ha hb
  simp only [twoSum]
  set x := fl p (a + b) with hx
  set bvirt := fl p (x - a) with hbvirt
  -- it is enough that the difference to the first term, and what is left of each, is exact
  suffices h : IsFloat p (x - bvirt) ∧ IsFloat p (b - bvirt) ∧ IsFloat p (a - (x - bvirt)) by
    rw [fl_of_isFloat h.1, fl_of_isFloat h.2.1, fl_of_isFloat h.2.2,
      show a - (x - bvirt) + (b - bvirt) = a + b - x by ring, fl_of_isFloat herror]
    ring
  obtain ⟨e, he, hae⟩ := ha
  obtain ⟨f, hf, hbf⟩ := hb
  rcases le_total f e with hle | hle
  · have hvirt : bvirt = x - a := fl_of_isFloat (sub_isFloat hp ⟨e, he, hae⟩ (he.of_le hle) hf hbf)
    rw [hvirt, show x - (x - a) = a by ring, show b - (x - a) = a + b - x by ring, sub_self]
    exact ⟨⟨e, he, hae⟩, herror, ⟨e, .zero e, by rw [abs_zero]; exact two_zpow_pos _⟩⟩
  · have hsum := he.add (hf.of_le hle)
    have hnear : |a + b - x| ≤ |a| := by
      have := fl_nearest hp (a + b) (show IsFloat p b from ⟨f, hf, hbf⟩)
      rwa [add_sub_cancel_right] at this
    refine ⟨?_, ?_, ?_⟩
    · have := sub_isFloat hp (isFloat_fl hp (a + b)) hsum.fl he.neg (by rwa [abs_neg])
      rw [← sub_eq_add_neg, ← hx, ← hbvirt] at this
      simpa using this.neg
    · have hshift : b + (x - (a + b)) = x - a := by ring
      have := sub_isFloat hp (show IsFloat p b from ⟨f, hf, hbf⟩) (hf.of_le hle)
        (hsum.fl.sub hsum) ((abs_sub_comm _ _).trans_lt (hnear.trans_lt hae))
      rw [← hx, hshift, ← hbvirt] at this
      simpa using this.neg
    · have := error_isFloat hp (isFloat_fl hp (a + b)) (show IsFloat p (-a) from
        ⟨e, he.neg, by rwa [abs_neg]⟩)
      rw [← hx, ← sub_eq_add_neg, ← hbvirt] at this
      have hneg : a - (x - bvirt) = -(x - a - bvirt) := by ring
      rw [hneg]
      exact this.neg

theorem Multiple.twoSum (ha : Multiple e a) (hb : Multiple e b) :
    Multiple e (twoSum p a b).1 ∧ Multiple e (twoSum p a b).2 := by
  have hx : Multiple e (Rounding.fl p (a + b)) := (ha.add hb).fl
  have hvirt := (hx.sub ha).fl (p := p)
  exact ⟨hx, ((ha.sub (hx.sub hvirt).fl).fl.add (hb.sub hvirt).fl).fl⟩

theorem Multiple.fastTwoSum (ha : Multiple e a) (hb : Multiple e b) :
    Multiple e (fastTwoSum p a b).1 ∧ Multiple e (fastTwoSum p a b).2 := by
  have hx : Multiple e (Rounding.fl p (a + b)) := (ha.add hb).fl
  exact ⟨hx, (hb.sub (hx.sub ha).fl).fl⟩

/-! ## A first term that is the smaller one -/

theorem fl_neg (x : ℚ) : fl p (-x) = -fl p x := by
  rw [fl, lastBit, abs_neg, ← lastBit, neg_div, roundEven_neg, fl]
  push_cast
  ring

theorem fastTwoSum_neg (a b : ℚ) : fastTwoSum p (-a) (-b) =
    (-(fastTwoSum p a b).1, -(fastTwoSum p a b).2) := by
  have hx : fl p (-a + -b) = -fl p (a + b) := by rw [← neg_add, fl_neg]
  have hvirt : fl p (-fl p (a + b) - -a) = -fl p (fl p (a + b) - a) := by
    rw [neg_sub_neg, ← neg_sub, fl_neg]
  have herror : fl p (-b - -fl p (fl p (a + b) - a)) = -fl p (b - fl p (fl p (a + b) - a)) := by
    rw [neg_sub_neg, ← neg_sub, fl_neg]
  simp only [fastTwoSum, hx, hvirt, herror]

theorem lastBit_eq (hlow : (2 : ℚ) ^ (p + e) ≤ 2 * |x|) (hhigh : |x| < 2 ^ (p + e)) :
    lastBit p x = e := by
  have hx : x ≠ 0 := by
    rintro rfl
    rw [abs_zero, mul_zero] at hlow
    exact hlow.not_gt (two_zpow_pos _)
  have h₁ := (zpow_le_abs (p := p) hx).trans_lt (mul_lt_mul_of_pos_left hhigh two_pos)
  have h₂ := hlow.trans_lt (mul_lt_mul_of_pos_left (abs_lt_zpow (p := p) x) two_pos)
  rw [← two_zpow_succ, zpow_lt_zpow_iff_right₀ one_lt_two] at h₁ h₂
  omega

theorem fl_eq {k : ℤ} (hlow : (2 : ℚ) ^ (p + e) ≤ 2 * |x|) (hhigh : |x| < 2 ^ (p + e))
    (h : 2 * |x - k * 2 ^ e| ≤ 2 ^ e) (heven : 2 * |x - k * 2 ^ e| = 2 ^ e → k % 2 = 0) :
    fl p x = k * 2 ^ e := by
  have hpos := two_zpow_pos e
  have hscale : |x / 2 ^ e - k| * 2 ^ e = |x - k * 2 ^ e| := by
    rw [← abs_of_pos hpos, ← abs_mul, abs_of_pos hpos, sub_mul, div_mul_cancel₀ _ hpos.ne']
  rw [fl, lastBit_eq hlow hhigh, roundEven_eq]
  · nlinarith
  · intro hhalf
    rw [hhalf] at hscale
    exact heven (by rw [← hscale]; ring)

/-! ### A first term with an odd last bit, and a power of two above it -/

structure OddBits (p : ℕ) (m : ℤ) : Prop where
  low : (2 : ℤ) ^ p ≤ 2 * m
  high : m < 2 ^ p
  odd : m % 2 = 1

section

variable (hp : 2 ≤ p) {k m : ℤ}

theorem zpow_add_natCast (k : ℤ) : (2 : ℚ) ^ (p + k) = 2 ^ p * 2 ^ k := by
  rw [zpow_add₀ two_ne_zero, zpow_natCast]

theorem OddBits.isFloat (h : OddBits p m) : IsFloat p (m * 2 ^ k) := by
  have hlow : 0 ≤ m := by
    have := h.low
    have : (0 : ℤ) < 2 ^ p := by positivity
    omega
  have hhigh : (m : ℚ) < 2 ^ p := by exact_mod_cast h.high
  refine ⟨k, ⟨m, rfl⟩, ?_⟩
  rw [abs_of_nonneg (mul_nonneg (by exact_mod_cast hlow) (two_zpow_pos k).le), zpow_add_natCast]
  exact mul_lt_mul_of_pos_right hhigh (two_zpow_pos k)

theorem isFloat_zpow (hp : 0 < p) (k : ℤ) : IsFloat p (2 ^ (p + k)) :=
  isFloat_of_le hp (.zpow (by omega : k ≤ p + k)) (abs_of_pos (two_zpow_pos _)).le

theorem fl_of_half {n d : ℤ} (hlow : (2 : ℤ) ^ p ≤ n) (hhigh : n < 2 * 2 ^ p) (hd : |d| = 1)
    (heven : (n + d) % 4 = 0) : fl p (n * 2 ^ k) = (n + d) * 2 ^ k := by
  obtain ⟨j, hj⟩ : ∃ j, n + d = 2 * j := ⟨(n + d) / 2, by omega⟩
  have hj' : (n : ℚ) + d = 2 * j := by exact_mod_cast hj
  have hlow' : (2 : ℚ) ^ p ≤ n := by exact_mod_cast hlow
  have hhigh' : (n : ℚ) < 2 * 2 ^ p := by exact_mod_cast hhigh
  have hd' : |(d : ℚ)| = 1 := by exact_mod_cast hd
  have hpos := two_zpow_pos k
  have hp2 : (0 : ℚ) < 2 ^ p := by positivity
  have hstep : (2 : ℚ) ^ (p + (k + 1)) = 2 * (2 ^ p * 2 ^ k) := by
    rw [← add_assoc, two_zpow_succ, zpow_add_natCast]
  have habs : |(n : ℚ) * 2 ^ k| = n * 2 ^ k :=
    abs_of_nonneg (mul_nonneg (hp2.le.trans hlow') hpos.le)
  have hhalf : (j : ℚ) * 2 ^ (k + 1) = (n + d) * 2 ^ k := by
    rw [two_zpow_succ, hj']
    ring
  have hdist : |(n : ℚ) * 2 ^ k - j * 2 ^ (k + 1)| = 2 ^ k := by
    rw [hhalf, show (n : ℚ) * 2 ^ k - (n + d) * 2 ^ k = -(d * 2 ^ k) by ring, abs_neg, abs_mul,
      hd', one_mul, abs_of_pos hpos]
  rw [← hhalf]
  refine fl_eq ?_ ?_ ?_ fun _ ↦ by omega
  · rw [hstep, habs]
    nlinarith
  · rw [hstep, habs]
    nlinarith
  · rw [hdist, two_zpow_succ]

include hp

theorem four_dvd : (2 : ℤ) ^ p % 4 = 0 := by
  obtain ⟨n, rfl⟩ := Nat.exists_eq_add_of_le hp
  rw [pow_add]
  omega

theorem OddBits.fastTwoSum_lost (h : OddBits p m) (hup : m % 4 = 3) :
    fastTwoSum p (m * 2 ^ k) (2 ^ (p + k)) =
      ((m : ℚ) * 2 ^ k + 2 ^ (p + k) + 2 ^ k, 0) := by
  have hfour := four_dvd hp
  obtain ⟨hlow, hhigh, -⟩ := h
  have hx : fl p (m * 2 ^ k + 2 ^ (p + k)) = m * 2 ^ k + 2 ^ (p + k) + 2 ^ k := by
    have := fl_of_half (p := p) (k := k) (n := m + 2 ^ p) (d := 1) (by omega) (by omega) (by simp)
      (by omega)
    push_cast at this
    rw [zpow_add_natCast, ← add_mul, this]
    ring
  have hvirt : fl p (m * 2 ^ k + 2 ^ (p + k) + 2 ^ k - m * 2 ^ k) = 2 ^ (p + k) := by
    have := fl_of_half (p := p) (k := k) (n := 2 ^ p + 1) (d := -1) (by omega) (by omega) (by simp)
      (by omega)
    push_cast at this
    rw [zpow_add_natCast, show (m : ℚ) * 2 ^ k + 2 ^ p * 2 ^ k + 2 ^ k - m * 2 ^ k =
      (2 ^ p + 1) * 2 ^ k by ring, this]
    ring
  simp only [fastTwoSum, hx, hvirt, sub_self, fl_of_multiple (.zero _)]

theorem OddBits.fastTwoSum_kept (h : OddBits p m) (hdown : m % 4 = 1) :
    (fastTwoSum p (m * 2 ^ k) (2 ^ (p + k))).1 + (fastTwoSum p (m * 2 ^ k) (2 ^ (p + k))).2 =
      (m : ℚ) * 2 ^ k + 2 ^ (p + k) := by
  have hfour := four_dvd hp
  have hfloat := h.isFloat (k := k)
  obtain ⟨hlow, hhigh, -⟩ := h
  have hpos : 0 < p := by omega
  refine fastTwoSum_of_isFloat hpos hfloat (isFloat_zpow hpos k) ?_
  have := fl_of_half (p := p) (k := k) (n := m + 2 ^ p) (d := -1) (by omega) (by omega) (by simp)
    (by omega)
  push_cast at this
  rw [zpow_add_natCast, ← add_mul, this, ← sub_mul]
  refine ⟨k, ⟨2 ^ p - 1, by push_cast; ring⟩, ?_⟩
  have hone : (1 : ℚ) ≤ 2 ^ p := one_le_pow₀ one_le_two
  rw [show (m : ℚ) + 2 ^ p + -1 - m = 2 ^ p - 1 by ring, abs_of_nonneg
    (mul_nonneg (by linarith) (two_zpow_pos k).le), zpow_add_natCast]
  nlinarith [two_zpow_pos k]

theorem OddBits.fastTwoSum_opposite (h : OddBits p m) :
    (fastTwoSum p (-(m * 2 ^ k)) (2 ^ (p + k))).1 +
      (fastTwoSum p (-(m * 2 ^ k)) (2 ^ (p + k))).2 = -((m : ℚ) * 2 ^ k) + 2 ^ (p + k) := by
  have hpos : 0 < p := by omega
  have hb := isFloat_zpow hpos k
  refine fastTwoSum_of_isFloat hpos h.isFloat.neg hb ?_
  have hfloat : IsFloat p (-((m : ℚ) * 2 ^ k) + 2 ^ (p + k)) := by
    have hlow : (0 : ℚ) < m := by
      have := h.low
      have : (0 : ℤ) < 2 ^ p := by positivity
      exact_mod_cast (by omega : 0 < m)
    have hhigh : (m : ℚ) < 2 ^ p := by exact_mod_cast h.high
    have hk := two_zpow_pos k
    refine ⟨k, ⟨2 ^ p - m, by push_cast; rw [zpow_add_natCast]; ring⟩, ?_⟩
    rw [zpow_add_natCast, abs_of_nonneg (by nlinarith)]
    nlinarith
  rw [fl_of_isFloat hfloat, show -((m : ℚ) * 2 ^ k) + 2 ^ (p + k) - -(m * 2 ^ k) =
    2 ^ (p + k) by ring]
  exact hb

end

def Lost (p : ℕ) (a b : ℚ) : Prop :=
  ∃ k m : ℤ, OddBits p m ∧ m % 4 = 3 ∧
    (a = m * 2 ^ k ∧ b = 2 ^ (p + k) ∨ a = -(m * 2 ^ k) ∧ b = -2 ^ (p + k))

theorem not_multiple_of_odd {m k : ℤ} (h : m % 2 = 1) : ¬ Multiple (k + 1) (m * 2 ^ k) := by
  rintro ⟨j, hj⟩
  rw [two_zpow_succ, ← mul_assoc] at hj
  have := mul_right_cancel₀ (two_zpow_pos k).ne' hj
  have : m = j * 2 := by exact_mod_cast this
  omega

theorem Lost.fastTwoSum (hp : 2 ≤ p) (h : Lost p a b) : ∃ k x, Rounding.fastTwoSum p a b = (x, 0) ∧
    Multiple (k + 1) x ∧ ¬ Multiple (k + 1) a ∧ |b| = 2 ^ (p + k) ∧ 2 ^ (p + k) ≤ 2 * |a| := by
  obtain ⟨k, m, hm, hup, hab⟩ := h
  have hfour := four_dvd hp
  have hlow := hm.low
  have hpos := two_zpow_pos k
  have hmultiple : Multiple (k + 1) ((m : ℚ) * 2 ^ k + 2 ^ (p + k) + 2 ^ k) := by
    obtain ⟨j, hj⟩ : ∃ j, m + 2 ^ p + 1 = 2 * j := ⟨(m + 2 ^ p + 1) / 2, by omega⟩
    have hj' : (m : ℚ) + 2 ^ p + 1 = 2 * j := by exact_mod_cast hj
    refine ⟨j, ?_⟩
    rw [two_zpow_succ, zpow_add_natCast, ← add_mul, ← add_one_mul, hj']
    ring
  have hbig : (2 : ℚ) ^ (p + k) ≤ 2 * |(m : ℚ) * 2 ^ k| := by
    have hlow' : (2 : ℚ) ^ p ≤ 2 * m := by exact_mod_cast hlow
    have h2p : (0 : ℚ) < 2 ^ p := by positivity
    rw [abs_of_nonneg (mul_nonneg (by linarith) hpos.le), zpow_add_natCast]
    nlinarith
  have hodd : ¬ Multiple (k + 1) ((m : ℚ) * 2 ^ k) := not_multiple_of_odd hm.odd
  have hlost := hm.fastTwoSum_lost hp (k := k) hup
  rcases hab with ⟨rfl, rfl⟩ | ⟨rfl, rfl⟩
  · exact ⟨k, _, hlost, hmultiple, hodd, abs_of_pos (two_zpow_pos _), hbig⟩
  · refine ⟨k, _, by rw [fastTwoSum_neg, hlost, neg_zero], hmultiple.neg,
      fun h ↦ hodd (by simpa using h.neg), ?_, by rwa [abs_neg]⟩
    rw [abs_neg, abs_of_pos (two_zpow_pos _)]

/-- **A second term that is not much larger**: the error is kept, unless these are such terms. -/
theorem fastTwoSum_exact_or_lost (hp : 2 ≤ p) (ha : IsFloat p a) (hb : IsFloat p b) (ha0 : a ≠ 0)
    {t : ℤ} (ht : Multiple t a) (hbound : |b| < 2 ^ (p + lastBit p a) + 2 ^ t) :
    (fastTwoSum p a b).1 + (fastTwoSum p a b).2 = a + b ∨ Lost p a b := by
  have hpos : 0 < p := by omega
  have hlast := zpow_le_abs (p := p) ha0
  have hak := ha.multiple hlast
  have halt := abs_lt_zpow (p := p) a
  generalize lastBit p a = k at hbound hlast hak halt
  -- a second term below the next power of two has its bits among those of the first
  have hsame {f : ℤ} (hf : Multiple f a) (hlt : |b| < 2 ^ (p + f)) :
      (fastTwoSum p a b).1 + (fastTwoSum p a b).2 = a + b := by
    obtain ⟨g, hg, hbg⟩ := hb
    refine fastTwoSum_of_isFloat hpos ha ⟨g, hg, hbg⟩ ?_
    rcases le_total g f with hle | hle
    · exact sub_isFloat hpos ha (hf.of_le hle) hg hbg
    · exact sub_isFloat hpos ha hf (hg.of_le hle) hlt
  by_cases hnext : Multiple (k + 1) a
  · refine Or.inl (hsame hnext ?_)
    have hta := (Multiple.zero t).add_le_of_lt ht.abs (abs_pos.mpr ha0)
    rw [← add_assoc, two_zpow_succ]
    linarith
  · have htk : t ≤ k := by
      by_contra! hlt
      exact hnext (ht.of_le hlt)
    rcases lt_or_ge |b| (2 ^ (p + k)) with hlt | hge
    · exact Or.inl (hsame hak hlt)
    · have hbk : Multiple (k + 1) b := hb.multiple (by
        rw [← add_assoc, two_zpow_succ]
        linarith)
      have hb' : |b| = 2 ^ (p + k) := by
        refine (hge.lt_or_eq.resolve_left fun hlt ↦ ?_).symm
        have hstep := (Multiple.zpow (show k ≤ p + k by omega)).add_le_of_lt
          (hbk.of_le (by omega : k ≤ k + 1)).abs hlt
        linarith [two_zpow_le htk]
      obtain ⟨n, rfl⟩ := hak
      have hbits : OddBits p |n| := by
        have habs : |(n : ℚ) * 2 ^ k| = |(n : ℚ)| * 2 ^ k := by
          rw [abs_mul, abs_of_pos (two_zpow_pos k)]
        rw [habs, zpow_add_natCast] at hlast halt
        have h₁ : (2 : ℚ) ^ p ≤ 2 * |(n : ℚ)| :=
          le_of_mul_le_mul_right (by linarith) (two_zpow_pos k)
        have h₂ : |(n : ℚ)| < 2 ^ p := lt_of_mul_lt_mul_right halt (two_zpow_pos k).le
        refine ⟨by exact_mod_cast h₁, by exact_mod_cast h₂, ?_⟩
        by_contra heven
        have hhalf : n = n / 2 * 2 := by
          rcases abs_choice n with h | h <;> rw [h] at heven <;> omega
        refine hnext ⟨n / 2, ?_⟩
        have : (n : ℚ) = ((n / 2 : ℤ) : ℚ) * 2 := by exact_mod_cast hhalf
        rw [two_zpow_succ, ← mul_assoc, ← this]
      have hneg {c d : ℚ} (h : (fastTwoSum p c d).1 + (fastTwoSum p c d).2 = c + d) :
          (fastTwoSum p (-c) (-d)).1 + (fastTwoSum p (-c) (-d)).2 = -c + -d := by
        rw [fastTwoSum_neg, ← neg_add, h, neg_add]
      have hop := hbits.fastTwoSum_opposite hp (k := k)
      rcases abs_cases n with ⟨hn, -⟩ | ⟨hn, -⟩ <;> rw [hn] at hbits hop <;>
        rcases (abs_eq (two_zpow_pos _).le).mp hb' with rfl | rfl <;> push_cast at hop
      · have hodd := hbits.odd
        rcases (by omega : n % 4 = 1 ∨ n % 4 = 3) with h | h
        · exact Or.inl (hbits.fastTwoSum_kept hp h)
        · exact Or.inr ⟨k, n, hbits, h, Or.inl ⟨rfl, rfl⟩⟩
      · exact Or.inl (by simpa using hneg hop)
      · exact Or.inl (by simpa using hop)
      · have hodd := hbits.odd
        rcases (by omega : -n % 4 = 1 ∨ -n % 4 = 3) with h | h
        · have := hneg (hbits.fastTwoSum_kept hp (k := k) h)
          push_cast at this
          exact Or.inl (by simpa using this)
        · exact Or.inr ⟨k, -n, hbits, h, Or.inr ⟨by push_cast; ring, rfl⟩⟩

end

/-! ## Numbers that do not overlap -/

/-- The first number ends below the last bit of the second. -/
def Below (x y : ℚ) : Prop := ∃ s : ℤ, |x| < 2 ^ s ∧ Multiple s y

theorem two_zpow_le_abs {s : ℤ} {x : ℚ} (h : Multiple s x) (hx : x ≠ 0) : 2 ^ s ≤ |x| := by
  have := (Multiple.zero s).add_le_of_lt h.abs (abs_pos.mpr hx)
  rwa [zero_add] at this

theorem exists_place {x : ℚ} {l : List ℚ} (hx : ∃ s, Multiple s x) (h : ∀ y ∈ l, Below y x) :
    ∃ s : ℤ, (∀ y ∈ l, |y| < 2 ^ s) ∧ Multiple s x := by
  induction l with
  | nil =>
    obtain ⟨s, hs⟩ := hx
    exact ⟨s, fun _ hy ↦ absurd hy List.not_mem_nil, hs⟩
  | cons a l ih =>
    obtain ⟨s, hs, hsx⟩ := ih fun y hy ↦ h y (List.mem_cons_of_mem a hy)
    obtain ⟨r, hr, hrx⟩ := h a List.mem_cons_self
    refine ⟨max s r, fun y hy ↦ ?_, ?_⟩
    · rcases List.mem_cons.mp hy with rfl | hy
      · exact hr.trans_le (two_zpow_le (le_max_right s r))
      · exact (hs y hy).trans_le (two_zpow_le (le_max_left s r))
    · rcases max_choice s r with hmax | hmax <;> rw [hmax]
      · exact hsx
      · exact hrx

theorem abs_sum_lt {l : List ℚ} (hl : l.Pairwise Below) (hplace : ∀ x ∈ l, ∃ s, Multiple s x)
    {s : ℤ} (hs : ∀ x ∈ l, |x| < 2 ^ s) : |l.sum| < 2 ^ s := by
  induction l using List.reverseRecOn generalizing s with
  | nil =>
    rw [List.sum_nil, abs_zero]
    exact two_zpow_pos s
  | append_singleton l x ih =>
    obtain ⟨hpair, -, hlast⟩ := List.pairwise_append.mp hl
    have hx : x ∈ l ++ [x] := List.mem_append_right l (List.mem_singleton_self x)
    have hsub {y : ℚ} (hy : y ∈ l) : y ∈ l ++ [x] := List.mem_append_left _ hy
    rw [List.sum_append, List.sum_singleton]
    rcases eq_or_ne x 0 with rfl | hx0
    · rw [add_zero]
      exact ih hpair (fun y hy ↦ hplace y (hsub hy)) fun y hy ↦ hs y (hsub hy)
    · obtain ⟨t, ht, htx⟩ := exists_place (hplace x hx) fun y hy ↦
        hlast y hy x (List.mem_singleton_self x)
      have hsum := ih hpair (fun y hy ↦ hplace y (hsub hy)) ht
      have hts : t ≤ s := by
        have := (two_zpow_le_abs htx hx0).trans_lt (hs x hx)
        exact ((zpow_lt_zpow_iff_right₀ one_lt_two).mp this).le
      have hstep := htx.abs.add_le_of_lt (.zpow hts) (hs x hx)
      linarith [abs_add_le l.sum x]

end Rounding
