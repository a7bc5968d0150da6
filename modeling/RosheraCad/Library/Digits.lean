import Mathlib.Data.Nat.Digits.Lemmas

/-!
# Texts of numbers

* The decimal text of a number. The texts produced are the *canonical* ones: at least one digit, and
  a leading zero only in `0` itself. On these, reading and writing are inverse.
* A fixed number of digits in a base, the most significant first. Every list of that many digits is
  produced, by exactly one number below the base's power.
-/

namespace Digits

/-! ## Decimal texts -/

def IsCanonical (digits : List Char) : Prop :=
  digits ≠ [] ∧ (∀ c ∈ digits, c.isDigit) ∧ (digits.head? = some '0' → digits = ['0'])

instance (digits : List Char) : Decidable (IsCanonical digits) :=
  -- The digits are looked at one by one, not all characters there are.
  have : Decidable (∀ c ∈ digits, c.isDigit) := List.decidableBAll _ digits
  inferInstanceAs (Decidable (_ ∧ _ ∧ _))

theorem digitChar_sub_zero {c : Char} (h : c.isDigit) :
    c.toNat - '0'.toNat < 10 ∧ (c.toNat - '0'.toNat).digitChar = c := by
  obtain ⟨hlow, hhigh⟩ := Char.isDigit_iff_toNat.mp h
  have hlow : 48 ≤ c.toNat := hlow
  have hhigh : c.toNat ≤ 57 := hhigh
  have hrange : c.toNat - '0'.toNat < 10 := by
    change c.toNat - 48 < 10
    omega
  refine ⟨hrange, ?_⟩
  refine Char.ext (UInt32.toNat_inj.mp ?_)
  have htext := Nat.toNat_digitChar_of_lt_ten hrange
  change (c.toNat - 48).digitChar.toNat = 48 + (c.toNat - 48) at htext
  change (c.toNat - 48).digitChar.toNat = c.toNat
  omega

/-- A text whose first digit is not zero reads as a positive number. -/
theorem ofDigitChars_pos {c : Char} (digits : List Char) (hc : c.isDigit) (hzero : c ≠ '0') :
    0 < Nat.ofDigitChars 10 (c :: digits) 0 := by
  rw [Nat.ofDigitChars_cons, Nat.ofDigitChars_eq_ofDigitChars_zero]
  have hpos : 0 < c.toNat - '0'.toNat := by
    refine Nat.pos_of_ne_zero fun h ↦ hzero ?_
    rw [← (digitChar_sub_zero hc).2, h]
    rfl
  positivity

theorem toDigits_inj {m n : ℕ} : Nat.toDigits 10 m = Nat.toDigits 10 n ↔ m = n := by
  refine ⟨fun h ↦ ?_, congrArg _⟩
  have hread := congrArg (fun digits ↦ Nat.ofDigitChars 10 digits 0) h
  simpa only [Nat.ofDigitChars_ten_toDigits] using hread

/-- **Writing what was read** gives a canonical text back. -/
theorem toDigits_ofDigitChars {digits : List Char} (h : IsCanonical digits) :
    Nat.toDigits 10 (Nat.ofDigitChars 10 digits 0) = digits := by
  obtain ⟨hne, hdigits, hzero⟩ := h
  -- Induction from the last digit: every proper prefix is canonical too, and positive.
  induction digits using List.reverseRecOn with
  | nil => exact absurd rfl hne
  | append_singleton init c ih =>
    obtain ⟨hlt, hchar⟩ := digitChar_sub_zero (hdigits c (by simp))
    rcases init with _ | ⟨d, init⟩
    · rw [List.nil_append, Nat.ofDigitChars_cons, Nat.ofDigitChars_nil, Nat.mul_zero, Nat.zero_add,
        Nat.toDigits_of_lt_base hlt, hchar]
    · have hd : d ≠ '0' := by
        intro hd
        have := congrArg List.length (hzero (by simp [hd]))
        simp at this
      have hinit := ih (by simp) (fun c' hc' ↦ hdigits c' (List.mem_append_left _ hc'))
        (fun h ↦ absurd (Option.some.inj h) hd)
      have hpos := ofDigitChars_pos init (hdigits d (by simp)) hd
      rw [Nat.ofDigitChars_append, Nat.ofDigitChars_cons, Nat.ofDigitChars_nil,
        ← Nat.toDigits_append_toDigits (by omega) hpos hlt, hinit, Nat.toDigits_of_lt_base hlt,
        hchar]

theorem head?_toDigits_ne_zero {n : ℕ} (h : 0 < n) : (Nat.toDigits 10 n).head? ≠ some '0' := by
  induction n using Nat.strongRecOn with
  | ind n ih =>
    by_cases hlt : n < 10
    · rw [Nat.toDigits_of_lt_base hlt]
      simpa using Nat.ne_of_gt h
    · rw [Nat.toDigits_of_base_le (by omega) (by omega), List.head?_append]
      have hhead := ih (n / 10) (by omega) (by omega)
      rcases hdiv : (Nat.toDigits 10 (n / 10)).head? with _ | c
      · exact absurd (List.head?_eq_none_iff.mp hdiv) Nat.toDigits_ne_nil
      · rw [hdiv] at hhead
        simpa using hhead

theorem isCanonical_toDigits (n : ℕ) : IsCanonical (Nat.toDigits 10 n) := by
  refine ⟨Nat.toDigits_ne_nil, fun c hc ↦ ?_, fun h ↦ ?_⟩
  · exact Nat.isDigit_of_mem_toDigits (by decide) (by decide) hc
  · rcases Nat.eq_zero_or_pos n with rfl | hpos
    · exact Nat.toDigits_zero 10
    · exact absurd h (head?_toDigits_ne_zero hpos)

/-! ## A fixed number of digits -/

/-- The lowest `width` digits of a number in a base, the most significant first. -/
def fixed (base width n : ℕ) : List ℕ :=
  (List.range width).map fun i ↦ n / base ^ (width - 1 - i) % base

/-- The number that digits stand for, the most significant first. -/
def value (base : ℕ) (digits : List ℕ) : ℕ := Nat.ofDigits base digits.reverse

theorem fixed_succ (base width n : ℕ) :
    fixed base (width + 1) n = fixed base width (n / base) ++ [n % base] := by
  rw [fixed, List.range_succ, List.map_append, fixed]
  congr 1
  · refine List.map_congr_left fun i hi ↦ ?_
    have hi : i < width := List.mem_range.mp hi
    rw [Nat.div_div_eq_div_mul, ← pow_succ',
      show width - 1 - i + 1 = width + 1 - 1 - i from by omega]
  · simp

theorem value_append_singleton (base : ℕ) (digits : List ℕ) (d : ℕ) :
    value base (digits ++ [d]) = d + base * value base digits := by
  rw [value, List.reverse_append, List.reverse_singleton, List.singleton_append,
    Nat.ofDigits_cons, value]

theorem lt_of_mem_fixed {base width n d : ℕ} (hbase : 0 < base) (h : d ∈ fixed base width n) :
    d < base := by
  obtain ⟨i, -, rfl⟩ := List.mem_map.mp h
  exact Nat.mod_lt _ hbase

/-- Reading a fixed number of digits gives the number back, up to the digits that are cut off. -/
theorem value_fixed (base width n : ℕ) : value base (fixed base width n) = n % base ^ width := by
  induction width generalizing n with
  | zero => simp [fixed, value, Nat.mod_one]
  | succ width ih =>
    rw [fixed_succ, value_append_singleton, ih, pow_succ', Nat.mod_mul]

theorem value_lt {base : ℕ} {digits : List ℕ} (hbase : 1 < base) (h : ∀ d ∈ digits, d < base) :
    value base digits < base ^ digits.length := by
  have hlt := Nat.ofDigits_lt_base_pow_length hbase
    (l := digits.reverse) fun d hd ↦ h d (List.mem_reverse.mp hd)
  rwa [List.length_reverse] at hlt

theorem fixed_value {base : ℕ} {digits : List ℕ} (h : ∀ d ∈ digits, d < base) :
    fixed base digits.length (value base digits) = digits := by
  induction digits using List.reverseRecOn with
  | nil => rfl
  | append_singleton init d ih =>
    have hd : d < base := h d (by simp)
    have hinit := ih fun d' hd' ↦ h d' (List.mem_append_left _ hd')
    rw [List.length_append, List.length_singleton, fixed_succ, value_append_singleton,
      Nat.add_mul_div_left _ _ (by omega), Nat.div_eq_of_lt hd, Nat.zero_add, hinit,
      Nat.add_mul_mod_self_left, Nat.mod_eq_of_lt hd]

end Digits
