import Mathlib.Data.List.Basic

/-!
# Bytes of a text

The bytes of an ASCII character are the character; those of any other one are two or more, and none
of them is ASCII. Reading each byte as a character gives back an ASCII text, and any other text
never.
-/

namespace Utf8

def IsAscii (c : Char) : Prop := c.toNat < 128

instance IsAscii.decidable : DecidablePred IsAscii := fun c ↦
  inferInstanceAs (Decidable (c.toNat < 128))

def bytes (text : List Char) : List UInt8 := text.flatMap String.utf8EncodeChar

def latin1 (c : Char) : List Char := (String.utf8EncodeChar c).map Char.ofUInt8

theorem bytes_cons (c : Char) (text : List Char) :
    bytes (c :: text) = String.utf8EncodeChar c ++ bytes text := List.flatMap_cons

theorem toNat_ofUInt8 (b : UInt8) : (Char.ofUInt8 b).toNat = b.toNat :=
  UInt8.toNat_toUInt32 b

theorem utf8EncodeChar_of_isAscii {c : Char} (h : IsAscii c) :
    String.utf8EncodeChar c = [UInt8.ofNat c.toNat] :=
  if_pos (Nat.le_of_lt_succ h)

theorem latin1_of_isAscii {c : Char} (h : IsAscii c) : latin1 c = [c] := by
  have hbyte : (Char.ofUInt8 (UInt8.ofNat c.toNat)).toNat = c.toNat :=
    (toNat_ofUInt8 _).trans (UInt8.toNat_ofNat_of_lt' (Nat.lt_trans h (by decide)))
  rw [latin1, utf8EncodeChar_of_isAscii h, List.map_singleton, Char.toNat_inj.mp hbyte]

theorem utf8EncodeChar_of_not_isAscii {c : Char} (h : ¬ IsAscii c) :
    2 ≤ (String.utf8EncodeChar c).length ∧ ∀ b ∈ String.utf8EncodeChar c, 128 ≤ b.toNat := by
  have hlead (x : ℕ) {k n : ℕ} (hk : 0 < k) (hn : 128 ≤ n) (hfit : k + n ≤ 256) :
      128 ≤ (UInt8.ofNat (x % k + n)).toNat := by
    have := Nat.mod_lt x hk
    rw [UInt8.toNat_ofNat', Nat.mod_eq_of_lt (by omega)]
    omega
  have hval : ¬ c.val.toNat ≤ 127 := fun hle ↦ h (Nat.lt_succ_of_le hle)
  rw [String.utf8EncodeChar]
  rw [if_neg hval]
  split
  · refine ⟨Nat.le_refl _, ?_⟩
    simp only [List.forall_mem_cons, List.not_mem_nil, false_implies, implies_true, and_true]
    exact ⟨hlead _ (by decide) (by decide) (by decide), hlead _ (by decide) (by decide) (by decide)⟩
  · split
    · refine ⟨Nat.le_succ _, ?_⟩
      simp only [List.forall_mem_cons, List.not_mem_nil, false_implies, implies_true, and_true]
      exact ⟨hlead _ (by decide) (by decide) (by decide), hlead _ (by decide) (by decide)
        (by decide), hlead _ (by decide) (by decide) (by decide)⟩
    · refine ⟨Nat.le_add_left 2 2, ?_⟩
      simp only [List.forall_mem_cons, List.not_mem_nil, false_implies, implies_true, and_true]
      exact ⟨hlead _ (by decide) (by decide) (by decide), hlead _ (by decide) (by decide)
        (by decide), hlead _ (by decide) (by decide) (by decide), hlead _ (by decide) (by decide)
          (by decide)⟩

theorem eq_of_mem_utf8EncodeChar {c d : Char} {b : UInt8} (hb : b ∈ String.utf8EncodeChar c)
    (hd : b.toNat = d.toNat) (hascii : IsAscii d) : c = d := by
  by_cases h : IsAscii c
  · rw [utf8EncodeChar_of_isAscii h, List.mem_singleton] at hb
    rw [hb, UInt8.toNat_ofNat_of_lt' (Nat.lt_trans h (by decide))] at hd
    exact Char.toNat_inj.mp hd
  · have hlarge := (utf8EncodeChar_of_not_isAscii h).2 b hb
    rw [hd] at hlarge
    exact absurd hascii (Nat.not_lt.mpr hlarge)

theorem head?_bytes {text : List Char} {b : UInt8} {d : Char} (h : (bytes text).head? = some b)
    (hd : b.toNat = d.toNat) (hascii : IsAscii d) : text.head? = some d := by
  cases text with
  | nil => cases h
  | cons c rest =>
    have hne : String.utf8EncodeChar c ≠ [] := String.utf8EncodeChar_ne_nil
    rw [bytes_cons, List.head?_append_of_ne_nil _ hne] at h
    rw [List.head?_cons, eq_of_mem_utf8EncodeChar (List.mem_of_mem_head? h) hd hascii]

theorem flatMap_latin1_append_ne {text after expected : List Char} (hne : text ≠ [])
    (htext : ∀ c ∈ text, ¬ IsAscii c) (hexpected : ∀ c, expected.head? = some c → IsAscii c) :
    text.flatMap latin1 ++ after ≠ text ++ expected := by
  have hall : ∀ c ∈ text.flatMap latin1, ¬ IsAscii c := by
    intro c hc hascii
    obtain ⟨d, hd, hcd⟩ := List.mem_flatMap.mp hc
    obtain ⟨b, hb, rfl⟩ := List.mem_map.mp hcd
    have hlarge := (utf8EncodeChar_of_not_isAscii (htext d hd)).2 b hb
    rw [IsAscii, toNat_ofUInt8] at hascii
    exact absurd hascii (Nat.not_lt.mpr hlarge)
  have hlength : text.length < (text.flatMap latin1).length := by
    clear hall
    induction text with
    | nil => exact absurd rfl hne
    | cons c rest ih =>
      have hc : 2 ≤ (latin1 c).length := by
        rw [latin1, List.length_map]
        exact (utf8EncodeChar_of_not_isAscii (htext c List.mem_cons_self)).1
      have hrest : rest.length ≤ (rest.flatMap latin1).length := by
        rcases rest with _ | ⟨d, rest⟩
        · exact Nat.le_refl _
        · exact Nat.le_of_lt (ih (List.cons_ne_nil _ _)
            fun c hc ↦ htext c (List.mem_cons_of_mem _ hc))
      rw [List.flatMap_cons, List.length_append, List.length_cons]
      omega
  intro h
  -- The characters of the first one are one too many.
  obtain ⟨c, rest, hdrop⟩ := List.exists_cons_of_length_pos
    (l := (text.flatMap latin1).drop text.length) (by rw [List.length_drop]; omega)
  have hafter := congrArg (List.drop text.length) h
  rw [List.drop_append_of_le_length (Nat.le_of_lt hlength), hdrop, List.drop_left] at hafter
  refine hall c ?_ (hexpected c (hafter ▸ rfl))
  exact List.mem_of_mem_drop (hdrop ▸ List.mem_cons_self)

end Utf8
