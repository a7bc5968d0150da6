import Mathlib.Data.List.Infix
import Mathlib.Data.List.TakeWhile
import RosheraCad.Library.Utf8

/-!
# Comments of an exchange structure

Before a STEP file is parsed its comments are removed, each for a space. The text is scanned byte by
byte for the marks of comments only, so a mark inside a string literal opens a comment as well.
-/

namespace RosheraCad

namespace StepFile

open Utf8

/-! ## The code -/

def slash : UInt8 := 0x2F

def star : UInt8 := 0x2A

def skipComment : List UInt8 → List UInt8
  | b :: b' :: rest => if b = star ∧ b' = slash then rest else skipComment (b' :: rest)
  | _ => []

theorem length_skipComment_le (l : List UInt8) : (skipComment l).length ≤ l.length := by
  fun_induction skipComment l with
  | case1 b b' rest h => exact Nat.le_add_right _ 2
  | case2 b b' rest h ih => exact Nat.le_succ_of_le ih
  | case3 l h => exact Nat.zero_le _

/-- The cleaned text of some bytes, and the number of bytes removed. -/
def scan : List UInt8 → List Char × ℕ
  | b :: b' :: rest =>
    if b = slash ∧ b' = star then
      let after := skipComment rest
      let (out, stripped) := scan after
      (' ' :: out, 2 + (rest.length - after.length) + stripped)
    else
      let (out, stripped) := scan (b' :: rest)
      (Char.ofUInt8 b :: out, stripped)
  | [b] => ([Char.ofUInt8 b], 0)
  | [] => ([], 0)
termination_by l => l.length
decreasing_by
  · exact Nat.lt_succ_of_le (Nat.le_succ_of_le (length_skipComment_le rest))
  · exact Nat.lt_succ_self _

/-- Pre-process the text of a STEP file: the cleaned text, and the number of bytes removed. -/
def preprocess (input : String) : String × ℕ :=
  let (out, stripped) := scan (bytes input.toList)
  (String.ofList out, stripped)

/-! ## Pieces of a text -/

inductive Piece
  | literal (value : List Char)
  | comment (body : List Char)
  | other (c : Char)
  | openLiteral (value : List Char)
  | openComment (body : List Char)
  deriving DecidableEq

namespace Piece

def quoted (value : List Char) : List Char :=
  value.flatMap fun c ↦ if c = '\'' then ['\'', '\''] else [c]

def text : Piece → List Char
  | literal value => '\'' :: (quoted value ++ ['\''])
  | comment body => '/' :: '*' :: (body ++ ['*', '/'])
  | other c => [c]
  | openLiteral value => '\'' :: quoted value
  | openComment body => '/' :: '*' :: body

def cleaned : Piece → List Char
  | comment _ | openComment _ => [' ']
  | p => p.text

/-- A piece that is left alone: it is ASCII, and a literal has no mark that opens a comment. -/
def Clean : Piece → Prop
  | comment _ | openComment _ => True
  | p => (∀ c ∈ p.text, IsAscii c) ∧ ¬ ['/', '*'] <:+: p.text

instance Clean.decidable : DecidablePred Clean
  | comment _ | openComment _ => isTrue trivial
  | literal _ | other _ | openLiteral _ =>
    @instDecidableAnd (∀ c ∈ _, IsAscii c) (¬ _ <:+: _) (List.decidableBAll _ _) inferInstance

end Piece

open Piece

def textOf (pieces : List Piece) : List Char := pieces.flatMap text

def cleanedOf (pieces : List Piece) : List Char := pieces.flatMap cleaned

/-- A comment ends with the first mark that closes one, no other character is a quote or opens a
comment, a literal goes on to its quote, and only the last piece may be open. -/
def WellFormed : List Piece → Prop
  | [] => True
  | .literal _ :: rest => (textOf rest).head? ≠ some '\'' ∧ WellFormed rest
  | .comment body :: rest => ¬ ['*', '/'] <:+: body ∧ WellFormed rest
  | .other c :: rest =>
    c ≠ '\'' ∧ ¬ (c = '/' ∧ (textOf rest).head? = some '*') ∧ WellFormed rest
  | .openLiteral _ :: rest => rest = []
  | .openComment body :: rest => ¬ ['*', '/'] <:+: body ∧ rest = []

instance WellFormed.decidable : DecidablePred WellFormed
  | [] => isTrue trivial
  | .literal _ :: rest =>
    have := WellFormed.decidable rest
    inferInstanceAs (Decidable (_ ≠ _ ∧ _))
  | .comment _ :: rest =>
    have := WellFormed.decidable rest
    inferInstanceAs (Decidable (¬ _ <:+: _ ∧ _))
  | .other _ :: rest =>
    have := WellFormed.decidable rest
    inferInstanceAs (Decidable (_ ≠ _ ∧ ¬ (_ ∧ _) ∧ _))
  | .openLiteral _ :: rest => inferInstanceAs (Decidable (rest = []))
  | .openComment _ :: _ => inferInstanceAs (Decidable (¬ _ <:+: _ ∧ _ = []))

/-! ## The scan, character by character -/

def skipChars : List Char → List Char
  | c :: c' :: rest => if c = '*' ∧ c' = '/' then rest else skipChars (c' :: rest)
  | _ => []

theorem length_skipChars_le (t : List Char) : (skipChars t).length ≤ t.length := by
  fun_induction skipChars t with
  | case1 c c' rest h => exact Nat.le_add_right _ 2
  | case2 c c' rest h ih => exact Nat.le_succ_of_le ih
  | case3 t h => exact Nat.zero_le _

def stripAll : List Char → List Char
  | c :: c' :: rest =>
    if c = '/' ∧ c' = '*' then ' ' :: stripAll (skipChars rest) else c :: stripAll (c' :: rest)
  | t => t
termination_by t => t.length
decreasing_by
  · exact Nat.lt_succ_of_le (Nat.le_succ_of_le (length_skipChars_le rest))
  · exact Nat.lt_succ_self _

theorem stripAll_comment (t : List Char) :
    stripAll ('/' :: '*' :: t) = ' ' :: stripAll (skipChars t) := by
  rw [stripAll, if_pos ⟨rfl, rfl⟩]

variable {t : List Char}

theorem stripAll_cons {c : Char} (h : ¬ (c = '/' ∧ t.head? = some '*')) :
    stripAll (c :: t) = c :: stripAll t := by
  cases t with
  | nil => simp [stripAll]
  | cons c' rest => rw [stripAll, if_neg fun hmark ↦ h ⟨hmark.1, congrArg some hmark.2⟩]

theorem skipComment_cons {b : UInt8} {l : List UInt8}
    (h : ¬ (b = star ∧ l.head? = some slash)) : skipComment (b :: l) = skipComment l := by
  cases l with
  | nil => rfl
  | cons b' rest => rw [skipComment, if_neg fun hmark ↦ h ⟨hmark.1, congrArg some hmark.2⟩]

theorem scan_cons {b : UInt8} {l : List UInt8} (h : ¬ (b = slash ∧ l.head? = some star)) :
    (scan (b :: l)).1 = Char.ofUInt8 b :: (scan l).1 := by
  cases l with
  | nil => rw [scan, scan]
  | cons b' rest => rw [scan, if_neg fun hmark ↦ h ⟨hmark.1, congrArg some hmark.2⟩]

theorem skipComment_utf8EncodeChar {c : Char} (h : ¬ (c = '*' ∧ t.head? = some '/')) :
    skipComment (String.utf8EncodeChar c ++ bytes t) = skipComment (bytes t) := by
  by_cases hascii : IsAscii c
  · rw [utf8EncodeChar_of_isAscii hascii, List.singleton_append]
    refine skipComment_cons fun hmark ↦ h ⟨?_, head?_bytes hmark.2 rfl (by decide)⟩
    refine eq_of_mem_utf8EncodeChar (b := star) ?_ rfl (by decide)
    rw [utf8EncodeChar_of_isAscii hascii, hmark.1]
    exact List.mem_singleton_self _
  · have hlarge := (utf8EncodeChar_of_not_isAscii hascii).2
    generalize String.utf8EncodeChar c = l at hlarge
    induction l with
    | nil => rfl
    | cons b rest ih =>
      refine (skipComment_cons fun hmark ↦ ?_).trans
        (ih fun b hb ↦ hlarge b (List.mem_cons_of_mem _ hb))
      have hb := hlarge b List.mem_cons_self
      rw [hmark.1] at hb
      exact absurd hb (by decide)

theorem scan_utf8EncodeChar {c : Char} (h : ¬ (c = '/' ∧ t.head? = some '*')) :
    (scan (String.utf8EncodeChar c ++ bytes t)).1 = latin1 c ++ (scan (bytes t)).1 := by
  by_cases hascii : IsAscii c
  · rw [latin1, utf8EncodeChar_of_isAscii hascii, List.singleton_append]
    refine scan_cons fun hmark ↦ h ⟨?_, head?_bytes hmark.2 rfl (by decide)⟩
    refine eq_of_mem_utf8EncodeChar (b := slash) ?_ rfl (by decide)
    rw [utf8EncodeChar_of_isAscii hascii, hmark.1]
    exact List.mem_singleton_self _
  · have hlarge := (utf8EncodeChar_of_not_isAscii hascii).2
    rw [latin1]
    generalize String.utf8EncodeChar c = l at hlarge
    induction l with
    | nil => rfl
    | cons b rest ih =>
      rw [List.cons_append, scan_cons, ih fun b hb ↦ hlarge b (List.mem_cons_of_mem _ hb)]
      · rfl
      · intro hmark
        have hb := hlarge b List.mem_cons_self
        rw [hmark.1] at hb
        exact absurd hb (by decide)

theorem bytes_cons_of_isAscii {c : Char} (h : IsAscii c) (t : List Char) :
    bytes (c :: t) = UInt8.ofNat c.toNat :: bytes t := by
  rw [bytes_cons, utf8EncodeChar_of_isAscii h, List.singleton_append]

theorem skipComment_bytes (t : List Char) : skipComment (bytes t) = bytes (skipChars t) := by
  fun_induction skipChars t with
  | case1 c c' rest h =>
    rw [h.1, h.2, bytes_cons_of_isAscii (by decide), bytes_cons_of_isAscii (by decide)]
    rfl
  | case2 c c' rest h ih =>
    rw [bytes_cons, skipComment_utf8EncodeChar, ih]
    exact fun hmark ↦ h ⟨hmark.1, Option.some_inj.mp hmark.2⟩
  | case3 t h =>
    rcases t with _ | ⟨c, _ | ⟨c', rest⟩⟩
    · rfl
    · rw [bytes_cons, skipComment_utf8EncodeChar fun hmark ↦ Option.some_ne_none _ hmark.2.symm]
      rfl
    · exact absurd rfl (h c c' rest)

/-- **The cleaned text** is the text without its comments, each character as its bytes. -/
theorem scan_bytes (t : List Char) : (scan (bytes t)).1 = (stripAll t).flatMap latin1 := by
  fun_induction stripAll t with
  | case1 c c' rest h ih =>
    rw [h.1, h.2, bytes_cons_of_isAscii (by decide), bytes_cons_of_isAscii (by decide), scan,
      if_pos ⟨rfl, rfl⟩, List.flatMap_cons, latin1_of_isAscii (by decide), ← ih,
      skipComment_bytes]
    rfl
  | case2 c c' rest h ih =>
    rw [bytes_cons, scan_utf8EncodeChar, ih, List.flatMap_cons]
    exact fun hmark ↦ h ⟨hmark.1, Option.some_inj.mp hmark.2⟩
  | case3 t h =>
    rcases t with _ | ⟨c, _ | ⟨c', rest⟩⟩
    · rw [bytes, List.flatMap_nil, scan, List.flatMap_nil]
    · rw [bytes_cons, scan_utf8EncodeChar fun hmark ↦ Option.some_ne_none _ hmark.2.symm, bytes,
        List.flatMap_nil, scan, List.flatMap_singleton, List.append_nil]
    · exact absurd rfl (h c c' rest)

/-! ## What is left of the pieces -/

def nonAscii (c : Char) : Bool := ¬ IsAscii c

theorem stripAll_append_of_nonAscii {u v : List Char} (hu : ∀ c ∈ u, ¬ IsAscii c) :
    stripAll (u ++ v) = u ++ stripAll v := by
  induction u with
  | nil => rfl
  | cons c rest ih =>
    rw [List.cons_append, stripAll_cons, ih fun c hc ↦ hu c (List.mem_cons_of_mem _ hc)]
    · rfl
    · intro hmark
      refine hu c List.mem_cons_self ?_
      rw [hmark.1]
      decide

/-- **A character that is not ASCII is not left alone**: too much comes out. -/
theorem flatMap_stripAll_ne {c : Char} {t out : List Char} (hc : ¬ IsAscii c)
    (hagree : t.takeWhile nonAscii = out.takeWhile nonAscii) :
    (stripAll (c :: t)).flatMap latin1 ≠ c :: out := by
  have htext : ∀ d ∈ c :: out.takeWhile nonAscii, ¬ IsAscii d := by
    intro d hd
    rcases List.mem_cons.mp hd with rfl | hd
    · exact hc
    · have hnon : nonAscii d = true := List.mem_takeWhile_imp hd
      exact of_decide_eq_true hnon
  have hsplit : c :: t = (c :: out.takeWhile nonAscii) ++ t.dropWhile nonAscii := by
    rw [← hagree, List.cons_append, List.takeWhile_append_dropWhile]
  have hsplit' : c :: out = (c :: out.takeWhile nonAscii) ++ out.dropWhile nonAscii := by
    rw [List.cons_append, List.takeWhile_append_dropWhile]
  rw [hsplit, hsplit', stripAll_append_of_nonAscii htext, List.flatMap_append]
  refine flatMap_latin1_append_ne (List.cons_ne_nil _ _) htext fun d hd ↦ ?_
  have hnot := List.head?_dropWhile_not nonAscii out
  rw [hd] at hnot
  exact of_not_not (of_decide_eq_false hnot)

/-- A stretch of text comes out as it is just when it is ASCII and nothing in it opens a comment. -/
theorem verbatim_iff {l t out : List Char} (hagree : t.takeWhile nonAscii = out.takeWhile nonAscii)
    (hend : ¬ (l.getLast? = some '/' ∧ t.head? = some '*')) :
    (stripAll (l ++ t)).flatMap latin1 = l ++ out ↔
      ((∀ c ∈ l, IsAscii c) ∧ ¬ ['/', '*'] <:+: l) ∧ (stripAll t).flatMap latin1 = out := by
  induction l with
  | nil =>
    have hclean : (∀ c ∈ ([] : List Char), IsAscii c) ∧ ¬ ['/', '*'] <:+: ([] : List Char) :=
      ⟨fun c hc ↦ absurd hc List.not_mem_nil, by decide⟩
    rw [and_iff_right hclean]
    exact Iff.rfl
  | cons c rest ih =>
    by_cases hascii : IsAscii c
    · by_cases hmark : c = '/' ∧ (rest ++ t).head? = some '*'
      · -- A comment is opened: inside the stretch, as the text after it goes on otherwise.
        obtain ⟨rfl, hstar⟩ := hmark
        obtain ⟨rest, rfl⟩ : ∃ rest', rest = '*' :: rest' := by
          cases rest with
          | nil => exact absurd ⟨rfl, hstar⟩ hend
          | cons c' rest => exact ⟨rest, congrArg (· :: rest) (Option.some_inj.mp hstar)⟩
        refine iff_of_false ?_ fun hclean ↦ hclean.1.2 (List.prefix_append _ rest).isInfix
        rw [List.cons_append, List.cons_append, stripAll_comment, List.flatMap_cons,
          latin1_of_isAscii (by decide)]
        exact fun heq ↦ absurd (List.head_eq_of_cons_eq heq) (by decide)
      · have hend' : ¬ (rest.getLast? = some '/' ∧ t.head? = some '*') := by
          rintro ⟨hlast, hhead⟩
          refine hend ⟨?_, hhead⟩
          rw [List.getLast?_cons, hlast]
          rfl
        have hinfix : ['/', '*'] <:+: c :: rest ↔ ['/', '*'] <:+: rest := by
          refine List.infix_cons_iff.trans (or_iff_right ?_)
          rintro ⟨after, hafter⟩
          obtain ⟨rfl, hrest⟩ := List.cons.inj hafter
          rw [← hrest] at hmark
          exact hmark ⟨rfl, rfl⟩
        rw [List.cons_append, stripAll_cons hmark, List.flatMap_cons, latin1_of_isAscii hascii,
          List.singleton_append, List.cons_append, List.cons_inj_right, ih hend', hinfix,
          List.forall_mem_cons, and_iff_right hascii]
    · refine iff_of_false ?_ fun hclean ↦ hascii (hclean.1.1 c List.mem_cons_self)
      refine flatMap_stripAll_ne hascii ?_
      change (rest ++ t).takeWhile nonAscii = (rest ++ out).takeWhile nonAscii
      rw [List.takeWhile_append, List.takeWhile_append, hagree]

theorem skipChars_cons {c : Char} (h : ¬ (c = '*' ∧ t.head? = some '/')) :
    skipChars (c :: t) = skipChars t := by
  cases t with
  | nil => rfl
  | cons c' rest => rw [skipChars, if_neg fun hmark ↦ h ⟨hmark.1, congrArg some hmark.2⟩]

theorem skipChars_body {body : List Char} (h : ¬ ['*', '/'] <:+: body) (t : List Char) :
    skipChars (body ++ '*' :: '/' :: t) = t ∧ skipChars body = [] := by
  induction body with
  | nil => exact ⟨by rw [List.nil_append, skipChars, if_pos ⟨rfl, rfl⟩], rfl⟩
  | cons c rest ih =>
    rw [List.infix_cons_iff, not_or] at h
    obtain ⟨hbegins, hrest⟩ := h
    have hmark : ¬ (c = '*' ∧ rest.head? = some '/') := by
      rintro ⟨rfl, hslash⟩
      obtain ⟨after, rfl⟩ := List.head?_eq_some_iff.mp hslash
      exact hbegins (List.prefix_append ['*', '/'] after)
    have hmark' : ¬ (c = '*' ∧ (rest ++ '*' :: '/' :: t).head? = some '/') := by
      rintro ⟨rfl, hslash⟩
      cases rest with
      | nil => exact absurd (Option.some_inj.mp hslash) (by decide)
      | cons c' rest => exact hmark ⟨rfl, hslash⟩
    rw [List.cons_append, skipChars_cons hmark, skipChars_cons hmark']
    exact ih hrest

theorem takeWhile_textOf (pieces : List Piece) :
    (textOf pieces).takeWhile nonAscii = (cleanedOf pieces).takeWhile nonAscii := by
  induction pieces with
  | nil => rfl
  | cons piece rest ih =>
    cases piece with
    | other c =>
      change (c :: textOf rest).takeWhile nonAscii = (c :: cleanedOf rest).takeWhile nonAscii
      rw [List.takeWhile_cons, List.takeWhile_cons, ih]
    | literal value => rfl
    | comment body => rfl
    | openLiteral value => rfl
    | openComment body => rfl

theorem textOf_cons (piece : Piece) (rest : List Piece) :
    textOf (piece :: rest) = piece.text ++ textOf rest := List.flatMap_cons

theorem cleanedOf_cons (piece : Piece) (rest : List Piece) :
    cleanedOf (piece :: rest) = piece.cleaned ++ cleanedOf rest := List.flatMap_cons

theorem getLast?_literal (value : List Char) : (literal value).text.getLast? = some '\'' := by
  rw [text, ← List.cons_append, List.getLast?_concat]

theorem flatMap_stripAll_comment {body rest out : List Char} (h : ¬ ['*', '/'] <:+: body) :
    (stripAll (text (.comment body) ++ rest)).flatMap latin1 = ' ' :: out ↔
      (stripAll rest).flatMap latin1 = out := by
  have htext : text (.comment body) ++ rest = '/' :: '*' :: (body ++ '*' :: '/' :: rest) := by
    simp only [text, List.cons_append, List.append_assoc, List.nil_append]
  rw [htext, stripAll_comment, (skipChars_body h rest).1, List.flatMap_cons,
    latin1_of_isAscii (by decide), List.singleton_append, List.cons_inj_right]

theorem flatMap_stripAll_textOf_iff {pieces : List Piece} (h : WellFormed pieces) :
    (stripAll (textOf pieces)).flatMap latin1 = cleanedOf pieces ↔ ∀ p ∈ pieces, p.Clean := by
  induction pieces with
  | nil =>
    refine iff_of_true ?_ fun p hp ↦ absurd hp List.not_mem_nil
    simp [textOf, cleanedOf, stripAll]
  | cons piece rest ih =>
    have hagree := takeWhile_textOf rest
    rw [textOf_cons, cleanedOf_cons, List.forall_mem_cons]
    cases piece with
    | literal value =>
      have hend : ¬ ((literal value).text.getLast? = some '/' ∧
          (textOf rest).head? = some '*') := by
        rw [getLast?_literal]
        exact fun hend ↦ absurd (Option.some_inj.mp hend.1) (by decide)
      exact (verbatim_iff hagree hend).trans (and_congr_right' (ih h.2))
    | comment body =>
      have hclean : (comment body).Clean := trivial
      exact (flatMap_stripAll_comment h.1).trans ((ih h.2).trans (and_iff_right hclean).symm)
    | other c =>
      have hend : ¬ ((other c).text.getLast? = some '/' ∧ (textOf rest).head? = some '*') :=
        fun hend ↦ h.2.1 ⟨Option.some_inj.mp hend.1, hend.2⟩
      exact (verbatim_iff hagree hend).trans (and_congr_right' (ih h.2.2))
    | openLiteral value =>
      obtain rfl : rest = [] := h
      have hend : ¬ ((openLiteral value).text.getLast? = some '/' ∧
          (textOf []).head? = some '*') := fun hend ↦ by cases hend.2
      exact (verbatim_iff hagree hend).trans (and_congr_right' (ih trivial))
    | openComment body =>
      obtain rfl : rest = [] := h.2
      refine iff_of_true ?_ ⟨trivial, fun p hp ↦ absurd hp List.not_mem_nil⟩
      change (stripAll ('/' :: '*' :: (body ++ []))).flatMap latin1 = [' ']
      rw [List.append_nil, stripAll_comment, (skipChars_body h.1 []).2]
      simp [stripAll, latin1_of_isAscii (by decide : IsAscii ' ')]

/-- **Preprocessing removes the comments, and nothing else,** just when the text outside them is
ASCII and no literal opens a comment. -/
theorem preprocess_eq_iff {pieces : List Piece} (h : WellFormed pieces) :
    (preprocess (String.ofList (textOf pieces))).1 = String.ofList (cleanedOf pieces) ↔
      ∀ p ∈ pieces, p.Clean := by
  rw [← flatMap_stripAll_textOf_iff h, ← scan_bytes]
  change String.ofList (scan (bytes (String.ofList (textOf pieces)).toList)).1 = _ ↔ _
  rw [String.toList_ofList]
  exact String.ofList_inj

/-- A literal, a comment and a character outside them. -/
theorem preprocess_eq_iff_quoted :
    (preprocess "'it''s'/* x' */A").1 = "'it''s' A" := by
  have hread : WellFormed
      [literal ['i', 't', '\'', 's'], comment [' ', 'x', '\'', ' '], other 'A'] := by decide
  exact (preprocess_eq_iff hread).mpr (by decide)

/-- **A mark in a literal opens a comment.** -/
theorem not_preprocess_eq_literal : ¬ ∀ pieces, WellFormed pieces →
    (preprocess (String.ofList (textOf pieces))).1 = String.ofList (cleanedOf pieces) := by
  intro h
  have hliteral := h [literal ['a', '/', '*', 'b']] (by decide)
  have hcleaned : (preprocess "'a/*b'").1 = "'a " := by decide +kernel
  exact absurd (hcleaned.symm.trans hliteral) (by decide)

example : (preprocess "é").1 = "Ã©" := by decide +kernel

theorem exists_quoted (t : List Char) : (∃ value, t = quoted value) ∨
    ∃ value after, t = quoted value ++ '\'' :: after ∧ after.head? ≠ some '\'' := by
  induction hlength : t.length using Nat.strong_induction_on generalizing t with
  | _ n ih =>
    rcases t with _ | ⟨c, rest⟩
    · exact Or.inl ⟨[], rfl⟩
    · subst hlength
      by_cases hc : c = '\''
      · subst hc
        by_cases hnext : rest.head? = some '\''
        · obtain ⟨rest, rfl⟩ := List.head?_eq_some_iff.mp hnext
          have hlt : rest.length < ('\'' :: '\'' :: rest).length :=
            Nat.lt_succ_of_lt (Nat.lt_succ_self _)
          rcases ih _ hlt rest rfl with ⟨value, rfl⟩ | ⟨value, after, rfl, hafter⟩
          · exact Or.inl ⟨'\'' :: value, rfl⟩
          · exact Or.inr ⟨'\'' :: value, after, rfl, hafter⟩
        · exact Or.inr ⟨[], rest, rfl, hnext⟩
      · have hquoted (value : List Char) : c :: quoted value = quoted (c :: value) := by
          rw [quoted, quoted, List.flatMap_cons, if_neg hc]
          rfl
        rcases ih _ (Nat.lt_succ_self _) rest rfl with ⟨value, rfl⟩ | ⟨value, after, rfl, hafter⟩
        · exact Or.inl ⟨c :: value, hquoted value⟩
        · exact Or.inr ⟨c :: value, after, by rw [← hquoted, List.cons_append], hafter⟩

theorem exists_body (t : List Char) : ¬ ['*', '/'] <:+: t ∨
    ∃ body after, t = body ++ '*' :: '/' :: after ∧ ¬ ['*', '/'] <:+: body := by
  induction t with
  | nil => exact Or.inl (by decide)
  | cons c rest ih =>
    by_cases hbegins : ['*', '/'] <+: c :: rest
    · obtain ⟨after, hafter⟩ := hbegins
      exact Or.inr ⟨[], after, hafter.symm, by decide⟩
    · rcases ih with hnone | ⟨body, after, rfl, hbody⟩
      · exact Or.inl fun hinfix ↦ (List.infix_cons_iff.mp hinfix).elim hbegins hnone
      · refine Or.inr ⟨c :: body, after, rfl, fun hinfix ↦ ?_⟩
        refine (List.infix_cons_iff.mp hinfix).elim (fun hhead ↦ hbegins ?_) hbody
        exact hhead.trans (List.prefix_append (c :: body) _)

theorem exists_wellFormed (t : List Char) : ∃ pieces, WellFormed pieces ∧ textOf pieces = t := by
  induction hlength : t.length using Nat.strong_induction_on generalizing t with
  | _ n ih =>
    subst hlength
    rcases t with _ | ⟨c, rest⟩
    · exact ⟨[], trivial, rfl⟩
    · by_cases hquote : c = '\''
      · subst hquote
        rcases exists_quoted rest with ⟨value, rfl⟩ | ⟨value, after, rfl, hafter⟩
        · refine ⟨[openLiteral value], rfl, ?_⟩
          rw [textOf, List.flatMap_singleton, text]
        · have hlt : after.length < ('\'' :: (quoted value ++ '\'' :: after)).length := by
            rw [List.length_cons, List.length_append, List.length_cons]
            omega
          obtain ⟨pieces, hpieces, rfl⟩ := ih _ hlt after rfl
          refine ⟨literal value :: pieces, ⟨hafter, hpieces⟩, ?_⟩
          rw [textOf_cons, text, List.cons_append, List.append_assoc, List.singleton_append]
      · by_cases hmark : c = '/' ∧ rest.head? = some '*'
        · obtain ⟨rfl, hstar⟩ := hmark
          obtain ⟨rest, rfl⟩ := List.head?_eq_some_iff.mp hstar
          rcases exists_body rest with hbody | ⟨body, after, rfl, hbody⟩
          · refine ⟨[openComment rest], ⟨hbody, rfl⟩, ?_⟩
            rw [textOf, List.flatMap_singleton, text]
          · have hlt : after.length < ('/' :: '*' :: (body ++ '*' :: '/' :: after)).length := by
              simp only [List.length_cons, List.length_append]
              omega
            obtain ⟨pieces, hpieces, rfl⟩ := ih _ hlt after rfl
            refine ⟨comment body :: pieces, ⟨hbody, hpieces⟩, ?_⟩
            simp only [textOf_cons, text, List.cons_append, List.append_assoc, List.nil_append]
        · obtain ⟨pieces, hpieces, rfl⟩ := ih _ (Nat.lt_succ_self _) rest rfl
          exact ⟨other c :: pieces, ⟨hquote, hmark, hpieces⟩, rfl⟩

end StepFile

end RosheraCad
