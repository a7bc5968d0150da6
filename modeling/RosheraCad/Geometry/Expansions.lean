import RosheraCad.Library.Rounding

/-!
# Sums of expansions

An expansion is a list of doubles that do not overlap, by increasing magnitude. Two are merged: a
running sum takes up one component after the other, and each error that is not zero is written out.
As long as nothing was written the fast addition is used, the component first.

The component is then not always the larger term. The fast addition keeps its error all the same,
but for a running sum that is a power of two and a component just below it that is rounded up.
-/

namespace RosheraCad

open Rounding

def MANTISSA_DIGITS : ℕ := 53

def takesFirst (enow fnow : ℚ) : Bool := decide (fnow > enow) == decide (fnow > -enow)

def nextComponent : List ℚ → List ℚ → Option (ℚ × List ℚ × List ℚ)
  | enow :: e, fnow :: f =>
    if takesFirst enow fnow then some (enow, e, fnow :: f) else some (fnow, enow :: e, f)
  | _, _ => none

def writeNonzero (capacity : ℕ) (h : List ℚ) (hh : ℚ) : Option (List ℚ) :=
  if hh ≠ 0 then if h.length < capacity then some (h ++ [hh]) else none else some h

/-- Add a component, by the fast addition as long as nothing was written. -/
def addNext (h : List ℚ) (q now : ℚ) : ℚ × ℚ :=
  if h.length = 0 then fastTwoSum MANTISSA_DIGITS now q else twoSum MANTISSA_DIGITS q now

variable {e f e' f' : List ℚ}

theorem cases_of_next {now : ℚ} (h : nextComponent e f = some (now, e', f')) :
    (∃ fnow l, e = now :: e' ∧ f = fnow :: l ∧ f' = fnow :: l ∧ takesFirst now fnow = true) ∨
    (∃ enow l, e = enow :: l ∧ e' = enow :: l ∧ f = now :: f' ∧ takesFirst enow now = false) := by
  unfold nextComponent at h
  split at h
  · next enow e fnow f =>
    split_ifs at h with htakes <;> obtain ⟨rfl, rfl, rfl⟩ := by simpa using h
    · exact Or.inl ⟨fnow, f, rfl, rfl, rfl, htakes⟩
    · exact Or.inr ⟨enow, e, rfl, rfl, rfl, Bool.eq_false_of_not_eq_true htakes⟩
  · exact absurd h (Option.some_ne_none _).symm

theorem length_of_nextComponent {now : ℚ} (h : nextComponent e f = some (now, e', f')) :
    e'.length + f'.length + 1 = e.length + f.length := by
  obtain ⟨fnow, l, rfl, rfl, rfl, -⟩ | ⟨enow, l, rfl, rfl, rfl, -⟩ := cases_of_next h <;>
    simp only [List.length_cons] <;> omega

def mergeBoth (capacity : ℕ) (e f : List ℚ) (q : ℚ) (h : List ℚ) :
    Option (List ℚ × List ℚ × ℚ × List ℚ) :=
  match _hnext : nextComponent e f with
  | some (now, e', f') =>
    let (qnew, hh) := addNext h q now
    (writeNonzero capacity h hh).bind (mergeBoth capacity e' f' qnew)
  | none => some (e, f, q, h)
termination_by e.length + f.length
decreasing_by
  have := length_of_nextComponent ‹nextComponent e f = _›
  omega

def addRest (capacity : ℕ) : List ℚ → ℚ → List ℚ → Option (ℚ × List ℚ)
  | [], q, h => some (q, h)
  | now :: rest, q, h =>
    let (qnew, hh) := twoSum MANTISSA_DIGITS q now
    (writeNonzero capacity h hh).bind (addRest capacity rest qnew)

/-- Merge two expansions into one, leaving out zeros, with room for a number of components. -/
def fastExpansionSumZeroelim (capacity : ℕ) (e f : List ℚ) : Option (List ℚ) := do
  let (q, e, f) ← nextComponent e f
  let (e, f, q, h) ← mergeBoth capacity e f q []
  let (q, h) ← addRest capacity e q h
  let (q, h) ← addRest capacity f q h
  if q ≠ 0 ∨ h.length = 0 then
    if h.length < capacity then some (h ++ [q]) else none
  else some h

/-! ## What the loops keep -/

def written (h : List ℚ) (hh : ℚ) : List ℚ := if hh ≠ 0 then h ++ [hh] else h

theorem writeNonzero_eq {capacity : ℕ} {h : List ℚ} (hroom : h.length < capacity) (hh : ℚ) :
    writeNonzero capacity h hh = some (written h hh) := by
  unfold writeNonzero written
  split_ifs <;> rfl

theorem length_written_le (h : List ℚ) (hh : ℚ) : (written h hh).length ≤ h.length + 1 := by
  unfold written
  split_ifs
  · rw [List.length_append, List.length_singleton]
  · exact Nat.le_succ _

theorem sum_written (h : List ℚ) (hh : ℚ) : (written h hh).sum = h.sum + hh := by
  unfold written
  split_ifs with hne
  · rw [List.sum_append, List.sum_singleton]
  · rw [not_not.mp hne, add_zero]

theorem mem_written {h : List ℚ} {hh x : ℚ} (hx : x ∈ written h hh) : x ∈ h ∨ x = hh ∧ x ≠ 0 := by
  unfold written at hx
  split_ifs at hx with hne
  · rcases List.mem_append.mp hx with hx | hx
    · exact Or.inl hx
    · obtain rfl := List.mem_singleton.mp hx
      exact Or.inr ⟨rfl, hne⟩
  · exact Or.inl hx

section

variable {capacity : ℕ} {e f h : List ℚ} {q : ℚ}

theorem mergeBoth_of_next {now : ℚ} {e' f' : List ℚ}
    (hnext : nextComponent e f = some (now, e', f')) : mergeBoth capacity e f q h =
      (writeNonzero capacity h (addNext h q now).2).bind
        (mergeBoth capacity e' f' (addNext h q now).1) := by
  rw [mergeBoth]
  split
  · next hnext' =>
    obtain ⟨rfl, rfl, rfl⟩ := by simpa using hnext.symm.trans hnext'
    rfl
  · next hnone => exact absurd (hnext.symm.trans hnone) (Option.some_ne_none _)

theorem mergeBoth_of_none (hnone : nextComponent e f = none) :
    mergeBoth capacity e f q h = some (e, f, q, h) := by
  rw [mergeBoth]
  split
  · next hnext => exact absurd (hnext.symm.trans hnone) (Option.some_ne_none _)
  · rfl

/-- **The rule of the first loop**: with room there is a result, and it has what each addition
keeps. -/
theorem mergeBoth_rule {I : List ℚ → List ℚ → ℚ → List ℚ → Prop}
    (hstep : ∀ e f q h now e' f', nextComponent e f = some (now, e', f') → I e f q h →
      I e' f' (addNext h q now).1 (written h (addNext h q now).2))
    (hI : I e f q h) (hroom : h.length + e.length + f.length < capacity) :
    ∃ e' f' q' h', mergeBoth capacity e f q h = some (e', f', q', h') ∧ I e' f' q' h' ∧
      nextComponent e' f' = none ∧
      h'.length + e'.length + f'.length ≤ h.length + e.length + f.length := by
  induction hn : e.length + f.length using Nat.strong_induction_on generalizing e f q h with
  | _ n ih =>
    rcases hnext : nextComponent e f with - | ⟨now, e', f'⟩
    · exact ⟨e, f, q, h, mergeBoth_of_none hnext, hI, hnext, le_rfl⟩
    · have hlength := length_of_nextComponent hnext
      have hle := length_written_le h (addNext h q now).2
      rw [mergeBoth_of_next hnext, writeNonzero_eq (by omega), Option.bind_some]
      obtain ⟨e₁, f₁, q₁, h₁, hmerge, hI₁, hnone, hle₁⟩ := ih (e'.length + f'.length) (by omega)
        (hstep e f q h now e' f' hnext hI) (by omega) rfl
      exact ⟨e₁, f₁, q₁, h₁, hmerge, hI₁, hnone, by omega⟩

theorem addRest_cons (now : ℚ) (rest : List ℚ) : addRest capacity (now :: rest) q h =
    (writeNonzero capacity h (twoSum MANTISSA_DIGITS q now).2).bind
      (addRest capacity rest (twoSum MANTISSA_DIGITS q now).1) := rfl

theorem addRest_rule {I : List ℚ → ℚ → List ℚ → Prop} (hstep : ∀ now rest q h, I (now :: rest) q h →
      I rest (twoSum MANTISSA_DIGITS q now).1 (written h (twoSum MANTISSA_DIGITS q now).2))
    (hI : I e q h) (hroom : h.length + e.length < capacity) :
    ∃ q' h', addRest capacity e q h = some (q', h') ∧ I [] q' h' ∧
      h'.length ≤ h.length + e.length := by
  induction e generalizing q h with
  | nil => exact ⟨q, h, rfl, hI, le_rfl⟩
  | cons now rest ih =>
    rw [List.length_cons] at hroom
    have hle := length_written_le h (twoSum MANTISSA_DIGITS q now).2
    rw [addRest_cons, writeNonzero_eq (by omega), Option.bind_some]
    obtain ⟨q', h', hrest, hI', hle'⟩ := ih (hstep now rest q h hI) (by omega)
    exact ⟨q', h', hrest, hI', by rw [List.length_cons]; omega⟩

end

/-! ## The terms of the fast addition -/

def Nonoverlapping (x y : ℚ) : Prop := Below x y ∨ Below y x

/-- Doubles that are not zero, by increasing magnitude, that do not overlap. -/
structure IsExpansion (e : List ℚ) : Prop where
  ne_nil : e ≠ []
  isFloat : ∀ x ∈ e, IsFloat MANTISSA_DIGITS x
  ne_zero : ∀ x ∈ e, x ≠ 0
  sorted : e.Pairwise fun x y ↦ |x| ≤ |y|
  nonoverlapping : e.Pairwise Nonoverlapping

def taken : List ℚ → List ℚ → List ℚ
  | enow :: e, fnow :: f =>
    if takesFirst enow fnow then enow :: taken e (fnow :: f) else fnow :: taken (enow :: e) f
  | _, _ => []

def Loses : ℚ → List ℚ → Prop
  | _, [] => False
  | q, now :: l =>
    Lost MANTISSA_DIGITS now q ∨ IsFloat MANTISSA_DIGITS (q + now) ∧ Loses (q + now) l

theorem taken_of_next {now : ℚ}
    (h : nextComponent e f = some (now, e', f')) : taken e f = now :: taken e' f' := by
  obtain ⟨fnow, l, rfl, rfl, rfl, htakes⟩ | ⟨enow, l, rfl, rfl, rfl, htakes⟩ := cases_of_next h <;>
    rw [taken, htakes] <;> rfl

variable {e f : List ℚ}

theorem taken_of_none (h : nextComponent e f = none) : taken e f = [] := by
  unfold taken
  split
  · rw [nextComponent] at h
    split_ifs at h
  · rfl

theorem abs_le_of_takesFirst {x y : ℚ} (h : takesFirst x y = true) : |x| ≤ |y| := by
  simp only [takesFirst, beq_iff_eq, decide_eq_decide] at h
  rcases lt_or_ge x y with hlt | hge
  · have := h.mp hlt
    exact (abs_le.mpr ⟨by linarith, hlt.le⟩).trans (le_abs_self y)
  · have := mt h.mpr hge.not_gt
    exact (abs_le.mpr ⟨by linarith, by linarith⟩).trans (neg_le_abs y)

theorem abs_le_of_not_takesFirst {x y : ℚ} (h : takesFirst x y = false) : |y| ≤ |x| := by
  simp only [takesFirst, beq_eq_false_iff_ne, ne_eq, decide_eq_decide] at h
  rcases lt_or_ge x y with hlt | hge
  · have : ¬ y > -x := fun h' ↦ h ⟨fun _ ↦ h', fun _ ↦ hlt⟩
    exact (abs_le.mpr ⟨by linarith, by linarith⟩).trans (neg_le_abs x)
  · have : y > -x := by
      by_contra hle
      exact h ⟨fun hlt ↦ absurd hlt hge.not_gt, fun h' ↦ absurd h' hle⟩
    exact (abs_le.mpr ⟨by linarith, hge⟩).trans (le_abs_self x)

structure Split (pe e pf f : List ℚ) : Prop where
  isFloat : ∀ x ∈ (pe ++ e) ++ (pf ++ f), IsFloat MANTISSA_DIGITS x
  ne_zero : ∀ x ∈ e ++ f, x ≠ 0
  left : (pe ++ e).Pairwise Below
  right : (pf ++ f).Pairwise Below
  left_le : ∀ x ∈ pe, ∀ y ∈ f, |x| ≤ |y|
  right_le : ∀ x ∈ pf, ∀ y ∈ e, |x| ≤ |y|

namespace Split

variable {pe e pf f : List ℚ} {now : ℚ}

theorem swap (h : Split pe e pf f) : Split pf f pe e :=
  ⟨fun x hx ↦ h.isFloat x (List.mem_append.mpr (List.mem_append.mp hx).symm),
    fun x hx ↦ h.ne_zero x (List.mem_append.mpr (List.mem_append.mp hx).symm),
    h.right, h.left, h.right_le, h.left_le⟩

theorem abs_sum_left_lt (h : Split pe e pf f) {s : ℤ} (hs : ∀ x ∈ pe, |x| < 2 ^ s) :
    |pe.sum| < 2 ^ s :=
  abs_sum_lt (List.pairwise_append.mp h.left).1 (fun x hx ↦
    let ⟨s, hs, _⟩ := h.isFloat x (List.mem_append_left _ (List.mem_append_left e hx))
    ⟨s, hs⟩) hs

theorem abs_sum_lt_of_not_multiple (h : Split pe e pf f) {k : ℤ} {x : ℚ} (hx : x ∈ e)
    (hodd : ¬ Multiple (k + 1) x) : |pe.sum| < 2 ^ k := by
  refine h.abs_sum_left_lt fun y hy ↦ ?_
  obtain ⟨s, hys, hxs⟩ := (List.pairwise_append.mp h.left).2.2 y hy x hx
  refine hys.trans_le (two_zpow_le ?_)
  by_contra! hlt
  exact hodd (hxs.of_le hlt)

theorem abs_sum_lt_lastBit (h : Split pe (now :: e) pf f) :
    ∃ t, Multiple t now ∧
      |pe.sum + pf.sum| < 2 ^ (MANTISSA_DIGITS + lastBit MANTISSA_DIGITS now) + 2 ^ t := by
  obtain ⟨s, hs, -⟩ := h.isFloat now (by simp)
  obtain ⟨t, hlt, ht⟩ := exists_place ⟨s, hs⟩ fun y hy ↦
    (List.pairwise_append.mp h.left).2.2 y hy now List.mem_cons_self
  refine ⟨t, ht, (abs_add_le _ _).trans_lt ?_⟩
  rw [add_comm]
  exact add_lt_add (h.swap.abs_sum_left_lt fun x hx ↦
    (h.right_le x hx now List.mem_cons_self).trans_lt (abs_lt_zpow now)) (h.abs_sum_left_lt hlt)

theorem next (h : Split pe (now :: e) pf f) (hle : ∀ y ∈ f, |now| ≤ |y|) :
    Split (pe ++ [now]) e pf f := by
  refine ⟨?_, fun x hx ↦ h.ne_zero x (List.mem_cons_of_mem now hx), ?_, h.right, ?_,
    fun x hx y hy ↦ h.right_le x hx y (List.mem_cons_of_mem now hy)⟩
  · rw [List.append_assoc pe, List.singleton_append]
    exact h.isFloat
  · rw [List.append_assoc, List.singleton_append]
    exact h.left
  · intro x hx y hy
    rcases List.mem_append.mp hx with hx | hx
    · exact h.left_le x hx y hy
    · obtain rfl := List.mem_singleton.mp hx
      exact hle y hy

/-- Where the sum is a power of two and the component's last bit is below the double's, no component
left has a bit there. -/
theorem multiple_left (h : Split pe (now :: e) pf f) {k : ℤ}
    (hsum : |pe.sum + pf.sum| = 2 ^ (MANTISSA_DIGITS + k)) (hodd : ¬ Multiple (k + 1) now)
    (hbig : 2 ^ (MANTISSA_DIGITS + k) ≤ 2 * |now|) : ∀ x ∈ e ++ f, Multiple (k + 1) x := by
  intro x hx
  rcases List.mem_append.mp hx with hx | hx
  · have hbelow := (List.pairwise_append.mp h.left).2.1
    obtain ⟨s, hnow, hxs⟩ := (List.pairwise_cons.mp hbelow).1 x hx
    refine hxs.of_le ?_
    by_contra! hlt
    have := two_zpow_le (show s + 1 ≤ MANTISSA_DIGITS + k by simp only [MANTISSA_DIGITS]; omega)
    rw [two_zpow_succ] at this
    linarith
  · by_contra hxodd
    have hleft := h.abs_sum_lt_of_not_multiple List.mem_cons_self hodd
    have hright := h.swap.abs_sum_lt_of_not_multiple hx hxodd
    have := two_zpow_le (show k + 1 ≤ MANTISSA_DIGITS + k by simp only [MANTISSA_DIGITS]; omega)
    rw [two_zpow_succ] at this
    linarith [abs_add_le pe.sum pf.sum]

theorem le_of_le_head {fnow : ℚ} (h : Split pe e pf (fnow :: f)) (hle : |now| ≤ |fnow|) :
    ∀ y ∈ fnow :: f, |now| ≤ |y| := by
  intro y hy
  rcases List.mem_cons.mp hy with rfl | hmem
  · exact hle
  · obtain ⟨s, hlt, hys⟩ := (List.pairwise_cons.mp (List.pairwise_append.mp h.right).2.1).1 y hmem
    have hy0 := h.ne_zero y (List.mem_append_right e hy)
    exact hle.trans (hlt.le.trans (two_zpow_le_abs hys hy0))

end Split

def Reached (q : ℚ) (e f : List ℚ) : Prop := ∃ pe pf, Split pe e pf f ∧ pe.sum + pf.sum = q

theorem Reached.swap {q : ℚ} (h : Reached q e f) : Reached q f e := by
  obtain ⟨pe, pf, hsplit, hsum⟩ := h
  exact ⟨pf, pe, hsplit.swap, by rw [add_comm, hsum]⟩

structure Next (q now : ℚ) (e f : List ℚ) : Prop where
  isFloat : IsFloat MANTISSA_DIGITS now
  ne_zero : now ≠ 0
  abs_sum_lt : ∃ t, Multiple t now ∧
    |q| < 2 ^ (MANTISSA_DIGITS + lastBit MANTISSA_DIGITS now) + 2 ^ t
  multiple_left : ∀ k : ℤ, |q| = 2 ^ (MANTISSA_DIGITS + k) → ¬ Multiple (k + 1) now →
    2 ^ (MANTISSA_DIGITS + k) ≤ 2 * |now| → ∀ x ∈ e ++ f, Multiple (k + 1) x

theorem Next.swap {q now : ℚ} (h : Next q now e f) : Next q now f e :=
  ⟨h.isFloat, h.ne_zero, h.abs_sum_lt, fun k hq hodd hbig x hx ↦
    h.multiple_left k hq hodd hbig x (List.mem_append.mpr (List.mem_append.mp hx).symm)⟩

theorem Reached.cons {q now fnow : ℚ} (h : Reached q (now :: e) (fnow :: f))
    (hle : |now| ≤ |fnow|) : Next q now e (fnow :: f) ∧ Reached (q + now) e (fnow :: f) := by
  obtain ⟨pe, pf, hsplit, rfl⟩ := h
  refine ⟨⟨hsplit.isFloat now (by simp), hsplit.ne_zero now List.mem_cons_self,
    hsplit.abs_sum_lt_lastBit, fun k ↦ hsplit.multiple_left⟩,
    pe ++ [now], pf, hsplit.next (hsplit.le_of_le_head hle), ?_⟩
  rw [List.sum_append, List.sum_singleton]
  ring

/-- **A step**: what can be taken keeps to the bounds, and taking it keeps the invariant. -/
theorem Reached.next {q now : ℚ} (h : Reached q e f)
    (hnext : nextComponent e f = some (now, e', f')) :
    Next q now e' f' ∧ Reached (q + now) e' f' := by
  obtain ⟨fnow, l, rfl, rfl, rfl, htakes⟩ | ⟨enow, l, rfl, rfl, rfl, htakes⟩ := cases_of_next hnext
  · exact h.cons (abs_le_of_takesFirst htakes)
  · obtain ⟨hnow, hreached⟩ := h.swap.cons (abs_le_of_not_takesFirst htakes)
    exact ⟨hnow.swap, hreached.swap⟩

theorem perm_of_next {now : ℚ}
    (h : nextComponent e f = some (now, e', f')) : (e ++ f).Perm (now :: (e' ++ f')) := by
  obtain ⟨fnow, l, rfl, rfl, rfl, -⟩ | ⟨enow, l, rfl, rfl, rfl, -⟩ := cases_of_next h
  · exact .refl _
  · exact List.perm_middle

/-! ## What is kept after an error was written -/

structure Running (l : List ℚ) (q : ℚ) (h : List ℚ) : Prop where
  isFloat : ∀ x ∈ q :: l, IsFloat MANTISSA_DIGITS x
  ne_zero : ∀ x ∈ h, x ≠ 0

/-- The sum is still the one it was, or it lacks a bit in a place where all that is left is even. -/
def Settled (S : ℚ) (lost : Prop) (l : List ℚ) (q : ℚ) (h : List ℚ) : Prop :=
  h.sum + q + l.sum = S ∧ ¬ lost ∨
    lost ∧ ∃ k, ¬ Multiple k S ∧ ∀ x ∈ h ++ q :: l, Multiple k x

section

variable {S q now x y : ℚ} {lost : Prop} {l l' h : List ℚ}

theorem Running.perm (hrun : Running l q h) (hl : l.Perm l') : Running l' q h :=
  ⟨fun x hx ↦ hrun.isFloat x ((hl.cons q).mem_iff.mpr hx), hrun.ne_zero⟩

theorem Running.step (hrun : Running (now :: l) q h) (hx : IsFloat MANTISSA_DIGITS x) :
    Running l x (written h y) := by
  refine ⟨fun z hz ↦ ?_, fun z hz ↦ ?_⟩
  · rcases List.mem_cons.mp hz with rfl | hz
    · exact hx
    · exact hrun.isFloat z (by simp [hz])
  · rcases mem_written hz with hz | ⟨-, hz⟩
    · exact hrun.ne_zero z hz
    · exact hz

theorem Settled.perm (hs : Settled S lost l q h) (hl : l.Perm l') : Settled S lost l' q h := by
  rcases hs with ⟨hsum, hlost⟩ | ⟨hlost, k, hS, hall⟩
  · exact Or.inl ⟨by rw [← hsum, hl.sum_eq], hlost⟩
  · exact Or.inr ⟨hlost, k, hS, fun z hz ↦ hall z (((hl.cons q).append_left h).mem_iff.mpr hz)⟩

theorem Settled.step (hs : Settled S lost (now :: l) q h) (hexact : ¬ lost → x + y = q + now)
    (hmultiple : ∀ k, Multiple k q → Multiple k now → Multiple k x ∧ Multiple k y) :
    Settled S lost l x (written h y) := by
  rcases hs with ⟨hsum, hlost⟩ | ⟨hlost, k, hS, hall⟩
  · refine Or.inl ⟨?_, hlost⟩
    rw [List.sum_cons] at hsum
    rw [sum_written]
    linarith [hexact hlost]
  · obtain ⟨hx, hy⟩ := hmultiple k (hall q (by simp)) (hall now (by simp))
    refine Or.inr ⟨hlost, k, hS, fun z hz ↦ ?_⟩
    rcases List.mem_append.mp hz with hz | hz
    · rcases mem_written hz with hz | ⟨rfl, -⟩
      · exact hall z (by simp [hz])
      · exact hy
    · rcases List.mem_cons.mp hz with rfl | hz
      · exact hx
      · exact hall z (by simp [hz])

end

/-- **The invariant of the first loop**: nothing was written and the sum is exact, or it is settled.
-/
structure Merging (S : ℚ) (lost : Prop) (e f : List ℚ) (q : ℚ) (h : List ℚ) : Prop where
  running : Running (e ++ f) q h
  cases : h = [] ∧ Reached q e f ∧ q + (e ++ f).sum = S ∧ (lost ↔ Loses q (taken e f)) ∨
    (h = [] → lost) ∧ Settled S lost (e ++ f) q h

theorem two_le_mantissa_digits : 2 ≤ MANTISSA_DIGITS := by decide

theorem mantissa_digits_pos : 0 < MANTISSA_DIGITS := by decide

theorem multiple_sum {k : ℤ} {l : List ℚ} (h : ∀ x ∈ l, Multiple k x) : Multiple k l.sum := by
  induction l with
  | nil => exact .zero k
  | cons x l ih =>
    rw [List.sum_cons]
    exact (h x List.mem_cons_self).add (ih fun y hy ↦ h y (List.mem_cons_of_mem x hy))

section

variable {S q now : ℚ} {lost : Prop} {e f e' f' h : List ℚ}

theorem isFloat_addNext (h : List ℚ) (q now : ℚ) :
    IsFloat MANTISSA_DIGITS (addNext h q now).1 := by
  unfold addNext
  split_ifs <;> exact isFloat_fl mantissa_digits_pos _

theorem multiple_addNext (h : List ℚ) {k : ℤ} (hq : Multiple k q) (hnow : Multiple k now) :
    Multiple k (addNext h q now).1 ∧ Multiple k (addNext h q now).2 := by
  unfold addNext
  split_ifs
  · exact hnow.fastTwoSum hq
  · exact hq.twoSum hnow

theorem Merging.step_reached (hrun : Running (now :: (e' ++ f')) q []) (hnow : Next q now e' f')
    (hreached : Reached (q + now) e' f') (hS : q + (now :: (e' ++ f')).sum = S)
    (hlost : lost ↔ Loses q (now :: taken e' f')) :
    Merging S lost e' f' (addNext [] q now).1 (written [] (addNext [] q now).2) := by
  refine ⟨hrun.step (isFloat_addNext [] q now), ?_⟩
  have hq := hrun.isFloat q List.mem_cons_self
  rw [List.sum_cons] at hS
  have hfast : addNext [] q now = fastTwoSum MANTISSA_DIGITS now q := rfl
  rw [hfast]
  obtain ⟨t, ht, hbound⟩ := hnow.abs_sum_lt
  by_cases hl : Lost MANTISSA_DIGITS now q
  · obtain ⟨k, x, hx, hxk, hodd, hqk, hbig⟩ := hl.fastTwoSum two_le_mantissa_digits
    have hleft := hnow.multiple_left k hqk hodd hbig
    have hqeven : Multiple (k + 1) q := by
      have hpow : Multiple (k + 1) (2 ^ (MANTISSA_DIGITS + k)) :=
        .zpow (by simp only [MANTISSA_DIGITS]; omega)
      rcases (abs_eq (two_zpow_pos _).le).mp hqk with rfl | rfl
      · exact hpow
      · exact hpow.neg
    have hwritten : written [] (x, (0 : ℚ)).2 = [] := if_neg (not_not.mpr rfl)
    have hlost' : lost := hlost.mpr (Or.inl hl)
    rw [hx, hwritten]
    refine Or.inr ⟨fun _ ↦ hlost', Or.inr ⟨hlost', k + 1, fun hSk ↦ hodd ?_, ?_⟩⟩
    · rw [show now = S - q - (e' ++ f').sum by rw [← hS]; ring]
      exact (hSk.sub hqeven).sub (multiple_sum hleft)
    · intro z hz
      rcases List.mem_cons.mp hz with rfl | hz
      · exact hxk
      · exact hleft z hz
  · have hexact := (fastTwoSum_exact_or_lost two_le_mantissa_digits hnow.isFloat hq hnow.ne_zero
      ht hbound).resolve_right hl
    have hround : (fastTwoSum MANTISSA_DIGITS now q).1 = fl MANTISSA_DIGITS (now + q) := rfl
    generalize fastTwoSum MANTISSA_DIGITS now q = r at hexact hround
    obtain ⟨x, y⟩ := r
    simp only at hexact hround ⊢
    rcases eq_or_ne y 0 with rfl | hy
    · rw [add_zero] at hexact
      have hsum : x = q + now := by rw [hexact, add_comm]
      have hfloat : IsFloat MANTISSA_DIGITS (q + now) := by
        rw [← hsum, hround]
        exact isFloat_fl mantissa_digits_pos _
      have hloses : lost ↔ Loses (q + now) (taken e' f') := by
        rw [hlost, Loses]
        exact ⟨fun h ↦ (h.resolve_left hl).2, fun h ↦ Or.inr ⟨hfloat, h⟩⟩
      refine Or.inl ⟨if_neg (not_not.mpr rfl), hsum ▸ hreached, ?_, hsum ▸ hloses⟩
      rw [hsum, add_assoc, hS]
    · have hwritten : written [] y = [y] := if_pos hy
      refine Or.inr ⟨fun h ↦ absurd (hwritten ▸ h) (List.cons_ne_nil y []), Or.inl ⟨?_, ?_⟩⟩
      · rw [hwritten, List.sum_singleton]
        linarith
      · rw [hlost, Loses, not_or, not_and]
        refine ⟨hl, fun hfloat ↦ absurd ?_ hy⟩
        rw [hround, add_comm now, fl_of_isFloat hfloat] at hexact
        linarith

theorem Merging.step (hm : Merging S lost e f q h)
    (hnext : nextComponent e f = some (now, e', f')) :
    Merging S lost e' f' (addNext h q now).1 (written h (addNext h q now).2) := by
  have hperm := perm_of_next hnext
  have hrun := hm.running.perm hperm
  rcases hm.cases with ⟨rfl, hreached, hS, hlost⟩ | ⟨hempty, hsettled⟩
  · obtain ⟨hnow, hreached'⟩ := hreached.next hnext
    rw [taken_of_next hnext] at hlost
    exact Merging.step_reached hrun hnow hreached' (by rw [← hperm.sum_eq, hS]) hlost
  · refine ⟨hrun.step (isFloat_addNext h q now), Or.inr ⟨?_, ?_⟩⟩
    · intro hwritten
      refine hempty ?_
      unfold written at hwritten
      split_ifs at hwritten
      · exact absurd hwritten (List.append_ne_nil_of_right_ne_nil h (List.cons_ne_nil _ []))
      · exact hwritten
    · refine (hsettled.perm hperm).step (fun hkept ↦ ?_) fun k ↦ multiple_addNext h
      have hne : h.length ≠ 0 := fun h0 ↦ hkept (hempty (List.length_eq_zero_iff.mp h0))
      rw [addNext, if_neg hne]
      exact twoSum_exact mantissa_digits_pos (hrun.isFloat q List.mem_cons_self)
        (hrun.isFloat now (by simp))

/-- When one of the two is used up, what becomes of the sum is settled. -/
theorem Merging.settled (hm : Merging S lost e f q h) (hnone : nextComponent e f = none) :
    Settled S lost (e ++ f) q h := by
  rcases hm.cases with ⟨rfl, -, hS, hlost⟩ | ⟨-, hsettled⟩
  · refine Or.inl ⟨by rw [List.sum_nil, zero_add, hS], ?_⟩
    rw [hlost, taken_of_none hnone]
    exact not_false
  · exact hsettled

theorem settled_step {rest : List ℚ}
    (h₀ : Running (now :: rest) q h ∧ Settled S lost (now :: rest) q h) :
    Running rest (twoSum MANTISSA_DIGITS q now).1 (written h (twoSum MANTISSA_DIGITS q now).2) ∧
    Settled S lost rest (twoSum MANTISSA_DIGITS q now).1
      (written h (twoSum MANTISSA_DIGITS q now).2) :=
  ⟨h₀.1.step (isFloat_fl mantissa_digits_pos _), h₀.2.step
    (fun _ ↦ twoSum_exact mantissa_digits_pos (h₀.1.isFloat q List.mem_cons_self)
      (h₀.1.isFloat now (by simp))) fun _ hq hnow ↦ hq.twoSum hnow⟩

end

theorem exists_addRest {capacity : ℕ} {S q : ℚ} {lost : Prop} {e f h : List ℚ}
    (hrun : Running (e ++ f) q h) (hs : Settled S lost (e ++ f) q h)
    (hroom : h.length + e.length + f.length < capacity) : ∃ q₁ h₁ q₂ h₂,
      addRest capacity e q h = some (q₁, h₁) ∧ addRest capacity f q₁ h₁ = some (q₂, h₂) ∧
      Running [] q₂ h₂ ∧ Settled S lost [] q₂ h₂ ∧
      h₂.length ≤ h.length + e.length + f.length := by
  obtain ⟨q₁, h₁, hfirst, ⟨hrun₁, hs₁⟩, hle₁⟩ := addRest_rule
    (I := fun rest q h ↦ Running (rest ++ f) q h ∧ Settled S lost (rest ++ f) q h)
    (fun now rest q h h₀ ↦ settled_step h₀) ⟨hrun, hs⟩
    (show h.length + e.length < capacity by omega)
  rw [List.nil_append] at hrun₁ hs₁
  obtain ⟨q₂, h₂, hsecond, ⟨hrun₂, hs₂⟩, hle₂⟩ := addRest_rule
    (I := fun rest q h ↦ Running rest q h ∧ Settled S lost rest q h)
    (fun now rest q h h₀ ↦ settled_step h₀) ⟨hrun₁, hs₁⟩
    (show h₁.length + f.length < capacity by omega)
  exact ⟨q₁, h₁, q₂, h₂, hfirst, hsecond, hrun₂, hs₂, by omega⟩

/-! ## The sum -/

theorem IsExpansion.below {e : List ℚ} (h : IsExpansion e) : e.Pairwise Below := by
  refine (h.sorted.and h.nonoverlapping).imp_of_mem fun {x y} hx hy hxy ↦ hxy.2.resolve_right ?_
  rintro ⟨s, hlt, hs⟩
  exact absurd hxy.1 ((hlt.trans_le (two_zpow_le_abs hs (h.ne_zero x hx))).not_ge)

theorem reached_start (he : IsExpansion e) (hf : IsExpansion f) :
    Reached 0 e f := by
  refine ⟨[], [], ⟨fun x hx ↦ ?_, fun x hx ↦ ?_, he.below, hf.below, ?_, ?_⟩, by simp⟩
  · exact (List.mem_append.mp hx).elim (he.isFloat x) (hf.isFloat x)
  · exact (List.mem_append.mp hx).elim (he.ne_zero x) (hf.ne_zero x)
  · exact fun x hx ↦ absurd hx List.not_mem_nil
  · exact fun x hx ↦ absurd hx List.not_mem_nil

/-- **Where the merge loses a bit**: after the first component, the fast addition loses an error. -/
def MergeLoses (e f : List ℚ) : Prop :=
  ∃ first l, taken e f = first :: l ∧ Loses first l

structure Merges (e f h : List ℚ) : Prop where
  ne_nil : h ≠ []
  length_le : h.length ≤ e.length + f.length
  ne_zero : 1 < h.length → ∀ x ∈ h, x ≠ 0

theorem exists_next (he : e ≠ []) (hf : f ≠ []) :
    ∃ now e' f', nextComponent e f = some (now, e', f') := by
  obtain ⟨x, e, rfl⟩ := List.exists_cons_of_ne_nil he
  obtain ⟨y, f, rfl⟩ := List.exists_cons_of_ne_nil hf
  rw [nextComponent]
  split_ifs
  exacts [⟨_, _, _, rfl⟩, ⟨_, _, _, rfl⟩]

theorem exists_output {S q : ℚ} {lost : Prop} {e f h : List ℚ} {capacity : ℕ}
    (hrun : Running [] q h) (hs : Settled S lost [] q h)
    (hle : h.length + 1 ≤ e.length + f.length) (hroom : h.length < capacity) :
    ∃ h', (if q ≠ 0 ∨ h.length = 0 then if h.length < capacity then some (h ++ [q]) else none
      else some h) = some h' ∧ Merges e f h' ∧ (h'.sum = S ↔ ¬ lost) := by
  have htotal : h.sum + q = S ↔ ¬ lost := by
    rcases hs with ⟨hsum, hlost⟩ | ⟨hlost, k, hS, hall⟩
    · rw [List.sum_nil, add_zero] at hsum
      exact iff_of_true hsum hlost
    · refine iff_of_false (fun hsum ↦ hS ?_) (not_not.mpr hlost)
      have := multiple_sum hall
      rwa [List.sum_append, List.sum_singleton, hsum] at this
  by_cases hlast : q ≠ 0 ∨ h.length = 0
  · refine ⟨h ++ [q], by rw [if_pos hlast, if_pos hroom], ⟨?_, ?_, ?_⟩, ?_⟩
    · exact List.append_ne_nil_of_right_ne_nil h (List.cons_ne_nil q [])
    · rwa [List.length_append, List.length_singleton]
    · intro hlen x hx
      rw [List.length_append, List.length_singleton] at hlen
      rcases List.mem_append.mp hx with hx | hx
      · exact hrun.ne_zero x hx
      · obtain rfl := List.mem_singleton.mp hx
        exact hlast.resolve_right (by omega)
    · rwa [List.sum_append, List.sum_singleton]
  · obtain ⟨hq, hne⟩ := not_or.mp hlast
    refine ⟨h, if_neg hlast, ⟨?_, by omega, fun _ ↦ hrun.ne_zero⟩, ?_⟩
    · exact fun h0 ↦ hne (List.length_eq_zero_iff.mpr h0)
    · rwa [not_not.mp hq, add_zero] at htotal

theorem IsExpansion.sublist (h : IsExpansion f) (hsub : e.Sublist f)
    (hne : e ≠ []) : IsExpansion e :=
  ⟨hne, fun x hx ↦ h.isFloat x (hsub.subset hx), fun x hx ↦ h.ne_zero x (hsub.subset hx),
    h.sorted.sublist hsub, h.nonoverlapping.sublist hsub⟩

theorem isExpansion_lossy : IsExpansion [1, 2 ^ 54 - 2, 2 ^ 55] := by
  refine ⟨List.cons_ne_nil _ _, ?_, by decide +kernel, by decide +kernel, ?_⟩
  · simp only [List.forall_mem_cons, List.not_mem_nil, false_imp_iff, implies_true, and_true]
    exact ⟨⟨0, ⟨1, by norm_num⟩, by norm_num [MANTISSA_DIGITS]⟩,
      ⟨1, ⟨2 ^ 53 - 1, by norm_num⟩, by norm_num [MANTISSA_DIGITS]⟩,
      ⟨55, ⟨1, by norm_num⟩, by norm_num [MANTISSA_DIGITS]⟩⟩
  · simp only [List.pairwise_cons, List.forall_mem_cons, List.not_mem_nil, false_imp_iff,
      implies_true, and_true, List.Pairwise.nil]
    exact ⟨⟨Or.inl ⟨1, by norm_num, 2 ^ 53 - 1, by norm_num⟩,
      Or.inl ⟨1, by norm_num, 2 ^ 54, by norm_num⟩⟩, Or.inl ⟨55, by norm_num, 1, by norm_num⟩⟩

end RosheraCad
