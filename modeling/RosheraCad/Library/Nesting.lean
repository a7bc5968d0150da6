import Mathlib.Data.List.Basic

/-!
# Well-nested sequences

A sequence of items and windows is read from tokens: an item, an opening bracket, or a closing
bracket that says how its window ends. The sequences whose brackets match are written as trees.

A window is kept or dropped. An item *survives* when every window around it is kept.
-/

namespace Nesting

/-- A token of a sequence: an item, the start of a window or its end. -/
inductive Token (α κ : Type*)
  | item (a : α)
  | start
  | stop (how : κ)
  deriving DecidableEq

/-- A well-nested sequence. -/
inductive Nest (α κ : Type*)
  | nil
  | item (a : α) (rest : Nest α κ)
  | window (inner : Nest α κ) (how : κ) (rest : Nest α κ)

variable {α κ : Type*}

namespace Nest

def tokens : Nest α κ → List (Token α κ)
  | nil => []
  | item a rest => .item a :: rest.tokens
  | window inner how rest => .start :: (inner.tokens ++ .stop how :: rest.tokens)

def items : Nest α κ → List α
  | nil => []
  | item a rest => a :: rest.items
  | window inner _ rest => inner.items ++ rest.items

/-- The items none of whose windows is dropped. -/
def survivors (keep : κ → Bool) : Nest α κ → List α
  | nil => []
  | item a rest => a :: rest.survivors keep
  | window inner how rest =>
    (if keep how then inner.survivors keep else []) ++ rest.survivors keep

def outerSurvivors (keep : κ → Bool) : Nest α κ → List α
  | nil => []
  | item a rest => a :: rest.outerSurvivors keep
  | window inner how rest =>
    (if keep how then inner.items else []) ++ rest.outerSurvivors keep

def DropsNothing (keep : κ → Bool) : Nest α κ → Prop
  | nil => True
  | item _ rest => rest.DropsNothing keep
  | window inner how rest =>
    (keep how = false → inner.items = []) ∧ inner.DropsNothing keep ∧ rest.DropsNothing keep

/-- No window that is dropped inside a kept outermost window holds an item. -/
def InnerDropsNothing (keep : κ → Bool) : Nest α κ → Prop
  | nil => True
  | item _ rest => rest.InnerDropsNothing keep
  | window inner how rest =>
    (keep how = true → inner.DropsNothing keep) ∧ rest.InnerDropsNothing keep

/-! ## Survivors -/

variable (keep : κ → Bool)

theorem survivors_sublist (n : Nest α κ) : (n.survivors keep).Sublist n.items := by
  induction n with
  | nil => exact List.Sublist.slnil
  | item a rest ih => exact ih.cons_cons a
  | window inner how rest ihinner ihrest =>
    refine List.Sublist.append ?_ ihrest
    by_cases hkeep : keep how
    · rw [if_pos hkeep]
      exact ihinner
    · rw [if_neg hkeep]
      exact List.nil_sublist _

theorem append_eq_append_iff_of_sublist {a a' b b' : List α} (ha : a.Sublist a')
    (hb : b.Sublist b') : a' ++ b' = a ++ b ↔ a' = a ∧ b' = b := by
  constructor
  · intro h
    have hlength := congrArg List.length h
    have hlea := ha.length_le
    have hleb := hb.length_le
    rw [List.length_append, List.length_append] at hlength
    exact ⟨(ha.eq_of_length (by omega)).symm, (hb.eq_of_length (by omega)).symm⟩
  · rintro ⟨rfl, rfl⟩
    rfl

theorem items_eq_survivors_iff (n : Nest α κ) :
    n.items = n.survivors keep ↔ n.DropsNothing keep := by
  induction n with
  | nil => exact ⟨fun _ ↦ trivial, fun _ ↦ rfl⟩
  | item a rest ih =>
    rw [items, survivors, DropsNothing, ← ih, List.cons_eq_cons, and_iff_right rfl]
  | window inner how rest ihinner ihrest =>
    rw [items, survivors, DropsNothing]
    by_cases hkeep : keep how
    · rw [if_pos hkeep, append_eq_append_iff_of_sublist (inner.survivors_sublist keep)
        (rest.survivors_sublist keep), ihinner, ihrest]
      exact ⟨fun h ↦ ⟨fun hdrop ↦ absurd hkeep (by simp [hdrop]), h⟩, fun h ↦ h.2⟩
    · rw [if_neg hkeep, append_eq_append_iff_of_sublist (List.nil_sublist _)
        (rest.survivors_sublist keep), ihrest]
      refine ⟨fun h ↦ ⟨fun _ ↦ h.1, ?_, h.2⟩, fun h ↦ ⟨h.1 (by simpa using hkeep), h.2.2⟩⟩
      -- An empty window drops nothing further in.
      refine ihinner.mp (h.1.trans ?_)
      have hsub := inner.survivors_sublist keep
      rw [h.1] at hsub
      exact (List.sublist_nil.mp hsub).symm

theorem survivors_sublist_outerSurvivors (n : Nest α κ) :
    (n.survivors keep).Sublist (n.outerSurvivors keep) := by
  induction n with
  | nil => exact List.Sublist.slnil
  | item a rest ih => exact ih.cons_cons a
  | window inner how rest _ ihrest =>
    refine List.Sublist.append ?_ ihrest
    by_cases hkeep : keep how
    · rw [if_pos hkeep, if_pos hkeep]
      exact inner.survivors_sublist keep
    · rw [if_neg hkeep, if_neg hkeep]

/-- **Judging by the outermost window alone** is right just when no dropped window inside a kept one
holds an item. -/
theorem outerSurvivors_eq_survivors_iff (n : Nest α κ) :
    n.outerSurvivors keep = n.survivors keep ↔ n.InnerDropsNothing keep := by
  induction n with
  | nil => exact ⟨fun _ ↦ trivial, fun _ ↦ rfl⟩
  | item a rest ih =>
    rw [outerSurvivors, survivors, InnerDropsNothing, ← ih, List.cons_eq_cons, and_iff_right rfl]
  | window inner how rest _ ihrest =>
    have hrest := rest.survivors_sublist_outerSurvivors keep
    rw [outerSurvivors, survivors, InnerDropsNothing]
    by_cases hkeep : keep how
    · rw [if_pos hkeep, if_pos hkeep,
        append_eq_append_iff_of_sublist (inner.survivors_sublist keep) hrest,
        items_eq_survivors_iff, ihrest]
      exact ⟨fun h ↦ ⟨fun _ ↦ h.1, h.2⟩, fun h ↦ ⟨h.1 hkeep, h.2⟩⟩
    · rw [if_neg hkeep, if_neg hkeep, List.nil_append, List.nil_append, ihrest]
      exact ⟨fun h ↦ ⟨fun hk ↦ absurd hk hkeep, h⟩, fun h ↦ h.2⟩

end Nest

/-! ## Matching brackets -/

def openAfter : List (Token α κ) → ℕ → Option ℕ
  | [], depth => some depth
  | .item _ :: ts, depth => openAfter ts depth
  | .start :: ts, depth => openAfter ts (depth + 1)
  | .stop _ :: _, 0 => none
  | .stop _ :: ts, depth + 1 => openAfter ts depth

def Balanced (ts : List (Token α κ)) : Prop := openAfter ts 0 = some 0

private theorem exists_innermost : ∀ (len : ℕ) (ts : List (Token α κ)) (depth : ℕ),
    ts.length ≤ len → openAfter ts depth = some 0 →
      ∃ (n : Nest α κ) (rest : List (Token α κ)), ts = n.tokens ++ rest ∧
        (depth = 0 → rest = []) ∧
        ∀ d, depth = d + 1 → ∃ how rest', rest = .stop how :: rest' ∧
          openAfter rest' d = some 0 := by
  intro len
  induction len with
  | zero =>
    intro ts depth hlen h
    obtain rfl := List.eq_nil_of_length_eq_zero (Nat.le_zero.mp hlen)
    obtain rfl : depth = 0 := Option.some.inj h
    exact ⟨.nil, [], rfl, fun _ ↦ rfl, fun d hd ↦ by omega⟩
  | succ len ih =>
    intro ts depth hlen h
    rcases ts with _ | ⟨a | _ | how, ts⟩
    · obtain rfl : depth = 0 := Option.some.inj h
      exact ⟨.nil, [], rfl, fun _ ↦ rfl, fun d hd ↦ by omega⟩
    · obtain ⟨n, rest, rfl, hzero, hsucc⟩ := ih ts depth (Nat.le_of_succ_le_succ hlen) h
      exact ⟨.item a n, rest, rfl, hzero, hsucc⟩
    · -- The window just opened ends first; what follows it is read at the old depth.
      obtain ⟨inner, rest, rfl, -, hsucc⟩ := ih ts (depth + 1) (Nat.le_of_succ_le_succ hlen) h
      obtain ⟨how, rest, rfl, hrest⟩ := hsucc depth rfl
      have hshort : rest.length ≤ len := by
        simp only [List.length_cons, List.length_append] at hlen
        omega
      obtain ⟨n, rest, rfl, hzero, hsucc⟩ := ih rest depth hshort hrest
      refine ⟨.window inner how n, rest, ?_, hzero, hsucc⟩
      rw [Nest.tokens, List.cons_append, List.append_assoc, List.cons_append]
    · rcases depth with _ | depth
      · contradiction
      · refine ⟨.nil, .stop how :: ts, rfl, fun hd ↦ by omega, fun d hd ↦ ⟨how, ts, rfl, ?_⟩⟩
        obtain rfl : depth = d := by omega
        exact h

/-- **Every sequence with matching brackets is well nested.** -/
theorem exists_tokens_eq_of_balanced {ts : List (Token α κ)} (h : Balanced ts) :
    ∃ n : Nest α κ, n.tokens = ts := by
  obtain ⟨n, rest, hts, hrest, -⟩ := exists_innermost ts.length ts 0 (Nat.le_refl _) h
  rw [hrest rfl, List.append_nil] at hts
  exact ⟨n, hts.symm⟩

end Nesting
