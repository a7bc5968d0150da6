import Mathlib.Data.List.Perm.Basic

/-!
# Bounded ledgers

A ledger lists what is put on it up to a cap, and counts what comes after. It is determined by the
full list of what was put on it, and each operation matches one on the full lists.
-/

universe u v

/-- A list of at most `cap` elements, and how many there are beyond it. -/
@[ext]
structure BoundedLedger (cap : ℕ) (α : Type u) where
  listed : List α
  unlisted : ℕ
  deriving DecidableEq

namespace BoundedLedger

variable {cap : ℕ} {α : Type u} {β : Type v}

def empty : BoundedLedger cap α := ⟨[], 0⟩

variable (ledger : BoundedLedger cap α)

def isEmpty : Bool := ledger.listed.isEmpty && ledger.unlisted == 0

def total : ℕ := ledger.listed.length + ledger.unlisted

def push (a : α) : BoundedLedger cap α :=
  if ledger.listed.length < cap then { ledger with listed := ledger.listed ++ [a] }
  else { ledger with unlisted := ledger.unlisted + 1 }

def restore (later : BoundedLedger cap α) : BoundedLedger cap α :=
  let restored := later.listed.foldl push ledger
  { restored with unlisted := restored.unlisted + later.unlisted }

/-! ## The full list -/

/-- What a ledger shows of the full list of what was put on it. -/
def ofList (xs : List α) : BoundedLedger cap α := ⟨xs.take cap, xs.length - cap⟩

theorem ofList_nil : (ofList [] : BoundedLedger cap α) = empty := by
  rw [ofList, empty, List.take_nil, List.length_nil, Nat.zero_sub]

@[simp] theorem total_ofList (xs : List α) :
    (ofList xs : BoundedLedger cap α).total = xs.length := by
  have htake : (xs.take cap).length = min cap xs.length := List.length_take
  show (xs.take cap).length + (xs.length - cap) = xs.length
  omega

theorem isEmpty_iff_total {ledger : BoundedLedger cap α} :
    ledger.isEmpty = true ↔ ledger.total = 0 := by
  rw [isEmpty, total, Bool.and_eq_true, List.isEmpty_iff, beq_iff_eq, Nat.add_eq_zero_iff,
    List.length_eq_zero_iff]

theorem isEmpty_ofList {xs : List α} :
    (ofList xs : BoundedLedger cap α).isEmpty = true ↔ xs = [] := by
  rw [isEmpty_iff_total, total_ofList, List.length_eq_zero_iff]

/-- **Putting one more on a ledger** puts it at the end of the full list. -/
theorem push_ofList (xs : List α) (a : α) :
    (ofList xs : BoundedLedger cap α).push a = ofList (xs ++ [a]) := by
  rw [push, ofList, List.length_take]
  by_cases h : xs.length < cap
  · rw [if_pos (by omega), List.take_of_length_le (by omega), ofList,
      List.take_of_length_le (by rw [List.length_append, List.length_singleton]; omega),
      List.length_append, List.length_singleton]
    exact BoundedLedger.ext rfl (show xs.length - cap = xs.length + 1 - cap by omega)
  · rw [if_neg (by omega), ofList, List.take_append_of_le_length (by omega), List.length_append,
      List.length_singleton]
    exact BoundedLedger.ext rfl (show xs.length - cap + 1 = xs.length + 1 - cap by omega)

theorem foldl_push_ofList (xs ys : List α) :
    ys.foldl push (ofList xs : BoundedLedger cap α) = ofList (xs ++ ys) := by
  induction ys generalizing xs with
  | nil => rw [List.foldl_nil, List.append_nil]
  | cons y ys ih => rw [List.foldl_cons, push_ofList, ih, List.append_assoc, List.singleton_append]

/-- **Setting a ledger before a later one** sets its full list before the later one's. -/
theorem restore_ofList (xs ys : List α) :
    (ofList xs : BoundedLedger cap α).restore (ofList ys) = ofList (xs ++ ys) := by
  rw [restore]
  dsimp only [ofList]
  rw [← ofList, foldl_push_ofList]
  refine BoundedLedger.ext ?_ ?_
  · -- What is listed is the first `cap` of both, for the later one lists enough of its own.
    dsimp only [ofList]
    rw [List.take_append, List.take_append, List.take_take]
    congr 2
    omega
  · dsimp only [ofList]
    rw [List.length_append, List.length_append, List.length_take]
    omega

end BoundedLedger
