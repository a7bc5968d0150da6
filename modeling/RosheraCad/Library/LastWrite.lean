import RosheraCad.Library.KeyedFold
import RosheraCad.Library.OrderedMap

/-!
# The last write wins

A pass over a list, each item of which may write a register. What the register holds after the pass
is what the last item that writes it writes. So two passes leave the same value when their last
writes agree.
-/

universe u v w

variable {σ : Type u} {α : Type v} {β : Type w}

def lastWrite (written : α → Option β) (l : List α) : Option β := l.reverse.findSome? written

section Lists

variable (written : α → Option β)

theorem lastWrite_append (l l' : List α) :
    lastWrite written (l ++ l') = (lastWrite written l').or (lastWrite written l) := by
  rw [lastWrite, List.reverse_append, List.findSome?_append]
  rfl

@[simp] theorem lastWrite_singleton (a : α) : lastWrite written [a] = written a := by
  rw [lastWrite, List.reverse_singleton, List.findSome?_singleton]

theorem lastWrite_cons (a : α) (l : List α) :
    lastWrite written (a :: l) = (lastWrite written l).or (written a) := by
  rw [← List.singleton_append, lastWrite_append, lastWrite_singleton]

theorem lastWrite_concat (l : List α) (a : α) :
    lastWrite written (l ++ [a]) = (written a).or (lastWrite written l) := by
  rw [lastWrite_append, lastWrite_singleton]

theorem lastWrite_flatMap {γ : Type*} (items : γ → List α) (l : List γ) :
    lastWrite written (l.flatMap items) = lastWrite (fun c ↦ lastWrite written (items c)) l := by
  induction l with
  | nil => rfl
  | cons c l ih => rw [List.flatMap_cons, lastWrite_append, lastWrite_cons, ih]

theorem lastWrite_filterMap {γ : Type*} (item : γ → Option α) (l : List γ) :
    lastWrite written (l.filterMap item) = lastWrite (fun c ↦ (item c).bind written) l := by
  induction l with
  | nil => rfl
  | cons c l ih =>
    rw [List.filterMap_cons, lastWrite_cons, ← ih]
    cases item c with
    | none => rw [Option.bind_none, Option.or_none]
    | some a => rw [Option.bind_some, lastWrite_cons]

theorem lastWrite_map {γ : Type*} (f : β → γ) (l : List α) :
    lastWrite (fun a ↦ (written a).map f) l = (lastWrite written l).map f := by
  rw [lastWrite, lastWrite, List.map_findSome?]
  rfl

theorem exists_mem_of_lastWrite {written : α → Option β} {l : List α} {b : β}
    (h : lastWrite written l = some b) : ∃ a ∈ l, written a = some b := by
  obtain ⟨a, ha, hb⟩ := List.exists_of_findSome?_eq_some h
  exact ⟨a, List.mem_reverse.mp ha, hb⟩

end Lists

theorem foldl_eq_lastWrite {step : σ → α → σ} (get : σ → β) (written : α → Option β)
    (h : ∀ s a, get (step s a) = (written a).getD (get s)) (l : List α) (s : σ) :
    get (l.foldl step s) = (lastWrite written l).getD (get s) := by
  induction l generalizing s with
  | nil => rfl
  | cons a l ih =>
    rw [List.foldl_cons, ih, h, lastWrite_cons]
    cases lastWrite written l <;> rfl

theorem forM_eq_lastWrite {σ ε α β : Type} {act : α → EStateM ε σ Unit} (get : σ → β)
    (written : α → Option β)
    (h : ∀ a s s', act a s = .ok () s' → get s' = (written a).getD (get s)) {l : List α} {s s' : σ}
    (hrun : l.forM act s = .ok () s') : get s' = (lastWrite written l).getD (get s) := by
  induction l generalizing s with
  | nil =>
    cases hrun
    rfl
  | cons a l ih =>
    obtain ⟨t, hact, hrest⟩ := EStateM.forM_cons_eq_ok.mp hrun
    rw [ih hrest, h a s t hact, lastWrite_cons]
    cases lastWrite written l <;> rfl

theorem OrderedMap.getElem?_insertEntries_eq_lastWrite {K V : Type*} [Ord K] [Std.TransOrd K]
    [Std.LawfulEqOrd K] [DecidableEq K] (m : OrderedMap K V) (es : List (K × V)) (k : K) :
    (m.insertEntries es)[k]? =
      (lastWrite (fun e ↦ if e.1 = k then some e.2 else none) es).or m[k]? := by
  induction es generalizing m with
  | nil => rfl
  | cons e es ih =>
    rw [OrderedMap.insertEntries_cons, ih, OrderedMap.lookup_insert, lastWrite_cons,
      Option.or_assoc]
    congr 1
    by_cases h : k = e.1
    · rw [if_pos h, if_pos h.symm, Option.some_or]
    · rw [if_neg h, if_neg (Ne.symm h), Option.none_or]

theorem OrderedMap.lastWrite_toList {K V : Type*} [Ord K] [Std.TransOrd K] [Std.LawfulEqOrd K]
    [DecidableEq K] (m : OrderedMap K V) (k : K) :
    lastWrite (fun e ↦ if e.1 = k then some e.2 else none) m.toList = m[k]? := by
  have h := OrderedMap.getElem?_insertEntries_eq_lastWrite ∅ m.toList k
  rw [OrderedMap.insertEntries_toList, Std.ExtTreeMap.getElem?_empty, Option.or_none] at h
  exact h.symm
