import Mathlib.Data.List.Basic

/-!
# Chains linked by hashes

Each item of a chain names the hash of the item before it, the first one none. A check from the
front finds the first item that names another hash. What can be changed unseen is only the last
item.
-/

universe u v

namespace HashChain

variable {A : Type u} {H : Type v} (link : A → Option H) (hash : A → H)

def Linked : Option H → List A → Prop
  | _, [] => True
  | prev, a :: l => link a = prev ∧ Linked (some (hash a)) l

def tip : Option H → List A → Option H
  | prev, [] => prev
  | _, a :: l => tip (some (hash a)) l

/-- The first item that does not name the hash before it stands at position `i`. -/
def BreaksAt (prev : Option H) (l : List A) (i : ℕ) : Prop :=
  ∃ before a after, l = before ++ a :: after ∧ before.length = i ∧ Linked link hash prev before ∧
    link a ≠ tip hash prev before

variable {link hash} {prev : Option H} {l : List A}

@[simp] theorem linked_nil : Linked link hash prev [] := trivial

@[simp] theorem linked_cons {a : A} :
    Linked link hash prev (a :: l) ↔ link a = prev ∧ Linked link hash (some (hash a)) l := Iff.rfl

@[simp] theorem tip_nil : tip hash prev [] = prev := rfl

@[simp] theorem tip_cons {a : A} :
    tip hash prev (a :: l) = tip hash (some (hash a)) l := rfl

theorem linked_append {l l' : List A} :
    Linked link hash prev (l ++ l') ↔
      Linked link hash prev l ∧ Linked link hash (tip hash prev l) l' := by
  induction l generalizing prev with
  | nil => simp
  | cons a l ih => rw [List.cons_append, linked_cons, linked_cons, ih, tip_cons, and_assoc]

theorem tip_append {l l' : List A} : tip hash prev (l ++ l') = tip hash (tip hash prev l) l' := by
  induction l generalizing prev with
  | nil => rfl
  | cons a l ih => exact ih

theorem tip_eq_getLast? :
    tip hash prev l = (l.getLast?.map hash).or prev := by
  rcases List.eq_nil_or_concat l with rfl | ⟨l, a, rfl⟩
  · rfl
  · rw [List.concat_eq_append, tip_append]
    simp

theorem breaksAt_cons_zero {a : A} (h : link a ≠ prev) :
    BreaksAt link hash prev (a :: l) 0 :=
  ⟨[], a, l, rfl, rfl, trivial, h⟩

theorem breaksAt_replace {before after : List A} {a a' b : A}
    (h : Linked link hash prev (before ++ a :: b :: after))
    (hdiff : link a' ≠ link a ∨ hash a' ≠ hash a) :
    BreaksAt link hash prev (before ++ a' :: b :: after) before.length ∨
      BreaksAt link hash prev (before ++ a' :: b :: after) (before.length + 1) := by
  obtain ⟨hbefore, ha, hb, -⟩ := linked_append.mp h
  by_cases hlink : link a' = link a
  · -- the replacement names the right hash, so its own hash is another
    have hhash : hash a' ≠ hash a := hdiff.resolve_left fun hne ↦ hne hlink
    refine .inr ⟨before ++ [a'], b, after, by simp, by simp, ?_, ?_⟩
    · exact linked_append.mpr ⟨hbefore, hlink.trans ha, trivial⟩
    · rw [tip_append, tip_cons, tip_nil, hb]
      exact fun heq ↦ hhash (Option.some_inj.mp heq).symm
  · refine .inl ⟨before, a', b :: after, rfl, rfl, hbefore, ?_⟩
    rw [← ha]
    exact hlink

end HashChain
