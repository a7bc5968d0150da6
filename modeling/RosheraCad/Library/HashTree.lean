import Mathlib.Data.List.Basic
import Mathlib.Data.List.Induction
import Mathlib.Tactic.Ring

/-!
# Hash trees over lists

A list is hashed level by level: neighbours are hashed together, an entry left over with itself. As
long as no two inputs of the two computations collide, equal digests mean equal padded lists. The
computation is recorded as a tree.
-/

namespace HashTree

variable {α β γ δ : Type*} {f : β → β → β}

/-! ## Combining a list level by level -/

def pairUp (f : β → β → β) : List β → List β
  | [] => []
  | [a] => [f a a]
  | a :: b :: l => f a b :: pairUp f l

theorem length_pairUp (f : β → β → β) (l : List β) : (pairUp f l).length = (l.length + 1) / 2 := by
  induction l using pairUp.induct with
  | case1 => simp [pairUp]
  | case2 a => simp [pairUp]
  | case3 a b l ih =>
    rw [pairUp, List.length_cons, ih, List.length_cons, List.length_cons]
    omega

def combine (f : β → β → β) : List β → Option β
  | [] => none
  | [a] => some a
  | a :: b :: l => combine f (pairUp f (a :: b :: l))
termination_by l => l.length
decreasing_by
  rw [length_pairUp, List.length_cons, List.length_cons]
  omega

theorem map_pairUp {k : γ → γ → γ} {g : β → γ} (h : ∀ a b, g (f a b) = k (g a) (g b)) (l : List β) :
    (pairUp f l).map g = pairUp k (l.map g) := by
  induction l using pairUp.induct with
  | case1 => rfl
  | case2 a => simp only [pairUp, List.map_cons, List.map_nil, h]
  | case3 a b l ih => simp only [pairUp, List.map_cons, h, ih]

theorem map_combine {k : γ → γ → γ} {g : β → γ}
    (h : ∀ a b, g (f a b) = k (g a) (g b)) (l : List β) :
    (combine f l).map g = combine k (l.map g) := by
  induction l using combine.induct f with
  | case1 => simp only [combine, List.map_nil, Option.map_none]
  | case2 a => simp only [combine, List.map_cons, List.map_nil, Option.map_some]
  | case3 a b l ih =>
    rw [combine, ih, map_pairUp h, List.map_cons, List.map_cons, combine]

theorem pairUp_forall {l : List β} {P Q : β → Prop}
    (hstep : ∀ a b, P a → P b → Q (f a b)) (hl : ∀ a ∈ l, P a) : ∀ a ∈ pairUp f l, Q a := by
  induction l using pairUp.induct with
  | case1 =>
    intro c hc
    cases hc
  | case2 a =>
    intro c hc
    obtain rfl := List.mem_singleton.mp hc
    exact hstep a a (hl a List.mem_cons_self) (hl a List.mem_cons_self)
  | case3 a b l ih =>
    intro c hc
    rcases List.mem_cons.mp hc with rfl | hc
    · exact hstep a b (hl a List.mem_cons_self)
        (hl b (List.mem_cons_of_mem _ List.mem_cons_self))
    · exact ih (fun d hd ↦ hl d (List.mem_cons_of_mem _ (List.mem_cons_of_mem _ hd))) c hc

theorem combine_induction {l : List β} {t : β} {P : ℕ → β → Prop}
    (hstep : ∀ n a b, P n a → P n b → P (n + 1) (f a b)) {n : ℕ} (hl : ∀ a ∈ l, P n a)
    (ht : combine f l = some t) : ∃ m, P m t := by
  induction l using combine.induct f generalizing n with
  | case1 => simp [combine] at ht
  | case2 a =>
    rw [combine] at ht
    cases ht
    exact ⟨n, hl t List.mem_cons_self⟩
  | case3 a b l ih =>
    rw [combine] at ht
    exact ih (pairUp_forall (hstep n) hl) ht

theorem combine_eq_none_iff {l : List β} : combine f l = none ↔ l = [] := by
  induction l using combine.induct f with
  | case1 => simp [combine]
  | case2 a => simp [combine]
  | case3 a b l ih =>
    rw [combine, ih]
    simp [pairUp]

/-! ## Padding -/

/-- The list a level-by-level computation stands for: entries left over are repeated. -/
def padded (l : List α) : List α := (combine (· ++ ·) (l.map fun a ↦ [a])).getD []

private theorem flatten_prefix_pairUp (l : List (List α)) :
    l.flatten <+: (pairUp (· ++ ·) l).flatten := by
  induction l using pairUp.induct with
  | case1 => exact List.prefix_rfl
  | case2 a => simp [pairUp]
  | case3 a b l ih =>
    simp only [pairUp, List.flatten_cons, List.append_assoc, List.prefix_append_right_inj]
    exact ih

private theorem flatten_prefix_combine (l : List (List α)) :
    l.flatten <+: (combine (· ++ ·) l).getD [] := by
  induction l using combine.induct (fun a b : List α ↦ a ++ b) with
  | case1 => simp [combine]
  | case2 a => simp [combine]
  | case3 a b l ih =>
    rw [combine]
    exact (flatten_prefix_pairUp _).trans ih

theorem prefix_padded (l : List α) : l <+: padded l := by
  have hflatten : (l.map fun a ↦ [a]).flatten = l := by
    induction l with
    | nil => rfl
    | cons a l ih => rw [List.map_cons, List.flatten_cons, ih, List.singleton_append]
  have hprefix := flatten_prefix_combine (l.map fun a ↦ [a])
  rwa [hflatten] at hprefix

theorem mem_of_mem_padded {l : List α} {a : α} (h : a ∈ padded l) : a ∈ l := by
  rw [padded] at h
  rcases hout : combine (· ++ ·) (l.map fun a ↦ [a]) with - | out
  · rw [hout] at h
    cases h
  · rw [hout] at h
    have hstep : ∀ (_ : ℕ) (l₁ l₂ : List α), (∀ a ∈ l₁, a ∈ l) → (∀ a ∈ l₂, a ∈ l) →
        ∀ a ∈ l₁ ++ l₂, a ∈ l :=
      fun _ l₁ l₂ h₁ h₂ ↦ List.forall_mem_append.mpr ⟨h₁, h₂⟩
    have hsingle : ∀ l' ∈ l.map fun a ↦ [a], ∀ a ∈ l', a ∈ l := by
      intro l' hl' b hb
      obtain ⟨c, hc, rfl⟩ := List.mem_map.mp hl'
      rwa [List.mem_singleton.mp hb]
    obtain ⟨-, hall⟩ := combine_induction hstep (n := 0) hsingle hout
    exact hall a h

theorem eq_of_padded_eq {l₁ l₂ : List α} (hlen : l₁.length = l₂.length)
    (h : padded l₁ = padded l₂) : l₁ = l₂ :=
  (List.prefix_of_prefix_length_le (prefix_padded l₁) (h ▸ prefix_padded l₂) hlen.le).eq_of_length
    hlen

theorem length_padded (l : List α) :
    (padded l).length = (combine (· + ·) (List.replicate l.length 1)).getD 0 := by
  have hmap := map_combine (f := (· ++ ·)) (k := (· + ·)) (g := List.length)
    (fun a b ↦ List.length_append) (l.map fun a ↦ [a])
  have hones : (l.map fun a ↦ [a]).map List.length = List.replicate l.length 1 := by
    rw [List.map_map]
    exact List.map_const'
  rw [hones] at hmap
  rw [← hmap, padded]
  rcases combine (· ++ ·) (l.map fun a ↦ [a]) with - | out <;> rfl

/-! ## The tree of a computation -/

end HashTree

/-- The tree of a level-by-level computation. -/
inductive HashTree (α : Type*)
  | leaf (a : α)
  | node (left right : HashTree α)

namespace HashTree

variable {α δ : Type*} {hash : α ⊕ δ × δ → δ} {t : HashTree α}

def root (hash : α ⊕ δ × δ → δ) : HashTree α → δ
  | leaf a => hash (.inl a)
  | node left right => hash (.inr (left.root hash, right.root hash))

def inputs (hash : α ⊕ δ × δ → δ) : HashTree α → List (α ⊕ δ × δ)
  | leaf a => [.inl a]
  | node left right =>
    .inr (left.root hash, right.root hash) :: (left.inputs hash ++ right.inputs hash)

def leaves : HashTree α → List α
  | leaf a => [a]
  | node left right => left.leaves ++ right.leaves

/-- **A digest binds its tree**, unless two inputs hashed for it collide. -/
theorem root_injective {t₁ t₂ : HashTree α}
    (hinj : ∀ x ∈ t₁.inputs hash, ∀ y ∈ t₂.inputs hash, hash x = hash y → x = y)
    (h : t₁.root hash = t₂.root hash) : t₁ = t₂ := by
  induction t₁ generalizing t₂ with
  | leaf a =>
    cases t₂ with
    | leaf b =>
      cases hinj (.inl a) List.mem_cons_self (.inl b) List.mem_cons_self h
      rfl
    | node left right => cases hinj (.inl a) List.mem_cons_self (.inr _) List.mem_cons_self h
  | node left right ihl ihr =>
    cases t₂ with
    | leaf b => cases hinj (.inr _) List.mem_cons_self (.inl b) List.mem_cons_self h
    | node left' right' =>
      have hpair := hinj (.inr _) List.mem_cons_self (.inr _) List.mem_cons_self h
      obtain ⟨hl, hr⟩ := Prod.mk.inj (Sum.inr.inj hpair)
      have hleft : left = left' := ihl (fun x hx y hy ↦ hinj x
        (List.mem_cons_of_mem _ (List.mem_append_left _ hx)) y
        (List.mem_cons_of_mem _ (List.mem_append_left _ hy))) hl
      have hright : right = right' := ihr (fun x hx y hy ↦ hinj x
        (List.mem_cons_of_mem _ (List.mem_append_right _ hx)) y
        (List.mem_cons_of_mem _ (List.mem_append_right _ hy))) hr
      rw [hleft, hright]

theorem exists_root_eq (hash : α ⊕ δ × δ → δ) (t : HashTree α) : ∃ x, t.root hash = hash x := by
  rcases t with a | ⟨left, right⟩
  · exact ⟨.inl a, rfl⟩
  · exact ⟨.inr _, rfl⟩

theorem exists_of_pair_mem_inputs {a b : δ}
    (h : .inr (a, b) ∈ t.inputs hash) : ∃ x y, a = hash x ∧ b = hash y := by
  induction t with
  | leaf c => cases List.mem_singleton.mp h
  | node left right ihl ihr =>
    rcases List.mem_cons.mp h with heq | h
    · obtain ⟨x, hx⟩ := left.exists_root_eq hash
      obtain ⟨y, hy⟩ := right.exists_root_eq hash
      cases heq
      exact ⟨x, y, hx, hy⟩
    · rcases List.mem_append.mp h with h | h
      · exact ihl h
      · exact ihr h

def Perfect : ℕ → HashTree α → Prop
  | 0, leaf _ => True
  | n + 1, node left right => left.Perfect n ∧ right.Perfect n
  | _, _ => False

theorem length_leaves {n : ℕ} (h : t.Perfect n) : t.leaves.length = 2 ^ n := by
  induction n, t using Perfect.induct with
  | case1 a => rfl
  | case2 n left right ihl ihr =>
    rw [leaves, List.length_append, ihl h.1, ihr h.2, pow_succ, mul_two]
  | case3 n t hne hne' =>
    rcases n with - | n <;> rcases t with a | ⟨left, right⟩ <;> simp_all [Perfect]

theorem eq_of_leaves_eq {n : ℕ} {t₁ t₂ : HashTree α} (h₁ : t₁.Perfect n) (h₂ : t₂.Perfect n)
    (h : t₁.leaves = t₂.leaves) : t₁ = t₂ := by
  induction n generalizing t₁ t₂ with
  | zero =>
    rcases t₁ with a | ⟨left, right⟩
    · rcases t₂ with b | ⟨left', right'⟩
      · rw [List.singleton_inj.mp h]
      · exact absurd h₂ (by simp [Perfect])
    · exact absurd h₁ (by simp [Perfect])
  | succ n ih =>
    rcases t₁ with a | ⟨left, right⟩
    · exact absurd h₁ (by simp [Perfect])
    · rcases t₂ with b | ⟨left', right'⟩
      · exact absurd h₂ (by simp [Perfect])
      · have hlen : left.leaves.length = left'.leaves.length :=
          (length_leaves h₁.1).trans (length_leaves h₂.1).symm
        obtain ⟨hl, hr⟩ := List.append_inj h hlen
        rw [ih h₁.1 h₂.1 hl, ih h₁.2 h₂.2 hr]

def ofList (l : List α) : Option (HashTree α) := combine node (l.map leaf)

theorem map_leaves_ofList (l : List α) : ((ofList l).map leaves).getD [] = padded l := by
  rw [ofList, map_combine (k := (· ++ ·)) fun _ _ ↦ rfl, List.map_map]
  rfl

theorem perfect_of_ofList {l : List α} (h : ofList l = some t) :
    ∃ n, t.Perfect n := by
  have hstep : ∀ n (a b : HashTree α), a.Perfect n → b.Perfect n → (node a b).Perfect (n + 1) :=
    fun n a b ha hb ↦ ⟨ha, hb⟩
  refine combine_induction hstep (n := 0) (fun t ht ↦ ?_) h
  obtain ⟨a, -, rfl⟩ := List.mem_map.mp ht
  trivial

theorem ofList_eq_iff {l₁ l₂ : List α} : ofList l₁ = ofList l₂ ↔ padded l₁ = padded l₂ := by
  constructor
  · intro h
    rw [← map_leaves_ofList, h, map_leaves_ofList]
  · intro h
    rw [← map_leaves_ofList, ← map_leaves_ofList] at h
    rcases h₁ : ofList l₁ with - | t₁ <;> rcases h₂ : ofList l₂ with - | t₂ <;>
      rw [h₁, h₂] at h
    · obtain ⟨n, hn⟩ := perfect_of_ofList h₂
      have := length_leaves hn
      rw [← show [] = t₂.leaves from h] at this
      exact absurd this.symm (Nat.two_pow_pos n).ne'
    · obtain ⟨n, hn⟩ := perfect_of_ofList h₁
      have := length_leaves hn
      rw [show t₁.leaves = [] from h] at this
      exact absurd this.symm (Nat.two_pow_pos n).ne'
    · have h : t₁.leaves = t₂.leaves := h
      obtain ⟨n, hn⟩ := perfect_of_ofList h₁
      obtain ⟨m, hm⟩ := perfect_of_ofList h₂
      have hnm : n = m :=
        Nat.pow_right_injective (le_refl 2) (by
          change 2 ^ n = 2 ^ m
          rw [← length_leaves hn, h, length_leaves hm])
      rw [eq_of_leaves_eq hn (hnm ▸ hm) h]

/-! ## Binding -/

def inputsOf (hash : α ⊕ δ × δ → δ) (l : List α) : List (α ⊕ δ × δ) :=
  ((ofList l).map (inputs hash)).getD []

theorem exists_of_pair_mem_inputsOf {l : List α} {a b : δ}
    (h : .inr (a, b) ∈ inputsOf hash l) : ∃ x y, a = hash x ∧ b = hash y := by
  rw [inputsOf] at h
  rcases ht : ofList l with - | t
  · rw [ht] at h
    cases h
  · rw [ht] at h
    exact exists_of_pair_mem_inputs h

def rootOf (hash : α ⊕ δ × δ → δ) (l : List α) : Option δ := (ofList l).map (root hash)

theorem rootOf_eq_combine (hash : α ⊕ δ × δ → δ) (l : List α) :
    rootOf hash l = combine (fun a b ↦ hash (.inr (a, b))) (l.map fun a ↦ hash (.inl a)) := by
  rw [rootOf, ofList,
    map_combine (g := root hash) (k := fun a b ↦ hash (.inr (a, b))) fun _ _ ↦ rfl, List.map_map]
  rfl

/-- **A digest binds the padded list**, unless two inputs hashed for it collide. -/
theorem rootOf_eq_iff {l₁ l₂ : List α}
    (hinj : ∀ x ∈ inputsOf hash l₁, ∀ y ∈ inputsOf hash l₂, hash x = hash y → x = y) :
    rootOf hash l₁ = rootOf hash l₂ ↔ padded l₁ = padded l₂ := by
  rw [← ofList_eq_iff]
  refine ⟨fun h ↦ ?_, fun h ↦ by rw [rootOf, h, rootOf]⟩
  rw [rootOf, rootOf] at h
  rw [inputsOf, inputsOf] at hinj
  rcases h₁ : ofList l₁ with - | t₁
  · rw [h₁, Option.map_none, eq_comm, Option.map_eq_none_iff] at h
    exact h.symm
  · rw [h₁, Option.map_some, eq_comm, Option.map_eq_some_iff] at h
    obtain ⟨t₂, h₂, hroot⟩ := h
    rw [h₁, h₂] at hinj
    rw [h₂, root_injective hinj hroot.symm]

/-! ## Proofs of inclusion -/

def climbInput (current : δ) : δ ⊕ δ → α ⊕ δ × δ
  | .inl sibling => .inr (sibling, current)
  | .inr sibling => .inr (current, sibling)

/-- The digest reached from `current` past the siblings, the lowest first. -/
def climb (hash : α ⊕ δ × δ → δ) (current : δ) (siblings : List (δ ⊕ δ)) : δ :=
  siblings.foldl (fun current sibling ↦ hash (climbInput current sibling)) current

def climbed (hash : α ⊕ δ × δ → δ) (current : δ) : List (δ ⊕ δ) → List (α ⊕ δ × δ)
  | [] => []
  | sibling :: siblings =>
    climbInput current sibling :: climbed hash (hash (climbInput current sibling)) siblings

theorem climb_append (hash : α ⊕ δ × δ → δ) (current : δ) (siblings : List (δ ⊕ δ))
    (sibling : δ ⊕ δ) : climb hash current (siblings ++ [sibling]) =
      hash (climbInput (climb hash current siblings) sibling) := by
  rw [climb, List.foldl_append, List.foldl_cons, List.foldl_nil, climb]

theorem climbed_append (hash : α ⊕ δ × δ → δ) (current : δ) (siblings : List (δ ⊕ δ))
    (sibling : δ ⊕ δ) : climbed hash current (siblings ++ [sibling]) =
      climbed hash current siblings ++ [climbInput (climb hash current siblings) sibling] := by
  induction siblings generalizing current with
  | nil => rfl
  | cons first siblings ih => rw [List.cons_append, climbed, ih, climbed, List.cons_append]; rfl

theorem exists_of_pair_mem_climbed {x : α ⊕ δ × δ}
    {siblings : List (δ ⊕ δ)} {a b : δ} (h : .inr (a, b) ∈ climbed hash (hash x) siblings) :
    (∃ y, a = hash y) ∨ ∃ y, b = hash y := by
  induction siblings generalizing x with
  | nil => cases h
  | cons sibling siblings ih =>
    rcases List.mem_cons.mp h with heq | h
    · rcases sibling with sibling | sibling <;> cases heq
      · exact .inr ⟨x, rfl⟩
      · exact .inl ⟨x, rfl⟩
    · exact ih h

/-- **What is proved to be included is a leaf**, unless an input collides with one hashed for the
tree. -/
theorem mem_leaves_of_climb {a : α} {siblings : List (δ ⊕ δ)}
    (hinj : ∀ x ∈ .inl a :: climbed hash (hash (.inl a)) siblings, ∀ y ∈ t.inputs hash,
      hash x = hash y → x = y)
    (h : climb hash (hash (.inl a)) siblings = t.root hash) : a ∈ t.leaves := by
  -- the last step of the climb is compared with the root, the steps before it with a child
  induction siblings using List.reverseRecOn generalizing t with
  | nil =>
    rcases t with b | ⟨left, right⟩
    · cases hinj _ List.mem_cons_self (.inl b) List.mem_cons_self h
      exact List.mem_cons_self
    · cases hinj _ List.mem_cons_self (.inr _) List.mem_cons_self h
  | append_singleton siblings sibling ih =>
    rw [climb_append] at h
    rw [climbed_append] at hinj
    have hlast : climbInput (climb hash (hash (.inl a)) siblings) sibling ∈
        Sum.inl a :: (climbed hash (hash (.inl a)) siblings ++
          [climbInput (climb hash (hash (.inl a)) siblings) sibling]) :=
      List.mem_cons_of_mem _ (List.mem_append_right _ List.mem_cons_self)
    rcases t with b | ⟨left, right⟩
    · rcases sibling with sibling | sibling <;>
        cases hinj _ hlast (.inl b) List.mem_cons_self h
    · have hpair := hinj _ hlast (.inr _) List.mem_cons_self h
      have hbefore : ∀ x ∈ Sum.inl a :: climbed hash (hash (.inl a)) siblings,
          ∀ y ∈ left.inputs hash ++ right.inputs hash, hash x = hash y → x = y := by
        intro x hx y hy
        refine hinj x ?_ y (List.mem_cons_of_mem _ hy)
        rw [← List.cons_append]
        exact List.mem_append_left _ hx
      rw [leaves]
      rcases sibling with sibling | sibling
      · obtain ⟨-, hright⟩ := Prod.mk.inj (Sum.inr.inj hpair)
        exact List.mem_append_right _
          (ih (fun x hx y hy ↦ hbefore x hx y (List.mem_append_right _ hy)) hright)
      · obtain ⟨hleft, -⟩ := Prod.mk.inj (Sum.inr.inj hpair)
        exact List.mem_append_left _
          (ih (fun x hx y hy ↦ hbefore x hx y (List.mem_append_left _ hy)) hleft)

end HashTree
