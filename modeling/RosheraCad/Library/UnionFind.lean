import Mathlib.Data.List.Induction
import Mathlib.Data.List.Nodup
import Mathlib.Order.Lattice

/-!
# Union and find with smallest roots

A forest over the natural numbers in which no parent is greater than its child. A union links the
greater root below the smaller one, a find re-points the path it walked and changes no root.

After any list of unions two numbers have one root exactly when the pairs joined so far connect
them.
-/

/-- A map that connects the ends of related pairs connects the ends of all paths. -/
theorem Relation.EqvGen.lift {α β : Type*} {r : α → α → Prop} {s : β → β → Prop} (f : α → β)
    (h : ∀ a b, r a b → EqvGen s (f a) (f b)) {a b : α} (hab : EqvGen r a b) :
    EqvGen s (f a) (f b) := by
  induction hab with
  | rel a b hab => exact h a b hab
  | refl a => exact .refl _
  | symm a b _ ih => exact ih.symm
  | trans a b c _ _ ih ih' => exact .trans _ _ _ ih ih'

/-- A forest whose parents are never greater than their children. -/
structure UnionFind where
  parent : ℕ → ℕ
  parent_le : ∀ x, parent x ≤ x

namespace UnionFind

variable (uf : UnionFind) {x y a b : ℕ}

def new : UnionFind := ⟨id, fun _ ↦ le_rfl⟩

def climb : ℕ → ℕ → ℕ
  | 0, x => x
  | fuel + 1, x => if uf.parent x = x then x else climb fuel (uf.parent x)

def path : ℕ → ℕ → List ℕ
  | 0, x => [x]
  | fuel + 1, x => if uf.parent x = x then [x] else x :: path fuel (uf.parent x)

/-- The root of a number. Parents decrease along the walk, so the number bounds its length. -/
def root (x : ℕ) : ℕ := uf.climb x x

theorem climb_eq {fuel : ℕ} (h : x ≤ fuel) : uf.climb fuel x = uf.root x := by
  induction x using Nat.strong_induction_on generalizing fuel with
  | _ x ih =>
    have hzero : uf.parent 0 = 0 := Nat.le_zero.mp (uf.parent_le 0)
    rcases fuel with _ | fuel
    · rw [Nat.le_zero.mp h, root]
    · rcases x with _ | x
      · rw [climb, if_pos hzero, root, climb]
      · rw [root, climb, climb]
        by_cases hroot : uf.parent (x + 1) = x + 1
        · rw [if_pos hroot, if_pos hroot]
        · rw [if_neg hroot, if_neg hroot]
          have hlt : uf.parent (x + 1) < x + 1 := lt_of_le_of_ne (uf.parent_le _) hroot
          rw [ih _ hlt (by omega), ih _ hlt (by omega)]

theorem root_of_parent_eq (h : uf.parent x = x) : uf.root x = x := by
  rw [root]
  cases x <;> simp [climb, h]

theorem root_parent : uf.root (uf.parent x) = uf.root x := by
  by_cases h : uf.parent x = x
  · rw [h]
  · have hlt := lt_of_le_of_ne (uf.parent_le x) h
    obtain ⟨k, rfl⟩ : ∃ k, x = k + 1 := ⟨x - 1, by omega⟩
    rw [root.eq_def uf (k + 1), climb, if_neg h, climb_eq _ (by omega)]

theorem walk_induction {P : ℕ → Prop} (hroot : ∀ x, uf.parent x = x → P x)
    (hstep : ∀ x, uf.parent x < x → P (uf.parent x) → P x) (x : ℕ) : P x := by
  induction x using Nat.strong_induction_on with
  | _ x ih =>
    rcases (uf.parent_le x).eq_or_lt with h | h
    · exact hroot x h
    · exact hstep x h (ih _ h)

theorem root_le (x : ℕ) : uf.root x ≤ x := by
  induction x using uf.walk_induction with
  | hroot x h => rw [uf.root_of_parent_eq h]
  | hstep x h ih =>
    rw [← uf.root_parent]
    exact ih.trans h.le

@[simp] theorem parent_root (x : ℕ) : uf.parent (uf.root x) = uf.root x := by
  induction x using uf.walk_induction with
  | hroot x h => rw [uf.root_of_parent_eq h, h]
  | hstep x _ ih => rwa [uf.root_parent] at ih

@[simp] theorem root_root (x : ℕ) : uf.root (uf.root x) = uf.root x :=
  uf.root_of_parent_eq (uf.parent_root x)

@[simp] theorem root_new (x : ℕ) : new.root x = x := new.root_of_parent_eq rfl

/-- **A forest that keeps every root of another and moves no number** has the same roots throughout.
-/
theorem root_eq_of_parent {uf' : UnionFind} (hfix : ∀ y, uf'.parent y = y → uf.parent y = y)
    (hroot : ∀ y, uf.root (uf'.parent y) = uf.root y) (x : ℕ) : uf'.root x = uf.root x := by
  induction x using uf'.walk_induction with
  | hroot x h => rw [uf'.root_of_parent_eq h, uf.root_of_parent_eq (hfix x h)]
  | hstep x _ ih => rw [← uf'.root_parent, ih, hroot]

theorem root_eq_of_classes {uf' : UnionFind}
    (h : ∀ x y, uf'.root x = uf'.root y ↔ uf.root x = uf.root y) (x : ℕ) :
    uf'.root x = uf.root x := by
  have hle : ∀ {f g : UnionFind}, (∀ x y, f.root x = f.root y ↔ g.root x = g.root y) →
      f.root x ≤ g.root x := fun {f g} h ↦
    (h (g.root x) x).mpr (g.root_root x) ▸ f.root_le (g.root x)
  exact le_antisymm (hle h) (hle fun x y ↦ (h x y).symm)

/-! ## Find -/

theorem root_of_mem_path {fuel : ℕ} (h : y ∈ uf.path fuel x) : uf.root y = uf.root x := by
  induction fuel generalizing x with
  | zero => rw [List.mem_singleton.mp h]
  | succ fuel ih =>
    rw [path] at h
    split_ifs at h with hroot
    · rw [List.mem_singleton.mp h]
    · rcases List.mem_cons.mp h with rfl | h
      · rfl
      · rw [ih h, root_parent]

/-- The walk from a number, re-pointed at its root. -/
def compress (x : ℕ) : UnionFind where
  parent y := if y ∈ uf.path x x then uf.root x else uf.parent y
  parent_le y := by
    split_ifs with h
    · rw [← uf.root_of_mem_path h]
      exact uf.root_le y
    · exact uf.parent_le y

def find (x : ℕ) : ℕ × UnionFind := (uf.root x, uf.compress x)

@[simp] theorem root_compress (x y : ℕ) : (uf.compress x).root y = uf.root y := by
  refine uf.root_eq_of_parent (fun z hz ↦ ?_) (fun z ↦ ?_) y
  · have h : (if z ∈ uf.path x x then uf.root x else uf.parent z) = z := hz
    split_ifs at h
    · rw [← h, parent_root]
    · exact h
  · show uf.root (if z ∈ uf.path x x then uf.root x else uf.parent z) = uf.root z
    split_ifs with h
    · rw [root_root, uf.root_of_mem_path h]
    · exact uf.root_parent

/-! ## Find with path halving -/

def halve (x : ℕ) : UnionFind where
  parent := Function.update uf.parent x (uf.parent (uf.parent x))
  parent_le y := by
    rw [Function.update_apply]
    split_ifs with hy
    · exact hy.symm ▸ (uf.parent_le _).trans (uf.parent_le x)
    · exact uf.parent_le y

/-- Re-point each number it visits at its grandparent, for at most the given number of steps. -/
def halvingWalk : ℕ → UnionFind → ℕ → ℕ × UnionFind
  | 0, uf, x => (x, uf)
  | fuel + 1, uf, x =>
    if uf.parent x = x then (x, uf)
    else
      let uf := uf.halve x
      halvingWalk fuel uf (uf.parent x)

def halvingFind (x : ℕ) : ℕ × UnionFind := halvingWalk x uf x

theorem parent_halve (x y : ℕ) : (uf.halve x).parent y =
    if y = x then uf.parent (uf.parent x) else uf.parent y := Function.update_apply ..

@[simp] theorem root_halve (x y : ℕ) : (uf.halve x).root y = uf.root y := by
  refine uf.root_eq_of_parent (fun z hz ↦ ?_) (fun z ↦ ?_) y
  · rw [parent_halve] at hz
    split_ifs at hz with h
    · subst h
      exact le_antisymm (uf.parent_le z) (hz.symm.le.trans (uf.parent_le _))
    · exact hz
  · rw [parent_halve]
    split_ifs with h
    · rw [root_parent, root_parent, h]
    · exact uf.root_parent

/-- **Path halving** finds the root and changes none. -/
theorem halvingWalk_spec {fuel : ℕ} (h : x ≤ fuel) : (halvingWalk fuel uf x).1 = uf.root x ∧
    ∀ y, (halvingWalk fuel uf x).2.root y = uf.root y := by
  induction fuel generalizing uf x with
  | zero =>
    obtain rfl := Nat.le_zero.mp h
    exact ⟨(Nat.le_zero.mp (uf.root_le 0)).symm, fun _ ↦ rfl⟩
  | succ fuel ih =>
    rw [halvingWalk]
    split_ifs with hroot
    · exact ⟨(uf.root_of_parent_eq hroot).symm, fun _ ↦ rfl⟩
    · have hlt : (uf.halve x).parent x ≤ fuel := by
        rw [parent_halve, if_pos rfl]
        have := uf.parent_le (uf.parent x)
        have := lt_of_le_of_ne (uf.parent_le x) hroot
        omega
      obtain ⟨hfst, hsnd⟩ := ih (uf.halve x) hlt
      refine ⟨?_, fun y ↦ ?_⟩
      · rw [hfst, root_parent, root_halve]
      · rw [hsnd, root_halve]

@[simp] theorem halvingFind_fst (x : ℕ) : (uf.halvingFind x).1 = uf.root x :=
  (uf.halvingWalk_spec le_rfl).1

@[simp] theorem root_halvingFind (x y : ℕ) : (uf.halvingFind x).2.root y = uf.root y :=
  (uf.halvingWalk_spec le_rfl).2 y

/-! ## Union -/

def link {lo hi : ℕ} (h : lo < hi) : UnionFind where
  parent := Function.update uf.parent hi lo
  parent_le x := by
    rw [Function.update_apply]
    split_ifs with hx
    · exact hx ▸ h.le
    · exact uf.parent_le x

def union (a b : ℕ) : Bool × UnionFind :=
  let (ra, uf) := uf.find a
  let (rb, uf) := uf.find b
  if hlt : ra < rb then (true, uf.link hlt)
  else if hgt : rb < ra then (true, uf.link hgt)
  else (false, uf)

theorem root_link {lo hi : ℕ} (h : lo < hi) (hlo : uf.parent lo = lo) (hhi : uf.parent hi = hi)
    (x : ℕ) : (uf.link h).root x = if uf.root x = hi then lo else uf.root x := by
  have hparent : ∀ y, (uf.link h).parent y = if y = hi then lo else uf.parent y :=
    fun y ↦ Function.update_apply ..
  have hrootlo : (uf.link h).root lo = lo := by
    apply root_of_parent_eq
    rw [hparent, if_neg h.ne, hlo]
  induction x using uf.walk_induction with
  | hroot x hx =>
    rw [uf.root_of_parent_eq hx]
    by_cases hxhi : x = hi
    · rw [if_pos hxhi, ← root_parent, hparent, if_pos hxhi, hrootlo]
    · rw [if_neg hxhi]
      apply root_of_parent_eq
      rw [hparent, if_neg hxhi, hx]
  | hstep x hx ih =>
    have hxhi : x ≠ hi := by
      rintro rfl
      exact hx.ne hhi
    rw [← root_parent, hparent, if_neg hxhi, ih, uf.root_parent]

def linkRoots (ra rb : ℕ) : UnionFind :=
  if hlt : ra < rb then uf.link hlt else if hgt : rb < ra then uf.link hgt else uf

theorem root_linkRoots {ra rb : ℕ} (ha : uf.parent ra = ra) (hb : uf.parent rb = rb) (x : ℕ) :
    (uf.linkRoots ra rb).root x =
      if uf.root x = max ra rb then min ra rb else uf.root x := by
  rcases lt_trichotomy ra rb with hlt | rfl | hgt
  · rw [linkRoots, dif_pos hlt, max_eq_right hlt.le, min_eq_left hlt.le, root_link _ _ ha hb]
  · rw [linkRoots, dif_neg (lt_irrefl ra), dif_neg (lt_irrefl ra), max_self, min_self]
    split_ifs with h
    · exact h
    · rfl
  · rw [linkRoots, dif_neg hgt.not_gt, dif_pos hgt, max_eq_left hgt.le, min_eq_right hgt.le,
      root_link _ _ hb ha]

theorem root_union (a b x : ℕ) : (uf.union a b).2.root x =
    if uf.root x = max (uf.root a) (uf.root b) then min (uf.root a) (uf.root b)
    else uf.root x := by
  have hfix : ∀ z, ((uf.compress a).compress b).parent (uf.root z) = uf.root z := by
    intro z
    have h := ((uf.compress a).compress b).parent_root z
    rwa [root_compress, root_compress] at h
  have hunion : (uf.union a b).2 =
      ((uf.compress a).compress b).linkRoots (uf.root a) (uf.root b) := by
    simp only [union, find, root_compress, linkRoots]
    split_ifs <;> rfl
  rw [hunion, root_linkRoots _ (hfix a) (hfix b), root_compress, root_compress]

theorem root_union_eq_iff : (uf.union a b).2.root x = (uf.union a b).2.root y ↔
    uf.root x = uf.root y ∨ uf.root x = uf.root a ∧ uf.root y = uf.root b ∨
      uf.root x = uf.root b ∧ uf.root y = uf.root a := by
  rw [root_union, root_union]
  rcases le_total (uf.root a) (uf.root b) with h | h
  · rw [max_eq_right h, min_eq_left h]
    grind
  · rw [max_eq_left h, min_eq_right h]
    grind

def halvingUnion (a b : ℕ) : UnionFind :=
  let (ra, uf) := uf.halvingFind a
  let (rb, uf) := uf.halvingFind b
  uf.linkRoots ra rb

theorem root_halvingUnion (a b x : ℕ) : (uf.halvingUnion a b).root x =
    (uf.union a b).2.root x := by
  have hfix : ∀ z, ((uf.halvingFind a).2.halvingFind b).2.parent (uf.root z) = uf.root z := by
    intro z
    have h := ((uf.halvingFind a).2.halvingFind b).2.parent_root z
    rwa [root_halvingFind, root_halvingFind] at h
  have hunion : uf.halvingUnion a b =
      ((uf.halvingFind a).2.halvingFind b).2.linkRoots (uf.root a) (uf.root b) := by
    simp only [halvingUnion, halvingFind_fst, root_halvingFind]
  rw [hunion, root_linkRoots _ (hfix a) (hfix b), root_halvingFind, root_halvingFind, root_union]

/-! ## Joining pairs -/

def joinAll (uf : UnionFind) : List (ℕ × ℕ) → ℕ × UnionFind
  | [] => (0, uf)
  | (a, b) :: pairs =>
    let (merged, uf) := uf.union a b
    let (merges, uf) := uf.joinAll pairs
    (merged.toNat + merges, uf)

theorem root_joinAll_eq_iff (pairs : List (ℕ × ℕ)) :
    (uf.joinAll pairs).2.root x = (uf.joinAll pairs).2.root y ↔
      Relation.EqvGen (fun a b ↦ uf.root a = uf.root b ∨ (a, b) ∈ pairs) x y := by
  induction pairs generalizing uf with
  | nil =>
    have heqv : Equivalence fun a b ↦ uf.root a = uf.root b ∨ (a, b) ∈ ([] : List (ℕ × ℕ)) := by
      simp only [List.not_mem_nil, or_false]
      exact ⟨fun _ ↦ rfl, Eq.symm, Eq.trans⟩
    rw [heqv.eqvGen_iff, or_iff_left List.not_mem_nil]
    rfl
  | cons p pairs ih =>
    obtain ⟨a, b⟩ := p
    refine (ih (uf.union a b).2).trans ?_
    constructor
    · refine .lift id fun c d hcd ↦ ?_
      have hab : Relation.EqvGen (fun a' b' ↦ uf.root a' = uf.root b' ∨ (a', b') ∈ (a, b) :: pairs)
          a b := .rel _ _ (.inr List.mem_cons_self)
      rcases hcd with hcd | hcd
      · rcases uf.root_union_eq_iff.mp hcd with h | ⟨hc, hd⟩ | ⟨hc, hd⟩
        · exact .rel _ _ (.inl h)
        · exact .trans _ _ _ (.rel _ _ (.inl hc)) (.trans _ _ _ hab (.rel _ _ (.inl hd.symm)))
        · exact .trans _ _ _ (.rel _ _ (.inl hc))
            (.trans _ _ _ hab.symm (.rel _ _ (.inl hd.symm)))
      · exact .rel _ _ (.inr (List.mem_cons_of_mem _ hcd))
    · refine .lift id fun c d hcd ↦ .rel _ _ ?_
      rcases hcd with hcd | hcd
      · exact .inl (uf.root_union_eq_iff.mpr (.inl hcd))
      · rcases List.mem_cons.mp hcd with heq | hcd
        · cases heq
          exact .inl (uf.root_union_eq_iff.mpr (.inr (.inl ⟨rfl, rfl⟩)))
        · exact .inr hcd

theorem root_foldl_halvingUnion {uf' : UnionFind} (h : ∀ x, uf'.root x = uf.root x)
    (pairs : List (ℕ × ℕ)) (x : ℕ) :
    (pairs.foldl (fun uf p ↦ uf.halvingUnion p.1 p.2) uf').root x =
      (uf.joinAll pairs).2.root x := by
  induction pairs generalizing uf uf' with
  | nil => exact h x
  | cons p pairs ih =>
    refine @ih (uf.union p.1 p.2).2 _ fun y ↦ ?_
    rw [root_halvingUnion, root_union, root_union]
    simp only [h]

theorem root_joinAll_new (pairs : List (ℕ × ℕ)) :
    (new.joinAll pairs).2.root x = (new.joinAll pairs).2.root y ↔
      Relation.EqvGen (fun a b ↦ (a, b) ∈ pairs) x y := by
  rw [root_joinAll_eq_iff]
  constructor
  · refine .lift id fun a b hab ↦ ?_
    rcases hab with hab | hab
    · rw [root_new, root_new] at hab
      exact hab ▸ .refl _
    · exact .rel _ _ hab
  · exact fun h ↦ h.mono fun _ _ ↦ .inr

def star : List ℕ → List (ℕ × ℕ)
  | [] => []
  | first :: others => others.map fun other ↦ (first, other)

theorem root_joinAll_star {lists : List (List ℕ)} {l : List ℕ} (hl : l ∈ lists) (hx : x ∈ l)
    (hy : y ∈ l) : (new.joinAll (lists.flatMap star)).2.root x =
      (new.joinAll (lists.flatMap star)).2.root y := by
  rcases l with _ | ⟨first, others⟩
  · exact absurd hx List.not_mem_nil
  have hfirst : ∀ z ∈ first :: others,
      Relation.EqvGen (fun a b ↦ (a, b) ∈ lists.flatMap star) first z := by
    intro z hz
    rcases List.mem_cons.mp hz with rfl | hz
    · exact .refl _
    · exact .rel _ _ (List.mem_flatMap.mpr ⟨_, hl, List.mem_map_of_mem hz⟩)
  rw [root_joinAll_new]
  exact (hfirst x hx).symm.trans _ _ _ (hfirst y hy)

end UnionFind

/-! ## Grouping -/

namespace List

variable {α κ : Type*} [DecidableEq κ] (key : α → κ)

def addToGroup : List (List α) → α → List (List α)
  | [], a => [[a]]
  | group :: groups, a =>
    if group.head?.map key = some (key a) then (group ++ [a]) :: groups
    else group :: addToGroup groups a

def groupsBy (l : List α) : List (List α) := l.foldl (addToGroup key) []

variable {key}

theorem filter_key_concat (l : List α) (a : α) (k : κ) :
    ((l ++ [a]).filter fun b ↦ key b = k) =
      (l.filter fun b ↦ key b = k) ++ if key a = k then [a] else [] := by
  rw [filter_append]
  split_ifs with hk <;> simp [hk]

theorem addToGroup_map {keys : List κ} {l : List α} (hmem : ∀ k ∈ keys, ∃ a ∈ l, key a = k)
    (hkeys : keys.Nodup) (a : α) :
    addToGroup key (keys.map fun k ↦ l.filter fun b ↦ key b = k) a =
      (if key a ∈ keys then keys.map fun k ↦ (l ++ [a]).filter fun b ↦ key b = k
        else (keys.map fun k ↦ l.filter fun b ↦ key b = k) ++ [[a]]) := by
  have hother : ∀ k, k ≠ key a →
      ((l ++ [a]).filter fun b ↦ key b = k) = l.filter fun b ↦ key b = k := by
    intro k hk
    rw [filter_key_concat, if_neg (Ne.symm hk), append_nil]
  induction keys with
  | nil => rfl
  | cons k keys ih =>
    obtain ⟨b, hb, hbk⟩ := hmem k mem_cons_self
    have hhead : ((l.filter fun b ↦ key b = k).head?).map key = some k := by
      rcases hg : l.filter fun b ↦ key b = k with _ | ⟨c, cs⟩
      · exact absurd (hg ▸ mem_filter.mpr ⟨hb, by simpa using hbk⟩) not_mem_nil
      · have hc : c ∈ l.filter fun b ↦ key b = k := hg ▸ mem_cons_self
        exact congrArg some (by simpa using (mem_filter.mp hc).2)
    rw [map_cons, addToGroup, hhead]
    by_cases hka : k = key a
    · subst hka
      rw [if_pos rfl, if_pos mem_cons_self, map_cons, filter_key_concat, if_pos rfl]
      refine congrArg₂ _ rfl (map_congr_left fun k' hk' ↦ (hother k' ?_).symm)
      rintro rfl
      exact (nodup_cons.mp hkeys).1 hk'
    · rw [if_neg (fun h ↦ hka (Option.some.inj h)),
        ih (fun k' hk' ↦ hmem k' (mem_cons_of_mem _ hk')) (nodup_cons.mp hkeys).2]
      by_cases hmem' : key a ∈ keys
      · rw [if_pos hmem', if_pos (mem_cons_of_mem _ hmem'), map_cons, hother k hka]
      · rw [if_neg hmem', if_neg (by simp [hmem', Ne.symm hka])]
        rfl

variable (key) in
theorem exists_keys_groupsBy (l : List α) : ∃ keys : List κ, keys.Nodup ∧
    (∀ k, k ∈ keys ↔ ∃ a ∈ l, key a = k) ∧
    l.groupsBy key = keys.map fun k ↦ l.filter fun a ↦ key a = k := by
  induction l using reverseRecOn with
  | nil => exact ⟨[], nodup_nil, fun k ↦ by simp, rfl⟩
  | append_singleton l a ih =>
    obtain ⟨keys, hnodup, hmem, hgroups⟩ := ih
    have hstep : (l ++ [a]).groupsBy key = addToGroup key (l.groupsBy key) a := foldl_concat ..
    rw [hstep, hgroups, addToGroup_map (fun k hk ↦ (hmem k).mp hk) hnodup]
    have hlater : ∀ k, (∃ b ∈ l ++ [a], key b = k) ↔ k ∈ keys ∨ key a = k := by
      intro k
      rw [hmem]
      simp only [mem_append, mem_singleton, or_and_right, exists_or, exists_eq_left]
    by_cases ha : key a ∈ keys
    · refine ⟨keys, hnodup, fun k ↦ ?_, if_pos ha⟩
      rw [hlater, or_iff_left_of_imp]
      rintro rfl
      exact ha
    · refine ⟨keys ++ [key a], ?_, fun k ↦ ?_, ?_⟩
      · refine nodup_append.mpr ⟨hnodup, nodup_singleton _, fun k hk b hb ↦ ?_⟩
        rw [mem_singleton.mp hb]
        rintro rfl
        exact ha hk
      · rw [hlater, mem_append, mem_singleton, eq_comm (a := k)]
      · rw [if_neg ha, map_append, map_singleton, filter_key_concat, if_pos rfl]
        have hnew : (l.filter fun b ↦ key b = key a) = [] :=
          filter_eq_nil_iff.mpr fun b hb ↦ by simpa using fun h ↦ ha ((hmem _).mpr ⟨b, hb, h⟩)
        rw [hnew, nil_append]
        refine congrArg (· ++ _) (map_congr_left fun k hk ↦ ?_)
        rw [filter_key_concat, if_neg (by rintro rfl; exact ha hk), append_nil]

variable {l : List α} {group : List α} {a : α}

theorem mem_group_iff (hgroup : group ∈ l.groupsBy key) (ha : a ∈ group) (b : α) :
    b ∈ group ↔ b ∈ l ∧ key b = key a := by
  obtain ⟨keys, -, -, hgroups⟩ := exists_keys_groupsBy key l
  rw [hgroups] at hgroup
  obtain ⟨k, -, rfl⟩ := mem_map.mp hgroup
  simp only [mem_filter, decide_eq_true_eq] at ha ⊢
  rw [ha.2]

variable (key) in
theorem countP_groupsBy [DecidableEq α] (ha : a ∈ l) :
    (l.groupsBy key).countP (fun group ↦ a ∈ group) = 1 := by
  obtain ⟨keys, hnodup, hmem, hgroups⟩ := exists_keys_groupsBy key l
  rw [hgroups, countP_map]
  have hkey : keys.count (key a) = 1 :=
    count_eq_one_of_mem hnodup ((hmem (key a)).mpr ⟨a, ha, rfl⟩)
  rw [← hkey, count_eq_countP]
  refine countP_congr fun k _ ↦ ?_
  simp only [Function.comp_apply, mem_filter, decide_eq_true_eq, beq_iff_eq, ha, true_and]
  exact eq_comm

/-! ## Positions of groups -/

def groupSlot (key : α → κ) (groups : List (List α)) (k : κ) : Option ℕ :=
  groups.findIdx? fun group ↦ group.head?.map key = some k

theorem groupSlot_cons (group : List α) (groups : List (List α)) (k : κ) :
    groupSlot key (group :: groups) k =
      if group.head?.map key = some k then some 0
      else (groupSlot key groups k).map (· + 1) := by
  rw [groupSlot, findIdx?_cons]
  by_cases h : group.head?.map key = some k
  · rw [if_pos (decide_eq_true h), if_pos h]
  · rw [if_neg (by simpa using h), if_neg h]
    rfl

theorem addToGroup_eq (groups : List (List α)) (a : α) : addToGroup key groups a =
    match groupSlot key groups (key a) with
    | some slot => groups.modify slot (· ++ [a])
    | none => groups ++ [[a]] := by
  induction groups with
  | nil => rfl
  | cons group groups ih =>
    rw [addToGroup, groupSlot_cons]
    by_cases h : group.head?.map key = some (key a)
    · rw [if_pos h, if_pos h]
      rfl
    · rw [if_neg h, if_neg h, ih]
      cases groupSlot key groups (key a) <;> rfl

theorem groupSlot_addToGroup (groups : List (List α)) (a : α) (k : κ) :
    groupSlot key (addToGroup key groups a) k =
      (groupSlot key groups k).or (if key a = k then some groups.length else none) := by
  induction groups with
  | nil =>
    by_cases h : key a = k <;> simp [groupSlot, addToGroup, h]
  | cons group groups ih =>
    rw [addToGroup]
    by_cases hhead : group.head?.map key = some (key a)
    · obtain ⟨b, hb, -⟩ := Option.map_eq_some_iff.mp hhead
      have hkept : ((group ++ [a]).head?).map key = group.head?.map key := by
        rw [head?_append, hb, Option.some_or]
      rw [if_pos hhead, groupSlot_cons, groupSlot_cons, hkept]
      by_cases hk : key a = k
      · rw [if_pos (hk ▸ hhead), Option.some_or]
      · rw [if_neg hk, Option.or_none]
    · rw [if_neg hhead, groupSlot_cons, groupSlot_cons, ih]
      split_ifs <;> cases groupSlot key groups k <;> rfl

theorem groupSlot_groupsBy (l : List α) {k : κ} {slot : ℕ} {group : List α}
    (hgroup : (l.groupsBy key)[slot]? = some group) :
    groupSlot key (l.groupsBy key) k = some slot ↔ ∃ a ∈ group, key a = k := by
  obtain ⟨keys, hnodup, hmem, hgroups⟩ := exists_keys_groupsBy key l
  have hhead : ∀ k' ∈ keys, ((l.filter fun a ↦ key a = k').head?).map key = some k' := by
    intro k' hk'
    obtain ⟨a, ha, hak⟩ := (hmem k').mp hk'
    cases hf : l.filter fun a ↦ key a = k' with
    | nil => exact absurd (hf ▸ mem_filter.mpr ⟨ha, decide_eq_true hak⟩) not_mem_nil
    | cons c cs =>
      have hc : c ∈ l.filter fun a ↦ key a = k' := hf ▸ mem_cons_self
      rw [head?_cons, Option.map_some, of_decide_eq_true (mem_filter.mp hc).2]
  rw [hgroups, getElem?_map] at hgroup
  obtain ⟨k', hk', rfl⟩ := Option.map_eq_some_iff.mp hgroup
  obtain ⟨hslot, rfl⟩ := getElem?_eq_some_iff.mp hk'
  have hin : (∃ a ∈ l.filter fun a ↦ key a = keys[slot], key a = k) ↔ keys[slot] = k := by
    constructor
    · rintro ⟨a, ha, rfl⟩
      exact (of_decide_eq_true (mem_filter.mp ha).2).symm
    · rintro rfl
      obtain ⟨a, ha, hak⟩ := (hmem _).mp (getElem_mem hslot)
      exact ⟨a, mem_filter.mpr ⟨ha, decide_eq_true hak⟩, hak⟩
  rw [hin, hgroups, groupSlot, findIdx?_eq_some_iff_getElem]
  simp only [length_map, getElem_map, decide_eq_true_eq, hslot, exists_true_left]
  constructor
  · rintro ⟨h, -⟩
    exact Option.some_inj.mp ((hhead _ (getElem_mem hslot)).symm.trans h)
  · rintro rfl
    refine ⟨hhead _ (getElem_mem hslot), fun j hj h ↦ ?_⟩
    have heq := Option.some_inj.mp ((hhead _ (getElem_mem (hj.trans hslot))).symm.trans h)
    exact hj.ne ((hnodup.getElem_inj_iff).mp heq)

theorem heads_groupsBy_sublist (l : List α) : ((l.groupsBy key).filterMap head?).Sublist l := by
  have hadd (groups : List (List α)) (a : α) : ((addToGroup key groups a).filterMap head?).Sublist
      (groups.filterMap head? ++ [a]) := by
    induction groups with
    | nil => exact Sublist.refl _
    | cons group groups ih =>
      rw [addToGroup]
      cases group with
      | nil => simpa [filterMap_cons] using ih
      | cons b group =>
        split_ifs
        · simp
        · simpa using ih
  induction l using reverseRecOn with
  | nil => exact Sublist.refl _
  | append_singleton l a ih =>
    have hstep : (l ++ [a]).groupsBy key = addToGroup key (l.groupsBy key) a := foldl_concat ..
    rw [hstep]
    exact (hadd _ a).trans (ih.append (Sublist.refl _))

variable {l : List α} {group : List α}

theorem sublist_of_mem_groupsBy (h : group ∈ l.groupsBy key) : group.Sublist l := by
  obtain ⟨keys, -, -, hgroups⟩ := exists_keys_groupsBy key l
  rw [hgroups] at h
  obtain ⟨k, -, rfl⟩ := mem_map.mp h
  exact filter_sublist

theorem ne_nil_of_mem_groupsBy (h : group ∈ l.groupsBy key) : group ≠ [] := by
  obtain ⟨keys, -, hmem, hgroups⟩ := exists_keys_groupsBy key l
  rw [hgroups] at h
  obtain ⟨k, hk, rfl⟩ := mem_map.mp h
  obtain ⟨a, ha, hak⟩ := (hmem k).mp hk
  exact ne_nil_of_mem (mem_filter.mpr ⟨ha, decide_eq_true hak⟩)

end List
