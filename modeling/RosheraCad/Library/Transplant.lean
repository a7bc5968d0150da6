import Mathlib.Data.List.Forall2
import Mathlib.Order.Nat

/-!
# Transplanting a graph

The things of one store are taken over into another that numbers its records itself. A table for
each kind notes which thing became which record; a record is built from the records of the things it
refers to, which are taken over before it. The steps of a transplant only add.
-/

/-- The records of the target and its next number, for each kind, and the number of the copy of each
thing. -/
structure Transplant (K R : Type*) where
  record : K → ℕ → Option R
  next : K → ℕ
  noted : K → ℕ → Option ℕ

namespace Transplant

variable {K R : Type*}

/-! ## Steps -/

/-- Nothing recorded or noted is lost. -/
structure Grows (t t' : Transplant K R) : Prop where
  record : ∀ k n r, t.record k n = some r → t'.record k n = some r
  next : ∀ k, t.next k ≤ t'.next k
  noted : ∀ k id n, t.noted k id = some n → t'.noted k id = some n

theorem Grows.refl (t : Transplant K R) : t.Grows t :=
  ⟨fun _ _ _ h ↦ h, fun _ ↦ le_rfl, fun _ _ _ h ↦ h⟩

theorem Grows.trans {t t' t'' : Transplant K R} (h : t.Grows t') (h' : t'.Grows t'') :
    t.Grows t'' where
  record k n r hr := h'.record k n r (h.record k n r hr)
  next k := (h.next k).trans (h'.next k)
  noted k id n hn := h'.noted k id n (h.noted k id n hn)

section Add

variable [DecidableEq K] (t : Transplant K R) (k : K)

/-- Add a record under the next number. -/
def add (r : R) : Transplant K R where
  record k' n := if k' = k ∧ n = t.next k then some r else t.record k' n
  next k' := if k' = k then t.next k + 1 else t.next k'
  noted := t.noted

def note (id : ℕ) (r : R) : Transplant K R where
  record := (t.add k r).record
  next := (t.add k r).next
  noted k' i := if k' = k ∧ i = id then some (t.next k) else t.noted k' i

end Add

/-! ## What holds throughout -/

/-- The things of the source, how deep each kind is, when a record is a copy, and which records are
made. -/
structure Scheme (K R : Type*) where
  kind : R → K
  source : K → ℕ → Option R
  depth : K → ℕ
  Copied : Transplant K R → R → R → Prop
  Made : R → Prop
  mono : ∀ t t' a b, Grows t t' → Copied t a b → Copied t' a b

/-- A part of a transplant: kinds that are not as deep as `limit` are left alone. -/
structure Step (S : Scheme K R) (limit : ℕ) (t t' : Transplant K R) : Prop where
  grows : t.Grows t'
  above : ∀ k, S.depth k < limit → t'.noted k = t.noted k

namespace Step

variable {S : Scheme K R} {limit : ℕ} {t t' t'' : Transplant K R}

theorem refl (t : Transplant K R) : Step S limit t t := ⟨.refl t, fun _ _ ↦ rfl⟩

theorem trans (h : Step S limit t t') (h' : Step S limit t' t'') : Step S limit t t'' :=
  ⟨h.grows.trans h'.grows, fun k hk ↦ (h'.above k hk).trans (h.above k hk)⟩

theorem anti {lower : ℕ} (h : Step S limit t t') (hle : lower ≤ limit) : Step S lower t t' :=
  ⟨h.grows, fun k hk ↦ h.above k (hk.trans_le hle)⟩

end Step

structure Invariant (S : Scheme K R) (t₀ t : Transplant K R) : Prop where
  grows : t₀.Grows t
  lt_next : ∀ k n r, t.record k n = some r → n < t.next k
  copied : ∀ k id n, t.noted k id = some n → t₀.next k ≤ n ∧
    ∃ a b, S.source k id = some a ∧ t.record k n = some b ∧ S.Copied t a b
  injective : ∀ k id id' n, t.noted k id = some n → t.noted k id' = some n → id = id'
  made : ∀ k n r, t.record k n = some r → t₀.record k n = some r ∨ S.Made r

namespace Invariant

variable [DecidableEq K] {S : Scheme K R} {t₀ t : Transplant K R} {k : K} {r : R} {id : ℕ}

section

variable (h : Invariant S t₀ t)

include h

theorem grows_add : t.Grows (t.add k r) where
  record k' n r' hr := by
    have hlt := h.lt_next k' n r' hr
    have hold : ¬ (k' = k ∧ n = t.next k) := by
      rintro ⟨rfl, rfl⟩
      exact hlt.ne rfl
    exact (if_neg hold).trans hr
  next k' := by
    by_cases hk : k' = k
    · exact hk ▸ (Nat.le_succ _).trans_eq (if_pos rfl).symm
    · exact (if_neg hk).ge
  noted _ _ _ hn := hn

theorem grows_note (hnew : t.noted k id = none) :
    t.Grows (t.note k id r) where
  record := (h.grows_add (r := r)).record
  next := (h.grows_add (r := r)).next
  noted k' i n hn := by
    have hold : ¬ (k' = k ∧ i = id) := by
      rintro ⟨rfl, rfl⟩
      cases hnew.symm.trans hn
    exact (if_neg hold).trans hn

theorem add (hmade : S.Made r) : Invariant S t₀ (t.add k r) where
  grows := h.grows.trans h.grows_add
  lt_next k' n r' hr := by
    rw [Transplant.add] at hr ⊢
    dsimp only at hr ⊢
    split_ifs at hr with hnew
    · rw [if_pos hnew.1, hnew.2]
      exact Nat.lt_succ_self _
    · exact (h.lt_next k' n r' hr).trans_le ((h.grows_add (r := r)).next k')
  copied k' i n hn := by
    obtain ⟨hfresh, a, b, ha, hb, hab⟩ := h.copied k' i n hn
    exact ⟨hfresh, a, b, ha, h.grows_add.record k' n b hb, S.mono _ _ a b h.grows_add hab⟩
  injective := h.injective
  made k' n r' hr := by
    rw [Transplant.add] at hr
    dsimp only at hr
    split_ifs at hr with hnew
    · exact .inr (Option.some_inj.mp hr ▸ hmade)
    · exact h.made k' n r' hr

theorem note (hnew : t.noted k id = none) {a : R}
    (ha : S.source k id = some a) (hcopy : S.Copied t a r) (hmade : S.Made r) :
    Invariant S t₀ (t.note k id r) where
  grows := h.grows.trans (h.grows_note hnew)
  lt_next := (h.add hmade).lt_next
  copied k' i n hn := by
    have hgrows := h.grows_note (r := r) hnew
    rw [Transplant.note] at hn
    dsimp only at hn
    split_ifs at hn with hself
    · obtain ⟨rfl, rfl⟩ := hself
      obtain rfl := Option.some_inj.mp hn
      exact ⟨h.grows.next k', a, r, ha, if_pos ⟨rfl, rfl⟩, S.mono _ _ a r hgrows hcopy⟩
    · obtain ⟨hfresh, a', b, ha', hb, hab⟩ := h.copied k' i n hn
      exact ⟨hfresh, a', b, ha', hgrows.record k' n b hb, S.mono _ _ a' b hgrows hab⟩
  injective k' i i' n hn hn' := by
    -- The number of the new copy is that of no other.
    have hother : ∀ i, t.noted k i ≠ some (t.next k) := by
      intro i hi
      obtain ⟨-, -, b, -, hb, -⟩ := h.copied k i _ hi
      exact (h.lt_next k _ b hb).ne rfl
    rw [Transplant.note] at hn hn'
    dsimp only at hn hn'
    split_ifs at hn hn' with hself hself' hself'
    · exact hself.2.trans hself'.2.symm
    · obtain rfl := Option.some_inj.mp hn
      rw [hself.1] at hn'
      exact absurd hn' (hother i')
    · obtain rfl := Option.some_inj.mp hn'
      rw [hself'.1] at hn
      exact absurd hn (hother i)
    · exact h.injective k' i i' n hn hn'
  made := (h.add hmade).made

end

end Invariant

/-! ## Taking things over -/

section Run

variable {σ : Type*}

def each (f : σ → ℕ → Option ℕ × σ) : σ → List ℕ → List (Option ℕ) × σ
  | st, [] => ([], st)
  | st, id :: ids =>
    let (new, st) := f st id
    let (rest, st) := each f st ids
    (new :: rest, st)

def memo (noted : Option ℕ) (build : Option R × σ) (add : σ → R → ℕ × σ) (st : σ) :
    Option ℕ × σ :=
  match noted with
  | some existing => (some existing, st)
  | none =>
    match build with
    | (some r, st) =>
      let (new, st) := add st r
      (some new, st)
    | (none, st) => (none, st)

variable (S : Scheme K R) (t₀ : Transplant K R) (view : σ → Transplant K R)

def TakesOver (k : K) (id : ℕ) (st : σ) (result : Option ℕ × σ) : Prop :=
  ∃ n st', result = (some n, st') ∧ Invariant S t₀ (view st') ∧
    Step S (S.depth k) (view st) (view st') ∧ (view st').noted k id = some n

variable {S t₀ view} {k : K} {st : σ}

theorem exists_each {f : σ → ℕ → Option ℕ × σ} {ids : List ℕ}
    (hf : ∀ id ∈ ids, ∀ st, Invariant S t₀ (view st) → TakesOver S t₀ view k id st (f st id))
    (h : Invariant S t₀ (view st)) :
    ∃ ns st', each f st ids = (ns.map some, st') ∧ Invariant S t₀ (view st') ∧
      Step S (S.depth k) (view st) (view st') ∧
      List.Forall₂ (fun id n ↦ (view st').noted k id = some n) ids ns := by
  induction ids generalizing st with
  | nil => exact ⟨[], st, rfl, h, .refl _, .nil⟩
  | cons id ids ih =>
    obtain ⟨n, st₁, hrun, h₁, hstep, hn⟩ := hf id List.mem_cons_self st h
    obtain ⟨ns, st₂, hrest, h₂, hstep', hns⟩ :=
      ih (fun i hi ↦ hf i (List.mem_cons_of_mem _ hi)) h₁
    refine ⟨n :: ns, st₂, ?_, h₂, hstep.trans hstep', .cons (hstep'.grows.noted k id n hn) hns⟩
    rw [each, hrun]
    simp only [hrest, List.map_cons]

variable [DecidableEq K]

/-- **A thing is taken over** when its record is built from deeper things. -/
theorem takesOver_memo {id : ℕ} {noted : Option ℕ} {build : Option R × σ} {add : σ → R → ℕ × σ}
    (hnoted : noted = (view st).noted k id)
    (hadd : ∀ st r, S.kind r = k → (add st r).1 = (view st).next k ∧
      view (add st r).2 = (view st).note k id r)
    (h : Invariant S t₀ (view st))
    (hbuild : ∃ r st', build = (some r, st') ∧ S.kind r = k ∧ Invariant S t₀ (view st') ∧
      Step S (S.depth k + 1) (view st) (view st') ∧
      ∃ a, S.source k id = some a ∧ S.Copied (view st') a r ∧ S.Made r) :
    TakesOver S t₀ view k id st (memo noted build add st) := by
  cases noted with
  | some existing => exact ⟨existing, st, rfl, h, .refl _, hnoted.symm⟩
  | none =>
    obtain ⟨r, st', rfl, rfl, h', hstep, a, ha, hcopy, hmade⟩ := hbuild
    have hnew : (view st').noted (S.kind r) id = none := by
      rw [hstep.above _ (Nat.lt_succ_self _), ← hnoted]
    obtain ⟨hnumber, hview⟩ := hadd st' r rfl
    refine ⟨(add st' r).1, (add st' r).2, rfl, ?_, ?_, ?_⟩
    · rw [hview]
      exact h'.note hnew ha hcopy hmade
    · refine (hstep.anti (Nat.le_succ _)).trans ⟨?_, fun k' hk' ↦ ?_⟩
      · rw [hview]
        exact h'.grows_note hnew
      · rw [hview]
        have hne : k' ≠ S.kind r := fun heq ↦ hk'.ne (congrArg S.depth heq)
        exact funext fun i ↦ if_neg fun hself ↦ hne hself.1
    · rw [hview, hnumber]
      exact if_pos ⟨rfl, rfl⟩

end Run

end Transplant
