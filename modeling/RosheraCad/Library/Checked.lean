import Mathlib.Data.List.Forall2
import Mathlib.Algebra.Group.Nat.Defs

/-!
# Checked computations

A computation that may fail with an error, as a chain of steps and checks. It succeeds exactly when
every step and every check does; additions that must not overflow are steps of this kind.
-/

universe u

variable {ε : Type*} {α β : Type u}

/-- A check: fail unless the condition holds. -/
def ensure (c : Prop) [Decidable c] (err : ε) : Except ε Unit := if c then .ok () else .error err

theorem ensure_eq_ok {c : Prop} [Decidable c] {err : ε} {u : Unit} :
    ensure c err = .ok u ↔ c := by
  by_cases h : c
  · exact iff_of_true (if_pos h) h
  · rw [ensure, if_neg h]
    exact iff_of_false nofun h

namespace Except

variable {f : α → Except ε β} {l : List α}

/-- A chain of steps succeeds when its first step does and the rest does. -/
theorem bind_eq_ok {x : Except ε α} {b : β} :
    x >>= f = .ok b ↔ ∃ a, x = .ok a ∧ f a = .ok b := by
  rcases x with err | a
  · exact iff_of_false nofun (by rintro ⟨a, h, -⟩; cases h)
  · constructor
    · intro h
      exact ⟨a, rfl, h⟩
    · rintro ⟨a', h, hf⟩
      cases h
      exact hf

theorem forM_eq_ok {f : α → Except ε PUnit} {u : PUnit} :
    l.forM f = .ok u ↔ ∀ a ∈ l, f a = .ok ⟨⟩ := by
  induction l with
  | nil => exact iff_of_true rfl nofun
  | cons a l ih =>
    show (f a >>= fun _ ↦ l.forM f) = ok u ↔ _
    rw [bind_eq_ok, List.forall_mem_cons]
    constructor
    · rintro ⟨_, ha, hl⟩
      exact ⟨ha, ih.mp hl⟩
    · rintro ⟨ha, hl⟩
      exact ⟨⟨⟩, ha, ih.mpr hl⟩

theorem mapM_eq_ok {out : List β} :
    l.mapM f = .ok out ↔ List.Forall₂ (fun a b ↦ f a = .ok b) l out := by
  induction l generalizing out with
  | nil =>
    rw [List.mapM_nil]
    constructor
    · intro h
      cases h
      exact .nil
    · intro h
      cases h
      rfl
  | cons a l ih =>
    rw [List.mapM_cons, bind_eq_ok]
    constructor
    · rintro ⟨b, hb, h⟩
      obtain ⟨bs, hbs, h⟩ := bind_eq_ok.mp h
      cases h
      exact .cons hb (ih.mp hbs)
    · intro h
      cases h with
      | cons hb hbs => exact ⟨_, hb, bind_eq_ok.mpr ⟨_, ih.mpr hbs, rfl⟩⟩

/-- Steps of which each succeeds on a condition, with a known result, do so for every item. -/
theorem mapM_eq_ok_iff {g : α → β} {P : α → Prop}
    (h : ∀ a b, f a = .ok b ↔ P a ∧ b = g a) {out : List β} :
    l.mapM f = .ok out ↔ (∀ a ∈ l, P a) ∧ out = l.map g := by
  rw [mapM_eq_ok]
  induction l generalizing out with
  | nil => simp
  | cons a l ih =>
    rw [List.forall₂_cons_left_iff, List.forall_mem_cons]
    constructor
    · rintro ⟨b, out, hb, hout, rfl⟩
      obtain ⟨ha, rfl⟩ := (h a b).mp hb
      obtain ⟨hl, rfl⟩ := ih.mp hout
      exact ⟨⟨ha, hl⟩, rfl⟩
    · rintro ⟨⟨ha, hl⟩, rfl⟩
      exact ⟨g a, l.map g, (h a _).mpr ⟨ha, rfl⟩, ih.mpr ⟨hl, rfl⟩, rfl⟩

theorem mapM_eq_ok_map {g : α → β} (h : ∀ a ∈ l, f a = .ok (g a)) : l.mapM f = .ok (l.map g) :=
  mapM_eq_ok.mpr (List.forall₂_map_right_iff.mpr (List.forall₂_same.mpr h))

theorem mapError_eq_ok {ε' : Type*} {g : ε → ε'} {x : Except ε α} {a : α} :
    x.mapError g = .ok a ↔ x = .ok a := by
  rcases x with err | b
  · exact iff_of_false nofun nofun
  · rw [Except.mapError, ok.injEq, ok.injEq]

/-- **A run over numbered items up to a failure**: an invariant holds at the end, or where it fails.
-/
theorem foldlM_zipIdx_cases {σ τ γ : Type*} {f : σ → γ × ℕ → Except τ σ} {l : List γ} {init : σ}
    (Q : ℕ → σ → Prop) (hinit : Q 0 init)
    (hstep : ∀ k c s s', l[k]? = some c → Q k s → f s (c, k) = .ok s' → Q (k + 1) s') :
    (∃ s, l.zipIdx.foldlM f init = .ok s ∧ Q l.length s) ∨
      ∃ k c s t, l[k]? = some c ∧ Q k s ∧ f s (c, k) = .error t ∧
        l.zipIdx.foldlM f init = .error t := by
  have hfrom : ∀ (rest : List γ) (n : ℕ) (s : σ), (∀ k, rest[k]? = l[n + k]?) → Q n s →
      (∃ s', (rest.zipIdx n).foldlM f s = .ok s' ∧ Q (n + rest.length) s') ∨
        ∃ k c s' t, l[k]? = some c ∧ Q k s' ∧ f s' (c, k) = .error t ∧
          (rest.zipIdx n).foldlM f s = .error t := by
    intro rest
    induction rest with
    | nil => exact fun n s _ hs ↦ .inl ⟨s, rfl, hs⟩
    | cons c rest ih =>
      intro n s hrest hs
      have hc : l[n]? = some c := (hrest 0).symm
      rw [List.zipIdx_cons, List.foldlM_cons]
      cases hf : f s (c, n) with
      | error t => exact .inr ⟨n, c, s, t, hc, hs, hf, rfl⟩
      | ok s' =>
        have hnext : ∀ k, rest[k]? = l[n + 1 + k]? := by
          intro k
          rw [Nat.add_assoc, Nat.add_comm 1 k, ← hrest (k + 1)]
          rfl
        rcases ih (n + 1) s' hnext (hstep n c s s' hc hs hf) with ⟨s'', hrun, hs''⟩ | hfail
        · refine .inl ⟨s'', hrun, ?_⟩
          rwa [List.length_cons, Nat.add_comm rest.length, ← Nat.add_assoc]
        · exact .inr hfail
  have hall := hfrom l 0 init (fun k ↦ by rw [Nat.zero_add]) hinit
  rwa [Nat.zero_add] at hall

def ofOption (err : ε) : Option α → Except ε α
  | some a => .ok a
  | none => .error err

theorem ofOption_eq_ok {err : ε} {x : Option α} {a : α} : ofOption err x = .ok a ↔ x = some a := by
  rcases x with - | b
  · exact iff_of_false nofun nofun
  · rw [ofOption, Except.ok.injEq, Option.some.injEq]

end Except

def checkedAdd (a b : UInt64) : Option UInt64 :=
  if a.toNat + b.toNat < 2 ^ 64 then some (a + b) else none

theorem checkedAdd_eq_some {a b c : UInt64} :
    checkedAdd a b = some c ↔ c.toNat = a.toNat + b.toNat := by
  rw [checkedAdd]
  have hc := c.toNat_lt
  by_cases h : a.toNat + b.toNat < 2 ^ 64
  · rw [if_pos h, Option.some_inj, ← UInt64.toNat_inj, UInt64.toNat_add, Nat.mod_eq_of_lt h]
    exact eq_comm
  · rw [if_neg h]
    exact iff_of_false nofun fun heq ↦ h (heq ▸ hc)

theorem exists_checkedAdd {a : UInt64} {n : ℕ} (h : a.toNat + n < 2 ^ 64) :
    ∃ c, checkedAdd a (UInt64.ofNat n) = some c ∧ c.toNat = a.toNat + n := by
  have hn : (UInt64.ofNat n).toNat = n := by
    rw [UInt64.toNat_ofNat']
    omega
  have hsum : (a + UInt64.ofNat n).toNat = a.toNat + n := by
    rw [UInt64.toNat_add, hn]
    omega
  exact ⟨a + UInt64.ofNat n, checkedAdd_eq_some.mpr (hsum.trans (by rw [hn])), hsum⟩
