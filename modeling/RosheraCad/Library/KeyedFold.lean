import Mathlib.Data.List.Nodup

/-!
# Folds that touch one key at a time

A pass over a list of keyed jobs, each of which changes a state only where its own key looks. If no
key occurs twice, what a key sees after the pass is what its own job makes of what it saw before,
and a key without a job sees no change.
-/

universe u v w x

namespace KeyedFold

variable {σ : Type u} {K : Type v} {V : Type w} {γ : Type x} [DecidableEq K]

/-- A job run in a state satisfying `Inv` keeps `Inv`, and changes the view of its own key only. -/
structure OwnKeyOnly (step : σ → K × V → σ) (Inv : σ → Prop) (view : K → σ → γ)
    (f : K → V → γ → γ) (l : List (K × V)) : Prop where
  keeps : ∀ s, Inv s → ∀ e ∈ l, Inv (step s e)
  view_step : ∀ s, Inv s → ∀ e ∈ l, ∀ k,
    view k (step s e) = if k = e.1 then f k e.2 (view k s) else view k s

variable {step : σ → K × V → σ} {Inv : σ → Prop} {view : K → σ → γ} {f : K → V → γ → γ}
  {l : List (K × V)} {s : σ}

theorem OwnKeyOnly.tail {e : K × V} (h : OwnKeyOnly step Inv view f (e :: l)) :
    OwnKeyOnly step Inv view f l where
  keeps s hs e he := h.keeps s hs e (List.mem_cons_of_mem _ he)
  view_step s hs e he := h.view_step s hs e (List.mem_cons_of_mem _ he)

theorem OwnKeyOnly.inv_foldl (h : OwnKeyOnly step Inv view f l) (hs : Inv s) :
    Inv (l.foldl step s) := by
  induction l generalizing s with
  | nil => exact hs
  | cons e l ih => exact ih h.tail (h.keeps s hs e List.mem_cons_self)

/-- **A key without a job sees no change.** -/
theorem OwnKeyOnly.view_foldl_of_not_mem (h : OwnKeyOnly step Inv view f l) (hs : Inv s) {k : K}
    (hk : k ∉ l.map Prod.fst) : view k (l.foldl step s) = view k s := by
  induction l generalizing s with
  | nil => rfl
  | cons e l ih =>
    rw [List.map_cons, List.mem_cons, not_or] at hk
    have hstep := h.view_step s hs e List.mem_cons_self k
    rw [if_neg hk.1] at hstep
    rw [List.foldl_cons, ih h.tail (h.keeps s hs e List.mem_cons_self) hk.2, hstep]

theorem OwnKeyOnly.view_foldl_of_mem (h : OwnKeyOnly step Inv view f l) (hs : Inv s)
    (hnodup : (l.map Prod.fst).Nodup) {k : K} {v : V} (hk : (k, v) ∈ l) :
    view k (l.foldl step s) = f k v (view k s) := by
  induction l generalizing s with
  | nil => simp at hk
  | cons e l ih =>
    rw [List.map_cons, List.nodup_cons] at hnodup
    have hkept : Inv (step s e) := h.keeps s hs e List.mem_cons_self
    have hstep := h.view_step s hs e List.mem_cons_self k
    rw [List.foldl_cons]
    rcases List.mem_cons.mp hk with rfl | hk
    · rw [if_pos rfl] at hstep
      rw [h.tail.view_foldl_of_not_mem hkept hnodup.1, hstep]
    · have hne : k ≠ e.1 := by
        intro heq
        exact hnodup.1 (heq ▸ List.mem_map.mpr ⟨_, hk, rfl⟩)
      rw [if_neg hne] at hstep
      rw [ih h.tail hkept hnodup.2 hk, hstep]

end KeyedFold

/-! ## Folds that only add -/

/-- What one job of a list adds to an output that no job takes from is there after the pass. -/
theorem KeyedFold.mem_foldl_of_mem {σ : Type u} {α : Type v} {β : Type w} {step : σ → α → σ}
    (out : σ → List β) (hkeeps : ∀ s a, out s ⊆ out (step s a)) {l : List α} {x : β} {s : σ}
    (hx : x ∈ out s ∨ ∃ a ∈ l, ∀ s, x ∈ out (step s a)) : x ∈ out (l.foldl step s) := by
  induction l generalizing s with
  | nil =>
    rcases hx with hx | ⟨a, ha, -⟩
    · exact hx
    · cases ha
  | cons a l ih =>
    refine ih ?_
    rcases hx with hx | ⟨a', ha', hx⟩
    · exact Or.inl (hkeeps s a hx)
    · rcases List.mem_cons.mp ha' with rfl | ha'
      · exact Or.inl (hx s)
      · exact Or.inr ⟨a', ha', hx⟩

/-! ## Passes that may fail -/

theorem EStateM.bind_eq_of_ok {σ ε α β : Type} {x : EStateM ε σ α} {f : α → EStateM ε σ β}
    {s t : σ} {a : α} (h : x s = .ok a t) : (x >>= f) s = f a t := by
  change EStateM.bind x f s = f a t
  rw [EStateM.bind, h]

theorem EStateM.bind_eq_ok_iff {σ ε α β : Type} {x : EStateM ε σ α} {f : α → EStateM ε σ β}
    {s t : σ} {b : β} :
    (x >>= f) s = .ok b t ↔ ∃ a u, x s = .ok a u ∧ f a u = .ok b t := by
  constructor
  · intro h
    rcases hx : x s with ⟨a, u⟩ | ⟨e, u⟩
    · exact ⟨a, u, rfl, (EStateM.bind_eq_of_ok hx).symm.trans h⟩
    · change EStateM.bind x f s = _ at h
      rw [EStateM.bind, hx] at h
      cases h
  · rintro ⟨a, u, hx, hf⟩
    exact (EStateM.bind_eq_of_ok hx).trans hf

section Passes

variable {σ ε α : Type} {act : α → EStateM ε σ Unit} {s t : σ}

theorem EStateM.forM_nil_eq_ok : ([] : List α).forM act s = .ok () t ↔ s = t := by
  change EStateM.Result.ok () s = .ok () t ↔ s = t
  rw [EStateM.Result.ok.injEq, eq_self_iff_true, true_and]

theorem EStateM.forM_cons_eq_ok {a : α} {l : List α} : (a :: l).forM act s = .ok () t ↔
    ∃ u, act a s = .ok () u ∧ l.forM act u = .ok () t := by
  rw [List.forM_eq_forM, List.forM_cons, EStateM.bind_eq_ok_iff]
  exact ⟨fun ⟨_, u, hact, hrest⟩ ↦ ⟨u, hact, hrest⟩, fun ⟨u, hact, hrest⟩ ↦ ⟨(), u, hact, hrest⟩⟩

theorem EStateM.forM_append_eq_ok {l l' : List α} : (l ++ l').forM act s = .ok () t ↔
    ∃ u, l.forM act s = .ok () u ∧ l'.forM act u = .ok () t := by
  induction l generalizing s with
  | nil =>
    rw [List.nil_append]
    constructor
    · intro h
      exact ⟨s, rfl, h⟩
    · rintro ⟨u, hu, h⟩
      obtain rfl := EStateM.forM_nil_eq_ok.mp hu
      exact h
  | cons a l ih =>
    rw [List.cons_append, EStateM.forM_cons_eq_ok]
    constructor
    · rintro ⟨v, hact, hrest⟩
      obtain ⟨u, hu, h⟩ := ih.mp hrest
      exact ⟨u, EStateM.forM_cons_eq_ok.mpr ⟨v, hact, hu⟩, h⟩
    · rintro ⟨u, hu, h⟩
      obtain ⟨v, hact, hrest⟩ := EStateM.forM_cons_eq_ok.mp hu
      exact ⟨v, hact, ih.mpr ⟨u, hrest, h⟩⟩

theorem EStateM.exists_of_forM_eq_error {l : List α} {e : ε} (h : l.forM act s = .error e t) :
    ∃ before a after u, l = before ++ a :: after ∧ before.forM act s = .ok () u ∧
      act a u = .error e t := by
  induction l generalizing s with
  | nil => cases h
  | cons a l ih =>
    rw [List.forM_eq_forM, List.forM_cons] at h
    rcases hact : act a s with ⟨_, u⟩ | ⟨e', u⟩
    · obtain ⟨before, b, after, v, rfl, hbefore, herror⟩ :=
        ih ((EStateM.bind_eq_of_ok hact).symm.trans h)
      exact ⟨a :: before, b, after, v, rfl, EStateM.forM_cons_eq_ok.mpr ⟨u, hact, hbefore⟩, herror⟩
    · change EStateM.bind (act a) _ s = _ at h
      rw [EStateM.bind, hact] at h
      cases h
      exact ⟨[], a, l, s, rfl, rfl, hact⟩

end Passes

/-- **A pass of keyed steps that succeed**: the keys with a step see what it made, the others no
change. -/
theorem KeyedFold.exists_forM {σ ε α : Type} {K : Type v} {γ : Type x} [DecidableEq K]
    (key : α → K) (view : K → σ → γ) (before after : α → γ) (act : α → EStateM ε σ Unit)
    {l : List α} (h : ∀ a ∈ l, ∀ s, view (key a) s = before a → ∃ s', act a s = .ok () s' ∧
      ∀ k, view k s' = if k = key a then after a else view k s)
    (hnodup : (l.map key).Nodup) (s : σ) (hs : ∀ a ∈ l, view (key a) s = before a) :
    ∃ s', l.forM act s = .ok () s' ∧ (∀ a ∈ l, view (key a) s' = after a) ∧
      ∀ k ∉ l.map key, view k s' = view k s := by
  induction l generalizing s with
  | nil => exact ⟨s, rfl, nofun, fun _ _ ↦ rfl⟩
  | cons a l ih =>
    rw [List.map_cons, List.nodup_cons] at hnodup
    obtain ⟨s₁, hact, hview⟩ := h a List.mem_cons_self s (hs a List.mem_cons_self)
    have hs₁ : ∀ b ∈ l, view (key b) s₁ = before b := by
      intro b hb
      have hne : key b ≠ key a := by
        intro heq
        exact hnodup.1 (heq ▸ List.mem_map_of_mem hb)
      rw [hview, if_neg hne, hs b (List.mem_cons_of_mem _ hb)]
    obtain ⟨s₂, hrest, hown, hother⟩ :=
      ih (fun b hb ↦ h b (List.mem_cons_of_mem _ hb)) hnodup.2 s₁ hs₁
    refine ⟨s₂, ?_, fun b hb ↦ ?_, fun k hk ↦ ?_⟩
    · exact (EStateM.bind_eq_of_ok hact).trans hrest
    · rcases List.mem_cons.mp hb with rfl | hb
      · rw [hother _ hnodup.1, hview, if_pos rfl]
      · exact hown b hb
    · rw [List.map_cons, List.mem_cons, not_or] at hk
      rw [hother k hk.2, hview, if_neg hk.1]
