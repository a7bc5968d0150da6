import Mathlib.Data.List.Basic

/-!
# Since

The past-time operator over histories: `Since start stop h` says that something started in the
history `h`, and nothing has stopped it after. Starting may depend on what came before.
-/

universe u

variable {α : Type u}

def Since (start : List α → α → Prop) (stop : α → Prop) (h : List α) : Prop :=
  ∃ before e after, h = before ++ e :: after ∧ start before e ∧ ∀ e' ∈ after, ¬ stop e'

namespace Since

variable {start : List α → α → Prop} {stop : α → Prop} {h h₁ h₂ : List α} {e : α}

theorem not_nil : ¬ Since start stop [] := by
  rintro ⟨before, e, after, heq, -, -⟩
  rw [List.nil_eq_append_iff] at heq
  exact absurd heq.2 nofun

theorem append_iff : Since start stop (h₁ ++ h₂) ↔
    Since (fun before e ↦ start (h₁ ++ before) e) stop h₂ ∨
      (Since start stop h₁ ∧ ∀ e ∈ h₂, ¬ stop e) := by
  constructor
  · rintro ⟨before, e, after, heq, hstart, hstop⟩
    rcases List.append_eq_append_iff.mp heq with ⟨middle, rfl, hmiddle⟩ | ⟨middle, rfl, hmiddle⟩
    · exact Or.inl ⟨middle, e, after, hmiddle, hstart, hstop⟩
    · rcases middle with _ | ⟨e', middle⟩
      · refine Or.inl ⟨[], e, after, ?_, ?_, hstop⟩
        · exact hmiddle.symm
        · rwa [List.append_nil, List.append_nil] at *
      · obtain ⟨rfl, rfl⟩ := List.cons_eq_cons.mp hmiddle
        refine Or.inr ⟨⟨before, e, middle, rfl, hstart, fun e' he' ↦ ?_⟩, fun e' he' ↦ ?_⟩
        · exact hstop e' (List.mem_append_left _ he')
        · exact hstop e' (List.mem_append_right _ he')
  · rintro (⟨before, e, after, rfl, hstart, hstop⟩ |
      ⟨⟨before, e, after, rfl, hstart, hstop⟩, hlater⟩)
    · exact ⟨h₁ ++ before, e, after, (List.append_assoc ..).symm, hstart, hstop⟩
    · refine ⟨before, e, after ++ h₂, ?_, hstart, fun e' he' ↦ ?_⟩
      · rw [List.append_assoc, List.cons_append]
      · rcases List.mem_append.mp he' with he' | he'
        · exact hstop e' he'
        · exact hlater e' he'

theorem concat_iff :
    Since start stop (h ++ [e]) ↔ start h e ∨ (Since start stop h ∧ ¬ stop e) := by
  rw [append_iff]
  refine or_congr ⟨?_, fun hstart ↦ ⟨[], e, [], rfl, ?_, nofun⟩⟩ (and_congr Iff.rfl ?_)
  · rintro ⟨before, e', after, heq, hstart, -⟩
    obtain ⟨rfl, heq⟩ := List.append_eq_singleton_iff.mp heq.symm |>.resolve_right fun h ↦
      absurd h.2 nofun
    obtain ⟨rfl, rfl⟩ := List.cons_eq_cons.mp heq
    rwa [List.append_nil] at hstart
  · simpa only [List.append_nil] using hstart
  · rw [List.forall_mem_singleton]

theorem after_mark {m : α} (h : Since start stop (h₁ ++ m :: h₂)) (hbefore : ¬ Since start stop h₁)
    (hm : ¬ start h₁ m) :
    Since (fun before e ↦ start before e ∧ m ∈ before) stop (h₁ ++ m :: h₂) := by
  rw [List.append_cons] at h ⊢
  rcases append_iff.mp h with ⟨before, e, after, rfl, hstart, hstop⟩ | ⟨hmark, -⟩
  · refine append_iff.mpr (Or.inl ⟨before, e, after, rfl, ⟨hstart, ?_⟩, hstop⟩)
    simp
  · rcases concat_iff.mp hmark with hstart | ⟨hstart, -⟩
    · exact absurd hstart hm
    · exact absurd hstart hbefore

theorem concat_split {before after : List α} {m : α} (heq : h ++ [e] = before ++ m :: after) :
    (h = before ∧ e = m ∧ after = []) ∨ ∃ rest, after = rest ++ [e] ∧ h = before ++ m :: rest := by
  rcases List.eq_nil_or_concat after with rfl | ⟨rest, e', rfl⟩
  · obtain ⟨rfl, hlast⟩ := List.append_inj' heq rfl
    exact Or.inl ⟨rfl, (List.cons_eq_cons.mp hlast).1, rfl⟩
  · rw [List.concat_eq_append, ← List.cons_append, ← List.append_assoc] at heq
    obtain ⟨rfl, hlast⟩ := List.append_inj' heq rfl
    obtain ⟨rfl, -⟩ := List.cons_eq_cons.mp hlast
    exact Or.inr ⟨rest, List.concat_eq_append, rfl⟩

theorem iff_exists_fin : Since start stop h ↔
    ∃ n : Fin h.length, start (h.take n) h[n] ∧ ∀ e ∈ h.drop (n + 1), ¬ stop e := by
  constructor
  · rintro ⟨before, e, after, rfl, hstart, hstop⟩
    refine ⟨⟨before.length, by simp⟩, ?_, ?_⟩
    · simpa using hstart
    · simpa [List.drop_append, List.drop_of_length_le] using hstop
  · rintro ⟨n, hstart, hstop⟩
    refine ⟨h.take n, h[n], h.drop (n + 1), ?_, hstart, hstop⟩
    rw [Fin.getElem_fin, List.getElem_cons_drop, List.take_append_drop]

instance decidable [∀ h e, Decidable (start h e)] [DecidablePred stop] (h : List α) :
    Decidable (Since start stop h) :=
  decidable_of_iff _ iff_exists_fin.symm

end Since
