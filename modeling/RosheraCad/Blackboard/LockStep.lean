import RosheraCad.Blackboard.Manager

/-!
# Log and lines in lock-step

The log of a notebook always tells its lines. A line id is held once in a document in the runs in
which every add takes an id that no line of the document has, or posts a line again where it is.
-/

namespace RosheraCad

namespace Blackboard

/-- The calls for one document, from no notebook. -/
def boardSystem : GuardedSystem Board Call where
  init := ∅
  enabled := Board.Admits
  step b c := (b.call c).board

instance (b : Board) (c : Call) : Decidable (boardSystem.enabled b c) :=
  inferInstanceAs (Decidable (b.Admits c))

namespace Board

/-- No line id occurs twice among the notebooks. -/
structure IdsUnique (b : Board) : Prop where
  within : ∀ key, (b.read key).ids.Nodup
  across : ∀ key key' id, id ∈ (b.read key).ids → id ∈ (b.read key').ids → key = key'

/-- A call that names a line only acts on that line and no other, whatever the order of the map. -/
structure ActsOn (b : Board) (key : String) (line : BlackboardLine) : Prop where
  edits : ∀ keys, keys.Perm b.keys → ∀ text now, ∃ before after edited,
    (b.read key).lines = before ++ line :: after ∧
    edited = (if line.text = text then line else { line with text, updatedAt := now }) ∧
    (b.editAnyScope keys line.id text now).line = some edited ∧
    ∀ k, ((b.editAnyScope keys line.id text now).board.read k).lines =
      if k = key then before ++ edited :: after else (b.read k).lines
  deletes : ∀ keys, keys.Perm b.keys → ∀ now, ∃ before after,
    (b.read key).lines = before ++ line :: after ∧
    (b.deleteAnyScope keys line.id now).line = some line ∧
    ∀ k, ((b.deleteAnyScope keys line.id now).board.read k).lines =
      if k = key then before ++ after else (b.read k).lines

/-- Every log tells its lines, an id names one line, and the calls that name a line only act on it.
-/
structure LockStep (b : Board) : Prop where
  in_step : ∀ key, (b.read key).InStep
  unique : b.IdsUnique
  acts : ∀ key, ∀ line ∈ (b.read key).lines, b.ActsOn key line

/-- An add takes an id that no line of the document has, or posts a line again in its notebook. -/
def AddsNewId (b : Board) : Call → Prop
  | .add scope lineId _ _ idTime _ =>
    (∃ line ∈ (b.read scope.key).lines, lineId = some line.id) ∨
      ∀ key, (b.read scope.key).addedId lineId idTime ∉ (b.read key).ids
  | _ => True

end Board

/-! ## Logs -/

theorem inStep_of_reachable {G : Board → Call → Prop} {b : Board}
    (h : boardSystem.ReachableUnder G b) (key : String) : (b.read key).InStep := by
  revert key
  refine h.invariant (fun b ↦ ∀ key, (b.read key).InStep) (fun key ↦ ?_) ?_
  · rw [Board.read, boardSystem, Std.ExtTreeMap.getElem?_empty]
    rfl
  · intro b c _ ih _ _ key
    obtain ⟨-, hsame⟩ | ⟨key', change, -, -, -, hchanged⟩ := b.call_cases c
    · exact (hsame.read_eq key).symm ▸ ih key
    · obtain ⟨nb, happly, -, hread⟩ := hchanged.applied
      show ((b.call c).board.read key).InStep
      rw [hread]
      split_ifs
      · exact (ih key').apply happly
      · exact ih key

namespace Board

variable {b : Board}

/-- **A call keeps the ids unique** when an add takes a new one. -/
theorem IdsUnique.call (h : b.IdsUnique) {c : Call} (hnew : b.AddsNewId c) :
    (b.call c).board.IdsUnique := by
  obtain ⟨-, hsame⟩ | ⟨key, change, scope, hchange, hscope, hchanged⟩ := b.call_cases c
  · exact ⟨fun k ↦ hsame.read_eq k ▸ h.within k, fun k k' id ↦ by
      rw [hsame.read_eq, hsame.read_eq]
      exact h.across k k' id⟩
  · obtain ⟨nb, happly, -, hread⟩ := hchanged.applied
    rcases Notebook.ids_apply happly with hsub | ⟨id, text, author, idTime, now, rfl, hnot, hids⟩
    · have hsubset : ∀ k, ((b.call c).board.read k).ids.Sublist (b.read k).ids := by
        intro k
        rw [hread]
        split_ifs with hk
        · exact hk ▸ hsub
        · exact List.Sublist.refl _
      exact ⟨fun k ↦ (h.within k).sublist (hsubset k), fun k k' id hid hid' ↦
        h.across k k' id ((hsubset k).subset hid) ((hsubset k').subset hid')⟩
    · -- Only an add appends an id, and the id it takes is new in every notebook.
      have hfresh : ∀ k, (b.read key).addedId id idTime ∉ (b.read k).ids := by
        cases c with
        | add scope' =>
          obtain ⟨⟨⟩, rfl⟩ := Prod.mk.inj (Option.some_inj.mp hchange)
          obtain rfl := hscope _ rfl
          rcases hnew with ⟨line, hline, heq⟩ | hnew
          · exact absurd heq (hnot line hline)
          · exact hnew
        | _ => cases hchange
      have hids' : ∀ k, ((b.call c).board.read k).ids =
          if k = key then (b.read key).ids ++ [(b.read key).addedId id idTime]
          else (b.read k).ids := by
        intro k
        rw [hread]
        split_ifs
        · exact hids
        · rfl
      refine ⟨fun k ↦ ?_, fun k k' i hi hi' ↦ ?_⟩
      · rw [hids']
        split_ifs
        · exact List.nodup_append.mpr ⟨h.within key, List.nodup_singleton _, by
            rintro i hi j hj rfl
            exact hfresh key (List.mem_singleton.mp hj ▸ hi)⟩
        · exact h.within k
      · rw [hids'] at hi hi'
        split_ifs at hi hi' with hk hk' hk'
        · rw [hk, hk']
        · rcases List.mem_append.mp hi with hi | hi
          · exact hk ▸ h.across key k' i hi hi'
          · exact absurd (List.mem_singleton.mp hi ▸ hi') (hfresh k')
        · rcases List.mem_append.mp hi' with hi' | hi'
          · exact hk' ▸ h.across k key i hi hi'
          · exact absurd (List.mem_singleton.mp hi' ▸ hi) (hfresh k)
        · exact h.across k k' i hi hi'

theorem eq_of_ids_nodup {nb : Notebook} (h : nb.ids.Nodup) {line line' : BlackboardLine}
    (hline : line ∈ nb.lines) (hline' : line' ∈ nb.lines) (hid : line.id = line'.id) :
    line = line' := List.inj_on_of_nodup_map h hline hline' hid

theorem IdsUnique.changeAny_changed (h : b.IdsUnique) {key : String} {line : BlackboardLine}
    (hline : line ∈ (b.read key).lines) {c : Change}
    (hc : ∀ nb : Notebook, nb.apply c = none ↔ line.id ∉ nb.ids) {keys : List String}
    (hkeys : keys.Perm b.keys) : b.Changed key c (b.changeAny c keys) := by
  have hmem : line.id ∈ (b.read key).ids := Notebook.mem_ids.mpr ⟨line, hline, rfl⟩
  obtain ⟨nb, hnb⟩ : ∃ nb, b[key]? = some nb := by
    cases hnb : b[key]? with
    | some nb => exact ⟨nb, rfl⟩
    | none =>
      rw [read, hnb] at hline
      exact absurd hline List.not_mem_nil
  have hread : b.read key = nb := by rw [read, hnb, Option.getD_some]
  have hkey : key ∈ keys :=
    hkeys.mem_iff.mpr (Std.ExtTreeMap.mem_keys.mpr (OrderedMap.mem_of_getElem? hnb))
  obtain ⟨hnone, -⟩ | ⟨key', -, hchanged⟩ := b.changeAny_cases c keys
  · exact absurd (hread ▸ hmem) ((hc nb).mp (hnone key hkey nb hnb))
  · obtain ⟨nb', happly, -, -⟩ := hchanged.applied
    have hmem' : line.id ∈ (b.read key').ids := by
      by_contra hnot
      rw [(hc _).mpr hnot] at happly
      cases happly
    rwa [h.across key key' line.id hmem hmem']

theorem IdsUnique.actsOn (h : b.IdsUnique) {key : String} {line : BlackboardLine}
    (hline : line ∈ (b.read key).lines) : b.ActsOn key line := by
  have hsplit : ∀ before line' after, (b.read key).lines = before ++ line' :: after →
      line'.id = line.id → line' = line := fun before line' after hlines hid ↦
    eq_of_ids_nodup (h.within key)
      (hlines ▸ List.mem_append_right _ List.mem_cons_self) hline hid
  constructor
  · intro keys hkeys text now
    obtain ⟨hnot, -⟩ | ⟨before, line', after, hlines, hid, -, hedit⟩ :=
      (b.read key).edit_cases line.id text now
    · exact absurd rfl (hnot line hline)
    -- The first line with the id is the line itself.
    obtain rfl := hsplit before line' after hlines hid
    have hchanged := h.changeAny_changed hline (c := .edit line'.id text now)
      (fun _ ↦ Notebook.apply_edit_eq_none_iff) hkeys
    obtain ⟨nb, happly, -, hread⟩ := hchanged.applied
    rw [Notebook.apply] at happly
    rcases hedit with ⟨htext, heq⟩ | ⟨htext, heq⟩
    · rw [heq] at happly
      obtain ⟨hanswer, rfl⟩ := Prod.mk.inj (Option.some_inj.mp happly)
      refine ⟨before, after, line', hlines, (if_pos htext).symm, hanswer.symm, fun k ↦ ?_⟩
      rw [editAnyScope, hread]
      split_ifs
      · exact hlines
      · rfl
    · rw [heq] at happly
      obtain ⟨hanswer, rfl⟩ := Prod.mk.inj (Option.some_inj.mp happly)
      refine ⟨before, after, _, hlines, (if_neg htext).symm, hanswer.symm, fun k ↦ ?_⟩
      rw [editAnyScope, hread]
      split_ifs <;> rfl
  · intro keys hkeys now
    obtain ⟨hnot, -⟩ | ⟨before, line', after, hlines, hid, -, hdelete⟩ :=
      (b.read key).delete_cases line.id now
    · exact absurd rfl (hnot line hline)
    obtain rfl := hsplit before line' after hlines hid
    have hchanged := h.changeAny_changed hline (c := .delete line'.id now)
      (fun _ ↦ Notebook.apply_delete_eq_none_iff) hkeys
    obtain ⟨nb, happly, -, hread⟩ := hchanged.applied
    rw [Notebook.apply, hdelete] at happly
    obtain ⟨hanswer, rfl⟩ := Prod.mk.inj (Option.some_inj.mp happly)
    refine ⟨before, after, hlines, hanswer.symm, fun k ↦ ?_⟩
    rw [deleteAnyScope, hread]
    split_ifs <;> rfl

end Board

end Blackboard

end RosheraCad
