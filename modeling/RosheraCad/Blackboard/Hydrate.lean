import RosheraCad.Blackboard.Manager

/-!
# Hydration

At start the notebooks of a document are rebuilt from its rows, except those in memory. But a
notebook is made as soon as anything asks for it, and then its row is passed over and the next write
replaces it.
-/

namespace RosheraCad

namespace Blackboard

def PersistedNotebook.notebook (state : PersistedNotebook) : Notebook :=
  ⟨state.lines, state.events, state.counter⟩

/-- Rebuild a document's notebooks from its rows, but for those in memory and unreadable rows. -/
def Board.hydrate {V : Type} (decode : V → Option PersistedNotebook) (b : Board) :
    List (String × V) → Board × ℕ
  | [] => (b, 0)
  | (key, data) :: rows =>
    match decode data with
    | none => Board.hydrate decode b rows
    | some state =>
      match b[key]? with
      | some _ => Board.hydrate decode b rows
      | none =>
        let (b, restored) := Board.hydrate decode (b.insert key state.notebook) rows
        (b, restored + 1)

structure DocumentRows where
  rows : List (String × PersistedNotebook)
  nodup : (rows.map Prod.fst).Nodup

structure Hydration where
  board : Board
  hydrated : Bool
  /-- The lines of the rows that a delete or a clear took out, by notebook and id. -/
  removed : List (String × String)
  written : Option NotebookWrite

inductive HydrationStep where
  | call (c : Call)
  | hydrate

namespace DocumentRows

variable (rows : DocumentRows)

def removedBy (c : Call) (a : Answer) : List (String × String) :=
  match c.change?, a.write with
  | some (.delete id _, _), some write => [(write.scopeKey, id)]
  | some (.clear, _), some write =>
    (rows.rows.filter (·.1 = write.scopeKey)).flatMap fun row ↦
      row.2.lines.map fun line ↦ (write.scopeKey, line.id)
  | _, _ => []

def step (s : Hydration) : HydrationStep → Hydration
  | .call c =>
    let a := s.board.call c
    { s with board := a.board, removed := s.removed ++ rows.removedBy c a, written := a.write }
  | .hydrate =>
    { s with board := (s.board.hydrate some rows.rows).1, hydrated := true, written := none }

/-- The calls for a document, with one hydration. -/
def system : GuardedSystem Hydration HydrationStep where
  init := ⟨∅, false, [], none⟩
  enabled s
    | .call c => s.board.Admits c
    | .hydrate => s.hydrated = false
  step := rows.step

instance (s : Hydration) : ∀ i, Decidable (rows.system.enabled s i)
  | .call c => inferInstanceAs (Decidable (s.board.Admits c))
  | .hydrate => inferInstanceAs (Decidable (s.hydrated = false))

def Keeps (s : Hydration) (key id : String) : Prop :=
  (∃ state, (key, state) ∈ rows.rows ∧ ∃ line ∈ state.lines, line.id = id) ∧ (key, id) ∉ s.removed

/-- Every line of the rows is in its notebook unless taken out, and in what was handed over of it.
-/
structure NothingLost (s : Hydration) : Prop where
  in_memory : ∀ key id, rows.Keeps s key id → id ∈ (s.board.read key).ids
  in_writes : ∀ key id, rows.Keeps s key id → ∀ write, s.written = some write →
    write.scopeKey = key → ∃ line ∈ write.state.lines, line.id = id

/-- When the rows come in, a notebook in memory has the lines of its row that were not taken out. -/
def InMemoryFirst (s : Hydration) : HydrationStep → Prop
  | .call _ => True
  | .hydrate => ∀ key id, key ∈ s.board → rows.Keeps s key id → id ∈ (s.board.read key).ids

end DocumentRows

/-! ## The hydration -/

theorem Board.read_hydrate_of_mem (rows : List (String × PersistedNotebook)) (b : Board)
    {key : String} (hkey : key ∈ b) : (b.hydrate some rows).1.read key = b.read key := by
  induction rows generalizing b with
  | nil => rfl
  | cons row rows ih =>
    rw [hydrate]
    cases hb : b[row.1]? with
    | some nb => exact ih b hkey
    | none =>
      have hne : key ≠ row.1 := by
        rintro rfl
        exact OrderedMap.not_mem_iff.mpr hb hkey
      dsimp only
      rw [ih _ (Std.ExtTreeMap.mem_insert.mpr (.inr hkey)), read_insert, if_neg hne]

theorem Board.read_hydrate {rows : List (String × PersistedNotebook)} (b : Board)
    (hnodup : (rows.map Prod.fst).Nodup) {key : String} {state : PersistedNotebook}
    (hrow : (key, state) ∈ rows) : (b.hydrate some rows).1.read key =
      if key ∈ b then b.read key else state.notebook := by
  induction rows generalizing b with
  | nil => exact absurd hrow List.not_mem_nil
  | cons row rows ih =>
    rw [List.map_cons, List.nodup_cons] at hnodup
    rw [hydrate]
    rcases List.mem_cons.mp hrow with rfl | hrow
    · cases hb : b[key]? with
      | some nb =>
        have hkey : key ∈ b := OrderedMap.mem_of_getElem? hb
        dsimp only
        rw [read_hydrate_of_mem rows b hkey, if_pos hkey]
      | none =>
        -- Its row puts it in memory, where no later row reaches it.
        dsimp only
        rw [read_hydrate_of_mem rows _ Std.ExtTreeMap.mem_insert_self, read_insert, if_pos rfl,
          if_neg (OrderedMap.not_mem_iff.mpr hb)]
    · have hne : key ≠ row.1 := by
        rintro rfl
        exact hnodup.1 (List.mem_map.mpr ⟨_, hrow, rfl⟩)
      cases hb : b[row.1]? with
      | some nb => exact ih b hnodup.2 hrow
      | none =>
        have hiff : key ∈ b.insert row.1 row.2.notebook ↔ key ∈ b := by
          rw [OrderedMap.mem_iff_exists, OrderedMap.lookup_insert, if_neg hne,
            ← OrderedMap.mem_iff_exists]
        dsimp only
        rw [ih _ hnodup.2 hrow, read_insert, if_neg hne]
        simp only [hiff]

/-! ## Calls -/

namespace DocumentRows

variable {rows : DocumentRows} {s : Hydration}

/-- **A call keeps every line** that it does not take out. -/
theorem NothingLost.call (h : rows.NothingLost s) (c : Call) :
    rows.NothingLost (rows.step s (.call c)) := by
  have hkeeps : ∀ key id, rows.Keeps (rows.step s (.call c)) key id → rows.Keeps s key id :=
    fun key id hk ↦ ⟨hk.1, fun hmem ↦ hk.2 (List.mem_append_left _ hmem)⟩
  have hmemory : ∀ key id, rows.Keeps (rows.step s (.call c)) key id →
      id ∈ ((s.board.call c).board.read key).ids := by
    intro key id hk
    have hid := h.in_memory key id (hkeeps key id hk)
    obtain ⟨-, hsame⟩ | ⟨key', change, scope, hchange, -, hchanged⟩ := s.board.call_cases c
    · rwa [hsame.read_eq]
    · obtain ⟨nb, happly, hwrite, hread⟩ := hchanged.applied
      rw [hread]
      split_ifs with hkey
      · subst hkey
        have hnot : (key, id) ∉ rows.removedBy c (s.board.call c) := fun hmem ↦
          hk.2 (List.mem_append_right _ hmem)
        obtain hid | ⟨now, rfl⟩ | rfl := Notebook.mem_ids_apply happly hid
        · exact hid
        · simp [removedBy, hchange, hwrite] at hnot
        · obtain ⟨⟨state, hrow, line, hline, rfl⟩, -⟩ := hk
          refine absurd ?_ hnot
          rw [removedBy, hchange, hwrite]
          exact List.mem_flatMap.mpr ⟨(key, state), List.mem_filter.mpr ⟨hrow, by simp⟩,
            List.mem_map.mpr ⟨line, hline, rfl⟩⟩
      · exact hid
  refine ⟨hmemory, fun key id hk write hwritten hkey ↦ ?_⟩
  obtain ⟨hnone, -⟩ | ⟨key', change, scope, -, -, hchanged⟩ := s.board.call_cases c
  · rw [step] at hwritten
    cases hnone.symm.trans hwritten
  · obtain ⟨nb, -, hwrite, hread⟩ := hchanged.applied
    obtain rfl := Option.some_inj.mp (hwrite.symm.trans hwritten)
    have hid := hmemory key id hk
    rw [hread, if_pos hkey.symm] at hid
    exact Notebook.mem_ids.mp hid

/-- **The hydration keeps every line** when the notebooks in memory have those of their rows. -/
theorem NothingLost.hydrate (hfirst : rows.InMemoryFirst s .hydrate) :
    rows.NothingLost (rows.step s .hydrate) := by
  refine ⟨fun key id hk ↦ ?_, fun _ _ _ _ hwritten ↦ nomatch hwritten⟩
  obtain ⟨⟨state, hrow, line, hline, hid⟩, hnot⟩ := hk
  show id ∈ ((s.board.hydrate some rows.rows).1.read key).ids
  rw [Board.read_hydrate _ rows.nodup hrow]
  split_ifs with hkey
  · exact hfirst key id hkey ⟨⟨state, hrow, line, hline, hid⟩, hnot⟩
  · exact Notebook.mem_ids.mpr ⟨line, hline, hid⟩

end DocumentRows

def exampleRows : DocumentRows :=
  ⟨[("document", ⟨[Notebook.newLine "bb-1-1" "a" .user 1], [], 1⟩)], by decide⟩

end Blackboard

end RosheraCad
