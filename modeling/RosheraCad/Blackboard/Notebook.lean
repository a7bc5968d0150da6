import RosheraCad.Library.OrderedMap
import Mathlib.Algebra.Group.Nat.Defs

/-!
# Notebooks

A blackboard notebook is an ordered list of lines and a log of what was added, edited and deleted. A
line is known by its id, which the client supplies or the notebook draws. The log, replayed from
nothing, gives the lines.
-/

namespace RosheraCad

namespace Blackboard

inductive LineAuthor where
  | user
  | agent
  | system
  deriving DecidableEq

structure BlackboardLine where
  id : String
  text : String
  author : LineAuthor
  createdAt : ℕ
  updatedAt : ℕ
  partId : Option ℕ
  partUuid : Option String
  deriving DecidableEq

inductive BlackboardEvent where
  | add (lineId text : String) (author : LineAuthor) (time index : ℕ)
  | edit (lineId before after : String) (time : ℕ)
  | delete (lineId text : String) (time index : ℕ)
  deriving DecidableEq

structure BlackboardSnapshot where
  lines : List BlackboardLine
  events : List BlackboardEvent
  deriving DecidableEq

structure PersistedNotebook where
  lines : List BlackboardLine
  events : List BlackboardEvent
  counter : ℕ
  deriving DecidableEq

structure Notebook where
  lines : List BlackboardLine
  events : List BlackboardEvent
  /-- The counter that line ids are drawn from, a 64-bit number. -/
  counter : ℕ
  deriving DecidableEq

namespace Notebook

/-- The notebook without lines. -/
def empty : Notebook := ⟨[], [], 0⟩

variable (nb : Notebook)

def snapshot : BlackboardSnapshot := ⟨nb.lines, nb.events⟩

def persisted : PersistedNotebook := ⟨nb.lines, nb.events, nb.counter⟩

/-- Draw a line id from the clock and the counter. -/
def nextId (now : ℕ) : String × Notebook :=
  let counter := (nb.counter + 1) % 2 ^ 64
  ("bb-" ++ toString now ++ "-" ++ toString counter, { nb with counter })

def newLine (id text : String) (author : LineAuthor) (now : ℕ) : BlackboardLine :=
  { id, text, author, createdAt := now, updatedAt := now, partId := none, partUuid := none }

/-- Append a line under the given id, or a new one, unless there is one. The clock is read twice. -/
def add (id : Option String) (text : String) (author : LineAuthor) (idTime now : ℕ) :
    BlackboardLine × Notebook :=
  match id.bind fun supplied ↦ nb.lines.find? (·.id = supplied) with
  | some existing => (existing, nb)
  | none =>
    let (id, nb) :=
      match id with
      | some id => (id, nb)
      | none => nb.nextId idTime
    let line := newLine id text author now
    (line, { nb with
      lines := nb.lines ++ [line]
      events := nb.events ++ [.add id text author now nb.lines.length] })

/-- Replace the text of the first line with an id. The same text again logs nothing. -/
def edit (id text : String) (now : ℕ) : Option (BlackboardLine × Notebook) := do
  let pos ← nb.lines.findIdx? (·.id = id)
  let line ← nb.lines[pos]?
  if line.text = text then
    return (line, nb)
  let edited := { line with text, updatedAt := now }
  return (edited, { nb with
    lines := nb.lines.set pos edited
    events := nb.events ++ [.edit id line.text text now] })

def delete (id : String) (now : ℕ) : Option (BlackboardLine × Notebook) := do
  let pos ← nb.lines.findIdx? (·.id = id)
  let removed ← nb.lines[pos]?
  return (removed, { nb with
    lines := nb.lines.eraseIdx pos
    events := nb.events ++ [.delete id removed.text now pos] })

def clear : Notebook := { nb with lines := [], events := [] }

end Notebook

inductive Change where
  | add (id : Option String) (text : String) (author : LineAuthor) (idTime now : ℕ)
  | edit (id text : String) (now : ℕ)
  | delete (id : String) (now : ℕ)
  | clear
  deriving DecidableEq

def Notebook.apply (nb : Notebook) : Change → Option (Option BlackboardLine × Notebook)
  | .add id text author idTime now =>
    let (line, nb) := nb.add id text author idTime now
    some (some line, nb)
  | .edit id text now => (nb.edit id text now).map fun (line, nb) ↦ (some line, nb)
  | .delete id now => (nb.delete id now).map fun (line, nb) ↦ (some line, nb)
  | .clear => some (none, nb.clear)

/-! ## What a change does -/

variable {line : Option BlackboardLine} {c : Change}

namespace Notebook

variable {nb nb' : Notebook} {id text : String} {author : LineAuthor} {idTime now : ℕ}

theorem findIdx?_id_cases (lines : List BlackboardLine) (id : String) :
    (lines.findIdx? (·.id = id) = none ∧ ∀ l ∈ lines, l.id ≠ id) ∨
      ∃ before line after, lines = before ++ line :: after ∧ line.id = id ∧
        (∀ l ∈ before, l.id ≠ id) ∧ lines.findIdx? (·.id = id) = some before.length := by
  cases h : lines.findIdx? (·.id = id) with
  | none =>
    rw [List.findIdx?_eq_none_iff] at h
    exact .inl ⟨rfl, fun l hl ↦ of_decide_eq_false (h l hl)⟩
  | some pos =>
    obtain ⟨hpos, hid, hbefore⟩ := List.findIdx?_eq_some_iff_getElem.mp h
    refine .inr
      ⟨lines.take pos, lines[pos], lines.drop (pos + 1), ?_, of_decide_eq_true hid, ?_, ?_⟩
    · rw [← List.drop_eq_getElem_cons hpos, List.take_append_drop]
    · intro l hl
      obtain ⟨j, hj, rfl⟩ := List.mem_take_iff_getElem.mp hl
      exact of_decide_eq_false (Bool.eq_false_iff.mpr (hbefore j (by omega)))
    · rw [List.length_take_of_le hpos.le]

/-- **What an edit does**: nothing without the line, else it replaces its text. -/
theorem edit_cases (nb : Notebook) (id text : String) (now : ℕ) :
    ((∀ l ∈ nb.lines, l.id ≠ id) ∧ nb.edit id text now = none) ∨
      ∃ before line after, nb.lines = before ++ line :: after ∧ line.id = id ∧
        (∀ l ∈ before, l.id ≠ id) ∧
        ((line.text = text ∧ nb.edit id text now = some (line, nb)) ∨
          (line.text ≠ text ∧ nb.edit id text now =
            some ({ line with text, updatedAt := now },
              { nb with
                lines := before ++ { line with text, updatedAt := now } :: after
                events := nb.events ++ [.edit id line.text text now] }))) := by
  obtain ⟨hnone, hall⟩ | ⟨before, line, after, hlines, hid, hbefore, hpos⟩ :=
    findIdx?_id_cases nb.lines id
  · exact .inl ⟨hall, by rw [edit, hnone]; rfl⟩
  · have hget : nb.lines[before.length]? = some line := by
      rw [hlines, List.getElem?_append_right le_rfl, Nat.sub_self, List.getElem?_cons_zero]
    refine .inr ⟨before, line, after, hlines, hid, hbefore, ?_⟩
    by_cases htext : line.text = text
    · refine .inl ⟨htext, ?_⟩
      simp only [edit, hpos, hget, htext, Option.bind_eq_bind, Option.bind_some, if_true]
      rfl
    · refine .inr ⟨htext, ?_⟩
      simp only [edit, hpos, hget, htext, Option.bind_eq_bind, Option.bind_some, if_false]
      rw [hlines, List.set_append_right _ _ le_rfl, Nat.sub_self, List.set_cons_zero]
      rfl

/-- **What a delete does**: nothing without the line, else it takes the line out. -/
theorem delete_cases (nb : Notebook) (id : String) (now : ℕ) :
    ((∀ l ∈ nb.lines, l.id ≠ id) ∧ nb.delete id now = none) ∨
      ∃ before line after, nb.lines = before ++ line :: after ∧ line.id = id ∧
        (∀ l ∈ before, l.id ≠ id) ∧ nb.delete id now =
          some (line, { nb with
            lines := before ++ after
            events := nb.events ++ [.delete id line.text now before.length] }) := by
  obtain ⟨hnone, hall⟩ | ⟨before, line, after, hlines, hid, hbefore, hpos⟩ :=
    findIdx?_id_cases nb.lines id
  · exact .inl ⟨hall, by rw [delete, hnone]; rfl⟩
  · have hget : nb.lines[before.length]? = some line := by
      rw [hlines, List.getElem?_append_right le_rfl, Nat.sub_self, List.getElem?_cons_zero]
    refine .inr ⟨before, line, after, hlines, hid, hbefore, ?_⟩
    simp only [delete, hpos, hget, Option.bind_eq_bind, Option.bind_some]
    rw [hlines, List.eraseIdx_append_of_length_le le_rfl, Nat.sub_self, List.eraseIdx_cons_zero]
    rfl

def addedId (nb : Notebook) (id : Option String) (idTime : ℕ) : String :=
  id.getD (nb.nextId idTime).1

/-- **What an add does**: nothing when the supplied id is there, else it appends a line. -/
theorem add_cases (nb : Notebook) (id : Option String) (text : String) (author : LineAuthor)
    (idTime now : ℕ) :
    (∃ line ∈ nb.lines, id = some line.id ∧ nb.add id text author idTime now = (line, nb)) ∨
      ((∀ line ∈ nb.lines, id ≠ some line.id) ∧ ∃ counter,
        nb.add id text author idTime now =
          (newLine (nb.addedId id idTime) text author now,
            ⟨nb.lines ++ [newLine (nb.addedId id idTime) text author now],
              nb.events ++ [.add (nb.addedId id idTime) text author now nb.lines.length],
              counter⟩)) := by
  cases id with
  | none => exact .inr ⟨fun _ _ ↦ nofun, _, rfl⟩
  | some supplied =>
    cases h : nb.lines.find? (·.id = supplied) with
    | some line =>
      have hid := List.find?_some h
      refine .inl ⟨line, List.mem_of_find?_eq_some h, ?_, ?_⟩
      · rw [of_decide_eq_true hid]
      · rw [add, Option.bind_some, h]
    | none =>
      refine .inr ⟨fun line hline heq ↦ ?_, nb.counter, ?_⟩
      · exact List.find?_eq_none.mp h line hline (decide_eq_true (Option.some_inj.mp heq).symm)
      · rw [add, Option.bind_some, h]
        rfl

def ids (nb : Notebook) : List String := nb.lines.map (·.id)

theorem mem_ids {nb : Notebook} {id : String} : id ∈ nb.ids ↔ ∃ line ∈ nb.lines, line.id = id :=
  List.mem_map

theorem apply_edit_eq_none_iff : nb.apply (.edit id text now) = none ↔ id ∉ nb.ids := by
  rw [Notebook.apply, Option.map_eq_none_iff, mem_ids]
  obtain ⟨hall, hnone⟩ | ⟨before, line, after, hlines, hid, -, ⟨-, heq⟩ | ⟨-, heq⟩⟩ :=
    nb.edit_cases id text now
  · exact iff_of_true hnone fun ⟨line, hline, hid⟩ ↦ hall line hline hid
  all_goals
    rw [heq]
    exact iff_of_false nofun fun h ↦ h ⟨line, hlines ▸ by simp, hid⟩

theorem apply_delete_eq_none_iff : nb.apply (.delete id now) = none ↔ id ∉ nb.ids := by
  rw [Notebook.apply, Option.map_eq_none_iff, mem_ids]
  obtain ⟨hall, hnone⟩ | ⟨before, line, after, hlines, hid, -, heq⟩ := nb.delete_cases id now
  · exact iff_of_true hnone fun ⟨line, hline, hid⟩ ↦ hall line hline hid
  · rw [heq]
    exact iff_of_false nofun fun h ↦ h ⟨line, hlines ▸ by simp, hid⟩

/-- What a change leaves: the same notebook, or one line added, edited or taken out and logged. -/
inductive Applied (nb : Notebook) : Change → Notebook → Prop where
  | unchanged (c : Change) : Applied nb c nb
  | added {id : Option String} {text : String} {author : LineAuthor} {idTime now : ℕ}
      (counter : ℕ) (hnew : ∀ line ∈ nb.lines, id ≠ some line.id) :
      Applied nb (.add id text author idTime now)
        ⟨nb.lines ++ [newLine (nb.addedId id idTime) text author now],
          nb.events ++ [.add (nb.addedId id idTime) text author now nb.lines.length], counter⟩
  | edited {text : String} {now : ℕ} (before : List BlackboardLine) (line : BlackboardLine)
      (after : List BlackboardLine) (hlines : nb.lines = before ++ line :: after)
      (hbefore : ∀ l ∈ before, l.id ≠ line.id) :
      Applied nb (.edit line.id text now)
        { nb with
          lines := before ++ { line with text, updatedAt := now } :: after
          events := nb.events ++ [.edit line.id line.text text now] }
  | deleted {now : ℕ} (before : List BlackboardLine) (line : BlackboardLine)
      (after : List BlackboardLine) (hlines : nb.lines = before ++ line :: after)
      (hbefore : ∀ l ∈ before, l.id ≠ line.id) :
      Applied nb (.delete line.id now)
        { nb with
          lines := before ++ after
          events := nb.events ++ [.delete line.id line.text now before.length] }
  | cleared : Applied nb .clear nb.clear

section

variable (hc : nb.apply c = some (line, nb'))

include hc

theorem Applied.of_apply : Applied nb c nb' := by
  cases c with
  | add id text author idTime now =>
    rw [Notebook.apply] at hc
    obtain ⟨line, -, -, heq⟩ | ⟨hnew, counter, heq⟩ := nb.add_cases id text author idTime now
    · rw [heq] at hc
      obtain ⟨-, rfl⟩ := Prod.mk.inj (Option.some_inj.mp hc)
      exact .unchanged _
    · rw [heq] at hc
      obtain ⟨-, rfl⟩ := Prod.mk.inj (Option.some_inj.mp hc)
      exact .added counter hnew
  | edit id text now =>
    rw [Notebook.apply] at hc
    obtain ⟨-, hnone⟩ | ⟨before, line, after, hlines, rfl, hbefore, ⟨-, heq⟩ | ⟨-, heq⟩⟩ :=
      nb.edit_cases id text now
    · rw [hnone] at hc
      cases hc
    · rw [heq] at hc
      obtain ⟨-, rfl⟩ := Prod.mk.inj (Option.some_inj.mp hc)
      exact .unchanged _
    · rw [heq] at hc
      obtain ⟨-, rfl⟩ := Prod.mk.inj (Option.some_inj.mp hc)
      exact .edited before line after hlines hbefore
  | delete id now =>
    rw [Notebook.apply] at hc
    obtain ⟨-, hnone⟩ | ⟨before, line, after, hlines, rfl, hbefore, heq⟩ :=
      nb.delete_cases id now
    · rw [hnone] at hc
      cases hc
    · rw [heq] at hc
      obtain ⟨-, rfl⟩ := Prod.mk.inj (Option.some_inj.mp hc)
      exact .deleted before line after hlines hbefore
  | clear =>
    obtain ⟨-, rfl⟩ := Prod.mk.inj (Option.some_inj.mp hc)
    exact .cleared

theorem ids_apply :
    nb'.ids.Sublist nb.ids ∨ ∃ id text author idTime now, c = .add id text author idTime now ∧
      (∀ line ∈ nb.lines, id ≠ some line.id) ∧ nb'.ids = nb.ids ++ [nb.addedId id idTime] := by
  cases Applied.of_apply hc with
  | unchanged => exact .inl (List.Sublist.refl _)
  | added counter hnew => exact .inr ⟨_, _, _, _, _, rfl, hnew, List.map_append⟩
  | edited before line after hlines hbefore =>
    refine .inl ?_
    rw [ids, ids, hlines, List.map_append, List.map_append, List.map_cons, List.map_cons]
  | deleted before line after hlines hbefore =>
    refine .inl ?_
    rw [ids, ids, hlines]
    exact ((List.sublist_cons_self _ _).append_left _).map _
  | cleared => exact .inl (List.nil_sublist _)

theorem mem_ids_apply (hid : id ∈ nb.ids) :
    id ∈ nb'.ids ∨ (∃ now, c = .delete id now) ∨ c = .clear := by
  cases Applied.of_apply hc with
  | unchanged => exact .inl hid
  | added counter hnew =>
    refine .inl ?_
    rw [ids, List.map_append]
    exact List.mem_append_left _ hid
  | edited before line after hlines hbefore =>
    refine .inl ?_
    rw [ids, hlines, List.map_append, List.map_cons] at hid
    rwa [ids, List.map_append, List.map_cons]
  | @deleted now before line after hlines hbefore =>
    -- Only the id of the line taken out can be missing.
    rw [ids, hlines, List.map_append, List.map_cons, List.mem_append, List.mem_cons] at hid
    rw [ids, List.map_append, List.mem_append]
    rcases hid with hid | rfl | hid
    · exact .inl (.inl hid)
    · exact .inr (.inl ⟨now, rfl⟩)
    · exact .inl (.inr hid)
  | cleared => exact .inr (.inr rfl)

end

end Notebook

/-! ## Replaying the log -/

structure LoggedLine where
  id : String
  text : String
  author : LineAuthor
  deriving DecidableEq

def BlackboardLine.logged (line : BlackboardLine) : LoggedLine := ⟨line.id, line.text, line.author⟩

@[simp] theorem BlackboardLine.logged_id (line : BlackboardLine) : line.logged.id = line.id := rfl

def setText (id text : String) : List LoggedLine → List LoggedLine
  | [] => []
  | line :: doc =>
    if line.id = id then { line with text } :: doc else line :: setText id text doc

def replayEvent (doc : List LoggedLine) : BlackboardEvent → List LoggedLine
  | .add id text author _ index => doc.insertIdx index ⟨id, text, author⟩
  | .edit id _ after _ => setText id after doc
  | .delete id _ _ _ => doc.eraseP (·.id = id)

/-- Make the changes of a log, from an empty document. -/
def replay (events : List BlackboardEvent) : List LoggedLine := events.foldl replayEvent []

theorem setText_append {id text : String} {before after : List LoggedLine} {line : LoggedLine}
    (hbefore : ∀ l ∈ before, l.id ≠ id) (hid : line.id = id) :
    setText id text (before ++ line :: after) = before ++ { line with text } :: after := by
  induction before with
  | nil => rw [List.nil_append, setText, if_pos hid, List.nil_append]
  | cons l before ih =>
    rw [List.cons_append, setText, if_neg (hbefore l List.mem_cons_self),
      ih fun l' hl' ↦ hbefore l' (List.mem_cons_of_mem _ hl'), List.cons_append]

namespace Notebook

variable {nb nb' : Notebook}

theorem replay_concat (events : List BlackboardEvent) (e : BlackboardEvent) :
    replay (events ++ [e]) = replayEvent (replay events) e := List.foldl_concat ..

def InStep (nb : Notebook) : Prop := replay nb.events = nb.lines.map BlackboardLine.logged

/-- **Every change keeps log and lines in step.** -/
theorem InStep.apply (h : nb.InStep) (hc : nb.apply c = some (line, nb')) : nb'.InStep := by
  cases Applied.of_apply hc with
  | unchanged => exact h
  | added counter hnew =>
    -- the entry's index is the length of the document, so the line goes to its end
    have hlength : nb.lines.length = (nb.lines.map BlackboardLine.logged).length :=
      (List.length_map _).symm
    rw [InStep, replay_concat, h, List.map_append, replayEvent, hlength,
      List.insertIdx_length_self]
    rfl
  | edited before line after hlines hbefore =>
    rw [InStep, replay_concat, h, replayEvent, hlines, List.map_append, List.map_cons,
      setText_append (List.forall_mem_map.mpr hbefore) line.logged_id, List.map_append,
      List.map_cons]
    rfl
  | deleted before line after hlines hbefore =>
    rw [InStep, replay_concat, h, replayEvent, hlines, List.map_append, List.map_cons,
      List.eraseP_append_right _ (by simpa using hbefore),
      List.eraseP_cons_of_pos (p := fun l : LoggedLine ↦ l.id = line.id) (decide_eq_true rfl),
      List.map_append]
  | cleared => rfl

end Notebook

end Blackboard

end RosheraCad
