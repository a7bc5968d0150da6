import RosheraCad.Blackboard.Notebook
import RosheraCad.Library.Run
import RosheraCad.Types

/-!
# The notebooks of a document

The manager keeps one notebook for each scope of a document. A call that names a line only looks
through all of them, in the order of the map.

The counters are kept per notebook and a client may supply any id, so a line id may be held twice.
-/

namespace RosheraCad

namespace Blackboard

inductive BlackboardScope where
  | part (id : ℕ)
  | assembly (id : Uuid)
  | document

def BlackboardScope.key : BlackboardScope → String
  | part id => "part:" ++ toString id
  | assembly id => "assembly:" ++ id.toText
  | document => "document"

structure NotebookWrite where
  scopeKey : String
  state : PersistedNotebook
  deriving DecidableEq

/-- The notebooks of one document, by the keys of their scopes. -/
abbrev Board := OrderedMap String Notebook

/-- What a call returns, the notebooks it leaves and the state it hands to the worker. -/
structure Answer where
  line : Option BlackboardLine
  board : Board
  write : Option NotebookWrite

namespace Board

variable (b : Board)

def read (key : String) : Notebook := b[key]?.getD .empty

def notebook (key : String) : Notebook × Board :=
  match b[key]? with
  | some nb => (nb, b)
  | none => (.empty, b.insert key .empty)

def snapshot (scope : BlackboardScope) : BlackboardSnapshot × Board :=
  let (nb, b) := b.notebook scope.key
  (nb.snapshot, b)

def documentSnapshot : Board := (b.notebook BlackboardScope.document.key).2

def change (key : String) (c : Change) : Answer :=
  let (nb, b) := b.notebook key
  match nb.apply c with
  | none => ⟨none, b, none⟩
  | some (line, nb) => ⟨line, b.insert key nb, some ⟨key, nb.persisted⟩⟩

def changeAny (c : Change) : List String → Answer
  | [] => ⟨none, b, none⟩
  | key :: keys =>
    match b[key]?.bind fun nb ↦ nb.apply c with
    | none => changeAny c keys
    | some (line, nb) => ⟨line, b.insert key nb, some ⟨key, nb.persisted⟩⟩

def add (scope : BlackboardScope) (lineId : Option String) (text : String) (author : LineAuthor)
    (idTime now : ℕ) : Answer :=
  b.change scope.key (.add lineId text author idTime now)

def edit (scope : BlackboardScope) (lineId text : String) (now : ℕ) : Answer :=
  b.change scope.key (.edit lineId text now)

def delete (scope : BlackboardScope) (lineId : String) (now : ℕ) : Answer :=
  b.change scope.key (.delete lineId now)

def clear (scope : BlackboardScope) : Answer := b.change scope.key .clear

def editAnyScope (keys : List String) (lineId text : String) (now : ℕ) : Answer :=
  b.changeAny (.edit lineId text now) keys

def deleteAnyScope (keys : List String) (lineId : String) (now : ℕ) : Answer :=
  b.changeAny (.delete lineId now) keys

end Board

/-! ## Calls -/

/-- A call of the manager. Those that look through the notebooks carry the order of the map. -/
inductive Call where
  | snapshot (scope : BlackboardScope)
  | documentSnapshot
  | add (scope : BlackboardScope) (lineId : Option String) (text : String) (author : LineAuthor)
      (idTime now : ℕ)
  | edit (scope : BlackboardScope) (lineId text : String) (now : ℕ)
  | delete (scope : BlackboardScope) (lineId : String) (now : ℕ)
  | clear (scope : BlackboardScope)
  | editAnyScope (keys : List String) (lineId text : String) (now : ℕ)
  | deleteAnyScope (keys : List String) (lineId : String) (now : ℕ)

namespace Board

def call (b : Board) : Call → Answer
  | .snapshot scope => ⟨none, (b.snapshot scope).2, none⟩
  | .documentSnapshot => ⟨none, b.documentSnapshot, none⟩
  | .add scope lineId text author idTime now => b.add scope lineId text author idTime now
  | .edit scope lineId text now => b.edit scope lineId text now
  | .delete scope lineId now => b.delete scope lineId now
  | .clear scope => b.clear scope
  | .editAnyScope keys lineId text now => b.editAnyScope keys lineId text now
  | .deleteAnyScope keys lineId now => b.deleteAnyScope keys lineId now

/-- A call that looks through the notebooks sees each once. -/
def Admits (b : Board) : Call → Prop
  | .editAnyScope keys .. | .deleteAnyScope keys .. => keys.Perm b.keys
  | _ => True

instance (b : Board) : ∀ c, Decidable (b.Admits c)
  | .editAnyScope keys .. | .deleteAnyScope keys .. => inferInstanceAs (Decidable (keys.Perm _))
  | .snapshot _ | .documentSnapshot | .add .. | .edit .. | .delete .. | .clear _ => isTrue trivial

end Board

def Call.change? : Call → Option (Change × Option String)
  | .snapshot _ | .documentSnapshot => none
  | .add scope lineId text author idTime now =>
    some (.add lineId text author idTime now, some scope.key)
  | .edit scope lineId text now => some (.edit lineId text now, some scope.key)
  | .delete scope lineId now => some (.delete lineId now, some scope.key)
  | .clear scope => some (.clear, some scope.key)
  | .editAnyScope _ lineId text now => some (.edit lineId text now, none)
  | .deleteAnyScope _ lineId now => some (.delete lineId now, none)

/-- The notebooks a call looks through, in order. -/
def Call.keys : Call → List String
  | .editAnyScope keys .. | .deleteAnyScope keys .. => keys
  | .snapshot _ | .documentSnapshot | .add .. | .edit .. | .delete .. | .clear _ => []

/-! ## What a call does -/

namespace Board

variable {b : Board}

/-- A call has changed no line: the notebooks read as before, and none is gone. -/
structure Unchanged (b b' : Board) : Prop where
  read_eq : ∀ key, b'.read key = b.read key
  kept : ∀ key ∈ b, key ∈ b'

structure Changed (b : Board) (key : String) (c : Change) (a : Answer) : Prop where
  applied : ∃ nb, (b.read key).apply c = some (a.line, nb) ∧
    a.write = some ⟨key, nb.persisted⟩ ∧ ∀ k, a.board.read k = if k = key then nb else b.read k
  present : key ∈ a.board
  kept : ∀ k ∈ b, k ∈ a.board

theorem read_insert (b : Board) (key : String) (nb : Notebook) (k : String) :
    (Board.read (b.insert key nb) k) = if k = key then nb else b.read k := by
  rw [read, OrderedMap.lookup_insert]
  split_ifs <;> rfl

theorem notebook_fst (key : String) : (b.notebook key).1 = b.read key := by
  rw [notebook, read]
  cases b[key]? <;> rfl

theorem notebook_unchanged (b : Board) (key : String) : b.Unchanged (b.notebook key).2 := by
  rw [notebook]
  cases hkey : b[key]? with
  | some nb => exact ⟨fun _ ↦ rfl, fun _ h ↦ h⟩
  | none =>
    refine ⟨fun k ↦ ?_, fun k hk ↦ Std.ExtTreeMap.mem_insert.mpr (.inr hk)⟩
    rw [read_insert]
    split_ifs with hk
    · rw [read, hk, hkey, Option.getD_none]
    · rfl

theorem Changed.insert {b₀ : Board} (h : b.Unchanged b₀) {key : String} {c : Change}
    {line : Option BlackboardLine} {nb : Notebook}
    (happly : (b.read key).apply c = some (line, nb)) :
    b.Changed key c ⟨line, b₀.insert key nb, some ⟨key, nb.persisted⟩⟩ where
  applied := by
    refine ⟨nb, happly, rfl, fun k ↦ ?_⟩
    rw [read_insert, h.read_eq]
  present := Std.ExtTreeMap.mem_insert_self
  kept k hk := Std.ExtTreeMap.mem_insert.mpr (.inr (h.kept k hk))

/-- A call that names a scope changes that notebook, or no line if it cannot. -/
theorem change_cases (b : Board) (key : String) (c : Change) :
    ((b.read key).apply c = none ∧ (b.change key c).write = none ∧
        b.Unchanged (b.change key c).board) ∨
      b.Changed key c (b.change key c) := by
  have hread := notebook_fst (b := b) key
  have hkept := notebook_unchanged b key
  rw [change]
  cases hn : b.notebook key with
  | mk nb b₀ =>
    rw [hn] at hread hkept
    obtain rfl : nb = b.read key := hread
    dsimp only
    cases happly : (b.read key).apply c with
    | none => exact .inl ⟨rfl, rfl, hkept⟩
    | some changed => exact .inr (.insert hkept happly)

theorem changeAny_cases (b : Board) (c : Change) (keys : List String) :
    ((∀ key ∈ keys, ∀ nb, b[key]? = some nb → nb.apply c = none) ∧
        b.changeAny c keys = ⟨none, b, none⟩) ∨
      ∃ key ∈ keys, b.Changed key c (b.changeAny c keys) := by
  induction keys with
  | nil => exact .inl ⟨fun _ h ↦ absurd h List.not_mem_nil, rfl⟩
  | cons key keys ih =>
    rw [changeAny]
    cases happly : b[key]?.bind fun nb ↦ nb.apply c with
    | none =>
      obtain ⟨hnone, heq⟩ | ⟨key', hkey', hchanged⟩ := ih
      · refine .inl ⟨fun k hk nb hnb ↦ ?_, heq⟩
        rcases List.mem_cons.mp hk with rfl | hk
        · rwa [hnb, Option.bind_some] at happly
        · exact hnone k hk nb hnb
      · exact .inr ⟨key', List.mem_cons_of_mem _ hkey', hchanged⟩
    | some changed =>
      obtain ⟨nb, hnb, hc⟩ := Option.bind_eq_some_iff.mp happly
      obtain rfl : b.read key = nb := by rw [read, hnb, Option.getD_some]
      exact .inr ⟨key, List.mem_cons_self, .insert ⟨fun _ ↦ rfl, fun _ h ↦ h⟩ hc⟩

/-- **What a call can do**: nothing, or make its change in one notebook and hand over its state. -/
theorem call_cases (b : Board) (c : Call) :
    ((b.call c).write = none ∧ b.Unchanged (b.call c).board) ∨
      ∃ key change scope, c.change? = some (change, scope) ∧ (∀ k, scope = some k → k = key) ∧
        b.Changed key change (b.call c) := by
  have hnamed : ∀ (key : String) (change : Change) (scope : Option String),
      c.change? = some (change, scope) → scope = some key → b.call c = b.change key change →
      ((b.call c).write = none ∧ b.Unchanged (b.call c).board) ∨
        ∃ key change scope, c.change? = some (change, scope) ∧ (∀ k, scope = some k → k = key) ∧
          b.Changed key change (b.call c) := by
    rintro key change scope hc rfl heq
    rw [heq]
    obtain ⟨-, hwrite, hsame⟩ | hchanged := b.change_cases key change
    · exact .inl ⟨hwrite, hsame⟩
    · exact .inr ⟨key, change, _, hc, fun k hk ↦ (Option.some_inj.mp hk).symm, hchanged⟩
  have hany : ∀ (keys : List String) (change : Change),
      c.change? = some (change, none) → b.call c = b.changeAny change keys →
      ((b.call c).write = none ∧ b.Unchanged (b.call c).board) ∨
        ∃ key change scope, c.change? = some (change, scope) ∧ (∀ k, scope = some k → k = key) ∧
          b.Changed key change (b.call c) := by
    rintro keys change hc heq
    rw [heq]
    obtain ⟨-, heq'⟩ | ⟨key, -, hchanged⟩ := b.changeAny_cases change keys
    · rw [heq']
      exact .inl ⟨rfl, fun _ ↦ rfl, fun _ h ↦ h⟩
    · exact .inr ⟨key, change, none, hc, nofun, hchanged⟩
  cases c with
  | snapshot scope => exact .inl ⟨rfl, notebook_unchanged b _⟩
  | documentSnapshot => exact .inl ⟨rfl, notebook_unchanged b _⟩
  | add scope => exact hnamed _ _ _ rfl rfl rfl
  | edit scope => exact hnamed _ _ _ rfl rfl rfl
  | delete scope => exact hnamed _ _ _ rfl rfl rfl
  | clear scope => exact hnamed _ _ _ rfl rfl rfl
  | editAnyScope keys => exact hany keys _ rfl rfl
  | deleteAnyScope keys => exact hany keys _ rfl rfl

end Board

end Blackboard

end RosheraCad
