import RosheraCad.Blackboard.Manager

/-!
# Write-through of concurrent calls

A call changes a notebook under its lock and hands over a copy after it has let go of the lock. A
worker saves the copies in the order they were handed over, so the row can end with the older of two
states.
-/

namespace RosheraCad

namespace Blackboard

inductive Phase where
  | locking (key : String) (change : Change)
  | searching (keys : List String) (change : Change)
  /-- It has let go of the lock and hands its copy over next. The number is that of its change. -/
  | sending (write : NotebookWrite) (number : ℕ)
  | returned
  deriving DecidableEq

/-- Calls under way, the channel to the worker and the rows. -/
structure Traffic where
  board : Board
  phases : List Phase
  channel : List NotebookWrite
  rows : OrderedMap String PersistedNotebook
  changes : String → ℕ

inductive TrafficStep where
  | start (c : Call)
  | advance (n : ℕ)
  | persist

namespace Traffic

/-- No call under way, and every notebook saved. -/
def settled (b : Board) : Traffic where
  board := b
  phases := []
  channel := []
  rows := b.map fun _ nb ↦ nb.persisted
  changes _ := 0

variable (t : Traffic)

def save (rows : OrderedMap String PersistedNotebook) (write : NotebookWrite) :
    OrderedMap String PersistedNotebook :=
  rows.insert write.scopeKey write.state

def underLock (n : ℕ) (key : String) (change : Change) (next : Phase) : Traffic :=
  match (t.board.read key).apply change with
  | none => { t with phases := t.phases.set n next }
  | some (_, nb) =>
    { t with
      board := t.board.insert key nb
      phases := t.phases.set n (.sending ⟨key, nb.persisted⟩ (t.changes key + 1))
      changes := Function.update t.changes key (t.changes key + 1) }

def startCall (c : Call) : Traffic :=
  match c.change? with
  | none => t
  | some (change, some key) =>
    { t with board := (t.board.notebook key).2, phases := t.phases ++ [.locking key change] }
  | some (change, none) =>
    { t with phases := t.phases ++ [.searching c.keys change] }

def advanceCall (n : ℕ) : Traffic :=
  match t.phases[n]? with
  | some (.locking key change) => t.underLock n key change .returned
  | some (.searching [] _) => { t with phases := t.phases.set n .returned }
  | some (.searching (key :: keys) change) => t.underLock n key change (.searching keys change)
  | some (.sending write _) =>
    { t with phases := t.phases.set n .returned, channel := t.channel ++ [write] }
  | some .returned | none => t

def persistNext : Traffic :=
  match t.channel with
  | [] => t
  | write :: writes => { t with channel := writes, rows := save t.rows write }

def step : TrafficStep → Traffic
  | .start c => t.startCall c
  | .advance n => t.advanceCall n
  | .persist => t.persistNext

def enabled : TrafficStep → Prop
  | .start c => c.change? ≠ none ∧ t.board.Admits c
  | .advance n => ∃ phase ∈ t.phases[n]?, phase ≠ .returned
  | .persist => t.channel ≠ []

instance : ∀ s, Decidable (t.enabled s)
  | .start c => inferInstanceAs (Decidable (c.change? ≠ none ∧ t.board.Admits c))
  | .advance n => inferInstanceAs (Decidable (∃ phase ∈ t.phases[n]?, phase ≠ .returned))
  | .persist => inferInstanceAs (Decidable (t.channel ≠ []))

end Traffic

/-- The calls for one document, made when every notebook is saved. -/
def trafficSystem (b : Board) : GuardedSystem Traffic TrafficStep where
  init := .settled b
  enabled := Traffic.enabled
  step := Traffic.step

instance (b : Board) (t : Traffic) (s : TrafficStep) : Decidable ((trafficSystem b).enabled t s) :=
  inferInstanceAs (Decidable (t.enabled s))

/-! ## The newest change -/

/-- The key of the notebook whose copy a call hands over next. -/
def Phase.sendsTo : Phase → Option String
  | .sending write _ => some write.scopeKey
  | .locking .. | .searching .. | .returned => none

/-- The call hands over next the copy made at the given change of a notebook. -/
def Phase.Sends (key : String) (number : ℕ) : Phase → Prop
  | .sending write n => write.scopeKey = key ∧ n = number
  | .locking .. | .searching .. | .returned => False

instance (key : String) (number : ℕ) : ∀ p : Phase, Decidable (p.Sends key number)
  | .sending write n => inferInstanceAs (Decidable (write.scopeKey = key ∧ n = number))
  | .locking .. | .searching .. | .returned => isFalse id

namespace Traffic

def NewestUnsent (t : Traffic) (key : String) : Prop :=
  ∃ p ∈ t.phases, p.Sends key (t.changes key)

/-- A call hands its copy over only while the newest change is still to be handed over. -/
def InOrder (t : Traffic) : TrafficStep → Prop
  | .advance n => ∀ key ∈ t.phases[n]?.bind Phase.sendsTo, t.NewestUnsent key
  | .start _ | .persist => True

instance (t : Traffic) (key : String) : Decidable (t.NewestUnsent key) :=
  inferInstanceAs (Decidable (∃ p ∈ t.phases, p.Sends key (t.changes key)))

instance (t : Traffic) : ∀ s, Decidable (t.InOrder s)
  | .advance n =>
    inferInstanceAs (Decidable (∀ key ∈ t.phases[n]?.bind Phase.sendsTo, t.NewestUnsent key))
  | .start _ | .persist => isTrue trivial

/-- Every call has returned and the worker has saved every copy. -/
structure Quiet (t : Traffic) : Prop where
  returned : ∀ p ∈ t.phases, p = .returned
  drained : t.channel = []

/-- The row of every notebook has its lines, its log and its counter. -/
def RowsCurrent (t : Traffic) : Prop :=
  ∀ key, t.rows[key]?.getD Notebook.empty.persisted = (t.board.read key).persisted

def drainedRows (t : Traffic) : OrderedMap String PersistedNotebook := t.channel.foldl save t.rows

structure Inv (t : Traffic) : Prop where
  newest_is_current : ∀ write number, Phase.sending write number ∈ t.phases →
    number ≤ t.changes write.scopeKey ∧ (number = t.changes write.scopeKey →
      write.state = (t.board.read write.scopeKey).persisted)
  unsent_or_current : ∀ key, t.NewestUnsent key ∨
    t.drainedRows[key]?.getD Notebook.empty.persisted = (t.board.read key).persisted

end Traffic

/-! ## Steps -/

namespace Traffic

variable {t : Traffic} {b : Board}

theorem mem_set_of_ne {l : List Phase} {n : ℕ} {p q r : Phase} (hp : p ∈ l) (hq : l[n]? = some q)
    (hne : p ≠ q) : p ∈ l.set n r := by
  obtain ⟨m, hm⟩ := List.mem_iff_getElem?.mp hp
  refine List.mem_iff_getElem?.mpr ⟨m, ?_⟩
  rw [List.getElem?_set_ne, hm]
  rintro rfl
  exact hne (Option.some_inj.mp (hm.symm.trans hq))

theorem settled_inv (b : Board) : (settled b).Inv where
  newest_is_current _ _ h := absurd h List.not_mem_nil
  unsent_or_current key := by
    refine .inr ?_
    show (Std.ExtTreeMap.map _ b)[key]?.getD _ = _
    rw [Std.ExtTreeMap.getElem?_map, settled, Board.read]
    cases b[key]? <;> rfl

theorem mem_set_of_sends {n : ℕ} {p q r : Phase} {key : String} {number : ℕ}
    (hp : t.phases[n]? = some p) (hsends : p.sendsTo = none) (hq : q ∈ t.phases)
    (hqs : q.Sends key number) : q ∈ t.phases.set n r := by
  refine mem_set_of_ne hq hp ?_
  rintro rfl
  cases q <;> first | exact hqs | cases hsends

theorem Inv.setPhase (h : t.Inv) {n : ℕ} {p next : Phase} (hp : t.phases[n]? = some p)
    (hsends : p.sendsTo = none) (hnext : next.sendsTo = none) :
    Inv { t with phases := t.phases.set n next } := by
  refine ⟨fun write number hmem ↦ ?_, fun key ↦ ?_⟩
  · rcases List.mem_or_eq_of_mem_set hmem with hmem | rfl
    · exact h.newest_is_current write number hmem
    · cases hnext
  · obtain ⟨q, hq, hqs⟩ | hcurrent := h.unsent_or_current key
    · exact .inl ⟨q, mem_set_of_sends hp hsends hq hqs, hqs⟩
    · exact .inr hcurrent

theorem Inv.underLock (h : t.Inv) {n : ℕ} {p : Phase} (hp : t.phases[n]? = some p)
    (hsends : p.sendsTo = none) (key : String) (change : Change) {next : Phase}
    (hnext : next.sendsTo = none) : (t.underLock n key change next).Inv := by
  rw [Traffic.underLock]
  cases happly : (t.board.read key).apply change with
  | none => exact h.setPhase hp hsends hnext
  | some changed =>
    obtain ⟨line, nb⟩ := changed
    dsimp only
    have hn : n < t.phases.length := (List.getElem?_eq_some_iff.mp hp).1
    refine ⟨fun write number hmem ↦ ?_, fun k ↦ ?_⟩
    · dsimp only
      rw [Board.read_insert]
      rcases List.mem_or_eq_of_mem_set hmem with hmem | heq
      · obtain ⟨hle, hcurrent⟩ := h.newest_is_current write number hmem
        by_cases hk : write.scopeKey = key
        · rw [hk] at hle ⊢
          rw [Function.update_self]
          exact ⟨hle.trans (Nat.le_succ _), fun heq ↦ absurd heq (Nat.lt_succ_of_le hle).ne⟩
        · rw [Function.update_of_ne hk, if_neg hk]
          exact ⟨hle, hcurrent⟩
      · obtain ⟨rfl, rfl⟩ := Phase.sending.inj heq
        rw [Function.update_self, if_pos rfl]
        exact ⟨le_rfl, fun _ ↦ rfl⟩
    · rw [NewestUnsent]
      dsimp only
      rcases eq_or_ne k key with rfl | hk
      · exact .inl ⟨_, List.mem_set hn _, rfl, (Function.update_self (f := t.changes) ..).symm⟩
      · rw [Board.read_insert, if_neg hk, Function.update_of_ne hk]
        obtain ⟨q, hq, hqs⟩ | hcurrent := h.unsent_or_current k
        · exact .inl ⟨q, mem_set_of_sends hp hsends hq hqs, hqs⟩
        · exact .inr hcurrent

theorem Inv.handOver (h : t.Inv) {n : ℕ} {write : NotebookWrite} {number : ℕ}
    (hp : t.phases[n]? = some (.sending write number)) (hnewest : t.NewestUnsent write.scopeKey) :
    Inv { t with phases := t.phases.set n .returned, channel := t.channel ++ [write] } := by
  have hrows : Traffic.drainedRows
      { t with phases := t.phases.set n .returned, channel := t.channel ++ [write] } =
        t.drainedRows.insert write.scopeKey write.state := List.foldl_concat ..
  refine ⟨fun write' number' hmem ↦ ?_, fun k ↦ ?_⟩
  · rcases List.mem_or_eq_of_mem_set hmem with hmem | heq
    · exact h.newest_is_current write' number' hmem
    · cases heq
  · rw [hrows, OrderedMap.lookup_insert]
    split_ifs with hk
    · subst hk
      by_cases hnumber : number = t.changes write.scopeKey
      · exact .inr ((h.newest_is_current write number (List.mem_of_getElem? hp)).2 hnumber)
      · obtain ⟨q, hq, hqs⟩ := hnewest
        refine .inl ⟨q, mem_set_of_ne hq hp ?_, hqs⟩
        rintro rfl
        exact hnumber hqs.2
    · obtain ⟨q, hq, hqs⟩ | hcurrent := h.unsent_or_current k
      · refine .inl ⟨q, mem_set_of_ne hq hp ?_, hqs⟩
        rintro rfl
        exact hk hqs.1.symm
      · exact .inr hcurrent

/-- **A step keeps the invariant** when copies are handed over in order. -/
theorem Inv.step (h : t.Inv) {s : TrafficStep} (horder : t.InOrder s) : (t.step s).Inv := by
  cases s with
  | start c =>
    rw [Traffic.step, startCall]
    -- A call that starts sends nothing yet and changes no notebook.
    have hkept : ∀ (b' : Board) (p : Phase), p.sendsTo = none → t.board.Unchanged b' →
        Inv { t with board := b', phases := t.phases ++ [p] } := by
      intro b' p hsends hsame
      refine ⟨fun write number hmem ↦ ?_, fun key ↦ ?_⟩
      · dsimp only
        rw [hsame.read_eq]
        rcases List.mem_append.mp hmem with hmem | hmem
        · exact h.newest_is_current write number hmem
        · rw [← List.mem_singleton.mp hmem] at hsends
          cases hsends
      · dsimp only
        rw [hsame.read_eq]
        obtain ⟨q, hq, hqs⟩ | hcurrent := h.unsent_or_current key
        · exact .inl ⟨q, List.mem_append_left _ hq, hqs⟩
        · exact .inr hcurrent
    split
    · exact h
    · exact hkept _ _ rfl (Board.notebook_unchanged _ _)
    · exact hkept _ _ rfl ⟨fun _ ↦ rfl, fun _ h ↦ h⟩
  | advance n =>
    rw [Traffic.step, advanceCall]
    split
    · next key change hp => exact h.underLock hp rfl key change rfl
    · next change hp => exact h.setPhase hp rfl rfl
    · next key keys change hp => exact h.underLock hp rfl key change rfl
    · next write number hp =>
      exact h.handOver hp (horder write.scopeKey (by rw [hp]; rfl))
    · exact h
    · exact h
  | persist =>
    rw [Traffic.step, persistNext]
    split
    · exact h
    · next write writes hchannel =>
      refine ⟨h.newest_is_current, fun key ↦ ?_⟩
      have hrows := h.unsent_or_current key
      rwa [drainedRows, hchannel, List.foldl_cons] at hrows

end Traffic

/-- **The rows keep the last state** when all is returned and saved, in every run that hands copies
over in order. -/
theorem rowsCurrent_of_quiet {b : Board} {t : Traffic}
    (h : (trafficSystem b).ReachableUnder Traffic.InOrder t) (hquiet : t.Quiet) :
    t.RowsCurrent := by
  have hinv : t.Inv :=
    h.invariant Traffic.Inv (Traffic.settled_inv b) fun _ _ _ ih _ horder ↦ ih.step horder
  intro key
  obtain ⟨p, hp, hsends⟩ | hcurrent := hinv.unsent_or_current key
  · rw [hquiet.returned p hp] at hsends
    cases hsends
  · rwa [Traffic.drainedRows, hquiet.drained] at hcurrent

/-- Two calls add a line each, one after the other. -/
theorem rowsCurrent_example : ((trafficSystem ∅).run (.settled ∅)
    [.start (.add .document none "a" .user 5 5), .start (.add .document none "b" .user 6 6),
      .advance 0, .advance 0, .advance 1, .advance 1, .persist, .persist]).RowsCurrent :=
  rowsCurrent_of_quiet (.run .init (by decide)) ⟨by decide, by decide⟩

/-- **Two calls hand over in the opposite order of their changes**, and the row ends with the state
between the two. -/
theorem not_rowsCurrent_of_overtaking : ∃ t, (trafficSystem ∅).Reachable t ∧ t.Quiet ∧
    ¬ t.RowsCurrent := by
  refine ⟨(trafficSystem ∅).run (.settled ∅)
    [.start (.add .document none "a" .user 5 5), .start (.add .document none "b" .user 6 6),
      .advance 0, .advance 1, .advance 1, .advance 0, .persist, .persist],
    .run .init (by decide), ⟨by decide, by decide⟩, fun h ↦ ?_⟩
  exact absurd (h BlackboardScope.document.key) (by decide)

end Blackboard

end RosheraCad
