import RosheraCad.Library.IdStore

/-!
# Copying a part of a store

Entries of a store are copied back into it one by one, and a table notes under which number each
copy is. A map that carries the references of each thing reached onto those of its image carries the
whole part of a graph.
-/

/-! ## Carrying a part of a graph -/

namespace Relocation

variable {α β : Type*} {next : α → List α} {next' : β → List β} {f : α → β} {a x y : α}

def Part (next : α → List α) (a : α) : α → Prop := Relation.ReflTransGen (fun x y ↦ y ∈ next x) a

theorem Part.refl : Part next a a := Relation.ReflTransGen.refl

theorem Part.tail (hx : Part next a x) (hy : y ∈ next x) : Part next a y :=
  Relation.ReflTransGen.tail hx hy

theorem part_iff : Part next a y ↔ y = a ∨ ∃ x ∈ next a, Part next x y :=
  Relation.ReflTransGen.cases_head_iff.trans (or_congr_left eq_comm)

/-- **A map that carries references carries what is reached.** -/
theorem image_part (h : ∀ x, Part next a x → next' (f x) = (next x).map f) :
    f '' {x | Part next a x} = {y | Part next' (f a) y} := by
  ext y
  constructor
  · rintro ⟨x, hx, rfl⟩
    change Part next a x at hx
    induction hx with
    | refl => exact Part.refl
    | @tail x y hx hy ih =>
      have hmem : f y ∈ next' (f x) := by
        rw [h x hx]
        exact List.mem_map_of_mem hy
      exact Part.tail ih hmem
  · intro hy
    change Part next' (f a) y at hy
    induction hy with
    | refl => exact ⟨a, Part.refl, rfl⟩
    | tail _ hz ih =>
      obtain ⟨x, hx, rfl⟩ := ih
      rw [h x hx] at hz
      obtain ⟨w, hw, rfl⟩ := List.mem_map.mp hz
      exact ⟨w, Part.tail hx hw, rfl⟩

end Relocation

/-! ## Copying entries -/

namespace IdStore

variable {α E : Type} (missing : E) (copy : α → Except E α)

def cloneEach : List ℕ → EStateM E (IdStore α × OrderedMap ℕ ℕ) (List ℕ)
  | [], acc => .ok [] acc
  | id :: ids, (s, numbers) =>
    match s.get id with
    | none => .error missing (s, numbers)
    | some a =>
      match copy a with
      | .error e => .error e (s, numbers)
      | .ok b =>
        let number := (s.add b).1
        match cloneEach ids ((s.add b).2, numbers.insert id number) with
        | .ok new acc => .ok (number :: new) acc
        | .error e acc => .error e acc

def noted (numbers : OrderedMap ℕ ℕ) (id : ℕ) : ℕ := numbers[id]?.getD 0

def IsNoted (numbers : OrderedMap ℕ ℕ) (id : ℕ) : Prop := numbers[id]? = some (noted numbers id)

/-- Copies of listed entries were added, each under a new number, and the rest is as it was. -/
structure Cloned (s s' : IdStore α) (ids : List ℕ) (g : α → α) (f : ℕ → ℕ) : Prop where
  kept : ∀ id a, s.get id = some a → s'.get id = some a
  copied : ∀ id ∈ ids, ∀ a, s.get id = some a → s'.get (f id) = some (g a)
  fresh : ∀ id ∈ ids, s.nextId ≤ f id
  injOn : Set.InjOn f {id | id ∈ ids}

variable {missing copy} {s s' : IdStore α} {ids : List ℕ} {g : α → α} {f : ℕ → ℕ}

theorem not_live_of_nextId_le {id : ℕ} (h : s.nextId ≤ id) : ¬ s.Live id :=
  fun hlive ↦ absurd (s.lt_nextId id hlive) h.not_gt

theorem exists_cloneEach (missing : ε) (copy : α → Except ε α) (hnodup : ids.Nodup)
    (hids : ∀ id ∈ ids, ∃ a, s.get id = some a ∧ copy a = .ok (g a))
    (numbers : OrderedMap ℕ ℕ) :
    ∃ s' numbers', cloneEach missing copy ids (s, numbers) =
        .ok (ids.map (noted numbers')) (s', numbers') ∧
      Cloned s s' ids g (noted numbers') ∧
      (∀ id ∈ ids, IsNoted numbers' id) ∧ ∀ id ∉ ids, numbers'[id]? = numbers[id]? := by
  induction ids generalizing s numbers with
  | nil =>
    exact ⟨s, numbers, rfl, ⟨fun _ _ h ↦ h, nofun, nofun, nofun⟩, nofun, fun _ _ ↦ rfl⟩
  | cons id ids ih =>
    obtain ⟨hid, hnodup⟩ := List.nodup_cons.mp hnodup
    obtain ⟨a, hget, hcopy⟩ := hids id List.mem_cons_self
    have hstep : ∀ i b, s.get i = some b → (s.add (g a)).2.get i = some b := by
      intro i b hb
      have hlt := s.lt_nextId i (live_iff.mpr ⟨b, hb⟩)
      rw [get_add, if_neg hlt.ne, hb]
    obtain ⟨s', numbers', hrun, hcloned, hnoted, hother⟩ := ih (s := (s.add (g a)).2) hnodup
      (fun i hi ↦ by
        obtain ⟨b, hb, hok⟩ := hids i (List.mem_cons_of_mem _ hi)
        exact ⟨b, hstep i b hb, hok⟩)
      (numbers.insert id (s.add (g a)).1)
    have hhead : numbers'[id]? = some s.nextId := by
      rw [hother id hid, OrderedMap.lookup_insert, if_pos rfl]
      rfl
    have hnumber : noted numbers' id = s.nextId := by
      rw [noted, hhead, Option.getD_some]
    refine ⟨s', numbers', ?_, ⟨?_, ?_, ?_, ?_⟩, ?_, ?_⟩
    · rw [cloneEach, hget]
      simp only [hcopy, hrun, List.map_cons, hnumber]
      rfl
    · exact fun i b hb ↦ hcloned.kept i b (hstep i b hb)
    · intro i hi b hb
      rcases List.mem_cons.mp hi with rfl | hi
      · -- The copy is the entry added first.
        obtain rfl : a = b := Option.some_inj.mp (hget.symm.trans hb)
        rw [hnumber]
        exact hcloned.kept _ _ (by rw [get_add, if_pos rfl])
      · exact hcloned.copied i hi b (hstep i b hb)
    · intro i hi
      rcases List.mem_cons.mp hi with rfl | hi
      · exact hnumber.ge
      · exact (Nat.le_succ _).trans (hcloned.fresh i hi)
    · -- Later copies have larger numbers than the first.
      have hlater : ∀ i ∈ ids, noted numbers' i ≠ noted numbers' id := by
        intro i hi heq
        have hle : s.nextId + 1 ≤ noted numbers' i := hcloned.fresh i hi
        rw [heq, hnumber] at hle
        exact absurd hle (Nat.not_succ_le_self _)
      rintro i hi j hj heq
      rcases List.mem_cons.mp hi with rfl | hi' <;> rcases List.mem_cons.mp hj with rfl | hj'
      · rfl
      · exact absurd heq.symm (hlater j hj')
      · exact absurd heq (hlater i hi')
      · exact hcloned.injOn hi' hj' heq
    · intro i hi
      rcases List.mem_cons.mp hi with rfl | hi
      · rw [IsNoted, hhead, hnumber]
      · exact hnoted i hi
    · intro i hi
      have hne : i ≠ id := fun heq ↦ hi (heq ▸ List.mem_cons_self)
      rw [hother i fun hmem ↦ hi (List.mem_cons_of_mem _ hmem), OrderedMap.lookup_insert,
        if_neg hne]

end IdStore
