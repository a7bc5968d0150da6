import RosheraCad.Bounded.Interleaving

/-!
# Writes that stay

A swap puts the clone in the place of the live model whole, so it keeps a write just when the
clone's snapshot was taken after it. The books of the system say which successful writes the live
model was computed from.
-/

namespace RosheraCad

namespace SharedModel

variable {D : ModelData} {E T : Type} (s : SharedModel D E T)

/-- A bounded call whose snapshot predates a write finds the fingerprint of its snapshot again. -/
def Overwrites (d c : ℕ) : Prop :=
  ∃ w, s.writers[d]? = some w ∧ w.task.fingerprint = some (modelFingerprint s.live) ∧
    c ∈ s.contained ∧ c ∉ w.base

variable {s} {s' : SharedModel D E T} {live : KernelModel D} {i : WriterStep D E T}

def LockInv (s : SharedModel D E T) : Prop :=
  ∀ (c : ℕ) (w : Writer D E T), s.lock = some c → s.writers[c]? = some w → w.base = s.contained

private theorem lookup_insert_cases {c d : ℕ} {w v : Writer D E T}
    (h : (s.writers.insert c w)[d]? = some v) :
    (d = c ∧ v = w) ∨ (d ≠ c ∧ s.writers[d]? = some v) := by
  rw [OrderedMap.lookup_insert] at h
  by_cases hdc : d = c
  · rw [if_pos hdc, Option.some_inj] at h
    exact Or.inl ⟨hdc, h.symm⟩
  · rw [if_neg hdc] at h
    exact Or.inr ⟨hdc, h⟩

/-- **One step** keeps what the holder of the lock started from. -/
theorem LockInv.next (h : s.LockInv) (hi : s.next i = some s') :
    s'.LockInv := by
  rcases i with ⟨c, key, operands, op⟩ | ⟨c, op⟩ | c | c | c | c | c
  · obtain ⟨-, rfl⟩ := of_next_start hi
    intro d v hd hv
    rcases lookup_insert_cases hv with ⟨-, rfl⟩ | ⟨-, hv⟩
    · rfl
    · exact h d v hd hv
  · obtain ⟨-, rfl⟩ := of_next_lock hi
    intro d v hd hv
    rcases lookup_insert_cases hv with ⟨-, rfl⟩ | ⟨hdc, -⟩
    · rfl
    · exact absurd (Option.some.inj hd).symm hdc
  · obtain ⟨w, call, todo, hw, -, rfl⟩ := of_next_call hi
    intro d v hd hv
    rcases lookup_insert_cases hv with ⟨rfl, rfl⟩ | ⟨-, hv⟩
    · exact h d w hd hw
    · exact h d v hd hv
  · obtain ⟨w, hw, -, rfl⟩ := of_next_finish hi
    intro d v hd hv
    rcases lookup_insert_cases hv with ⟨rfl, rfl⟩ | ⟨-, hv⟩
    · exact h d w hd hw
    · exact h d v hd hv
  · obtain ⟨w, answer, hw, -, -, rfl⟩ := of_next_timeout hi
    intro d v hd hv
    rcases lookup_insert_cases hv with ⟨rfl, rfl⟩ | ⟨-, hv⟩
    · exact h d w hd hw
    · exact h d v hd hv
  · obtain ⟨w, key, operands, fingerprint, -, -, -, -, hlock, rfl⟩ := of_next_settle hi
    intro d v hd _
    rw [hlock] at hd
    contradiction
  · obtain ⟨w, -, -, -, -, -, rfl⟩ := of_next_unlock hi
    intro d v hd hv
    contradiction

def Keeps (s : SharedModel D E T) (i : WriterStep D E T) (s' : SharedModel D E T) : Prop :=
  ∀ c ∈ s.contained, c ∈ s'.contained ∨ ∃ d, i = .settle d ∧ s.Overwrites d c

/-- **One step** loses a write only by a swap that finds the fingerprint of its snapshot again. -/
theorem keeps_next (h : s.LockInv) (hi : s.next i = some s') :
    s.Keeps i s' := by
  intro c hc
  rcases i with ⟨b, key, operands, op⟩ | ⟨b, op⟩ | b | b | b | b | b
  · obtain ⟨-, rfl⟩ := of_next_start hi
    exact Or.inl hc
  · obtain ⟨-, rfl⟩ := of_next_lock hi
    exact Or.inl hc
  · obtain ⟨w, call, todo, -, -, rfl⟩ := of_next_call hi
    exact Or.inl hc
  · obtain ⟨w, -, -, rfl⟩ := of_next_finish hi
    exact Or.inl hc
  · obtain ⟨w, answer, -, -, -, rfl⟩ := of_next_timeout hi
    exact Or.inl hc
  · obtain ⟨w, key, operands, fingerprint, hw, htask, -, -, -, rfl⟩ := of_next_settle hi
    by_cases hok : (settle key fingerprint w.work.result s.live w.work.outcome).1.toBool = true
    · by_cases hbase : c ∈ w.base
      · refine Or.inl ?_
        simp only [hok, if_true]
        exact List.mem_cons_of_mem _ hbase
      · -- The snapshot predates the write, and the swap was not refused.
        refine Or.inr ⟨b, rfl, w, hw, ?_, hc, hbase⟩
        rw [htask, Task.fingerprint, (settle_toBool_iff.mp hok).2]
    · refine Or.inl ?_
      simp only [hok]
      exact hc
  · obtain ⟨w, hw, -, -, -, hlock, rfl⟩ := of_next_unlock hi
    refine Or.inl ?_
    by_cases hvalue : w.work.outcome.isValue = true
    · simp only [hvalue, if_true]
      rw [h b w hlock hw]
      exact List.mem_cons_of_mem _ hc
    · simp only [hvalue]
      exact hc

/-- **A write reported successful** is in the live model the step leaves, and only a settling call
or the holder of the lock is told so. -/
theorem mem_contained_of_next (hi : s.next i = some s') {c : ℕ}
    {w : Writer D E T} {answer : WriteAnswer E T} (hw : s'.writers[c]? = some w)
    (hanswer : w.answer = some answer) (hok : answer.ok = true) :
    c ∈ s'.contained ∨
      ∃ v, s.writers[c]? = some v ∧ v.answer = some answer := by
  rcases i with ⟨b, key, operands, op⟩ | ⟨b, op⟩ | b | b | b | b | b
  · obtain ⟨-, rfl⟩ := of_next_start hi
    rcases lookup_insert_cases hw with ⟨-, rfl⟩ | ⟨-, hv⟩
    · contradiction
    · exact Or.inr ⟨w, hv, hanswer⟩
  · obtain ⟨-, rfl⟩ := of_next_lock hi
    rcases lookup_insert_cases hw with ⟨-, rfl⟩ | ⟨-, hv⟩
    · contradiction
    · exact Or.inr ⟨w, hv, hanswer⟩
  · obtain ⟨v, call, todo, hv, -, rfl⟩ := of_next_call hi
    rcases lookup_insert_cases hw with ⟨rfl, rfl⟩ | ⟨-, hold⟩
    · exact Or.inr ⟨v, hv, hanswer⟩
    · exact Or.inr ⟨w, hold, hanswer⟩
  · obtain ⟨v, hv, -, rfl⟩ := of_next_finish hi
    rcases lookup_insert_cases hw with ⟨rfl, rfl⟩ | ⟨-, hold⟩
    · exact Or.inr ⟨v, hv, hanswer⟩
    · exact Or.inr ⟨w, hold, hanswer⟩
  · obtain ⟨v, late, -, -, hlate, rfl⟩ := of_next_timeout hi
    -- A call that timed out is not told of a success.
    rcases lookup_insert_cases hw with ⟨-, rfl⟩ | ⟨-, hold⟩
    · rw [Option.some_inj] at hanswer
      rw [← hanswer, hlate] at hok
      contradiction
    · exact Or.inr ⟨w, hold, hanswer⟩
  · obtain ⟨v, key, operands, fingerprint, -, -, -, -, -, rfl⟩ := of_next_settle hi
    rcases lookup_insert_cases hw with ⟨rfl, rfl⟩ | ⟨-, hold⟩
    · rw [Option.some_inj] at hanswer
      rw [← hanswer, WriteAnswer.ok] at hok
      refine Or.inl ?_
      simp only [hok, if_true]
      exact List.mem_cons_self
    · exact Or.inr ⟨w, hold, hanswer⟩
  · obtain ⟨v, -, -, -, -, -, rfl⟩ := of_next_unlock hi
    rcases lookup_insert_cases hw with ⟨rfl, rfl⟩ | ⟨-, hold⟩
    · rw [Option.some_inj] at hanswer
      rw [← hanswer, WriteAnswer.ok] at hok
      refine Or.inl ?_
      simp only [hok, if_true]
      exact List.mem_cons_self
    · exact Or.inr ⟨w, hold, hanswer⟩

theorem lockInv_run {is : List (WriterStep D E T)}
    (h : (system live).Admits (fun _ _ ↦ True) (system live).init is) :
    ((system live).run (system live).init is).LockInv := by
  refine (GuardedSystem.ReachableUnder.init.run h).invariant LockInv ?_ ?_
  · intro c w hlock
    exact absurd hlock (Option.some_ne_none c).symm
  · intro s i _ hinv hi _
    exact hinv.next (exists_next hi)

/-- **No write is lost unseen but by an equal fingerprint**: what was reported successful is in the
live model, unless a call with an older snapshot settled at an equal fingerprint; one that finds
another fingerprint changes nothing. -/
theorem contained_or_overwritten (live : KernelModel D) (is : List (WriterStep D E T))
    (h : (system live).Admits (fun _ _ ↦ True) (system live).init is) :
    (∀ (c : ℕ) (w : Writer D E T) (answer : WriteAnswer E T),
      ((system live).run (system live).init is).writers[c]? = some w → w.answer = some answer →
        answer.ok = true →
        c ∈ ((system live).run (system live).init is).contained ∨
          ∃ before d after, is = before ++ .settle d :: after ∧
            ((system live).run (system live).init before).Overwrites d c) ∧
      ∀ (d : ℕ) (w : Writer D E T) (s' : SharedModel D E T),
        ((system live).run (system live).init is).writers[d]? = some w →
          w.task.fingerprint ≠
            some (modelFingerprint ((system live).run (system live).init is).live) →
          ((system live).run (system live).init is).next (.settle d) = some s' →
          s'.live = ((system live).run (system live).init is).live ∧
            s'.contained = ((system live).run (system live).init is).contained := by
  constructor
  · induction is using List.reverseRecOn with
    | nil =>
      intro c w answer hw
      rw [show ((system live).run (system live).init []).writers[c]? = none from
        Std.ExtTreeMap.getElem?_empty] at hw
      contradiction
    | append_singleton is i ih =>
      intro c w answer hw hanswer hok
      obtain ⟨hadmits, henabled, -⟩ := GuardedSystem.admits_concat.mp h
      have hi := exists_next henabled
      rw [GuardedSystem.run_concat] at hw ⊢
      rcases mem_contained_of_next hi hw hanswer hok with hmem | ⟨v, hv, hsame⟩
      · exact Or.inl hmem
      · -- It was contained before the step, or lost already.
        rcases ih hadmits c v answer hv hsame hok with hmem | ⟨before, d, after, rfl, hover⟩
        · rcases keeps_next (lockInv_run hadmits) hi c hmem with hkept | ⟨d, rfl, hover⟩
          · exact Or.inl hkept
          · exact Or.inr ⟨is, d, [], rfl, hover⟩
        · exact Or.inr ⟨before, d, after ++ [i], by rw [List.append_assoc]; rfl, hover⟩
  · intro d w s' hw hother hi
    obtain ⟨v, key, operands, fingerprint, hv, htask, -, -, -, rfl⟩ := of_next_settle hi
    rw [hw, Option.some_inj] at hv
    subst hv
    have hrefused : ¬ (settle key fingerprint w.work.result
        ((system live).run (system live).init is).live w.work.outcome).1.toBool = true := by
      rw [settle_toBool_iff]
      rintro ⟨-, hsame⟩
      rw [htask, Task.fingerprint, hsame] at hother
      exact hother rfl
    refine ⟨?_, if_neg hrefused⟩
    exact (snd_settle _ _ _ _ _).trans (if_neg hrefused)

/-! ## An example -/

private def modelAt (x : F64) : KernelModel exampleData :=
  { exampleWorld.model with vertices := (IdStore.empty.add ⟨(x, 0, 0), 0⟩).2 }

private def transformWork (_ : KernelModel exampleData) : Work exampleData String ℕ :=
  ⟨[], .value 0, modelAt 1⟩

private def idleWork (m : KernelModel exampleData) : Work exampleData String ℕ := ⟨[], .value 0, m⟩

/-- A bounded operation that meets no other writer. -/
private def aloneRun : List (WriterStep exampleData String ℕ) :=
  [.start 0 "boolean" [] idleWork, .finish 0, .settle 0]

/-- A transform between the snapshot and the swap of a bounded operation. -/
private def transformedRun : List (WriterStep exampleData String ℕ) :=
  [.start 0 "boolean" [] idleWork, .lock 1 transformWork, .finish 1, .unlock 1, .finish 0,
    .settle 0]

/-- A bounded operation alone stays. -/
theorem contained_or_overwritten_alone :
    0 ∈ ((system (modelAt 0)).run (system (modelAt 0)).init aloneRun).contained ∨
      ∃ before d after, aloneRun = before ++ .settle d :: after ∧
        ((system (modelAt 0)).run (system (modelAt 0)).init before).Overwrites d 0 :=
  (contained_or_overwritten (modelAt 0) aloneRun (by decide +kernel)).1 0 _ _ rfl rfl rfl

/-- **A transform is lost** when a bounded operation whose snapshot predates it is swapped in. -/
theorem not_contained_transform :
    (system (modelAt 0)).Admits (fun _ _ ↦ True) (system (modelAt 0)).init transformedRun ∧
      ((system (modelAt 0)).run (system (modelAt 0)).init transformedRun).live.vertices.get 0 =
        some ⟨(0, 0, 0), 0⟩ ∧
      ¬ ∀ is : List (WriterStep exampleData String ℕ),
        (system (modelAt 0)).Admits (fun _ _ ↦ True) (system (modelAt 0)).init is →
        ∀ (c : ℕ) (w : Writer exampleData String ℕ) (answer : WriteAnswer String ℕ),
          ((system (modelAt 0)).run (system (modelAt 0)).init is).writers[c]? = some w →
          w.answer = some answer → answer.ok = true →
          c ∈ ((system (modelAt 0)).run (system (modelAt 0)).init is).contained := by
  have hadmits : (system (modelAt 0)).Admits (fun _ _ ↦ True) (system (modelAt 0)).init
      transformedRun := by decide +kernel
  refine ⟨hadmits, by decide +kernel, fun h ↦ ?_⟩
  exact absurd (h transformedRun hadmits 1 _ _ rfl rfl rfl) (by decide +kernel)

end SharedModel

end RosheraCad
