import RosheraCad.Timeline.Conflict

/-!
# Exchanging the sides of a merge

The classification asks about the source's deletion first. As long as one side at most deleted a
subject, the order makes no difference. When both did, and one of them touched it as well, the two
directions may pair different events.
-/

namespace RosheraCad

def MergeConflict.swap (c : MergeConflict) : MergeConflict :=
  { c with sourceEvent := c.targetEvent, targetEvent := c.sourceEvent }

/-- The two directions detect the same conflicts, with the witnesses exchanged. -/
def DetectsAlike (a b : List TimelineEvent) : Prop :=
  ∀ c, c ∈ classifyDivergenceConflicts a b ↔ c.swap ∈ classifyDivergenceConflicts b a

/-- Both sides deleted the subject, and both touched it, not each in its last deletion, or one
touched it and the other required it. -/
def SubjectRole.Lopsided (source target : SubjectRole) : Prop :=
  source.deletedBy.isSome ∧ target.deletedBy.isSome ∧
    match source.touchedBy, target.touchedBy with
    | some st, some tt => ¬ (source.deletedBy = some st ∧ target.deletedBy = some tt)
    | some _, none => target.requiredBy.isSome
    | none, some _ => source.requiredBy.isSome
    | none, none => False

def exchanged (c : ConflictType × TimelineEvent × TimelineEvent) :
    ConflictType × TimelineEvent × TimelineEvent := (c.1, c.2.2, c.2.1)

/-! ## One subject -/

section Subject

variable {source target : SubjectRole}

theorem operationsIdentical_comm (a b : Operation) :
    operationsIdentical a b = operationsIdentical b a := by
  simp only [operationsIdentical, eq_comm]

theorem classifySubjectConflict_comm_of_kept
    (h : source.deletedBy = none ∨ target.deletedBy = none) :
    classifySubjectConflict target source =
      (classifySubjectConflict source target).map exchanged := by
  obtain ⟨sd, st, sr⟩ := source
  obtain ⟨td, tt, tr⟩ := target
  rcases sd with _ | sd
  · rcases td with _ | td
    · -- Nobody deleted it: what is left is whether both touched it.
      rcases st with _ | st <;> rcases tt with _ | tt
      · rfl
      · rfl
      · rfl
      · simp only [classifySubjectConflict, Option.isNone_some, Option.isSome_none,
          Bool.false_eq_true, and_false, if_false, operationsIdentical_comm tt.operation]
        split <;> rfl
    · rcases st with _ | st <;> rcases sr with _ | sr <;> rcases tt with _ | tt <;> rfl
  · obtain rfl : td = none := h.resolve_left nofun
    rcases st with _ | st <;> rcases tr with _ | tr <;> rcases tt with _ | tt <;> rfl

theorem classifySubjectConflict_comm_of_deleted (hs : source.deletedBy.isSome)
    (ht : target.deletedBy.isSome) :
    classifySubjectConflict target source = (classifySubjectConflict source target).map exchanged ↔
      ¬ source.Lopsided target := by
  obtain ⟨sd, hsd⟩ := Option.isSome_iff_exists.mp hs
  obtain ⟨td, htd⟩ := Option.isSome_iff_exists.mp ht
  obtain ⟨_, st, sr⟩ := source
  obtain ⟨_, tt, tr⟩ := target
  subst hsd htd
  rw [SubjectRole.Lopsided, and_iff_right hs, and_iff_right ht]
  rcases st with _ | st <;> rcases tt with _ | tt
  · exact iff_of_true rfl not_false
  · -- Only the target touched it: asked from its side, the source's requirement comes first.
    rcases sr with _ | sr
    · exact iff_of_true rfl nofun
    · exact iff_of_false nofun (not_not.mpr rfl)
  · rcases tr with _ | tr
    · exact iff_of_true rfl nofun
    · exact iff_of_false nofun (not_not.mpr rfl)
  · have hleft : classifySubjectConflict ⟨some td, some tt, tr⟩ ⟨some sd, some st, sr⟩ =
        some (.deleteModify, td, st) := rfl
    have hright : classifySubjectConflict ⟨some sd, some st, sr⟩ ⟨some td, some tt, tr⟩ =
        some (.deleteModify, sd, tt) := rfl
    rw [hleft, hright, Option.map_some, exchanged, not_not]
    simp only [Option.some_inj, Prod.mk.injEq, true_and]
    exact ⟨fun ⟨htd, hst⟩ ↦ ⟨hst.symm, htd⟩, fun ⟨hst, htd⟩ ↦ ⟨htd, hst.symm⟩⟩

theorem classifySubjectConflict_comm_iff :
    classifySubjectConflict target source = (classifySubjectConflict source target).map exchanged ↔
      ¬ source.Lopsided target := by
  by_cases h : source.deletedBy = none ∨ target.deletedBy = none
  · refine iff_of_true (classifySubjectConflict_comm_of_kept h) fun hlopsided ↦ ?_
    rcases h with h | h
    · simpa [h] using hlopsided.1
    · simpa [h] using hlopsided.2.1
  · rw [not_or] at h
    exact classifySubjectConflict_comm_of_deleted (Option.isSome_iff_ne_none.mpr h.1)
      (Option.isSome_iff_ne_none.mpr h.2)

end Subject

/-- **The two directions detect the same conflicts** exactly when no subject's roles are
lopsided. -/
theorem detectsAlike_iff (a b : List TimelineEvent) :
    DetectsAlike a b ↔ ∀ s, ¬ (roleOf a s).Lopsided (roleOf b s) := by
  have hsubject (s : ConflictSubject) :
      (∀ ty e e', classifySubjectConflict (roleOf a s) (roleOf b s) = some (ty, e, e') ↔
        classifySubjectConflict (roleOf b s) (roleOf a s) = some (ty, e', e)) ↔
      classifySubjectConflict (roleOf b s) (roleOf a s) =
        (classifySubjectConflict (roleOf a s) (roleOf b s)).map exchanged := by
    constructor
    · intro h
      refine Option.ext fun c ↦ ?_
      rw [← h, Option.map_eq_some_iff]
      exact ⟨fun hc ↦ ⟨exchanged c, hc, rfl⟩, fun ⟨c', hc', heq⟩ ↦ heq ▸ hc'⟩
    · intro h ty e e'
      rw [h, Option.map_eq_some_iff]
      refine ⟨fun hc ↦ ⟨_, hc, rfl⟩, fun ⟨c, hc, heq⟩ ↦ ?_⟩
      obtain ⟨rfl, rfl, rfl⟩ : c.1 = ty ∧ c.2.2 = e' ∧ c.2.1 = e := by
        simpa [exchanged] using heq
      exact hc
  have hall : DetectsAlike a b ↔ ∀ s ty e e',
      classifySubjectConflict (roleOf a s) (roleOf b s) = some (ty, e, e') ↔
        classifySubjectConflict (roleOf b s) (roleOf a s) = some (ty, e', e) := by
    refine ⟨fun h s ty e e' ↦ ?_, fun h c ↦ ?_⟩
    · have hc := h ⟨s, ty, e, e'⟩
      rwa [mem_classifyDivergenceConflicts, mem_classifyDivergenceConflicts] at hc
    · rw [mem_classifyDivergenceConflicts, mem_classifyDivergenceConflicts]
      exact h c.subject c.conflictType c.sourceEvent c.targetEvent
  rw [hall]
  exact forall_congr' fun s ↦ (hsubject s).trans classifySubjectConflict_comm_iff

/-! ## A subject both sides deleted -/

private def eventOf (n : ℕ) (operation : Operation) : TimelineEvent :=
  { TimelineEvent.ofWire n "" [] [] with operation }

private def sharedEntity : EntityId := ⟨1⟩

/-- A side that modifies the entity and deletes it. -/
private def modifies : List TimelineEvent :=
  [eventOf 1 (.modify sharedEntity .null), eventOf 2 (.delete [sharedEntity])]

/-- A side that extrudes the entity and deletes it. -/
private def extrudes : List TimelineEvent :=
  [eventOf 3 (.extrude sharedEntity .null .null), eventOf 4 (.delete [sharedEntity])]

/-- From one side the deletion meets a requirement, from the other a modification. -/
theorem not_detectsAlike_of_both_deleted : ¬ DetectsAlike modifies extrudes := by
  intro h
  have hforward : classifySubjectConflict (roleOf modifies (.entity sharedEntity))
      (roleOf extrudes (.entity sharedEntity)) = some (.dependencyConflict,
        eventOf 2 (.delete [sharedEntity]), eventOf 3 (.extrude sharedEntity .null .null)) := rfl
  have hbackward : classifySubjectConflict (roleOf extrudes (.entity sharedEntity))
      (roleOf modifies (.entity sharedEntity)) = some (.deleteModify,
        eventOf 4 (.delete [sharedEntity]), eventOf 1 (.modify sharedEntity .null)) := rfl
  have hswap := mem_classifyDivergenceConflicts.mp
    ((h ⟨.entity sharedEntity, _, _, _⟩).mp (mem_classifyDivergenceConflicts.mpr hforward))
  have htype := congrArg Prod.fst (Option.some_inj.mp (hbackward.symm.trans hswap))
  exact absurd htype nofun

end RosheraCad
