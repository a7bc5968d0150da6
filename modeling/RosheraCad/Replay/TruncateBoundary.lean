import RosheraCad.Durability.Boot
import RosheraCad.Timeline.Preview

/-!
# The replay boundary after a truncate

A caller that will rebuild the live model after a truncate asks first whether the rebuild would be
refused. The answer is computed from the plan the truncate would apply, and is that of the timeline
the truncate leaves.
-/

namespace RosheraCad

/-! ## Extremes of lists in no particular order -/

section Extremes

variable {α β : Type*} [LinearOrder β] {f : α → β} {l l' : List α}

/-- The greatest element of a list does not depend on the order, when no two are equally great. -/
theorem argmax_eq_of_mem_iff (h : ∀ a, a ∈ l ↔ a ∈ l')
    (hinj : ∀ a ∈ l, ∀ b ∈ l, f a = f b → a = b) : l.argmax f = l'.argmax f := by
  rcases hl : l.argmax f with _ | a
  · rw [List.argmax_eq_none] at hl
    obtain rfl : l' = [] := List.eq_nil_iff_forall_not_mem.mpr fun a ha ↦ by
      rw [← h, hl] at ha
      exact List.not_mem_nil ha
    rfl
  · rcases hl' : l'.argmax f with _ | b
    · rw [List.argmax_eq_none] at hl'
      exact absurd ((h a).mp (List.argmax_mem hl)) (by rw [hl']; exact List.not_mem_nil)
    · have ha := List.argmax_mem hl
      have hb := (h b).mpr (List.argmax_mem hl')
      have hab : f b ≤ f a := List.le_of_mem_argmax hb hl
      have hba : f a ≤ f b := List.le_of_mem_argmax ((h a).mp ha) hl'
      exact congrArg some (hinj a ha b hb (le_antisymm hba hab))

theorem argmin_eq_of_mem_iff (h : ∀ a, a ∈ l ↔ a ∈ l')
    (hinj : ∀ a ∈ l, ∀ b ∈ l, f a = f b → a = b) : l.argmin f = l'.argmin f :=
  argmax_eq_of_mem_iff (β := βᵒᵈ) h hinj

end Extremes

namespace Timeline

variable (t : Timeline) (checks : ReplayChecks)

/-! ## The boundary of a history -/

def sortBySequence (events : List TimelineEvent) : List TimelineEvent :=
  events.insertionSort fun e e' ↦ e.sequenceNumber ≤ e'.sequenceNumber

def getBranchEvents (b : BranchId) (start : Option EventIndex) (limit : Option ℕ) :
    Except TimelineError (List TimelineEvent) :=
  match t.branchEvents[b]? with
  | none => .error (.branchNotFound b)
  | some m =>
    let keyed := m.toList.filter fun e ↦ start.getD 0 ≤ e.1
    let keyed := match limit with
      | some limit => keyed.take limit
      | none => keyed
    .ok (sortBySequence (t.eventsFor keyed))

def boundaryOver (inHistory : List EventId) (replayed : List TimelineEvent)
    (absent : List EventId) : Option Boundary :=
  let firstForeign := ((t.events.toList.filter fun e ↦ e.1 ∉ inHistory ∧ e.1 ∉ absent).argmin
    fun e ↦ e.2.sequenceNumber).map fun e ↦ (e.2.sequenceNumber, e.2.branchId)
  let producerOutside (solid : ℕ) (before : EventIndex) :=
    ((t.events.toList.filter fun e ↦ e.1 ∉ absent ∧ e.2.sequenceNumber < before ∧
      solid ∈ checks.recordedSolidOutputs e.2).argmax
        fun e ↦ e.2.sequenceNumber).map fun e ↦ (e.2.sequenceNumber, e.2.branchId)
  checks.subsetReplayBoundary replayed firstForeign producerOutside

/-- The first event of `replayed` that a replay of `b`'s history alone cannot reproduce. -/
def replayBoundary (b : BranchId) (replayed : List TimelineEvent) :
    Except TimelineError (Option Boundary) :=
  match t.branchEvents[b]? with
  | none => .error (.branchNotFound b)
  | some m => .ok (t.boundaryOver checks (m.toList.map Prod.snd) replayed [])

def replayBoundaryAfterTruncate (truncated : BranchId) (cut : EventIndex) (replayBranch : BranchId)
    (replayLimit : ℕ) : Except TimelineError (Option Boundary) :=
  match t.truncatePlan truncated cut with
  | .error e => .error e
  | .ok plan =>
    let history := t.postTruncateIndex plan replayBranch
    let replayed := (sortBySequence (t.eventsFor history)).take (min replayLimit history.length)
    .ok (t.boundaryOver checks (history.map Prod.snd) replayed plan.purged)

/-! ## Prediction and truncate -/

section Prediction

variable {t} {plan : TruncatePlan} {b : BranchId} {cut : EventIndex} {reserved : List EventIndex}

theorem entry_eq_of_sequence (h : t.WellFormed reserved) {e e' : EventId × TimelineEvent}
    (he : e ∈ t.events.toList) (he' : e' ∈ t.events.toList)
    (hseq : e.2.sequenceNumber = e'.2.sequenceNumber) : e = e' := by
  obtain ⟨id, ev⟩ := e
  obtain ⟨id', ev'⟩ := e'
  have hev := OrderedMap.mem_toList.mp he
  have hev' := OrderedMap.mem_toList.mp he'
  obtain rfl := h.sequences_unique id id' ev ev' hev hev' hseq
  rw [hev] at hev'
  rw [Option.some.inj hev']

theorem boundaryOver_applyTruncatePlan (h : t.WellFormed reserved) (inHistory : List EventId)
    (replayed : List TimelineEvent) :
    (t.applyTruncatePlan plan cut).boundaryOver checks inHistory replayed [] =
      t.boundaryOver checks inHistory replayed plan.purged := by
  have hmem : ∀ e : EventId × TimelineEvent,
      e ∈ (t.applyTruncatePlan plan cut).events.toList ↔
        e ∈ t.events.toList ∧ e.1 ∉ plan.purged := by
    rintro ⟨id, ev⟩
    rw [OrderedMap.mem_toList, OrderedMap.mem_toList, applyTruncatePlan_events]
    by_cases hid : id ∈ plan.purged
    · simp [hid]
    · simp [hid]
  -- Sequence numbers are unique, so the least and the greatest depend on the members only.
  have hinj : ∀ p : EventId × TimelineEvent → Bool,
      ∀ e ∈ (t.applyTruncatePlan plan cut).events.toList.filter p,
      ∀ e' ∈ (t.applyTruncatePlan plan cut).events.toList.filter p,
        e.2.sequenceNumber = e'.2.sequenceNumber → e = e' := by
    intro p e he e' he'
    exact entry_eq_of_sequence h ((hmem e).mp (List.mem_filter.mp he).1).1
      ((hmem e').mp (List.mem_filter.mp he').1).1
  have hforeign : ((t.applyTruncatePlan plan cut).events.toList.filter fun e ↦
      e.1 ∉ inHistory ∧ e.1 ∉ []).argmin (fun e ↦ e.2.sequenceNumber) =
      (t.events.toList.filter fun e ↦ e.1 ∉ inHistory ∧ e.1 ∉ plan.purged).argmin
        fun e ↦ e.2.sequenceNumber := by
    refine argmin_eq_of_mem_iff (fun e ↦ ?_) (hinj _)
    simp only [List.mem_filter, hmem, decide_eq_true_eq, List.not_mem_nil, not_false_eq_true]
    tauto
  have hproducer : ∀ solid before, ((t.applyTruncatePlan plan cut).events.toList.filter fun e ↦
      e.1 ∉ [] ∧ e.2.sequenceNumber < before ∧ solid ∈ checks.recordedSolidOutputs e.2).argmax
        (fun e ↦ e.2.sequenceNumber) =
      (t.events.toList.filter fun e ↦ e.1 ∉ plan.purged ∧ e.2.sequenceNumber < before ∧
        solid ∈ checks.recordedSolidOutputs e.2).argmax fun e ↦ e.2.sequenceNumber := by
    intro solid before
    refine argmax_eq_of_mem_iff (fun e ↦ ?_) (hinj _)
    simp only [List.mem_filter, hmem, decide_eq_true_eq, List.not_mem_nil, not_false_eq_true]
    tauto
  unfold boundaryOver
  simp only [hforeign, hproducer]

theorem toList_applyTruncatePlan {c : BranchId} {m : BranchIndex}
    (hm : (t.applyTruncatePlan plan cut).branchEvents[c]? = some m) :
    m.toList = t.postTruncateIndex plan c := by
  rw [applyTruncatePlan_branchEvents] at hm
  rw [postTruncateIndex]
  by_cases hc : plan.Scrubs c
  · rw [if_pos hc] at hm
    obtain ⟨m₀, hm₀, rfl⟩ := Option.map_eq_some_iff.mp hm
    rw [hm₀]
    refine OrderedMap.toList_eq_of_pairwise (m₀.pairwise_lt_toList.filter _) fun k e ↦ ?_
    rw [OrderedMap.getElem?_eraseKeys, List.mem_filter, OrderedMap.mem_toList, decide_eq_true_eq]
    by_cases hk : k ∈ plan.removedKeys
    · simp [hc, hk]
    · simp [hk]
  · rw [if_neg hc] at hm
    rw [hm]
    refine (List.filter_eq_self.mpr fun e _ ↦ ?_).symm
    simp [hc]

theorem eventsFor_applyTruncatePlan (hplan : t.truncatePlan b cut = .ok plan) {c : BranchId}
    {m : BranchIndex} (hm : (t.applyTruncatePlan plan cut).branchEvents[c]? = some m) :
    (t.applyTruncatePlan plan cut).eventsFor m.toList = t.eventsFor m.toList := by
  refine List.filterMap_congr fun e he ↦ ?_
  refine applyTruncatePlan_event_of_indexed hplan (c := c) (k := e.1) ?_
  rw [index_eq_of_getElem? hm]
  exact OrderedMap.mem_toList.mp he

theorem length_eventsFor_le (entries : List (EventIndex × EventId)) :
    (t.eventsFor entries).length ≤ entries.length := List.length_filterMap_le _ _

/-- Cutting a list at a bound that is itself cut at some length past its end. -/
theorem take_min_eq {α : Type*} {l : List α} {n limit : ℕ} (h : l.length ≤ n) :
    l.take (min limit n) = l.take (min limit l.length) := by
  rw [List.take_eq_take_iff]
  omega

theorem replayBoundary_applyTruncatePlan (h : t.WellFormed reserved)
    (hplan : t.truncatePlan b cut = .ok plan) {c : BranchId} {history : List TimelineEvent}
    (hhistory : (t.applyTruncatePlan plan cut).getBranchEvents c none none = .ok history)
    (limit : ℕ) :
    (t.applyTruncatePlan plan cut).replayBoundary checks c
        (history.take (min limit history.length)) =
      t.replayBoundaryAfterTruncate checks b cut c limit := by
  unfold getBranchEvents at hhistory
  rcases hm : (t.applyTruncatePlan plan cut).branchEvents[c]? with _ | m
  · rw [hm] at hhistory
    contradiction
  · rw [hm] at hhistory
    have hall : m.toList.filter (fun e ↦ (none : Option EventIndex).getD 0 ≤ e.1) = m.toList :=
      List.filter_eq_self.mpr fun e _ ↦ decide_eq_true (Nat.zero_le _)
    have hevents : sortBySequence (t.eventsFor m.toList) = history := by
      rw [← eventsFor_applyTruncatePlan hplan hm]
      simp only [hall] at hhistory
      exact Except.ok.inj hhistory
    have hlen : history.length ≤ m.toList.length := by
      rw [← hevents, sortBySequence, List.length_insertionSort]
      exact length_eventsFor_le _
    rw [replayBoundary, hm, replayBoundaryAfterTruncate, hplan]
    simp only [boundaryOver_applyTruncatePlan checks h, ← toList_applyTruncatePlan hm, hevents,
      take_min_eq hlen]

end Prediction

end Timeline

/-- **The boundary after a truncate is predicted**, on every reachable timeline; a truncate of a
missing branch is refused by both. -/
theorem replayBoundaryAfterTruncate_eq [UuidParser] {s : TimelineRun}
    (h : timelineSystem.Reachable s) (checks : ReplayChecks) (truncated : BranchId)
    (cut : EventIndex) (force : Bool) (replayBranch : BranchId) (limit : ℕ) :
    (∀ (removed : ℕ) (t : Timeline) (history : List TimelineEvent),
      s.timeline.truncateBranch truncated cut force = (.ok removed, t) →
      t.getBranchEvents replayBranch none none = .ok history →
        s.timeline.replayBoundaryAfterTruncate checks truncated cut replayBranch limit =
          t.replayBoundary checks replayBranch (history.take (min limit history.length))) ∧
    (truncated ∉ s.timeline.branchEvents →
      s.timeline.truncateBranch truncated cut force = (.error (.branchNotFound truncated),
        s.timeline) ∧
      s.timeline.replayBoundaryAfterTruncate checks truncated cut replayBranch limit =
        .error (.branchNotFound truncated)) := by
  have hwf := reachable_wellFormed h
  refine ⟨fun removed t history htruncate hhistory ↦ ?_, fun hmissing ↦ ?_⟩
  · unfold Timeline.truncateBranch at htruncate
    split at htruncate
    · exact nomatch (Prod.mk.inj htruncate).1
    · rcases hplan : s.timeline.truncatePlan truncated cut with e | plan
      · rw [hplan] at htruncate
        exact nomatch (Prod.mk.inj htruncate).1
      · rw [hplan] at htruncate
        obtain ⟨-, rfl⟩ := Prod.mk.inj htruncate
        exact (Timeline.replayBoundary_applyTruncatePlan checks hwf hplan hhistory limit).symm
  · have hplan : s.timeline.truncatePlan truncated cut = .error (.branchNotFound truncated) := by
      rw [Timeline.truncatePlan, OrderedMap.not_mem_iff.mp hmissing]
    have hrecord : s.timeline.branches[truncated]? = none := by
      rw [← OrderedMap.not_mem_iff, hwf.branches_agree]
      exact hmissing
    refine ⟨?_, ?_⟩
    · rw [Timeline.truncateBranch, hrecord, hplan]
      rfl
    · rw [Timeline.replayBoundaryAfterTruncate, hplan]

/-- Truncating the main branch of a diverged timeline, seen from the side branch. -/
theorem replayBoundaryAfterTruncate_eq_example :
    let checks : ReplayChecks := ⟨fun _ ↦ none, fun _ ↦ ["face:1"], fun _ ↦ [], fun _ ↦ []⟩
    let truncated := (divergedRun.timeline.truncateBranch .main 1 true).2
    ∃ history, truncated.getBranchEvents (exampleBranch 1) none none = .ok history ∧
      history.length = 2 ∧
      divergedRun.timeline.replayBoundaryAfterTruncate checks .main 1 (exampleBranch 1) 5 =
        truncated.replayBoundary checks (exampleBranch 1) (history.take (min 5 history.length)) :=
  letI := noUuids
  ⟨_, rfl, rfl, (replayBoundaryAfterTruncate_eq divergedRun_reachable _ .main 1 true
    (exampleBranch 1) 5).1 _ _ _ rfl rfl⟩

end RosheraCad
