import RosheraCad.Bounded.Interleaving

/-!
# Recorded and applied

A computation records while it runs, and only later it is decided whether its clone is swapped in.
So a call that is not swapped in has nevertheless recorded.
-/

namespace RosheraCad

open Nesting

namespace StagingState

variable {state state' : StagingState} {cs ds : List StagingCall}

theorem calls_append :
    state.calls (cs ++ ds) = (((state.calls cs).1.calls ds).1,
      (state.calls cs).2 ++ ((state.calls cs).1.calls ds).2) :=
  calls_append_eq rfl rfl

theorem calls_concat (c : StagingCall) :
    state.calls (cs ++ [c]) = (((state.calls cs).1.call c).1,
      (state.calls cs).2 ++ ((state.calls cs).1.call c).2) := by
  rw [calls_append, calls, calls, List.append_nil]

theorem calls_new_of_balanced (h : Balanced cs) : (new.calls cs).1 = new := by
  obtain ⟨nest, rfl⟩ := exists_tokens_eq_of_balanced h
  rw [calls_tokens_of_idle idle_new]

end StagingState

namespace SharedModel

variable {D : ModelData} {E T : Type} (s : SharedModel D E T)

def handedBy (c : ℕ) : List StagedOp := (s.handed.filter (·.1 = c)).map Prod.snd

def done (c : ℕ) : List StagingCall := s.writers[c]?.elim [] Writer.done

/-- Every computation closes its windows, no other writer has one open at a recorder call, and a
call that fails hands over nothing. -/
def Calm : WriterStep D E T → Prop
  | .start _ _ _ op => Balanced (op (cloneOf s.live)).calls
  | .lock _ op => Balanced (op s.live).calls
  | .call c => ∀ e ∈ s.writers.toList, e.1 ≠ c → Balanced e.2.done
  | .finish _ => True
  | .timeout c => ∀ w ∈ s.writers[c]?, w.work.events = []
  | .settle c => ∀ w ∈ s.writers[c]?, w.work.events = [] ∨
    (w.work.outcome.isValue ∧ w.task.fingerprint = some (modelFingerprint s.live))
  | .unlock _ => True

instance : DecidablePred s.Calm
  | .start _ _ _ op => inferInstanceAs (Decidable (Balanced (op (cloneOf s.live)).calls))
  | .lock _ op => inferInstanceAs (Decidable (Balanced (op s.live).calls))
  | .call c => inferInstanceAs (Decidable (∀ e ∈ s.writers.toList, e.1 ≠ c → Balanced e.2.done))
  | .finish _ => isTrue trivial
  | .timeout c => inferInstanceAs (Decidable (∀ w ∈ s.writers[c]?, w.work.events = []))
  | .settle c => inferInstanceAs (Decidable (∀ w ∈ s.writers[c]?, w.work.events = [] ∨
      (w.work.outcome.isValue ∧ w.task.fingerprint = some (modelFingerprint s.live))))
  | .unlock _ => isTrue trivial

structure WriterInv (c : ℕ) (w : Writer D E T) : Prop where
  split : w.done ++ w.todo = w.work.calls
  balanced : Balanced w.work.calls
  handed : s.handedBy c = (StagingState.new.calls w.done).2
  finished : w.finished = true → w.todo = []
  pending : w.answer = none → c ∉ s.swapped
  answered : w.task ≠ .inPlace → w.answer ≠ none →
    (c ∈ s.swapped ∧ w.finished = true) ∨ (c ∉ s.swapped ∧ w.work.events = [])

structure RecordingInv : Prop where
  writer : ∀ (c : ℕ) (w : Writer D E T), s.writers[c]? = some w → s.WriterInv c w
  absent : ∀ c : ℕ, s.writers[c]? = none → s.handedBy c = [] ∧ c ∉ s.swapped
  staging : ∃ c, s.staging = (StagingState.new.calls (s.done c)).1 ∧
    ∀ d, d ≠ c → Balanced (s.done d)

variable {s} {s' : SharedModel D E T} {c d : ℕ} {w v : Writer D E T}

theorem done_eq (hw : s.writers[c]? = some w) : s.done c = w.done := by
  rw [done, hw]
  rfl

theorem WriterInv.transfer (h : s.WriterInv c w) (hhanded : s'.handedBy c = s.handedBy c)
    (hswapped : c ∈ s'.swapped ↔ c ∈ s.swapped) : s'.WriterInv c w where
  split := h.split
  balanced := h.balanced
  handed := hhanded.trans h.handed
  finished := h.finished
  pending ha := by
    rw [hswapped]
    exact h.pending ha
  answered ht ha := by
    rw [hswapped]
    exact h.answered ht ha

theorem WriterInv.handedBy_eq (h : s.WriterInv c w) (ht : w.task ≠ .inPlace)
    (ha : w.answer ≠ none) : s.handedBy c = if c ∈ s.swapped then w.work.events else [] := by
  rcases h.answered ht ha with ⟨hmem, hfinished⟩ | ⟨hmem, hevents⟩
  · have hdone : w.done = w.work.calls := by
      rw [← h.split, h.finished hfinished, List.append_nil]
    rw [if_pos hmem, h.handed, hdone, Work.events]
  · -- What has been handed over so far is the beginning of nothing.
    rw [Work.events, ← h.split, StagingState.calls_append] at hevents
    rw [if_neg hmem, h.handed]
    exact (List.append_eq_nil_iff.mp hevents).1

section

variable (h : s.RecordingInv)

include h

theorem RecordingInv.of_insert (hwriters : s'.writers = s.writers.insert c v)
    (hhanded : ∀ d, d ≠ c → s'.handedBy d = s.handedBy d)
    (hswapped : ∀ d, d ≠ c → (d ∈ s'.swapped ↔ d ∈ s.swapped)) (hv : s'.WriterInv c v)
    (hstaging : ∃ c, s'.staging = (StagingState.new.calls (s'.done c)).1 ∧
      ∀ d, d ≠ c → Balanced (s'.done d)) : s'.RecordingInv := by
  have hlookup : ∀ d, s'.writers[d]? = if d = c then some v else s.writers[d]? := by
    intro d
    rw [hwriters, OrderedMap.lookup_insert]
  refine ⟨fun d u hu ↦ ?_, fun d hd ↦ ?_, hstaging⟩
  · by_cases hdc : d = c
    · rw [hlookup, if_pos hdc, Option.some_inj] at hu
      exact hu ▸ hdc ▸ hv
    · rw [hlookup, if_neg hdc] at hu
      exact (h.writer d u hu).transfer (hhanded d hdc) (hswapped d hdc)
  · by_cases hdc : d = c
    · rw [hlookup, if_pos hdc] at hd
      contradiction
    · rw [hlookup, if_neg hdc] at hd
      rw [hhanded d hdc, hswapped d hdc]
      exact h.absent d hd

theorem RecordingInv.of_no_call
    (hwriters : s'.writers = s.writers.insert c v) (hdone : v.done = s.done c)
    (hstaging : s'.staging = s.staging) (hhanded : s'.handed = s.handed)
    (hswapped : ∀ d, d ≠ c → (d ∈ s'.swapped ↔ d ∈ s.swapped)) (hv : s'.WriterInv c v) :
    s'.RecordingInv := by
  have hsame : ∀ d, s'.done d = s.done d := by
    intro d
    by_cases hdc : d = c
    · rw [hdc, done, hwriters, OrderedMap.lookup_insert, if_pos rfl, ← hdone]
      rfl
    · rw [done, hwriters, OrderedMap.lookup_insert, if_neg hdc, done]
  refine h.of_insert hwriters (fun d _ ↦ by rw [handedBy, handedBy, hhanded]) hswapped hv ?_
  obtain ⟨b, hb, hclosed⟩ := h.staging
  refine ⟨b, by rw [hstaging, hsame, hb], fun d hd ↦ ?_⟩
  rw [hsame]
  exact hclosed d hd

theorem RecordingInv.enter (hc : c ∉ s.writers) (task : Task)
    {work : Work D E T} (hwork : Balanced work.calls) (lock : Option ℕ) :
    { s.enter c task work with lock := lock }.RecordingInv := by
  obtain ⟨hhanded, hswapped⟩ := h.absent c (OrderedMap.not_mem_iff.mp hc)
  have hdone : s.done c = [] := by
    rw [done, OrderedMap.not_mem_iff.mp hc]
    rfl
  refine h.of_no_call rfl hdone.symm rfl rfl (fun _ _ ↦ Iff.rfl) ?_
  exact ⟨rfl, hwork, hhanded, nofun, fun _ ↦ hswapped, fun _ ha ↦ absurd rfl ha⟩

theorem RecordingInv.call {call : StagingCall} {todo : List StagingCall}
    (hw : s.writers[c]? = some w) (htodo : w.todo = call :: todo)
    (hclosed : ∀ e ∈ s.writers.toList, e.1 ≠ c → Balanced e.2.done) :
    { s with
      staging := (s.staging.call call).1
      handed := s.handed ++ (s.staging.call call).2.map (c, ·)
      writers := s.writers.insert c
        { w with done := w.done ++ [call], todo := todo } }.RecordingInv := by
  have hothers : ∀ d, d ≠ c → Balanced (s.done d) := by
    intro d hd
    rw [done]
    rcases hu : s.writers[d]? with _ | u
    · rfl
    · exact hclosed (d, u) (OrderedMap.mem_toList.mpr hu) hd
  -- The recorder is as if only this writer had called it.
  have hstaging : s.staging = (StagingState.new.calls w.done).1 := by
    obtain ⟨b, hb, hbclosed⟩ := h.staging
    by_cases hbc : b = c
    · rw [hb, hbc, done_eq hw]
    · have hnew : Balanced w.done := done_eq hw ▸ hbclosed c (Ne.symm hbc)
      rw [hb, StagingState.calls_new_of_balanced (hothers b hbc),
        StagingState.calls_new_of_balanced hnew]
  have hinv := h.writer c w hw
  have hbooks : ∀ d, d ≠ c → ((s.handed ++ (s.staging.call call).2.map (c, ·)).filter
      (·.1 = d)).map Prod.snd = s.handedBy d := by
    intro d hd
    have hnone : ((s.staging.call call).2.map (c, ·)).filter (·.1 = d) = [] := by
      rw [List.filter_eq_nil_iff]
      intro e he
      obtain ⟨op, -, rfl⟩ := List.mem_map.mp he
      simpa using hd.symm
    rw [List.filter_append, hnone, List.append_nil, handedBy]
  refine h.of_insert rfl hbooks (fun _ _ ↦ Iff.rfl) ?_ ⟨c, ?_, fun d hd ↦ ?_⟩
  · refine ⟨?_, hinv.balanced, ?_, fun hf ↦ ?_, hinv.pending, hinv.answered⟩
    · rw [← hinv.split, htodo, List.append_assoc]
      rfl
    · have hall : ((s.staging.call call).2.map (c, ·)).filter (·.1 = c) =
          (s.staging.call call).2.map (c, ·) := by
        rw [List.filter_eq_self]
        intro e he
        obtain ⟨op, -, rfl⟩ := List.mem_map.mp he
        exact decide_eq_true rfl
      rw [StagingState.calls_concat, ← hstaging, handedBy, List.filter_append, hall,
        List.map_append, List.map_map, ← hinv.handed, handedBy]
      exact congrArg _ (List.map_id _)
    · rw [hinv.finished hf] at htodo
      contradiction
  · rw [done, OrderedMap.lookup_insert, if_pos rfl, Option.elim_some, StagingState.calls_concat,
      hstaging]
  · rw [done, OrderedMap.lookup_insert, if_neg hd]
    exact hothers d hd

/-- A bounded call is answered, with its clone swapped in or not. -/
theorem RecordingInv.answer (hw : s.writers[c]? = some w)
    (hanswer : w.answer = none) {live : KernelModel D} {answer : WriteAnswer E T}
    {contained : List ℕ} (swap : Bool) (hswap : swap = true → w.finished = true)
    (hcalm : w.work.events = [] ∨ swap = true) :
    { s with
      live := live
      writers := s.writers.insert c { w with answer := some answer }
      swapped := if swap then c :: s.swapped else s.swapped
      contained := contained }.RecordingInv := by
  have hinv := h.writer c w hw
  refine h.of_no_call rfl (done_eq hw).symm rfl rfl (fun d hd ↦ ?_) ?_
  · rcases swap with _ | _
    · rfl
    · exact List.mem_cons.trans (or_iff_right hd)
  · refine ⟨hinv.split, hinv.balanced, hinv.handed, hinv.finished, nofun, fun _ _ ↦ ?_⟩
    rcases swap with _ | _
    · exact Or.inr ⟨hinv.pending hanswer, hcalm.resolve_right nofun⟩
    · exact Or.inl ⟨List.mem_cons_self, hswap rfl⟩

/-- **One calm step** keeps the invariant. -/
theorem RecordingInv.next {i : WriterStep D E T} (hi : s.next i = some s')
    (hcalm : s.Calm i) : s'.RecordingInv := by
  rcases i with ⟨c, key, operands, op⟩ | ⟨c, op⟩ | c | c | c | c | c
  · obtain ⟨hc, rfl⟩ := of_next_start hi
    exact h.enter hc _ hcalm s.lock
  · obtain ⟨hc, rfl⟩ := of_next_lock hi
    exact h.enter hc _ hcalm (some c)
  · obtain ⟨w, call, todo, hw, htodo, rfl⟩ := of_next_call hi
    exact h.call hw htodo hcalm
  · obtain ⟨w, hw, htodo, rfl⟩ := of_next_finish hi
    have hinv := h.writer c w hw
    refine h.of_no_call rfl (done_eq hw).symm rfl rfl (fun _ _ ↦ Iff.rfl) ?_
    refine ⟨hinv.split, hinv.balanced, hinv.handed, fun _ ↦ htodo, hinv.pending, fun ht ha ↦ ?_⟩
    exact (hinv.answered ht ha).imp (fun hin ↦ ⟨hin.1, rfl⟩) id
  · obtain ⟨w, answer, hw, hanswer, -, rfl⟩ := of_next_timeout hi
    exact h.answer hw hanswer false nofun (Or.inl (hcalm w hw))
  · obtain ⟨w, key, operands, fingerprint, hw, htask, hfinished, hanswer, -, rfl⟩ :=
      of_next_settle hi
    refine h.answer hw hanswer _ (fun _ ↦ hfinished) ((hcalm w hw).imp id fun ⟨hvalue, hsame⟩ ↦ ?_)
    rw [htask, Task.fingerprint, Option.some_inj] at hsame
    exact settle_toBool_iff.mpr ⟨hvalue, hsame.symm⟩
  · obtain ⟨w, hw, htask, -, hanswer, -, rfl⟩ := of_next_unlock hi
    have hinv := h.writer c w hw
    refine h.of_no_call rfl (done_eq hw).symm rfl rfl (fun _ _ ↦ Iff.rfl) ?_
    refine ⟨hinv.split, hinv.balanced, hinv.handed, hinv.finished, nofun, fun ht _ ↦ ?_⟩
    exact absurd htask ht

end

theorem recordingInv_of_reachable {live : KernelModel D}
    (h : (system live).ReachableUnder Calm s) : s.RecordingInv := by
  refine h.invariant RecordingInv ?_ fun s i _ hinv hi hcalm ↦ hinv.next (exists_next hi) hcalm
  have hnone : ∀ c : ℕ, (init live : SharedModel D E T).writers[c]? = none :=
    fun c ↦ Std.ExtTreeMap.getElem?_empty
  have hdone : ∀ c, (init live : SharedModel D E T).done c = [] := by
    intro c
    rw [done, hnone]
    rfl
  refine ⟨fun c w hw ↦ ?_, fun _ _ ↦ ⟨rfl, List.not_mem_nil⟩, 0, ?_, fun d _ ↦ ?_⟩
  · rw [system, hnone] at hw
    contradiction
  · rw [system, hdone]
    rfl
  · rw [system, hdone]
    rfl

/-- **Recorded if and only if applied.** In a calm run an answered call has handed over all its
events if its clone was swapped in, and none otherwise. -/
theorem recorded_iff_swapped {live : KernelModel D} {s : SharedModel D E T}
    (h : (system live).ReachableUnder Calm s) {c : ℕ} {w : Writer D E T}
    (hw : s.writers[c]? = some w) (ht : w.task ≠ .inPlace) (ha : w.answer ≠ none) :
    s.handedBy c = if c ∈ s.swapped then w.work.events else [] :=
  ((recordingInv_of_reachable h).writer c w hw).handedBy_eq ht ha

/-! ## An example -/

private def booleanEvent : StagedOp :=
  ⟨⟨"boolean", .null, [], [], [], []⟩, none, .system, BranchId.main, none⟩

private def booleanWork (m : KernelModel exampleData) : Work exampleData String ℕ :=
  ⟨[.start, .item booleanEvent, .stop .commit], .value 0, m⟩

private def booleanRun : List (WriterStep exampleData String ℕ) :=
  [.start 0 "boolean" [] booleanWork, .call 0, .call 0, .call 0, .finish 0, .settle 0]

/-- A boolean that overruns its budget, and whose thread is abandoned. -/
private def abandonedRun : List (WriterStep exampleData String ℕ) :=
  [.start 0 "boolean" [] booleanWork, .timeout 0, .call 0, .call 0, .call 0, .finish 0]

theorem recorded_iff_swapped_boolean :
    ((system exampleWorld.model).run (system exampleWorld.model).init booleanRun).handedBy 0
      = [booleanEvent] := by
  have h : (system exampleWorld.model).ReachableUnder Calm
      ((system exampleWorld.model).run (system exampleWorld.model).init booleanRun) :=
    GuardedSystem.ReachableUnder.init.run (by decide +kernel)
  exact recorded_iff_swapped h (c := 0) rfl nofun nofun

/-- **An abandoned computation records** after its call was answered. -/
theorem not_recorded_iff_swapped_abandoned :
    (system exampleWorld.model).Admits (fun _ _ ↦ True) (system exampleWorld.model).init
        abandonedRun ∧
      ¬ ∀ (s : SharedModel exampleData String ℕ), (system exampleWorld.model).Reachable s →
        ∀ (c : ℕ) (w : Writer exampleData String ℕ), s.writers[c]? = some w → w.task ≠ .inPlace →
          w.answer ≠ none → s.handedBy c = if c ∈ s.swapped then w.work.events else [] := by
  have hadmits : (system exampleWorld.model).Admits (fun _ _ ↦ True)
      (system exampleWorld.model).init abandonedRun := by decide +kernel
  refine ⟨hadmits, fun h ↦ ?_⟩
  have hreached := GuardedSystem.ReachableUnder.init.run hadmits
  have hbooks := h _ hreached 0 _ rfl nofun nofun
  have hhanded : ((system exampleWorld.model).run (system exampleWorld.model).init
      abandonedRun).handedBy 0 = [booleanEvent] := rfl
  rw [hhanded, if_neg (by decide +kernel)] at hbooks
  exact List.cons_ne_nil _ _ hbooks

end SharedModel

end RosheraCad
