import RosheraCad.Recorder.EventKeys
import Mathlib.Data.List.Count
import Mathlib.Data.List.Perm.Basic

/-!
# Where a reserved number is

A number reserved through the recorder has at most one place from which it may still reach an event:
a call that drew it, a model that cached it, a staged record, a record handed over, the staging
state. An open scope is the exception: its number is cached by the client that builds and carried by
its staged records.
-/

namespace RosheraCad

namespace KeyRun

variable (s : KeyRun) {c : ClientId} {seq : EventIndex} {k : EventIndex}

/-! ## What an append numbers -/

section Append

variable [UuidParser] {t : Timeline} {reserved : List EventIndex} {eventId : EventId}

theorem appendInternal_storedSequence (h : t.WellFormed reserved) (hid : eventId ∉ t.events)
    (operation : Operation) (author : Author) (b : BranchId) (taken : Option EventIndex) :
    (storedSequence (t.appendInternal operation author b taken eventId).2 eventId = none ∧
        (t.appendInternal operation author b taken eventId).2.eventCounter = t.eventCounter) ∨
      (storedSequence (t.appendInternal operation author b taken eventId).2 eventId =
          some (taken.getD t.eventCounter) ∧
        t.eventCounter ≤ (t.appendInternal operation author b taken eventId).2.eventCounter ∧
        (taken = none → t.eventCounter <
          (t.appendInternal operation author b taken eventId).2.eventCounter)) := by
  obtain ⟨-, e, heq⟩ | ⟨-, discarded, t', hd, heq⟩ :=
    Timeline.appendInternal_cases h operation author b taken eventId
  · rw [heq, storedSequence, OrderedMap.not_mem_iff.mp hid]
    exact Or.inl ⟨rfl, rfl⟩
  · obtain ⟨-, hcounter, -⟩ := Timeline.discardRedoTail_frame h b
    rw [hd] at hcounter
    rw [heq, storedSequence, Timeline.insertEvent_events]
    rcases taken with _ | seq
    · refine Or.inr ⟨?_, ?_, fun _ ↦ ?_⟩
      · simpa [Timeline.newEvent, Timeline.takeSequence, Timeline.reserveSequenceNumber] using
          hcounter
      · exact hcounter ▸ Nat.le_succ _
      · exact hcounter ▸ Nat.lt_succ_self _
    · refine Or.inr ⟨?_, hcounter ▸ le_rfl, fun htaken ↦ ?_⟩
      · simp [Timeline.newEvent, Timeline.takeSequence]
      · cases htaken

omit [UuidParser] in
private theorem eventCounter_updateSessionPosition (t : Timeline) (session : SessionId)
    (b : BranchId) (i : EventIndex) :
    (t.updateSessionPosition session b i).2.eventCounter = t.eventCounter := by
  obtain ⟨e, heq⟩ | ⟨-, -, heq⟩ := Timeline.updateSessionPosition_cases t session b i
  · exact congrArg (fun o ↦ o.2.eventCounter) heq
  · exact congrArg (fun o ↦ o.2.eventCounter) heq

theorem eventCounter_step_le {run : TimelineRun} (h : run.timeline.WellFormed run.reserved)
    {op : TimelineOp} (hop : op.eventId? = none) :
    run.timeline.eventCounter ≤ (run.step op).timeline.eventCounter := by
  cases op with
  | reserveSequenceNumber => exact Nat.le_succ _
  | addOperation operation author b eventId => exact nomatch hop
  | addOperationReserved operation author b seq eventId => exact nomatch hop
  | createBranch name parent forkPoint author branchId =>
    obtain ⟨-, heq⟩ | ⟨-, heq⟩ :=
      Timeline.createBranch_cases run.timeline name parent forkPoint author branchId
    · exact (congrArg (fun o ↦ o.2.eventCounter) heq).ge
    · exact (congrArg (fun o ↦ o.2.eventCounter) heq).ge
  | mergeBranches source target strategy now =>
    obtain ⟨e, heq⟩ | ⟨conflicts, -, heq⟩ | ⟨entries, -, -, heq⟩ :=
      Timeline.mergeBranches_cases h source target strategy now
    · exact (congrArg (fun o ↦ o.2.eventCounter) heq).ge
    · exact (congrArg (fun o ↦ o.2.eventCounter) heq).ge
    · exact (congrArg (fun o ↦ o.2.eventCounter) heq).ge
  | truncateBranch b cut force =>
    show _ ≤ (run.timeline.truncateBranch b cut force).2.eventCounter
    rw [Timeline.truncateBranch]
    split_ifs
    · exact le_rfl
    · rcases run.timeline.truncatePlan b cut with e | plan
      · exact le_rfl
      · exact le_rfl
  | abandonBranch b reason force =>
    obtain ⟨e, heq⟩ | ⟨-, heq⟩ := Timeline.abandonBranch_cases run.timeline b reason force
    · exact (congrArg (fun o ↦ o.2.eventCounter) heq).ge
    · exact (congrArg (fun o ↦ o.2.eventCounter) heq).ge
  | updateSessionPosition session b i => exact (eventCounter_updateSessionPosition _ _ _ _).ge
  | setAppliedHead b count =>
    obtain ⟨e, heq⟩ | ⟨-, -, heq⟩ | ⟨-, -, heq⟩ :=
      Timeline.setAppliedHead_cases run.timeline b count
    · exact (congrArg (fun o ↦ o.2.eventCounter) heq).ge
    · exact (congrArg (fun o ↦ o.2.eventCounter) heq).ge
    · exact (congrArg (fun o ↦ o.2.eventCounter) heq).ge
  | undo session =>
    obtain heq | ⟨b, i, heq⟩ := Timeline.undo_cases run.timeline session
    · exact (congrArg Timeline.eventCounter heq).ge
    · exact ((congrArg Timeline.eventCounter heq).trans
        (eventCounter_updateSessionPosition _ _ _ _)).ge
  | redo session =>
    obtain heq | ⟨b, i, heq⟩ := Timeline.redo_cases run.timeline session
    · exact (congrArg Timeline.eventCounter heq).ge
    · exact ((congrArg Timeline.eventCounter heq).trans
        (eventCounter_updateSessionPosition _ _ _ _)).ge

end Append

/-! ## The numbers that may still reach an event -/

def keysOf (ops : List StagedOp) : List EventIndex := ops.filterMap StagedOp.reservedSequence

/-- The numbers reserved that may still reach an event. An open scope's number is the scope's alone.
-/
def live : List EventIndex :=
  keysOf s.handed ++ (s.drawn.map Prod.snd ++ (s.staging.pendingConsolidatedSequence.toList
    ++ (s.staging.discardScopeSequence.toList
      ++ (keysOf s.staging.buffer ++ s.cached.map Prod.snd).filter
        fun seq ↦ s.staging.discardScopeSequence ≠ some seq)))

section Counting

theorem keysOf_append (ops ops' : List StagedOp) :
    keysOf (ops ++ ops') = keysOf ops ++ keysOf ops' :=
  List.filterMap_append

theorem count_keysOf_singleton (op : StagedOp) (k : EventIndex) :
    (keysOf [op]).count k = if op.reservedSequence = some k then 1 else 0 := by
  rcases h : op.reservedSequence with _ | seq
  · simp [keysOf, h]
  · simp [keysOf, h, List.count_singleton]

theorem count_toList (o : Option EventIndex) (k : EventIndex) :
    o.toList.count k = if o = some k then 1 else 0 := by
  rcases o with _ | seq
  · simp
  · simp [List.count_singleton]

theorem mem_keysOf {ops : List StagedOp} :
    k ∈ keysOf ops ↔ ∃ op ∈ ops, op.reservedSequence = some k := List.mem_filterMap

def places (handed drawn : List EventIndex) (pending sticky : Option EventIndex)
    (buffer cached : List EventIndex) (k : EventIndex) : ℕ :=
  handed.count k + drawn.count k + (if pending = some k then 1 else 0) +
    if sticky = some k then 1 else buffer.count k + cached.count k

theorem count_live (k : EventIndex) : s.live.count k =
    (keysOf s.handed).count k + (s.drawn.map Prod.snd).count k +
      (if s.staging.pendingConsolidatedSequence = some k then 1 else 0) +
      if s.staging.discardScopeSequence = some k then 1
      else (keysOf s.staging.buffer).count k + (s.cached.map Prod.snd).count k := by
  have hfilter : ((keysOf s.staging.buffer ++ s.cached.map Prod.snd).filter
      fun seq ↦ s.staging.discardScopeSequence ≠ some seq).count k =
        if s.staging.discardScopeSequence = some k then 0
        else (keysOf s.staging.buffer).count k + (s.cached.map Prod.snd).count k := by
    split_ifs with h
    · refine List.count_eq_zero.mpr fun hk ↦ ?_
      exact of_decide_eq_true (List.mem_filter.mp hk).2 h
    · rw [List.count_filter (by simpa using h), List.count_append]
  rw [live, List.count_append, List.count_append, List.count_append, List.count_append, hfilter,
    count_toList, count_toList]
  split_ifs <;> omega

theorem count_live_eq_places (k : EventIndex) : s.live.count k =
    places (keysOf s.handed) (s.drawn.map Prod.snd) s.staging.pendingConsolidatedSequence
      s.staging.discardScopeSequence (keysOf s.staging.buffer) (s.cached.map Prod.snd) k :=
  s.count_live k

theorem places_handOver_le {handed drawn buffer cached : List EventIndex}
    {pending key : Option EventIndex}
    (hloose : key = some k → buffer.count k = 0 ∧ cached.count k = 0) :
    places handed drawn key none buffer cached k ≤
      places handed drawn pending key buffer cached k := by
  have hnone : none ≠ some k := nofun
  rw [places, places, if_neg hnone]
  by_cases hk : key = some k
  · obtain ⟨hbuffer, hcached⟩ := hloose hk
    rw [if_pos hk, if_pos hk]
    omega
  · rw [if_neg hk, if_neg hk]
    omega

theorem count_filter_lookup (entries : List (ClientId × EventIndex)) (c : ClientId)
    (k : EventIndex) : ((entries.filter fun p ↦ p.1 ≠ c).map Prod.snd).count k +
      (if entries.lookup c = some k then 1 else 0) ≤ (entries.map Prod.snd).count k := by
  induction entries with
  | nil => simp
  | cons p entries ih =>
    obtain ⟨d, seq⟩ := p
    by_cases hd : d = c
    · subst hd
      have hsub : ((entries.filter fun p ↦ p.1 ≠ d).map Prod.snd).count k ≤
          (entries.map Prod.snd).count k := by omega
      rw [List.filter_cons_of_neg (by simp), List.lookup_cons_self, List.map_cons, List.count_cons]
      simp only [Option.some.injEq, beq_iff_eq]
      omega
    · have hlookup : ((d, seq) :: entries).lookup c = entries.lookup c := by
        rw [List.lookup_cons, beq_eq_false_iff_ne.mpr (Ne.symm hd)]
      rw [List.filter_cons_of_pos (by simpa using hd), hlookup, List.map_cons, List.map_cons,
        List.count_cons, List.count_cons]
      omega

theorem mem_of_lookup {entries : List (ClientId × EventIndex)}
    (h : entries.lookup c = some seq) : (c, seq) ∈ entries := by
  obtain ⟨before, after, rfl, -⟩ := List.lookup_eq_some_iff.mp h
  exact List.mem_append_right _ List.mem_cons_self

theorem count_keysOf_eraseIdx {ops : List StagedOp} {i : ℕ} {op : StagedOp}
    (h : ops[i]? = some op) (k : EventIndex) : (keysOf ops).count k =
      (keysOf (ops.eraseIdx i)).count k + if op.reservedSequence = some k then 1 else 0 := by
  obtain ⟨hi, rfl⟩ := List.getElem?_eq_some_iff.mp h
  have hperm := (List.getElem_cons_eraseIdx_perm hi).filterMap StagedOp.reservedSequence
  rw [keysOf, ← hperm.count_eq k, ← List.singleton_append, List.filterMap_append, List.count_append,
    ← keysOf, count_keysOf_singleton, Nat.add_comm]
  rfl

end Counting

/-! ## The invariant -/

structure Numbers : Prop where
  wellFormed : s.run.timeline.WellFormed (s.run.reserved ++ s.live)
  once : ∀ k, (s.appended.map Prod.snd).count k + s.run.reserved.count k + s.live.count k ≤ 1
  spent : ∀ k ∈ s.appended.map Prod.snd, k < s.run.timeline.eventCounter

/-- At most one scope is open, its number is the key of its client, and no consolidated record is
awaited. -/
def OneScope : Prop :=
  (s.staging.discardDepth = 0 ∧ s.staging.discardScopeSequence = none ∧
      ∀ c, ¬ (s.phase c).InScope) ∨
    ∃ c, s.staging.discardDepth = 1 ∧
      (s.phase c).scopeKey? = some s.staging.discardScopeSequence ∧
      ∀ d, ((s.phase d).InScope → d = c) ∧ ¬ s.Awaited d

/-- The clients' phases agree with the staging state. -/
structure Scopes : Prop where
  depth : s.staging.depth = s.windows.length
  guarded : ∀ c, (s.phase c).HasWindow → (c, true) ∈ s.windows
  oneScope : s.OneScope
  cached : ∀ c k, (c, k) ∈ s.cached → s.staging.discardScopeSequence = some k →
    (s.phase c).InScope
  staged : ∀ k ∈ keysOf s.staging.buffer, s.staging.discardScopeSequence = some k →
    ∃ c, (s.phase c).Building
  awaited : ∀ c seq, s.phase c = .closed (some seq) →
    s.staging.pendingConsolidatedSequence = some seq

/-- What the run has done so far is right. -/
structure Reports : Prop where
  verbatim : ∀ op seq, (some op, seq) ∈ s.appended → ∀ k, op.reservedSequence = some k → seq = k
  consolidated : ∀ op key, (op, key) ∈ s.consolidated → ∀ k, key = some k →
    op.reservedSequence = some k

/-! ### What keeps the numbers apart -/

section Keep

variable {s} {s' : KeyRun} {phase : BuildPhase} {key : Option EventIndex} {staging : StagingState}

theorem Numbers.of_count_le (h : s.Numbers) (hrun : s'.run = s.run)
    (happended : s'.appended = s.appended) (hlive : ∀ k, s'.live.count k ≤ s.live.count k) :
    s'.Numbers := by
  refine ⟨?_, fun k ↦ ?_, ?_⟩
  · rw [hrun]
    refine h.wellFormed.mono fun k hk ↦ ?_
    rcases List.mem_append.mp hk with hk | hk
    · exact List.mem_append_left _ hk
    · have hpos := List.count_pos_iff.mpr hk
      exact List.mem_append_right _ (List.count_pos_iff.mp (hpos.trans_le (hlive k)))
  · have := h.once k
    have := hlive k
    rw [hrun, happended]
    omega
  · rw [hrun, happended]
    exact h.spent

theorem Numbers.count_counter (h : s.Numbers) :
    (s.appended.map Prod.snd).count s.run.timeline.eventCounter = 0 ∧
      s.run.reserved.count s.run.timeline.eventCounter = 0 ∧
      s.live.count s.run.timeline.eventCounter = 0 := by
  have hreserved : s.run.timeline.eventCounter ∉ s.run.reserved ++ s.live :=
    fun hmem ↦ lt_irrefl _ (h.wellFormed.reserved_spent _ hmem)
  refine ⟨?_, ?_, ?_⟩
  · exact List.count_eq_zero.mpr fun hmem ↦ lt_irrefl _ (h.spent _ hmem)
  · exact List.count_eq_zero.mpr fun hmem ↦ hreserved (List.mem_append_left _ hmem)
  · exact List.count_eq_zero.mpr fun hmem ↦ hreserved (List.mem_append_right _ hmem)

theorem Numbers.draw (h : s.Numbers)
    (hrun : s'.run.timeline = s.run.timeline.reserveSequenceNumber.2)
    (happended : s'.appended = s.appended)
    (hcount : ∀ k, s'.run.reserved.count k + s'.live.count k ≤ s.run.reserved.count k +
      s.live.count k + if k = s.run.timeline.eventCounter then 1 else 0) : s'.Numbers := by
  obtain ⟨happ, hres, hlive⟩ := h.count_counter
  refine ⟨?_, fun k ↦ ?_, ?_⟩
  · rw [hrun]
    refine (Timeline.reserveSequenceNumber_wellFormed h.wellFormed).mono fun k hk ↦ ?_
    by_cases hnew : k = s.run.timeline.eventCounter
    · exact List.mem_cons.mpr (Or.inl hnew)
    · have hpos := List.count_pos_iff.mpr hk
      have hle := hcount k
      rw [if_neg hnew] at hle
      rw [List.count_append] at hpos
      refine List.mem_cons_of_mem _ (List.count_pos_iff.mp ?_)
      rw [List.count_append]
      omega
  · have honce := h.once k
    have hle := hcount k
    rw [happended]
    split_ifs at hle with hnew
    · subst hnew
      omega
    · omega
  · rw [hrun, happended]
    exact fun k hk ↦ Nat.lt_succ_of_lt (h.spent k hk)

theorem Numbers.append [UuidParser] (h : s.Numbers) {operation : Operation} {author : Author}
    {b : BranchId} {taken : Option EventIndex} {eventId : EventId}
    (hid : eventId ∉ s.run.timeline.events)
    (hrun : s'.run.timeline =
      (s.run.timeline.appendInternal operation author b taken eventId).2)
    (happended : s'.appended.map Prod.snd =
      s.appended.map Prod.snd ++ (storedSequence s'.run.timeline eventId).toList)
    (hcount : ∀ k, s'.run.reserved.count k + s'.live.count k + (if taken = some k then 1 else 0) ≤
      s.run.reserved.count k + s.live.count k) : s'.Numbers := by
  -- The number given over leaves its place, so it had one.
  have htaken : ∀ k, taken = some k → k ∈ s.run.reserved ++ s.live := by
    intro k hk
    have hle := hcount k
    rw [if_pos hk] at hle
    refine List.count_pos_iff.mp ?_
    rw [List.count_append]
    omega
  have hwf : (s.run.timeline.appendInternal operation author b taken eventId).2.WellFormed
      (Timeline.remaining taken (s.run.reserved ++ s.live)) :=
    Timeline.appendInternal_wellFormed h.wellFormed htaken hid
  obtain ⟨happ, hres, hlive⟩ := h.count_counter
  refine ⟨?_, fun k ↦ ?_, ?_⟩
  · rw [hrun]
    refine hwf.mono fun k hk ↦ List.mem_filter.mpr ?_
    have hpos := List.count_pos_iff.mpr hk
    have hle := hcount k
    have honce := h.once k
    rw [List.count_append] at hpos
    refine ⟨List.count_pos_iff.mp ?_, decide_eq_true fun hk' ↦ ?_⟩
    · rw [List.count_append]
      omega
    · rw [if_pos hk'] at hle
      omega
  · have hle := hcount k
    have honce := h.once k
    rw [happended, List.count_append, count_toList, hrun]
    rcases appendInternal_storedSequence h.wellFormed hid operation author b taken with
      ⟨hnone, -⟩ | ⟨hstored, -, -⟩
    · rw [hnone, if_neg nofun]
      omega
    · rw [hstored]
      rcases taken with _ | seq
      · -- A fresh number is the counter's, which has no place yet.
        rw [if_neg nofun] at hle
        rw [Option.getD_none]
        split_ifs with hk
        · obtain rfl := Option.some_inj.mp hk
          omega
        · omega
      · rw [Option.getD_some]
        omega
  · rw [happended, hrun]
    intro k hk
    rcases appendInternal_storedSequence h.wellFormed hid operation author b taken with
      ⟨hnone, hcounter⟩ | ⟨hstored, hcounter, hfresh⟩
    · rw [hnone, Option.toList_none, List.append_nil] at hk
      exact hcounter ▸ h.spent k hk
    · rw [hstored] at hk
      rcases List.mem_append.mp hk with hk | hk
      · exact (h.spent k hk).trans_le hcounter
      · obtain rfl := List.mem_singleton.mp hk
        rcases taken with _ | seq
        · exact hfresh rfl
        · exact (h.wellFormed.reserved_spent _ (htaken seq rfl)).trans_le hcounter

/-! ### What keeps the scopes apart -/

theorem phase_setPhase_self (s : KeyRun) (c : ClientId) (phase : BuildPhase) :
    (s.setPhase c phase).phase c = phase := by
  rw [KeyRun.phase, setPhase, List.lookup_cons_self, Option.getD_some]

theorem phase_setPhase_of_ne (s : KeyRun) {c d : ClientId} (h : d ≠ c) (phase : BuildPhase) :
    (s.setPhase c phase).phase d = s.phase d := by
  rw [KeyRun.phase, setPhase, List.lookup_cons, beq_eq_false_iff_ne.mpr h]
  rfl

/-- Who awaits a key after a change of phase that awaits none awaited it before. -/
theorem phase_eq_closed_of_setPhase {c d : ClientId}
    (hd : (s.setPhase c phase).phase d = .closed (some seq))
    (hphase : ∀ k, phase ≠ .closed (some k)) : s.phase d = .closed (some seq) := by
  by_cases hdc : d = c
  · subst hdc
    rw [phase_setPhase_self] at hd
    exact absurd hd (hphase seq)
  · rwa [phase_setPhase_of_ne s hdc] at hd

theorem guarded_setPhase (hself : phase.HasWindow → (c, true) ∈ s.windows)
    (hothers : ∀ d, d ≠ c → (s.phase d).HasWindow → (d, true) ∈ s.windows) (d : ClientId)
    (hd : ((s.setPhase c phase).phase d).HasWindow) : (d, true) ∈ s.windows := by
  by_cases hdc : d = c
  · subst hdc
    rw [phase_setPhase_self] at hd
    exact hself hd
  · rw [phase_setPhase_of_ne s hdc] at hd
    exact hothers d hdc hd

theorem Scopes.setPhase (h : s.Scopes) (hc : ¬ (s.phase c).InScope) (hphase : ¬ phase.InScope)
    (hwindow : phase.HasWindow → (c, true) ∈ s.windows)
    (hawaited : ∀ seq, phase ≠ .closed (some seq)) : (s.setPhase c phase).Scopes := by
  have hother : ∀ d, ((s.setPhase c phase).phase d).InScope → (s.phase d).InScope ∧
      (s.setPhase c phase).phase d = s.phase d := by
    intro d hd
    by_cases hdc : d = c
    · subst hdc
      rw [phase_setPhase_self] at hd
      exact absurd hd hphase
    · rw [phase_setPhase_of_ne s hdc] at hd ⊢
      exact ⟨hd, rfl⟩
  have hkept : ∀ d, (s.phase d).InScope → (s.setPhase c phase).phase d = s.phase d := by
    intro d hd
    refine phase_setPhase_of_ne s ?_ phase
    rintro rfl
    exact hc hd
  have hclosed : ∀ d seq, (s.setPhase c phase).phase d = .closed (some seq) →
      s.phase d = .closed (some seq) := fun _ _ hd ↦ phase_eq_closed_of_setPhase hd hawaited
  refine ⟨h.depth, guarded_setPhase hwindow fun d _ ↦ h.guarded d, ?_, fun d k hk hsticky ↦ ?_,
    fun k hk hsticky ↦ ?_, fun d seq hd ↦ h.awaited d seq (hclosed d seq hd)⟩
  · rcases h.oneScope with ⟨hdepth, hsticky, hnone⟩ | ⟨e, hdepth, hkey, honly⟩
    · exact Or.inl ⟨hdepth, hsticky, fun d hd ↦ hnone d (hother d hd).1⟩
    · have he : (s.phase e).InScope := by
        rw [BuildPhase.InScope, hkey]
        rfl
      refine Or.inr ⟨e, hdepth, ?_, fun d ↦ ⟨fun hd ↦ (honly d).1 (hother d hd).1, ?_⟩⟩
      · rw [hkept e he]
        exact hkey
      · rintro ⟨seq, hd⟩
        exact (honly d).2 ⟨seq, hclosed d seq hd⟩
  · have hin := h.cached d k hk hsticky
    rwa [hkept d hin]
  · obtain ⟨d, key, hd⟩ := h.staged k hk hsticky
    refine ⟨d, key, ?_⟩
    rw [hkept d (by rw [BuildPhase.InScope, hd]; rfl), hd]

theorem Scopes.of_frame (h : s.Scopes) (hphases : s'.phases = s.phases)
    (hdepth : s'.staging.depth = s'.windows.length)
    (hwindows : ∀ c, (c, true) ∈ s.windows → (c, true) ∈ s'.windows)
    (hdiscard : s'.staging.discardDepth = s.staging.discardDepth)
    (hsticky : s'.staging.discardScopeSequence = s.staging.discardScopeSequence)
    (hpending : (∀ c, ¬ s.Awaited c) ∨
      s'.staging.pendingConsolidatedSequence = s.staging.pendingConsolidatedSequence)
    (hcached : ∀ p ∈ s'.cached, p ∈ s.cached)
    (hstaged : ∀ k ∈ keysOf s'.staging.buffer, s.staging.discardScopeSequence = some k →
      k ∈ keysOf s.staging.buffer ∨ ∃ c, (s.phase c).Building) : s'.Scopes := by
  have hphase : s'.phase = s.phase := by
    funext c
    rw [KeyRun.phase, KeyRun.phase, hphases]
  refine ⟨hdepth, fun c hc ↦ ?_, ?_, fun c k hk hk' ↦ ?_, fun k hk hk' ↦ ?_, fun c seq hc ↦ ?_⟩
  · rw [hphase] at hc
    exact hwindows c (h.guarded c hc)
  · rw [OneScope, hphase, hdiscard, hsticky]
    simp only [Awaited, hphase]
    exact h.oneScope
  · rw [hphase]
    exact h.cached c k (hcached _ hk) (hsticky ▸ hk')
  · rw [hphase]
    rw [hsticky] at hk'
    rcases hstaged k hk hk' with hold | hbuilding
    · exact h.staged k hold hk'
    · exact hbuilding
  · rw [hphase] at hc
    rcases hpending with hnone | hsame
    · exact absurd ⟨seq, hc⟩ (hnone c)
    · rw [hsame]
      exact h.awaited c seq hc

theorem OneScope.of_depth_eq_zero (h : s.OneScope) (hdepth : s.staging.discardDepth = 0) :
    s.staging.discardScopeSequence = none ∧ ∀ c, ¬ (s.phase c).InScope := by
  rcases h with ⟨-, hsticky, hnone⟩ | ⟨c, hone, -⟩
  · exact ⟨hsticky, hnone⟩
  · omega

theorem OneScope.discardDepth_eq_zero (h : s.OneScope) (hnone : ∀ c, ¬ (s.phase c).InScope) :
    s.staging.discardDepth = 0 := by
  rcases h with ⟨hdepth, -⟩ | ⟨c, -, hkey, -⟩
  · exact hdepth
  · exact absurd (by rw [BuildPhase.InScope, hkey]; rfl) (hnone c)

theorem OneScope.of_inScope (h : s.OneScope) (hc : (s.phase c).InScope) :
    s.staging.discardDepth = 1 ∧
      (s.phase c).scopeKey? = some s.staging.discardScopeSequence ∧
      ∀ d, ((s.phase d).InScope → d = c) ∧ ¬ s.Awaited d := by
  rcases h with ⟨-, -, hnone⟩ | ⟨e, hdepth, hkey, honly⟩
  · exact absurd hc (hnone c)
  · obtain rfl := (honly c).1 hc
    exact ⟨hdepth, hkey, honly⟩

theorem inScope_of_building (h : phase.Building) : phase.InScope := by
  obtain ⟨key, rfl⟩ := h
  rfl

theorem gotKey_of_not_inScope (h : ¬ phase.InScope) (seq : EventIndex) :
    phase.gotKey seq = phase := by
  cases phase with
  | building key => exact absurd rfl h
  | outside | opening | dropping key | closed key => rfl

section

variable (h : s.Scopes)

include h

theorem Scopes.answerKey_of_no_scope (hdepth : s.staging.discardDepth = 0)
    (c : ClientId) (seq : EventIndex) : (s.answerKey c seq).Scopes := by
  obtain ⟨hsticky, hnone⟩ := h.oneScope.of_depth_eq_zero hdepth
  have hphase : (s.answerKey c seq).phase = s.phase := by
    funext d
    rw [answerKey, gotKey_of_not_inScope (hnone c)]
    by_cases hdc : d = c
    · rw [hdc, phase_setPhase_self]
    · exact phase_setPhase_of_ne _ hdc _
  refine ⟨h.depth, ?_, ?_, fun d k _ hk ↦ ?_, fun k _ hk ↦ ?_, ?_⟩
  · rw [hphase]
    exact h.guarded
  · refine Or.inl ⟨hdepth, hsticky, ?_⟩
    rw [hphase]
    exact hnone
  · exact nomatch hsticky.symm.trans hk
  · exact nomatch hsticky.symm.trans hk
  · rw [hphase]
    exact h.awaited

theorem Scopes.answerKey_of_building (hc : (s.phase c).Building) (hstaging : staging =
      { s.staging with discardScopeSequence := some seq })
    (hcached : ∀ d, (d, seq) ∈ s.cached → (s.phase d).InScope)
    (drawn : List (ClientId × EventIndex)) :
    ({ s with staging := staging, drawn := drawn }.answerKey c seq).Scopes := by
  subst hstaging
  obtain ⟨hdepth, -, honly⟩ := h.oneScope.of_inScope (inScope_of_building hc)
  obtain ⟨key, hkey⟩ := hc
  set s' := ({ s with
    staging := { s.staging with discardScopeSequence := some seq }
    drawn := drawn }.answerKey c seq : KeyRun)
  have hself : s'.phase c = .building (some seq) := by
    rw [show s'.phase c = (s.phase c).gotKey seq from phase_setPhase_self _ c _, hkey]
    rfl
  have hother : ∀ d, d ≠ c → s'.phase d = s.phase d :=
    fun d hd ↦ phase_setPhase_of_ne _ hd _
  have hnone : ∀ d, ¬ s'.Awaited d := by
    rintro d ⟨k, hk⟩
    refine (honly d).2 ⟨k, phase_eq_closed_of_setPhase hk fun k' heq ↦ ?_⟩
    exact nomatch hself.symm.trans ((phase_setPhase_self _ c _).trans heq)
  refine ⟨h.depth, guarded_setPhase (fun _ ↦ h.guarded c (by rw [hkey]; trivial))
      fun d _ ↦ h.guarded d, Or.inr ⟨c, hdepth, ?_, fun d ↦ ⟨fun hd ↦ ?_, hnone d⟩⟩,
    fun d k hk hk' ↦ ?_, fun k _ _ ↦ ⟨c, some seq, hself⟩, fun d k hd ↦ absurd ⟨k, hd⟩ (hnone d)⟩
  · exact congrArg BuildPhase.scopeKey? hself
  · by_contra hdc
    rw [hother d hdc] at hd
    exact hdc ((honly d).1 hd)
  · obtain rfl := Option.some_inj.mp hk'
    by_cases hdc : d = c
    · subst hdc
      exact congrArg (fun phase ↦ phase.scopeKey?.isSome) hself
    · -- Another client had the number cached before.
      have hmem : (d, seq) ∈ s.cached := by
        rcases List.mem_append.mp hk with hk | hk
        · exact hk
        · exact absurd (congrArg Prod.fst (List.mem_singleton.mp hk)) hdc
      have hin := hcached d hmem
      rw [← hother d hdc] at hin
      exact hin

theorem Scopes.enterScope (hc : s.phase c = .opening)
    (hguard : ∀ d, ¬ (s.phase d).InScope ∧ ¬ s.Awaited d) :
    ({ s with staging := s.staging.beginDiscardScope }.setPhase c (.building none)).Scopes := by
  have hdepth := h.oneScope.discardDepth_eq_zero fun d ↦ (hguard d).1
  have hbegin : s.staging.beginDiscardScope = { s.staging with
      discardDepth := 1
      discardScopeSequence := none
      pendingConsolidatedSequence := none } := by
    rw [StagingState.beginDiscardScope, if_pos hdepth, hdepth]
  rw [hbegin]
  set s₁ : KeyRun := { s with staging := _ }
  have hother : ∀ d, d ≠ c → (s₁.setPhase c (.building none)).phase d = s.phase d :=
    fun d hd ↦ phase_setPhase_of_ne s₁ hd _
  have hself := phase_setPhase_self s₁ c (.building none)
  have hclosed : ∀ d, ¬ (s₁.setPhase c (.building none)).Awaited d := by
    rintro d ⟨k, hk⟩
    exact (hguard d).2 ⟨k, phase_eq_closed_of_setPhase hk fun _ ↦ nofun⟩
  refine ⟨h.depth, guarded_setPhase (fun _ ↦ h.guarded c (by rw [hc]; trivial))
      fun d _ ↦ h.guarded d, Or.inr ⟨c, rfl, ?_, fun d ↦ ⟨fun hd ↦ ?_, hclosed d⟩⟩,
    fun d k _ hk ↦ (nomatch hk), fun k _ hk ↦ (nomatch hk), fun d k hd ↦ absurd ⟨k, hd⟩ (hclosed d)⟩
  · rw [hself]
    rfl
  · by_contra hdc
    rw [hother d hdc] at hd
    exact (hguard d).1 hd

theorem Scopes.leaveWindow (hc : s.phase c = .building key) (hwindows : s.windows = [(c, true)]) :
    ({ s with
      staging := s.staging.abortPending
      windows := s.windows.erase (c, true) }.setPhase c (.dropping key)).Scopes := by
  have hin : (s.phase c).InScope := by
    rw [hc]
    rfl
  obtain ⟨hdepth, hkey, honly⟩ := h.oneScope.of_inScope hin
  -- The guard's window is the outermost one, so closing it empties the buffer.
  have hone : s.staging.depth = 1 := by rw [h.depth, hwindows, List.length_singleton]
  have habort : s.staging.abortPending = { s.staging with depth := 0, buffer := [] } := by
    simp [StagingState.abortPending, hone]
  rw [habort, hwindows, List.erase_cons_head]
  set s₁ : KeyRun := { s with staging := _, windows := _ }
  have hself := phase_setPhase_self s₁ c (.dropping key)
  have hother : ∀ d, d ≠ c → (s₁.setPhase c (.dropping key)).phase d = s.phase d :=
    fun d hd ↦ phase_setPhase_of_ne s₁ hd _
  have hscope : ∀ d, ((s₁.setPhase c (.dropping key)).phase d).scopeKey? =
      (s.phase d).scopeKey? := by
    intro d
    by_cases hdc : d = c
    · subst hdc
      rw [hself, hc]
      rfl
    · rw [hother d hdc]
  have hclosed : ∀ d k, (s₁.setPhase c (.dropping key)).phase d = .closed (some k) →
      s.phase d = .closed (some k) :=
    fun d k hd ↦ phase_eq_closed_of_setPhase (s := s₁) hd (by simp)
  refine ⟨rfl, guarded_setPhase (s := s₁) False.elim fun d hdc hd ↦ ?_,
    Or.inr ⟨c, hdepth, ?_, fun d ↦ ⟨fun hd ↦ ?_, ?_⟩⟩,
    fun d k hk hk' ↦ ?_, fun k hk _ ↦ ?_, fun d k hd ↦ h.awaited d k (hclosed d k hd)⟩
  · have hmem := h.guarded d hd
    rw [hwindows, List.mem_singleton] at hmem
    exact absurd (congrArg Prod.fst hmem) hdc
  · exact (hscope c).trans hkey
  · rw [BuildPhase.InScope, hscope] at hd
    exact (honly d).1 hd
  · rintro ⟨k, hk⟩
    exact (honly d).2 ⟨k, hclosed d k hk⟩
  · rw [BuildPhase.InScope, hscope]
    exact h.cached d k hk hk'
  · cases hk

theorem Scopes.leaveScope (hc : s.phase c = .dropping key) :
    s.staging.endDiscardScope = { s.staging with
      discardDepth := 0
      discardScopeSequence := none
      pendingConsolidatedSequence := key } ∧ s.staging.discardScopeSequence = key ∧
    ({ s with staging := s.staging.endDiscardScope }.setPhase c (.closed key)).Scopes := by
  have hin : (s.phase c).InScope := by
    rw [hc]
    rfl
  obtain ⟨hdepth, hkey, honly⟩ := h.oneScope.of_inScope hin
  rw [hc] at hkey
  have hsticky : s.staging.discardScopeSequence = key := (Option.some_inj.mp hkey).symm
  have hend : s.staging.endDiscardScope = { s.staging with
      discardDepth := 0
      discardScopeSequence := none
      pendingConsolidatedSequence := key } := by
    simp [StagingState.endDiscardScope, hdepth, hsticky]
  refine ⟨hend, hsticky, ?_⟩
  rw [hend]
  set s₁ : KeyRun := { s with staging := _ }
  have hself := phase_setPhase_self s₁ c (.closed key)
  have hother : ∀ d, d ≠ c → (s₁.setPhase c (.closed key)).phase d = s.phase d :=
    fun d hd ↦ phase_setPhase_of_ne s₁ hd _
  refine ⟨h.depth, guarded_setPhase (s := s₁) nofun fun d _ ↦ h.guarded d,
    Or.inl ⟨rfl, rfl, fun d hd ↦ ?_⟩, fun d k _ hk ↦ (nomatch hk), fun k _ hk ↦ (nomatch hk),
    fun d k hd ↦ ?_⟩
  · by_cases hdc : d = c
    · subst hdc
      rw [hself] at hd
      exact nomatch hd
    · rw [hother d hdc] at hd
      exact hdc ((honly d).1 hd)
  · by_cases hdc : d = c
    · subst hdc
      rw [hself] at hd
      exact BuildPhase.closed.inj hd
    · exact absurd ⟨k, (hother d hdc).symm.trans hd⟩ (honly d).2

theorem Scopes.handOver
    (hc : s.phase c = .dropping key) (hsticky : s.staging.discardScopeSequence = some k)
    (hcached : (c, k) ∉ s.cached) :
    (keysOf s.staging.buffer).count k = 0 ∧ (s.cached.map Prod.snd).count k = 0 := by
  have hin : (s.phase c).InScope := by
    rw [hc]
    rfl
  obtain ⟨-, -, honly⟩ := h.oneScope.of_inScope hin
  refine ⟨List.count_eq_zero.mpr fun hmem ↦ ?_, List.count_eq_zero.mpr fun hmem ↦ ?_⟩
  · obtain ⟨d, hd⟩ := h.staged k hmem hsticky
    obtain rfl := (honly d).1 (inScope_of_building hd)
    obtain ⟨key', hkey'⟩ := hd
    exact nomatch hc.symm.trans hkey'
  · obtain ⟨⟨d, k'⟩, hd, rfl⟩ := List.mem_map.mp hmem
    obtain rfl := (honly d).1 (h.cached d k' hd hsticky)
    exact hcached hd

end

/-! ### Records -/

theorem stamp_reservedSequence (state : StagingState) (op : StagedOp) :
    (state.stamp op).reservedSequence =
      op.reservedSequence.or state.pendingConsolidatedSequence := by
  rw [StagingState.stamp]
  rcases hpending : state.pendingConsolidatedSequence with _ | seq
  · rw [Option.or_none]
  · rcases hop : op.reservedSequence with _ | own
    · rfl
    · simp [hop]

/-- A record is staged inside a window, and handed over outside one; the handoff is consumed. -/
theorem record_cases (state : StagingState) (op : StagedOp) :
    (0 < state.depth ∧ state.record op =
      ({ state with
          pendingConsolidatedSequence := none
          buffer := state.buffer ++ [state.stamp op] }, [])) ∨
      (state.depth = 0 ∧ state.record op =
        ({ state with pendingConsolidatedSequence := none }, [state.stamp op])) := by
  rcases Nat.eq_zero_or_pos state.depth with hdepth | hdepth
  · refine Or.inr ⟨hdepth, ?_⟩
    simp [StagingState.record, hdepth]
  · refine Or.inl ⟨hdepth, ?_⟩
    simp [StagingState.record, hdepth]

theorem count_stamp_le (state : StagingState) (op : StagedOp) (k : EventIndex) :
    (keysOf [state.stamp op]).count k ≤ (keysOf [op]).count k +
      if state.pendingConsolidatedSequence = some k then 1 else 0 := by
  rw [count_keysOf_singleton, count_keysOf_singleton, stamp_reservedSequence]
  rcases op.reservedSequence with _ | own
  · rw [Option.none_or]
    omega
  · rw [Option.some_or]
    omega

theorem Numbers.recordOp (h : s.Numbers) {op : StagedOp} {cached : List (ClientId × EventIndex)}
    (hcached : ∀ k, (cached.map Prod.snd).count k + (keysOf [op]).count k ≤
      (s.cached.map Prod.snd).count k)
    (hsticky : s.staging.depth = 0 → ∀ k, s.staging.discardScopeSequence = some k →
      op.reservedSequence ≠ some k) :
    ({ s with cached := cached }.recordOp op).Numbers := by
  refine h.of_count_le rfl rfl fun k ↦ ?_
  have hstamp := count_stamp_le s.staging op k
  have hmove := hcached k
  rw [count_live, count_live]
  rcases record_cases s.staging op with ⟨-, hrec⟩ | ⟨hdepth, hrec⟩
  · simp only [KeyRun.recordOp, hrec, keysOf_append, List.count_append]
    rw [show keysOf [] = [] from rfl, List.count_nil, if_neg nofun]
    generalize (if s.staging.pendingConsolidatedSequence = some k then 1 else 0) = pending
      at hstamp ⊢
    split_ifs <;> omega
  · simp only [KeyRun.recordOp, hrec, keysOf_append, List.count_append]
    rw [if_neg nofun]
    generalize (if s.staging.pendingConsolidatedSequence = some k then 1 else 0) = pending
      at hstamp ⊢
    by_cases hk : s.staging.discardScopeSequence = some k
    · -- The scope's number is not the record's, so it is the one handed over, if it is either.
      have hop : (keysOf [op]).count k = 0 := by
        rw [count_keysOf_singleton, if_neg (hsticky hdepth k hk)]
      rw [if_pos hk, if_pos hk]
      omega
    · rw [if_neg hk, if_neg hk]
      omega

theorem Numbers.sticky_ne_pending (h : s.Numbers)
    (hsticky : s.staging.discardScopeSequence = some k) :
    s.staging.pendingConsolidatedSequence ≠ some k := by
  intro hpending
  have honce := h.once k
  rw [count_live, if_pos hsticky, if_pos hpending] at honce
  omega

theorem Scopes.recordOp (hn : s.Numbers) (h : s.Scopes) {op : StagedOp}
    {cached : List (ClientId × EventIndex)} (hcached : ∀ p ∈ cached, p ∈ s.cached)
    (hawaited : ∀ c, ¬ s.Awaited c)
    (hop : ∀ k, op.reservedSequence = some k → s.staging.discardScopeSequence = some k →
      ∃ c, (s.phase c).Building) : ({ s with cached := cached }.recordOp op).Scopes := by
  rcases record_cases s.staging op with ⟨-, hrec⟩ | ⟨-, hrec⟩
  · refine h.of_frame rfl ?_ (fun _ hc ↦ hc) ?_ ?_ (Or.inl hawaited) hcached fun k hk hk' ↦ ?_
    · simp only [KeyRun.recordOp, hrec]
      exact h.depth
    · simp only [KeyRun.recordOp, hrec]
    · simp only [KeyRun.recordOp, hrec]
    · simp only [KeyRun.recordOp, hrec, keysOf_append] at hk
      rcases List.mem_append.mp hk with hk | hk
      · exact Or.inl hk
      · obtain ⟨staged, hmem, hreserved⟩ := mem_keysOf.mp hk
        obtain rfl := List.mem_singleton.mp hmem
        rw [stamp_reservedSequence] at hreserved
        rcases Option.or_eq_some_iff.mp hreserved with hown | ⟨-, hpending⟩
        · exact Or.inr (hop k hown hk')
        · exact absurd hpending (hn.sticky_ne_pending hk')
  · refine h.of_frame rfl ?_ (fun _ hc ↦ hc) ?_ ?_ (Or.inl hawaited) hcached fun k hk _ ↦ Or.inl ?_
    · simp only [KeyRun.recordOp, hrec]
      exact h.depth
    · simp only [KeyRun.recordOp, hrec]
    · simp only [KeyRun.recordOp, hrec]
    · simpa only [KeyRun.recordOp, hrec] using hk

theorem close_cases {state : StagingState} (hdepth : 0 < state.depth) :
    (state.depth = 1 ∧
        state.commitPending = ({ state with depth := 0, buffer := [] }, state.buffer) ∧
        state.abortPending = { state with depth := 0, buffer := [] }) ∨
      (1 < state.depth ∧ state.commitPending = ({ state with depth := state.depth - 1 }, []) ∧
        state.abortPending = { state with depth := state.depth - 1 }) := by
  rcases Nat.lt_or_ge 1 state.depth with hlt | hle
  · have hne : state.depth ≠ 0 := by omega
    have hne' : state.depth - 1 ≠ 0 := by omega
    exact Or.inr ⟨hlt, by simp [StagingState.commitPending, hne, hne'],
      by simp [StagingState.abortPending, hne, hne']⟩
  · have hone : state.depth = 1 := by omega
    exact Or.inl ⟨hone, by simp [StagingState.commitPending, hone],
      by simp [StagingState.abortPending, hone]⟩

theorem Scopes.depth_pos (h : s.Scopes) {w : ClientId × Bool} (hw : w ∈ s.windows) :
    0 < s.staging.depth := by
  rw [h.depth]
  exact List.length_pos_of_mem hw

theorem Scopes.not_building_of_outermost (h : s.Scopes)
    (hw : (c, false) ∈ s.windows) (hone : s.staging.depth = 1) (d : ClientId) :
    ¬ (s.phase d).Building := by
  rintro ⟨key, hkey⟩
  have hmem := h.guarded d (by rw [hkey]; trivial)
  rw [h.depth, List.length_eq_one_iff] at hone
  obtain ⟨w, hwindows⟩ := hone
  rw [hwindows, List.mem_singleton] at hw hmem
  exact Bool.false_ne_true (congrArg Prod.snd (hw.trans hmem.symm))

theorem Numbers.commitPending (hn : s.Numbers) (h : s.Scopes) (hw : (c, false) ∈ s.windows) :
    ({ s with
      staging := s.staging.commitPending.1
      windows := s.windows.erase (c, false)
      handed := s.handed ++ s.staging.commitPending.2 } : KeyRun).Numbers := by
  refine hn.of_count_le rfl rfl fun k ↦ ?_
  rw [count_live, count_live]
  rcases close_cases (h.depth_pos hw) with ⟨hone, hcommit, -⟩ | ⟨-, hcommit, -⟩
  · simp only [hcommit, keysOf_append, List.count_append]
    rw [show keysOf [] = [] from rfl, List.count_nil]
    by_cases hk : s.staging.discardScopeSequence = some k
    · have hnone : (keysOf s.staging.buffer).count k = 0 := by
        refine List.count_eq_zero.mpr fun hmem ↦ ?_
        obtain ⟨d, hd⟩ := h.staged k hmem hk
        exact h.not_building_of_outermost hw hone d hd
      rw [if_pos hk, if_pos hk]
      omega
    · rw [if_neg hk, if_neg hk]
      omega
  · simp only [hcommit, List.append_nil]
    exact le_rfl

theorem Scopes.closeWindow (h : s.Scopes) (hw : (c, false) ∈ s.windows) {handed : List StagedOp}
    (hstaging : staging = s.staging.commitPending.1 ∨ staging = s.staging.abortPending) :
    ({ s with
      staging := staging
      windows := s.windows.erase (c, false)
      handed := handed } : KeyRun).Scopes := by
  have hlength : (s.windows.erase (c, false)).length = s.windows.length - 1 :=
    List.length_erase_of_mem hw
  have hkept : ∀ d, (d, true) ∈ s.windows → (d, true) ∈ s.windows.erase (c, false) := by
    intro d hd
    refine (List.mem_erase_of_ne fun heq ↦ ?_).mpr hd
    exact Bool.false_ne_true (congrArg Prod.snd heq).symm
  have hdepth := h.depth
  rcases close_cases (h.depth_pos hw) with ⟨hone, hcommit, habort⟩ | ⟨-, hcommit, habort⟩
  · have hemptied : staging = { s.staging with depth := 0, buffer := [] } := by
      rcases hstaging with rfl | rfl
      · rw [hcommit]
      · rw [habort]
    subst hemptied
    refine h.of_frame rfl ?_ hkept rfl rfl (Or.inr rfl) (fun _ hp ↦ hp) fun k hk ↦ (nomatch hk)
    show 0 = (s.windows.erase (c, false)).length
    omega
  · have hkeeps : staging = { s.staging with depth := s.staging.depth - 1 } := by
      rcases hstaging with rfl | rfl
      · rw [hcommit]
      · rw [habort]
    subst hkeeps
    refine h.of_frame rfl ?_ hkept rfl rfl (Or.inr rfl) (fun _ hp ↦ hp) fun k hk _ ↦ Or.inl hk
    show s.staging.depth - 1 = (s.windows.erase (c, false)).length
    omega

theorem Numbers.abortPending (hn : s.Numbers) (windows : List (ClientId × Bool)) :
    ({ s with staging := s.staging.abortPending, windows := windows } : KeyRun).Numbers := by
  refine hn.of_count_le rfl rfl fun k ↦ ?_
  rw [count_live, count_live]
  rcases Nat.eq_zero_or_pos s.staging.depth with hzero | hpos
  · have habort : s.staging.abortPending = s.staging := if_pos hzero
    rw [habort]
  · rcases close_cases hpos with ⟨-, -, habort⟩ | ⟨-, -, habort⟩
    · simp only [habort]
      rw [show keysOf [] = [] from rfl, List.count_nil]
      split_ifs <;> omega
    · simp only [habort]
      exact le_rfl

/-! ### Keys -/

theorem count_live_answerKey (s : KeyRun) (c : ClientId) (seq k : EventIndex) :
    (s.answerKey c seq).live.count k = s.live.count k +
      if s.staging.discardScopeSequence = some k then 0 else if seq = k then 1 else 0 := by
  have hcached : ((s.cached ++ [(c, seq)]).map Prod.snd).count k =
      (s.cached.map Prod.snd).count k + if seq = k then 1 else 0 := by
    rw [List.map_append, List.count_append, List.map_singleton, List.count_singleton]
    simp only [beq_iff_eq]
  rw [count_live, count_live]
  show (keysOf s.handed).count k + (s.drawn.map Prod.snd).count k +
      (if s.staging.pendingConsolidatedSequence = some k then 1 else 0) +
      (if s.staging.discardScopeSequence = some k then 1
        else (keysOf s.staging.buffer).count k +
          ((s.cached ++ [(c, seq)]).map Prod.snd).count k) = _
  rw [hcached]
  by_cases hk : s.staging.discardScopeSequence = some k
  · rw [if_pos hk, if_pos hk, if_pos hk, Nat.add_zero]
  · rw [if_neg hk, if_neg hk, if_neg hk]
    omega

theorem Numbers.answerKey (hn : s.Numbers) {drawn : List (ClientId × EventIndex)}
    (hcount : ∀ k, ({ s with staging := staging, drawn := drawn } : KeyRun).live.count k +
      (if staging.discardScopeSequence = some k then 0 else if seq = k then 1 else 0) ≤
        s.live.count k) :
    ({ s with staging := staging, drawn := drawn }.answerKey c seq).Numbers := by
  refine hn.of_count_le rfl rfl fun k ↦ ?_
  rw [count_live_answerKey]
  exact hcount k

theorem count_drawn (h : s.drawn.lookup c = some seq)
    (k : EventIndex) : ((s.drawn.filter fun p ↦ p.1 ≠ c).map Prod.snd).count k +
      (if seq = k then 1 else 0) ≤ (s.drawn.map Prod.snd).count k := by
  have hle := count_filter_lookup s.drawn c k
  rw [h] at hle
  simpa only [Option.some.injEq] using hle

section

variable (hn : s.Numbers)

include hn

section

variable (h : s.Scopes)

include h

private theorem settleKey_outside
    (hdrawn : s.drawn.lookup c = some seq) (hzero : s.staging.discardDepth = 0) :
    (({ s with drawn := s.drawn.filter fun p ↦ p.1 ≠ c } : KeyRun).answerKey c seq).Numbers ∧
      (({ s with drawn := s.drawn.filter fun p ↦ p.1 ≠ c } : KeyRun).answerKey c seq).Scopes := by
  have hkept : Scopes { s with drawn := s.drawn.filter fun p ↦ p.1 ≠ c } :=
    ⟨h.depth, h.guarded, h.oneScope, h.cached, h.staged, h.awaited⟩
  refine ⟨hn.answerKey fun k ↦ ?_, hkept.answerKey_of_no_scope hzero c seq⟩
  have hcount := count_drawn hdrawn k
  have hk : s.staging.discardScopeSequence ≠ some k := by
    rw [(h.oneScope.of_depth_eq_zero hzero).1]
    exact nofun
  rw [count_live, count_live]
  simp only [if_neg hk]
  omega

private theorem settleKey_first
    (hdrawn : s.drawn.lookup c = some seq) (hbuilding : (s.phase c).Building)
    (hsticky : s.staging.discardScopeSequence = none) :
    (({ s with
      staging := { s.staging with discardScopeSequence := some seq }
      drawn := s.drawn.filter fun p ↦ p.1 ≠ c } : KeyRun).answerKey c seq).Numbers ∧
    (({ s with
      staging := { s.staging with discardScopeSequence := some seq }
      drawn := s.drawn.filter fun p ↦ p.1 ≠ c } : KeyRun).answerKey c seq).Scopes := by
  have hne (k : EventIndex) : s.staging.discardScopeSequence ≠ some k := by
    rw [hsticky]
    exact nofun
  refine ⟨hn.answerKey fun k ↦ ?_, h.answerKey_of_building hbuilding rfl (fun d hd ↦ ?_) _⟩
  · have hcount := count_drawn hdrawn k
    rw [count_live, count_live, if_neg (hne k)]
    by_cases hseq : seq = k
    · rw [if_pos hseq] at hcount
      simp only [hseq, if_true]
      omega
    · have hseq' : some seq ≠ some k := fun heq ↦ hseq (Option.some_inj.mp heq)
      simp only [if_neg hseq', if_neg hseq]
      omega
  · -- A number just drawn is in no model yet.
    have honce := hn.once seq
    have hcount := count_drawn hdrawn seq
    have hcached : 0 < (s.cached.map Prod.snd).count seq :=
      List.count_pos_iff.mpr (List.mem_map_of_mem hd)
    rw [count_live, if_neg (hne seq)] at honce
    rw [if_pos rfl] at hcount
    omega

private theorem settleKey_later {seq sticky : EventIndex} (hdrawn : s.drawn.lookup c = some seq)
    (hbuilding : (s.phase c).Building)
    (hsticky : s.staging.discardScopeSequence = some sticky) :
    (({ s with drawn := s.drawn.filter fun p ↦ p.1 ≠ c } : KeyRun).answerKey c sticky).Numbers ∧
    (({ s with drawn := s.drawn.filter fun p ↦ p.1 ≠ c } : KeyRun).answerKey c sticky).Scopes := by
  have hsame : s.staging = { s.staging with discardScopeSequence := some sticky } := by
    rw [← hsticky]
  refine ⟨hn.answerKey fun k ↦ ?_, h.answerKey_of_building hbuilding hsame
    (fun d hd ↦ h.cached d sticky hd hsticky) _⟩
  have hcount := count_drawn hdrawn k
  rw [count_live, count_live]
  by_cases hk : s.staging.discardScopeSequence = some k
  · simp only [if_pos hk]
    omega
  · have hne : sticky ≠ k := fun heq ↦ hk (heq ▸ hsticky)
    simp only [if_neg hk, if_neg hne]
    omega

theorem settleKey_keeps (hdrawn : s.drawn.lookup c = some seq)
    (hguard : 0 < s.staging.discardDepth → (s.phase c).Building) :
    let s' := { s with
      staging := (s.staging.settleSequence seq).2
      drawn := s.drawn.filter fun p ↦ p.1 ≠ c }.answerKey c (s.staging.settleSequence seq).1
    s'.Numbers ∧ s'.Scopes := by
  rcases Nat.eq_zero_or_pos s.staging.discardDepth with hzero | hpos
  · have hsettle : s.staging.settleSequence seq = (seq, s.staging) := by
      rw [StagingState.settleSequence, if_neg (by omega)]
    rw [hsettle]
    exact settleKey_outside hn h hdrawn hzero
  · rcases hsticky : s.staging.discardScopeSequence with _ | existing
    · have hsettle : s.staging.settleSequence seq =
          (seq, { s.staging with discardScopeSequence := some seq }) := by
        simp only [StagingState.settleSequence, if_pos hpos, hsticky]
      rw [hsettle]
      exact settleKey_first hn h hdrawn (hguard hpos) hsticky
    · have hsettle : s.staging.settleSequence seq = (existing, s.staging) := by
        simp only [StagingState.settleSequence, if_pos hpos, hsticky]
      rw [hsettle]
      exact settleKey_later hn h hdrawn (hguard hpos) hsticky

theorem readKey_keeps
    (hread : s.staging.stickySequence = some seq) (hbuilding : (s.phase c).Building) :
    (s.answerKey c seq).Numbers ∧ (s.answerKey c seq).Scopes := by
  have hsticky : s.staging.discardScopeSequence = some seq := by
    rw [StagingState.stickySequence] at hread
    split_ifs at hread
    exact hread
  have hsame : s.staging = { s.staging with discardScopeSequence := some seq } := by
    rw [← hsticky]
  refine ⟨hn.answerKey fun k ↦ ?_, h.answerKey_of_building hbuilding hsame
    (fun d hd ↦ h.cached d seq hd hsticky) s.drawn⟩
  by_cases hk : s.staging.discardScopeSequence = some k
  · rw [if_pos hk]
    exact le_rfl
  · have hne : seq ≠ k := fun heq ↦ hk (heq ▸ hsticky)
    rw [if_neg hk, if_neg hne]
    exact le_rfl

theorem recordOp_keeps (op : StagedOp)
    (hworking : (s.phase c).Working) (hawaited : ∀ d, ¬ s.Awaited d) :
    ((s.dropCached c).recordOp (s.withCached c op)).Numbers ∧
      ((s.dropCached c).recordOp (s.withCached c op)).Scopes := by
  -- A model that caches the scope's number is in the scope, and works there.
  have hbuilding : ∀ k, (s.withCached c op).reservedSequence = some k →
      s.staging.discardScopeSequence = some k → (s.phase c).Building := by
    intro k hcached hk
    have hin := h.cached c k (mem_of_lookup hcached) hk
    cases hphase : s.phase c with
    | building key => exact ⟨key, rfl⟩
    | outside =>
      rw [hphase] at hin
      cases hin
    | opening | dropping key | closed key =>
      rw [hphase] at hworking
      exact hworking.elim
  refine ⟨hn.recordOp (fun k ↦ ?_) fun hdepth k hk hcached ↦ ?_,
    Scopes.recordOp hn h (fun p hp ↦ List.mem_of_mem_filter hp) hawaited
      fun k hcached hk ↦ ⟨c, hbuilding k hcached hk⟩⟩
  · rw [count_keysOf_singleton]
    exact count_filter_lookup s.cached c k
  · obtain ⟨key, hphase⟩ := hbuilding k hcached hk
    have hpos := h.depth_pos (h.guarded c (by rw [hphase]; trivial))
    omega

theorem recordDirect_keeps (op : StagedOp) (hawaited : ∀ d, ¬ s.Awaited d) :
    (s.recordOp { op with reservedSequence := none }).Numbers ∧
      (s.recordOp { op with reservedSequence := none }).Scopes :=
  ⟨hn.recordOp (fun _ ↦ le_rfl) fun _ _ _ ↦ nofun,
    Scopes.recordOp hn h (fun _ hp ↦ hp) hawaited fun _ hop ↦ nomatch hop⟩

end

end

theorem Reports.of_eq (hr : s.Reports) (happended : s'.appended = s.appended)
    (hconsolidated : s'.consolidated = s.consolidated) : s'.Reports := by
  refine ⟨?_, ?_⟩
  · rw [happended]
    exact hr.verbatim
  · rw [hconsolidated]
    exact hr.consolidated

theorem Scopes.of_eq (h : s.Scopes) (hstaging : s'.staging = s.staging)
    (hwindows : s'.windows = s.windows) (hphases : s'.phases = s.phases)
    (hcached : s'.cached = s.cached) : s'.Scopes := by
  refine h.of_frame hphases ?_ ?_ (by rw [hstaging]) (by rw [hstaging]) (Or.inr (by rw [hstaging]))
    ?_ ?_
  · rw [hstaging, hwindows]
    exact h.depth
  · rw [hwindows]
    exact fun _ hc ↦ hc
  · rw [hcached]
    exact fun _ hp ↦ hp
  · rw [hstaging]
    exact fun k hk _ ↦ Or.inl hk

/-- What a run keeps while no other client comes between a scope and its consolidated record. -/
structure Inv (s : KeyRun) : Prop where
  numbers : s.Numbers
  scopes : s.Scopes
  reports : s.Reports

theorem inv_new : new.Inv := by
  refine ⟨⟨Timeline.new_wellFormed, fun _ ↦ Nat.zero_le _, fun _ hk ↦ (nomatch hk)⟩,
    ⟨rfl, fun _ hc ↦ hc.elim, Or.inl ⟨rfl, rfl, fun _ ↦ nofun⟩, fun _ _ hk ↦ (nomatch hk),
      fun _ hk ↦ (nomatch hk), fun _ _ hc ↦ (nomatch hc)⟩, ⟨?_, ?_⟩⟩
  · exact fun _ _ hmem ↦ nomatch hmem
  · exact fun _ _ hmem ↦ nomatch hmem

end Keep

end KeyRun

end RosheraCad
