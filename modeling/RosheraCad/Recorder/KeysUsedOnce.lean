import RosheraCad.Recorder.KeyPlaces

/-!
# Every reserved key is used once

Each step keeps the places of the numbers apart, as long as no other client comes between a scope
and its consolidated record. `reserve_event_key` by another client inside a scope answers the
scope's key, and both records are appended under it.
-/

namespace RosheraCad

namespace KeyRun

variable {s s' : KeyRun} {c : ClientId}

/-! ### One step -/

private theorem map_snd_appended (appended : List (Option StagedOp × EventIndex))
    (op : Option StagedOp) (stored : Option EventIndex) :
    (appended ++ (stored.map (op, ·)).toList).map Prod.snd =
      appended.map Prod.snd ++ stored.toList := by
  rcases stored with _ | seq
  · simp
  · simp

theorem count_remaining_add {seq : EventIndex} {reserved : List EventIndex} (h : seq ∈ reserved)
    (k : EventIndex) : (Timeline.remaining (some seq) reserved).count k +
      (if some seq = some k then 1 else 0) ≤ reserved.count k := by
  by_cases hk : seq = k
  · subst hk
    have hgone : (Timeline.remaining (some seq) reserved).count seq = 0 := by
      refine List.count_eq_zero.mpr fun hmem ↦ ?_
      exact of_decide_eq_true (List.mem_filter.mp hmem).2 rfl
    rw [hgone, if_pos rfl]
    exact List.count_pos_iff.mpr h
  · have hkept : (Timeline.remaining (some seq) reserved).count k = reserved.count k :=
      List.count_filter (by simpa using hk)
    rw [hkept, if_neg fun heq ↦ hk (Option.some_inj.mp heq)]
    exact le_rfl

theorem BuildPhase.not_inScope_outside : ¬ BuildPhase.outside.InScope := Bool.false_ne_true

theorem BuildPhase.not_inScope_opening : ¬ BuildPhase.opening.InScope := Bool.false_ne_true

theorem BuildPhase.not_inScope_closed (key : Option EventIndex) :
    ¬ (BuildPhase.closed key).InScope :=
  Bool.false_ne_true

theorem not_inScope {phase : BuildPhase} (hc : s.phase c = phase)
    (hphase : ¬ phase.InScope) : ¬ (s.phase c).InScope := hc ▸ hphase

section Step

variable [UuidParser]

private theorem step_timeline_eq (run run' : TimelineRun) (h : run.timeline = run'.timeline)
    (op : TimelineOp) : (run.step op).timeline = (run'.step op).timeline := by
  obtain ⟨timeline, reserved⟩ := run
  obtain ⟨timeline', reserved'⟩ := run'
  obtain rfl : timeline = timeline' := h
  cases op <;> rfl

section

variable (hn : s.Numbers)

include hn

theorem Numbers.reserveSequenceNumber :
    (s.step (.timeline .reserveSequenceNumber)).Numbers := by
  refine hn.draw rfl (List.append_nil _) fun k ↦ le_of_eq ?_
  show (s.run.timeline.eventCounter :: s.run.reserved).count k + s.live.count k = _
  rw [List.count_cons]
  simp only [beq_iff_eq, eq_comm (a := k)]
  omega

theorem Numbers.timeline_of_eventId?_eq_none {op : TimelineOp}
    (he : s.run.enabled op) (hop : op.eventId? = none) (hreserve : op ≠ .reserveSequenceNumber) :
    (s.step (.timeline op)).Numbers := by
  have hlog : (s.step (.timeline op)).appended = s.appended := by
    simp only [step, hop]
    exact List.append_nil _
  have hreserved : ∀ run : TimelineRun, (run.step op).reserved = run.reserved := by
    intro run
    cases op <;> first | rfl | exact absurd rfl hreserve | exact nomatch hop
  have henabled : TimelineRun.enabled ⟨s.run.timeline, s.run.reserved ++ s.live⟩ op := by
    cases op <;> first | exact he | exact nomatch hop
  have hwf := TimelineRun.step_wellFormed hn.wellFormed henabled
  rw [hreserved] at hwf
  refine ⟨?_, ?_, ?_⟩
  · show (s.run.step op).timeline.WellFormed ((s.run.step op).reserved ++ s.live)
    rw [hreserved, step_timeline_eq s.run ⟨s.run.timeline, s.run.reserved ++ s.live⟩ rfl op]
    exact hwf
  · intro k
    rw [hlog]
    show _ + (s.run.step op).reserved.count k + s.live.count k ≤ 1
    rw [hreserved]
    exact hn.once k
  · intro k hk
    rw [hlog] at hk
    have hwf' := hn.wellFormed.mono (fun k hk ↦ List.mem_append_left s.live hk)
    exact (hn.spent k hk).trans_le (eventCounter_step_le hwf' hop)

/-- **Any operation on the timeline** by another caller keeps the numbers apart. -/
theorem Numbers.timeline {op : TimelineOp} (he : s.run.enabled op) :
    (s.step (.timeline op)).Numbers := by
  by_cases hop : op.eventId? = none
  · by_cases hreserve : op = .reserveSequenceNumber
    · subst hreserve
      exact hn.reserveSequenceNumber
    · exact hn.timeline_of_eventId?_eq_none he hop hreserve
  · cases op with
    | addOperation operation author b eventId =>
      have hfresh : eventId ∉ s.run.timeline.events := he
      have hrun : (s.step (.timeline (.addOperation operation author b eventId))).run.timeline =
          (s.run.timeline.appendInternal operation author b none eventId).2 := rfl
      refine hn.append hfresh hrun (map_snd_appended ..) fun k ↦ le_of_eq ?_
      rw [if_neg nofun]
      rfl
    | addOperationReserved operation author b seq eventId =>
      obtain ⟨hheld, hfresh⟩ : seq ∈ s.run.reserved ∧ eventId ∉ s.run.timeline.events := he
      have hrun : (s.step
          (.timeline (.addOperationReserved operation author b seq eventId))).run.timeline =
            (s.run.timeline.appendInternal operation author b (some seq) eventId).2 := rfl
      refine hn.append hfresh hrun (map_snd_appended ..) fun k ↦ ?_
      show (Timeline.remaining (some seq) s.run.reserved).count k + s.live.count k + _ ≤ _
      have hspent := count_remaining_add hheld k
      omega
    | reserveSequenceNumber | createBranch | mergeBranches | truncateBranch | abandonBranch
    | updateSessionPosition | setAppliedHead | undo | redo => exact absurd rfl hop

/-- **The worker's append** moves a record's number into the log. -/
theorem append_keeps (hr : s.Reports) {i : ℕ} {eventId : EventId}
    (hid : eventId ∉ s.run.timeline.events) :
    (s.step (.append i eventId)).Numbers ∧ (s.step (.append i eventId)).Reports := by
  rw [step]
  rcases hi : s.handed[i]? with _ | op
  · exact ⟨hn, hr⟩
  · refine ⟨hn.append hid rfl (map_snd_appended ..) fun k ↦ le_of_eq ?_,
      ⟨fun op' seq hmem k hk ↦ ?_, hr.consolidated⟩⟩
    · have hcount := count_keysOf_eraseIdx hi k
      rw [count_live, count_live]
      simp only
      omega
    · rcases List.mem_append.mp hmem with hmem | hmem
      · exact hr.verbatim op' seq hmem k hk
      · rcases appendInternal_storedSequence hn.wellFormed hid op.record.toTimelineOperation
          op.author op.branch op.reservedSequence with ⟨hnone, -⟩ | ⟨hstored, -, -⟩
        · rw [appendOp, hnone] at hmem
          exact nomatch hmem
        · rw [appendOp, hstored, Option.map_some, Option.toList_some, List.mem_singleton] at hmem
          obtain ⟨rfl, rfl⟩ := Prod.mk.inj hmem |>.imp_left Option.some_inj.mp
          rw [hk]
          rfl

theorem recordConsolidated_keeps (h : s.Scopes) (hr : s.Reports)
    {key : Option EventIndex} (op : StagedOp) (hc : s.phase c = .closed key)
    (hawaited : ∀ d, d ≠ c → ¬ s.Awaited d) :
    (s.step (.recordConsolidated c op)).Numbers ∧ (s.step (.recordConsolidated c op)).Scopes ∧
      (s.step (.recordConsolidated c op)).Reports := by
  have hscopes : (s.setPhase c .outside).Scopes :=
    h.setPhase (not_inScope hc (BuildPhase.not_inScope_closed key)) BuildPhase.not_inScope_outside
      False.elim (by simp)
  have hnumbers : (s.setPhase c .outside).Numbers := hn.of_count_le rfl rfl fun _ ↦ le_rfl
  have hnone : ∀ d, ¬ (s.setPhase c .outside).Awaited d := by
    rintro d ⟨k, hk⟩
    by_cases hdc : d = c
    · subst hdc
      cases (phase_setPhase_self s d .outside).symm.trans hk
    · exact hawaited d hdc ⟨k, (phase_setPhase_of_ne s hdc .outside).symm.trans hk⟩
  obtain ⟨hn', h'⟩ := recordDirect_keeps hnumbers hscopes op hnone
  have hstep : s.step (.recordConsolidated c op) =
      { (s.setPhase c .outside).recordOp { op with reservedSequence := none } with
        consolidated := s.consolidated ++
          [(s.staging.stamp { op with reservedSequence := none }, key)] } := by
    simp only [step, hc]
    rfl
  rw [hstep]
  refine ⟨hn'.of_count_le rfl rfl fun _ ↦ le_rfl,
    ⟨h'.depth, h'.guarded, h'.oneScope, h'.cached, h'.staged, h'.awaited⟩,
    ⟨hr.verbatim, fun op' key' hmem k hk ↦ ?_⟩⟩
  rcases List.mem_append.mp hmem with hmem | hmem
  · exact hr.consolidated op' key' hmem k hk
  · obtain ⟨rfl, rfl⟩ := Prod.mk.inj (List.mem_singleton.mp hmem)
    rw [stamp_reservedSequence, Option.none_or]
    exact h.awaited c k (hk ▸ hc)

theorem Numbers.drawKey (c : ClientId) : (s.step (.drawKey c)).Numbers := by
  refine hn.draw rfl rfl fun k ↦ le_of_eq ?_
  have hnew : [s.run.timeline.eventCounter].count k =
      if k = s.run.timeline.eventCounter then 1 else 0 := by
    rw [List.count_singleton]
    simp only [beq_iff_eq, eq_comm (a := k)]
  rw [count_live_eq_places, count_live_eq_places]
  simp only [KeyRun.step, Timeline.reserveSequenceNumber, List.map_append, List.map_singleton]
  rw [places, places, List.count_append, hnew]
  omega

theorem forgetKey_keeps (h : s.Scopes) (c : ClientId) :
    (s.step (.forgetKey c)).Numbers ∧ (s.step (.forgetKey c)).Scopes := by
  refine ⟨hn.of_count_le rfl rfl fun k ↦ ?_, h.of_frame rfl h.depth (fun _ hc ↦ hc) rfl rfl
    (Or.inr rfl) (fun p hp ↦ List.mem_of_mem_filter hp) fun k hk _ ↦ Or.inl hk⟩
  have hcount := count_filter_lookup s.cached c k
  rw [count_live_eq_places, count_live_eq_places]
  simp only [KeyRun.step, dropCached]
  rw [places, places]
  split_ifs <;> omega

theorem openGuard_keeps (h : s.Scopes) (hc : s.phase c = .outside) :
    (s.step (.openGuard c)).Numbers ∧ (s.step (.openGuard c)).Scopes := by
  have hopened : Scopes { s with
      staging := s.staging.beginPending
      windows := (c, true) :: s.windows } :=
    h.of_frame rfl (congrArg (· + 1) h.depth) (fun _ hc ↦ List.mem_cons_of_mem _ hc) rfl rfl
      (Or.inr rfl) (fun _ hp ↦ hp) fun k hk _ ↦ Or.inl hk
  exact ⟨hn.of_count_le rfl rfl fun _ ↦ le_rfl,
    hopened.setPhase (not_inScope hc BuildPhase.not_inScope_outside)
      BuildPhase.not_inScope_opening (fun _ ↦ List.mem_cons_self) (by simp)⟩

theorem Numbers.enterScope (h : s.Scopes)
    (hguard : s.ScopesUndisturbed (.enterScope c)) : (s.step (.enterScope c)).Numbers := by
  have hdepth := h.oneScope.discardDepth_eq_zero fun d ↦ (hguard d).1
  refine hn.of_count_le rfl rfl fun k ↦ ?_
  rw [count_live_eq_places, count_live_eq_places, (h.oneScope.of_depth_eq_zero hdepth).1]
  simp only [KeyRun.step, setPhase, StagingState.beginDiscardScope, hdepth, if_true]
  refine places_handOver_le fun hk ↦ ?_
  cases hk

theorem leaveScope_keeps (h : s.Scopes) {key : Option EventIndex} (hc : s.phase c = .dropping key)
    (hguard : s.ScopesUndisturbed (.leaveScope c)) :
    (s.step (.leaveScope c)).Numbers ∧ (s.step (.leaveScope c)).Scopes := by
  obtain ⟨hend, hsticky, h'⟩ := h.leaveScope hc
  simp only [KeyRun.step, hc]
  refine ⟨hn.of_count_le rfl rfl fun k ↦ ?_, h'⟩
  rw [count_live_eq_places, count_live_eq_places, hsticky]
  simp only [setPhase, hend]
  exact places_handOver_le fun hk ↦ h.handOver hc (hk ▸ hsticky) fun hcached ↦
    hguard (c, k) hcached rfl (hk ▸ hc)

theorem Numbers.lose (i : ℕ) : (s.step (.lose i)).Numbers := by
  refine hn.of_count_le rfl rfl fun k ↦ ?_
  have hsub : (keysOf (s.handed.eraseIdx i)).count k ≤ (keysOf s.handed).count k :=
    ((List.eraseIdx_sublist s.handed i).filterMap _).count_le k
  rw [count_live_eq_places, count_live_eq_places]
  simp only [KeyRun.step]
  rw [places, places]
  omega

end

theorem Reports.timeline (hr : s.Reports) (op : TimelineOp) :
    (s.step (.timeline op)).Reports := by
  refine ⟨fun op' seq hmem ↦ ?_, hr.consolidated⟩
  rcases List.mem_append.mp hmem with hmem | hmem
  · exact hr.verbatim op' seq hmem
  · obtain ⟨stored, -, heq⟩ := Option.map_eq_some_iff.mp (Option.mem_toList.mp hmem)
    exact nomatch congrArg Prod.fst heq

/-- **One step keeps the invariant.** -/
theorem Inv.step (hs : s.Inv) {action : KeyAction} (he : s.enabled action)
    (hguard : s.ScopesUndisturbed action) : (s.step action).Inv := by
  obtain ⟨hn, h, hr⟩ := hs
  cases action with
  | timeline op => exact ⟨hn.timeline he, h.of_eq rfl rfl rfl rfl, hr.timeline op⟩
  | reserveKey c =>
    rw [KeyRun.step]
    -- Without a scope's number to read, only the caller's phase changes.
    rcases hread : s.staging.stickySequence with _ | seq
    · exact ⟨hn.of_count_le rfl rfl fun _ ↦ le_rfl,
        h.of_eq rfl rfl rfl rfl, hr.of_eq rfl rfl⟩
    · obtain ⟨hn', h'⟩ := readKey_keeps hn h hread (hguard (by simp [hread]))
      exact ⟨hn', h', hr.of_eq rfl rfl⟩
  | drawKey c => exact ⟨hn.drawKey c, h.of_eq rfl rfl rfl rfl, hr.of_eq rfl rfl⟩
  | missCounter c =>
    exact ⟨hn.of_count_le rfl rfl fun _ ↦ le_rfl,
      h.of_eq rfl rfl rfl rfl, hr.of_eq rfl rfl⟩
  | settleKey c =>
    obtain ⟨seq, hdrawn⟩ := he
    obtain ⟨hn', h'⟩ := settleKey_keeps hn h hdrawn hguard
    simp only [KeyRun.step, hdrawn]
    exact ⟨hn', h', hr.of_eq rfl rfl⟩
  | forgetKey c =>
    obtain ⟨hn', h'⟩ := forgetKey_keeps hn h c
    exact ⟨hn', h', hr.of_eq rfl rfl⟩
  | beginPending c =>
    refine ⟨hn.of_count_le rfl rfl fun _ ↦ le_rfl, h.of_frame rfl (congrArg (· + 1) h.depth)
      (fun _ hc ↦ List.mem_cons_of_mem _ hc) rfl rfl (Or.inr rfl) (fun _ hp ↦ hp)
      fun k hk _ ↦ Or.inl hk, hr.of_eq rfl rfl⟩
  | commitPending c =>
    exact ⟨hn.commitPending h he.2.2, h.closeWindow he.2.2 (Or.inl rfl), hr.of_eq rfl rfl⟩
  | abortPending c =>
    exact ⟨hn.abortPending _, h.closeWindow he.2.2 (Or.inr rfl), hr.of_eq rfl rfl⟩
  | record c op =>
    obtain ⟨hn', h'⟩ := recordOp_keeps hn h op he.2 hguard
    exact ⟨hn', h', hr.of_eq rfl rfl⟩
  | recordDirect c op =>
    obtain ⟨hn', h'⟩ := recordDirect_keeps hn h op hguard
    exact ⟨hn', h', hr.of_eq rfl rfl⟩
  | openGuard c =>
    obtain ⟨hn', h'⟩ := openGuard_keeps hn h he.2
    exact ⟨hn', h', hr.of_eq rfl rfl⟩
  | enterScope c => exact ⟨hn.enterScope h hguard, h.enterScope he hguard, hr.of_eq rfl rfl⟩
  | leaveWindow c =>
    obtain ⟨-, -, key, hc⟩ := he
    simp only [KeyRun.step, hc]
    have hwindow := hn.abortPending (s.windows.erase (c, true))
    exact ⟨hwindow.of_count_le rfl rfl fun _ ↦ le_rfl, h.leaveWindow hc hguard,
      hr.of_eq rfl rfl⟩
  | leaveScope c =>
    obtain ⟨key, hc⟩ := he
    obtain ⟨hn', h'⟩ := leaveScope_keeps hn h hc hguard
    simp only [KeyRun.step, hc] at hn' h' ⊢
    exact ⟨hn', h', hr.of_eq rfl rfl⟩
  | recordConsolidated c op =>
    obtain ⟨key, hc⟩ := he
    obtain ⟨hn', h', hr'⟩ := recordConsolidated_keeps hn h hr op hc hguard
    exact ⟨hn', h', hr'⟩
  | giveUp c =>
    obtain ⟨key, hc⟩ := he
    exact ⟨hn.of_count_le rfl rfl fun _ ↦ le_rfl,
      h.setPhase (not_inScope hc (BuildPhase.not_inScope_closed key))
        BuildPhase.not_inScope_outside False.elim (by simp), hr.of_eq rfl rfl⟩
  | lose i => exact ⟨hn.lose i, h.of_eq rfl rfl rfl rfl, hr.of_eq rfl rfl⟩
  | append i eventId =>
    obtain ⟨hn', hr'⟩ := append_keeps hn hr he.2
    refine ⟨hn', ?_, hr'⟩
    rw [KeyRun.step]
    rcases s.handed[i]? with _ | op
    · exact h
    · exact h.of_eq rfl rfl rfl rfl

/-- **Every key is used once, and where it was reserved for**, where no other client comes between a
scope and its consolidated record. -/
theorem keysUsedOnce_of_reachable (h : system.ReachableUnder ScopesUndisturbed s) :
    s.KeysUsedOnce := by
  have hinv : s.Inv := h.invariant Inv inv_new fun _ _ _ hs he hguard ↦ hs.step he hguard
  refine ⟨hinv.numbers.wellFormed.sequences_unique, List.nodup_iff_count_le_one.mpr fun k ↦ ?_,
    hinv.reports.verbatim, hinv.reports.consolidated⟩
  have honce := hinv.numbers.once k
  omega

end Step

/-! ### Example runs -/

private def builtOp (kind : String) : StagedOp :=
  ⟨⟨kind, .null, [], [], [], []⟩, none, .system, BranchId.main, none⟩

/-- A client builds in a scope and records; another caller appends in between. -/
def undisturbed : KeyRun :=
  letI := noUuids
  system.run system.init [.openGuard 0, .enterScope 0, .reserveKey 0, .drawKey 0, .settleKey 0,
    .record 0 (builtOp "revolve_face"),
    .timeline (.addOperation exampleOp .system .main (exampleEvent 1)), .leaveWindow 0,
    .leaveScope 0, .recordConsolidated 0 (builtOp "revolve_typed"), .append 0 (exampleEvent 2)]

theorem reachable_undisturbed : (@system noUuids).ReachableUnder ScopesUndisturbed undisturbed :=
  letI := noUuids
  .run .init (by decide)

/-- The consolidated record is appended under the number its scope reserved first. -/
theorem keysUsedOnce_of_undisturbed : undisturbed.appended.map Prod.snd = [1, 0] ∧
    undisturbed.consolidated.map Prod.snd = [some 0] ∧ undisturbed.KeysUsedOnce :=
  ⟨by decide, by decide, @keysUsedOnce_of_reachable _ noUuids reachable_undisturbed⟩

def shared : KeyRun :=
  letI := noUuids
  system.run system.init [.openGuard 0, .enterScope 0, .reserveKey 0, .drawKey 0, .settleKey 0,
    .record 0 (builtOp "revolve_face"), .reserveKey 1, .leaveWindow 0, .leaveScope 0,
    .recordConsolidated 0 (builtOp "revolve_typed"), .record 1 (builtOp "create_box_3d"),
    .append 0 (exampleEvent 1), .append 0 (exampleEvent 2)]

theorem reachable_shared : (@system noUuids).Reachable shared :=
  letI := noUuids
  .run .init (by decide)

theorem appended_shared : shared.appended.map Prod.snd = [0, 0] := by decide

/-- Two events carry one number. -/
theorem not_keysUsedOnce_of_reachable :
    ¬ ∀ [UuidParser] (s : KeyRun), system.Reachable s → s.KeysUsedOnce := by
  intro hclaim
  have hnodup := (@hclaim noUuids shared reachable_shared).appended_once
  rw [appended_shared] at hnodup
  exact absurd hnodup (by decide)

end KeyRun

end RosheraCad
