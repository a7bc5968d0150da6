import RosheraCad.Library.Checked
import RosheraCad.Library.Search
import RosheraCad.Timeline.Reachable
import Mathlib.Data.List.Pairwise

/-!
# The validator

For an event in the index of a branch that did not record it, the validator collects the branches
the host incorporates, walking over parents and merges from a stack. The walk gives up after 8192
pops, and what is not reached by then counts as not incorporated.

The branches merged into one are pushed in the order the map yields them, a parameter here.
-/

namespace RosheraCad

/-- How a session id prints in its debug form. -/
class SessionDebug where
  text : SessionId → String

namespace Timeline

structure BranchOrder (t : Timeline) where
  entries : List (BranchId × Branch)
  perm : entries.Perm t.branches.toList

section Model

variable (t : Timeline) (order : t.BranchOrder)

/-! ## The walk -/

def mergeEdges : List (BranchId × BranchId) :=
  order.entries.filterMap fun e ↦
    match e.2.state with
    | .merged into _ => some (into, e.2.id)
    | _ => none

def mergedIn : OrderedMap BranchId (List BranchId) := OrderedMap.push ∅ (t.mergeEdges order)

/-- What is put on the stack for a branch, the top first: the merged branches, then the parent. -/
def edges (b : BranchId) : List BranchId :=
  ((t.mergedIn order)[b]?.getD []).reverse ++ (t.branches[b]?.bind Branch.parent).toList

def guardLimit : ℕ := 8192

def incorporated (host : BranchId) : List BranchId :=
  Search.dive (t.edges order) guardLimit [] [host]

/-! ## The checks -/

/-- The entry names a stored event, under its sequence number, recorded on one of these branches. -/
def checkEntry (incorporated : List BranchId) (host : BranchId) (key : EventIndex)
    (eventId : EventId) : Except TimelineError Unit :=
  match t.events[eventId]? with
  | none => .error (.internal ("branch " ++ host.toText ++ " references missing event id "
      ++ eventId.toText ++ " at key " ++ toString key))
  | some event => do
    ensure (event.sequenceNumber = key) (.internal ("branch " ++ host.toText ++ " stores event "
      ++ eventId.toText ++ " under key " ++ toString key ++ " but event.sequence_number="
      ++ toString event.sequenceNumber))
    ensure (event.branchId ∈ incorporated) (.internal ("branch " ++ host.toText ++ " hosts event "
      ++ eventId.toText ++ " whose branch_id=" ++ event.branchId.toText
      ++ " is neither an ancestor nor merged into one"))

def checkParent (branch : Branch) : Except TimelineError Unit :=
  if branch.id = .main then .ok ()
  else
    match branch.parent with
    | none => .error (.internal ("non-main branch " ++ branch.id.toText ++ " has no parent"))
    | some parent => do
      ensure (parent ∈ t.branches) (.internal ("branch " ++ branch.id.toText ++ " parent "
        ++ parent.toText ++ " does not exist"))
      ensure (branch.forkPoint.branchId = parent) (.internal ("branch " ++ branch.id.toText
        ++ " fork_point.branch_id=" ++ branch.forkPoint.branchId.toText
        ++ " does not match parent=" ++ parent.toText))

def checkSequences : (seen : List EventIndex) → List (EventId × TimelineEvent) →
    Except TimelineError Unit
  | _, [] => .ok ()
  | seen, (_, event) :: entries => do
    ensure (event.sequenceNumber ∉ seen) (.internal ("duplicate sequence_number "
      ++ toString event.sequenceNumber ++ " (event id " ++ event.id.toText ++ ")"))
    checkSequences (event.sequenceNumber :: seen) entries

variable [SessionDebug]

def checkSession (session : SessionId) (pos : SessionPosition) : Except TimelineError Unit :=
  match t.branchEvents[pos.branchId]? with
  | none => .error (.internal ("session " ++ SessionDebug.text session
      ++ " points at non-existent branch " ++ pos.branchId.toText))
  | some m => ensure (pos.eventIndex ≤ m.size) (.internal ("session " ++ SessionDebug.text session
      ++ " event_index " ++ toString pos.eventIndex ++ " exceeds branch " ++ pos.branchId.toText
      ++ " length " ++ toString m.size))

/-- Run the checks across the entire timeline, up to the first violation. -/
def validate : Except TimelineError Unit := do
  order.entries.forM fun e ↦ ensure (e.1 ∈ t.branchEvents) (.internal ("branch " ++ e.1.toText
    ++ " is in `branches` but not in `branch_events`"))
  t.branchEvents.toList.forM fun e ↦ ensure (e.1 ∈ t.branches) (.internal ("branch " ++ e.1.toText
    ++ " is in `branch_events` but not in `branches`"))
  t.branchEvents.toList.forM fun e ↦
    e.2.toList.forM fun entry ↦ t.checkEntry (t.incorporated order e.1) e.1 entry.1 entry.2
  order.entries.forM fun e ↦ t.checkParent e.2
  checkSequences [] t.events.toList
  t.sessionPositions.toList.forM fun e ↦ t.checkSession e.1 e.2

end Model

/-! ## What the checks ask -/

section Spec

variable {t : Timeline} {order : t.BranchOrder} {b c : BranchId}

theorem BranchOrder.mem_entries {b : BranchId} {r : Branch} :
    (b, r) ∈ order.entries ↔ t.branches[b]? = some r :=
  order.perm.mem_iff.trans OrderedMap.mem_toList

theorem mem_mergeEdges : (b, c) ∈ t.mergeEdges order ↔
    ∃ (z : BranchId) (r : Branch) (now : Timestamp),
      t.branches[z]? = some r ∧ r.state = .merged b now ∧ r.id = c := by
  rw [mergeEdges, List.mem_filterMap]
  constructor
  · rintro ⟨⟨z, r⟩, hr, hmatch⟩
    cases hs : r.state with
    | merged into now =>
      simp only [hs, Option.some.injEq, Prod.mk.injEq] at hmatch
      obtain ⟨rfl, rfl⟩ := hmatch
      exact ⟨z, r, now, BranchOrder.mem_entries.mp hr, hs, rfl⟩
    | active | abandoned reason | completed score =>
      simp only [hs] at hmatch
      contradiction
  · rintro ⟨z, r, now, hr, hs, rfl⟩
    exact ⟨(z, r), BranchOrder.mem_entries.mpr hr, by simp only [hs]⟩

theorem mem_mergedIn :
    c ∈ (t.mergedIn order)[b]?.getD [] ↔ (b, c) ∈ t.mergeEdges order := by
  rw [mergedIn, OrderedMap.getD_push, Std.ExtTreeMap.getElem?_empty, Option.getD_none,
    List.nil_append, List.mem_map]
  constructor
  · rintro ⟨⟨b', c'⟩, he, rfl⟩
    obtain ⟨he, hb⟩ := List.mem_filter.mp he
    exact of_decide_eq_true hb ▸ he
  · intro he
    exact ⟨(b, c), List.mem_filter.mpr ⟨he, decide_eq_true rfl⟩, rfl⟩

/-- **The walk goes along parents and merges.** -/
theorem mem_edges : c ∈ t.edges order b ↔ t.IncorporatesStep b c := by
  rw [edges, List.mem_append, List.mem_reverse, Option.mem_toList, mem_mergedIn, mem_mergeEdges]
  constructor
  · rintro (⟨z, r, now, hr, hs, rfl⟩ | hparent)
    · exact .merged hr hs
    · obtain ⟨r, hr, hp⟩ := Option.bind_eq_some_iff.mp hparent
      exact .parent hr hp
  · rintro (⟨hr, hp⟩ | ⟨hr, hs⟩)
    · exact .inr (Option.bind_eq_some_iff.mpr ⟨_, hr, hp⟩)
    · exact .inl ⟨_, _, _, hr, hs, rfl⟩

theorem reachable_iff_incorporates :
    Relation.ReflTransGen (Search.Step (t.edges order)) b c ↔ t.Incorporates b c := by
  rw [Incorporates, show Search.Step (t.edges order) = t.IncorporatesStep from
    funext fun b ↦ funext fun c ↦ propext mem_edges]

theorem mem_incorporated :
    c ∈ t.incorporated order b ↔ c ∈ Search.taken (t.edges order) guardLimit [] [b] := by
  rw [incorporated, Search.mem_dive]
  exact or_iff_right List.not_mem_nil

def parentEdges (t : Timeline) : List (BranchId × BranchId) :=
  t.branches.toList.filterMap fun e ↦ e.2.parent.map (e.1, ·)

theorem mem_parentEdges {b p : BranchId} (hp : t.branches[b]?.bind Branch.parent = some p) :
    (b, p) ∈ t.parentEdges := by
  obtain ⟨r, hr, hp⟩ := Option.bind_eq_some_iff.mp hp
  exact List.mem_filterMap.mpr ⟨(b, r), OrderedMap.mem_toList.mpr hr, by rw [hp]; rfl⟩

theorem length_edges_le (b : BranchId) : (t.edges order b).length ≤
    ((t.mergeEdges order ++ t.parentEdges).filter (·.1 = b)).length := by
  rw [edges, List.length_append, List.length_reverse, mergedIn, OrderedMap.getD_push,
    Std.ExtTreeMap.getElem?_empty, Option.getD_none, List.nil_append, List.length_map,
    List.filter_append, List.length_append]
  refine Nat.add_le_add_left ?_ _
  cases hp : t.branches[b]?.bind Branch.parent with
  | none => exact Nat.zero_le _
  | some p =>
    refine List.length_pos_of_mem (List.mem_filter.mpr ⟨mem_parentEdges hp, ?_⟩)
    exact decide_eq_true rfl

theorem mem_of_mem_edges (hc : c ∈ t.edges order b) :
    c ∈ (t.mergeEdges order ++ t.parentEdges).map Prod.snd := by
  rw [List.map_append]
  rcases List.mem_append.mp hc with hc | hc
  · exact List.mem_append_left _
      (List.mem_map_of_mem (mem_mergedIn.mp (List.mem_reverse.mp hc)))
  · exact List.mem_append_right _ (List.mem_map_of_mem (mem_parentEdges (Option.mem_toList.mp hc)))

/-- **On few branches a walk ends by itself**: 4095 branches take 8190 pops at most. -/
theorem mem_taken_of_few_branches (h : t.branches.size ≤ 4095) :
    c ∈ Search.taken (t.edges order) guardLimit [] [b] ↔ t.Incorporates b c := by
  have hlength : (t.mergeEdges order ++ t.parentEdges).length ≤
      t.branches.size + t.branches.size := by
    rw [List.length_append, ← Std.ExtTreeMap.length_toList]
    refine Nat.add_le_add ?_ (List.length_filterMap_le ..)
    rw [← order.perm.length_eq]
    exact List.length_filterMap_le ..
  refine (Search.mem_taken_iff_of_edges length_edges_le (fun b c ↦ mem_of_mem_edges) ?_).trans
    reachable_iff_incorporates
  rw [guardLimit]
  omega

theorem checkEntry_eq_ok {incorporated : List BranchId} {host : BranchId} {key : EventIndex}
    {eventId : EventId} : t.checkEntry incorporated host key eventId = .ok () ↔
      ∃ ev, t.events[eventId]? = some ev ∧ ev.sequenceNumber = key ∧
        ev.branchId ∈ incorporated := by
  rw [checkEntry]
  cases t.events[eventId]? with
  | none => simp
  | some event =>
    dsimp only
    rw [Except.bind_eq_ok]
    simp only [ensure_eq_ok, exists_const, Option.some.injEq, exists_eq_left']

theorem checkParent_eq_ok {branch : Branch} : t.checkParent branch = .ok () ↔
    (branch.id ≠ .main → ∃ p, branch.parent = some p ∧ p ∈ t.branches ∧
      branch.forkPoint.branchId = p) := by
  rw [checkParent]
  by_cases hmain : branch.id = .main
  · simp [hmain]
  · rw [if_neg hmain]
    cases branch.parent with
    | none => simp [hmain]
    | some parent =>
      dsimp only
      rw [Except.bind_eq_ok]
      simp only [ensure_eq_ok, exists_const, Option.some.injEq, exists_eq_left', ne_eq, hmain,
        not_false_eq_true, forall_const]

theorem checkSequences_eq_ok {seen : List EventIndex} {entries : List (EventId × TimelineEvent)} :
    checkSequences seen entries = .ok () ↔
      (∀ e ∈ entries, e.2.sequenceNumber ∉ seen) ∧
        entries.Pairwise fun e e' ↦ e.2.sequenceNumber ≠ e'.2.sequenceNumber := by
  induction entries generalizing seen with
  | nil => simp [checkSequences]
  | cons e entries ih =>
    rw [checkSequences, Except.bind_eq_ok, List.forall_mem_cons, List.pairwise_cons]
    simp only [ensure_eq_ok, exists_const, ih, List.mem_cons, not_or]
    constructor
    · rintro ⟨hfresh, hrest, hpairwise⟩
      exact ⟨⟨hfresh, fun e' he' ↦ (hrest e' he').2⟩,
        fun e' he' ↦ Ne.symm (hrest e' he').1, hpairwise⟩
    · rintro ⟨⟨hfresh, hrest⟩, hne, hpairwise⟩
      exact ⟨hfresh, fun e' he' ↦ ⟨Ne.symm (hne e' he'), hrest e' he'⟩, hpairwise⟩

theorem checkSequences_events {u : Unit} : checkSequences [] t.events.toList = .ok u ↔
    ∀ (e e' : EventId) (ev ev' : TimelineEvent), t.events[e]? = some ev →
      t.events[e']? = some ev' → ev.sequenceNumber = ev'.sequenceNumber → e = e' := by
  rw [checkSequences_eq_ok, and_iff_right fun _ _ ↦ List.not_mem_nil]
  constructor
  · intro h e e' ev ev' he he' hseq
    have : Std.Symm fun e e' : EventId × TimelineEvent ↦
        e.2.sequenceNumber ≠ e'.2.sequenceNumber := ⟨fun _ _ ↦ Ne.symm⟩
    by_contra hne
    exact h.forall (OrderedMap.mem_toList.mpr he) (OrderedMap.mem_toList.mpr he')
      (fun heq ↦ hne (congrArg Prod.fst heq)) hseq
  · intro h
    refine Std.ExtTreeMap.distinct_keys_toList.imp_of_mem fun he he' hne hseq ↦ hne ?_
    exact Std.compare_eq_iff_eq.mpr
      (h _ _ _ _ (OrderedMap.mem_toList.mp he) (OrderedMap.mem_toList.mp he') hseq)

theorem forall_entries_iff {P : BranchId → EventIndex → EventId → Prop} :
    (∀ b m, t.branchEvents[b]? = some m → ∀ k e, m[k]? = some e → P b k e) ↔
      ∀ b k e, (t.index b)[k]? = some e → P b k e := by
  constructor
  · intro h b k e hk
    rw [index] at hk
    cases hm : t.branchEvents[b]? with
    | none =>
      rw [hm, Option.getD_none, Std.ExtTreeMap.getElem?_empty] at hk
      contradiction
    | some m =>
      rw [hm, Option.getD_some] at hk
      exact h b m hm k e hk
  · intro h b m hm k e hk
    rw [← index_eq_of_getElem? hm] at hk
    exact h b k e hk

variable [SessionDebug]

theorem checkSession_eq_ok {session : SessionId} {pos : SessionPosition} :
    t.checkSession session pos = .ok () ↔
      pos.branchId ∈ t.branchEvents ∧ pos.eventIndex ≤ (t.index pos.branchId).size := by
  rw [checkSession, OrderedMap.mem_iff_exists, index]
  cases t.branchEvents[pos.branchId]? with
  | none => simp
  | some m => simp [ensure_eq_ok]

/-! ## What the validator accepts -/

/-- Every event in an index was recorded on a branch among the first the walk takes up. -/
def OriginsWithinLimit (t : Timeline) (order : t.BranchOrder) : Prop :=
  ∀ (b : BranchId) (k : EventIndex) (e : EventId) (ev : TimelineEvent),
    (t.index b)[k]? = some e → t.events[e]? = some ev →
      ev.branchId ∈ Search.taken (t.edges order) guardLimit [] [b]

/-- **What the validator accepts**: the documented relations, when no walk is given up too soon. -/
theorem validate_eq_ok : t.validate order = .ok () ↔
    t.CrossMapInvariants ∧ t.OriginsWithinLimit order := by
  rw [validate]
  simp only [Except.bind_eq_ok, Except.forM_eq_ok, ensure_eq_ok, exists_const, Prod.forall,
    BranchOrder.mem_entries, OrderedMap.mem_toList, checkEntry_eq_ok, checkParent_eq_ok,
    checkSequences_events, checkSession_eq_ok, mem_incorporated, forall_entries_iff]
  constructor
  · rintro ⟨hindexed, hrecorded, hentries, hparents, hsequences, hsessions⟩
    -- the walk reaches only what is incorporated, so its word is enough for the third relation
    have horigins : t.OriginsWithinLimit order := by
      intro b k e ev hk hev
      obtain ⟨ev', hev', -, hmem⟩ := hentries b k e hk
      obtain rfl := Option.some.inj (hev.symm.trans hev')
      exact hmem
    refine ⟨⟨fun b ↦ ⟨fun hb ↦ ?_, fun hb ↦ ?_⟩, fun b k e hk ↦ ?_, fun b k e ev hk hev ↦ ?_,
      fun b r hr hmain ↦ ?_, fun b r p hr hmain hp ↦ ?_, hsequences, hsessions⟩, horigins⟩
    · obtain ⟨r, hr⟩ := OrderedMap.mem_iff_exists.mp hb
      exact hindexed b r hr
    · obtain ⟨m, hm⟩ := OrderedMap.mem_iff_exists.mp hb
      exact hrecorded b m hm
    · obtain ⟨ev, hev, hseq, -⟩ := hentries b k e hk
      exact ⟨ev, hev, hseq⟩
    · refine reachable_iff_incorporates.mp
        (Search.reached_of_mem_taken (fun c hc ↦ ?_) (horigins b k e ev hk hev))
      rw [List.mem_singleton.mp hc]
    · obtain ⟨p, hp, hmem, -⟩ := hparents b r hr hmain
      exact ⟨p, hp, hmem⟩
    · obtain ⟨p', hp', -, hfork⟩ := hparents b r hr hmain
      exact hfork.trans (Option.some.inj (hp'.symm.trans hp))
  · rintro ⟨h, horigins⟩
    refine ⟨fun b r hr ↦ ?_, fun b m hm ↦ ?_, fun b k e hk ↦ ?_, fun b r hr hmain ↦ ?_,
      h.sequences_unique, h.sessions_in_range⟩
    · exact (h.branches_agree b).mp (OrderedMap.mem_of_getElem? hr)
    · exact (h.branches_agree b).mpr (OrderedMap.mem_of_getElem? hm)
    · obtain ⟨ev, hev, hseq⟩ := h.entries_resolve b k e hk
      exact ⟨ev, hev, hseq, horigins b k e ev hk hev⟩
    · obtain ⟨p, hp, hmem⟩ := h.parents_exist b r hr hmain
      exact ⟨p, hp, hmem, h.forks_match_parents b r p hr hmain hp⟩

theorem validate_of_few_branches (h : t.branches.size ≤ 4095) :
    t.validate order = .ok () ↔ t.CrossMapInvariants := by
  rw [validate_eq_ok, and_iff_left_iff_imp]
  intro hinv b k e ev hk hev
  exact (mem_taken_of_few_branches h).mpr (hinv.origins_incorporated b k e ev hk hev)

end Spec

end Timeline

/-! ## A long chain of forks -/

def forkChain : ℕ → TimelineRun
  | 0 => exampleRun [.addOperation exampleOp .system .main (exampleEvent 1)]
  | n + 1 => @TimelineRun.step noUuids (forkChain n)
      (.createBranch "fork" (exampleBranch n) (some 0) .system (exampleBranch (n + 1)))

structure ForkedFrom (n : ℕ) (t : Timeline) : Prop where
  branches_le : ∀ b ∈ t.branches, ∃ i ≤ n, b = exampleBranch i
  active : ∀ (b : BranchId) (r : Branch), t.branches[b]? = some r → r.state = .active
  parents : ∀ i < n, ∃ r, t.branches[exampleBranch (i + 1)]? = some r ∧
    r.parent = some (exampleBranch i)
  last_mem : exampleBranch n ∈ t.branches
  entry : (t.index (exampleBranch n))[0]? = some (exampleEvent 1)
  event : ∃ ev, t.events[exampleEvent 1]? = some ev ∧ ev.branchId = .main

theorem exampleBranch_inj {i j : ℕ} (hi : i < 2 ^ 128) (hj : j < 2 ^ 128)
    (h : exampleBranch i = exampleBranch j) : i = j := by
  have h := congrArg BitVec.toNat (Id.mk.inj h)
  rwa [BitVec.toNat_ofNat, BitVec.toNat_ofNat, Nat.mod_eq_of_lt hi, Nat.mod_eq_of_lt hj] at h

theorem forkedFrom_zero : ForkedFrom 0 (forkChain 0).timeline := by
  have hrecords : ∀ e ∈ (forkChain 0).timeline.branches.toList,
      e.1 = exampleBranch 0 ∧ e.2.state = .active := by decide
  have hrecord {b : BranchId} {r : Branch} (hr : (forkChain 0).timeline.branches[b]? = some r) :
      b = exampleBranch 0 ∧ r.state = .active := hrecords (b, r) (OrderedMap.mem_toList.mpr hr)
  refine ⟨fun b hb ↦ ?_, fun b r hr ↦ (hrecord hr).2, nofun, by decide, by decide, _, rfl, rfl⟩
  obtain ⟨r, hr⟩ := OrderedMap.mem_iff_exists.mp hb
  exact ⟨0, le_rfl, (hrecord hr).1⟩

variable {t : Timeline}

theorem ForkedFrom.not_mem {n : ℕ} (h : ForkedFrom n t) (hn : n + 1 < 2 ^ 128) :
    exampleBranch (n + 1) ∉ t.branches := by
  intro hmem
  obtain ⟨i, hi, heq⟩ := h.branches_le _ hmem
  have := exampleBranch_inj hn (by omega) heq
  omega

theorem ForkedFrom.succ {n : ℕ} (h : ForkedFrom n t) (hn : n + 1 < 2 ^ 128) :
    ForkedFrom (n + 1)
      (t.createBranch "fork" (exampleBranch n) (some 0) .system (exampleBranch (n + 1))).2 := by
  have hnew := h.not_mem hn
  obtain ⟨hparent, -⟩ | ⟨-, heq⟩ := t.createBranch_cases "fork" (exampleBranch n) (some 0) .system
    (exampleBranch (n + 1))
  · exact absurd h.last_mem hparent
  rw [heq]
  -- only the new branch's record changes, and it is not on the chain before it
  have hlookup (b : BranchId) (r : Branch) :
      (t.branches.insert (exampleBranch (n + 1)) r)[b]? =
        if b = exampleBranch (n + 1) then some r else t.branches[b]? :=
    OrderedMap.lookup_insert ..
  refine ⟨fun b hb ↦ ?_, fun b r hr ↦ ?_, fun i hi ↦ ?_, ?_, ?_, h.event⟩
  · rcases Std.ExtTreeMap.mem_insert.mp hb with hb | hb
    · exact ⟨n + 1, le_rfl, (Std.compare_eq_iff_eq.mp hb).symm⟩
    · obtain ⟨i, hi, rfl⟩ := h.branches_le b hb
      exact ⟨i, hi.trans n.le_succ, rfl⟩
  · rw [hlookup] at hr
    split_ifs at hr with hb
    · rw [← Option.some.inj hr]
    · exact h.active b r hr
  · rcases Nat.lt_succ_iff_lt_or_eq.mp hi with hi | rfl
    · obtain ⟨r, hr, hp⟩ := h.parents i hi
      refine ⟨r, ?_, hp⟩
      rw [hlookup, if_neg, hr]
      intro heq
      exact hnew (heq ▸ OrderedMap.mem_of_getElem? hr)
    · exact ⟨_, (hlookup _ _).trans (if_pos rfl), rfl⟩
  · exact Std.ExtTreeMap.mem_insert_self
  · rw [Timeline.index, OrderedMap.lookup_insert, if_pos rfl, Option.getD_some,
      OrderedMap.getElem?_keep, h.entry]
    rfl

theorem forkChain_spec {n : ℕ} (hn : n < 2 ^ 128) :
    ForkedFrom n (forkChain n).timeline ∧ (@timelineSystem noUuids).Reachable (forkChain n) := by
  induction n with
  | zero => exact ⟨forkedFrom_zero, .run .init (by decide)⟩
  | succ n ih =>
    obtain ⟨hforked, hreach⟩ := ih (by omega)
    refine ⟨hforked.succ hn, ?_⟩
    exact @GuardedSystem.ReachableUnder.step _ _ (@timelineSystem noUuids) _ (forkChain n)
      (.createBranch "fork" (exampleBranch n) (some 0) .system (exampleBranch (n + 1))) hreach
      (hforked.not_mem hn) trivial

theorem ForkedFrom.edges_succ {n i : ℕ} (h : ForkedFrom n t) (order : t.BranchOrder) (hi : i < n) :
    t.edges order (exampleBranch (i + 1)) = [exampleBranch i] := by
  obtain ⟨r, hr, hp⟩ := h.parents i hi
  have hmerged : t.mergedIn order = ∅ := by
    rw [Timeline.mergedIn, Timeline.mergeEdges, List.filterMap_eq_nil_iff.mpr, OrderedMap.push,
      List.foldl_nil]
    intro e he
    rw [h.active e.1 e.2 (Timeline.BranchOrder.mem_entries.mp he)]
  rw [Timeline.edges, hmerged, Std.ExtTreeMap.getElem?_empty, hr, Option.bind_some, hp]
  rfl

/-- **A walk down the chain takes up one branch a pop.** -/
theorem ForkedFrom.mem_taken {n m i : ℕ} {b : BranchId} {visited : List BranchId}
    (h : ForkedFrom n t) (order : t.BranchOrder) (hi : i ≤ n) (hm : m ≤ i)
    (hb : b ∈ Search.taken (t.edges order) m visited [exampleBranch i]) :
    ∃ j, i < j + m ∧ j ≤ i ∧ b = exampleBranch j := by
  induction m generalizing i visited with
  | zero => exact absurd hb List.not_mem_nil
  | succ m ih =>
    obtain ⟨i, rfl⟩ := Nat.exists_eq_add_of_le' ((Nat.le_add_left 1 m).trans hm)
    rcases List.mem_cons.mp hb with rfl | hb
    · exact ⟨i + 1, by omega, le_rfl, rfl⟩
    · split_ifs at hb
      · cases m <;> exact absurd hb List.not_mem_nil
      · -- the parent is all that is pushed, so the stack never holds two branches
        rw [h.edges_succ order hi, List.append_nil] at hb
        obtain ⟨j, hlt, hle, rfl⟩ := ih (Nat.le_of_succ_le hi) (Nat.le_of_succ_le_succ hm) hb
        exact ⟨j, by omega, hle.trans i.le_succ, rfl⟩

end RosheraCad
