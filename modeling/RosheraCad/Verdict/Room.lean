import RosheraCad.Library.Run
import RosheraCad.Types

/-!
# The verdict room

A tick asks a resolver about every pending proposal, in ascending order of their identifiers. One
that is resolved puts its mutation on the canonical stream, one that is rejected is dropped, and one
that stays pending is recorded once. Recording `due` touches that entry and the ends of the history
and the stream.
-/

namespace RosheraCad

abbrev AgentId := Author

structure ProposalId where
  uuid : Uuid
  deriving DecidableEq

namespace ProposalId

instance : Ord ProposalId := ⟨compareOn ProposalId.uuid⟩

instance : Std.TransOrd ProposalId := inferInstanceAs (Std.TransCmp (compareOn ProposalId.uuid))

instance : Std.LawfulEqOrd ProposalId where
  eq_of_compare {a b} h := by
    cases a
    cases b
    exact congrArg _ (Std.LawfulEqOrd.eq_of_compare h)

end ProposalId

inductive ProposalTarget
  | entity (id : Uuid)
  | branch (id : BranchId)
  | global
  deriving DecidableEq

/-- A mutation submitted by an agent for adjudication. -/
structure Proposal where
  id : ProposalId
  agent : AgentId
  mutation : Json
  target : ProposalTarget
  deriving DecidableEq

/-- One agent's verdict on a single proposal. -/
inductive VoteDecision
  | approve
  | reject
  | abstain
  deriving DecidableEq

/-- A vote cast by a single agent on a single proposal. -/
structure Vote where
  agent : AgentId
  decision : VoteDecision
  deriving DecidableEq

inductive OutcomeKind
  | resolved
  | rejected
  | pending
  deriving DecidableEq

/-- What a resolver answers. -/
inductive VerdictOutcome
  | resolved (mutation : Json)
  | rejected (reason : String)
  | pending
  deriving DecidableEq

def VerdictOutcome.kind : VerdictOutcome → OutcomeKind
  | .resolved _ => .resolved
  | .rejected _ => .rejected
  | .pending => .pending

/-- A resolution policy: a function of a proposal and the votes on it. -/
abbrev VerdictResolver := Proposal → List Vote → VerdictOutcome

inductive VerdictError
  | invalidQuorum (required total : ℕ)
  | emptyQuorum
  | emptyParticipants
  | unknownProposal (id : ProposalId)
  | pendingNotConvertible
  deriving DecidableEq

def agentsMatch : AgentId → AgentId → Bool
  | .user a _, .user b _ => a = b
  | .aiAgent a _, .aiAgent b _ => a = b
  | .system, .system => true
  | _, _ => false

structure VerdictRecord where
  proposalId : ProposalId
  outcome : VerdictOutcome
  committedOpIndex : Option ℕ
  deriving DecidableEq

def verdictCommit (mutation : Json) : Operation := .generic "verdict.commit" mutation

namespace VerdictRecord

def Terminal (record : VerdictRecord) : Prop := record.outcome.kind ≠ .pending

instance (record : VerdictRecord) : Decidable record.Terminal :=
  inferInstanceAs (Decidable (_ ≠ _))

def committed (record : VerdictRecord) : Option Operation :=
  match record.outcome with
  | .resolved mutation => some (verdictCommit mutation)
  | _ => none

end VerdictRecord

structure RoomSimulator where
  canonical : List Operation
  pending : OrderedMap ProposalId (Proposal × List Vote)
  lastOutcome : OrderedMap ProposalId OutcomeKind
  history : List VerdictRecord

namespace RoomSimulator

def new : RoomSimulator := ⟨[], ∅, ∅, []⟩

variable (room : RoomSimulator)

def propose (agent : AgentId) (mutation : Json) (target : ProposalTarget) (id : ProposalId) :
    RoomSimulator :=
  { room with pending := room.pending.insert id (⟨id, agent, mutation, target⟩, []) }

def castVote (vote : Vote) : List Vote → List Vote
  | [] => [vote]
  | v :: votes => if agentsMatch v.agent vote.agent then vote :: votes else v :: castVote vote votes

def vote (id : ProposalId) (vote : Vote) : Except VerdictError Unit × RoomSimulator :=
  match room.pending[id]? with
  | some (proposal, votes) =>
    (.ok (), { room with pending := room.pending.insert id (proposal, castVote vote votes) })
  | none => (.error (.unknownProposal id), room)

def lastIndex {α : Type} (l : List α) : Option ℕ :=
  if l.length = 0 then none else some (l.length - 1)

def tickProposal (resolve : VerdictResolver) (acc : RoomSimulator × List VerdictRecord)
    (id : ProposalId) : RoomSimulator × List VerdictRecord :=
  let (room, produced) := acc
  match room.pending[id]? with
  | none => acc
  | some (proposal, votes) =>
    let outcome := resolve proposal votes
    let isTransition := room.lastOutcome[id]? ≠ some outcome.kind
    match outcome with
    | .resolved mutation =>
      let canonical := room.canonical ++ [verdictCommit mutation]
      let record : VerdictRecord := ⟨id, .resolved mutation, lastIndex canonical⟩
      ({ canonical
         pending := room.pending.erase id
         lastOutcome := room.lastOutcome.erase id
         history := room.history ++ [record] }, produced ++ [record])
    | .rejected reason =>
      let record : VerdictRecord := ⟨id, .rejected reason, none⟩
      ({ room with
         pending := room.pending.erase id
         lastOutcome := room.lastOutcome.erase id
         history := room.history ++ [record] }, produced ++ [record])
    | .pending =>
      if isTransition then
        let record : VerdictRecord := ⟨id, .pending, none⟩
        ({ room with
           lastOutcome := room.lastOutcome.insert id .pending
           history := room.history ++ [record] }, produced ++ [record])
      else acc

/-- Put every pending proposal before the resolver, in ascending order of the identifiers. -/
def tick (resolve : VerdictResolver) : RoomSimulator × List VerdictRecord :=
  room.pending.keys.foldl (tickProposal resolve) (room, [])

/-! ## One recorded outcome -/

def due (resolve : VerdictResolver) (id : ProposalId) : Option VerdictOutcome :=
  match room.pending[id]? with
  | none => none
  | some (proposal, votes) =>
    match resolve proposal votes with
    | .pending => if room.lastOutcome[id]? = some .pending then none else some .pending
    | outcome => some outcome

def recordOf (id : ProposalId) (outcome : VerdictOutcome) : VerdictRecord :=
  ⟨id, outcome, match outcome with
    | .resolved _ => some room.canonical.length
    | _ => none⟩

def recorded (id : ProposalId) (outcome : VerdictOutcome) : RoomSimulator where
  canonical := room.canonical ++ (room.recordOf id outcome).committed.toList
  pending := if outcome.kind = .pending then room.pending else room.pending.erase id
  lastOutcome :=
    if outcome.kind = .pending then room.lastOutcome.insert id .pending
    else room.lastOutcome.erase id
  history := room.history ++ [room.recordOf id outcome]

variable {room} {outcome : VerdictOutcome} {id : ProposalId}

theorem lastIndex_append_singleton {α : Type} (l : List α) (a : α) :
    lastIndex (l ++ [a]) = some l.length := by
  simp [lastIndex]

theorem tickProposal_eq (resolve : VerdictResolver) (produced : List VerdictRecord)
    (id : ProposalId) :
    tickProposal resolve (room, produced) id = match room.due resolve id with
      | none => (room, produced)
      | some outcome => (room.recorded id outcome, produced ++ [room.recordOf id outcome]) := by
  unfold tickProposal due
  dsimp only
  rcases hp : room.pending[id]? with - | ⟨proposal, votes⟩
  · simp only
  · dsimp only
    cases resolve proposal votes with
    | resolved mutation =>
      simp [recorded, recordOf, VerdictOutcome.kind, VerdictRecord.committed,
        lastIndex_append_singleton]
    | rejected reason =>
      simp [recorded, recordOf, VerdictOutcome.kind, VerdictRecord.committed]
    | pending =>
      by_cases hlast : room.lastOutcome[id]? = some .pending
      · simp [hlast, VerdictOutcome.kind]
      · simp [hlast, recorded, recordOf, VerdictOutcome.kind, VerdictRecord.committed]

theorem mem_pending_of_due {resolve : VerdictResolver}
    (h : room.due resolve id = some outcome) : id ∈ room.pending := by
  by_contra hid
  rw [due, OrderedMap.not_mem_iff.mp hid] at h
  cases h

theorem kind_ne_pending_of_due {resolve : VerdictResolver} (h : room.due resolve id = some outcome)
    (hlast : room.lastOutcome[id]? = some .pending) : outcome.kind ≠ .pending := by
  obtain ⟨⟨proposal, votes⟩, hentry⟩ := OrderedMap.mem_iff_exists.mp (mem_pending_of_due h)
  rw [due, hentry] at h
  dsimp only at h
  cases hr : resolve proposal votes with
  | pending =>
    rw [hr, if_pos hlast] at h
    cases h
  | resolved mutation =>
    rw [hr] at h
    cases h
    exact nofun
  | rejected reason =>
    rw [hr] at h
    cases h
    exact nofun

variable {room : RoomSimulator} {resolve : VerdictResolver}

/-- The outcomes due when a tick begins, in the order the tick records them. -/
def dues (room : RoomSimulator) (resolve : VerdictResolver) :
    List (ProposalId × VerdictOutcome) :=
  room.pending.keys.filterMap fun id ↦ (room.due resolve id).map (id, ·)

def recordAll (room : RoomSimulator) (ds : List (ProposalId × VerdictOutcome)) : RoomSimulator :=
  ds.foldl (fun room d ↦ room.recorded d.1 d.2) room

/-! ## Recording one outcome leaves the others due -/

theorem getElem?_pending_recorded (id c : ProposalId) (outcome : VerdictOutcome) :
    (room.recorded id outcome).pending[c]? =
      if c = id ∧ outcome.kind ≠ .pending then none else room.pending[c]? := by
  rw [recorded]
  by_cases hk : outcome.kind = .pending
  · simp [hk]
  · simp [hk]

theorem getElem?_lastOutcome_recorded (id c : ProposalId) (outcome : VerdictOutcome) :
    (room.recorded id outcome).lastOutcome[c]? =
      if c = id then if outcome.kind = .pending then some .pending else none
      else room.lastOutcome[c]? := by
  rw [recorded]
  by_cases hk : outcome.kind = .pending
  · simp [hk]
  · simp [hk]

theorem due_recorded_of_ne {id c : ProposalId} (hc : c ≠ id) (outcome : VerdictOutcome) :
    (room.recorded id outcome).due resolve c = room.due resolve c := by
  rw [due, due, getElem?_pending_recorded, getElem?_lastOutcome_recorded, if_neg hc,
    if_neg fun h ↦ hc h.1]

private theorem foldl_tickProposal_eq {ids : List ProposalId} (hnodup : ids.Nodup)
    (room : RoomSimulator) (produced : List VerdictRecord) :
    (ids.foldl (tickProposal resolve) (room, produced)).1 =
      room.recordAll (ids.filterMap fun id ↦ (room.due resolve id).map (id, ·)) := by
  induction ids generalizing room produced with
  | nil => rfl
  | cons id ids ih =>
    obtain ⟨hid, hnodup⟩ := List.nodup_cons.mp hnodup
    rw [List.foldl_cons, tickProposal_eq, List.filterMap_cons]
    rcases room.due resolve id with - | outcome
    · exact ih hnodup room produced
    · have hcongr : (ids.filterMap fun c ↦ ((room.recorded id outcome).due resolve c).map (c, ·)) =
          ids.filterMap fun c ↦ (room.due resolve c).map (c, ·) := by
        refine List.filterMap_congr fun c hc ↦ ?_
        have hne : c ≠ id := by
          rintro rfl
          exact hid hc
        rw [due_recorded_of_ne hne]
      dsimp only [Option.map_some]
      rw [ih hnodup, hcongr]
      rfl

theorem tick_eq (room : RoomSimulator) (resolve : VerdictResolver) :
    (room.tick resolve).1 = room.recordAll (room.dues resolve) :=
  foldl_tickProposal_eq Std.ExtTreeMap.nodup_keys room []

/-! ## What is due -/

theorem mem_dues :
    (id, outcome) ∈ room.dues resolve ↔ room.due resolve id = some outcome := by
  rw [dues, List.mem_filterMap]
  constructor
  · rintro ⟨c, -, hc⟩
    obtain ⟨o, ho, heq⟩ := Option.map_eq_some_iff.mp hc
    cases heq
    exact ho
  · intro h
    exact ⟨id, Std.ExtTreeMap.mem_keys.mpr (mem_pending_of_due h), by rw [h, Option.map_some]⟩

theorem map_fst_dues : (room.dues resolve).map Prod.fst =
    room.pending.keys.filter fun id ↦ (room.due resolve id).isSome := by
  rw [dues]
  induction room.pending.keys with
  | nil => rfl
  | cons id ids ih =>
    rw [List.filterMap_cons, List.filter_cons]
    rcases room.due resolve id with - | outcome
    · exact ih
    · simp [ih]

theorem mem_map_fst_dues :
    id ∈ (room.dues resolve).map Prod.fst ↔ (room.due resolve id).isSome := by
  rw [map_fst_dues, List.mem_filter, Std.ExtTreeMap.mem_keys, and_iff_right_iff_imp]
  intro h
  obtain ⟨outcome, ho⟩ := Option.isSome_iff_exists.mp h
  exact mem_pending_of_due ho

/-- The proposals a tick records come in ascending order. -/
theorem sorted_dues :
    ((room.dues resolve).map Prod.fst).Pairwise fun a b ↦ compare a b = .lt := by
  rw [map_fst_dues]
  exact List.Pairwise.filter _ Std.ExtTreeMap.ordered_keys

theorem nodup_dues : ((room.dues resolve).map Prod.fst).Nodup := by
  rw [map_fst_dues]
  exact Std.ExtTreeMap.nodup_keys.filter _

/-! ## What a tick leaves -/

private theorem recordAll_of_not_mem {ds : List (ProposalId × VerdictOutcome)} {c : ProposalId}
    (hc : c ∉ ds.map Prod.fst) (room : RoomSimulator) :
    (room.recordAll ds).pending[c]? = room.pending[c]? ∧
      (room.recordAll ds).lastOutcome[c]? = room.lastOutcome[c]? := by
  induction ds generalizing room with
  | nil => exact ⟨rfl, rfl⟩
  | cons d ds ih =>
    rw [List.map_cons, List.mem_cons, not_or] at hc
    obtain ⟨hp, hl⟩ := ih hc.2 (room.recorded d.1 d.2)
    refine ⟨hp.trans ?_, hl.trans ?_⟩
    · rw [getElem?_pending_recorded, if_neg fun h ↦ hc.1 h.1]
    · rw [getElem?_lastOutcome_recorded, if_neg hc.1]

private theorem recordAll_of_mem {ds : List (ProposalId × VerdictOutcome)} {c : ProposalId}
    (hnodup : (ds.map Prod.fst).Nodup) (hc : (c, outcome) ∈ ds)
    (room : RoomSimulator) :
    (room.recordAll ds).pending[c]? =
        (if outcome.kind ≠ .pending then none else room.pending[c]?) ∧
      (room.recordAll ds).lastOutcome[c]? =
        if outcome.kind = .pending then some .pending else none := by
  induction ds generalizing room with
  | nil => simp at hc
  | cons d ds ih =>
    obtain ⟨hd, hnodup⟩ := List.nodup_cons.mp hnodup
    rcases List.mem_cons.mp hc with rfl | hc
    · obtain ⟨hp, hl⟩ := recordAll_of_not_mem hd (room.recorded c outcome)
      refine ⟨hp.trans ?_, hl.trans ?_⟩
      · rw [getElem?_pending_recorded]
        simp
      · rw [getElem?_lastOutcome_recorded, if_pos rfl]
    · have hne : c ≠ d.1 := by
        intro heq
        exact hd (List.mem_map.mpr ⟨(c, outcome), hc, heq⟩)
      obtain ⟨hp, hl⟩ := ih hnodup hc (room.recorded d.1 d.2)
      have hkept : (room.recorded d.1 d.2).pending[c]? = room.pending[c]? := by
        rw [getElem?_pending_recorded, if_neg fun h ↦ hne h.1]
      rw [hkept] at hp
      exact ⟨hp, hl⟩

theorem getElem?_pending_tick (c : ProposalId) : (room.tick resolve).1.pending[c]? =
    match room.due resolve c with
    | none => room.pending[c]?
    | some outcome => if outcome.kind ≠ .pending then none else room.pending[c]? := by
  rw [tick_eq]
  rcases hdue : room.due resolve c with - | outcome
  · refine (recordAll_of_not_mem (fun hc ↦ ?_) room).1
    rw [mem_map_fst_dues, hdue] at hc
    cases hc
  · exact (recordAll_of_mem nodup_dues (mem_dues.mpr hdue) room).1

theorem getElem?_lastOutcome_tick (c : ProposalId) : (room.tick resolve).1.lastOutcome[c]? =
    match room.due resolve c with
    | none => room.lastOutcome[c]?
    | some outcome => if outcome.kind = .pending then some .pending else none := by
  rw [tick_eq]
  rcases hdue : room.due resolve c with - | outcome
  · refine (recordAll_of_not_mem (fun hc ↦ ?_) room).2
    rw [mem_map_fst_dues, hdue] at hc
    cases hc
  · exact (recordAll_of_mem nodup_dues (mem_dues.mpr hdue) room).2

theorem map_history_recordAll (ds : List (ProposalId × VerdictOutcome)) (room : RoomSimulator) :
    (room.recordAll ds).history.map (fun r ↦ (r.proposalId, r.outcome)) =
      room.history.map (fun r ↦ (r.proposalId, r.outcome)) ++ ds := by
  induction ds generalizing room with
  | nil => simp [recordAll]
  | cons d ds ih =>
    have hcons : room.recordAll (d :: ds) = (room.recorded d.1 d.2).recordAll ds := rfl
    rw [hcons, ih, recorded, List.map_append, List.append_assoc]
    rfl

private theorem history_foldl_tickProposal (ids : List ProposalId)
    {acc : RoomSimulator × List VerdictRecord} {history : List VerdictRecord}
    (h : acc.1.history = history ++ acc.2) :
    (ids.foldl (tickProposal resolve) acc).1.history =
      history ++ (ids.foldl (tickProposal resolve) acc).2 := by
  induction ids generalizing acc with
  | nil => exact h
  | cons id ids ih =>
    refine ih ?_
    obtain ⟨room, produced⟩ := acc
    rw [tickProposal_eq]
    rcases room.due resolve id with - | outcome
    · exact h
    · change room.history ++ [_] = history ++ (produced ++ [_])
      rw [h, List.append_assoc]

theorem history_tick (room : RoomSimulator) (resolve : VerdictResolver) :
    (room.tick resolve).1.history = room.history ++ (room.tick resolve).2 :=
  history_foldl_tickProposal _ (List.append_nil _).symm

theorem map_tick (room : RoomSimulator) (resolve : VerdictResolver) :
    (room.tick resolve).2.map (fun r ↦ (r.proposalId, r.outcome)) = room.dues resolve := by
  have h := map_history_recordAll (room.dues resolve) room
  rw [← tick_eq, history_tick, List.map_append] at h
  exact List.append_cancel_left h

end RoomSimulator

end RosheraCad
