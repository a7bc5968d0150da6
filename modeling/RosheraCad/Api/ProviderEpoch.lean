import RosheraCad.Library.OrderedMap
import RosheraCad.Library.Run
import RosheraCad.Library.Since

/-!
# Provider epochs of agent connections

A session keeps the provider it was created under, so a repin must make every older connection
unusable. Each connection is stamped with an epoch when its response passes back, and a repin moves
the epoch on.
-/

namespace RosheraCad

namespace ProviderEpoch

/-! ## The epoch -/

structure AcpProviderEpoch where
  current : ℕ
  connections : OrderedMap String ℕ

namespace AcpProviderEpoch

variable (epoch : AcpProviderEpoch)

def invalidateConnections : AcpProviderEpoch := { epoch with current := epoch.current + 1 }

def register (connectionId : String) : AcpProviderEpoch :=
  { epoch with connections := epoch.connections.insert connectionId epoch.current }

def isStale (connectionId : String) : Bool :=
  match epoch.connections[connectionId]? with
  | some stamp => stamp < epoch.current
  | none => false

end AcpProviderEpoch

/-! ## The middleware -/

def forwards (epoch : AcpProviderEpoch) (requestId : Option String) : Bool :=
  match requestId with
  | some id => !epoch.isStale id
  | none => true

def onResponse (epoch : AcpProviderEpoch) (requestId responseId : Option String) :
    AcpProviderEpoch :=
  match requestId, responseId with
  | none, some id => epoch.register id
  | _, _ => epoch

inductive AcpPhase
  | waiting
  | forwarded
  | responded (responseId : Option String)
  | answered
  | refused
  deriving DecidableEq

inductive AcpEvent
  | minted (connectionId : String)
  | invalidated
  | forwarded (i : ℕ)
  | refused (i : ℕ)
  deriving DecidableEq

/-- The epoch with the requests. -/
structure AcpState where
  epoch : AcpProviderEpoch
  phase : ℕ → AcpPhase
  history : List AcpEvent

inductive AcpStep
  | arrive (i : ℕ)
  | respond (i : ℕ) (responseId : Option String)
  | pass (i : ℕ)
  | repin

namespace AcpState

variable (carried : ℕ → Option String)

/-- A process no request has come to. -/
def new : AcpState := ⟨⟨0, ∅⟩, fun _ ↦ .waiting, []⟩

def next : AcpState → AcpStep → AcpState
  | s, .arrive i =>
    if forwards s.epoch (carried i) then
      { s with
        phase := Function.update s.phase i .forwarded
        history := s.history ++ [.forwarded i] }
    else
      { s with
        phase := Function.update s.phase i .refused
        history := s.history ++ [.refused i] }
  | s, .respond i responseId =>
    { s with
      phase := Function.update s.phase i (.responded responseId)
      history := match carried i, responseId with
        | none, some id => s.history ++ [.minted id]
        | _, _ => s.history }
  | s, .pass i =>
    match s.phase i with
    | .responded responseId =>
      { s with
        epoch := onResponse s.epoch (carried i) responseId
        phase := Function.update s.phase i .answered }
    | _ => s
  | s, .repin =>
    { s with epoch := s.epoch.invalidateConnections, history := s.history ++ [.invalidated] }

/-- When a step may be taken. The transport mints no connection twice. -/
def Enabled (s : AcpState) : AcpStep → Prop
  | .arrive i => s.phase i = .waiting
  | .respond i responseId => s.phase i = .forwarded ∧
      (carried i = none → ∀ id ∈ responseId, .minted id ∉ s.history)
  | .pass i => ∃ responseId, s.phase i = .responded responseId
  | .repin => True

end AcpState

/-- The requests and repins of one process. -/
def brokering (carried : ℕ → Option String) : GuardedSystem AcpState AcpStep where
  init := .new
  enabled := AcpState.Enabled carried
  step := AcpState.next carried

/-! ## The cut-off -/

def MintedBefore (connectionId : String) (history : List AcpEvent) : Prop :=
  ∃ before after, history = before ++ .minted connectionId :: after ∧ .invalidated ∈ after

def MintedSince (connectionId : String) (history : List AcpEvent) : Prop :=
  Since (fun _ e ↦ e = .minted connectionId) (fun e ↦ e = .invalidated) history

section Properties

variable (carried : ℕ → Option String)

/-- No request on a connection minted before a repin is forwarded when it arrives after. -/
def CutOff (s : AcpState) : Prop :=
  ∀ before i after, s.history = before ++ .forwarded i :: after →
    ∀ id, carried i = some id → ¬ MintedBefore id before

/-- No request on a connection minted after the last repin is refused. -/
def NeverLockedOut (s : AcpState) : Prop :=
  ∀ before i after, s.history = before ++ .refused i :: after →
    ∀ id, carried i = some id → ¬ MintedSince id before

def Unstamped (s : AcpState) (i : ℕ) (connectionId : String) : Prop :=
  carried i = none ∧ s.phase i = .responded (some connectionId)

/-- No repin comes between the minting of a connection and its stamp. -/
def NoneUnstamped (s : AcpState) : AcpStep → Prop
  | .repin => ∀ i id, ¬ Unstamped carried s i id
  | _ => True

end Properties

section Histories

variable {history : List AcpEvent} {e : AcpEvent} {id : String}

theorem mintedBefore_concat : MintedBefore id (history ++ [e]) ↔
    MintedBefore id history ∨ (e = .invalidated ∧ .minted id ∈ history) := by
  constructor
  · rintro ⟨before, after, heq, hmem⟩
    rcases Since.concat_split heq with ⟨-, -, rfl⟩ | ⟨rest, rfl, rfl⟩
    · exact absurd hmem List.not_mem_nil
    · rcases List.mem_append.mp hmem with hmem | hmem
      · exact Or.inl ⟨before, rest, rfl, hmem⟩
      · exact Or.inr ⟨(List.mem_singleton.mp hmem).symm, by simp⟩
  · rintro (⟨before, after, rfl, hmem⟩ | ⟨rfl, hmem⟩)
    · exact ⟨before, after ++ [e], by simp, List.mem_append_left _ hmem⟩
    · obtain ⟨before, after, rfl⟩ := List.append_of_mem hmem
      exact ⟨before, after ++ [.invalidated], by simp, by simp⟩

theorem MintedBefore.mem (h : MintedBefore id history) : .minted id ∈ history := by
  obtain ⟨before, after, rfl, -⟩ := h
  simp

theorem mintedSince_concat : MintedSince id (history ++ [e]) ↔
    e = .minted id ∨ (MintedSince id history ∧ e ≠ .invalidated) :=
  Since.concat_iff

end Histories

/-! ## The stamps -/

section Stamps

variable (carried : ℕ → Option String)

structure Stamped (s : AcpState) : Prop where
  minted : ∀ id : String, ∀ stamp, s.epoch.connections[id]? = some stamp → .minted id ∈ s.history
  bounded : ∀ id : String, ∀ stamp, s.epoch.connections[id]? = some stamp → stamp ≤ s.epoch.current
  current : ∀ id : String, ∀ stamp, s.epoch.connections[id]? = some stamp →
    MintedSince id s.history → stamp = s.epoch.current
  waiting : ∀ i id, Unstamped carried s i id → .minted id ∈ s.history
  served : NeverLockedOut carried s

structure CutOffStamped (s : AcpState) : Prop where
  stale : ∀ id, MintedBefore id s.history →
    ∃ stamp, s.epoch.connections[id]? = some stamp ∧ stamp < s.epoch.current
  stamped : ∀ id, .minted id ∈ s.history →
    (∃ stamp, s.epoch.connections[id]? = some stamp) ∨ ∃ i, Unstamped carried s i id
  /-- No repin came while a connection waits for its stamp. -/
  fresh : ∀ i id, Unstamped carried s i id → ¬ MintedBefore id s.history
  cutOff : CutOff carried s

variable {carried} {s : AcpState} {i : ℕ} {id : String} {responseId : Option String}
  {epoch : AcpProviderEpoch} {history : List AcpEvent}

theorem isStale_iff : s.epoch.isStale id = true ↔
    ∃ stamp, s.epoch.connections[id]? = some stamp ∧ stamp < s.epoch.current := by
  rw [AcpProviderEpoch.isStale]
  rcases s.epoch.connections[id]? with _ | stamp <;> simp

theorem forwards_iff : forwards s.epoch (carried i) = true ↔
    ∀ id, carried i = some id → s.epoch.isStale id = false := by
  unfold forwards
  rcases carried i with _ | id <;> simp

/-- A request without a response waits for no stamp, so the others wait as before. -/
theorem unstamped_update_of_ne {phase : AcpPhase} {j : ℕ} (h : Unstamped carried s j id)
    (hphase : ∀ responseId, s.phase i ≠ .responded responseId) :
    Unstamped carried ⟨epoch, Function.update s.phase i phase, history⟩ j id := by
  have hji : j ≠ i := by
    rintro rfl
    exact hphase _ h.2
  exact ⟨h.1, (Function.update_of_ne hji ..).trans h.2⟩

theorem unstamped_update {phase : AcpPhase}
    {j : ℕ} (h : Unstamped carried ⟨epoch, Function.update s.phase i phase, history⟩ j id)
    (hphase : phase ≠ .responded (some id)) : Unstamped carried s j id := by
  obtain ⟨hcarried, hresponded⟩ := h
  by_cases hji : j = i
  · subst hji
    exact absurd ((Function.update_self ..).symm.trans hresponded) hphase
  · exact ⟨hcarried, (Function.update_of_ne hji ..).symm.trans hresponded⟩

theorem Stamped.new : Stamped carried AcpState.new where
  minted id stamp h := by simp [AcpState.new] at h
  bounded id stamp h := by simp [AcpState.new] at h
  current id stamp h := by simp [AcpState.new] at h
  waiting i id h := by simp [Unstamped, AcpState.new] at h
  served before i after heq := absurd (List.nil_eq_append_iff.mp heq).2 nofun

theorem CutOffStamped.new : CutOffStamped carried AcpState.new where
  stale id h := absurd h.mem List.not_mem_nil
  stamped id h := absurd h List.not_mem_nil
  fresh i id h := by simp [Unstamped, AcpState.new] at h
  cutOff before i after heq := absurd (List.nil_eq_append_iff.mp heq).2 nofun

theorem Stamped.arrive (h : Stamped carried s) : Stamped carried (s.next carried (.arrive i)) := by
  have hmem {e : AcpEvent} {id : String} (h : .minted id ∈ s.history) :
      AcpEvent.minted id ∈ s.history ++ [e] := List.mem_append_left _ h
  simp only [AcpState.next]
  split
  · refine ⟨fun id stamp hs ↦ hmem (h.minted id stamp hs), h.bounded, fun id stamp hs hsince ↦ ?_,
      fun j id hj ↦ hmem (h.waiting j id (unstamped_update hj nofun)), fun before j after heq ↦ ?_⟩
    · rcases mintedSince_concat.mp hsince with heq | ⟨hsince, -⟩
      · contradiction
      · exact h.current id stamp hs hsince
    · rcases Since.concat_split heq with ⟨-, heq, -⟩ | ⟨rest, -, hold⟩
      · contradiction
      · exact h.served before j rest hold
  · next hrefused =>
    refine ⟨fun id stamp hs ↦ hmem (h.minted id stamp hs), h.bounded, fun id stamp hs hsince ↦ ?_,
      fun j id hj ↦ hmem (h.waiting j id (unstamped_update hj nofun)),
      fun before j after heq id hid hsince ↦ ?_⟩
    · rcases mintedSince_concat.mp hsince with heq | ⟨hsince, -⟩
      · contradiction
      · exact h.current id stamp hs hsince
    · rcases Since.concat_split heq with ⟨rfl, hlast, -⟩ | ⟨rest, -, hold⟩
      · obtain rfl := AcpEvent.refused.inj hlast
        refine hrefused (forwards_iff.mpr fun id' hid' ↦ ?_)
        obtain rfl := Option.some_inj.mp (hid.symm.trans hid')
        rw [Bool.eq_false_iff]
        intro hstale
        -- The stamp of a connection minted since the last repin is the current one.
        obtain ⟨stamp, hstamp, hlt⟩ := isStale_iff.mp hstale
        exact absurd (h.current id stamp hstamp hsince) hlt.ne
      · exact h.served before j rest hold id hid hsince

theorem CutOffStamped.arrive (h : CutOffStamped carried s) (hwaiting : s.phase i = .waiting) :
    CutOffStamped carried (s.next carried (.arrive i)) := by
  have hbefore {e : AcpEvent} {id : String} (h : MintedBefore id (s.history ++ [e]))
      (he : e ≠ .invalidated) : MintedBefore id s.history := by
    rcases mintedBefore_concat.mp h with h | ⟨heq, -⟩
    · exact h
    · exact absurd heq he
  have hphase : ∀ responseId, s.phase i ≠ .responded responseId := by simp [hwaiting]
  simp only [AcpState.next]
  split
  · next hforwards =>
    refine ⟨fun id hid ↦ h.stale id (hbefore hid nofun), fun id hid ↦ ?_,
      fun j id hj hid ↦ h.fresh j id (unstamped_update hj nofun) (hbefore hid nofun),
      fun before j after heq id hid hminted ↦ ?_⟩
    · rcases List.mem_append.mp hid with hid | hid
      · exact (h.stamped id hid).imp_right fun ⟨j, hj⟩ ↦ ⟨j, unstamped_update_of_ne hj hphase⟩
      · simp at hid
    · rcases Since.concat_split heq with ⟨rfl, hlast, -⟩ | ⟨rest, -, hold⟩
      · obtain rfl := AcpEvent.forwarded.inj hlast
        -- What was minted before the repin is stale, and a stale connection is not forwarded.
        have hstale := isStale_iff.mpr (h.stale id hminted)
        rw [forwards_iff.mp hforwards id hid] at hstale
        contradiction
      · exact h.cutOff before j rest hold id hid hminted
  · refine ⟨fun id hid ↦ h.stale id (hbefore hid nofun), fun id hid ↦ ?_,
      fun j id hj hid ↦ h.fresh j id (unstamped_update hj nofun) (hbefore hid nofun),
      fun before j after heq ↦ ?_⟩
    · rcases List.mem_append.mp hid with hid | hid
      · exact (h.stamped id hid).imp_right fun ⟨j, hj⟩ ↦ ⟨j, unstamped_update_of_ne hj hphase⟩
      · simp at hid
    · rcases Since.concat_split heq with ⟨-, hlast, -⟩ | ⟨rest, -, hold⟩
      · contradiction
      · exact h.cutOff before j rest hold

/-- A request that is answered without a new connection waits for no stamp. -/
theorem not_unstamped_of_old {j : ℕ} (hold : ∀ id, carried i = none → responseId ≠ some id)
    (h : Unstamped carried ⟨epoch, Function.update s.phase i (.responded responseId), history⟩ j
      id) :
    Unstamped carried s j id := by
  obtain ⟨hcarried, hresponded⟩ := h
  by_cases hji : j = i
  · subst hji
    have hsome := AcpPhase.responded.inj ((Function.update_self ..).symm.trans hresponded)
    exact absurd hsome (hold id hcarried)
  · exact ⟨hcarried, (Function.update_of_ne hji ..).symm.trans hresponded⟩

theorem respond_cases (carried : ℕ → Option String) (s : AcpState) (i : ℕ)
    (responseId : Option String) :
    (∃ id, carried i = none ∧ responseId = some id ∧ s.next carried (.respond i responseId) =
        { s with
          phase := Function.update s.phase i (.responded (some id))
          history := s.history ++ [.minted id] }) ∨
      ((∀ id, carried i = none → responseId ≠ some id) ∧ s.next carried (.respond i responseId) =
        { s with phase := Function.update s.phase i (.responded responseId) }) := by
  rcases hcarried : carried i with _ | id <;> rcases responseId with _ | id'
  · exact Or.inr ⟨fun _ _ ↦ nofun, by simp [AcpState.next, hcarried]⟩
  · exact Or.inl ⟨id', rfl, rfl, by simp [AcpState.next, hcarried]⟩
  · exact Or.inr ⟨fun _ ↦ nofun, by simp [AcpState.next, hcarried]⟩
  · exact Or.inr ⟨fun _ ↦ nofun, by simp [AcpState.next, hcarried]⟩

/-- **The transport answers.** -/
theorem Stamped.respond (h : Stamped carried s)
    (henabled : s.Enabled carried (.respond i responseId)) :
    Stamped carried (s.next carried (.respond i responseId)) := by
  rcases respond_cases carried s i responseId with
    ⟨id, hcarried, rfl, heq⟩ | ⟨hold, heq⟩
  · have hnew : .minted id ∉ s.history := henabled.2 hcarried id rfl
    rw [heq]
    refine ⟨fun id' stamp hs ↦ List.mem_append_left _ (h.minted id' stamp hs), h.bounded,
      fun id' stamp hs hsince ↦ ?_, fun j id' hj ↦ ?_, fun before j after heq ↦ ?_⟩
    · rcases mintedSince_concat.mp hsince with hlast | ⟨hsince, -⟩
      · obtain rfl := AcpEvent.minted.inj hlast
        exact absurd (h.minted id stamp hs) hnew
      · exact h.current id' stamp hs hsince
    · by_cases hji : j = i
      · subst hji
        have hsome := AcpPhase.responded.inj ((Function.update_self ..).symm.trans hj.2)
        obtain rfl := Option.some_inj.mp hsome
        simp
      · exact List.mem_append_left _
          (h.waiting j id' ⟨hj.1, (Function.update_of_ne hji ..).symm.trans hj.2⟩)
    · rcases Since.concat_split heq with ⟨-, hlast, -⟩ | ⟨rest, -, hold⟩
      · contradiction
      · exact h.served before j rest hold
  · rw [heq]
    exact ⟨h.minted, h.bounded, h.current,
      fun j id hj ↦ h.waiting j id (not_unstamped_of_old hold hj), h.served⟩

theorem CutOffStamped.respond (h : CutOffStamped carried s)
    (henabled : s.Enabled carried (.respond i responseId)) :
    CutOffStamped carried (s.next carried (.respond i responseId)) := by
  have hphase : ∀ responseId, s.phase i ≠ .responded responseId := by simp [henabled.1]
  rcases respond_cases carried s i responseId with
    ⟨id, hcarried, rfl, heq⟩ | ⟨hold, heq⟩
  · have hnew : .minted id ∉ s.history := henabled.2 hcarried id rfl
    have hbefore {id' : String} (hid : MintedBefore id' (s.history ++ [.minted id])) :
        MintedBefore id' s.history := by
      rcases mintedBefore_concat.mp hid with hid | ⟨hlast, -⟩
      · exact hid
      · contradiction
    rw [heq]
    refine ⟨fun id' hid ↦ h.stale id' (hbefore hid), fun id' hid ↦ ?_, fun j id' hj hid ↦ ?_,
      fun before j after heq ↦ ?_⟩
    · rcases List.mem_append.mp hid with hid | hid
      · exact (h.stamped id' hid).imp_right fun ⟨j, hj⟩ ↦ ⟨j, unstamped_update_of_ne hj hphase⟩
      · obtain rfl := AcpEvent.minted.inj (List.mem_singleton.mp hid)
        exact Or.inr ⟨i, hcarried, Function.update_self ..⟩
    · by_cases hji : j = i
      · subst hji
        have hsome := AcpPhase.responded.inj ((Function.update_self ..).symm.trans hj.2)
        obtain rfl := Option.some_inj.mp hsome
        exact hnew (hbefore hid).mem
      · exact h.fresh j id' ⟨hj.1, (Function.update_of_ne hji ..).symm.trans hj.2⟩ (hbefore hid)
    · rcases Since.concat_split heq with ⟨-, hlast, -⟩ | ⟨rest, -, hold⟩
      · contradiction
      · exact h.cutOff before j rest hold
  · rw [heq]
    refine ⟨h.stale, fun id hid ↦ ?_, fun j id hj ↦ h.fresh j id (not_unstamped_of_old hold hj),
      h.cutOff⟩
    exact (h.stamped id hid).imp_right fun ⟨j, hj⟩ ↦ ⟨j, unstamped_update_of_ne hj hphase⟩

theorem pass_cases (carried : ℕ → Option String) (hphase : s.phase i = .responded responseId) :
    (∃ id, Unstamped carried s i id ∧ s.next carried (.pass i) =
        { s with
          epoch := s.epoch.register id
          phase := Function.update s.phase i .answered }) ∨
      ((∀ id, ¬ Unstamped carried s i id) ∧ s.next carried (.pass i) =
        { s with phase := Function.update s.phase i .answered }) := by
  rcases hcarried : carried i with _ | id <;> rcases responseId with _ | id'
  · refine Or.inr ⟨fun id hid ↦ ?_, by simp [AcpState.next, hphase, onResponse]⟩
    exact absurd (hphase.symm.trans hid.2) nofun
  · exact Or.inl ⟨id', ⟨hcarried, hphase⟩, by simp [AcpState.next, hphase, onResponse, hcarried]⟩
  · refine Or.inr ⟨fun id hid ↦ ?_, by simp [AcpState.next, hphase, onResponse]⟩
    exact absurd (hcarried.symm.trans hid.1) nofun
  · refine Or.inr ⟨fun id hid ↦ ?_, by simp [AcpState.next, hphase, onResponse, hcarried]⟩
    exact absurd (hcarried.symm.trans hid.1) nofun

/-- **The response passes back.** -/
theorem Stamped.pass (h : Stamped carried s)
    (hphase : s.phase i = .responded responseId) : Stamped carried (s.next carried (.pass i)) := by
  rcases pass_cases carried hphase with ⟨id, hid, heq⟩ | ⟨-, heq⟩
  · rw [heq]
    have hstamp {id' : String} {stamp : ℕ}
        (hs : (s.epoch.register id).connections[id']? = some stamp) :
        (id' = id ∧ stamp = s.epoch.current) ∨ s.epoch.connections[id']? = some stamp := by
      rw [AcpProviderEpoch.register, OrderedMap.lookup_insert] at hs
      split at hs
      · next heq => exact Or.inl ⟨heq, (Option.some_inj.mp hs).symm⟩
      · exact Or.inr hs
    refine ⟨fun id' stamp hs ↦ ?_, fun id' stamp hs ↦ ?_, fun id' stamp hs hsince ↦ ?_,
      fun j id' hj ↦ h.waiting j id' (unstamped_update hj nofun), h.served⟩
    · rcases hstamp hs with ⟨rfl, -⟩ | hs
      · exact h.waiting i id' hid
      · exact h.minted id' stamp hs
    · rcases hstamp hs with ⟨-, rfl⟩ | hs
      · exact le_rfl
      · exact h.bounded id' stamp hs
    · rcases hstamp hs with ⟨-, rfl⟩ | hs
      · rfl
      · exact h.current id' stamp hs hsince
  · rw [heq]
    exact ⟨h.minted, h.bounded, h.current,
      fun j id hj ↦ h.waiting j id (unstamped_update hj nofun), h.served⟩

theorem CutOffStamped.pass (h : CutOffStamped carried s)
    (hphase : s.phase i = .responded responseId) :
    CutOffStamped carried (s.next carried (.pass i)) := by
  rcases pass_cases carried hphase with ⟨id, hid, heq⟩ | ⟨hnone, heq⟩
  · rw [heq]
    have hkept {id' : String} (hne : id' ≠ id) : (s.epoch.register id).connections[id']? =
        s.epoch.connections[id']? := by
      rw [AcpProviderEpoch.register, OrderedMap.lookup_insert, if_neg hne]
    refine ⟨fun id' hbefore ↦ ?_, fun id' hminted ↦ ?_,
      fun j id' hj ↦ h.fresh j id' (unstamped_update hj nofun), h.cutOff⟩
    · have hne : id' ≠ id := by
        rintro rfl
        exact h.fresh i id' hid hbefore
      obtain ⟨stamp, hs, hlt⟩ := h.stale id' hbefore
      exact ⟨stamp, (hkept hne).trans hs, hlt⟩
    · by_cases hne : id' = id
      · exact Or.inl ⟨s.epoch.current, by simp [AcpProviderEpoch.register, hne]⟩
      · rcases h.stamped id' hminted with hs | ⟨j, hj⟩
        · exact Or.inl (by simpa only [hkept hne] using hs)
        · refine Or.inr ⟨j, hj.1, (Function.update_of_ne (fun hji ↦ hne ?_) ..).trans hj.2⟩
          subst hji
          exact Option.some_inj.mp (AcpPhase.responded.inj (hj.2.symm.trans hid.2))
  · rw [heq]
    refine ⟨h.stale, fun id hid ↦ (h.stamped id hid).imp_right fun ⟨j, hj⟩ ↦ ⟨j, hj.1, ?_⟩,
      fun j id hj ↦ h.fresh j id (unstamped_update hj nofun), h.cutOff⟩
    have hji : j ≠ i := by
      rintro rfl
      exact hnone id hj
    exact (Function.update_of_ne hji ..).trans hj.2

theorem Stamped.repin (h : Stamped carried s) : Stamped carried (s.next carried .repin) := by
  refine ⟨fun id stamp hs ↦ List.mem_append_left _ (h.minted id stamp hs),
    fun id stamp hs ↦ (h.bounded id stamp hs).trans (Nat.le_succ _), fun id stamp hs hsince ↦ ?_,
    fun j id hj ↦ List.mem_append_left _ (h.waiting j id hj), fun before j after heq ↦ ?_⟩
  · rcases mintedSince_concat.mp hsince with hlast | ⟨-, hne⟩
    · contradiction
    · exact absurd rfl hne
  · rcases Since.concat_split heq with ⟨-, hlast, -⟩ | ⟨rest, -, hold⟩
    · contradiction
    · exact h.served before j rest hold

theorem CutOffStamped.repin (h : CutOffStamped carried s) (hstamped : Stamped carried s)
    (hnone : NoneUnstamped carried s .repin) : CutOffStamped carried (s.next carried .repin) := by
  refine ⟨fun id hid ↦ ?_, fun id hid ↦ ?_, fun j id hj _ ↦ hnone j id hj,
    fun before j after heq ↦ ?_⟩
  · rcases mintedBefore_concat.mp hid with hold | ⟨-, hminted⟩
    · obtain ⟨stamp, hs, hlt⟩ := h.stale id hold
      exact ⟨stamp, hs, hlt.trans (Nat.lt_succ_self _)⟩
    · rcases h.stamped id hminted with ⟨stamp, hs⟩ | ⟨j, hj⟩
      · exact ⟨stamp, hs, Nat.lt_succ_of_le (hstamped.bounded id stamp hs)⟩
      · exact absurd hj (hnone j id)
  · rcases List.mem_append.mp hid with hid | hid
    · exact h.stamped id hid
    · simp at hid
  · rcases Since.concat_split heq with ⟨-, hlast, -⟩ | ⟨rest, -, hold⟩
    · contradiction
    · exact h.cutOff before j rest hold

/-- **One step keeps what the stamps say.** -/
theorem Stamped.step (h : Stamped carried s) {a : AcpStep} (henabled : s.Enabled carried a) :
    Stamped carried (s.next carried a) := by
  rcases a with i | ⟨i, responseId⟩ | i | _
  · exact h.arrive
  · exact h.respond henabled
  · obtain ⟨responseId, hphase⟩ := henabled
    exact h.pass hphase
  · exact h.repin

theorem CutOffStamped.step (h : CutOffStamped carried s) (hstamped : Stamped carried s)
    {a : AcpStep} (henabled : s.Enabled carried a) (hnone : NoneUnstamped carried s a) :
    CutOffStamped carried (s.next carried a) := by
  rcases a with i | ⟨i, responseId⟩ | i | _
  · exact h.arrive henabled
  · exact h.respond henabled
  · obtain ⟨responseId, hphase⟩ := henabled
    exact h.pass hphase
  · exact h.repin hstamped hnone

end Stamps

/-- **The repin cut-off**: no request on a connection minted before a repin is forwarded after it,
when no repin comes between minting and stamp; none on a connection minted since the last repin is
refused. -/
theorem cutOff_of_noneUnstamped (carried : ℕ → Option String) :
    (∀ s, (brokering carried).ReachableUnder (NoneUnstamped carried) s → CutOff carried s) ∧
    ∀ s, (brokering carried).Reachable s → NeverLockedOut carried s := by
  have hstamped {G : AcpState → AcpStep → Prop} {s : AcpState}
      (h : (brokering carried).ReachableUnder G s) : Stamped carried s :=
    h.invariant _ .new fun _ _ _ h henabled _ ↦ h.step henabled
  refine ⟨fun s h ↦ ?_, fun s h ↦ (hstamped h).served⟩
  have hinv : CutOffStamped carried s := by
    refine h.invariant _ .new fun t a hreachable ht henabled hnone ↦ ?_
    exact ht.step (hstamped hreachable) henabled hnone
  exact hinv.cutOff

private def opening : ℕ → Option String
  | 0 => none
  | _ => some "conn-old"

/-- The connection is stamped before the repin, and refused after. -/
theorem cutOff_stamped : CutOff opening ((brokering opening).run .new
    [.arrive 0, .respond 0 (some "conn-old"), .pass 0, .repin, .arrive 1]) := by
  refine (cutOff_of_noneUnstamped opening).1 _ (GuardedSystem.ReachableUnder.init.run ?_)
  refine ⟨rfl, trivial, ⟨rfl, fun _ _ _ ↦ by simp [brokering, AcpState.next, AcpState.new,
    forwards, opening]⟩, trivial, ⟨_, rfl⟩, trivial, trivial, ?_, rfl, trivial, trivial⟩
  rintro (_ | i) id ⟨hcarried, hphase⟩
  · contradiction
  · contradiction

/-- **A connection of the old provider keeps serving**: the repin came before its stamp. -/
theorem not_cutOff_unstamped :
    ¬ ∀ (carried : ℕ → Option String) (s : AcpState), (brokering carried).Reachable s →
      CutOff carried s ∧ NeverLockedOut carried s := by
  intro h
  have hreachable : (brokering opening).Reachable ((brokering opening).run .new
      [.arrive 0, .respond 0 (some "conn-old"), .repin, .pass 0, .arrive 1]) := by
    refine GuardedSystem.ReachableUnder.init.run ?_
    exact ⟨rfl, trivial, ⟨rfl, fun _ _ _ ↦ by simp [brokering, AcpState.next, AcpState.new,
      forwards, opening]⟩, trivial, trivial, trivial, ⟨_, rfl⟩, trivial, rfl, trivial, trivial⟩
  exact (h _ _ hreachable).1 [.forwarded 0, .minted "conn-old", .invalidated] 1 [] rfl
    "conn-old" rfl ⟨[.forwarded 0], [.invalidated], rfl, by simp⟩

end ProviderEpoch

end RosheraCad
