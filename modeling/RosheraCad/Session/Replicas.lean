import RosheraCad.Library.KeyedFold
import RosheraCad.Library.Run
import RosheraCad.Types

/-!
# Replicas of a live session

Each replica keeps a counter for every user and the operations applied to it locally. A merge takes
what the remote counts and the local replica does not from the remote's own operations; those that
come through a third replica are lost.
-/

namespace RosheraCad

namespace Replicas

variable {AICommand : Type}

structure Operation (AICommand : Type) where
  id : Uuid
  command : AICommand
  timestamp : ℕ
  userId : String
  dependencies : List Uuid

structure GeometryCRDT (AICommand : Type) where
  sessionId : String
  stateVector : OrderedMap String ℕ
  pendingOps : OrderedMap String (List (Operation AICommand))

namespace GeometryCRDT

/-- A replica of a session without operations. -/
def new (sessionId : String) : GeometryCRDT AICommand := ⟨sessionId, ∅, ∅⟩

variable (r : GeometryCRDT AICommand) (user : String)

def counter : ℕ := r.stateVector[user]?.getD 0

def pending : List (Operation AICommand) := r.pendingOps[user]?.getD []

def applyLocal (operation : Operation AICommand) : GeometryCRDT AICommand :=
  { r with
    stateVector := r.stateVector.insert user (r.counter user + 1)
    pendingOps := r.pendingOps.insert user (r.pending user ++ [operation]) }

/-- The operations of a user that a remote replica has and this one has not counted. -/
def missing (remote : GeometryCRDT AICommand) (e : String × ℕ) : List (Operation AICommand) :=
  if r.counter e.1 < e.2 then (remote.pending e.1).drop (r.counter e.1) else []

/-- Take over a counter that is ahead. -/
def advance (vector : OrderedMap String ℕ) (e : String × ℕ) : OrderedMap String ℕ :=
  if vector[e.1]?.getD 0 < e.2 then vector.insert e.1 e.2 else vector

def merge (remote : GeometryCRDT AICommand) :
    List (Operation AICommand) × GeometryCRDT AICommand :=
  (remote.stateVector.toList.flatMap (r.missing remote),
    { r with stateVector := remote.stateVector.toList.foldl advance r.stateVector })

end GeometryCRDT

/-! ## Replicas side by side -/

section System

variable (ι AICommand : Type)

/-- All replicas, with what was issued and what each replica got. -/
structure ReplicaState where
  replicas : ι → GeometryCRDT AICommand
  issued : String → List (Operation AICommand)
  log : ι → String → List (Operation AICommand)

inductive ReplicaStep
  | applyLocal (r : ι) (user : String) (operation : Operation AICommand)
  | merge (r remote : ι)

end System

variable {ι : Type} [DecidableEq ι]

namespace ReplicaState

variable (s : ReplicaState ι AICommand)

/-- The outcome of a step. What a merge hands out is logged under the user it was kept for. -/
def next : ReplicaStep ι AICommand → ReplicaState ι AICommand
  | .applyLocal r user operation =>
    { replicas := Function.update s.replicas r ((s.replicas r).applyLocal user operation)
      issued := Function.update s.issued user (s.issued user ++ [operation])
      log := Function.update s.log r
        (Function.update (s.log r) user (s.log r user ++ [operation])) }
  | .merge r remote =>
    { s with
      replicas := Function.update s.replicas r ((s.replicas r).merge (s.replicas remote)).2
      log := Function.update s.log r fun user ↦ s.log r user ++
        (s.replicas r).missing (s.replicas remote) (user, (s.replicas remote).counter user) }

end ReplicaState

/-- Replicas of one session, on which each user edits at a replica of their own. -/
def replicating (sessionId : String) (home : String → ι) :
    GuardedSystem (ReplicaState ι AICommand) (ReplicaStep ι AICommand) where
  init := ⟨fun _ ↦ .new sessionId, fun _ ↦ [], fun _ _ ↦ []⟩
  enabled
    | _, .applyLocal r user _ => home user = r
    | _, .merge _ _ => True
  step := ReplicaState.next

/-- **Delivery**: a replica that counts `n` operations of a user has got just the first `n`, in
order. -/
def Delivered (s : ReplicaState ι AICommand) : Prop :=
  ∀ r user, (s.replicas r).counter user ≤ (s.issued user).length ∧
    s.log r user = (s.issued user).take ((s.replicas r).counter user)

/-- A merge takes operations only from a replica that has all of them itself. -/
def FromHome (s : ReplicaState ι AICommand) : ReplicaStep ι AICommand → Prop
  | .applyLocal _ _ _ => True
  | .merge r remote => ∀ user, (s.replicas r).counter user < (s.replicas remote).counter user →
      ((s.replicas remote).pending user).length = (s.replicas remote).counter user

/-! ## What one call does -/

namespace GeometryCRDT

variable (r remote : GeometryCRDT AICommand)

@[simp] theorem counter_new (sessionId user : String) :
    (new sessionId : GeometryCRDT AICommand).counter user = 0 := by
  rw [counter, new, Std.ExtTreeMap.getElem?_empty]
  rfl

@[simp] theorem pending_new (sessionId user : String) :
    (new sessionId : GeometryCRDT AICommand).pending user = [] := by
  rw [pending, new, Std.ExtTreeMap.getElem?_empty]
  rfl

theorem counter_applyLocal (user u : String) (operation : Operation AICommand) :
    (r.applyLocal user operation).counter u =
      if u = user then r.counter user + 1 else r.counter u := by
  rw [counter, applyLocal, OrderedMap.lookup_insert]
  split <;> rfl

theorem pending_applyLocal (user u : String) (operation : Operation AICommand) :
    (r.applyLocal user operation).pending u =
      if u = user then r.pending user ++ [operation] else r.pending u := by
  rw [pending, applyLocal, OrderedMap.lookup_insert]
  split <;> rfl

@[simp] theorem pending_merge (user : String) :
    (r.merge remote).2.pending user = r.pending user := rfl

theorem counter_merge (user : String) :
    (r.merge remote).2.counter user = max (r.counter user) (remote.counter user) := by
  have hown : KeyedFold.OwnKeyOnly advance (fun _ ↦ True)
      (fun (u : String) (v : OrderedMap String ℕ) ↦ v[u]?.getD 0)
      (fun _ n m ↦ max m n) remote.stateVector.toList := by
    refine ⟨fun _ _ _ _ ↦ trivial, fun v _ e _ u ↦ ?_⟩
    rw [advance]
    split
    · next hlt =>
      rw [OrderedMap.lookup_insert]
      by_cases hu : u = e.1
      · rw [if_pos hu, if_pos hu, hu]
        exact (max_eq_right hlt.le).symm
      · rw [if_neg hu, if_neg hu]
    · next hge =>
      by_cases hu : u = e.1
      · rw [if_pos hu, hu]
        exact (max_eq_left (not_lt.mp hge)).symm
      · rw [if_neg hu]
  have hkeys : remote.stateVector.toList.map Prod.fst = remote.stateVector.keys :=
    Std.ExtTreeMap.map_fst_toList_eq_keys
  rcases hremote : remote.stateVector[user]? with _ | n
  · have hunlisted : user ∉ remote.stateVector.toList.map Prod.fst := by
      rw [hkeys, Std.ExtTreeMap.mem_keys, OrderedMap.not_mem_iff, hremote]
    have hzero : remote.counter user = 0 := by rw [counter, hremote]; rfl
    rw [hzero, Nat.max_zero]
    exact hown.view_foldl_of_not_mem trivial hunlisted
  · have hcounter : remote.counter user = n := by rw [counter, hremote]; rfl
    rw [hcounter]
    exact hown.view_foldl_of_mem trivial (hkeys ▸ Std.ExtTreeMap.nodup_keys)
      (OrderedMap.mem_toList.mpr hremote)

end GeometryCRDT

/-! ## Runs -/

section Runs

variable {sessionId : String} {home : String → ι} {s : ReplicaState ι AICommand}

structure HomeHolds (home : String → ι) (s : ReplicaState ι AICommand) : Prop where
  pending : ∀ r user, (s.replicas r).pending user = if home user = r then s.issued user else []
  counter : ∀ r user, (s.replicas r).counter user ≤ (s.issued user).length
  counter_home : ∀ user, (s.replicas (home user)).counter user = (s.issued user).length
  log_home : ∀ user, s.log (home user) user = s.issued user

theorem HomeHolds.init :
    HomeHolds home (replicating sessionId home :
      GuardedSystem (ReplicaState ι AICommand) (ReplicaStep ι AICommand)).init := by
  refine ⟨fun r user ↦ ?_, fun r user ↦ ?_, fun user ↦ ?_, fun user ↦ rfl⟩
  · exact (GeometryCRDT.pending_new ..).trans (ite_self _).symm
  · exact (GeometryCRDT.counter_new ..).le
  · exact GeometryCRDT.counter_new ..

theorem HomeHolds.applyLocal (h : HomeHolds home s) (user : String)
    (operation : Operation AICommand) :
    HomeHolds home (s.next (.applyLocal (home user) user operation)) := by
  refine ⟨fun r u ↦ ?_, fun r u ↦ ?_, fun u ↦ ?_, fun u ↦ ?_⟩ <;>
    simp only [ReplicaState.next, Function.update_apply]
  · by_cases hr : r = home user
    · subst hr
      rw [if_pos rfl, GeometryCRDT.pending_applyLocal]
      by_cases hu : u = user
      · subst hu
        rw [if_pos rfl, if_pos rfl, if_pos rfl, h.pending, if_pos rfl]
      · rw [if_neg hu, if_neg hu, h.pending]
    · rw [if_neg hr, h.pending]
      by_cases hu : u = user
      · subst hu
        rw [if_neg (Ne.symm hr), if_neg (Ne.symm hr)]
      · rw [if_neg hu]
  · by_cases hr : r = home user
    · subst hr
      rw [if_pos rfl, GeometryCRDT.counter_applyLocal]
      by_cases hu : u = user
      · subst hu
        rw [if_pos rfl, if_pos rfl, List.length_append, List.length_singleton]
        exact Nat.succ_le_succ (h.counter _ _)
      · rw [if_neg hu, if_neg hu]
        exact h.counter _ _
    · -- A counter elsewhere stays, and the log only grows.
      rw [if_neg hr]
      by_cases hu : u = user
      · subst hu
        rw [if_pos rfl, List.length_append]
        exact (h.counter _ _).trans (Nat.le_add_right _ _)
      · rw [if_neg hu]
        exact h.counter _ _
  · by_cases hu : u = user
    · subst hu
      rw [if_pos rfl, if_pos rfl, GeometryCRDT.counter_applyLocal, if_pos rfl, List.length_append,
        h.counter_home]
      rfl
    · rw [if_neg hu, ← h.counter_home]
      by_cases hr : home u = home user
      · rw [if_pos hr, GeometryCRDT.counter_applyLocal, if_neg hu, hr]
      · rw [if_neg hr]
  · by_cases hu : u = user
    · subst hu
      rw [if_pos rfl, if_pos rfl, Function.update_self, h.log_home]
    · rw [if_neg hu, ← h.log_home]
      by_cases hr : home u = home user
      · rw [if_pos hr, Function.update_of_ne hu, hr]
      · rw [if_neg hr]

theorem HomeHolds.missing_home (h : HomeHolds home s) (user : String) (remote : ι) :
    (s.replicas (home user)).missing (s.replicas remote)
      (user, (s.replicas remote).counter user) = [] := by
  rw [GeometryCRDT.missing, h.counter_home, if_neg (Nat.not_lt.mpr (h.counter remote user))]

theorem HomeHolds.merge (h : HomeHolds home s) (r remote : ι) :
    HomeHolds home (s.next (.merge r remote)) := by
  refine ⟨fun q u ↦ ?_, fun q u ↦ ?_, fun u ↦ ?_, fun u ↦ ?_⟩ <;>
    simp only [ReplicaState.next, Function.update_apply]
  · by_cases hq : q = r
    · subst hq
      rw [if_pos rfl, GeometryCRDT.pending_merge, h.pending]
    · rw [if_neg hq, h.pending]
  · by_cases hq : q = r
    · subst hq
      rw [if_pos rfl, GeometryCRDT.counter_merge]
      exact max_le (h.counter _ _) (h.counter _ _)
    · rw [if_neg hq]
      exact h.counter _ _
  · by_cases hq : home u = r
    · subst hq
      rw [if_pos rfl, GeometryCRDT.counter_merge, h.counter_home]
      exact max_eq_left (h.counter _ _)
    · rw [if_neg hq, h.counter_home]
  · by_cases hq : home u = r
    · subst hq
      rw [if_pos rfl, h.missing_home, List.append_nil, h.log_home]
    · rw [if_neg hq, h.log_home]

theorem HomeHolds.of_reachable (hs : (replicating sessionId home).Reachable s) :
    HomeHolds home s := by
  refine hs.invariant (HomeHolds home) HomeHolds.init fun s a _ h henabled _ ↦ ?_
  rcases a with ⟨r, user, operation⟩ | ⟨r, remote⟩
  · obtain rfl : home user = r := henabled
    exact h.applyLocal user operation
  · exact h.merge r remote

theorem Delivered.applyLocal (h : Delivered s) (hhome : HomeHolds home s) (user : String)
    (operation : Operation AICommand) :
    Delivered (s.next (.applyLocal (home user) user operation)) := by
  intro r u
  refine ⟨(hhome.applyLocal user operation).counter r u, ?_⟩
  by_cases hr : home u = r
  · -- At home all operations are there.
    subst hr
    rw [(hhome.applyLocal user operation).counter_home, List.take_length,
      (hhome.applyLocal user operation).log_home]
  · have hother : r = home user → u ≠ user := by
      rintro rfl rfl
      exact hr rfl
    obtain ⟨hle, hlog⟩ := h r u
    simp only [ReplicaState.next, Function.update_apply]
    have hcounter : (if r = home user then (s.replicas (home user)).applyLocal user operation
        else s.replicas r).counter u = (s.replicas r).counter u := by
      by_cases heq : r = home user
      · rw [if_pos heq, GeometryCRDT.counter_applyLocal, if_neg (hother heq), heq]
      · rw [if_neg heq]
    have hkept : (if r = home user then Function.update (s.log (home user)) user
        (s.log (home user) user ++ [operation]) else s.log r) u = s.log r u := by
      by_cases heq : r = home user
      · rw [if_pos heq, Function.update_of_ne (hother heq), heq]
      · rw [if_neg heq]
    rw [hcounter, hkept, hlog]
    by_cases hu : u = user
    · subst hu
      rw [if_pos rfl, List.take_append_of_le_length hle]
    · rw [if_neg hu]

theorem append_missing_iff (h : Delivered s) (hhome : HomeHolds home s) (r remote : ι)
    (user : String) :
    s.log r user ++ (s.replicas r).missing (s.replicas remote)
        (user, (s.replicas remote).counter user) =
      (s.issued user).take (max ((s.replicas r).counter user) ((s.replicas remote).counter user)) ↔
    ((s.replicas r).counter user < (s.replicas remote).counter user →
      ((s.replicas remote).pending user).length = (s.replicas remote).counter user) := by
  obtain ⟨hle, hlog⟩ := h r user
  rw [hlog, GeometryCRDT.missing]
  by_cases hahead : (s.replicas r).counter user < (s.replicas remote).counter user
  · rw [if_pos hahead, max_eq_right hahead.le, hhome.pending]
    by_cases hremote : home user = remote
    · subst hremote
      rw [if_pos rfl, hhome.counter_home, List.take_append_drop, List.take_length]
      exact iff_of_true rfl fun _ ↦ rfl
    · rw [if_neg hremote, List.drop_nil, List.append_nil, List.length_nil]
      refine iff_of_false (fun heq ↦ hahead.ne ?_) fun hzero ↦ ?_
      · have hlength := congrArg List.length heq
        rwa [List.length_take_of_le hle, List.length_take_of_le (hhome.counter _ _)] at hlength
      · exact absurd (hzero hahead ▸ hahead) (Nat.not_lt_zero _)
  · rw [if_neg hahead, max_eq_left (not_lt.mp hahead), List.append_nil]
    exact iff_of_true rfl fun hlt ↦ absurd hlt hahead

/-- **A merge keeps delivery exactly when it takes operations from a replica that has them all.** -/
theorem delivered_merge_iff (h : Delivered s) (hhome : HomeHolds home s) (r remote : ι) :
    Delivered (s.next (.merge r remote)) ↔ FromHome s (.merge r remote) := by
  constructor
  · intro hnext user
    have hlog := (hnext r user).2
    simp only [ReplicaState.next, Function.update_self, GeometryCRDT.counter_merge] at hlog
    exact (append_missing_iff h hhome r remote user).mp hlog
  · intro hfrom q user
    refine ⟨(hhome.merge r remote).counter q user, ?_⟩
    simp only [ReplicaState.next, Function.update_apply]
    by_cases hq : q = r
    · subst hq
      rw [if_pos rfl, if_pos rfl, GeometryCRDT.counter_merge]
      exact (append_missing_iff h hhome q remote user).mpr (hfrom user)
    · rw [if_neg hq, if_neg hq]
      exact (h q user).2

theorem HomeHolds.fromHome (h : HomeHolds home s) (r : ι) {remote : ι}
    (hremote : ∀ user, home user = remote) : FromHome s (.merge r remote) := by
  intro user _
  rw [h.pending, if_pos (hremote user), ← hremote user, h.counter_home]

/-- **Operations are delivered in every run without relaying**, and the first merge that relays
loses one. -/
theorem delivered_of_fromHome (sessionId : String) (home : String → ι) :
    (∀ s : ReplicaState ι AICommand, (replicating sessionId home).ReachableUnder FromHome s →
      Delivered s) ∧
    ∀ (s : ReplicaState ι AICommand) (a : ReplicaStep ι AICommand),
      (replicating sessionId home).Reachable s → (replicating sessionId home).enabled s a →
      Delivered s → ¬ FromHome s a → ¬ Delivered (s.next a) := by
  constructor
  · intro s hs
    refine hs.invariant Delivered (fun r user ↦ ?_) fun s a hr h henabled hfrom ↦ ?_
    · rw [show ((replicating sessionId home).init : ReplicaState ι AICommand).replicas r =
        .new sessionId from rfl, GeometryCRDT.counter_new]
      exact ⟨Nat.zero_le _, rfl⟩
    · have hhome := HomeHolds.of_reachable (hr.mono fun _ _ _ ↦ trivial)
      rcases a with ⟨r, user, operation⟩ | ⟨r, remote⟩
      · obtain rfl : home user = r := henabled
        exact h.applyLocal hhome user operation
      · exact (delivered_merge_iff h hhome r remote).mpr hfrom
  · intro s a hs _ h hrelays hnext
    rcases a with ⟨r, user, operation⟩ | ⟨r, remote⟩
    · exact hrelays trivial
    · exact hrelays ((delivered_merge_iff h (HomeHolds.of_reachable hs) r remote).mp hnext)

end Runs

/-! ## Examples -/

private def edit : Operation Unit := ⟨1, (), 0, "alice", []⟩

private def direct : List (ReplicaStep ℕ Unit) :=
  [.applyLocal 0 "alice" edit, .merge 1 0, .merge 2 0]

private def relayed : List (ReplicaStep ℕ Unit) :=
  [.applyLocal 0 "alice" edit, .merge 1 0, .merge 2 1]

/-- The edit arrives at both. -/
theorem delivered_direct :
    Delivered ((replicating "session" fun _ ↦ 0).run (replicating "session" fun _ ↦ 0).init
      direct) := by
  refine (delivered_of_fromHome "session" fun _ ↦ 0).1 _ (GuardedSystem.ReachableUnder.init.run ?_)
  have happlied : HomeHolds (fun _ ↦ 0)
      ((replicating "session" fun _ ↦ 0).run (replicating "session" fun _ ↦ 0).init
        [.applyLocal 0 "alice" edit]) :=
    HomeHolds.init.applyLocal "alice" edit
  exact ⟨rfl, trivial, trivial, happlied.fromHome 1 fun _ ↦ rfl, trivial,
    (happlied.merge 1 0).fromHome 2 fun _ ↦ rfl, trivial⟩

/-- **The edit is lost**: the second replica counts it, and does not pass it on. -/
theorem not_delivered_relayed :
    ¬ ∀ (ι AICommand : Type) [DecidableEq ι] (sessionId : String) (home : String → ι)
      (s : ReplicaState ι AICommand), (replicating sessionId home).Reachable s → Delivered s := by
  intro h
  have hreachable : (replicating "session" fun _ ↦ 0).Reachable
      ((replicating "session" fun _ ↦ 0).run (replicating "session" fun _ ↦ 0).init relayed) :=
    GuardedSystem.ReachableUnder.init.run
      ⟨rfl, trivial, trivial, trivial, trivial, trivial, trivial⟩
  have hlog := (h ℕ Unit "session" (fun _ ↦ 0) _ hreachable 2 "alice").2
  exact absurd (congrArg List.length hlog) (by decide +kernel)

end Replicas

end RosheraCad
