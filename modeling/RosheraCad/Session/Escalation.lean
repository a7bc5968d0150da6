import RosheraCad.Library.Run
import RosheraCad.Session.Permissions

/-!
# Escalation and lock-out

A call of a user that may not change roles should leave the roles and permissions of every member as
they were, and no call should take a permission from the owner. Adding a user replaces the record of
one that is a member already, and denying does not spare the owner.
-/

namespace RosheraCad

namespace Permissions

structure Rights where
  role : String → Option Role
  holds : String → Permission → Prop

namespace Rights

variable (R R' : Rights)

def SameFor (user : String) : Prop :=
  R'.role user = R.role user ∧ ∀ permission, R'.holds user permission ↔ R.holds user permission

/-- A user is a member with every permission. -/
def HoldsAll (user : String) : Prop := R.role user ≠ none ∧ ∀ permission, R.holds user permission

/-- **No escalation** by a call: if the caller may not change roles, every member left keeps its
role and its permissions. -/
def NoEscalation (sessionId : String) (c : Call) : Prop :=
  ¬ R.holds c.caller .changeRoles → ∀ user, R.role user ≠ none →
    R.SameFor R' user ∨ c = .removeUser sessionId user c.caller ∧ R'.role user = none

/-- Nothing is denied to the owner, and a user that is added is new, or has its role's rights
already, or is added by one that may change roles. -/
def Within (sessionId owner : String) : Call → Prop
  | .grantPermission .. => True
  | .denyPermission s user _ by' => s = sessionId → R.holds by' .changeRoles → user ≠ owner
  | .addUser s user role by' => s = sessionId → R.holds by' .inviteUsers →
    (user = owner → role = .owner) ∧
      (¬ R.holds by' .changeRoles → R.role user ≠ none → R.role user = some role ∧
        ∀ permission, R.holds user permission ↔ roleHasPermission role permission)
  | .removeUser .. => True

end Rights

def Members.rights (M : Members) : Rights :=
  ⟨fun user ↦ (M user).map (·.role), fun user permission ↦ M.holds user permission⟩

namespace PermissionManager

/-- The rights in a session, as the permission check answers. -/
def rights (m : PermissionManager) (sessionId : String) : Rights :=
  ⟨fun user ↦ m[sessionId]?.bind fun sessionPerms ↦ sessionPerms.users[user]?.map (·.role),
    fun user permission ↦ m.checkPermission sessionId user permission = .ok true⟩

instance (m : PermissionManager) (sessionId user : String) (permission : Permission) :
    Decidable ((m.rights sessionId).holds user permission) :=
  inferInstanceAs (Decidable (m.checkPermission sessionId user permission = .ok true))

theorem Serves.rights {m : PermissionManager} {sessionId owner : String} {M : Members}
    (h : m.Serves sessionId owner M) : m.rights sessionId = M.rights := by
  rw [PermissionManager.rights, Members.rights, Rights.mk.injEq]
  refine ⟨?_, ?_⟩
  · obtain ⟨sessionPerms, hs, -, -, rfl⟩ := h
    funext user
    rw [hs]
    rfl
  · funext user permission
    exact propext h.checkPermission

end PermissionManager

/-! ## One call -/

namespace Members

variable {M N : Members} {sessionId owner user : String} {permission : Permission}

theorem sameFor_of_eq (h : N user = M user) : M.rights.SameFor N.rights user := by
  simp only [Rights.SameFor, rights, holds, h, true_and, implies_true]

theorem role_eq_none : M.rights.role user = none ↔ M user = none := Option.map_eq_none_iff

theorem holds_of_eq_some {record : UserPermissions} (h : M user = some record) :
    M.holds user permission = record.allows permission := by
  rw [holds, h, Option.any_some]

theorem holdsAll_iff : M.rights.HoldsAll user ↔
    ∃ record, M user = some record ∧ ∀ permission, record.allows permission := by
  constructor
  · rintro ⟨hrole, hall⟩
    obtain ⟨record, hrecord⟩ := Option.ne_none_iff_exists'.mp (mt role_eq_none.mpr hrole)
    exact ⟨record, hrecord, fun permission ↦ (holds_of_eq_some hrecord).symm.trans
      (hall permission)⟩
  · rintro ⟨record, hrecord, hall⟩
    refine ⟨fun hnone ↦ ?_, fun permission ↦ (holds_of_eq_some hrecord).trans (hall permission)⟩
    cases hrecord.symm.trans (role_eq_none.mp hnone)

theorem holdsAll_modify_grant {by' : String} (hall : M.rights.HoldsAll owner) :
    (M.modify user (·.grant permission by')).rights.HoldsAll owner := by
  obtain ⟨record, hrecord, hall⟩ := holdsAll_iff.mp hall
  rw [holdsAll_iff]
  by_cases hu : owner = user
  · subst hu
    refine ⟨record.grant permission by', ?_, fun q ↦ UserPermissions.allows_grant _ _ _ (hall q)⟩
    rw [modify, Function.update_self, hrecord, Option.map_some]
  · refine ⟨record, ?_, hall⟩
    rw [modify, Function.update_of_ne hu, hrecord]

theorem sameFor_added {role : Role} {by' : String} :
    M.rights.SameFor (Members.rights (Function.update M user (some (.ofRole user role by')))) user ↔
      M.rights.role user = some role ∧
        ∀ permission, M.rights.holds user permission ↔ roleHasPermission role permission := by
  have hadded : Function.update M user (some (.ofRole user role by')) user =
      some (.ofRole user role by') := Function.update_self ..
  refine and_congr ?_ (forall_congr' fun permission ↦ ?_)
  · show Option.map _ (Function.update M user _ user) = _ ↔ _
    rw [hadded, eq_comm]
    rfl
  · show (holds _ user permission = true ↔ _) ↔ _
    rw [holds_of_eq_some hadded, UserPermissions.allows_ofRole]
    exact iff_comm

theorem holdsAll_added {role : Role} {by' : String} :
    (Members.rights (Function.update M user (some (.ofRole user role by')))).HoldsAll user ↔
      role = .owner := by
  rw [holdsAll_iff, Function.update_self]
  constructor
  · rintro ⟨record, hrecord, hall⟩
    cases hrecord
    rw [← roleHasPermission_deleteSession, ← hall .deleteSession, UserPermissions.allows_ofRole]
  · rintro rfl
    exact ⟨_, rfl, fun permission ↦ UserPermissions.allows_ofRole ..⟩

/-- A call of a user that may not change roles, within the condition, escalates nothing. -/
theorem noEscalation_after {c : Call} (hc : c.sessionId = sessionId)
    (hw : M.rights.Within sessionId owner c) :
    M.rights.NoEscalation (M.after owner c).rights sessionId c := by
  intro hcaller user hmember
  have hcaller' : ¬ M.holds c.caller .changeRoles := hcaller
  cases c with
  | grantPermission s target permission by' =>
    exact .inl (sameFor_of_eq (congrFun (if_neg hcaller') user))
  | denyPermission s target permission by' =>
    exact .inl (sameFor_of_eq (congrFun (if_neg hcaller') user))
  | addUser s target role by' =>
    rw [after]
    split_ifs with hinvite
    · by_cases hu : user = target
      · subst hu
        exact .inl (sameFor_added.mpr ((hw hc hinvite).2 hcaller hmember))
      · exact .inl (sameFor_of_eq (Function.update_of_ne hu ..))
    · exact .inl (sameFor_of_eq rfl)
  | removeUser s target by' =>
    rw [after]
    split_ifs with hremove
    · by_cases hu : user = target
      · subst hu
        cases hc
        exact .inr ⟨rfl, role_eq_none.mpr (Function.update_self ..)⟩
      · exact .inl (sameFor_of_eq (Function.update_of_ne hu ..))
    · exact .inl (sameFor_of_eq rfl)

theorem holdsAll_after {c : Call} (hc : c.sessionId = sessionId)
    (hw : M.rights.Within sessionId owner c) (hall : M.rights.HoldsAll owner) :
    (M.after owner c).rights.HoldsAll owner := by
  cases c with
  | grantPermission s target permission by' =>
    rw [after]
    split_ifs
    · exact holdsAll_modify_grant hall
    · exact hall
  | denyPermission s target permission by' =>
    rw [after]
    split_ifs with hchange
    · rw [holdsAll_iff, modify, Function.update_of_ne (hw hc hchange).symm]
      exact holdsAll_iff.mp hall
    · exact hall
  | addUser s target role by' =>
    rw [after]
    split_ifs with hinvite
    · by_cases hu : target = owner
      · subst hu
        exact holdsAll_added.mpr ((hw hc hinvite).1 rfl)
      · rw [holdsAll_iff, Function.update_of_ne (Ne.symm hu)]
        exact holdsAll_iff.mp hall
    · exact hall
  | removeUser s target by' =>
    rw [after]
    split_ifs with hremove
    · rw [holdsAll_iff, Function.update_of_ne hremove.2]
      exact holdsAll_iff.mp hall
    · exact hall

theorem within_of_keeps {c : Call} (hc : c.sessionId = sessionId)
    (hall : M.rights.HoldsAll owner)
    (hno : M.rights.NoEscalation (M.after owner c).rights sessionId c)
    (hall' : (M.after owner c).rights.HoldsAll owner) : M.rights.Within sessionId owner c := by
  cases c with
  | grantPermission | removeUser => trivial
  | denyPermission s target permission by' =>
    rintro - (hchange : M.holds by' .changeRoles) rfl
    -- the owner is a member, so the denial reached its record
    obtain ⟨record, hrecord, -⟩ := holdsAll_iff.mp hall
    rw [after, if_pos hchange, holdsAll_iff, modify, Function.update_self, hrecord] at hall'
    obtain ⟨denied, hdenied, hall'⟩ := hall'
    cases hdenied
    cases (UserPermissions.not_allows_deny record permission by').symm.trans (hall' permission)
  | addUser s target role by' =>
    rintro - (hinvite : M.holds by' .inviteUsers)
    rw [after, if_pos hinvite] at hno hall'
    refine ⟨fun hu ↦ ?_, fun hcaller hmember ↦ ?_⟩
    · subst hu
      exact holdsAll_added.mp hall'
    · rcases hno hcaller target hmember with hsame | ⟨hcall, -⟩
      · exact sameFor_added.mp hsame
      · cases hcall

end Members

/-! ## Runs of a session -/

open PermissionManager

def calls (m : PermissionManager) (sessionId owner : String) :
    GuardedSystem PermissionManager Call where
  init := (m.createSessionPermissions sessionId owner).2
  enabled _ _ := True
  step := next

section Runs

variable {m s : PermissionManager} {sessionId owner : String}

theorem holdsAll_created : (created owner).rights.HoldsAll owner :=
  Members.holdsAll_added.mpr rfl

/-- A created session stays there, with its owner and without a user limit. -/
theorem serves_reachable (h : (calls m sessionId owner).Reachable s) :
    ∃ M, s.Serves sessionId owner M := by
  refine h.invariant (fun s ↦ ∃ M, s.Serves sessionId owner M) ⟨_, serves_created⟩ ?_
  rintro s c - ⟨M, hM⟩ - -
  exact ⟨_, hM.next c⟩

theorem keeps_iff_within {M : Members} (hM : s.Serves sessionId owner M)
    (hall : (s.rights sessionId).HoldsAll owner) (c : Call) :
    (s.rights sessionId).NoEscalation ((s.next c).rights sessionId) sessionId c ∧
        ((s.next c).rights sessionId).HoldsAll owner ↔
      (s.rights sessionId).Within sessionId owner c := by
  rw [hM.rights, (hM.next c).rights]
  rw [hM.rights] at hall
  by_cases hc : c.sessionId = sessionId
  · rw [if_pos hc]
    exact ⟨fun h ↦ Members.within_of_keeps hc hall h.1 h.2,
      fun hw ↦ ⟨Members.noEscalation_after hc hw, Members.holdsAll_after hc hw hall⟩⟩
  · rw [if_neg hc]
    refine iff_of_true ⟨fun _ user _ ↦ .inl (Members.sameFor_of_eq rfl), hall⟩ ?_
    cases c with
    | grantPermission | removeUser => trivial
    | denyPermission => exact fun h ↦ absurd h hc
    | addUser => exact fun h ↦ absurd h hc

/-- The condition on the calls of a run. -/
def Respects (sessionId owner : String) (s : PermissionManager) (c : Call) : Prop :=
  (s.rights sessionId).Within sessionId owner c

theorem holdsAll_of_respects
    (h : (calls m sessionId owner).ReachableUnder (Respects sessionId owner) s) :
    (s.rights sessionId).HoldsAll owner := by
  refine h.invariant (fun s ↦ (s.rights sessionId).HoldsAll owner) ?_ fun s c hr hall _ hw ↦ ?_
  · rw [calls, serves_created.rights]
    exact holdsAll_created
  · obtain ⟨M, hM⟩ := serves_reachable (hr.mono fun _ _ _ ↦ trivial)
    exact ((keeps_iff_within hM hall c).mpr hw).2

/-- **No escalation and no lock-out**: in every run within the condition the owner has every
permission and no call escalates. Where the owner has every permission, a call keeps both exactly
when it is within it. -/
theorem escalatesNothing_of_respects (m : PermissionManager) (sessionId owner : String) :
    (∀ s, (calls m sessionId owner).ReachableUnder (Respects sessionId owner) s →
      (s.rights sessionId).HoldsAll owner ∧ ∀ c, Respects sessionId owner s c →
        (s.rights sessionId).NoEscalation ((s.next c).rights sessionId) sessionId c) ∧
    ∀ s, (calls m sessionId owner).Reachable s → (s.rights sessionId).HoldsAll owner →
      ∀ c, (s.rights sessionId).NoEscalation ((s.next c).rights sessionId) sessionId c ∧
          ((s.next c).rights sessionId).HoldsAll owner ↔ Respects sessionId owner s c := by
  have hkeeps : ∀ s, (calls m sessionId owner).Reachable s →
      (s.rights sessionId).HoldsAll owner → ∀ c,
      (s.rights sessionId).NoEscalation ((s.next c).rights sessionId) sessionId c ∧
        ((s.next c).rights sessionId).HoldsAll owner ↔ Respects sessionId owner s c := by
    intro s hs hall c
    obtain ⟨M, hM⟩ := serves_reachable hs
    exact keeps_iff_within hM hall c
  refine ⟨fun s hs ↦ ?_, hkeeps⟩
  have hall := holdsAll_of_respects hs
  exact ⟨hall, fun c hc ↦ ((hkeeps s (hs.mono fun _ _ _ ↦ trivial) hall c).mpr hc).1⟩

end Runs

private def inviting : List Call :=
  [.addUser "part" "mallory" .viewer "owner",
    .grantPermission "part" "mallory" .inviteUsers "owner"]

private theorem respects_inviting :
    (calls ∅ "part" "owner").Admits (Respects "part" "owner") (calls ∅ "part" "owner").init
      inviting := by
  refine ⟨trivial, fun _ _ ↦ ⟨fun h ↦ absurd h (by decide), fun _ hmember ↦ ?_⟩, trivial, trivial,
    trivial⟩
  exact absurd (by decide +kernel) hmember

/-- A viewer that may invite others adds a new user. -/
theorem escalatesNothing_inviting :
    let s := (calls ∅ "part" "owner").run (calls ∅ "part" "owner").init inviting
    let c := Call.addUser "part" "bob" .viewer "mallory"
    (s.rights "part").HoldsAll "owner" ∧
      (s.rights "part").NoEscalation ((s.next c).rights "part") "part" c := by
  have hs := (escalatesNothing_of_respects ∅ "part" "owner").1 _
    (GuardedSystem.ReachableUnder.init.run respects_inviting)
  refine ⟨hs.1, hs.2 _ fun _ _ ↦ ⟨fun h ↦ absurd h (by decide), fun _ hmember ↦ ?_⟩⟩
  exact absurd (by decide +kernel) hmember

/-- A viewer that may invite others adds itself once more, as an owner. -/
theorem escalates_inviting_oneself :
    ¬ ∀ s, (calls ∅ "part" "owner").Reachable s →
      (s.rights "part").HoldsAll "owner" ∧
        ∀ c, (s.rights "part").NoEscalation ((s.next c).rights "part") "part" c := by
  intro h
  have hreach : (calls ∅ "part" "owner").Reachable
      ((calls ∅ "part" "owner").run (calls ∅ "part" "owner").init inviting) :=
    GuardedSystem.ReachableUnder.init.run ⟨trivial, trivial, trivial, trivial, trivial⟩
  rcases (h _ hreach).2 (.addUser "part" "mallory" .owner "mallory") (by decide +kernel)
    "mallory" (by decide +kernel) with hsame | ⟨hcall, -⟩
  · exact absurd hsame.1 (by decide +kernel)
  · cases hcall

end Permissions

end RosheraCad
