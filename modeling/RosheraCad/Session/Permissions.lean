import RosheraCad.Library.Checked
import RosheraCad.Library.OrderedMap
import Mathlib.Data.Finset.Basic

/-!
# Permissions of a session's users

A session keeps for each of its users a role, permissions granted beyond the role, and permissions
denied despite it. Granting and denying need the right to change roles, adding a user the right to
invite, removing one the right to remove.
-/

namespace RosheraCad

namespace Permissions

inductive Role
  | owner
  | editor
  | viewer
  | commenter
  | custom (n : UInt32)
  deriving DecidableEq

inductive Permission
  | deleteSession | inviteUsers | removeUsers | changeRoles | modifySettings
  | createGeometry | modifyGeometry | deleteGeometry
  | createObjects | editObjects | deleteObjects | viewObjects | booleanOperations
  | advancedFeatures
  | viewGeometry | measureGeometry | exportGeometry | exportSession | takeScreenshots
  | undoRedo | createBranches | mergeBranches | viewHistory
  | addComments | voiceChat | screenShare | recordSession
  | managePermissions | viewAllSessions | deleteAllSessions | createSession | joinSession
  deriving DecidableEq

inductive SessionError
  | notFound (id : String)
  | accessDenied
  | conflictError (details : String)
  deriving DecidableEq

def roleHasPermission : Role → Permission → Bool
  | .owner, _ => true
  | .editor, permission =>
    [Permission.viewGeometry, .createGeometry, .modifyGeometry, .deleteGeometry,
      .booleanOperations, .measureGeometry, .undoRedo, .createBranches, .viewHistory,
      .addComments].elem permission
  | .viewer, permission =>
    [Permission.viewGeometry, .measureGeometry, .viewHistory, .addComments].elem permission
  | .commenter, permission => [Permission.viewGeometry, .addComments].elem permission
  -- custom roles have explicit permissions only
  | .custom _, _ => false

theorem roleHasPermission_deleteSession {role : Role} :
    roleHasPermission role .deleteSession = true ↔ role = .owner := by
  cases role <;> simp [roleHasPermission]

structure UserPermissions where
  userId : String
  role : Role
  explicitPermissions : Finset Permission
  deniedPermissions : Finset Permission
  grantedBy : String

namespace UserPermissions

def ofRole (userId : String) (role : Role) (grantedBy : String) : UserPermissions :=
  ⟨userId, role, ∅, ∅, grantedBy⟩

variable (u : UserPermissions) (permission : Permission) (by' : String)

/-- The profile allows a permission: denials are looked up first, then explicit permissions. -/
def allows : Bool :=
  if permission ∈ u.deniedPermissions then false
  else if permission ∈ u.explicitPermissions then true
  else roleHasPermission u.role permission

def grant : UserPermissions :=
  { u with
    explicitPermissions := insert permission u.explicitPermissions
    deniedPermissions := u.deniedPermissions.erase permission
    grantedBy := by' }

def deny : UserPermissions :=
  { u with
    deniedPermissions := insert permission u.deniedPermissions
    explicitPermissions := u.explicitPermissions.erase permission
    grantedBy := by' }

@[simp] theorem allows_ofRole (userId : String) (role : Role) :
    (ofRole userId role by').allows permission = roleHasPermission role permission := by
  simp [allows, ofRole]

theorem allows_grant {q : Permission} (h : u.allows q) : (u.grant permission by').allows q := by
  by_cases hq : q = permission
  · simp [allows, grant, hq]
  · simpa [allows, grant, hq] using h

theorem not_allows_deny : (u.deny permission by').allows permission = false := by
  simp [allows, deny]

end UserPermissions

structure SessionPermissions where
  sessionId : String
  owner : String
  users : OrderedMap String UserPermissions
  defaultRole : Role
  isPublic : Bool
  maxUsers : ℕ

abbrev PermissionManager := OrderedMap String SessionPermissions

namespace PermissionManager

variable (m : PermissionManager) (sessionId userId : String)

def createSessionPermissions (owner : String) : SessionPermissions × PermissionManager :=
  let permissions : SessionPermissions :=
    { sessionId
      owner
      users := (∅ : OrderedMap String UserPermissions).insert owner (.ofRole owner .owner "system")
      defaultRole := .viewer
      isPublic := false
      maxUsers := 0 }
  (permissions, m.insert sessionId permissions)

def session : Except SessionError SessionPermissions :=
  .ofOption (.notFound sessionId) m[sessionId]?

def checkPermission (permission : Permission) : Except SessionError Bool := do
  let sessionPerms ← m.session sessionId
  let userPerms ← .ofOption .accessDenied sessionPerms.users[userId]?
  return userPerms.allows permission

/-- Refuse a caller without a permission. The answer of the check decides. -/
def gate (permission : Permission) : Except SessionError Unit := do
  let allowed ← m.checkPermission sessionId userId permission
  ensure allowed .accessDenied

def changeRecord (update : UserPermissions → UserPermissions) (by' : String) :
    Except SessionError PermissionManager := do
  m.gate sessionId by' .changeRoles
  let sessionPerms ← m.session sessionId
  let userPerms ← .ofOption (.notFound userId) sessionPerms.users[userId]?
  return m.insert sessionId
    { sessionPerms with users := sessionPerms.users.insert userId (update userPerms) }

def grantPermission (permission : Permission) (grantedBy : String) :
    Except SessionError PermissionManager :=
  m.changeRecord sessionId userId (·.grant permission grantedBy) grantedBy

def denyPermission (permission : Permission) (deniedBy : String) :
    Except SessionError PermissionManager :=
  m.changeRecord sessionId userId (·.deny permission deniedBy) deniedBy

def addUser (role : Role) (addedBy : String) : Except SessionError PermissionManager := do
  let sessionPerms ← m.session sessionId
  m.gate sessionId addedBy .inviteUsers
  ensure (¬ (0 < sessionPerms.maxUsers ∧ sessionPerms.maxUsers ≤ sessionPerms.users.size))
    (.conflictError "Maximum user limit reached")
  return m.insert sessionId
    { sessionPerms with
      users := sessionPerms.users.insert userId (.ofRole userId role addedBy) }

def removeUser (removedBy : String) : Except SessionError PermissionManager := do
  let sessionPerms ← m.session sessionId
  m.gate sessionId removedBy .removeUsers
  ensure (sessionPerms.owner ≠ userId) (.conflictError "Cannot remove session owner")
  return m.insert sessionId { sessionPerms with users := sessionPerms.users.erase userId }

end PermissionManager

/-! ## Calls -/

/-- A call that rewrites records. -/
inductive Call
  | grantPermission (sessionId userId : String) (permission : Permission) (grantedBy : String)
  | denyPermission (sessionId userId : String) (permission : Permission) (deniedBy : String)
  | addUser (sessionId userId : String) (role : Role) (addedBy : String)
  | removeUser (sessionId userId removedBy : String)

namespace Call

def sessionId : Call → String
  | .grantPermission s _ _ _ | .denyPermission s _ _ _ | .addUser s _ _ _ | .removeUser s _ _ => s

def caller : Call → String
  | .grantPermission _ _ _ by' | .denyPermission _ _ _ by' | .addUser _ _ _ by'
  | .removeUser _ _ by' => by'

end Call

namespace PermissionManager

def call (m : PermissionManager) : Call → Except SessionError PermissionManager
  | .grantPermission s user permission by' => m.grantPermission s user permission by'
  | .denyPermission s user permission by' => m.denyPermission s user permission by'
  | .addUser s user role by' => m.addUser s user role by'
  | .removeUser s user by' => m.removeUser s user by'

/-- The manager that an answer leaves. A refused call writes nothing. -/
def settle (m : PermissionManager) : Except SessionError PermissionManager → PermissionManager
  | .ok m' => m'
  | .error _ => m

def next (m : PermissionManager) (c : Call) : PermissionManager := m.settle (m.call c)

end PermissionManager

/-! ## The table of records -/

abbrev Members := String → Option UserPermissions

namespace Members

variable (M : Members)

def holds (user : String) (permission : Permission) : Bool := (M user).any (·.allows permission)

def modify (user : String) (update : UserPermissions → UserPermissions) : Members :=
  Function.update M user ((M user).map update)

/-- **What a call does to the records** of a session without a user limit. -/
def after (owner : String) : Call → Members
  | .grantPermission _ user permission by' =>
    if M.holds by' .changeRoles then M.modify user (·.grant permission by') else M
  | .denyPermission _ user permission by' =>
    if M.holds by' .changeRoles then M.modify user (·.deny permission by') else M
  | .addUser _ user role by' =>
    if M.holds by' .inviteUsers then Function.update M user (some (.ofRole user role by')) else M
  | .removeUser _ user by' =>
    if M.holds by' .removeUsers ∧ owner ≠ user then Function.update M user none else M

theorem modify_none {user : String} {update : UserPermissions → UserPermissions}
    (h : M user = none) : M.modify user update = M := by
  rw [modify, h, Option.map_none, ← h, Function.update_eq_self]

end Members

namespace SessionPermissions

def members (sessionPerms : SessionPermissions) : Members := fun user ↦ sessionPerms.users[user]?

variable {sessionPerms : SessionPermissions} {user : String}

theorem members_insert (record : UserPermissions) :
    members { sessionPerms with users := sessionPerms.users.insert user record } =
      Function.update sessionPerms.members user (some record) := by
  funext v
  rw [Function.update_apply]
  exact OrderedMap.lookup_insert ..

theorem members_erase :
    members { sessionPerms with users := sessionPerms.users.erase user } =
      Function.update sessionPerms.members user none := by
  funext v
  rw [Function.update_apply]
  exact OrderedMap.lookup_erase ..

end SessionPermissions

namespace PermissionManager

variable {m : PermissionManager} {sessionId userId : String} {sessionPerms : SessionPermissions}
  {permission : Permission}

theorem session_eq_ok : m.session sessionId = .ok sessionPerms ↔
    m[sessionId]? = some sessionPerms := Except.ofOption_eq_ok

theorem checkPermission_eq_true :
    m.checkPermission sessionId userId permission = .ok true ↔
      ∃ sessionPerms, m[sessionId]? = some sessionPerms ∧
        sessionPerms.members.holds userId permission := by
  rw [checkPermission, Except.bind_eq_ok]
  refine exists_congr fun sessionPerms ↦ and_congr session_eq_ok ?_
  rw [Except.bind_eq_ok, Members.holds, Option.any_eq_true]
  refine exists_congr fun record ↦ and_congr Except.ofOption_eq_ok ?_
  exact ⟨fun h ↦ Except.ok.inj h, fun h ↦ congrArg Except.ok h⟩

theorem gate_eq_ok {u : Unit} :
    m.gate sessionId userId permission = .ok u ↔
      ∃ sessionPerms, m[sessionId]? = some sessionPerms ∧
        sessionPerms.members.holds userId permission := by
  rw [gate, Except.bind_eq_ok, ← checkPermission_eq_true]
  constructor
  · rintro ⟨allowed, hcheck, hallowed⟩
    rw [hcheck, ensure_eq_ok.mp hallowed]
  · intro h
    exact ⟨true, h, ensure_eq_ok.mpr rfl⟩

variable {m' : PermissionManager} {update : UserPermissions → UserPermissions} {role : Role}
  {by' : String}

theorem changeRecord_eq_ok : m.changeRecord sessionId userId update by' = .ok m' ↔
    ∃ sessionPerms, m[sessionId]? = some sessionPerms ∧
      sessionPerms.members.holds by' .changeRoles ∧
      ∃ record, sessionPerms.users[userId]? = some record ∧
        m' = m.insert sessionId { sessionPerms with
          users := sessionPerms.users.insert userId (update record) } := by
  rw [changeRecord, Except.bind_eq_ok]
  constructor
  · rintro ⟨_, hgate, h⟩
    obtain ⟨sessionPerms, hs, hholds⟩ := gate_eq_ok.mp hgate
    obtain ⟨sessionPerms', hs', h⟩ := Except.bind_eq_ok.mp h
    cases hs.symm.trans (session_eq_ok.mp hs')
    obtain ⟨record, hrecord, h⟩ := Except.bind_eq_ok.mp h
    cases h
    exact ⟨sessionPerms, hs, hholds, record, Except.ofOption_eq_ok.mp hrecord, rfl⟩
  · rintro ⟨sessionPerms, hs, hholds, record, hrecord, rfl⟩
    refine ⟨(), gate_eq_ok.mpr ⟨sessionPerms, hs, hholds⟩, ?_⟩
    refine Except.bind_eq_ok.mpr ⟨sessionPerms, session_eq_ok.mpr hs, ?_⟩
    exact Except.bind_eq_ok.mpr ⟨record, Except.ofOption_eq_ok.mpr hrecord, rfl⟩

theorem addUser_eq_ok : m.addUser sessionId userId role by' = .ok m' ↔
    ∃ sessionPerms, m[sessionId]? = some sessionPerms ∧
      sessionPerms.members.holds by' .inviteUsers ∧
      ¬ (0 < sessionPerms.maxUsers ∧ sessionPerms.maxUsers ≤ sessionPerms.users.size) ∧
      m' = m.insert sessionId { sessionPerms with
        users := sessionPerms.users.insert userId (.ofRole userId role by') } := by
  rw [addUser, Except.bind_eq_ok]
  refine exists_congr fun sessionPerms ↦ ?_
  rw [session_eq_ok]
  refine and_congr_right fun hs ↦ ?_
  rw [Except.bind_eq_ok]
  constructor
  · rintro ⟨_, hgate, h⟩
    obtain ⟨sessionPerms', hs', hholds⟩ := gate_eq_ok.mp hgate
    cases hs.symm.trans hs'
    obtain ⟨_, hroom, h⟩ := Except.bind_eq_ok.mp h
    cases h
    exact ⟨hholds, ensure_eq_ok.mp hroom, rfl⟩
  · rintro ⟨hholds, hroom, rfl⟩
    refine ⟨(), gate_eq_ok.mpr ⟨sessionPerms, hs, hholds⟩, ?_⟩
    exact Except.bind_eq_ok.mpr ⟨(), ensure_eq_ok.mpr hroom, rfl⟩

theorem removeUser_eq_ok : m.removeUser sessionId userId by' = .ok m' ↔
    ∃ sessionPerms, m[sessionId]? = some sessionPerms ∧
      sessionPerms.members.holds by' .removeUsers ∧ sessionPerms.owner ≠ userId ∧
      m' = m.insert sessionId { sessionPerms with users := sessionPerms.users.erase userId } := by
  rw [removeUser, Except.bind_eq_ok]
  refine exists_congr fun sessionPerms ↦ ?_
  rw [session_eq_ok]
  refine and_congr_right fun hs ↦ ?_
  rw [Except.bind_eq_ok]
  constructor
  · rintro ⟨_, hgate, h⟩
    obtain ⟨sessionPerms', hs', hholds⟩ := gate_eq_ok.mp hgate
    cases hs.symm.trans hs'
    obtain ⟨_, howner, h⟩ := Except.bind_eq_ok.mp h
    cases h
    exact ⟨hholds, ensure_eq_ok.mp howner, rfl⟩
  · rintro ⟨hholds, howner, rfl⟩
    refine ⟨(), gate_eq_ok.mpr ⟨sessionPerms, hs, hholds⟩, ?_⟩
    exact Except.bind_eq_ok.mpr ⟨(), ensure_eq_ok.mpr howner, rfl⟩

theorem call_written {c : Call} (h : m.call c = .ok m') :
    ∃ sessionPerms, m' = m.insert c.sessionId sessionPerms := by
  cases c with
  | grantPermission s user permission by' =>
    obtain ⟨sessionPerms, -, -, record, -, rfl⟩ := changeRecord_eq_ok.mp h
    exact ⟨_, rfl⟩
  | denyPermission s user permission by' =>
    obtain ⟨sessionPerms, -, -, record, -, rfl⟩ := changeRecord_eq_ok.mp h
    exact ⟨_, rfl⟩
  | addUser s user role by' =>
    obtain ⟨sessionPerms, -, -, -, rfl⟩ := addUser_eq_ok.mp h
    exact ⟨_, rfl⟩
  | removeUser s user by' =>
    obtain ⟨sessionPerms, -, -, -, rfl⟩ := removeUser_eq_ok.mp h
    exact ⟨_, rfl⟩

/-! ## A call as a rewriting of the table -/

/-- The manager serves a session of an owner, without a user limit, from a table of records. -/
def Serves (m : PermissionManager) (sessionId owner : String) (M : Members) : Prop :=
  ∃ sessionPerms : SessionPermissions, m[sessionId]? = some sessionPerms ∧
    sessionPerms.owner = owner ∧ sessionPerms.maxUsers = 0 ∧ sessionPerms.members = M

def created (owner : String) : Members :=
  Function.update (fun _ ↦ none) owner (some (.ofRole owner .owner "system"))

variable {owner : String} {M : Members}

theorem serves_created :
    (m.createSessionPermissions sessionId owner).2.Serves sessionId owner (created owner) := by
  refine ⟨_, Std.ExtTreeMap.getElem?_insert_self, rfl, rfl, ?_⟩
  funext user
  rw [created, Function.update_apply]
  exact (OrderedMap.lookup_insert ..).trans (by rw [Std.ExtTreeMap.getElem?_empty])

theorem settle_refused {result : Except SessionError PermissionManager}
    (h : ∀ m', result ≠ .ok m') : m.settle result = m := by
  rcases result with err | m'
  · rfl
  · exact absurd rfl (h m')

section

variable (h : m.Serves sessionId owner M)

include h

theorem Serves.checkPermission :
    m.checkPermission sessionId userId permission = .ok true ↔ M.holds userId permission := by
  obtain ⟨sessionPerms, hs, -, -, rfl⟩ := h
  rw [checkPermission_eq_true]
  constructor
  · rintro ⟨sessionPerms', hs', hholds⟩
    cases hs.symm.trans hs'
    exact hholds
  · intro hholds
    exact ⟨sessionPerms, hs, hholds⟩

theorem Serves.changeRecord :
    (m.settle (m.changeRecord sessionId userId update by')).Serves sessionId owner
      (if M.holds by' .changeRoles then M.modify userId update else M) := by
  obtain ⟨sessionPerms, hs, ho, hmax, rfl⟩ := h
  by_cases hok : ∃ m', m.changeRecord sessionId userId update by' = .ok m'
  · obtain ⟨m', hok⟩ := hok
    rw [hok]
    obtain ⟨sessionPerms', hs', hholds, record, hrecord, rfl⟩ := changeRecord_eq_ok.mp hok
    cases hs.symm.trans hs'
    refine ⟨_, Std.ExtTreeMap.getElem?_insert_self, ho, hmax, ?_⟩
    rw [if_pos hholds, SessionPermissions.members_insert, Members.modify,
      show sessionPerms.members userId = some record from hrecord, Option.map_some]
  · push Not at hok
    rw [settle_refused hok]
    refine ⟨sessionPerms, hs, ho, hmax, ?_⟩
    -- a holder was refused for want of a record to rewrite
    by_cases hholds : sessionPerms.members.holds by' .changeRoles
    · rw [if_pos hholds]
      cases hrecord : sessionPerms.users[userId]? with
      | none => exact (Members.modify_none _ hrecord).symm
      | some record =>
        exact absurd (changeRecord_eq_ok.mpr ⟨sessionPerms, hs, hholds, record, hrecord, rfl⟩)
          (hok _)
    · rw [if_neg hholds]

theorem Serves.addUser :
    (m.settle (m.addUser sessionId userId role by')).Serves sessionId owner
      (if M.holds by' .inviteUsers then Function.update M userId (some (.ofRole userId role by'))
        else M) := by
  obtain ⟨sessionPerms, hs, ho, hmax, rfl⟩ := h
  by_cases hholds : sessionPerms.members.holds by' .inviteUsers
  · rw [if_pos hholds, addUser_eq_ok.mpr ⟨sessionPerms, hs, hholds, by omega, rfl⟩]
    exact ⟨_, Std.ExtTreeMap.getElem?_insert_self, ho, hmax, SessionPermissions.members_insert _⟩
  · rw [if_neg hholds, settle_refused]
    · exact ⟨sessionPerms, hs, ho, hmax, rfl⟩
    · intro m' hok
      obtain ⟨sessionPerms', hs', hholds', -⟩ := addUser_eq_ok.mp hok
      cases hs.symm.trans hs'
      exact hholds hholds'

theorem Serves.removeUser :
    (m.settle (m.removeUser sessionId userId by')).Serves sessionId owner
      (if M.holds by' .removeUsers ∧ owner ≠ userId then Function.update M userId none
        else M) := by
  obtain ⟨sessionPerms, hs, rfl, hmax, rfl⟩ := h
  by_cases hok : sessionPerms.members.holds by' .removeUsers ∧ sessionPerms.owner ≠ userId
  · rw [if_pos hok, removeUser_eq_ok.mpr ⟨sessionPerms, hs, hok.1, hok.2, rfl⟩]
    exact ⟨_, Std.ExtTreeMap.getElem?_insert_self, rfl, hmax, SessionPermissions.members_erase⟩
  · rw [if_neg hok, settle_refused]
    · exact ⟨sessionPerms, hs, rfl, hmax, rfl⟩
    · intro m' hok'
      obtain ⟨sessionPerms', hs', hholds, howner, -⟩ := removeUser_eq_ok.mp hok'
      cases hs.symm.trans hs'
      exact hok ⟨hholds, howner⟩

/-- **One call**: the table of its own session is rewritten as `Members.after` says. -/
theorem Serves.next (c : Call) :
    (m.next c).Serves sessionId owner
      (if c.sessionId = sessionId then M.after owner c else M) := by
  by_cases hc : c.sessionId = sessionId
  · rw [if_pos hc]
    cases c <;> subst hc
    · exact h.changeRecord
    · exact h.changeRecord
    · exact h.addUser
    · exact h.removeUser
  · rw [if_neg hc, PermissionManager.next]
    rcases hcall : m.call c with err | m'
    · exact h
    · obtain ⟨sessionPerms', rfl⟩ := call_written hcall
      obtain ⟨sessionPerms, hs, hrest⟩ := h
      refine ⟨sessionPerms, ?_, hrest⟩
      exact (OrderedMap.lookup_insert ..).trans ((if_neg (Ne.symm hc)).trans hs)

end

end PermissionManager

end Permissions

end RosheraCad
