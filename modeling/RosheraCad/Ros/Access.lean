import RosheraCad.Library.OrderedMap
import Mathlib.Data.Finset.Basic

/-!
# Access control of a file's resources

A resource has a list of entries, each naming a principal, the levels it grants and their
constraints. One call decides whether a level is reached, the other collects the levels a context
has. They differ in when they fall back on the default level.
-/

namespace RosheraCad

namespace Access

/-! ## Levels, principals and constraints -/

inductive AccessLevel
  | thumbnails
  | view
  | measure
  | modify
  | admin
  | owner
  deriving DecidableEq

def AccessLevel.toNat : AccessLevel → ℕ
  | .thumbnails => 0
  | .view => 1
  | .measure => 2
  | .modify => 3
  | .admin => 4
  | .owner => 5

def AccessLevel.canPerform (level required : AccessLevel) : Bool :=
  decide (required.toNat ≤ level.toNat)

structure UserContext where
  userId : String
  roles : Finset String
  groups : Finset String
  mfaVerified : Bool
  serviceAccount : Option String

structure AccessContext where
  user : UserContext
  timestamp : UInt64

inductive Principal
  | user (id : String)
  | role (role : String)
  | group (group : String)
  | service (service : String)
  | anyone
  deriving DecidableEq

def Principal.matches : Principal → UserContext → Bool
  | .user id, who => decide (who.userId = id)
  | .role r, who => decide (r ∈ who.roles)
  | .group g, who => decide (g ∈ who.groups)
  | .service s, who => decide (who.serviceAccount = some s)
  | .anyone, _ => true

inductive Constraint
  | timeWindow (start stop : UInt64)
  | mfaRequired
  deriving DecidableEq

def Constraint.evaluate : Constraint → AccessContext → Bool
  | .timeWindow start stop, context =>
    decide (start ≤ context.timestamp ∧ context.timestamp ≤ stop)
  | .mfaRequired, context => context.user.mfaVerified

/-! ## Entries -/

structure AccessControlEntry where
  principal : Principal
  permissions : Finset AccessLevel
  constraints : List Constraint
  expiresAt : Option UInt64

namespace AccessControlEntry

def isExpired (entry : AccessControlEntry) (now : UInt64) : Bool :=
  match entry.expiresAt with
  | none => false
  | some stop => decide (stop < now)

/-- An entry applies to a context whose user it names and which meets its constraints, until it
expires. -/
def AppliesTo (entry : AccessControlEntry) (context : AccessContext) : Prop :=
  entry.isExpired context.timestamp = false ∧ entry.principal.matches context.user = true ∧
    ∀ c ∈ entry.constraints, c.evaluate context = true

instance (entry : AccessControlEntry) (context : AccessContext) :
    Decidable (entry.AppliesTo context) :=
  inferInstanceAs (Decidable (_ ∧ _ ∧ _))

end AccessControlEntry

/-! ## The manager -/

inductive AccessError
  | constraintViolation (constraintType details : String)
  deriving DecidableEq

structure AccessControlManager where
  acl : OrderedMap String (List AccessControlEntry)
  defaultLevel : AccessLevel

namespace AccessControlManager

/-- A manager without entries, whose default level is the lowest. -/
def new : AccessControlManager where
  acl := ∅
  defaultLevel := .thumbnails

def withDefaultLevel (m : AccessControlManager) (level : AccessLevel) : AccessControlManager :=
  { m with defaultLevel := level }

/-- Add an entry for a resource. `now` is the reading of the clock. -/
def grantAccess (m : AccessControlManager) (now : UInt64) (resource : String)
    (entry : AccessControlEntry) : Except AccessError AccessControlManager :=
  if entry.isExpired now = true then
    .error (.constraintViolation "expiration" "Cannot grant already expired access")
  else
    .ok { m with acl := m.acl.insert resource ((m.acl[resource]?.getD []) ++ [entry]) }

def revokeAccess (m : AccessControlManager) (resource : String) (principal : Principal) :
    AccessControlManager × Bool :=
  match m.acl[resource]? with
  | some entries =>
    let kept := entries.filter fun e ↦ decide (e.principal ≠ principal)
    ({ m with acl := m.acl.insert resource kept }, decide (kept.length < entries.length))
  | none => (m, false)

/-- The first entry that grants access ends the scan, and then the default level decides. -/
def checkAccess (m : AccessControlManager) (resource : String) (requiredLevel : AccessLevel)
    (context : AccessContext) : Bool :=
  match m.acl[resource]? with
  | none => m.defaultLevel.canPerform requiredLevel
  | some entries =>
    entries.any (fun entry ↦
      !entry.isExpired context.timestamp && entry.principal.matches context.user &&
        decide (∃ p ∈ entry.permissions, p.canPerform requiredLevel = true) &&
        entry.constraints.all fun c ↦ c.evaluate context) ||
      m.defaultLevel.canPerform requiredLevel

def getEffectivePermissions (m : AccessControlManager) (resource : String)
    (context : AccessContext) : Finset AccessLevel :=
  let permissions : Finset AccessLevel :=
    match m.acl[resource]? with
    | some entries =>
      entries.foldl (fun permissions entry ↦
        if !entry.isExpired context.timestamp && entry.principal.matches context.user &&
            entry.constraints.all fun c ↦ c.evaluate context then
          permissions ∪ entry.permissions
        else permissions) ∅
    | none => ∅
  if permissions = ∅ then {m.defaultLevel} else permissions

end AccessControlManager

/-! ## What the entries grant -/

/-- A level that some entry of the resource grants and whose entry applies to the context. -/
def AccessControlManager.Granted (m : AccessControlManager) (resource : String)
    (context : AccessContext) (level : AccessLevel) : Prop :=
  ∃ entry ∈ m.acl[resource]?.getD [], entry.AppliesTo context ∧ level ∈ entry.permissions

section Read

variable {m : AccessControlManager} {resource : String} {required : AccessLevel}
  {context : AccessContext} {level : AccessLevel}

private theorem appliesTo_iff_and {entry : AccessControlEntry} :
    (!entry.isExpired context.timestamp && entry.principal.matches context.user &&
      entry.constraints.all fun c ↦ c.evaluate context) = true ↔ entry.AppliesTo context := by
  rw [Bool.and_eq_true, Bool.and_eq_true, Bool.not_eq_true', List.all_eq_true, and_assoc,
    AccessControlEntry.AppliesTo]

theorem checkAccess_iff :
    m.checkAccess resource required context = true ↔
      (∃ level, m.Granted resource context level ∧ level.canPerform required = true) ∨
        m.defaultLevel.canPerform required = true := by
  rw [AccessControlManager.checkAccess]
  rcases hacl : m.acl[resource]? with _ | entries
  · refine ⟨.inr, ?_⟩
    rintro (⟨level, ⟨entry, hentry, -⟩, -⟩ | hdefault)
    · rw [hacl] at hentry
      cases hentry
    · exact hdefault
  · show (_ || _) = true ↔ _
    rw [Bool.or_eq_true, List.any_eq_true]
    refine or_congr_left ⟨?_, ?_⟩
    · rintro ⟨entry, hentry, h⟩
      rw [Bool.and_right_comm, Bool.and_eq_true, appliesTo_iff_and, decide_eq_true_iff] at h
      obtain ⟨happlies, level, hlevel, hreaches⟩ := h
      exact ⟨level, ⟨entry, by rw [hacl]; exact hentry, happlies, hlevel⟩, hreaches⟩
    · rintro ⟨level, ⟨entry, hentry, happlies, hlevel⟩, hreaches⟩
      rw [hacl] at hentry
      refine ⟨entry, hentry, ?_⟩
      rw [Bool.and_right_comm, Bool.and_eq_true, appliesTo_iff_and, decide_eq_true_iff]
      exact ⟨happlies, level, hlevel, hreaches⟩

private theorem mem_foldl_permissions {entries : List AccessControlEntry}
    {init : Finset AccessLevel} :
    level ∈ entries.foldl (fun permissions entry ↦
        if !entry.isExpired context.timestamp && entry.principal.matches context.user &&
            entry.constraints.all fun c ↦ c.evaluate context then
          permissions ∪ entry.permissions
        else permissions) init ↔
      level ∈ init ∨ ∃ entry ∈ entries, entry.AppliesTo context ∧ level ∈ entry.permissions := by
  induction entries generalizing init with
  | nil => simp
  | cons entry entries ih =>
    rw [List.foldl_cons, ih, List.exists_mem_cons_iff, ← or_assoc]
    refine or_congr_left ?_
    by_cases happlies : entry.AppliesTo context
    · rw [if_pos (appliesTo_iff_and.mpr happlies), Finset.mem_union]
      exact or_congr_right ⟨fun h ↦ ⟨happlies, h⟩, And.right⟩
    · rw [if_neg (mt appliesTo_iff_and.mp happlies)]
      exact ⟨.inl, fun h ↦ h.resolve_right fun h' ↦ happlies h'.1⟩

theorem mem_getEffectivePermissions_iff :
    level ∈ m.getEffectivePermissions resource context ↔
      m.Granted resource context level ∨
        (∀ l, ¬ m.Granted resource context l) ∧ level = m.defaultLevel := by
  -- the collected levels before the fallback are those granted
  obtain ⟨permissions, hmem, heq⟩ : ∃ permissions : Finset AccessLevel,
      (∀ l, l ∈ permissions ↔ m.Granted resource context l) ∧
        m.getEffectivePermissions resource context =
          if permissions = ∅ then {m.defaultLevel} else permissions := by
    refine ⟨_, fun l ↦ ?_, rfl⟩
    rw [AccessControlManager.Granted]
    rcases m.acl[resource]? with _ | entries
    · simp
    · show l ∈ List.foldl _ _ _ ↔ _
      rw [mem_foldl_permissions]
      simp
  rw [heq]
  by_cases hempty : permissions = ∅
  · have hnone : ∀ l, ¬ m.Granted resource context l := by
      intro l hl
      rw [← hmem, hempty] at hl
      exact Finset.notMem_empty l hl
    rw [if_pos hempty, Finset.mem_singleton]
    exact ⟨fun h ↦ .inr ⟨hnone, h⟩, fun h ↦ (h.resolve_left (hnone level)).2⟩
  · obtain ⟨l, hl⟩ := Finset.nonempty_iff_ne_empty.mpr hempty
    rw [if_neg hempty, hmem]
    exact ⟨.inl, fun h ↦ h.resolve_right fun h' ↦ h'.1 l ((hmem l).mp hl)⟩

theorem checkAccess_of_effective (hmem : level ∈ m.getEffectivePermissions resource context)
    (hreaches : level.canPerform required = true) :
    m.checkAccess resource required context = true := by
  rw [checkAccess_iff]
  rcases mem_getEffectivePermissions_iff.mp hmem with hgranted | ⟨-, rfl⟩
  · exact .inl ⟨level, hgranted, hreaches⟩
  · exact .inr hreaches

end Read

section Write

variable {m m' : AccessControlManager} {now : UInt64} {resource : String}
  {entry : AccessControlEntry}

end Write

/-- **The decision and the collection agree** exactly when the default level falls short of the
requirement, or no applicable entry grants any level, or one grants enough. -/
theorem checkAccess_iff_exists_effective_iff (m : AccessControlManager) (resource : String)
    (required : AccessLevel) (context : AccessContext) :
    (m.checkAccess resource required context = true ↔
        ∃ level ∈ m.getEffectivePermissions resource context, level.canPerform required = true) ↔
      (m.defaultLevel.canPerform required = true →
        (∀ level, ¬ m.Granted resource context level) ∨
          ∃ level, m.Granted resource context level ∧ level.canPerform required = true) := by
  constructor
  · intro hagree hdefault
    obtain ⟨level, hmem, hreaches⟩ := hagree.mp (checkAccess_iff.mpr (.inr hdefault))
    rcases mem_getEffectivePermissions_iff.mp hmem with hgranted | ⟨hnone, -⟩
    · exact .inr ⟨level, hgranted, hreaches⟩
    · exact .inl hnone
  · intro hcond
    refine ⟨fun hcheck ↦ ?_, fun ⟨level, hmem, hreaches⟩ ↦ checkAccess_of_effective hmem hreaches⟩
    -- a decision by the default level is a decision by a grant, or nothing is granted
    have hcases : (∃ level, m.Granted resource context level ∧ level.canPerform required = true) ∨
        (∀ level, ¬ m.Granted resource context level) ∧
          m.defaultLevel.canPerform required = true := by
      rcases checkAccess_iff.mp hcheck with hgranted | hdefault
      · exact .inl hgranted
      · rcases hcond hdefault with hnone | hgranted
        · exact .inr ⟨hnone, hdefault⟩
        · exact .inl hgranted
    rcases hcases with ⟨level, hgranted, hreaches⟩ | ⟨hnone, hreaches⟩
    · exact ⟨level, mem_getEffectivePermissions_iff.mpr (.inl hgranted), hreaches⟩
    · exact ⟨m.defaultLevel, mem_getEffectivePermissions_iff.mpr (.inr ⟨hnone, rfl⟩), hreaches⟩

/-- Under a default level of `Admin`, an entry that grants `View` lowers the collection and not the
decision. -/
theorem checkAccess_above_effective :
    ∃ m context,
      (AccessControlManager.new.withDefaultLevel .admin).grantAccess 1000 "GEOM"
          { principal := .user "alice", permissions := {.view}, constraints := []
            expiresAt := none } = .ok m ∧
        ¬ (m.checkAccess "GEOM" .modify context = true ↔
          ∃ level ∈ m.getEffectivePermissions "GEOM" context,
            level.canPerform .modify = true) := by
  refine ⟨_, { user := { userId := "alice", roles := ∅, groups := ∅, mfaVerified := false
                         serviceAccount := none }
               timestamp := 2000 }, rfl, ?_⟩
  decide

end Access

end RosheraCad
