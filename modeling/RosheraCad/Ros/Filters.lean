import RosheraCad.Ros.AuditLog
import RosheraCad.Ros.Commands

/-!
# Filtered queries

A query keeps the entries no consulted criterion turns away, in order. Neither query consults every
criterion: the types of events and the affected objects are not looked at.
-/

namespace RosheraCad

/-! ## A criterion that is not consulted -/

section Unconsulted

variable {A : Type*} {p q : A → Bool}

/-- Cut to `n`, what passes `p` also passes `q` exactly when all that passes `p` ahead of the cut
does. -/
theorem take_filter_eq_iff {l : List A} {n : ℕ} :
    (l.filter p).take n = (l.filter fun a ↦ p a && q a).take n ↔
      ∀ before a after, l = before ++ a :: after → p a = true → before.countP p < n →
        q a = true := by
  induction l generalizing n with
  | nil => simp
  | cons b l ih =>
    by_cases hp : p b = true
    · cases n with
      | zero => simp
      | succ n =>
        by_cases hq : q b = true
        · rw [List.filter_cons_of_pos hp, List.filter_cons_of_pos (by simp [hp, hq]),
            List.take_succ_cons, List.take_succ_cons, List.cons_inj_right, ih]
          constructor
          · rintro h (_ | ⟨c, before⟩) a after heq ha hlt
            · cases heq
              exact hq
            · cases heq
              rw [List.countP_cons_of_pos hp] at hlt
              exact h before a after rfl ha (Nat.lt_of_succ_lt_succ hlt)
          · intro h before a after heq ha hlt
            refine h (b :: before) a after (by rw [heq, List.cons_append]) ha ?_
            rw [List.countP_cons_of_pos hp]
            exact Nat.succ_lt_succ hlt
        · -- the item is first on one side and missing from the other
          refine iff_of_false (fun heq ↦ hq ?_) fun h ↦ hq (h [] b l rfl hp n.succ_pos)
          have hmem : b ∈ ((b :: l).filter p).take (n + 1) := by
            rw [List.filter_cons_of_pos hp, List.take_succ_cons]
            exact List.mem_cons_self
          rw [heq] at hmem
          have hboth := (List.mem_filter.mp (List.mem_of_mem_take hmem)).2
          rw [Bool.and_eq_true] at hboth
          exact hboth.2
    · rw [List.filter_cons_of_neg hp, List.filter_cons_of_neg (by simp [hp]), ih]
      constructor
      · rintro h (_ | ⟨c, before⟩) a after heq ha hlt
        · cases heq
          exact absurd ha hp
        · cases heq
          rw [List.countP_cons_of_neg hp] at hlt
          exact h before a after rfl ha hlt
      · intro h before a after heq ha hlt
        refine h (b :: before) a after (by rw [heq, List.cons_append]) ha ?_
        rw [List.countP_cons_of_neg hp]
        exact hlt

theorem filter_eq_iff {l : List A} :
    l.filter p = (l.filter fun a ↦ p a && q a) ↔ ∀ a ∈ l, p a = true → q a = true := by
  constructor
  · intro heq a ha hp
    have hmem : a ∈ l.filter p := List.mem_filter.mpr ⟨ha, hp⟩
    rw [heq] at hmem
    have hboth := (List.mem_filter.mp hmem).2
    rw [Bool.and_eq_true] at hboth
    exact hboth.2
  · intro h
    refine List.filter_congr fun a ha ↦ ?_
    by_cases hp : p a = true
    · rw [hp, h a ha hp]
      rfl
    · rw [Bool.not_eq_true] at hp
      rw [hp, Bool.false_and]

end Unconsulted

instance (priority := 2000) decidableCriterion {A : Type*} {o : Option A} {p : A → Prop}
    [DecidablePred p] : Decidable (∀ a ∈ o, p a) :=
  Option.decidableForallMem o

/-! ## The audit log -/

/-- Query filter for audit logs. -/
structure AuditFilter where
  startTime : Option UInt64
  endTime : Option UInt64
  userId : Option String
  severityMin : Option AuditSeverity
  eventTypes : Option (List String)
  limit : Option ℕ

def AuditEvent.typeName : AuditEvent → String
  | .accessGranted .. => "AccessGranted"
  | .accessDenied .. => "AccessDenied"
  | .accessRevoked .. => "AccessRevoked"
  | .chunkEncrypted .. => "ChunkEncrypted"
  | .chunkDecrypted .. => "ChunkDecrypted"
  | .keyRotation .. => "KeyRotation"
  | .fileCreated .. => "FileCreated"
  | .fileOpened .. => "FileOpened"
  | .fileSigned .. => "FileSigned"
  | .fileExported .. => "FileExported"
  | .aiCommandExecuted .. => "AICommandExecuted"
  | .aiTrackingEnabled .. => "AITrackingEnabled"
  | .authenticationFailed .. => "AuthenticationFailed"
  | .suspiciousActivity .. => "SuspiciousActivity"
  | .configurationChanged .. => "ConfigurationChanged"

namespace AuditFilter

/-- An entry meets the criteria on the times, the user and the severity. -/
def InScope (filter : AuditFilter) (e : AuditEntry) : Prop :=
  (∀ start ∈ filter.startTime, start ≤ e.timestamp) ∧
    (∀ stop ∈ filter.endTime, e.timestamp ≤ stop) ∧
    (∀ user ∈ filter.userId, e.userId = some user) ∧
    ∀ least ∈ filter.severityMin, least.toNat ≤ e.severity.toNat

def HasType (filter : AuditFilter) (e : AuditEntry) : Prop :=
  ∀ types ∈ filter.eventTypes, e.event.typeName ∈ types

/-- An entry satisfies every criterion set. -/
def Satisfied (filter : AuditFilter) (e : AuditEntry) : Prop := filter.InScope e ∧ filter.HasType e

instance (filter : AuditFilter) (e : AuditEntry) : Decidable (filter.InScope e) :=
  inferInstanceAs (Decidable (_ ∧ _ ∧ _ ∧ _))

instance (filter : AuditFilter) (e : AuditEntry) : Decidable (filter.HasType e) :=
  inferInstanceAs (Decidable (∀ types ∈ filter.eventTypes, e.event.typeName ∈ types))

instance (filter : AuditFilter) (e : AuditEntry) : Decidable (filter.Satisfied e) :=
  inferInstanceAs (Decidable (_ ∧ _))

def cut (filter : AuditFilter) (results : List AuditEntry) : List AuditEntry :=
  match filter.limit with
  | some limit => results.take limit
  | none => results

/-- Every entry in scope that has fewer than the limit ahead of it is of a type asked for. -/
def TypesHold (filter : AuditFilter) (entries : List AuditEntry) : Prop :=
  ∀ before e after, entries = before ++ e :: after → filter.InScope e →
    (∀ limit ∈ filter.limit, (before.countP fun e ↦ decide (filter.InScope e)) < limit) →
    filter.HasType e

end AuditFilter

def SecurityAuditLog.query (log : SecurityAuditLog) (filter : AuditFilter) : List AuditEntry :=
  filter.cut (log.entries.filter fun e ↦
    filter.startTime.all (fun start ↦ !decide (e.timestamp < start)) &&
      filter.endTime.all (fun stop ↦ !decide (stop < e.timestamp)) &&
      filter.userId.all (fun user ↦ !decide (e.userId ≠ some user)) &&
      filter.severityMin.all fun least ↦ !decide (e.severity.toNat < least.toNat))

theorem query_eq {log : SecurityAuditLog} {filter : AuditFilter} :
    log.query filter = filter.cut (log.entries.filter fun e ↦ decide (filter.InScope e)) := by
  rw [SecurityAuditLog.query]
  refine congrArg filter.cut (List.filter_congr fun e _ ↦ ?_)
  rw [Bool.eq_iff_iff, decide_eq_true_iff, AuditFilter.InScope]
  simp [Option.all_eq_true, and_assoc]

/-- **A query of the log honours its filter** exactly when the types turn away nothing it has room
for. -/
theorem query_eq_iff {log : SecurityAuditLog} {filter : AuditFilter} :
    log.query filter = filter.cut (log.entries.filter fun e ↦ decide (filter.Satisfied e)) ↔
      filter.TypesHold log.entries := by
  have hsatisfied : (fun e ↦ decide (filter.Satisfied e)) =
      fun e ↦ decide (filter.InScope e) && decide (filter.HasType e) := by
    funext e
    rw [← Bool.decide_and]
    rfl
  rw [query_eq, hsatisfied, AuditFilter.cut, AuditFilter.cut, AuditFilter.TypesHold]
  rcases filter.limit with _ | limit
  · dsimp only
    rw [filter_eq_iff]
    simp only [decide_eq_true_iff]
    constructor
    · intro h before e after heq he _
      exact h e (by rw [heq]; exact List.mem_append_right _ List.mem_cons_self) he
    · intro h e hmem he
      obtain ⟨before, after, heq⟩ := List.append_of_mem hmem
      exact h before e after heq he nofun
  · dsimp only
    rw [take_filter_eq_iff]
    simp

/-! ## The command tracker -/

/-- Filter for querying AI commands. -/
structure CommandFilter where
  commandTypes : Option (List CommandType)
  startTime : Option UInt64
  endTime : Option UInt64
  sessionId : Option UInt64
  tags : Option (List String)
  minConfidence : Option F32
  affectedObjects : Option (List String)

def AICommand.matchesFilter (c : AICommand) (filter : CommandFilter) : Bool :=
  filter.commandTypes.all (fun types ↦ decide (c.commandType ∈ types)) &&
    filter.startTime.all (fun start ↦ !decide (c.timestamp < start)) &&
    filter.endTime.all (fun stop ↦ !decide (stop < c.timestamp)) &&
    filter.sessionId.all (fun session ↦ !decide (c.sessionId ≠ session)) &&
    filter.tags.all (fun tags ↦ tags.any fun tag ↦ decide (tag ∈ c.tags)) &&
    filter.minConfidence.all fun least ↦ !decide (c.confidence < least)

def AICommandTracker.queryCommands (t : AICommandTracker AICommand) (filter : CommandFilter) :
    List AICommand :=
  t.commands.filter fun c ↦ c.matchesFilter filter

variable {filter : CommandFilter}

namespace CommandFilter

/-- A command meets the criteria on type, times and session, has a tag asked for, and is not below
the confidence threshold. -/
def InScope (filter : CommandFilter) (c : AICommand) : Prop :=
  (∀ types ∈ filter.commandTypes, c.commandType ∈ types) ∧
    (∀ start ∈ filter.startTime, start ≤ c.timestamp) ∧
    (∀ stop ∈ filter.endTime, c.timestamp ≤ stop) ∧
    (∀ session ∈ filter.sessionId, c.sessionId = session) ∧
    (∀ tags ∈ filter.tags, ∃ tag ∈ tags, tag ∈ c.tags) ∧
    ∀ least ∈ filter.minConfidence, ¬ c.confidence < least

def Confident (filter : CommandFilter) (c : AICommand) : Prop :=
  ∀ least ∈ filter.minConfidence, least ≤ c.confidence

def Affects (filter : CommandFilter) (c : AICommand) : Prop :=
  ∀ objects ∈ filter.affectedObjects, ∃ object ∈ objects, object ∈ c.affectedObjects

/-- A command satisfies every criterion set. -/
def Satisfied (filter : CommandFilter) (c : AICommand) : Prop :=
  (∀ types ∈ filter.commandTypes, c.commandType ∈ types) ∧
    (∀ start ∈ filter.startTime, start ≤ c.timestamp) ∧
    (∀ stop ∈ filter.endTime, c.timestamp ≤ stop) ∧
    (∀ session ∈ filter.sessionId, c.sessionId = session) ∧
    (∀ tags ∈ filter.tags, ∃ tag ∈ tags, tag ∈ c.tags) ∧
    filter.Confident c ∧ filter.Affects c

instance (filter : CommandFilter) (c : AICommand) : Decidable (filter.InScope c) :=
  inferInstanceAs (Decidable (_ ∧ _ ∧ _ ∧ _ ∧ _ ∧ _))

instance (filter : CommandFilter) (c : AICommand) : Decidable (filter.Confident c) :=
  inferInstanceAs (Decidable (∀ least ∈ filter.minConfidence, least ≤ c.confidence))

instance (filter : CommandFilter) (c : AICommand) : Decidable (filter.Affects c) :=
  inferInstanceAs (Decidable
    (∀ objects ∈ filter.affectedObjects, ∃ object ∈ objects, object ∈ c.affectedObjects))

instance (filter : CommandFilter) (c : AICommand) : Decidable (filter.Satisfied c) :=
  inferInstanceAs (Decidable (_ ∧ _ ∧ _ ∧ _ ∧ _ ∧ _ ∧ _))

theorem satisfied_iff {c : AICommand} :
    filter.Satisfied c ↔ filter.InScope c ∧ filter.Confident c ∧ filter.Affects c := by
  have hbelow : filter.Confident c → ∀ least ∈ filter.minConfidence, ¬ c.confidence < least :=
    fun h least hleast ↦ (F32.le_iff_not_lt.mp (h least hleast)).1
  rw [Satisfied, InScope]
  tauto

theorem confident_iff {c : AICommand} (h : filter.InScope c) :
    filter.Confident c ↔
      ∀ least ∈ filter.minConfidence, ¬ c.confidence.IsNaN ∧ ¬ least.IsNaN := by
  constructor
  · exact fun hc least hleast ↦ (F32.le_iff_not_lt.mp (hc least hleast)).2
  · intro hnumber least hleast
    exact F32.le_iff_not_lt.mpr ⟨h.2.2.2.2.2 least hleast, hnumber least hleast⟩

/-- Every command in scope affects one of the objects, and its confidence and the threshold are
numbers. -/
def RestHolds (filter : CommandFilter) (commands : List AICommand) : Prop :=
  ∀ c ∈ commands, filter.InScope c →
    (∀ least ∈ filter.minConfidence, ¬ c.confidence.IsNaN ∧ ¬ least.IsNaN) ∧ filter.Affects c

end CommandFilter

theorem matchesFilter_iff {c : AICommand} :
    c.matchesFilter filter = true ↔ filter.InScope c := by
  rw [CommandFilter.InScope]
  simp [AICommand.matchesFilter, Option.all_eq_true, and_assoc]

/-- **A query of the commands honours its filter** exactly when what it leaves out turns away
nothing. -/
theorem queryCommands_eq_iff {t : AICommandTracker AICommand} :
    t.queryCommands filter = t.commands.filter (fun c ↦ decide (filter.Satisfied c)) ↔
      filter.RestHolds t.commands := by
  have hsatisfied : (fun c ↦ decide (filter.Satisfied c)) = fun c ↦
      c.matchesFilter filter && decide (filter.Confident c ∧ filter.Affects c) := by
    funext c
    rw [Bool.eq_iff_iff, Bool.and_eq_true, decide_eq_true_iff, decide_eq_true_iff,
      matchesFilter_iff, CommandFilter.satisfied_iff]
  rw [AICommandTracker.queryCommands, hsatisfied, filter_eq_iff, CommandFilter.RestHolds]
  refine forall₂_congr fun c _ ↦ ?_
  rw [matchesFilter_iff, decide_eq_true_iff]
  exact forall_congr' fun h ↦ and_congr_left' (CommandFilter.confident_iff h)

/-- **Filtered queries honour every criterion** exactly when every entry the limit leaves room for
is of a type asked for, and every command in scope affects an object asked for, with numbers for
confidence and threshold. -/
theorem query_and_queryCommands_iff (log : SecurityAuditLog) (auditFilter : AuditFilter)
    (t : AICommandTracker AICommand) (filter : CommandFilter) :
    (log.query auditFilter =
        auditFilter.cut (log.entries.filter fun e ↦ decide (auditFilter.Satisfied e)) ∧
      t.queryCommands filter = t.commands.filter fun c ↦ decide (filter.Satisfied c)) ↔
      auditFilter.TypesHold log.entries ∧ filter.RestHolds t.commands :=
  and_congr query_eq_iff queryCommands_eq_iff

/-- Failed authentications are asked of three grants, and what affects a sphere of two commands on a
cube. -/
theorem query_ignores_types :
    letI := exampleAuditJson
    letI := exampleSha2
    letI : Anonymizer := ⟨id⟩
    ∃ (auditFilter : AuditFilter) (t : AICommandTracker AICommand) (filter : CommandFilter),
      AICommandTracker.exampleRun = some t ∧
        (exampleLog 3).1.query auditFilter ≠
          auditFilter.cut ((exampleLog 3).1.entries.filter fun e ↦
            decide (auditFilter.Satisfied e)) ∧
        t.queryCommands filter ≠ t.commands.filter fun c ↦ decide (filter.Satisfied c) := by
  let := exampleAuditJson
  let := exampleSha2
  let : Anonymizer := ⟨id⟩
  let sphere : CommandFilter := ⟨none, none, none, none, none, none, some ["sphere"]⟩
  have hrun : (AICommandTracker.exampleRun.map fun t ↦ ((t.queryCommands sphere).length,
      (t.commands.filter fun c ↦ decide (sphere.Satisfied c)).length)) = some (2, 0) := by
    decide +kernel
  obtain ⟨t, ht, hlengths⟩ := Option.map_eq_some_iff.mp hrun
  refine ⟨⟨none, none, none, none, some ["AuthenticationFailed"], none⟩, t, sphere, ht, fun h ↦ ?_,
    fun h ↦ ?_⟩
  · have hlength := congrArg List.length h
    revert hlength
    decide +kernel
  · obtain ⟨hquery, hsatisfied⟩ := Prod.mk.inj hlengths
    rw [h, hsatisfied] at hquery
    cases hquery

end RosheraCad
