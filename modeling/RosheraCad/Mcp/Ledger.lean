import RosheraCad.Mcp.Program

/-!
# The ledger of a program

The ledger is true of the handlers that were called: which of them, in which order and with what,
and how each ended. This is proved along the execution, operation by operation.

That a placeholder is replaced by an own field of an earlier result holds exactly where no operation
takes anything from a prototype.
-/

namespace RosheraCad

namespace CadProgram

variable {B P : Type} (realm : Realm B) (table : ToolTable B P) (outcome : ℕ → Outcome)

/-! ## What is promised -/

def Outcome.succeeded : Outcome → Bool
  | .returned result => !result.isError
  | .threw _ => false

/-- The parsed JSON of what a handler returned. -/
def Outcome.json : Outcome → Option Json
  | .returned result => firstJsonOf realm result
  | .threw _ => none

def resultsBefore (i : ℕ) : List (Option Json) :=
  (List.range i).map fun t ↦ (outcome t).json realm

def Accepts (p : Program) (i : ℕ) (parsed : P) : Prop :=
  ∃ op args entry, p.ops[i]? = some op ∧
    substitutePlaceholders realm i (resultsBefore realm outcome i) op.raw = .ok args ∧
      table.get op.tool = some entry ∧ entry.schema args = .ok parsed

/-- An operation is resolved, validated and run without an error. -/
def Completes (p : Program) (i : ℕ) : Prop :=
  (∃ parsed, Accepts realm table outcome p i parsed) ∧ (outcome i).succeeded = true

/-- An operation is attempted: validation found nothing, and all operations before complete. -/
def Reaches (p : Program) (i : ℕ) : Prop :=
  validationIssues realm table p = [] ∧ i < p.ops.length ∧
    ∀ j < i, Completes realm table outcome p j

namespace Reply

def ledger : Reply B → List (LedgerEntry B)
  | .refused _ => []
  | .ran report => report.ops

def completed : Reply B → ℕ
  | .refused report => report.executed
  | .ran report => report.completed

def stoppedAt : Reply B → Option ℕ
  | .refused _ => none
  | .ran report => report.stoppedAt

end Reply

structure LedgerTrue (p : Program) (reply : Reply B) (calls : List (HandlerCall P)) : Prop where
  refused : validationIssues realm table p ≠ [] → calls = []
  calls_order : calls.map HandlerCall.index = List.range calls.length
  calls_accepted : ∀ c ∈ calls, Accepts realm table outcome p c.index c.args ∧
    (p.ops[c.index]?).map Op.tool = some c.tool
  called_iff : ∀ i, i < calls.length ↔
    Reaches realm table outcome p i ∧ ∃ parsed, Accepts realm table outcome p i parsed
  ledger_order : reply.ledger.map LedgerEntry.index = List.range reply.ledger.length
  ledger_tools : ∀ e ∈ reply.ledger, (p.ops[e.index]?).map Op.tool = some e.tool
  attempted_iff : ∀ i, i < reply.ledger.length ↔ Reaches realm table outcome p i
  ok_iff : ∀ e ∈ reply.ledger, e.ok = true ↔ Completes realm table outcome p e.index
  completed_eq : reply.completed = calls.countP fun c ↦ (outcome c.index).succeeded
  stopped_iff : ∀ i, reply.stoppedAt = some i ↔
    Reaches realm table outcome p i ∧ ¬ Completes realm table outcome p i
  ok_below : ∀ e ∈ reply.ledger, e.ok = true → ∀ k, reply.stoppedAt = some k → e.index < k
  no_meta : ∀ c ∈ calls, c.tool ∉ metaOps
  no_destructive : p.allowDestructive = false → ∀ c ∈ calls, c.tool ∉ destructiveOps

def ReplacesStrings (p : Program) (reply : Reply B) : Prop :=
  ∀ i < reply.ledger.length, ∀ op args, p.ops[i]? = some op →
    substitutePlaceholders realm i (resultsBefore realm outcome i) op.raw = .ok args →
      Replaced i (resultsBefore realm outcome i) op.raw args

/-- The handler of `cad_program` keeps its promises. -/
def KeepsLedger (p : Program) : Prop :=
  LedgerTrue realm table outcome p (cadProgram realm table outcome p).1
    (cadProgram realm table outcome p).2 ∧
      ReplacesStrings realm outcome p (cadProgram realm table outcome p).1

section Validation

variable {realm table}

theorem validateOp_eq_ok {name : String} {args : JsValue B} {parsed : P} :
    validateOp table name args = .ok parsed ↔
      ∃ entry, table.get name = some entry ∧ entry.schema args = .ok parsed := by
  rw [validateOp]
  cases table.get name with
  | none => exact iff_of_false nofun (by rintro ⟨_, h, -⟩; cases h)
  | some entry =>
    rw [Except.mapError_eq_ok]
    exact ⟨fun h ↦ ⟨entry, rfl, h⟩, fun ⟨_, heq, h⟩ ↦ Option.some_inj.mp heq ▸ h⟩

/-- **What passes validation** is not forbidden, and its handler gets what the schema makes of it.
-/
theorem prepareOp_eq_ok {allowDestructive : Bool} {i : ℕ} {op : Op} {prepared : PreparedOp P}
    (h : prepareOp realm table allowDestructive i op = .ok prepared) :
    prepared.tool = op.tool ∧ op.tool ∉ metaOps ∧
      (allowDestructive = false → op.tool ∉ destructiveOps) ∧
        ∀ results parsed, resolveArgs realm table i results prepared = .ok parsed ↔
          ∃ args entry, substitutePlaceholders realm i results op.raw = .ok args ∧
            table.get op.tool = some entry ∧ entry.schema args = .ok parsed := by
  rw [prepareOp] at h
  split_ifs at h with hmeta hdestructive hrefs
  · rw [prepareDeferred] at h
    split_ifs at h
    split at h
    · cases h
    · cases h
      refine ⟨rfl, hmeta, fun hallow hmem ↦ hdestructive ⟨hmem, by rw [hallow]; rfl⟩, ?_⟩
      intro results parsed
      dsimp only [resolveArgs]
      cases substitutePlaceholders realm i results op.raw with
      | error message => exact iff_of_false (by rintro ⟨⟩) (by rintro ⟨_, _, h, -⟩; cases h)
      | ok args =>
        dsimp only
        rw [Except.mapError_eq_ok, validateOp_eq_ok]
        exact ⟨fun ⟨entry, h⟩ ↦ ⟨args, entry, rfl, h⟩,
          fun ⟨_, entry, heq, h⟩ ↦ ⟨entry, Except.ok.inj heq ▸ h⟩⟩
  · rw [ne_eq, not_not] at hrefs
    rw [prepareLiteral] at h
    split at h
    · cases h
    · next literal hliteral =>
      split at h
      · cases h
      · cases h
      · next parsed' hparsed =>
        cases h
        refine ⟨rfl, hmeta, fun hallow hmem ↦ hdestructive ⟨hmem, by rw [hallow]; rfl⟩, ?_⟩
        intro results parsed
        -- Without placeholders the results do not matter.
        rw [resolveArgs, substitutePlaceholders_of_collect realm hrefs i results [], hliteral]
        obtain ⟨entry, hentry, hschema⟩ := validateOp_eq_ok.mp hparsed
        constructor
        · rintro ⟨⟩
          exact ⟨literal, entry, rfl, hentry, hschema⟩
        · rintro ⟨args, entry', hargs, hentry', hschema'⟩
          obtain rfl := Except.ok.inj hargs
          obtain rfl := Option.some_inj.mp (hentry.symm.trans hentry')
          exact hschema.symm.trans hschema'

theorem exists_prepared {p : Program} (h : validationIssues realm table p = []) :
    (preparedOps realm table p).length = p.ops.length ∧
      ∀ i prepared, (preparedOps realm table p)[i]? = some prepared →
        ∃ op, p.ops[i]? = some op ∧
          prepareOp realm table p.allowDestructive i op = .ok prepared := by
  have hall : ∀ {issue? : Except ValidationIssue (PreparedOp P) → Option ValidationIssue},
      (∀ issue, issue? (.error issue) = some issue) → (∀ a, issue? (.ok a) = none) →
        ∀ l : List (Except ValidationIssue (PreparedOp P)), l.filterMap issue? = [] →
          l = (l.filterMap Except.toOption).map .ok := by
    intro issue? herror hok l
    induction l with
    | nil => exact fun _ ↦ rfl
    | cons x l ih =>
      intro hl
      cases x with
      | error issue =>
        rw [List.filterMap_cons_some (herror issue)] at hl
        cases hl
      | ok a =>
        rw [List.filterMap_cons_none (hok a)] at hl
        rw [List.filterMap_cons_some (show Except.toOption (.ok a) = some a from rfl),
          List.map_cons, ← ih hl]
  have hprepared : prepareOps realm table p = (preparedOps realm table p).map .ok :=
    hall (fun _ ↦ rfl) (fun _ ↦ rfl) _ h
  constructor
  · rw [← List.length_map (f := Except.ok (ε := ValidationIssue)), ← hprepared, prepareOps,
      List.length_mapIdx]
  · intro i prepared hi
    have hget : (prepareOps realm table p)[i]? = some (.ok prepared) := by
      rw [hprepared, List.getElem?_map, hi, Option.map_some]
    rw [prepareOps, List.getElem?_mapIdx, Option.map_eq_some_iff] at hget
    exact hget

end Validation

/-! ## Execution, step by step -/

section Execution

variable {realm table outcome} {p : Program}

theorem runOp_cases (outcome : ℕ → Outcome) (s : Execution B P) (op : PreparedOp P) (i : ℕ) :
    ((∀ parsed, resolveArgs realm table i s.chainResults op ≠ .ok parsed) ∧
      ∃ message, runOp realm table outcome s (op, i) = .error (s.stop i op.tool message)) ∨
    ∃ parsed, resolveArgs realm table i s.chainResults op = .ok parsed ∧
      (((outcome i).succeeded = false ∧ ∃ message, runOp realm table outcome s (op, i) =
          .error ((s.call i op.tool parsed).stop i op.tool message)) ∨
        ∃ result, outcome i = .returned result ∧ (outcome i).succeeded = true ∧
          runOp realm table outcome s (op, i) =
            .ok ((s.call i op.tool parsed).complete realm i op.tool result)) := by
  rw [runOp]
  cases hargs : resolveArgs realm table i s.chainResults op with
  | error message => exact .inl ⟨nofun, message, rfl⟩
  | ok parsed =>
    refine .inr ⟨parsed, rfl, ?_⟩
    cases houtcome : outcome i with
    | threw message => exact .inl ⟨rfl, message, rfl⟩
    | returned result =>
      dsimp only
      by_cases herror : result.isError = true
      · exact .inl ⟨by rw [Outcome.succeeded, herror]; rfl, _, if_pos herror⟩
      · exact .inr ⟨result, rfl, by simpa [Outcome.succeeded] using herror, if_neg herror⟩

/-- What holds after so many operations completed. -/
structure Ran (realm : Realm B) (table : ToolTable B P) (outcome : ℕ → Outcome) (p : Program)
    (k : ℕ) (s : Execution B P) : Prop where
  calls_order : s.calls.map HandlerCall.index = List.range k
  calls_accepted : ∀ c ∈ s.calls, Accepts realm table outcome p c.index c.args ∧
    (p.ops[c.index]?).map Op.tool = some c.tool
  ledger_order : s.ledger.map LedgerEntry.index = List.range k
  ledger_tools : ∀ e ∈ s.ledger, (p.ops[e.index]?).map Op.tool = some e.tool
  ledger_ok : ∀ e ∈ s.ledger, e.ok = true
  chainResults_eq : s.chainResults = resultsBefore realm outcome k
  completed_eq : s.completed = k
  completes : ∀ j < k, Completes realm table outcome p j
  stoppedAt_eq : s.stoppedAt = none

theorem ran_init : Ran realm table outcome p 0 Execution.init where
  calls_order := rfl
  calls_accepted _ h := absurd h List.not_mem_nil
  ledger_order := rfl
  ledger_tools _ h := absurd h List.not_mem_nil
  ledger_ok _ h := absurd h List.not_mem_nil
  chainResults_eq := rfl
  completed_eq := rfl
  completes _ h := absurd h (Nat.not_lt_zero _)
  stoppedAt_eq := rfl

/-- The handler of a prepared operation gets what its schema makes of the substituted arguments. -/
theorem resolveArgs_iff {k : ℕ} {op : Op} {prepared : PreparedOp P} (hop : p.ops[k]? = some op)
    (hprepared : prepareOp realm table p.allowDestructive k op = .ok prepared) (parsed : P) :
    resolveArgs realm table k (resultsBefore realm outcome k) prepared = .ok parsed ↔
      Accepts realm table outcome p k parsed := by
  rw [(prepareOp_eq_ok hprepared).2.2.2, Accepts]
  constructor
  · rintro ⟨args, entry, hargs, hentry, hschema⟩
    exact ⟨op, args, entry, hop, hargs, hentry, hschema⟩
  · rintro ⟨op', args, entry, hop', hargs, hentry, hschema⟩
    obtain rfl := Option.some_inj.mp (hop.symm.trans hop')
    exact ⟨args, entry, hargs, hentry, hschema⟩

/-- **An operation that completes keeps what holds.** -/
theorem Ran.complete {k : ℕ} {s : Execution B P} (h : Ran realm table outcome p k s) {op : Op}
    (hop : p.ops[k]? = some op) {parsed : P} (hparsed : Accepts realm table outcome p k parsed)
    {result : OpResult} (hresult : outcome k = .returned result)
    (hsucceeded : (outcome k).succeeded = true) :
    Ran realm table outcome p (k + 1)
      ((s.call k op.tool parsed).complete realm k op.tool result) where
  calls_order := by
    simp only [Execution.complete, Execution.call, List.map_append, h.calls_order,
      List.range_succ, List.map_singleton]
  calls_accepted c hc := by
    rcases List.mem_append.mp hc with hc | hc
    · exact h.calls_accepted c hc
    · obtain rfl := List.mem_singleton.mp hc
      exact ⟨hparsed, by rw [hop, Option.map_some]⟩
  ledger_order := by
    simp only [Execution.complete, Execution.call, List.map_append, h.ledger_order,
      List.range_succ, List.map_singleton]
  ledger_tools e he := by
    rcases List.mem_append.mp he with he | he
    · exact h.ledger_tools e he
    · obtain rfl := List.mem_singleton.mp he
      exact by rw [hop, Option.map_some]
  ledger_ok e he := by
    rcases List.mem_append.mp he with he | he
    · exact h.ledger_ok e he
    · rw [List.mem_singleton.mp he]
  chainResults_eq := by
    simp only [Execution.complete, Execution.call, h.chainResults_eq, resultsBefore,
      List.range_succ, List.map_append, List.map_singleton, hresult, Outcome.json]
  completed_eq := congrArg (· + 1) h.completed_eq
  completes j hj := by
    rcases Nat.lt_succ_iff_lt_or_eq.mp hj with hj | rfl
    · exact h.completes j hj
    · exact ⟨⟨parsed, hparsed⟩, hsucceeded⟩
  stoppedAt_eq := h.stoppedAt_eq

theorem execute_cases (hissues : validationIssues realm table p = []) :
    Ran realm table outcome p p.ops.length
        (execute realm table outcome (preparedOps realm table p)) ∨
      ∃ k s op message, p.ops[k]? = some op ∧ Ran realm table outcome p k s ∧
        ¬ Completes realm table outcome p k ∧
        (((∀ parsed, ¬ Accepts realm table outcome p k parsed) ∧
          execute realm table outcome (preparedOps realm table p) = s.stop k op.tool message) ∨
        ∃ parsed, Accepts realm table outcome p k parsed ∧ (outcome k).succeeded = false ∧
          execute realm table outcome (preparedOps realm table p) =
            (s.call k op.tool parsed).stop k op.tool message) := by
  obtain ⟨hlen, hprepared⟩ := exists_prepared hissues
  -- While the handlers succeed, what has been chained is what the operations before it returned.
  have hrun := Except.foldlM_zipIdx_cases (f := runOp realm table outcome)
    (l := preparedOps realm table p) (Ran realm table outcome p) ran_init
    fun k prepared s s' hk hs hstep ↦ by
      obtain ⟨op, hop, hprep⟩ := hprepared k prepared hk
      have htool := (prepareOp_eq_ok hprep).1
      rcases runOp_cases outcome s prepared k with ⟨-, m, hfail⟩ |
        ⟨parsed, hparsed, ⟨-, m, hfail⟩ | ⟨result, hresult, hsucceeded, hok⟩⟩
      · rw [hfail] at hstep
        cases hstep
      · rw [hfail] at hstep
        cases hstep
      · rw [hok] at hstep
        obtain rfl := Except.ok.inj hstep
        rw [hs.chainResults_eq, resolveArgs_iff hop hprep] at hparsed
        rw [htool]
        exact hs.complete hop hparsed hresult hsucceeded
  rcases hrun with ⟨s, hok, hs⟩ | ⟨k, prepared, s, t, hk, hs, hstep, herror⟩
  · left
    rw [execute, hok, ← hlen]
    exact hs
  · right
    obtain ⟨op, hop, hprep⟩ := hprepared k prepared hk
    have htool := (prepareOp_eq_ok hprep).1
    rw [execute, herror]
    rcases runOp_cases outcome s prepared k with ⟨hnone, m, hfail⟩ |
      ⟨parsed, hparsed, ⟨hfailed, m, hfail⟩ | ⟨result, -, -, hok⟩⟩
    · rw [hfail] at hstep
      obtain rfl := Except.error.inj hstep
      have hrefused : ∀ parsed, ¬ Accepts realm table outcome p k parsed := fun parsed haccepts ↦
        hnone parsed (by rwa [hs.chainResults_eq, resolveArgs_iff hop hprep])
      exact ⟨k, s, op, m, hop, hs, fun hc ↦ hc.1.elim hrefused,
        .inl ⟨hrefused, by rw [htool]⟩⟩
    · rw [hfail] at hstep
      obtain rfl := Except.error.inj hstep
      rw [hs.chainResults_eq, resolveArgs_iff hop hprep] at hparsed
      exact ⟨k, s, op, m, hop, hs, fun hc ↦ absurd hc.2 (by rw [hfailed]; nofun),
        .inr ⟨parsed, hparsed, hfailed, by rw [htool]⟩⟩
    · -- The operation it stops at did not succeed.
      rw [hok] at hstep
      cases hstep

end Execution

/-! ## The answer -/

section Answer

variable {realm table outcome} {p : Program} {k : ℕ} {s : Execution B P}

section

variable (h : Ran realm table outcome p k s)

include h

theorem Ran.length_ledger : s.ledger.length = k := by
  rw [← List.length_map (f := LedgerEntry.index), h.ledger_order, List.length_range]

theorem Ran.length_calls : s.calls.length = k := by
  rw [← List.length_map (f := HandlerCall.index), h.calls_order, List.length_range]

theorem Ran.lt_of_mem_ledger {e : LedgerEntry B} (he : e ∈ s.ledger) : e.index < k :=
  List.mem_range.mp (h.ledger_order ▸ List.mem_map_of_mem he)

theorem Ran.lt_of_mem_calls {c : HandlerCall P} (hc : c ∈ s.calls) : c.index < k :=
  List.mem_range.mp (h.calls_order ▸ List.mem_map_of_mem hc)

theorem Ran.countP_calls :
    s.calls.countP (fun c ↦ (outcome c.index).succeeded) = k := by
  rw [List.countP_eq_length.mpr fun c hc ↦ (h.completes _ (h.lt_of_mem_calls hc)).2, h.length_calls]

theorem Ran.reaches (hissues : validationIssues realm table p = []) {i : ℕ} (hi : i ≤ k)
    (hlt : i < p.ops.length) : Reaches realm table outcome p i :=
  ⟨hissues, hlt, fun j hj ↦ h.completes j (by omega)⟩

end

theorem Reaches.le {i : ℕ} (h : Reaches realm table outcome p i)
    (hk : ¬ Completes realm table outcome p k) : i ≤ k :=
  not_lt.mp fun hlt ↦ hk (h.2.2 k hlt)

theorem allowed_of_issues (hissues : validationIssues realm table p = []) {i : ℕ} {tool : String}
    (htool : (p.ops[i]?).map Op.tool = some tool) :
    tool ∉ metaOps ∧ (p.allowDestructive = false → tool ∉ destructiveOps) := by
  obtain ⟨op, hop, rfl⟩ := Option.map_eq_some_iff.mp htool
  obtain ⟨hlen, hprepared⟩ := exists_prepared hissues
  have hlt := (List.getElem?_eq_some_iff.mp hop).1
  obtain ⟨op', hop', hprep⟩ := hprepared i _ (List.getElem?_eq_getElem (hlen ▸ hlt))
  obtain rfl := Option.some_inj.mp (hop.symm.trans hop')
  exact ⟨(prepareOp_eq_ok hprep).2.1, (prepareOp_eq_ok hprep).2.2.1⟩

theorem ledgerTrue_refused (hissues : validationIssues realm table p ≠ [])
    (report : ValidationReport) (hexecuted : report.executed = 0) :
    LedgerTrue realm table outcome p (.refused report) [] where
  refused _ := rfl
  calls_order := rfl
  calls_accepted _ h := absurd h List.not_mem_nil
  called_iff i := iff_of_false (Nat.not_lt_zero i) fun h ↦ hissues h.1.1
  ledger_order := rfl
  ledger_tools _ h := absurd h List.not_mem_nil
  attempted_iff i := iff_of_false (Nat.not_lt_zero i) fun h ↦ hissues h.1
  ok_iff _ h := absurd h List.not_mem_nil
  completed_eq := hexecuted
  stopped_iff _ := iff_of_false nofun fun h ↦ hissues h.1.1
  ok_below _ h := absurd h List.not_mem_nil
  no_meta _ h := absurd h List.not_mem_nil
  no_destructive _ _ h := absurd h List.not_mem_nil

theorem Ran.ledgerTrue (h : Ran realm table outcome p p.ops.length s)
    (hissues : validationIssues realm table p = []) (report : RunReport B)
    (hops : report.ops = s.ledger) (hcompleted : report.completed = s.completed)
    (hstopped : report.stoppedAt = s.stoppedAt) :
    LedgerTrue realm table outcome p (.ran report) s.calls where
  refused hne := absurd hissues hne
  calls_order := by rw [h.length_calls, h.calls_order]
  calls_accepted := h.calls_accepted
  called_iff i := by
    rw [h.length_calls]
    exact ⟨fun hi ↦ ⟨h.reaches hissues hi.le hi, (h.completes i hi).1⟩, fun hi ↦ hi.1.2.1⟩
  ledger_order := by
    rw [Reply.ledger, hops, h.length_ledger, h.ledger_order]
  ledger_tools e he := h.ledger_tools e (hops ▸ he)
  attempted_iff i := by
    rw [Reply.ledger, hops, h.length_ledger]
    exact ⟨fun hi ↦ h.reaches hissues hi.le hi, fun hi ↦ hi.2.1⟩
  ok_iff e he := by
    rw [Reply.ledger, hops] at he
    exact iff_of_true (h.ledger_ok e he) (h.completes _ (h.lt_of_mem_ledger he))
  completed_eq := by
    rw [Reply.completed, hcompleted, h.completed_eq, h.countP_calls]
  stopped_iff i := by
    rw [Reply.stoppedAt, hstopped, h.stoppedAt_eq]
    exact iff_of_false nofun fun hi ↦ hi.2 (h.completes i hi.1.2.1)
  ok_below _ _ _ k hk := by
    rw [Reply.stoppedAt, hstopped, h.stoppedAt_eq] at hk
    cases hk
  no_meta c hc := (allowed_of_issues hissues (h.calls_accepted c hc).2).1
  no_destructive hallow c hc := (allowed_of_issues hissues (h.calls_accepted c hc).2).2 hallow

structure CalledUpTo (realm : Realm B) (table : ToolTable B P) (outcome : ℕ → Outcome)
    (p : Program) (k : ℕ) (calls : List (HandlerCall P)) : Prop where
  order : calls.map HandlerCall.index = List.range calls.length
  accepted : ∀ c ∈ calls, Accepts realm table outcome p c.index c.args ∧
    (p.ops[c.index]?).map Op.tool = some c.tool
  lt_iff : ∀ i, i < calls.length ↔ i < k + 1 ∧ ∃ parsed, Accepts realm table outcome p i parsed
  count : calls.countP (fun c ↦ (outcome c.index).succeeded) = k

theorem Ran.calledUpTo_refused (h : Ran realm table outcome p k s)
    (hnone : ∀ parsed, ¬ Accepts realm table outcome p k parsed) :
    CalledUpTo realm table outcome p k s.calls where
  order := by rw [h.length_calls, h.calls_order]
  accepted := h.calls_accepted
  lt_iff i := by
    rw [h.length_calls]
    refine ⟨fun hi ↦ ⟨by omega, (h.completes i hi).1⟩, fun ⟨hi, parsed, hparsed⟩ ↦ ?_⟩
    rcases Nat.lt_succ_iff_lt_or_eq.mp hi with hi | rfl
    · exact hi
    · exact absurd hparsed (hnone parsed)
  count := h.countP_calls

theorem Ran.calledUpTo_failed (h : Ran realm table outcome p k s) {op : Op}
    (hop : p.ops[k]? = some op) {parsed : P} (hparsed : Accepts realm table outcome p k parsed)
    (hfailed : (outcome k).succeeded = false) :
    CalledUpTo realm table outcome p k (s.calls ++ [⟨k, op.tool, parsed⟩]) where
  order := by
    rw [List.map_append, h.calls_order, List.length_append, h.length_calls,
      List.length_singleton, List.range_succ]
    rfl
  accepted c hc := by
    rcases List.mem_append.mp hc with hc | hc
    · exact h.calls_accepted c hc
    · obtain rfl := List.mem_singleton.mp hc
      exact ⟨hparsed, by rw [hop, Option.map_some]⟩
  lt_iff i := by
    rw [List.length_append, h.length_calls, List.length_singleton]
    refine ⟨fun hi ↦ ⟨hi, ?_⟩, fun hi ↦ hi.1⟩
    rcases Nat.lt_succ_iff_lt_or_eq.mp hi with hi | rfl
    · exact (h.completes i hi).1
    · exact ⟨parsed, hparsed⟩
  count := by
    rw [List.countP_append, h.countP_calls, List.countP_singleton, hfailed]
    rfl

theorem Ran.ledgerTrue_stopped (h : Ran realm table outcome p k s)
    (hissues : validationIssues realm table p = []) {op : Op} (hop : p.ops[k]? = some op)
    (hfails : ¬ Completes realm table outcome p k) {last : LedgerEntry B}
    (hlast : last.index = k ∧ last.tool = op.tool ∧ last.ok = false)
    {calls : List (HandlerCall P)} (hcalls : CalledUpTo realm table outcome p k calls)
    (report : RunReport B) (hops : report.ops = s.ledger ++ [last])
    (hcompleted : report.completed = s.completed) (hstopped : report.stoppedAt = some k) :
    LedgerTrue realm table outcome p (.ran report) calls := by
  have hlt := (List.getElem?_eq_some_iff.mp hop).1
  have hlen : (Reply.ran report).ledger.length = k + 1 := by
    rw [Reply.ledger, hops, List.length_append, h.length_ledger, List.length_singleton]
  have hmem {e : LedgerEntry B} (he : e ∈ (Reply.ran report).ledger) : e ∈ s.ledger ∨ e = last := by
    rw [Reply.ledger, hops] at he
    exact (List.mem_append.mp he).imp_right List.mem_singleton.mp
  have hreach (i : ℕ) : i < k + 1 ↔ Reaches realm table outcome p i :=
    ⟨fun hi ↦ h.reaches hissues (by omega) (by omega), fun hi ↦ Nat.lt_succ_of_le (hi.le hfails)⟩
  constructor
  case refused => exact fun hne ↦ absurd hissues hne
  case calls_order => exact hcalls.order
  case calls_accepted => exact hcalls.accepted
  case called_iff => exact fun i ↦ (hcalls.lt_iff i).trans (and_congr_left' (hreach i))
  case ledger_order =>
    rw [hlen, Reply.ledger, hops, List.map_append, h.ledger_order, List.range_succ,
      List.map_singleton, hlast.1]
  case ledger_tools =>
    intro e he
    rcases hmem he with he | rfl
    · exact h.ledger_tools e he
    · rw [hlast.1, hlast.2.1, hop, Option.map_some]
  case attempted_iff => exact fun i ↦ hlen ▸ hreach i
  case ok_iff =>
    intro e he
    rcases hmem he with he | rfl
    · exact iff_of_true (h.ledger_ok e he) (h.completes _ (h.lt_of_mem_ledger he))
    · -- Only the last entry tells of a failure.
      exact iff_of_false (by rw [hlast.2.2]; nofun) (hlast.1 ▸ hfails)
  case completed_eq => rw [Reply.completed, hcompleted, h.completed_eq, hcalls.count]
  case stopped_iff =>
    intro i
    rw [Reply.stoppedAt, hstopped, Option.some_inj]
    constructor
    · rintro rfl
      exact ⟨(hreach k).mp (Nat.lt_succ_self k), hfails⟩
    · rintro ⟨hi, hnot⟩
      exact le_antisymm (((hreach k).mp (Nat.lt_succ_self k)).le hnot) (hi.le hfails)
  case ok_below =>
    intro e he hok i hi
    rw [Reply.stoppedAt, hstopped] at hi
    obtain rfl := Option.some_inj.mp hi
    rcases hmem he with he | rfl
    · exact h.lt_of_mem_ledger he
    · rw [hlast.2.2] at hok
      cases hok
  case no_meta => exact fun c hc ↦ (allowed_of_issues hissues (hcalls.accepted c hc).2).1
  case no_destructive =>
    exact fun hallow c hc ↦ (allowed_of_issues hissues (hcalls.accepted c hc).2).2 hallow

end Answer

variable (p : Program)

theorem ledgerTrue_cadProgram : LedgerTrue realm table outcome p
    (cadProgram realm table outcome p).1 (cadProgram realm table outcome p).2 := by
  rw [cadProgram]
  split_ifs with hissues
  · exact ledgerTrue_refused hissues _ rfl
  · rw [not_not] at hissues
    rcases execute_cases hissues with h | ⟨k, s, op, m, hop, hs, hfails, hend⟩
    · exact h.ledgerTrue hissues _ rfl rfl rfl
    · rcases hend with ⟨hnone, hend⟩ | ⟨parsed, hparsed, hfailed, hend⟩
      · rw [hend]
        exact hs.ledgerTrue_stopped hissues hop hfails ⟨rfl, rfl, rfl⟩
          (hs.calledUpTo_refused hnone) _ rfl rfl rfl
      · rw [hend]
        exact hs.ledgerTrue_stopped hissues hop hfails ⟨rfl, rfl, rfl⟩
          (hs.calledUpTo_failed hop hparsed hfailed) _ rfl rfl rfl

/-- **The program keeps its promises** exactly when no operation attempted takes anything from a
prototype. -/
theorem keepsLedger_iff : KeepsLedger realm table outcome p ↔
    ∀ i, Reaches realm table outcome p i → ∀ op args, p.ops[i]? = some op →
      substitutePlaceholders realm i (resultsBefore realm outcome i) op.raw = .ok args →
        OwnOnly i (resultsBefore realm outcome i) op.raw := by
  have htrue := ledgerTrue_cadProgram realm table outcome p
  have hreplaced {i : ℕ} {op : Op} {args : JsValue B} (h : substitutePlaceholders realm i
      (resultsBefore realm outcome i) op.raw = .ok args) :
      Replaced i (resultsBefore realm outcome i) op.raw args ↔
        OwnOnly i (resultsBefore realm outcome i) op.raw :=
    replaced_iff realm (by rw [resultsBefore, List.length_map, List.length_range]) h
  constructor
  · rintro ⟨-, hall⟩ i hi op args hop hargs
    exact (hreplaced hargs).mp (hall i ((htrue.attempted_iff i).mpr hi) op args hop hargs)
  · intro hall
    refine ⟨htrue, fun i hi op args hop hargs ↦ ?_⟩
    exact (hreplaced hargs).mpr (hall i ((htrue.attempted_iff i).mp hi) op args hop hargs)

/-! ### A program with an inherited name -/

def sampleRealm : Realm String where
  parse text := if text = "\x7b\x7d" then some (.object []) else none
  isObject _ := false
  objectInherits key := if key = "toString" then some (.builtin "toString") else none
  arrayInherits _ := none
  property _ _ := none
  keys _ := []
  assignError _ _ := none

def sampleTable : ToolTable String Unit where
  get _ := some ⟨fun _ ↦ .ok ()⟩
  nearest _ := []

/-- The second operation reads a name that the result of the first inherits. -/
def sampleProgram : Program where
  name := none
  ops := [⟨"begin", none⟩, ⟨"use", some (.object [("x", .string "$0.toString")])⟩]
  allowDestructive := false

def sampleOutcome (_ : ℕ) : Outcome := .returned ⟨[.text "\x7b\x7d"], false⟩

/-- The handler gets a function of the runtime, where the result has no such field. -/
theorem not_keepsLedger_of_inherited :
    ¬ ∀ (realm : Realm String) (table : ToolTable String Unit) (outcome : ℕ → Outcome)
      (p : Program), KeepsLedger realm table outcome p := by
  intro hall
  have hreplaced := (hall sampleRealm sampleTable sampleOutcome sampleProgram).2 1 (by decide) _ _
    rfl rfl
  obtain ⟨t, ht, -, data, v, hdata, hv, -⟩ := hreplaced.placeholder [.field "x"] "$0.toString"
    ⟨"$0.toString", .op 0, ["toString"]⟩ rfl (by decide)
  obtain rfl : t = 0 := by omega
  obtain rfl : Json.object [] = data := Option.some_inj.mp (Option.some_inj.mp hdata)
  cases hv

end CadProgram

end RosheraCad
