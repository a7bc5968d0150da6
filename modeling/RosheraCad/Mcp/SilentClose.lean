import RosheraCad.Library.Since
import RosheraCad.Mcp.Dispatch
import Mathlib.Data.List.Induction

/-!
# No unverified work closes silently

A checkpoint closes the open intent. The gate refuses it while work done under that intent has not
been looked at. The gate reads the tally before the handler runs, and the outcome clears it: work
recorded in between is forgotten without a look.
-/

namespace RosheraCad

namespace Gates

deriving instance DecidableEq for ToolResult
deriving instance DecidableEq for DispatchEvent

/-! ## What an outcome means -/

section Outcomes

variable (rt : Runtime) (call : Call) (result : ToolResult)

def succeeded : Bool := (typedRefusalOf rt result).isNone && !result.isError

def opensIntent : Bool := call.tool = "timeline_checkpoint" && succeeded rt result

def endsTimeline : Bool := call.tool = "clear_timeline" && succeeded rt result

def looks : Bool :=
  succeeded rt result &&
    (call.tool = "verify_part" ||
      (call.tool = "verify_claim" && verifyClaimActuallyMeasured rt call.args result) ||
      call.tool = "clear_parts" || call.tool = "clear_timeline")

def settles : Bool := opensIntent rt call result || looks rt call result

def isWork : Bool :=
  mutatesSolids.contains call.tool &&
    ((succeeded rt result && call.tool ≠ "clear_parts") ||
      ((typedRefusalOf rt result).isNone && isHaltResult result))

/-- A checkpoint closes the intent before it, and its caller did not ask to skip the
verification. -/
def closes : Bool := opensIntent rt call result && !skipsVerification call.args

end Outcomes

def DispatchEvent.recordedAs (calls : ℕ → Call) (p : Call → ToolResult → Bool) :
    DispatchEvent → Bool
  | .recorded i result => p (calls i) result
  | _ => false

section Properties

variable (rt : Runtime) (calls : ℕ → Call)

def IntentOpen (history : List DispatchEvent) : Prop :=
  Since (fun _ e ↦ e.recordedAs calls (opensIntent rt))
    (fun e ↦ e.recordedAs calls (endsTimeline rt)) history

/-- Work was done under an intent, and nobody has looked at it since. -/
def Unlooked (history : List DispatchEvent) : Prop :=
  Since (fun before e ↦ e.recordedAs calls (isWork rt) ∧ IntentOpen rt calls before)
    (fun e ↦ e.recordedAs calls (settles rt)) history

/-- Whenever a checkpoint closes an intent, all work recorded under it before has been looked at. -/
def NoSilentClose (history : List DispatchEvent) : Prop :=
  ∀ before i result after, history = before ++ .recorded i result :: after →
    closes rt (calls i) result → ¬ Unlooked rt calls before

def GatedWhen (P : List DispatchEvent → Prop) (history : List DispatchEvent) (i : ℕ) : Prop :=
  ∃ before after, history = before ++ .gated i :: after ∧ P before

/-- A handler that changes solids runs only if an intent was open at its gate. -/
def IntentAtGate (history : List DispatchEvent) : Prop :=
  ∀ i, .ran i ∈ history → mutatesSolids.contains (calls i).tool →
    GatedWhen (IntentOpen rt calls) history i

/-- When a checkpoint closes an intent, the work recorded since its gate has been looked at. -/
def LookedAtInFlight (s : DispatchState) : DispatchStep → Prop
  | .record i => ∀ turn result, s.phase i = .finished turn result → closes rt (calls i) result →
      ¬ Since (fun before e ↦ (e.recordedAs calls (isWork rt) ∧ IntentOpen rt calls before) ∧
          .gated i ∈ before) (fun e ↦ e.recordedAs calls (settles rt)) s.history
  | _ => True

end Properties

/-! ## The tally -/

section Tally

variable {rt : Runtime} {calls : ℕ → Call} {session : Session} {call : Call} {result : ToolResult}
  {turn : ℕ} {history : List DispatchEvent}

@[simp] theorem recordPoints_openIntent (tool : String) (args : Json) :
    (recordPoints session tool args result).openIntent = session.openIntent := by
  rw [recordPoints]
  split
  · rfl
  · split <;> rfl

@[simp] theorem recordPoints_intentUnverified (tool : String) (args : Json) :
    (recordPoints session tool args result).intentUnverified = session.intentUnverified := by
  rw [recordPoints]
  split
  · rfl
  · split <;> rfl

@[simp] theorem cacheRefusal_openIntent (tool : String) (args : Json) :
    (cacheRefusal rt session tool args result turn).openIntent = session.openIntent := by
  simp only [cacheRefusal]
  split <;> rfl

@[simp] theorem cacheRefusal_intentUnverified (tool : String) (args : Json) :
    (cacheRefusal rt session tool args result turn).intentUnverified =
      session.intentUnverified := by
  simp only [cacheRefusal]
  split <;> rfl

theorem recordSuccess_cases (turn : ℕ) (session : Session) (tool : String) (args : Json)
    (h : succeeded rt result = true) :
    ((recordSuccess rt session tool args result turn).openIntent.isSome ↔
      opensIntent rt ⟨tool, args⟩ result ∨
        (session.openIntent.isSome ∧ ¬ endsTimeline rt ⟨tool, args⟩ result)) ∧
    (0 < (recordSuccess rt session tool args result turn).intentUnverified.count ↔
      (isWork rt ⟨tool, args⟩ result ∧ session.openIntent.isSome) ∨
        (0 < session.intentUnverified.count ∧ ¬ settles rt ⟨tool, args⟩ result)) := by
  have hhalt : isHaltResult result = false := by
    simp only [succeeded, Bool.and_eq_true, Bool.not_eq_true'] at h
    simp [isHaltResult, h.2]
  simp only [opensIntent, endsTimeline, isWork, settles, looks, h, hhalt, Bool.and_true,
    Bool.true_and, Bool.and_false, Bool.or_false]
  unfold recordSuccess
  -- The tools that open, wipe or look are none of the others.
  by_cases h₁ : tool = "timeline_checkpoint"
  · subst h₁
    simp [Session.clearUnverified, mutatesSolids]
  by_cases h₂ : tool = "clear_timeline"
  · subst h₂
    simp [Session.clearUnverified, mutatesSolids]
  by_cases h₃ : tool = "clear_parts"
  · subst h₃
    simp [Session.clearUnverified]
  by_cases h₄ : tool = "verify_part"
  · subst h₄
    simp [Session.clearUnverified, verifies, mutatesSolids]
  by_cases h₅ : tool = "verify_claim"
  · subst h₅
    by_cases hm : verifyClaimActuallyMeasured rt args result = true <;>
      simp [Session.clearUnverified, verifies, mutatesSolids, hm]
  have hverifies : verifies.contains tool = false := by simp [verifies, h₄, h₅]
  simp only [h₁, h₂, h₃, h₄, h₅, hverifies, if_false, Bool.false_eq_true, decide_false,
    Bool.false_and, Bool.or_false, not_false_eq_true, and_true, false_or, ne_eq, decide_true,
    Bool.and_true, Bool.and_eq_true]
  by_cases hwork : mutatesSolids.contains tool = true ∧ session.openIntent.isSome = true
  · rw [if_pos hwork]
    exact ⟨Iff.rfl, iff_of_true (Nat.succ_pos _) (Or.inl hwork)⟩
  · rw [if_neg hwork]
    exact ⟨Iff.rfl, (or_iff_right hwork).symm⟩

theorem record_cases (rt : Runtime) (session : Session) (call : Call) (result : ToolResult)
    (turn : ℕ) :
    ((recordDispatchOutcome rt session call.tool call.args result turn).openIntent.isSome ↔
      opensIntent rt call result ∨ (session.openIntent.isSome ∧ ¬ endsTimeline rt call result)) ∧
    (0 < (recordDispatchOutcome rt session call.tool call.args result turn).intentUnverified.count ↔
      (isWork rt call result ∧ session.openIntent.isSome) ∨
        (0 < session.intentUnverified.count ∧ ¬ settles rt call result)) := by
  obtain ⟨tool, args⟩ := call
  rcases hrefusal : typedRefusalOf rt result with _ | gate
  · simp only [recordDispatchOutcome, hrefusal]
    generalize hσ : (if readOnly.contains tool then recordPoints session tool args result else
      { recordPoints session tool args result with refusalCache := [] }) = σ
    have hintent : σ.openIntent = session.openIntent := by
      subst hσ
      split <;> simp
    have htally : σ.intentUnverified = session.intentUnverified := by
      subst hσ
      split <;> simp
    rcases herror : result.isError with _ | _
    · have hsucceeded : succeeded rt result = true := by simp [succeeded, hrefusal, herror]
      have h := recordSuccess_cases turn σ tool args hsucceeded
      rw [hintent, htally] at h
      simpa using h
    · -- A failed call counts as work when the gate that halted it says so.
      have hfailed : succeeded rt result = false := by simp [succeeded, herror]
      simp only [opensIntent, endsTimeline, settles, looks, isWork, hfailed, hrefusal]
      simp only [Bool.and_false, Bool.false_and, Bool.false_or, Bool.or_false, Bool.false_eq_true,
        false_or, not_false_eq_true, and_true, Bool.and_eq_true, Option.isNone_none, Bool.true_and,
        if_false, Bool.not_true, hintent]
      by_cases hwork : (mutatesSolids.contains tool = true ∧ isHaltResult result = true) ∧
          session.openIntent.isSome = true
      · rw [if_pos ⟨⟨hwork.1.2, hwork.1.1⟩, hwork.2⟩]
        exact ⟨by rw [Session.addUnverified, hintent], iff_of_true (Nat.succ_pos _) (Or.inl hwork)⟩
      · rw [if_neg fun h ↦ hwork ⟨⟨h.1.2, h.1.1⟩, h.2⟩, hintent, htally]
        exact ⟨Iff.rfl, (or_iff_right hwork).symm⟩
  · have hfailed : succeeded rt result = false := by simp [succeeded, hrefusal]
    simp only [recordDispatchOutcome, hrefusal, opensIntent, endsTimeline, settles, looks, isWork,
      hfailed]
    split <;> simp

end Tally

/-! ## Histories -/

section Histories

variable {rt : Runtime} {calls : ℕ → Call} {history : List DispatchEvent} {i : ℕ}
  {result : ToolResult} {e : DispatchEvent}

theorem intentOpen_recorded : IntentOpen rt calls (history ++ [.recorded i result]) ↔
    opensIntent rt (calls i) result ∨
      (IntentOpen rt calls history ∧ ¬ endsTimeline rt (calls i) result) :=
  Since.concat_iff

theorem unlooked_recorded : Unlooked rt calls (history ++ [.recorded i result]) ↔
    (isWork rt (calls i) result ∧ IntentOpen rt calls history) ∨
      (Unlooked rt calls history ∧ ¬ settles rt (calls i) result) :=
  Since.concat_iff

theorem intentOpen_concat (h : ∀ p, e.recordedAs calls p = false) :
    IntentOpen rt calls (history ++ [e]) ↔ IntentOpen rt calls history := by
  rw [IntentOpen, Since.concat_iff, h, h]
  simp [IntentOpen]

theorem unlooked_concat (h : ∀ p, e.recordedAs calls p = false) :
    Unlooked rt calls (history ++ [e]) ↔ Unlooked rt calls history := by
  rw [Unlooked, Since.concat_iff, h, h]
  simp [Unlooked]

theorem Unlooked.intentOpen (h : Unlooked rt calls history) : IntentOpen rt calls history := by
  induction history using List.reverseRecOn with
  | nil => exact absurd h Since.not_nil
  | append_singleton history e ih =>
    rcases Since.concat_iff.mp h with ⟨hwork, hopen⟩ | ⟨hunlooked, hsettles⟩
    · refine Since.concat_iff.mpr (Or.inr ⟨hopen, fun hends ↦ ?_⟩)
      rcases e with i | i | ⟨i, result⟩
      · contradiction
      · contradiction
      · -- The tool that wipes the ledger does not change solids.
        simp only [DispatchEvent.recordedAs, endsTimeline, isWork, Bool.and_eq_true,
          decide_eq_true_eq] at hends hwork
        rw [hends.1] at hwork
        exact absurd hwork.1 (by decide)
    · refine Since.concat_iff.mpr (Or.inr ⟨ih hunlooked, fun hends ↦ hsettles ?_⟩)
      rcases e with i | i | ⟨i, result⟩
      · contradiction
      · contradiction
      · simp only [DispatchEvent.recordedAs, endsTimeline, settles, looks, Bool.and_eq_true,
          decide_eq_true_eq] at hends ⊢
        simp [hends]

theorem noSilentClose_iff : NoSilentClose rt calls history ↔
    ¬ Since (fun before e ↦ e.recordedAs calls (closes rt) ∧ Unlooked rt calls before)
      (fun _ ↦ False) history := by
  constructor
  · rintro h ⟨before, e, after, rfl, ⟨hcloses, hunlooked⟩, -⟩
    rcases e with i | i | ⟨i, result⟩
    · contradiction
    · contradiction
    · exact h before i result after rfl hcloses hunlooked
  · rintro h before i result after rfl hcloses hunlooked
    exact h ⟨before, _, after, rfl, ⟨hcloses, hunlooked⟩, fun _ _ ↦ id⟩

theorem noSilentClose_concat : NoSilentClose rt calls (history ++ [e]) ↔
    NoSilentClose rt calls history ∧
      (e.recordedAs calls (closes rt) → ¬ Unlooked rt calls history) := by
  rw [noSilentClose_iff, Since.concat_iff, noSilentClose_iff]
  simp only [not_false_eq_true, and_true, not_or, not_and]
  exact and_comm

theorem GatedWhen.concat {P : List DispatchEvent → Prop} (h : GatedWhen P history i) :
    GatedWhen P (history ++ [e]) i := by
  obtain ⟨before, after, rfl, hbefore⟩ := h
  exact ⟨before, after ++ [e], by simp, hbefore⟩

theorem IntentAtGate.concat (h : IntentAtGate rt calls history)
    (he : ∀ j, e = .ran j → mutatesSolids.contains (calls j).tool →
      GatedWhen (IntentOpen rt calls) history j) :
    IntentAtGate rt calls (history ++ [e]) := by
  intro j hj hmutates
  rcases List.mem_append.mp hj with hj | hj
  · exact (h j hj hmutates).concat
  · exact (he j (List.mem_singleton.mp hj).symm hmutates).concat

theorem Unlooked.since_gate (h : Unlooked rt calls history)
    (hgate : GatedWhen (fun before ↦ ¬ Unlooked rt calls before) history i) :
    Since (fun before e ↦ (e.recordedAs calls (isWork rt) ∧ IntentOpen rt calls before) ∧
      .gated i ∈ before) (fun e ↦ e.recordedAs calls (settles rt)) history := by
  obtain ⟨before, after, rfl, hbefore⟩ := hgate
  exact Since.after_mark h hbefore fun hwork ↦ absurd hwork.1 Bool.false_ne_true

end Histories

/-! ## Runs -/

section Runs

variable (rt : Runtime) (calls : ℕ → Call)

def Checked (call : Call) : Prop :=
  call.tool = "timeline_checkpoint" ∧ skipsVerification call.args = false

structure Faithful (s : DispatchState) : Prop where
  intent : s.session.openIntent.isSome ↔ IntentOpen rt calls s.history
  tally : 0 < s.session.intentUnverified.count ↔ Unlooked rt calls s.history
  cached : ∀ e ∈ s.session.refusalCache, (typedRefusalOf rt e.2.result).isSome = true
  fetching : ∀ i turn, s.phase i = .fetching turn → (calls i).tool ≠ "timeline_checkpoint" ∧
    (mutatesSolids.contains (calls i).tool → GatedWhen (IntentOpen rt calls) s.history i)
  running : ∀ i turn, s.phase i = .running turn → Checked (calls i) →
    GatedWhen (fun before ↦ ¬ Unlooked rt calls before) s.history i
  finished : ∀ i turn result, s.phase i = .finished turn result → succeeded rt result = true →
    Checked (calls i) → GatedWhen (fun before ↦ ¬ Unlooked rt calls before) s.history i
  ran : IntentAtGate rt calls s.history

end Runs

section

variable {rt : Runtime} {calls : ℕ → Call} {s : DispatchState} {i turn : ℕ} {result : ToolResult}

theorem succeeded_gateRefusal (payload : List (String × Json)) :
    succeeded rt (gateRefusal rt payload) = false := by
  simp [succeeded, gateRefusal]

section

variable (h : Faithful rt calls s)

include h

theorem Faithful.refuse
    (hrefuse : preDispatchGate rt s.session (calls i).tool (calls i).args = .refuse result) :
    succeeded rt result = false := by
  rcases preDispatchGate_refuse hrefuse with ⟨hit, notes, hlookup, rfl⟩ | ⟨-, gate, payload, rfl⟩
  · obtain ⟨before, after, heq, -⟩ := List.lookup_eq_some_iff.mp hlookup
    have hcached := h.cached (_, hit) (heq ▸ List.mem_append_right _ List.mem_cons_self)
    rw [succeeded, typedRefusalOf_append hcached, ← Option.not_isSome, hcached]
    rfl
  · exact succeeded_gateRefusal _

theorem Faithful.event {e : DispatchEvent} (he : ∀ p, e.recordedAs calls p = false)
    (hran : ∀ j, e = .ran j → mutatesSolids.contains (calls j).tool →
      GatedWhen (IntentOpen rt calls) s.history j) :
    Faithful rt calls { s with history := s.history ++ [e] } where
  intent := h.intent.trans (intentOpen_concat he).symm
  tally := h.tally.trans (unlooked_concat he).symm
  cached := h.cached
  fetching j t hj := ⟨(h.fetching j t hj).1, fun hm ↦ ((h.fetching j t hj).2 hm).concat⟩
  running j t hj hc := (h.running j t hj hc).concat
  finished j t r hj hr hc := (h.finished j t r hj hr hc).concat
  ran := h.ran.concat hran

theorem Faithful.setPhase (phase : DispatchPhase)
    (hfetching : ∀ turn, phase = .fetching turn → (calls i).tool ≠ "timeline_checkpoint" ∧
      (mutatesSolids.contains (calls i).tool → GatedWhen (IntentOpen rt calls) s.history i))
    (hrunning : ∀ turn, phase = .running turn → Checked (calls i) →
      GatedWhen (fun before ↦ ¬ Unlooked rt calls before) s.history i)
    (hfinished : ∀ turn result, phase = .finished turn result → succeeded rt result = true →
      Checked (calls i) → GatedWhen (fun before ↦ ¬ Unlooked rt calls before) s.history i) :
    Faithful rt calls (s.setPhase i phase) where
  intent := h.intent
  tally := h.tally
  cached := h.cached
  fetching j t hj := by
    rcases DispatchState.setPhase_cases hj with ⟨rfl, hphase⟩ | ⟨-, hphase⟩
    · exact hfetching t hphase
    · exact h.fetching j t hphase
  running j t hj := by
    rcases DispatchState.setPhase_cases hj with ⟨rfl, hphase⟩ | ⟨-, hphase⟩
    · exact hrunning t hphase
    · exact h.running j t hphase
  finished j t r hj := by
    rcases DispatchState.setPhase_cases hj with ⟨rfl, hphase⟩ | ⟨-, hphase⟩
    · exact hfinished t r hphase
    · exact h.finished j t r hphase
  ran := h.ran

theorem Faithful.congr {s' : DispatchState}
    (hsession : s'.session = s.session) (hphase : s'.phase = s.phase)
    (hhistory : s'.history = s.history) : Faithful rt calls s' := by
  obtain ⟨session, turn, phase, history, changes, computed⟩ := s
  obtain ⟨session', turn', phase', history', changes', computed'⟩ := s'
  dsimp only at hsession hphase hhistory
  subst hsession hphase hhistory
  exact ⟨h.intent, h.tally, h.cached, h.fetching, h.running, h.finished, h.ran⟩

theorem Faithful.finish {computed : ℕ} (hfinished : succeeded rt result = true → Checked (calls i) →
      GatedWhen (fun before ↦ ¬ Unlooked rt calls before) s.history i) :
    Faithful rt calls (s.finish i turn result computed) := by
  refine Faithful.congr (h.setPhase (i := i) (.finished turn result) ?_ ?_ ?_) rfl rfl rfl
  · intro t heq
    contradiction
  · intro t heq
    contradiction
  · intro t r heq
    obtain ⟨-, rfl⟩ := DispatchPhase.finished.inj heq
    exact hfinished

theorem Faithful.start (hrunning : Checked (calls i) →
      GatedWhen (fun before ↦ ¬ Unlooked rt calls before) s.history i)
    (hran : mutatesSolids.contains (calls i).tool →
      GatedWhen (IntentOpen rt calls) s.history i) :
    Faithful rt calls (s.start i turn) := by
  have hphase : Faithful rt calls (s.setPhase i (.running turn)) := by
    refine h.setPhase _ ?_ (fun _ _ ↦ hrunning) ?_
    · intro t heq
      contradiction
    · intro t r heq
      contradiction
  refine Faithful.congr (hphase.event (e := .ran i) (fun _ ↦ rfl) fun j hj ↦ ?_) rfl rfl rfl
  obtain rfl := DispatchEvent.ran.inj hj
  exact hran

/-- **The gates of a call are evaluated.** -/
theorem Faithful.gate :
    Faithful rt calls (s.next rt calls (.gate i)) := by
  have hgated : ∀ {P : List DispatchEvent → Prop}, P s.history →
      GatedWhen P (s.history ++ [.gated i]) i := fun hP ↦ ⟨s.history, [], rfl, hP⟩
  have hevent : Faithful rt calls
      { s with turn := s.turn + 1, history := s.history ++ [.gated i] } :=
    Faithful.congr (h.event (e := .gated i) (fun _ ↦ rfl) nofun) rfl rfl rfl
  simp only [DispatchState.next]
  split
  · next refusal hrefuse =>
    refine hevent.finish fun hsucceeded ↦ ?_
    rw [h.refuse hrefuse] at hsucceeded
    contradiction
  · next flag hproceed =>
    obtain ⟨htool, hpassed⟩ := preDispatchGate_proceed hproceed
    refine hevent.start (fun hchecked ↦ hgated fun hunlooked ↦ ?_) fun hmutates ↦ ?_
    · -- Work not looked at has its intent open, and is counted.
      rcases hpassed (h.intent.mpr hunlooked.intentOpen) with hcount | hskips
      · exact absurd (h.tally.mpr hunlooked) (by omega)
      · exact absurd hskips (by rw [hchecked.2]; exact Bool.false_ne_true)
    · rw [htool] at hmutates
      exact absurd hmutates (by decide)
  · next hfetch =>
    obtain ⟨htool, hopen⟩ := preDispatchGate_fetch hfetch
    refine hevent.setPhase _ (fun t _ ↦ ⟨htool, fun hmutates ↦ hgated ?_⟩) ?_ ?_
    · exact h.intent.mp (hopen hmutates)
    · intro t heq
      contradiction
    · intro t r heq
      contradiction

/-- **The outcome of a call is recorded.** -/
theorem Faithful.record (hphase : s.phase i = .finished turn result) :
    Faithful rt calls (s.next rt calls (.record i)) := by
  simp only [DispatchState.next, hphase]
  obtain ⟨hintent, htally⟩ := record_cases rt s.session (calls i) result turn
  constructor
  · rw [hintent, h.intent]
    exact intentOpen_recorded.symm
  · rw [htally, h.intent, h.tally]
    exact unlooked_recorded.symm
  · intro e he
    rcases mem_refusalCache he with he | ⟨rfl, -, gate, hgate, -⟩
    · exact h.cached e he
    · exact Option.isSome_of_eq_some hgate
  · intro j t hj
    rcases DispatchState.setPhase_cases hj with ⟨-, hfalse⟩ | ⟨-, hj⟩
    · contradiction
    · exact ⟨(h.fetching j t hj).1, fun hmutates ↦ ((h.fetching j t hj).2 hmutates).concat⟩
  · intro j t hj hchecked
    rcases DispatchState.setPhase_cases hj with ⟨-, hfalse⟩ | ⟨-, hj⟩
    · contradiction
    · exact (h.running j t hj hchecked).concat
  · intro j t r hj hsucceeded hchecked
    rcases DispatchState.setPhase_cases hj with ⟨-, hfalse⟩ | ⟨-, hj⟩
    · contradiction
    · exact (h.finished j t r hj hsucceeded hchecked).concat
  · exact h.ran.concat nofun

/-- **One step keeps the invariant.** -/
theorem Faithful.step {a : DispatchStep} (henabled : s.Enabled calls a) :
    Faithful rt calls (s.next rt calls a) := by
  rcases a with i | ⟨i, refusal⟩ | ⟨i, result⟩ | ⟨i, j⟩ | i
  · exact h.gate
  · obtain ⟨⟨turn, hphase⟩, -⟩ := henabled
    obtain ⟨htool, hgated⟩ := h.fetching i turn hphase
    rcases refusal with _ | ⟨gate, payload⟩
    · simp only [DispatchState.next, hphase]
      exact h.start (fun hchecked ↦ absurd hchecked.1 htool) hgated
    · simp only [DispatchState.next, hphase]
      exact h.finish fun _ hchecked ↦ absurd hchecked.1 htool
  · obtain ⟨turn, hphase⟩ := henabled
    simp only [DispatchState.next, hphase]
    exact h.finish fun _ ↦ h.running i turn hphase
  · obtain ⟨⟨turn, hphase⟩, ⟨inner, result, hinner⟩, -⟩ := henabled
    simp only [DispatchState.next, hphase, hinner]
    exact h.finish fun _ ↦ h.running i turn hphase
  · obtain ⟨turn, result, hphase⟩ := henabled
    exact h.record hphase

end

theorem Faithful.new : Faithful rt calls DispatchState.new where
  intent := iff_of_false nofun Since.not_nil
  tally := iff_of_false (Nat.lt_irrefl 0) Since.not_nil
  cached := nofun
  fetching := nofun
  running := nofun
  finished := nofun
  ran := nofun

theorem Faithful.of_reachable {G : DispatchState → DispatchStep → Prop}
    (h : (dispatching rt calls).ReachableUnder G s) : Faithful rt calls s :=
  h.invariant _ Faithful.new fun _ _ _ h henabled _ ↦ h.step henabled

theorem noSilentClose_next (h : NoSilentClose rt calls s.history) {a : DispatchStep}
    (ha : ∀ i, a ≠ .record i) : NoSilentClose rt calls (s.next rt calls a).history := by
  have hconcat {history : List DispatchEvent} {e : DispatchEvent}
      (h : NoSilentClose rt calls history) (he : e.recordedAs calls (closes rt) = false) :
      NoSilentClose rt calls (history ++ [e]) :=
    noSilentClose_concat.mpr ⟨h, fun hcloses ↦ absurd (he.symm.trans hcloses) nofun⟩
  rcases a with i | ⟨i, refusal⟩ | ⟨i, result⟩ | ⟨i, j⟩ | i
  · simp only [DispatchState.next]
    split
    · exact hconcat h rfl
    · exact hconcat (hconcat h rfl) rfl
    · exact hconcat h rfl
  · simp only [DispatchState.next]
    split
    · exact h
    · exact hconcat h rfl
    · exact h
  · simp only [DispatchState.next]
    split <;> exact h
  · simp only [DispatchState.next]
    split <;> exact h
  · exact absurd rfl (ha i)

theorem noSilentClose_record (h : NoSilentClose rt calls s.history) (hinv : Faithful rt calls s)
    (hphase : s.phase i = .finished turn result)
    (hlooked : LookedAtInFlight rt calls s (.record i)) :
    NoSilentClose rt calls (s.next rt calls (.record i)).history := by
  simp only [DispatchState.next, hphase]
  refine noSilentClose_concat.mpr ⟨h, fun hcloses hunlooked ↦ ?_⟩
  refine hlooked turn result hphase hcloses (hunlooked.since_gate ?_)
  simp only [DispatchEvent.recordedAs, closes, opensIntent, Bool.and_eq_true,
    decide_eq_true_eq, Bool.not_eq_true'] at hcloses
  exact hinv.finished i turn result hphase hcloses.1.2 ⟨hcloses.1.1, hcloses.2⟩

end

/-- **No unverified work closes silently** where what is recorded between a checkpoint's gate and
its record has been looked at; and solids are changed under an open intent only. -/
theorem noSilentClose_of_lookedAt (rt : Runtime) (calls : ℕ → Call) :
    (∀ s, (dispatching rt calls).ReachableUnder (LookedAtInFlight rt calls) s →
      NoSilentClose rt calls s.history) ∧
    ∀ s, (dispatching rt calls).Reachable s → IntentAtGate rt calls s.history := by
  refine ⟨fun s h ↦ ?_, fun s h ↦ (Faithful.of_reachable h).ran⟩
  induction h with
  | init => exact noSilentClose_iff.mpr Since.not_nil
  | @step s a hreachable henabled hlooked ih =>
    have hinv := Faithful.of_reachable hreachable
    by_cases ha : ∃ i, a = .record i
    · obtain ⟨i, rfl⟩ := ha
      obtain ⟨turn, result, hphase⟩ := henabled
      exact noSilentClose_record ih hinv hphase hlooked
    · exact noSilentClose_next ih fun i hi ↦ ha ⟨i, hi⟩

/-! ## Two runs -/

/-- A runtime whose texts are no JSON. -/
private def plain : Runtime := ⟨fun _ ↦ none, fun _ ↦ "REFUSED", fun tool _ ↦ tool⟩

private def done : ToolResult := ⟨["done"], false, false⟩

/-- A checkpoint, a box, a look at it, and the checkpoint that closes the first. -/
private def looking : ℕ → Call
  | 0 => ⟨"timeline_checkpoint", .object [("name", .string "bore the housing")]⟩
  | 1 => ⟨"create_box", .object []⟩
  | 2 => ⟨"verify_part", .object []⟩
  | _ => ⟨"timeline_checkpoint", .object [("name", .string "drill the flange")]⟩

private def serial : List DispatchStep :=
  [.gate 0, .handle 0 done, .record 0, .gate 1, .live 1 none, .handle 1 done, .record 1, .gate 2,
    .live 2 none, .handle 2 done, .record 2, .gate 3, .handle 3 done, .record 3]

/-- The box is looked at before its intent is closed. -/
theorem noSilentClose_serial :
    NoSilentClose plain looking ((dispatching plain looking).run .new serial).history := by
  refine (noSilentClose_of_lookedAt plain looking).1 _ (GuardedSystem.ReachableUnder.init.run ?_)
  have hguard {history : List DispatchEvent} {i turn : ℕ} {result : ToolResult}
      (h : closes plain (looking i) result = false ∨
        ¬ Since (fun before e ↦ (e.recordedAs looking (isWork plain) ∧
          IntentOpen plain looking before) ∧ .gated i ∈ before)
          (fun e ↦ e.recordedAs looking (settles plain)) history) :
      ∀ t r, DispatchPhase.finished turn result = .finished t r →
        closes plain (looking i) r → ¬ Since (fun before e ↦
          (e.recordedAs looking (isWork plain) ∧ IntentOpen plain looking before) ∧
            .gated i ∈ before) (fun e ↦ e.recordedAs looking (settles plain)) history := by
    intro t r heq hcloses
    obtain ⟨-, rfl⟩ := DispatchPhase.finished.inj heq
    exact h.resolve_left (by rw [hcloses]; exact Bool.noConfusion)
  unfold IntentOpen at hguard
  exact ⟨rfl, trivial, ⟨_, rfl⟩, trivial, ⟨_, _, rfl⟩, hguard (Or.inr (by decide +kernel)), rfl,
    trivial, ⟨⟨_, rfl⟩, nofun⟩, trivial, ⟨_, rfl⟩, trivial, ⟨_, _, rfl⟩,
    hguard (Or.inl (by decide +kernel)), rfl, trivial, ⟨⟨_, rfl⟩, nofun⟩, trivial, ⟨_, rfl⟩,
    trivial, ⟨_, _, rfl⟩, hguard (Or.inl (by decide +kernel)), rfl, trivial, ⟨_, rfl⟩, trivial,
    ⟨_, _, rfl⟩, hguard (Or.inr (by decide +kernel)), trivial⟩

private def overlapping : ℕ → Call
  | 0 => ⟨"timeline_checkpoint", .object [("name", .string "bore the housing")]⟩
  | 1 => ⟨"create_box", .object []⟩
  | _ => ⟨"timeline_checkpoint", .object [("name", .string "drill the flange")]⟩

/-- The last checkpoint passes its gate while the box is being created, and is recorded after. -/
private def overlap : List DispatchStep :=
  [.gate 0, .handle 0 done, .record 0, .gate 1, .live 1 none, .gate 2, .handle 1 done, .record 1,
    .handle 2 done, .record 2]

/-- **A box is closed over unseen**: its checkpoint passed the gate before the box was recorded. -/
theorem not_noSilentClose_overlap :
    ¬ ∀ (rt : Runtime) (calls : ℕ → Call) (s : DispatchState),
      (dispatching rt calls).Reachable s →
        NoSilentClose rt calls s.history ∧ IntentAtGate rt calls s.history := by
  intro h
  have hreachable : (dispatching plain overlapping).Reachable
      ((dispatching plain overlapping).run .new overlap) := by
    refine GuardedSystem.ReachableUnder.init.run ?_
    exact ⟨rfl, trivial, ⟨_, rfl⟩, trivial, ⟨_, _, rfl⟩, trivial, rfl, trivial, ⟨⟨_, rfl⟩, nofun⟩,
      trivial, rfl, trivial, ⟨_, rfl⟩, trivial, ⟨_, _, rfl⟩, trivial, ⟨_, rfl⟩, trivial,
      ⟨_, _, rfl⟩, trivial, trivial⟩
  refine noSilentClose_iff.mp (h _ _ _ hreachable).1 ?_
  unfold Unlooked IntentOpen
  decide +kernel

end Gates

end RosheraCad
