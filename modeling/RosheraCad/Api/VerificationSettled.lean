import RosheraCad.Api.VerificationScope
import RosheraCad.Library.Since

/-!
# Unchecked work and the checkpoint

A settling answer removes the whole entry, whatever was recorded while its request ran. In runs
where nothing recorded meanwhile is left to remove, every change a checkpoint closes over was
settled by a request that started after it.
-/

namespace RosheraCad

namespace VerificationScope

section Histories

variable (requests : ℕ → ScopeRequest) (key : String)

def ScopeEvent.builtFor : ScopeEvent → Prop
  | .built i => agentSessionKey (requests i) = some key
  | _ => False

def ScopeEvent.settledFor : ScopeEvent → Prop
  | .answered i response => ScopeState.settledBy (requests i) response = some key
  | _ => False

instance : DecidablePred (ScopeEvent.builtFor requests key)
  | .built _ => inferInstanceAs (Decidable (_ = _))
  | .started _ | .answered _ _ => inferInstanceAs (Decidable False)

instance : DecidablePred (ScopeEvent.settledFor requests key)
  | .answered _ _ => inferInstanceAs (Decidable (_ = _))
  | .started _ | .built _ => inferInstanceAs (Decidable False)

section

variable {requests key} {i : ℕ} {response : ScopeResponse}

@[simp] theorem builtFor_started : (ScopeEvent.started i).builtFor requests key ↔ False := Iff.rfl

@[simp] theorem builtFor_built : (ScopeEvent.built i).builtFor requests key ↔
    agentSessionKey (requests i) = some key := Iff.rfl

@[simp] theorem builtFor_answered :
    (ScopeEvent.answered i response).builtFor requests key ↔ False := Iff.rfl

@[simp] theorem settledFor_started :
    (ScopeEvent.started i).settledFor requests key ↔ False := Iff.rfl

@[simp] theorem settledFor_built : (ScopeEvent.built i).settledFor requests key ↔ False := Iff.rfl

@[simp] theorem settledFor_answered : (ScopeEvent.answered i response).settledFor requests key ↔
    ScopeState.settledBy (requests i) response = some key := Iff.rfl

end

def ScopeEvent.request : ScopeEvent → ℕ
  | .started i => i
  | .built i => i
  | .answered i _ => i

def ofSession (history : List ScopeEvent) : List ScopeEvent :=
  history.filter fun e ↦ agentSessionKey (requests e.request) = some key

/-- A change of the session that no request started later has settled. -/
def Unsettled (history : List ScopeEvent) : Prop :=
  ∃ before b after, history = before ++ .built b :: after ∧
    agentSessionKey (requests b) = some key ∧
    ∀ q response, .answered q response ∈ after →
      ScopeState.settledBy (requests q) response = some key → .started q ∉ after

def Standing (history : List ScopeEvent) : Prop :=
  Since (fun _ e ↦ e.builtFor requests key) (fun e ↦ e.settledFor requests key) history

end Histories

section Properties

variable (requests : ℕ → ScopeRequest)

def closes (request : ScopeRequest) (response : ScopeResponse) : Prop :=
  classify request = .checkpoint ∧ response.success = true ∧ request.body.any skips = false

/-- Every change recorded before a checkpoint was settled by a request that started after it. -/
def NoSilentClose (s : ScopeState) : Prop :=
  ∀ before i response after, s.history = before ++ .answered i response :: after →
    closes (requests i) response → ∀ key, agentSessionKey (requests i) = some key →
      ¬ Unsettled requests key before

/-- When a settling request is answered, nothing its session recorded since it started is left. -/
def SettledMeanwhile (s : ScopeState) : ScopeStep → Prop
  | .answer i => ∀ response key, s.phase i = .handled response →
      ScopeState.settledBy (requests i) response = some key →
        ¬ Since (fun before e ↦ e.builtFor requests key ∧ .started i ∈ before)
          (fun e ↦ e.settledFor requests key) s.history
  | _ => True

end Properties

/-! ## The entry of a session -/

section Tally

variable (requests : ℕ → ScopeRequest) (key : String)

def tallyStep (entry : Option Unverified) : ScopeEvent → Option Unverified
  | .built i =>
    if agentSessionKey (requests i) = some key then
      let what := (requests i).method.name ++ " " ++ (requests i).path
      let old := entry.getD ⟨0, []⟩
      some ⟨old.count + 1, if old.built.contains what then old.built else old.built ++ [what]⟩
    else entry
  | .answered i response =>
    if ScopeState.settledBy (requests i) response = some key then none else entry
  | .started _ => entry

def tally (history : List ScopeEvent) : Option Unverified :=
  history.foldl (tallyStep requests key) none

variable {requests key} {history : List ScopeEvent} {e : ScopeEvent}

theorem tally_concat : tally requests key (history ++ [e]) =
    tallyStep requests key (tally requests key history) e := by
  rw [tally, List.foldl_append]
  rfl

theorem tallyStep_other (entry : Option Unverified)
    (h : agentSessionKey (requests e.request) ≠ some key) :
    tallyStep requests key entry e = entry := by
  rcases e with i | i | ⟨i, response⟩
  · rfl
  · exact if_neg h
  · refine if_neg fun hsettled ↦ h ?_
    rw [ScopeState.settledBy] at hsettled
    split at hsettled
    · exact hsettled
    · contradiction

theorem tally_ofSession : tally requests key (ofSession requests key history) =
    tally requests key history := by
  induction history using List.reverseRecOn with
  | nil => rfl
  | append_singleton history e ih =>
    rw [tally_concat, ofSession, List.filter_append, List.filter_singleton]
    by_cases h : agentSessionKey (requests e.request) = some key
    · rw [decide_eq_true h, cond_true, tally_concat, ← ih]
      rfl
    · rw [decide_eq_false h, cond_false, List.append_nil, tallyStep_other _ h, ← ih]
      rfl

theorem tally_isSome : ((tally requests key history).filter (0 < ·.count)).isSome ↔
    Standing requests key history := by
  induction history using List.reverseRecOn with
  | nil => exact iff_of_false nofun Since.not_nil
  | append_singleton history e ih =>
    rw [tally_concat, Standing, Since.concat_iff]
    rw [Standing] at ih
    rcases e with i | i | ⟨i, response⟩
    · simpa [tallyStep] using ih
    · by_cases h : agentSessionKey (requests i) = some key
      · simp [tallyStep, h]
      · simpa [tallyStep, h] using ih
    · by_cases h : ScopeState.settledBy (requests i) response = some key
      · simp [tallyStep, h]
      · simpa [tallyStep, h] using ih

end Tally

/-! ## Settled by a later request -/

variable {response : ScopeResponse}

section Covered

variable (requests : ℕ → ScopeRequest)

def SettledIn (key : String) (events : List ScopeEvent) : Prop :=
  ∃ q response, .answered q response ∈ events ∧
    ScopeState.settledBy (requests q) response = some key ∧ .started q ∈ events

/-- Every change that an answer has settled was settled by a request that started after it. -/
def Covered (key : String) (history : List ScopeEvent) : Prop :=
  ∀ before b after, history = before ++ .built b :: after →
    agentSessionKey (requests b) = some key →
      (∀ e ∈ after, ¬ e.settledFor requests key) ∨ SettledIn requests key after

variable {requests} {key : String} {history : List ScopeEvent} {e : ScopeEvent}

theorem Covered.standing (h : Covered requests key history)
    (hunsettled : Unsettled requests key history) :
    Standing requests key history := by
  obtain ⟨before, b, after, heq, hkey, hnone⟩ := hunsettled
  rcases h before b after heq hkey with hstop | ⟨q, response, hanswered, hsettled, hstarted⟩
  · exact ⟨before, .built b, after, heq, hkey, hstop⟩
  · exact absurd hstarted (hnone q response hanswered hsettled)

theorem SettledIn.concat {events : List ScopeEvent} (h : SettledIn requests key events) :
    SettledIn requests key (events ++ [e]) := by
  obtain ⟨q, response, hanswered, hsettled, hstarted⟩ := h
  exact ⟨q, response, List.mem_append_left _ hanswered, hsettled, List.mem_append_left _ hstarted⟩

theorem Covered.concat (h : Covered requests key history) (he : ¬ e.settledFor requests key) :
    Covered requests key (history ++ [e]) := by
  intro before b after heq hkey
  rcases Since.concat_split heq with ⟨-, -, rfl⟩ | ⟨rest, rfl, rfl⟩
  · exact Or.inl nofun
  · rcases h before b rest rfl hkey with hstop | hsettled
    · refine Or.inl fun e' he' ↦ ?_
      rcases List.mem_append.mp he' with he' | he'
      · exact hstop e' he'
      · exact List.mem_singleton.mp he' ▸ he
    · exact Or.inr hsettled.concat

/-- **A settling answer** covers what was recorded before its request started. -/
theorem Covered.settle (h : Covered requests key history) {i : ℕ}
    (hsettled : ScopeState.settledBy (requests i) response = some key)
    (hstarted : .started i ∈ history)
    (hmeanwhile : ¬ Since (fun before e ↦ e.builtFor requests key ∧ .started i ∈ before)
      (fun e ↦ e.settledFor requests key) history) :
    Covered requests key (history ++ [.answered i response]) := by
  intro before b after heq hkey
  rcases Since.concat_split heq with ⟨-, hb, -⟩ | ⟨rest, rfl, rfl⟩
  · contradiction
  · refine Or.inr ?_
    rcases h before b rest rfl hkey with hstop | hcovered
    · refine ⟨i, response, List.mem_append_right _ (List.mem_singleton_self _), hsettled, ?_⟩
      rcases List.mem_append.mp hstarted with hmem | hmem
      · exact absurd ⟨before, .built b, rest, rfl, ⟨hkey, hmem⟩, hstop⟩ hmeanwhile
      · rcases List.mem_cons.mp hmem with heq | hmem
        · contradiction
        · exact List.mem_append_left _ hmem
    · exact hcovered.concat

end Covered

/-! ## Runs -/

section Runs

variable (requests : ℕ → ScopeRequest)

def ScopePhase.InFlight : ScopePhase → Prop
  | .running => True
  | .handled _ => True
  | _ => False

def Checked (request : ScopeRequest) : Prop :=
  classify request = .checkpoint ∧ ∃ body, request.body = some body ∧ skips body = false

/-- The invariant of a server. -/
structure Consistent (s : ScopeState) : Prop where
  entries : ∀ key : String, s.ledger[key]? = tally requests key s.history
  started : ∀ i, (s.phase i).InFlight → .started i ∈ s.history
  passed : ∀ i, (s.phase i).InFlight → Checked (requests i) →
    ∀ key, agentSessionKey (requests i) = some key →
      ∃ before after, s.history = before ++ .started i :: after ∧ ¬ Standing requests key before
  rejected : ∀ i response, s.phase i = .handled response → classify (requests i) = .checkpoint →
    (requests i).body = none → response.success = false

end Runs

section

variable {requests : ℕ → ScopeRequest} {s : ScopeState} {i : ℕ} {key : String} {a : ScopeStep}

/-- A checkpoint passes the layer only when nothing stands. -/
theorem Consistent.gate (h : Consistent requests s) (hgate : gate s.ledger (requests i) = none)
    (hchecked : Checked (requests i)) (hkey : agentSessionKey (requests i) = some key) :
    ¬ Standing requests key s.history := by
  obtain ⟨hkind, body, hbody, hskips⟩ := hchecked
  intro hstanding
  obtain ⟨pending, hpending⟩ := Option.isSome_iff_exists.mp (tally_isSome.mpr hstanding)
  have hledger : s.ledger.pending key = some pending := by
    rw [VerificationLedger.pending, h.entries, hpending]
  rw [VerificationScope.gate, hkey, hkind, hbody] at hgate
  simp [hledger, hskips] at hgate

theorem Consistent.new : Consistent requests ScopeState.new where
  entries key := by simp [ScopeState.new, tally]
  started i h := h.elim
  passed i h := h.elim
  rejected i response h := by simp [ScopeState.new] at h

theorem update_cases (phase : ℕ → ScopePhase) {p : ScopePhase} {j : ℕ} :
    (j = i ∧ Function.update phase i p j = p) ∨
      (j ≠ i ∧ Function.update phase i p j = phase j) := by
  by_cases hji : j = i
  · subst hji
    exact Or.inl ⟨rfl, Function.update_self ..⟩
  · exact Or.inr ⟨hji, Function.update_of_ne hji ..⟩

theorem inFlight_of_update {phase : ℕ → ScopePhase} {p : ScopePhase} {j : ℕ} (hp : ¬ p.InFlight)
    (hj : (Function.update phase i p j).InFlight) : (phase j).InFlight := by
  rcases update_cases phase (i := i) (p := p) (j := j) with ⟨-, hupdate⟩ | ⟨-, hupdate⟩
  · rw [hupdate] at hj
    exact absurd hj hp
  · rwa [hupdate] at hj

theorem Consistent.flight (h : Consistent requests s) {s' : ScopeState} (events : List ScopeEvent)
    (hhistory : s'.history = s.history ++ events)
    (hentries : ∀ key : String, s'.ledger[key]? = tally requests key s'.history)
    (hphase : ∀ j, (s'.phase j).InFlight → (s.phase j).InFlight ∨
      (.started j ∈ s'.history ∧ (Checked (requests j) →
        ∀ key, agentSessionKey (requests j) = some key → ∃ before after,
          s'.history = before ++ .started j :: after ∧ ¬ Standing requests key before)))
    (hrejected : ∀ j response, s'.phase j = .handled response → s.phase j = .handled response ∨
      (classify (requests j) = .checkpoint → (requests j).body = none → response.success = false)) :
    Consistent requests s' where
  entries := hentries
  started j hj := by
    rcases hphase j hj with hold | ⟨hstarted, -⟩
    · rw [hhistory]
      exact List.mem_append_left _ (h.started j hold)
    · exact hstarted
  passed j hj hchecked key hkey := by
    rcases hphase j hj with hold | ⟨-, hpassed⟩
    · obtain ⟨before, after, heq, hstanding⟩ := h.passed j hold hchecked key hkey
      refine ⟨before, after ++ events, ?_, hstanding⟩
      rw [hhistory, heq, List.append_assoc, List.cons_append]
    · exact hpassed hchecked key hkey
  rejected j response hj := by
    rcases hrejected j response hj with hold | hrejected
    · exact h.rejected j response hold
    · exact hrejected

theorem handled_of_update {phase : ℕ → ScopePhase} (p : ScopePhase) {j : ℕ}
    (hp : ∀ r, p ≠ .handled r)
    (hj : Function.update phase i p j = .handled response) : phase j = .handled response := by
  rcases update_cases phase (i := i) (p := p) (j := j) with ⟨-, hupdate⟩ | ⟨-, hupdate⟩
  · exact absurd (hupdate.symm.trans hj) (hp response)
  · exact hupdate.symm.trans hj

section

variable (h : Consistent requests s)

include h

theorem Consistent.arrive :
    Consistent requests (s.next requests (.arrive i)) := by
  simp only [ScopeState.next]
  split
  · next refusal _ =>
    exact h.flight [] (List.append_nil _).symm h.entries
      (fun j hj ↦ Or.inl (inFlight_of_update id hj))
      fun j response hj ↦ Or.inl (handled_of_update (.refused refusal) nofun hj)
  · next hgate =>
    refine h.flight _ rfl (fun key ↦ ?_) (fun j hj ↦ ?_)
      fun j response hj ↦ Or.inl (handled_of_update .running nofun hj)
    · rw [tally_concat]
      exact h.entries key
    · rcases update_cases s.phase (i := i) (p := .running) (j := j) with ⟨rfl, -⟩ | ⟨-, hp⟩
      · refine Or.inr ⟨by simp, fun hchecked key hkey ↦ ⟨s.history, [], rfl, ?_⟩⟩
        exact h.gate hgate hchecked hkey
      · exact Or.inl (hp ▸ hj)

theorem Consistent.handle (henabled : s.Enabled requests (.handle i response)) :
    Consistent requests (s.next requests (.handle i response)) := by
  obtain ⟨hrunning, hrejects⟩ := henabled
  have hphase : ∀ j, (Function.update s.phase i (.handled response) j).InFlight →
      (s.phase j).InFlight := by
    intro j hj
    rcases update_cases s.phase (i := i) (p := .handled response) (j := j) with
      ⟨rfl, -⟩ | ⟨-, hp⟩
    · rw [hrunning]
      trivial
    · exact hp ▸ hj
  have hrejected : ∀ j r, Function.update s.phase i (.handled response) j = .handled r →
      s.phase j = .handled r ∨ (classify (requests j) = .checkpoint →
        (requests j).body = none → r.success = false) := by
    intro j r hj
    rcases update_cases s.phase (i := i) (p := .handled response) (j := j) with
      ⟨rfl, hp⟩ | ⟨-, hp⟩
    · obtain rfl := ScopePhase.handled.inj (hp.symm.trans hj)
      exact Or.inr hrejects
    · exact Or.inl (hp ▸ hj)
  simp only [ScopeState.next]
  split
  · next key hbuilt =>
    refine h.flight _ rfl (fun k ↦ ?_) (fun j hj ↦ Or.inl (hphase j hj)) hrejected
    have hkey : agentSessionKey (requests i) = some key := by
      rw [ScopeState.builtBy] at hbuilt
      split at hbuilt
      · exact hbuilt
      · contradiction
    rw [tally_concat, tallyStep, hkey, ← h.entries k]
    by_cases hk : k = key
    · subst hk
      simp [VerificationLedger.recordBuilt]
    · simp [VerificationLedger.recordBuilt, hk, Ne.symm hk]
  · exact h.flight [] (List.append_nil _).symm h.entries
      (fun j hj ↦ Or.inl (hphase j hj)) hrejected

theorem Consistent.answer (henabled : s.Enabled requests (.answer i)) :
    Consistent requests (s.next requests (.answer i)) := by
  obtain ⟨response, hhandled⟩ := henabled
  simp only [ScopeState.next, hhandled]
  refine h.flight _ rfl (fun k ↦ ?_) (fun j hj ↦ Or.inl (inFlight_of_update id hj))
    fun j r hj ↦ Or.inl (handled_of_update (.answered response) nofun hj)
  rw [tally_concat, tallyStep, ← h.entries k]
  rcases ScopeState.settledBy (requests i) response with _ | key
  · simp
  · by_cases hk : k = key
    · subst hk
      simp [VerificationLedger.settle]
    · simp [VerificationLedger.settle, hk, Ne.symm hk]

/-- **One step keeps the invariant.** -/
theorem Consistent.step
    (henabled : s.Enabled requests a) : Consistent requests (s.next requests a) := by
  rcases a with i | ⟨i, response⟩ | i
  · exact h.arrive
  · exact h.handle henabled
  · exact h.answer henabled

end

theorem Consistent.of_reachable {G : ScopeState → ScopeStep → Prop}
    (h : (serving requests).ReachableUnder G s) : Consistent requests s :=
  h.invariant _ .new fun _ _ _ h henabled _ ↦ h.step henabled

theorem history_next (requests : ℕ → ScopeRequest) (ha : ∀ i, a ≠ .answer i) :
    (s.next requests a).history = s.history ∨
      ∃ e, (s.next requests a).history = s.history ++ [e] ∧
        ∀ i response, e ≠ .answered i response := by
  rcases a with i | ⟨i, response⟩ | i
  · simp only [ScopeState.next]
    split
    · exact Or.inl rfl
    · exact Or.inr ⟨_, rfl, nofun⟩
  · simp only [ScopeState.next]
    split
    · exact Or.inr ⟨_, rfl, nofun⟩
    · exact Or.inl rfl
  · exact absurd rfl (ha i)

/-- **Every change settled was settled by a later request**, when each settling answer finds nothing
recorded since its request started. -/
theorem Covered.step (h : ∀ key, Covered requests key s.history) (hinv : Consistent requests s)
    (henabled : s.Enabled requests a) (hsettled : SettledMeanwhile requests s a) :
    ∀ key, Covered requests key (s.next requests a).history := by
  intro key
  by_cases ha : ∃ i, a = .answer i
  · obtain ⟨i, rfl⟩ := ha
    obtain ⟨response, hphase⟩ := henabled
    simp only [ScopeState.next, hphase]
    by_cases hkey : ScopeState.settledBy (requests i) response = some key
    · refine (h key).settle hkey (hinv.started i ?_) (hsettled response key hphase hkey)
      rw [hphase]
      trivial
    · exact (h key).concat hkey
  · rcases history_next (s := s) requests (a := a) fun i hi ↦ ha ⟨i, hi⟩ with
      heq | ⟨e, heq, hnone⟩
    · exact heq ▸ h key
    · rw [heq]
      refine (h key).concat ?_
      rcases e with i | i | ⟨i, response⟩
      · exact id
      · exact id
      · exact absurd rfl (hnone i response)

/-- **An answer closes nothing silently.** -/
theorem NoSilentClose.step (h : NoSilentClose requests s) (hinv : Consistent requests s)
    (hcovered : ∀ key, Covered requests key s.history)
    (henabled : s.Enabled requests a) (hsettled : SettledMeanwhile requests s a) :
    NoSilentClose requests (s.next requests a) := by
  intro before j response after heq hcloses key hkey
  by_cases ha : ∃ i, a = .answer i
  · obtain ⟨i, rfl⟩ := ha
    obtain ⟨answer, hphase⟩ := henabled
    simp only [ScopeState.next, hphase] at heq
    rcases Since.concat_split heq with ⟨rfl, hanswer, -⟩ | ⟨rest, -, hold⟩
    · obtain ⟨rfl, rfl⟩ := ScopeEvent.answered.inj hanswer
      obtain ⟨hkind, hsuccess, hskips⟩ := hcloses
      intro hunsettled
      -- A checkpoint that could not be read fails, so this one was read.
      obtain ⟨body, hbody⟩ : ∃ body, (requests i).body = some body := by
        rcases hbody : (requests i).body with _ | body
        · exact absurd (hsuccess.symm.trans (hinv.rejected i answer hphase hkind hbody)) nofun
        · exact ⟨body, rfl⟩
      rw [hbody, Option.any_some] at hskips
      have hby : ScopeState.settledBy (requests i) answer = some key := by
        rw [ScopeState.settledBy, settles, hkind, hbody, hsuccess]
        exact hkey
      have hflight : (s.phase i).InFlight := by
        rw [hphase]
        trivial
      obtain ⟨h₁, h₂, hhistory, hstanding⟩ :=
        hinv.passed i hflight ⟨hkind, body, hbody, hskips⟩ key hkey
      have hnow := (hcovered key).standing hunsettled
      refine hsettled answer key hphase hby ?_
      rw [hhistory] at hnow ⊢
      exact Since.after_mark hnow hstanding id
    · exact h before j response rest hold hcloses key hkey
  · rcases history_next (s := s) requests (a := a) fun i hi ↦ ha ⟨i, hi⟩ with
      hsame | ⟨e, happend, hnone⟩
    · exact h before j response after (hsame ▸ heq) hcloses key hkey
    · rw [happend] at heq
      rcases Since.concat_split heq with ⟨-, he, -⟩ | ⟨rest, -, hold⟩
      · exact absurd he (hnone j response)
      · exact h before j response rest hold hcloses key hkey

end

/-- **No unverified work closes silently** where a settling answer leaves nothing recorded since its
request started; and a checkpoint's refusal depends on its own session's events alone. -/
theorem noSilentClose_of_settledMeanwhile (requests : ℕ → ScopeRequest) :
    (∀ s, (serving requests).ReachableUnder (SettledMeanwhile requests) s →
      NoSilentClose requests s) ∧
    ∀ s s', (serving requests).Reachable s → (serving requests).Reachable s' →
      ∀ i key, agentSessionKey (requests i) = some key →
        ofSession requests key s.history = ofSession requests key s'.history →
          gate s.ledger (requests i) = gate s'.ledger (requests i) := by
  refine ⟨fun s h ↦ ?_, fun s s' h h' i key hkey heq ↦ ?_⟩
  · have hboth : (∀ key, Covered requests key s.history) ∧ NoSilentClose requests s := by
      induction h with
      | init =>
        refine ⟨fun key before b after heq ↦ ?_, fun before i response after heq ↦ ?_⟩
        · exact absurd (List.nil_eq_append_iff.mp heq).2 nofun
        · exact absurd (List.nil_eq_append_iff.mp heq).2 nofun
      | step hreachable henabled hsettled ih =>
        have hinv := Consistent.of_reachable hreachable
        exact ⟨Covered.step ih.1 hinv henabled hsettled,
          ih.2.step hinv ih.1 henabled hsettled⟩
    exact hboth.2
  · have hentry : s.ledger[key]? = s'.ledger[key]? := by
      rw [(Consistent.of_reachable h).entries, (Consistent.of_reachable h').entries,
        ← tally_ofSession, heq, tally_ofSession]
    have hpending : s.ledger.pending key = s'.ledger.pending key :=
      congrArg (Option.filter _) hentry
    rw [gate, gate, hkey]
    rcases classify (requests i) <;> rcases (requests i).body with _ | body
    all_goals first | rfl | simp only [hpending]

/-! ## A look that overlaps a change -/

private def asAgent (method : Method) (path : String) (query : Option String) (body : Option Json)
    (guarded : Bool) : ScopeRequest :=
  ⟨some "model", some "s1", method, path, query, body, guarded⟩

/-- A full certificate read, a box, and a checkpoint. -/
private def requests : ℕ → ScopeRequest
  | 0 => asAgent .get "/api/agent/parts/1/perception" (some "full=1") none false
  | 1 => asAgent .post "/api/geometry/box" none (some .null) true
  | _ => asAgent .post "/api/timeline/checkpoint" none
      (some (.object [("name", .string "drill the flange")])) false

private def ok : ScopeResponse := ⟨true, none⟩

private def overlapping : List ScopeStep :=
  [.arrive 0, .arrive 1, .handle 1 ok, .answer 1, .handle 0 ok, .answer 0, .arrive 2, .handle 2 ok,
    .answer 2]

/-- The box is looked at once it is recorded. -/
private def inTurn : List ScopeStep :=
  [.arrive 1, .handle 1 ok, .answer 1, .arrive 0, .handle 0 ok, .answer 0, .arrive 2, .handle 2 ok,
    .answer 2]

private theorem settledMeanwhile_answer {s : ScopeState} {i : ℕ}
    {key : String} (hphase : s.phase i = .handled response)
    (hkey : ScopeState.settledBy (requests i) response = some key)
    (h : ¬ Since (fun before e ↦ e.builtFor requests key ∧ .started i ∈ before)
      (fun e ↦ e.settledFor requests key) s.history) :
    SettledMeanwhile requests s (.answer i) := by
  intro r k hr hk
  obtain rfl := ScopePhase.handled.inj (hphase.symm.trans hr)
  obtain rfl := Option.some_inj.mp (hkey.symm.trans hk)
  exact h

/-- The box is looked at before its intent is closed. -/
theorem noSilentClose_inTurn : NoSilentClose requests ((serving requests).run .new inTurn) := by
  refine (noSilentClose_of_settledMeanwhile requests).1 _
    (GuardedSystem.ReachableUnder.init.run ?_)
  refine ⟨rfl, trivial, ⟨rfl, nofun⟩, trivial, ⟨_, rfl⟩, ?_, rfl, trivial, ⟨rfl, nofun⟩, trivial,
    ⟨_, rfl⟩, ?_, rfl, trivial, ⟨rfl, nofun⟩, trivial, ⟨_, rfl⟩, ?_, trivial⟩
  · intro response key hphase hsettled
    obtain rfl := ScopePhase.handled.inj hphase
    contradiction
  · exact settledMeanwhile_answer rfl rfl (by decide +kernel)
  · exact settledMeanwhile_answer rfl rfl (by decide +kernel)

/-- **A box is closed over unseen**: the read that settled it had started before it was built. -/
theorem not_noSilentClose_overlapping :
    ¬ ∀ (requests : ℕ → ScopeRequest) (s : ScopeState), (serving requests).Reachable s →
      NoSilentClose requests s := by
  intro h
  have hreachable : (serving requests).Reachable ((serving requests).run .new overlapping) := by
    refine GuardedSystem.ReachableUnder.init.run ?_
    exact ⟨rfl, trivial, rfl, trivial, ⟨rfl, nofun⟩, trivial, ⟨_, rfl⟩, trivial, ⟨rfl, nofun⟩,
      trivial, ⟨_, rfl⟩, trivial, rfl, trivial, ⟨rfl, nofun⟩, trivial, ⟨_, rfl⟩, trivial, trivial⟩
  refine h _ _ hreachable [.started 0, .started 1, .built 1, .answered 1 ok, .answered 0 ok,
    .started 2] 2 ok [] rfl ⟨rfl, rfl, rfl⟩ "session:s1" rfl ⟨[.started 0, .started 1], 1,
    [.answered 1 ok, .answered 0 ok, .started 2], rfl, rfl, ?_⟩
  intro q response hanswered _ hstarted
  simp only [List.mem_cons, reduceCtorEq, ScopeEvent.answered.injEq, ScopeEvent.started.injEq,
    List.not_mem_nil, or_false, false_or] at hanswered hstarted
  omega

end VerificationScope

end RosheraCad
