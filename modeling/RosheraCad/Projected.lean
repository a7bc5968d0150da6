import RosheraCad.CanonicalRef
import RosheraCad.Library.Checked

/-!
# The law of the typed channels

A projected envelope says which entities an operation needed, created, modified and deleted. Its
law: no list holds an entity twice, no entity is in two of the last three lists, and each reference
is found in the list its channel asks for. The projection compares references by spelling and only
then reads them.
-/

namespace RosheraCad.KernelRef

/-! ## What an envelope records -/

/-- The entries of one channel. A key that is absent or not an array has none. -/
def entries (parameters : Json) (channel : String) : List Json :=
  ((parameters.get? channel).bind Json.asArray?).getD []

def spellings (parameters : Json) (channel : String) : List String :=
  (entries parameters channel).filterMap Json.asStr?

def channels : List String := ["inputs", "outputs", "deleted"]

variable [UuidParser] {x : String × ParsedRef} {parameters : Json} {p : ParsedRef}
  {texts : List String} {channel : String}

def Readable (parameters : Json) (channel : String) : Prop :=
  ∀ entry ∈ entries parameters channel, ∃ s p, entry.asStr? = some s ∧ parseRef s = .ok p

def Names (parameters : Json) (channel : String) (p : ParsedRef) : Prop :=
  ∃ s ∈ spellings parameters channel, parseRef s = .ok p

def SameEntity (a b : String) : Prop := ∃ p, parseRef a = .ok p ∧ parseRef b = .ok p

/-- **The lists hold distinct entities**, and no two of created, modified and deleted share one. -/
structure Distinct (outs : OperationOutputs) : Prop where
  created_nodup : (outs.created.map fun c ↦ (c.entityType, c.id)).Nodup
  modified_nodup : outs.modified.Nodup
  deleted_nodup : outs.deleted.Nodup
  created_disjoint : ∀ c ∈ outs.created, c.id ∉ outs.modified ∧ c.id ∉ outs.deleted
  modified_disjoint : ∀ id ∈ outs.modified, id ∉ outs.deleted

/-- **Each list holds what its channel asks for**, and no other entity. -/
structure Placed (parameters : Json) (ins : OperationInputs) (outs : OperationOutputs) : Prop where
  required : ∀ p : ParsedRef, p.Valid →
    (⟨p.id, p.entityType, .mustExist⟩ ∈ ins.requiredEntities ↔ Names parameters "inputs" p)
  created : ∀ p : ParsedRef, p.Valid → (⟨p.id, p.entityType, none⟩ ∈ outs.created ↔
    Names parameters "outputs" p ∧ ¬ Names parameters "inputs" p)
  modified : ∀ p : ParsedRef, p.Valid → (p.id ∈ outs.modified ↔
    Names parameters "outputs" p ∧ Names parameters "inputs" p)
  deleted : ∀ p : ParsedRef, p.Valid → (p.id ∈ outs.deleted ↔ Names parameters "deleted" p)

/-- **The law of an envelope**: one that cannot be read is refused whole, and what is projected is
distinct and placed. -/
structure EnvelopeLaw (parameters : Json) : Prop where
  refused : ∀ channel ∈ channels, ¬ Readable parameters channel →
    ∃ err, projectEnvelope parameters = .error err
  distinct : ∀ ins outs, projectEnvelope parameters = .ok (ins, outs) → Distinct outs
  placed : ∀ ins outs, projectEnvelope parameters = .ok (ins, outs) → Placed parameters ins outs

/-- Every reference can be read, no output is spelled again among the deleted, and a kind that does
not travel is in the id. -/
structure Projectable (parameters : Json) : Prop where
  readable : ∀ channel ∈ channels, Readable parameters channel
  modified : ∀ s ∈ spellings parameters "outputs", s ∈ spellings parameters "inputs" →
    ∀ p, parseRef s = .ok p → p.kindInId
  not_output : ∀ s ∈ spellings parameters "deleted", s ∉ spellings parameters "outputs"
  deleted : ∀ s ∈ spellings parameters "deleted", ∀ p, parseRef s = .ok p → p.kindInId

/-- The outputs and the deleted hold one spelling of each entity, also where an output is an input.
-/
structure SpelledAlike (parameters : Json) : Prop where
  outputs_deleted : ∀ a ∈ spellings parameters "outputs" ++ spellings parameters "deleted",
    ∀ b ∈ spellings parameters "outputs" ++ spellings parameters "deleted",
      SameEntity a b → a = b
  outputs_inputs : ∀ o ∈ spellings parameters "outputs", ∀ i ∈ spellings parameters "inputs",
    SameEntity o i → o ∈ spellings parameters "inputs"

theorem valid_of_parseRef {s : String} (h : parseRef s = .ok p) : p.Valid := by
  obtain ⟨t, htext, hne⟩ := toList_of_parseRef h
  exact valid_of_parseId ((parseRef_of_toList htext hne).mp h)

namespace ParsedRef.Valid

omit [UuidParser]

variable {p q : ParsedRef}

theorem ext (hp : p.Valid) (hq : q.Valid) (hkind : p.entityType = q.entityType)
    (hid : p.id = q.id) : p = q := by
  have hin : p.kindInId = q.kindInId := by rw [hp.kind_in_id, hq.kind_in_id, hid]
  cases p
  cases q
  cases hkind
  cases hid
  cases hin
  rfl

theorem ext_of_kindInId (hp : p.Valid) (hq : q.Valid) (hin : p.kindInId) (hid : p.id = q.id) :
    p = q := by
  rw [hp.kind_in_id] at hin
  obtain ⟨⟨t, n⟩, hdecode⟩ := Option.isSome_iff_exists.mp hin
  refine hp.ext hq ?_ hid
  rw [← hp.own_kind t n hdecode, ← hq.own_kind t n (hid ▸ hdecode)]

end ParsedRef.Valid

/-! ## Reading the channels -/

omit [UuidParser] in
private theorem nodup_eraseDups {α : Type*} [DecidableEq α] : ∀ l : List α, l.eraseDups.Nodup
  | [] => List.nodup_nil
  | a :: l => by
    have hlt : (l.filter fun b ↦ !b == a).length < l.length + 1 :=
      Nat.lt_succ_of_le (List.length_filter_le _ _)
    rw [List.eraseDups_cons, List.nodup_cons, List.mem_eraseDups]
    exact ⟨by simp, nodup_eraseDups _⟩
termination_by l => l.length

omit [UuidParser] in
theorem wireList_eq_ok :
    wireList parameters channel = .ok texts ↔
      (∀ entry ∈ entries parameters channel, ∃ s, entry.asStr? = some s) ∧
        texts = spellings parameters channel := by
  unfold wireList spellings entries
  rcases (parameters.get? channel).bind Json.asArray? with - | array
  · refine ⟨fun h ↦ ⟨nofun, (Except.ok.inj h).symm⟩, fun ⟨_, h⟩ ↦ congrArg _ h.symm⟩
  · rw [Except.mapM_eq_ok]
    change _ ↔ (∀ entry ∈ array, _) ∧ texts = array.filterMap Json.asStr?
    induction array generalizing texts with
    | nil => simp
    | cons entry array ih =>
      rcases hentry : entry.asStr? with - | s
      · refine iff_of_false (fun h ↦ ?_) fun h ↦ ?_
        · cases h with
          | cons hs _ => simp [hentry] at hs
        · obtain ⟨s, hs⟩ := h.1 entry List.mem_cons_self
          simp [hentry] at hs
      · rw [List.forall₂_cons_left_iff, List.filterMap_cons_some hentry, List.forall_mem_cons]
        constructor
        · rintro ⟨s', texts, hs, htexts, rfl⟩
          obtain rfl : s = s' := by simpa [hentry] using hs
          obtain ⟨hall, rfl⟩ := ih.mp htexts
          exact ⟨⟨⟨s, hentry⟩, hall⟩, rfl⟩
        · rintro ⟨⟨-, hall⟩, rfl⟩
          exact ⟨s, _, by simp [hentry], ih.mpr ⟨hall, rfl⟩, rfl⟩

def Parsed (texts : List String) (refs : List (String × ParsedRef)) : Prop :=
  refs.map Prod.fst = texts.eraseDups ∧ ∀ x ∈ refs, parseRef x.1 = .ok x.2

theorem parseChannel_eq_ok {refs : List (String × ParsedRef)} :
    parseChannel texts channel = .ok refs ↔ Parsed texts refs := by
  rw [parseChannel, Except.mapM_eq_ok, Parsed]
  generalize texts.eraseDups = keys
  induction keys generalizing refs with
  | nil => simp +contextual
  | cons s keys ih =>
    rw [List.forall₂_cons_left_iff]
    constructor
    · rintro ⟨x, refs, hx, hrefs, rfl⟩
      obtain ⟨hkeys, hall⟩ := ih.mp hrefs
      rcases hs : parseRef s with err | p
      · simp [hs] at hx
      · obtain rfl : (s, p) = x := by simpa [hs] using hx
        exact ⟨congrArg (s :: ·) hkeys, List.forall_mem_cons.mpr ⟨hs, hall⟩⟩
    · rintro ⟨hkeys, hall⟩
      obtain ⟨x, refs, rfl, hx, hrest⟩ := List.map_eq_cons_iff.mp hkeys
      obtain ⟨hp, hall⟩ := List.forall_mem_cons.mp hall
      refine ⟨x, refs, ?_, ih.mpr ⟨hrest, hall⟩, rfl⟩
      subst hx
      simp [hp]

namespace Parsed

variable {texts : List String} {refs : List (String × ParsedRef)} {s : String} {p : ParsedRef}

theorem mem_keys (h : Parsed texts refs) : s ∈ refs.map Prod.fst ↔ s ∈ texts := by
  rw [h.1, List.mem_eraseDups]

theorem nodup (h : Parsed texts refs) : refs.Nodup :=
  List.Nodup.of_map Prod.fst (h.1 ▸ nodup_eraseDups texts)

theorem mem_iff (h : Parsed texts refs) : (s, p) ∈ refs ↔ s ∈ texts ∧ parseRef s = .ok p := by
  constructor
  · intro hmem
    exact ⟨h.mem_keys.mp (List.mem_map_of_mem hmem), h.2 _ hmem⟩
  · rintro ⟨hs, hp⟩
    obtain ⟨⟨s', q⟩, hmem, rfl⟩ := List.mem_map.mp (h.mem_keys.mpr hs)
    obtain rfl := Except.ok.inj (hp.symm.trans (h.2 _ hmem))
    exact hmem

end Parsed

theorem exists_parsed (h : ∀ s ∈ texts, ∃ p, parseRef s = .ok p) :
    ∃ refs, Parsed texts refs := by
  have hkeys : ∀ s ∈ texts.eraseDups, ∃ p, parseRef s = .ok p := fun s hs ↦
    h s (List.mem_eraseDups.mp hs)
  unfold Parsed
  generalize texts.eraseDups = keys at hkeys
  induction keys with
  | nil => exact ⟨[], rfl, nofun⟩
  | cons s keys ih =>
    obtain ⟨⟨p, hp⟩, hkeys⟩ := List.forall_mem_cons.mp hkeys
    obtain ⟨refs, hrefs, hall⟩ := ih hkeys
    exact ⟨(s, p) :: refs, congrArg (s :: ·) hrefs, List.forall_mem_cons.mpr ⟨hp, hall⟩⟩

/-! ## The projection -/

section Lists

omit [UuidParser]

def keyed (refs keys : List (String × ParsedRef)) (among : Bool) : List (String × ParsedRef) :=
  refs.filter fun x ↦ decide (x.1 ∈ keys.map Prod.fst) = among

def typedInputs (inputs : List (String × ParsedRef)) : OperationInputs :=
  ⟨inputs.map fun x ↦ ⟨x.2.id, x.2.entityType, .mustExist⟩, [], .null⟩

def typedOutputs (inputs outputs deleted : List (String × ParsedRef)) : OperationOutputs where
  created := (keyed outputs inputs false).map fun x ↦ ⟨x.2.id, x.2.entityType, none⟩
  modified := (keyed outputs inputs true).map fun x ↦ x.2.id
  deleted := deleted.map fun x ↦ x.2.id

theorem mem_keyed {refs keys : List (String × ParsedRef)} {among : Bool} :
    x ∈ keyed refs keys among ↔ x ∈ refs ∧ (x.1 ∈ keys.map Prod.fst ↔ among = true) := by
  rw [keyed, List.mem_filter]
  cases among <;> simp

theorem splitOutputs_eq_ok {inputs refs : List (String × ParsedRef)}
    {split : List CreatedEntity × List EntityId} :
    splitOutputs (inputs.map Prod.fst) refs = .ok split ↔
      (∀ x ∈ refs, x.1 ∈ inputs.map Prod.fst → x.2.kindInId) ∧
        split = ((keyed refs inputs false).map fun x ↦ ⟨x.2.id, x.2.entityType, none⟩,
          (keyed refs inputs true).map fun x ↦ x.2.id) := by
  unfold keyed
  induction refs generalizing split with
  | nil => simpa [splitOutputs] using eq_comm
  | cons x refs ih =>
    obtain ⟨key, parsed⟩ := x
    rw [splitOutputs, List.forall_mem_cons]
    by_cases hkey : key ∈ inputs.map Prod.fst
    · rw [if_pos hkey, List.filter_cons_of_neg (by simpa using hkey),
        List.filter_cons_of_pos (by simpa using hkey)]
      by_cases hin : parsed.kindInId
      · rw [if_pos hin, Except.bind_eq_ok]
        constructor
        · rintro ⟨⟨created, modified⟩, hrest, h⟩
          obtain ⟨hall, heq⟩ := ih.mp hrest
          cases heq
          exact ⟨⟨fun _ ↦ hin, hall⟩, (Except.ok.inj h).symm⟩
        · rintro ⟨⟨-, hall⟩, rfl⟩
          exact ⟨_, ih.mpr ⟨hall, rfl⟩, rfl⟩
      · rw [if_neg hin]
        exact iff_of_false nofun fun h ↦ hin (h.1.1 hkey)
    · rw [if_neg hkey, List.filter_cons_of_pos (by simpa using hkey),
        List.filter_cons_of_neg (by simpa using hkey), Except.bind_eq_ok]
      constructor
      · rintro ⟨⟨created, modified⟩, hrest, h⟩
        obtain ⟨hall, heq⟩ := ih.mp hrest
        cases heq
        exact ⟨⟨fun h ↦ absurd h hkey, hall⟩, (Except.ok.inj h).symm⟩
      · rintro ⟨⟨-, hall⟩, rfl⟩
        exact ⟨_, ih.mpr ⟨hall, rfl⟩, rfl⟩

theorem deletedIds_eq_ok {outputs refs : List (String × ParsedRef)} {ids : List EntityId} :
    deletedIds (outputs.map Prod.fst) refs = .ok ids ↔
      (∀ x ∈ refs, x.1 ∉ outputs.map Prod.fst ∧ x.2.kindInId) ∧
        ids = refs.map fun x ↦ x.2.id := by
  rw [deletedIds]
  refine Except.mapM_eq_ok_iff fun ⟨key, parsed⟩ id ↦ ?_
  dsimp only
  by_cases hkey : key ∈ outputs.map Prod.fst
  · rw [if_pos hkey]
    exact iff_of_false nofun fun h ↦ h.1.1 hkey
  · rw [if_neg hkey]
    by_cases hin : parsed.kindInId
    · rw [if_pos hin, Except.ok.injEq, and_iff_right ⟨hkey, hin⟩, eq_comm]
    · rw [if_neg hin]
      exact iff_of_false nofun fun h ↦ hin h.1.2

end Lists

structure Envelope (parameters : Json) (inputs outputs deleted : List (String × ParsedRef)) :
    Prop where
  readable : ∀ channel ∈ channels, Readable parameters channel
  inputs : Parsed (spellings parameters "inputs") inputs
  outputs : Parsed (spellings parameters "outputs") outputs
  deleted : Parsed (spellings parameters "deleted") deleted

omit [UuidParser] in
theorem mem_spellings {channel s : String} :
    s ∈ spellings parameters channel ↔
      ∃ entry ∈ entries parameters channel, entry.asStr? = some s :=
  List.mem_filterMap

theorem readable_iff :
    Readable parameters channel ↔ ∃ texts refs, wireList parameters channel = .ok texts ∧
      parseChannel texts channel = .ok refs := by
  simp only [wireList_eq_ok, parseChannel_eq_ok]
  constructor
  · intro h
    have hparse : ∀ s ∈ spellings parameters channel, ∃ p, parseRef s = .ok p := by
      intro s hs
      obtain ⟨entry, hentry, htext⟩ := mem_spellings.mp hs
      obtain ⟨s', p, hs', hp⟩ := h entry hentry
      obtain rfl := Option.some.inj (htext.symm.trans hs')
      exact ⟨p, hp⟩
    obtain ⟨refs, hrefs⟩ := exists_parsed hparse
    refine ⟨_, refs, ⟨fun entry hentry ↦ ?_, rfl⟩, hrefs⟩
    obtain ⟨s, -, hs, -⟩ := h entry hentry
    exact ⟨s, hs⟩
  · rintro ⟨_, refs, ⟨hstrings, rfl⟩, hrefs⟩ entry hentry
    obtain ⟨s, hs⟩ := hstrings entry hentry
    obtain ⟨⟨s, p⟩, hmem, rfl⟩ :=
      List.mem_map.mp (hrefs.mem_keys.mpr (mem_spellings.mpr ⟨entry, hentry, hs⟩))
    exact ⟨s, p, hs, hrefs.2 _ hmem⟩

theorem projectEnvelope_eq_ok {ins : OperationInputs} {outs : OperationOutputs} :
    projectEnvelope parameters = .ok (ins, outs) ↔
      ∃ inputs outputs deleted, Envelope parameters inputs outputs deleted ∧
        (∀ x ∈ outputs, x.1 ∈ inputs.map Prod.fst → x.2.kindInId) ∧
        (∀ x ∈ deleted, x.1 ∉ outputs.map Prod.fst ∧ x.2.kindInId) ∧
        ins = typedInputs inputs ∧ outs = typedOutputs inputs outputs deleted := by
  simp only [projectEnvelope, Except.bind_eq_ok]
  constructor
  · rintro ⟨texts₁, h₁, inputs, hinputs, texts₂, h₂, outputs, houtputs, texts₃, h₃, deleted,
      hdeleted, ⟨created, modified⟩, hsplit, ids, hids, hresult⟩
    obtain ⟨hmodified, hsplit⟩ := splitOutputs_eq_ok.mp hsplit
    obtain ⟨hcarried, rfl⟩ := deletedIds_eq_ok.mp hids
    cases hsplit
    obtain ⟨rfl, rfl⟩ := Prod.mk.inj (Except.ok.inj hresult)
    refine ⟨inputs, outputs, deleted, ⟨?_, ?_, ?_, ?_⟩, hmodified, hcarried, rfl, rfl⟩
    · intro channel hchannel
      simp only [channels, List.mem_cons, List.not_mem_nil, or_false] at hchannel
      rcases hchannel with rfl | rfl | rfl
      · exact readable_iff.mpr ⟨texts₁, inputs, h₁, hinputs⟩
      · exact readable_iff.mpr ⟨texts₂, outputs, h₂, houtputs⟩
      · exact readable_iff.mpr ⟨texts₃, deleted, h₃, hdeleted⟩
    · exact (wireList_eq_ok.mp h₁).2 ▸ parseChannel_eq_ok.mp hinputs
    · exact (wireList_eq_ok.mp h₂).2 ▸ parseChannel_eq_ok.mp houtputs
    · exact (wireList_eq_ok.mp h₃).2 ▸ parseChannel_eq_ok.mp hdeleted
  · -- each step of the projection succeeds by its own characterisation
    rintro ⟨inputs, outputs, deleted, henvelope, hmodified, hids, rfl, rfl⟩
    have hread : ∀ channel ∈ channels,
        wireList parameters channel = .ok (spellings parameters channel) := by
      intro channel hchannel
      refine wireList_eq_ok.mpr ⟨fun entry hentry ↦ ?_, rfl⟩
      obtain ⟨s, -, hs, -⟩ := henvelope.readable channel hchannel entry hentry
      exact ⟨s, hs⟩
    exact ⟨_, hread _ (by decide), _, parseChannel_eq_ok.mpr henvelope.inputs,
      _, hread _ (by decide), _, parseChannel_eq_ok.mpr henvelope.outputs,
      _, hread _ (by decide), _, parseChannel_eq_ok.mpr henvelope.deleted,
      _, splitOutputs_eq_ok.mpr ⟨hmodified, rfl⟩, _, deletedIds_eq_ok.mpr ⟨hids, rfl⟩, rfl⟩

/-! ## The law -/

namespace Envelope

variable {parameters : Json} {inputs outputs deleted : List (String × ParsedRef)}
  (henvelope : Envelope parameters inputs outputs deleted)

include henvelope

theorem names_inputs :
    Names parameters "inputs" p ↔ ∃ s, (s, p) ∈ inputs := by
  simp only [henvelope.inputs.mem_iff, Names]

theorem names_outputs :
    Names parameters "outputs" p ↔ ∃ s, (s, p) ∈ outputs := by
  simp only [henvelope.outputs.mem_iff, Names]

theorem names_deleted :
    Names parameters "deleted" p ↔ ∃ s, (s, p) ∈ deleted := by
  simp only [henvelope.deleted.mem_iff, Names]

theorem projectable_iff : Projectable parameters ↔
    (∀ x ∈ outputs, x.1 ∈ inputs.map Prod.fst → x.2.kindInId) ∧
      (∀ x ∈ deleted, x.1 ∉ outputs.map Prod.fst ∧ x.2.kindInId) := by
  have hinputs := fun s ↦ henvelope.inputs.mem_keys (s := s)
  have houtputs := fun s ↦ henvelope.outputs.mem_keys (s := s)
  constructor
  · intro h
    refine ⟨fun ⟨s, p⟩ hx hkey ↦ ?_, fun ⟨s, p⟩ hx ↦ ?_⟩
    · obtain ⟨hs, hp⟩ := henvelope.outputs.mem_iff.mp hx
      exact h.modified s hs ((hinputs s).mp hkey) p hp
    · obtain ⟨hs, hp⟩ := henvelope.deleted.mem_iff.mp hx
      exact ⟨fun hkey ↦ h.not_output s hs ((houtputs s).mp hkey), h.deleted s hs p hp⟩
  · rintro ⟨hmodified, hids⟩
    refine ⟨henvelope.readable, fun s hs hkey p hp ↦ ?_, fun s hs hkey ↦ ?_, fun s hs p hp ↦ ?_⟩
    · exact hmodified (s, p) (henvelope.outputs.mem_iff.mpr ⟨hs, hp⟩) ((hinputs s).mpr hkey)
    · obtain ⟨⟨s, p⟩, hx, rfl⟩ := List.mem_map.mp (henvelope.deleted.mem_keys.mpr hs)
      exact (hids _ hx).1 ((houtputs s).mpr hkey)
    · exact (hids (s, p) (henvelope.deleted.mem_iff.mpr ⟨hs, hp⟩)).2

theorem spelledAlike_iff : SpelledAlike parameters ↔
    (∀ x ∈ outputs ++ deleted, ∀ y ∈ outputs ++ deleted, x.2 = y.2 → x = y) ∧
      (∀ x ∈ outputs, ∀ y ∈ inputs, x.2 = y.2 → x.1 ∈ inputs.map Prod.fst) := by
  have hmem : ∀ s p, (s, p) ∈ outputs ++ deleted ↔
      s ∈ spellings parameters "outputs" ++ spellings parameters "deleted" ∧
        parseRef s = .ok p := by
    intro s p
    rw [List.mem_append, List.mem_append, henvelope.outputs.mem_iff, henvelope.deleted.mem_iff,
      or_and_right]
  constructor
  · intro h
    refine ⟨fun ⟨a, p⟩ ha ⟨b, q⟩ hb hpq ↦ ?_, fun ⟨o, p⟩ ho ⟨i, q⟩ hi hpq ↦ ?_⟩
    · obtain rfl : p = q := hpq
      obtain ⟨ha, hap⟩ := (hmem a p).mp ha
      obtain ⟨hb, hbp⟩ := (hmem b p).mp hb
      rw [h.outputs_deleted a ha b hb ⟨p, hap, hbp⟩]
    · obtain rfl : p = q := hpq
      obtain ⟨ho, hop⟩ := henvelope.outputs.mem_iff.mp ho
      obtain ⟨hi, hip⟩ := henvelope.inputs.mem_iff.mp hi
      exact henvelope.inputs.mem_keys.mpr (h.outputs_inputs o ho i hi ⟨p, hop, hip⟩)
  · rintro ⟨hsame, hinputs⟩
    refine ⟨fun a ha b hb ⟨p, hap, hbp⟩ ↦ ?_, fun o ho i hi ⟨p, hop, hip⟩ ↦ ?_⟩
    · exact congrArg Prod.fst
        (hsame (a, p) ((hmem a p).mpr ⟨ha, hap⟩) (b, p) ((hmem b p).mpr ⟨hb, hbp⟩) rfl)
    · exact henvelope.inputs.mem_keys.mp (hinputs (o, p) (henvelope.outputs.mem_iff.mpr ⟨ho, hop⟩)
        (i, p) (henvelope.inputs.mem_iff.mpr ⟨hi, hip⟩) rfl)

theorem key_mem_inputs (hx : x ∈ outputs) (hkey : x.1 ∈ inputs.map Prod.fst) : x ∈ inputs := by
  obtain ⟨s, p⟩ := x
  exact henvelope.inputs.mem_iff.mpr
    ⟨henvelope.inputs.mem_keys.mp hkey, (henvelope.outputs.mem_iff.mp hx).2⟩

theorem valid_inputs (hx : x ∈ inputs) : x.2.Valid :=
  valid_of_parseRef (henvelope.inputs.2 x hx)

theorem valid_outputs (hx : x ∈ outputs) : x.2.Valid :=
  valid_of_parseRef (henvelope.outputs.2 x hx)

theorem valid_deleted (hx : x ∈ deleted) : x.2.Valid :=
  valid_of_parseRef (henvelope.deleted.2 x hx)

section Alike

variable (hmodified : ∀ x ∈ outputs, x.1 ∈ inputs.map Prod.fst → x.2.kindInId)
  (hids : ∀ x ∈ deleted, x.1 ∉ outputs.map Prod.fst ∧ x.2.kindInId)
  (hsame : ∀ x ∈ outputs ++ deleted, ∀ y ∈ outputs ++ deleted, x.2 = y.2 → x = y)
  (hinputs : ∀ x ∈ outputs, ∀ y ∈ inputs, x.2 = y.2 → x.1 ∈ inputs.map Prod.fst)

include hmodified hids hsame

theorem distinct_of_alike : Distinct (typedOutputs inputs outputs deleted) := by
  have hcreated : ∀ x ∈ keyed outputs inputs false,
      x ∈ outputs ∧ x.1 ∉ inputs.map Prod.fst := by simp [mem_keyed]
  have hboth : ∀ x ∈ keyed outputs inputs true,
      x ∈ outputs ∧ x.1 ∈ inputs.map Prod.fst := by simp [mem_keyed]
  -- An id that carries its kind is the entity, so an output that shares it is the same output.
  have hmod : ∀ x ∈ outputs, ∀ y ∈ keyed outputs inputs true, x.2.id = y.2.id → x = y := by
    intro x hx y hy hid
    obtain ⟨hyout, hykey⟩ := hboth y hy
    have hval := (henvelope.valid_outputs hyout).ext_of_kindInId (henvelope.valid_outputs hx)
      (hmodified y hyout hykey) hid.symm
    exact hsame x (List.mem_append_left _ hx) y (List.mem_append_left _ hyout) hval.symm
  have hdis : ∀ x ∈ outputs, ∀ y ∈ deleted, x.2.id ≠ y.2.id := by
    intro x hx y hy hid
    have hval := (henvelope.valid_deleted hy).ext_of_kindInId (henvelope.valid_outputs hx)
      (hids y hy).2 hid.symm
    have hxy := hsame x (List.mem_append_left _ hx) y (List.mem_append_right _ hy) hval.symm
    exact (hids y hy).1 (hxy ▸ List.mem_map_of_mem hx)
  refine ⟨?_, ?_, ?_, fun c hc ↦ ?_, fun id hid hmem ↦ ?_⟩
  · rw [typedOutputs, List.map_map]
    refine (henvelope.outputs.nodup.filter _).map_on fun x hx y hy hxy ↦ ?_
    obtain ⟨hxout, -⟩ := hcreated x hx
    obtain ⟨hyout, -⟩ := hcreated y hy
    obtain ⟨hkind, hid⟩ := Prod.mk.inj hxy
    exact hsame x (List.mem_append_left _ hxout) y (List.mem_append_left _ hyout)
      ((henvelope.valid_outputs hxout).ext (henvelope.valid_outputs hyout) hkind hid)
  · exact (henvelope.outputs.nodup.filter _).map_on fun x hx y hy hxy ↦
      hmod x (hboth x hx).1 y hy hxy
  · refine henvelope.deleted.nodup.map_on fun x hx y hy hxy ↦ ?_
    exact hsame x (List.mem_append_right _ hx) y (List.mem_append_right _ hy)
      ((henvelope.valid_deleted hx).ext_of_kindInId (henvelope.valid_deleted hy) (hids x hx).2 hxy)
  · obtain ⟨x, hx, rfl⟩ := List.mem_map.mp hc
    obtain ⟨hxout, hxkey⟩ := hcreated x hx
    refine ⟨fun hmem ↦ ?_, fun hmem ↦ ?_⟩
    · obtain ⟨y, hy, hid⟩ := List.mem_map.mp hmem
      exact hxkey (hmod x hxout y hy hid.symm ▸ (hboth y hy).2)
    · obtain ⟨y, hy, hid⟩ := List.mem_map.mp hmem
      exact hdis x hxout y hy hid.symm
  · obtain ⟨x, hx, rfl⟩ := List.mem_map.mp hid
    obtain ⟨y, hy, hid⟩ := List.mem_map.mp hmem
    exact hdis x (hboth x hx).1 y hy hid.symm

omit hsame

include hinputs

theorem placed_of_alike :
    Placed parameters (typedInputs inputs) (typedOutputs inputs outputs deleted) := by
  refine ⟨fun p hp ↦ ?_, fun p hp ↦ ?_, fun p hp ↦ ?_, fun p hp ↦ ?_⟩
  · rw [henvelope.names_inputs]
    constructor
    · intro hmem
      obtain ⟨⟨s, q⟩, hx, hpq⟩ := List.mem_map.mp hmem
      obtain ⟨hid, hkind, -⟩ := EntityReference.mk.inj hpq
      exact ⟨s, (henvelope.valid_inputs hx).ext hp hkind hid ▸ hx⟩
    · rintro ⟨s, hx⟩
      exact List.mem_map.mpr ⟨(s, p), hx, rfl⟩
  · rw [henvelope.names_outputs, henvelope.names_inputs]
    constructor
    · intro hmem
      obtain ⟨⟨s, q⟩, hx, hpq⟩ := List.mem_map.mp hmem
      obtain ⟨hid, hkind, -⟩ := CreatedEntity.mk.inj hpq
      obtain ⟨hxout, hxkey⟩ := mem_keyed.mp hx
      obtain rfl : q = p := (henvelope.valid_outputs hxout).ext hp hkind hid
      exact ⟨⟨s, hxout⟩, fun ⟨i, hi⟩ ↦ nomatch hxkey.mp (hinputs _ hxout _ hi rfl)⟩
    · rintro ⟨⟨s, hx⟩, hnot⟩
      refine List.mem_map.mpr ⟨(s, p), mem_keyed.mpr ⟨hx, iff_of_false (fun hkey ↦ ?_) nofun⟩, rfl⟩
      exact hnot ⟨s, henvelope.key_mem_inputs hx hkey⟩
  · rw [henvelope.names_outputs, henvelope.names_inputs]
    constructor
    · intro hmem
      obtain ⟨⟨s, q⟩, hx, hid⟩ := List.mem_map.mp hmem
      obtain ⟨hxout, hxkey⟩ := mem_keyed.mp hx
      obtain rfl : q = p := (henvelope.valid_outputs hxout).ext_of_kindInId hp
        (hmodified _ hxout (hxkey.mpr rfl)) hid
      exact ⟨⟨s, hxout⟩, s, henvelope.key_mem_inputs hxout (hxkey.mpr rfl)⟩
    · rintro ⟨⟨s, hx⟩, i, hi⟩
      exact List.mem_map.mpr
        ⟨(s, p), mem_keyed.mpr ⟨hx, iff_of_true (hinputs _ hx _ hi rfl) rfl⟩, rfl⟩
  · rw [henvelope.names_deleted]
    constructor
    · intro hmem
      obtain ⟨⟨s, q⟩, hx, hid⟩ := List.mem_map.mp hmem
      exact ⟨s, (henvelope.valid_deleted hx).ext_of_kindInId hp (hids _ hx).2 hid ▸ hx⟩
    · rintro ⟨s, hx⟩
      exact List.mem_map.mpr ⟨(s, p), hx, rfl⟩

end Alike

theorem alike_of_distinct (hdistinct : Distinct (typedOutputs inputs outputs deleted))
    (hplaced : Placed parameters (typedInputs inputs) (typedOutputs inputs outputs deleted)) :
    (∀ x ∈ outputs ++ deleted, ∀ y ∈ outputs ++ deleted, x.2 = y.2 → x = y) ∧
      (∀ x ∈ outputs, ∀ y ∈ inputs, x.2 = y.2 → x.1 ∈ inputs.map Prod.fst) := by
  have hinputs : ∀ x ∈ outputs, ∀ y ∈ inputs, x.2 = y.2 → x.1 ∈ inputs.map Prod.fst := by
    rintro ⟨s, p⟩ hx ⟨i, q⟩ hi hpq
    obtain rfl : p = q := hpq
    by_contra hkey
    have hmem : ⟨p.id, p.entityType, none⟩ ∈ (typedOutputs inputs outputs deleted).created :=
      List.mem_map.mpr ⟨(s, p), mem_keyed.mpr ⟨hx, iff_of_false hkey nofun⟩, rfl⟩
    exact ((hplaced.created p (henvelope.valid_outputs hx)).mp hmem).2
      (henvelope.names_inputs.mpr ⟨i, hi⟩)
  -- Two outputs of one entity are both inputs or both not, so both are in one list.
  have houtputs : ∀ x ∈ outputs, ∀ y ∈ outputs, x.2 = y.2 → x = y := by
    intro x hx y hy hxy
    by_cases hkey : x.1 ∈ inputs.map Prod.fst
    · have hykey := hinputs y hy x (henvelope.key_mem_inputs hx hkey) hxy.symm
      exact List.inj_on_of_nodup_map hdistinct.modified_nodup
        (mem_keyed.mpr ⟨hx, iff_of_true hkey rfl⟩) (mem_keyed.mpr ⟨hy, iff_of_true hykey rfl⟩)
        (congrArg ParsedRef.id hxy)
    · have hykey : y.1 ∉ inputs.map Prod.fst := fun hykey ↦
        hkey (hinputs x hx y (henvelope.key_mem_inputs hy hykey) hxy)
      have hnodup := hdistinct.created_nodup
      rw [typedOutputs, List.map_map] at hnodup
      refine List.inj_on_of_nodup_map hnodup (mem_keyed.mpr ⟨hx, iff_of_false hkey nofun⟩)
        (mem_keyed.mpr ⟨hy, iff_of_false hykey nofun⟩) ?_
      simp only [Function.comp_apply, hxy]
  have hdisjoint : ∀ x ∈ outputs, ∀ y ∈ deleted, x.2 ≠ y.2 := by
    intro x hx y hy hxy
    have hmem : x.2.id ∈ (typedOutputs inputs outputs deleted).deleted :=
      List.mem_map.mpr ⟨y, hy, congrArg ParsedRef.id hxy.symm⟩
    by_cases hkey : x.1 ∈ inputs.map Prod.fst
    · exact hdistinct.modified_disjoint _
        (List.mem_map.mpr ⟨x, mem_keyed.mpr ⟨hx, iff_of_true hkey rfl⟩, rfl⟩) hmem
    · exact (hdistinct.created_disjoint _
        (List.mem_map.mpr ⟨x, mem_keyed.mpr ⟨hx, iff_of_false hkey nofun⟩, rfl⟩)).2 hmem
  refine ⟨fun x hx y hy hxy ↦ ?_, hinputs⟩
  rcases List.mem_append.mp hx with hx | hx
  · rcases List.mem_append.mp hy with hy | hy
    · exact houtputs x hx y hy hxy
    · exact absurd hxy (hdisjoint x hx y hy)
  · rcases List.mem_append.mp hy with hy | hy
    · exact absurd hxy.symm (hdisjoint y hy x hx)
    · exact List.inj_on_of_nodup_map hdistinct.deleted_nodup hx hy (congrArg ParsedRef.id hxy)

end Envelope

theorem Projectable.exists_envelope (h : Projectable parameters) :
    ∃ inputs outputs deleted, Envelope parameters inputs outputs deleted := by
  have hread : ∀ channel ∈ channels, ∃ refs, Parsed (spellings parameters channel) refs := by
    intro channel hchannel
    obtain ⟨texts, refs, htexts, hrefs⟩ := readable_iff.mp (h.readable channel hchannel)
    exact ⟨refs, (wireList_eq_ok.mp htexts).2 ▸ parseChannel_eq_ok.mp hrefs⟩
  obtain ⟨inputs, hinputs⟩ := hread "inputs" (by decide)
  obtain ⟨outputs, houtputs⟩ := hread "outputs" (by decide)
  obtain ⟨deleted, hdeleted⟩ := hread "deleted" (by decide)
  exact ⟨inputs, outputs, deleted, h.readable, hinputs, houtputs, hdeleted⟩

/-- **The law holds of an envelope** just when the projection refuses it or it spells no entity
apart. -/
theorem envelopeLaw_iff (parameters : Json) :
    EnvelopeLaw parameters ↔ (Projectable parameters → SpelledAlike parameters) := by
  constructor
  · intro hlaw hprojectable
    obtain ⟨inputs, outputs, deleted, henvelope⟩ := hprojectable.exists_envelope
    obtain ⟨hmodified, hids⟩ := henvelope.projectable_iff.mp hprojectable
    refine henvelope.spelledAlike_iff.mpr ?_
    have hok := projectEnvelope_eq_ok.mpr
      ⟨inputs, outputs, deleted, henvelope, hmodified, hids, rfl, rfl⟩
    exact henvelope.alike_of_distinct (hlaw.distinct _ _ hok) (hlaw.placed _ _ hok)
  · intro halike
    refine ⟨fun channel hchannel hnot ↦ ?_, fun ins outs hok ↦ ?_, fun ins outs hok ↦ ?_⟩
    · rcases hresult : projectEnvelope parameters with err | ⟨ins, outs⟩
      · exact ⟨err, rfl⟩
      · obtain ⟨_, _, _, henvelope, -⟩ := projectEnvelope_eq_ok.mp hresult
        exact absurd (henvelope.readable channel hchannel) hnot
    · obtain ⟨inputs, outputs, deleted, henvelope, hmodified, hids, rfl, rfl⟩ :=
        projectEnvelope_eq_ok.mp hok
      have hprojectable := henvelope.projectable_iff.mpr ⟨hmodified, hids⟩
      obtain ⟨hsame, -⟩ := henvelope.spelledAlike_iff.mp (halike hprojectable)
      exact henvelope.distinct_of_alike hmodified hids hsame
    · obtain ⟨inputs, outputs, deleted, henvelope, hmodified, hids, rfl, rfl⟩ :=
        projectEnvelope_eq_ok.mp hok
      have hprojectable := henvelope.projectable_iff.mpr ⟨hmodified, hids⟩
      obtain ⟨-, hinputs⟩ := henvelope.spelledAlike_iff.mp (halike hprojectable)
      exact henvelope.placed_of_alike hmodified hids hinputs

omit [UuidParser] in
/-- An operation that records one solid under two spellings creates it twice. -/
theorem not_envelopeLaw :
    letI := hyphenatedUuids
    projectEnvelope (.object [("outputs", .ofStrings ["solid:1", "solid:01"])]) =
        .ok (⟨[], [], .null⟩, ⟨[⟨encode .solid 1, .solid, none⟩, ⟨encode .solid 1, .solid, none⟩],
          [], []⟩) ∧
      ¬ EnvelopeLaw (.object [("outputs", .ofStrings ["solid:1", "solid:01"])]) := by
  let _ : UuidParser := hyphenatedUuids
  have hresult : projectEnvelope (.object [("outputs", .ofStrings ["solid:1", "solid:01"])]) =
      .ok (⟨[], [], .null⟩, ⟨[⟨encode .solid 1, .solid, none⟩, ⟨encode .solid 1, .solid, none⟩],
        [], []⟩) := by
    rfl
  refine ⟨hresult, fun hlaw ↦ ?_⟩
  exact absurd (hlaw.distinct _ _ hresult).created_nodup (by decide)

end RosheraCad.KernelRef
