import RosheraCad.KernelRef
import RosheraCad.Library.Digits

/-!
# Canonical references

A reference has one canonical spelling: the kind's tag, a colon, and either a decimal without sign
or leading zero or the hyphenated lower case form of a UUID. Rendering produces exactly these, and
parsing accepts more.
-/

namespace RosheraCad

/-! ## Texts of UUIDs -/

variable {digits : List Char}

namespace Uuid

def IsLowerHex (c : Char) : Prop := c.isDigit ∨ 97 ≤ c.toNat ∧ c.toNat ≤ 102

def hexValue (c : Char) : ℕ := if c.isDigit then c.toNat - 48 else c.toNat - 87

def ofHex (digits : List Char) : Uuid := BitVec.ofNat 128 (Digits.value 16 (digits.map hexValue))

def hyphenate (digits : List Char) : List Char :=
  digits.take 8 ++ '-' :: ((digits.drop 8).take 4 ++ '-' :: ((digits.drop 12).take 4 ++
    '-' :: ((digits.drop 16).take 4 ++ '-' :: (digits.drop 20).take 12)))

theorem hexValue_hexDigit {n : ℕ} (h : n < 16) :
    hexValue (hexDigit n) = n ∧ IsLowerHex (hexDigit n) := by
  unfold IsLowerHex
  revert n
  decide

theorem hexDigit_hexValue {c : Char} (h : IsLowerHex c) :
    hexValue c < 16 ∧ hexDigit (hexValue c) = c := by
  unfold hexValue hexDigit
  by_cases hdigit : c.isDigit
  · obtain ⟨hlow, hhigh⟩ := Char.isDigit_iff_toNat.mp hdigit
    change 48 ≤ c.toNat at hlow
    change c.toNat ≤ 57 at hhigh
    rw [if_pos hdigit, if_pos (by omega), show 48 + (c.toNat - 48) = c.toNat from by omega]
    exact ⟨by omega, Char.ofNat_toNat c⟩
  · obtain ⟨hlow, hhigh⟩ := h.resolve_left hdigit
    rw [if_neg hdigit, if_neg (by omega), show 87 + (c.toNat - 87) = c.toNat from by omega]
    exact ⟨by omega, Char.ofNat_toNat c⟩

theorem hexDigits_eq_map (u : Uuid) : hexDigits u = (Digits.fixed 16 32 u.toNat).map hexDigit := by
  rw [hexDigits, Digits.fixed, List.map_map]
  refine List.map_congr_left fun i hi ↦ ?_
  rw [Function.comp_apply, Nat.shiftRight_eq_div_pow, pow_mul, show 2 ^ 4 = 16 from rfl,
    show 32 - 1 - i = 31 - i from rfl]

theorem length_hexDigits (u : Uuid) : (hexDigits u).length = 32 := by
  rw [hexDigits, List.length_map, List.length_range]

theorem isLowerHex_of_mem_hexDigits {u : Uuid} {c : Char} (h : c ∈ hexDigits u) : IsLowerHex c := by
  rw [hexDigits_eq_map] at h
  obtain ⟨n, hn, rfl⟩ := List.mem_map.mp h
  exact (hexValue_hexDigit (Digits.lt_of_mem_fixed (by omega) hn)).2

theorem ofHex_hexDigits (u : Uuid) : ofHex (hexDigits u) = u := by
  have hvalues : (hexDigits u).map hexValue = Digits.fixed 16 32 u.toNat := by
    rw [hexDigits_eq_map, List.map_map]
    refine (List.map_congr_left fun n hn ↦ ?_).trans (List.map_id _)
    exact (hexValue_hexDigit (Digits.lt_of_mem_fixed (by omega) hn)).1
  rw [ofHex, hvalues, Digits.value_fixed, Nat.mod_eq_of_lt (by simpa using u.isLt),
    BitVec.ofNat_toNat, BitVec.setWidth_eq]

theorem hexDigits_ofHex (hlength : digits.length = 32)
    (hhex : ∀ c ∈ digits, IsLowerHex c) : hexDigits (ofHex digits) = digits := by
  have hvalues : ∀ d ∈ digits.map hexValue, d < 16 := by
    intro d hd
    obtain ⟨c, hc, rfl⟩ := List.mem_map.mp hd
    exact (hexDigit_hexValue (hhex c hc)).1
  have hlt := Digits.value_lt (by omega) hvalues
  have hfixed := Digits.fixed_value hvalues
  rw [List.length_map, hlength] at hlt hfixed
  rw [hexDigits_eq_map, ofHex, BitVec.toNat_ofNat, Nat.mod_eq_of_lt (by simpa using hlt), hfixed,
    List.map_map]
  refine (List.map_congr_left fun c hc ↦ ?_).trans (List.map_id _)
  exact (hexDigit_hexValue (hhex c hc)).2

theorem toList_toText (u : Uuid) : u.toText.toList = hyphenate (hexDigits u) := by
  simp [toText, hyphenate]

end Uuid

namespace KernelRef

/-- **A packed id unpacks** to the kind and the number it was made from. -/
theorem decode_encode_eq (t : EntityType) (n : BitVec 64) : decode (encode t n) = some (t, n) := by
  have hmagic : (encode t n).uuid.extractLsb' 88 40 = magic := by
    rw [encode, BitVec.extractLsb'_append_eq_of_le (by omega),
      BitVec.extractLsb'_append_eq_of_le (by omega)]
    exact BitVec.extractLsb'_append_eq_left
  have hzero : (encode t n).uuid.extractLsb' 64 16 = 0 := by
    rw [encode, BitVec.extractLsb'_append_eq_of_le (by omega)]
    exact BitVec.extractLsb'_append_eq_right
  have hkind : (encode t n).uuid.extractLsb' 80 8 = kindCode t := by
    rw [encode, BitVec.extractLsb'_append_eq_of_le (by omega),
      BitVec.extractLsb'_append_eq_of_le (by omega)]
    exact BitVec.extractLsb'_append_eq_right
  have hid : (encode t n).uuid.extractLsb' 0 64 = n := BitVec.extractLsb'_append_eq_right
  rw [decode, hmagic, hzero, hkind, hid, if_neg (by simp), kindForCode_kindCode]
  rfl

theorem kindCode_of_kindForCode {code : BitVec 8} {t : EntityType}
    (h : kindForCode code = some t) : kindCode t = code := by
  revert code t
  decide

theorem encode_of_decode {id : EntityId} {t : EntityType} {n : BitVec 64}
    (h : decode id = some (t, n)) : encode t n = id := by
  unfold decode at h
  split at h
  · contradiction
  · rename_i hlayout
    obtain ⟨hmagic, hzero⟩ := not_or.mp hlayout
    obtain ⟨kind, hkind, hpair⟩ := Option.map_eq_some_iff.mp h
    obtain ⟨rfl, rfl⟩ := Prod.mk.inj hpair
    obtain ⟨uuid⟩ := id
    have hhigh : uuid.extractLsb' 88 40 ++ uuid.extractLsb' 80 8 = uuid.extractLsb' 80 48 :=
      BitVec.extractLsb'_append_extractLsb'_eq_extractLsb' rfl
    have hmid : uuid.extractLsb' 80 48 ++ uuid.extractLsb' 64 16 = uuid.extractLsb' 64 64 :=
      BitVec.extractLsb'_append_extractLsb'_eq_extractLsb' rfl
    have hall : uuid.extractLsb' 64 64 ++ uuid.extractLsb' 0 64 = uuid :=
      BitVec.extractLsb'_append_extractLsb'
    have hmagic : uuid.extractLsb' 88 40 = magic := not_not.mp hmagic
    have hzero : uuid.extractLsb' 64 16 = 0#16 := not_not.mp hzero
    refine congrArg Id.mk ?_
    rw [kindCode_of_kindForCode hkind, ← hmagic, ← hzero, hhigh, hmid, hall]

/-! ## Rendering -/

/-- Render a typed pair of a kind and an id back to its wire ref string. -/
def renderRef (entityType : EntityType) (id : EntityId) : String :=
  match decode id with
  | some (_, numeric) => wireTag entityType ++ ":" ++ toString numeric.toNat
  | none => wireTag entityType ++ ":" ++ id.toText

def renderId (id : EntityId) : List Char :=
  match decode id with
  | some (_, numeric) => Nat.toDigits 10 numeric.toNat
  | none => Uuid.hyphenate (Uuid.hexDigits id.uuid)

theorem toList_renderRef (t : EntityType) (id : EntityId) :
    (renderRef t id).toList = (wireTag t).toList ++ ':' :: renderId id := by
  unfold renderRef renderId
  rcases decode id with _ | ⟨_, numeric⟩
  · simp [Id.toText, Uuid.toList_toText]
  · simp

/-- The text after the first colon of a reference. -/
def idText (reference : String) : List Char := (reference.toList.span (· ≠ ':')).2.tail

/-- **A canonical id**: a decimal in range without sign or leading zero, or a lower case UUID. -/
def IsCanonicalId (text : List Char) : Prop :=
  (Digits.IsCanonical text ∧ Nat.ofDigitChars 10 text 0 < 2 ^ 64) ∨
    ∃ digits : List Char, digits.length = 32 ∧ (∀ c ∈ digits, Uuid.IsLowerHex c) ∧
      text = Uuid.hyphenate digits

/-- A reference value whose id carries its kind, or carries no kind at all. -/
structure ParsedRef.Valid (p : ParsedRef) : Prop where
  kind_in_id : p.kindInId = (decode p.id).isSome
  own_kind : ∀ t n, decode p.id = some (t, n) → t = p.entityType

/-! ## What parsing accepts -/

private theorem some_of_ite {p : Prop} [Decidable p] {a t : EntityType} {x : Option EntityType}
    (h : (if p then some a else x) = some t) : p ∧ a = t ∨ x = some t := by
  by_cases hp : p
  · rw [if_pos hp] at h
    exact Or.inl ⟨hp, Option.some.inj h⟩
  · rw [if_neg hp] at h
    exact Or.inr h

theorem wireTag_of_entityTypeForTag {tag : String} {t : EntityType}
    (h : entityTypeForTag tag = some t) : wireTag t = tag := by
  unfold entityTypeForTag at h
  iterate 13
    rcases some_of_ite h with ⟨rfl, rfl⟩ | h
    · rfl
  contradiction

theorem colon_not_mem_wireTag (t : EntityType) : ':' ∉ (wireTag t).toList := by
  cases t <;> decide

theorem span_colon {tag : List Char} (htag : ':' ∉ tag) (text : List Char) :
    (tag ++ ':' :: text).span (· ≠ ':') = (tag, ':' :: text) := by
  have hall : ∀ c ∈ tag, decide (c ≠ ':') = true := fun c hc ↦
    decide_eq_true fun h ↦ htag (h ▸ hc)
  rw [List.span_eq_takeWhile_dropWhile, List.takeWhile_append_of_pos hall,
    List.dropWhile_append_of_pos hall]
  simp

theorem append_of_span {text tag rest : List Char} {c : Char}
    (h : text.span (· ≠ ':') = (tag, c :: rest)) : text = tag ++ ':' :: rest := by
  rw [List.span_eq_takeWhile_dropWhile] at h
  obtain ⟨htag, hrest⟩ := Prod.mk.inj h
  have hc := List.head?_dropWhile_not (fun c ↦ decide (c ≠ ':')) text
  rw [hrest] at hc
  obtain rfl : c = ':' := by simpa using hc
  rw [← htag, ← hrest, List.takeWhile_append_dropWhile]

/-! ## Reading numbers -/

variable {text : List Char}

theorem parseU64_of_canonical (htext : Digits.IsCanonical text)
    (hlt : Nat.ofDigitChars 10 text 0 < 2 ^ 64) :
    parseU64 text = some (BitVec.ofNat 64 (Nat.ofDigitChars 10 text 0)) := by
  have hplus : text.head? ≠ some '+' := by
    intro h
    exact absurd (htext.2.1 '+' (List.mem_of_head? h)) (by decide)
  have hdigits : text.all Char.isDigit := List.all_eq_true.mpr htext.2.1
  unfold parseU64
  simp only [hplus, if_false, htext.1, hdigits, not_true, or_self]
  exact if_pos hlt

theorem parseU64_toDigits (n : BitVec 64) : parseU64 (Nat.toDigits 10 n.toNat) = some n := by
  rw [parseU64_of_canonical (Digits.isCanonical_toDigits _),
    Nat.ofDigitChars_ten_toDigits, BitVec.ofNat_toNat, BitVec.setWidth_eq]
  rw [Nat.ofDigitChars_ten_toDigits]
  exact n.isLt

theorem toDigits_eq_iff_of_parseU64 {n : BitVec 64} (h : parseU64 text = some n) :
    Nat.toDigits 10 n.toNat = text ↔
      Digits.IsCanonical text ∧ Nat.ofDigitChars 10 text 0 < 2 ^ 64 := by
  constructor
  · rintro rfl
    rw [Nat.ofDigitChars_ten_toDigits]
    exact ⟨Digits.isCanonical_toDigits _, n.isLt⟩
  · rintro ⟨htext, hlt⟩
    rw [parseU64_of_canonical htext hlt] at h
    rw [← Option.some.inj h, BitVec.toNat_ofNat, Nat.mod_eq_of_lt hlt,
      Digits.toDigits_ofDigitChars htext]

theorem parseU64_eq_none_of_hyphen (h : '-' ∈ text) :
    parseU64 text = none := by
  have hdigits : ∀ digits : List Char, '-' ∈ digits → ¬ digits.all Char.isDigit = true := by
    intro digits hmem hall
    exact absurd (List.all_eq_true.mp hall '-' hmem) (by decide)
  unfold parseU64
  by_cases hplus : text.head? = some '+'
  · -- The sign is not the hyphen, so the hyphen is still among the digits.
    obtain ⟨rest, rfl⟩ := List.head?_eq_some_iff.mp hplus
    have hrest : '-' ∈ rest := by simpa using h
    simp only [hplus, if_true, List.tail_cons]
    exact if_pos (Or.inr (hdigits rest hrest))
  · simp only [hplus, if_false]
    exact if_pos (Or.inr (hdigits text h))

theorem hyphen_mem_hyphenate (digits : List Char) : '-' ∈ Uuid.hyphenate digits := by
  simp [Uuid.hyphenate]

variable [UuidParser] {p : ParsedRef}

def parseId (t : EntityType) (text : List Char) : Option ParsedRef :=
  match parseU64 text with
  | some numeric => some ⟨t, encode t numeric, true⟩
  | none =>
    match UuidParser.parseStr (String.ofList text) with
    | some uuid => if (decode ⟨uuid⟩).isSome then none else some ⟨t, ⟨uuid⟩, false⟩
    | none => none

theorem parseRef_of_toList {reference : String} {t : EntityType}
    (htext : reference.toList = (wireTag t).toList ++ ':' :: text) (hne : text ≠ []) :
    parseRef reference = .ok p ↔ parseId t text = some p := by
  have htag : (wireTag t).toList ≠ [] := by cases t <;> decide
  unfold parseRef parseId
  rw [htext, span_colon (colon_not_mem_wireTag t)]
  simp only [htag, hne, or_self, if_false, String.ofList_toList, entityTypeForTag_wireTag]
  rcases parseU64 text with _ | numeric
  · rcases UuidParser.parseStr (String.ofList text) with _ | uuid
    · simp
    · by_cases hdecode : (decode ⟨uuid⟩).isSome
      · simp [hdecode]
      · simp [hdecode]
  · simp

theorem toList_of_parseRef {reference : String} (h : parseRef reference = .ok p) :
    ∃ t, reference.toList = (wireTag t).toList ++ ':' :: idText reference ∧
      idText reference ≠ [] := by
  unfold parseRef at h
  unfold idText
  rcases hspan : reference.toList.span (· ≠ ':') with ⟨tag, _ | ⟨c, rest⟩⟩
  · rw [hspan] at h
    contradiction
  · rw [hspan] at h
    by_cases hempty : tag = [] ∨ rest = []
    · simp only [hempty, if_true] at h
      contradiction
    · rcases htag : entityTypeForTag (String.ofList tag) with _ | t
      · simp only [hempty, if_false, htag] at h
        contradiction
      · refine ⟨t, ?_, (not_or.mp hempty).2⟩
        rw [append_of_span hspan, wireTag_of_entityTypeForTag htag, String.toList_ofList]
        rfl

/-! ## The laws -/

theorem parseId_cases {t : EntityType} (h : parseId t text = some p) :
    (∃ n, parseU64 text = some n ∧ p = ⟨t, encode t n, true⟩) ∨
      (parseU64 text = none ∧ ∃ uuid, UuidParser.parseStr (String.ofList text) = some uuid ∧
        decode ⟨uuid⟩ = none ∧ p = ⟨t, ⟨uuid⟩, false⟩) := by
  unfold parseId at h
  rcases hnumber : parseU64 text with _ | n
  · right
    rw [hnumber] at h
    rcases huuid : UuidParser.parseStr (String.ofList text) with _ | uuid
    · simp [huuid] at h
    · by_cases hdecode : (decode ⟨uuid⟩).isSome
      · simp [huuid, hdecode] at h
      · simp only [huuid, hdecode] at h
        refine ⟨rfl, uuid, rfl, Option.not_isSome_iff_eq_none.mp hdecode, ?_⟩
        exact (Option.some.inj h).symm
  · left
    rw [hnumber] at h
    exact ⟨n, rfl, (Option.some.inj h).symm⟩

theorem parseId_entityType {t : EntityType} (h : parseId t text = some p) : p.entityType = t := by
  rcases parseId_cases h with ⟨_, _, rfl⟩ | ⟨_, _, _, _, rfl⟩
  · rfl
  · rfl

theorem valid_of_parseId {t : EntityType} (h : parseId t text = some p) : p.Valid := by
  rcases parseId_cases h with ⟨n, -, rfl⟩ | ⟨-, uuid, -, hdecode, rfl⟩
  · refine ⟨?_, fun t' n' h' ↦ ?_⟩
    · rw [decode_encode_eq]
      rfl
    · rw [decode_encode_eq] at h'
      exact (Prod.mk.inj (Option.some.inj h')).1.symm
  · refine ⟨?_, fun t' n' h' ↦ ?_⟩
    · rw [hdecode]
      rfl
    · rw [hdecode] at h'
      contradiction

section Uuids

variable (hparse : ∀ u : Uuid, UuidParser.parseStr u.toText = some u)

include hparse

theorem parseStr_hyphenate (hlength : digits.length = 32) (hhex : ∀ c ∈ digits, Uuid.IsLowerHex c) :
    UuidParser.parseStr (String.ofList (Uuid.hyphenate digits)) = some (Uuid.ofHex digits) := by
  rw [← hparse (Uuid.ofHex digits), ← String.ofList_toList (s := (Uuid.ofHex digits).toText),
    Uuid.toList_toText, Uuid.hexDigits_ofHex hlength hhex]

theorem renderId_eq_iff {t : EntityType}
    (h : parseId t text = some p) : renderId p.id = text ↔ IsCanonicalId text := by
  rcases parseId_cases h with ⟨n, hnumber, rfl⟩ | ⟨hnumber, uuid, huuid, hdecode, rfl⟩
  · have hrender : renderId (encode t n) = Nat.toDigits 10 n.toNat := by
      rw [renderId, decode_encode_eq]
    rw [hrender, toDigits_eq_iff_of_parseU64 hnumber]
    refine ⟨Or.inl, fun hcanonical ↦ hcanonical.resolve_right ?_⟩
    -- A hyphenated form is not read as a number.
    rintro ⟨digits, -, -, rfl⟩
    rw [parseU64_eq_none_of_hyphen (hyphen_mem_hyphenate digits)] at hnumber
    contradiction
  · have hrender : renderId ⟨uuid⟩ = Uuid.hyphenate (Uuid.hexDigits uuid) := by
      rw [renderId, hdecode]
    rw [hrender]
    constructor
    · rintro rfl
      exact Or.inr ⟨_, Uuid.length_hexDigits uuid, fun c ↦ Uuid.isLowerHex_of_mem_hexDigits, rfl⟩
    · rintro (⟨htext, hlt⟩ | ⟨digits, hlength, hhex, rfl⟩)
      · rw [parseU64_of_canonical htext hlt] at hnumber
        contradiction
      · rw [parseStr_hyphenate hparse hlength hhex] at huuid
        rw [← Option.some.inj huuid, Uuid.hexDigits_ofHex hlength hhex]

/-- **A valid value is read back from its rendering.** -/
theorem parseId_renderId (h : p.Valid) :
    parseId p.entityType (renderId p.id) = some p := by
  obtain ⟨t, id, kindInId⟩ := p
  obtain ⟨hkind, hown⟩ := h
  change kindInId = (decode id).isSome at hkind
  rcases hdecode : decode id with _ | ⟨t', n⟩
  · rw [hdecode] at hkind
    have hnumber := parseU64_eq_none_of_hyphen (hyphen_mem_hyphenate (Uuid.hexDigits id.uuid))
    have huuid := parseStr_hyphenate hparse (Uuid.length_hexDigits id.uuid)
      fun c ↦ Uuid.isLowerHex_of_mem_hexDigits
    simp only [parseId, renderId, hdecode, hnumber, huuid, Uuid.ofHex_hexDigits, hkind]
    rfl
  · obtain rfl := hown t' n hdecode
    rw [hdecode] at hkind
    simp only [parseId, renderId, hdecode, parseU64_toDigits, encode_of_decode hdecode, hkind]
    rfl

theorem parseRef_renderRef_iff (p : ParsedRef) :
    parseRef (renderRef p.entityType p.id) = .ok p ↔ p.Valid := by
  have hne : renderId p.id ≠ [] := by
    unfold renderId
    split
    · exact Nat.toDigits_ne_nil
    · exact List.ne_nil_of_mem (hyphen_mem_hyphenate _)
  rw [parseRef_of_toList (toList_renderRef p.entityType p.id) hne]
  exact ⟨valid_of_parseId, parseId_renderId hparse⟩

/-- **Canonical references.** An accepted reference is rendered as it was spelled just when its id
is spelled canonically, and two canonical spellings of one entity are equal. A value is read back
just when it is valid. Packing and unpacking ids are inverse. -/
theorem canonical_references :
    (∀ reference p, parseRef reference = .ok p →
      (renderRef p.entityType p.id = reference ↔ IsCanonicalId (idText reference))) ∧
    (∀ r₁ r₂ p, parseRef r₁ = .ok p → parseRef r₂ = .ok p → IsCanonicalId (idText r₁) →
      IsCanonicalId (idText r₂) → r₁ = r₂) ∧
    (∀ p : ParsedRef, parseRef (renderRef p.entityType p.id) = .ok p ↔ p.Valid) ∧
    (∀ reference p, parseRef reference = .ok p → p.Valid) ∧
    (∀ t n, decode (encode t n) = some (t, n)) ∧
    (∀ id t n, decode id = some (t, n) → encode t n = id) := by
  have hparts : ∀ reference p, parseRef reference = .ok p →
      reference.toList = (wireTag p.entityType).toList ++ ':' :: idText reference ∧
        parseId p.entityType (idText reference) = some p := by
    intro reference p h
    obtain ⟨t, htext, hne⟩ := toList_of_parseRef h
    have hid := (parseRef_of_toList htext hne).mp h
    obtain rfl := parseId_entityType hid
    exact ⟨htext, hid⟩
  have hrender : ∀ reference p, parseRef reference = .ok p →
      (renderRef p.entityType p.id = reference ↔ IsCanonicalId (idText reference)) := by
    intro reference p h
    obtain ⟨htext, hid⟩ := hparts reference p h
    rw [← renderId_eq_iff hparse hid, ← String.toList_inj, toList_renderRef, htext,
      List.append_cancel_left_eq, List.cons.injEq, and_iff_right rfl]
  refine ⟨hrender, ?_, parseRef_renderRef_iff hparse, ?_, decode_encode_eq, ?_⟩
  · intro r₁ r₂ p h₁ h₂ hcanonical₁ hcanonical₂
    rw [← (hrender r₁ p h₁).mpr hcanonical₁, (hrender r₂ p h₂).mpr hcanonical₂]
  · intro reference p h
    exact valid_of_parseId (hparts reference p h).2
  · intro id t n h
    exact encode_of_decode h

end Uuids

omit [UuidParser]

@[reducible] def hyphenatedUuids : UuidParser where
  parseStr text :=
    let uuid := Uuid.ofHex (text.toList.filter (· ≠ '-'))
    if uuid.toText = text then some uuid else none

theorem filter_hyphenate (hlength : digits.length = 32) (hhex : ∀ c ∈ digits, Uuid.IsLowerHex c) :
    (Uuid.hyphenate digits).filter (· ≠ '-') = digits := by
  have hself : ∀ start len : ℕ, ((digits.drop start).take len).filter (· ≠ '-') =
      (digits.drop start).take len := by
    intro start len
    refine List.filter_eq_self.mpr fun c hc ↦ ?_
    have hc := hhex c (List.mem_of_mem_drop (List.mem_of_mem_take hc))
    refine decide_eq_true ?_
    rintro rfl
    exact absurd hc (by unfold Uuid.IsLowerHex; decide)
  have hhyphen : ∀ l : List Char, ('-' :: l).filter (· ≠ '-') = l.filter (· ≠ '-') := fun _ ↦
    List.filter_cons_of_neg (by decide)
  have hjoin : ∀ start len : ℕ, (digits.drop start).take len ++ digits.drop (start + len) =
      digits.drop start := by
    intro start len
    rw [← List.drop_drop, List.take_append_drop]
  have hlast : (digits.drop 20).take 12 = digits.drop 20 := by
    rw [List.take_of_length_le]
    rw [List.length_drop]
    omega
  have hfirst := hself 0 8
  rw [List.drop_zero] at hfirst
  rw [Uuid.hyphenate]
  simp only [List.filter_append, hhyphen, hself, hfirst]
  rw [hlast, hjoin 16 4, hjoin 12 4, hjoin 8 4, List.take_append_drop]

theorem hyphenatedUuids_toText (u : Uuid) : hyphenatedUuids.parseStr u.toText = some u := by
  have hdigits : u.toText.toList.filter (· ≠ '-') = Uuid.hexDigits u := by
    rw [Uuid.toList_toText]
    exact filter_hyphenate (Uuid.length_hexDigits u) fun c ↦ Uuid.isLowerHex_of_mem_hexDigits
  change (if (Uuid.ofHex (u.toText.toList.filter (· ≠ '-'))).toText = u.toText then _ else _) = _
  rw [hdigits, Uuid.ofHex_hexDigits, if_pos rfl]

/-- A canonical reference is rendered as it was spelled, through the general law. -/
theorem canonical_references_solid :
    letI := hyphenatedUuids
    parseRef "solid:7" = .ok ⟨.solid, encode .solid 7, true⟩ ∧
      renderRef .solid (encode .solid 7) = "solid:7" :=
  letI := hyphenatedUuids
  ⟨by decide, ((canonical_references hyphenatedUuids_toText).1 "solid:7"
    ⟨.solid, encode .solid 7, true⟩ (by decide)).mpr (Or.inl (by decide))⟩

/-- Two spellings of one number name one entity, and only one of them is rendered back. -/
theorem not_canonical_references :
    letI := hyphenatedUuids
    parseRef "solid:007" = .ok ⟨.solid, encode .solid 7, true⟩ ∧
      parseRef "solid:7" = .ok ⟨.solid, encode .solid 7, true⟩ ∧
      ¬ ∀ reference p, parseRef reference = .ok p →
        renderRef p.entityType p.id = reference := by
  let _ : UuidParser := hyphenatedUuids
  have hparse : parseRef "solid:007" = .ok ⟨.solid, encode .solid 7, true⟩ := by decide
  refine ⟨hparse, by decide, fun h ↦ ?_⟩
  exact absurd (h _ _ hparse) (by decide)

end KernelRef

end RosheraCad
