import RosheraCad.Json
import RosheraCad.Library.Checked

/-!
# Chaining

A string argument that is exactly `$3.path` or `$prev.path` is a placeholder: just before the
operation runs it is replaced by what stands at the path in the result of an earlier one. A path is
followed with the `in` operator, which also sees what a value inherits, and the copy of an object is
filled by assignment, which takes the key `__proto__` for the prototype.
-/

namespace RosheraCad

namespace CadProgram

/-! ## Values -/

/-- A value read from a result: a part of it, or an object or function of the runtime. -/
inductive ReadValue (B : Type)
  | json (v : Json)
  | builtin (b : B)

/-- A value handed to a tool. The prototype of a copied object is there if it was assigned. -/
inductive JsValue (B : Type)
  | read (v : ReadValue B)
  | array (items : List (JsValue B))
  | object (proto : Option (JsValue B)) (fields : List (String × JsValue B))

/-- What is used of the JavaScript runtime. -/
structure Realm (B : Type) where
  parse : String → Option Json
  isObject : B → Bool
  objectInherits : String → Option (ReadValue B)
  arrayInherits : String → Option (ReadValue B)
  property : B → String → Option (ReadValue B)
  keys : B → List String
  assignError : B → String → Option String

variable {B : Type} (realm : Realm B) {results : List (Option Json)} {opIndex : ℕ}

def arrayEntries (items : List Json) : List (String × Json) :=
  items.zipIdx.map fun (v, i) ↦ (toString i, v)

def ownField? : Json → String → Option Json
  | .object entries, key => entries.lookup key
  | .array items, key =>
    if key = "length" then some (.number (.posInt items.length))
    else (arrayEntries items).lookup key
  | _, _ => none

def inherited? : Json → String → Option (ReadValue B)
  | .object _, key => realm.objectInherits key
  | .array _, key => realm.arrayInherits key
  | _, _ => none

namespace ReadValue

def property? : ReadValue B → String → Option (ReadValue B)
  | .json v, key => ((ownField? v key).map json).or (inherited? realm v key)
  | .builtin b, key => if realm.isObject b then realm.property b key else none

def objectKeys : ReadValue B → List String
  | .json (.object entries) => entries.map Prod.fst
  | .json (.array items) => (arrayEntries items).map Prod.fst
  | .json _ => []
  | .builtin b => if realm.isObject b then realm.keys b else []

end ReadValue

/-! ## Placeholders -/

inductive PlaceholderTarget
  | op (n : ℕ)
  | prev
  deriving DecidableEq

structure PlaceholderRef where
  token : String
  target : PlaceholderTarget
  path : List String
  deriving DecidableEq

def isKeyChar (c : Char) : Bool := c.isAlphanum || c = '_'

def parseTarget (name : List Char) : Option PlaceholderTarget :=
  if name = "prev".toList then some .prev
  else if name ≠ [] ∧ name.all Char.isDigit then
    some (.op (name.foldl (fun n c ↦ 10 * n + (c.toNat - 48)) 0))
  else none

/-- Strict whole-string placeholder: `$prev.<path>` or `$<index>.<path>`. -/
def parsePlaceholder (s : String) : Option PlaceholderRef :=
  match s.toList with
  | '$' :: rest =>
    match parseTarget (rest.takeWhile (· ≠ '.')), rest.dropWhile (· ≠ '.') with
    | some target, '.' :: path =>
      if path.head?.any isKeyChar ∧ path.all (fun c ↦ isKeyChar c || c = '.') then
        some ⟨s, target, (path.splitOn '.').map String.ofList⟩
      else none
    | _, _ => none
  | _ => none

mutual

def collectPlaceholders : Json → List PlaceholderRef
  | .string s => (parsePlaceholder s).toList
  | .array items => collectItems items
  | .object entries => collectEntries entries
  | _ => []

def collectItems : List Json → List PlaceholderRef
  | [] => []
  | v :: vs => collectPlaceholders v ++ collectItems vs

def collectEntries : List (String × Json) → List PlaceholderRef
  | [] => []
  | (_, v) :: rest => collectPlaceholders v ++ collectEntries rest

end

/-! ## Substitution -/

def isEscaped (s : String) : Bool := "$$".toList.isPrefixOf s.toList

def unescape (s : String) : String := String.ofList s.toList.tail

def followPath (token : String) (target : ℕ) :
    ReadValue B → List String → Except String (ReadValue B)
  | cur, [] => .ok cur
  | cur, key :: path =>
    match cur.property? realm key with
    | some next => followPath token target next path
    | none =>
      let keys := cur.objectKeys realm
      .error (token ++ ": op " ++ toString target ++ "'s result has no '" ++ key ++ "'" ++
        if keys = [] then "" else " (available: " ++ ", ".intercalate keys ++ ")")

def PlaceholderTarget.index (opIndex : ℕ) : PlaceholderTarget → ℕ
  | .op n => n
  | .prev => opIndex - 1

def resolve (opIndex : ℕ) (results : List (Option Json)) (ref : PlaceholderRef) :
    Except String (ReadValue B) :=
  let target := ref.target.index opIndex
  match results[target]?.join with
  | some data => followPath realm ref.token target (.json data) ref.path
  | none => .error (ref.token ++ ": op " ++ toString target ++
      " returned no JSON object to chain from")

def substituteString (opIndex : ℕ) (results : List (Option Json)) (s : String) :
    Except String (ReadValue B) :=
  if isEscaped s then .ok (.json (.string (unescape s)))
  else
    match parsePlaceholder s with
    | none => .ok (.json (.string s))
    | some ref => resolve realm opIndex results ref

namespace JsValue

def canBeProto : JsValue B → Bool
  | .read (.json .null) => true
  | .read (.json (.array _)) => true
  | .read (.json (.object _)) => true
  | .read (.json _) => false
  | _ => true

mutual

def assignError : JsValue B → String → Option String
  | .read (.builtin b), key => realm.assignError b key
  | .object proto fields, key =>
    if (fields.lookup key).isSome then none else assignErrorOf proto key
  | _, _ => none

def assignErrorOf : Option (JsValue B) → String → Option String
  | none, _ => none
  | some proto, key => assignError proto key

end

end JsValue

structure ObjectCopy (B : Type) where
  proto : Option (JsValue B)
  fields : List (String × JsValue B)

def ObjectCopy.assign (out : ObjectCopy B) (key : String) (x : JsValue B) :
    Except String (ObjectCopy B) :=
  if key = "__proto__" then .ok (if x.canBeProto then { out with proto := some x } else out)
  else
    match JsValue.assignErrorOf realm out.proto key with
    | some message => .error message
    | none => .ok { out with fields := out.fields ++ [(key, x)] }

mutual

/-- Deep-copy a value with every placeholder replaced and every `$$`-prefixed string unescaped. -/
def substitutePlaceholders (opIndex : ℕ) (results : List (Option Json)) :
    Json → Except String (JsValue B)
  | .string s => (substituteString realm opIndex results s).map .read
  | .array items => (substituteItems opIndex results items).map .array
  | .object entries =>
    (substituteEntries opIndex results entries ⟨none, []⟩).map fun out ↦
      .object out.proto out.fields
  | .null => .ok (.read (.json .null))
  | .bool b => .ok (.read (.json (.bool b)))
  | .number n => .ok (.read (.json (.number n)))

def substituteItems (opIndex : ℕ) (results : List (Option Json)) :
    List Json → Except String (List (JsValue B))
  | [] => .ok []
  | v :: vs => do
    let x ← substitutePlaceholders opIndex results v
    let xs ← substituteItems opIndex results vs
    .ok (x :: xs)

def substituteEntries (opIndex : ℕ) (results : List (Option Json)) :
    List (String × Json) → ObjectCopy B → Except String (ObjectCopy B)
  | [], out => .ok out
  | (key, v) :: rest, out => do
    let x ← substitutePlaceholders opIndex results v
    let out ← out.assign realm key x
    substituteEntries opIndex results rest out

end

/-! ## Places -/

inductive PathStep
  | item (i : ℕ)
  | field (key : String)

def valueAt : Json → List PathStep → Option Json
  | v, [] => some v
  | .array items, .item i :: path =>
    match items[i]? with
    | some v => valueAt v path
    | none => none
  | .object entries, .field key :: path =>
    match entries.lookup key with
    | some v => valueAt v path
    | none => none
  | _, _ => none

def JsValue.valueAt : JsValue B → List PathStep → Option (JsValue B)
  | v, [] => some v
  | .array items, .item i :: path =>
    match items[i]? with
    | some v => v.valueAt path
    | none => none
  | .object _ fields, .field key :: path =>
    match fields.lookup key with
    | some v => v.valueAt path
    | none => none
  | .read (.json v), path => (CadProgram.valueAt v path).map fun v ↦ .read (.json v)
  | _, _ => none

def ownPath : Json → List String → Option Json
  | v, [] => some v
  | v, key :: path => (ownField? v key).bind fun v ↦ ownPath v path

/-- Every placeholder is replaced by a value from own fields of an earlier result, every escaped
literal loses one `$`. -/
structure Replaced (opIndex : ℕ) (results : List (Option Json)) (raw : Json) (args : JsValue B) :
    Prop where
  placeholder : ∀ path s ref, valueAt raw path = some (.string s) → parsePlaceholder s = some ref →
    ∃ t < opIndex, (ref.target = .op t ∨ ref.target = .prev ∧ t + 1 = opIndex) ∧
      ∃ data v, results[t]? = some (some data) ∧ ownPath data ref.path = some v ∧
        args.valueAt path = some (.read (.json v))
  escape : ∀ path s, valueAt raw path = some (.string s) → isEscaped s →
    args.valueAt path = some (.read (.json (.string (unescape s))))

/-- No string to be replaced lies under the key `__proto__`, and every placeholder finds own fields.
-/
structure OwnOnly (opIndex : ℕ) (results : List (Option Json)) (raw : Json) : Prop where
  unshadowed : ∀ path s, valueAt raw path = some (.string s) →
    (parsePlaceholder s).isSome ∨ isEscaped s → .field "__proto__" ∉ path
  own : ∀ path s ref, valueAt raw path = some (.string s) → parsePlaceholder s = some ref →
    ∃ data v, results[ref.target.index opIndex]?.join = some data ∧ ownPath data ref.path = some v

/-! ## What a substitution does -/

theorem parsePlaceholder_of_isEscaped {s : String} (h : isEscaped s) :
    parsePlaceholder s = none := by
  rw [isEscaped] at h
  obtain ⟨rest, hrest⟩ := List.isPrefixOf_iff_prefix.mp h
  rw [parsePlaceholder, ← hrest]
  rfl

theorem followPath_of_ownPath {token : String} {target : ℕ} {data v : Json} {path : List String}
    (h : ownPath data path = some v) :
    followPath realm token target (.json data) path = .ok (.json v) := by
  induction path generalizing data with
  | nil =>
    obtain rfl := Option.some_inj.mp h
    rfl
  | cons key path ih =>
    obtain ⟨next, hnext, hrest⟩ := Option.bind_eq_some_iff.mp h
    have hproperty : (ReadValue.json data).property? realm key = some (.json next) := by
      rw [ReadValue.property?, hnext]
      rfl
    rw [followPath, hproperty]
    exact ih hrest

theorem substituteItems_eq_ok {vs : List Json}
    {xs : List (JsValue B)} (h : substituteItems realm opIndex results vs = .ok xs) :
    List.Forall₂ (fun v x ↦ substitutePlaceholders realm opIndex results v = .ok x) vs xs := by
  induction vs generalizing xs with
  | nil =>
    cases h
    exact .nil
  | cons v vs ih =>
    rw [substituteItems] at h
    obtain ⟨x, hx, h⟩ := Except.bind_eq_ok.mp h
    obtain ⟨xs', hxs, h⟩ := Except.bind_eq_ok.mp h
    cases h
    exact .cons hx (ih hxs)

theorem substituteEntries_eq_ok {entries : List (String × Json)} {out out' : ObjectCopy B}
    (h : substituteEntries realm opIndex results entries out = .ok out') :
    ∃ fields, out'.fields = out.fields ++ fields ∧
      List.Forall₂ (fun e x ↦ e.1 = x.1 ∧
        substitutePlaceholders realm opIndex results e.2 = .ok x.2)
        (entries.filter (·.1 ≠ "__proto__")) fields := by
  induction entries generalizing out with
  | nil =>
    cases h
    exact ⟨[], (List.append_nil _).symm, .nil⟩
  | cons e entries ih =>
    obtain ⟨key, v⟩ := e
    rw [substituteEntries] at h
    obtain ⟨x, hx, h⟩ := Except.bind_eq_ok.mp h
    obtain ⟨mid, hmid, h⟩ := Except.bind_eq_ok.mp h
    obtain ⟨fields, hfields, hall⟩ := ih h
    rw [ObjectCopy.assign] at hmid
    by_cases hkey : key = "__proto__"
    · rw [if_pos hkey] at hmid
      have hsame : mid.fields = out.fields := by
        obtain rfl := Except.ok.inj hmid
        split_ifs <;> rfl
      refine ⟨fields, by rw [hfields, hsame], ?_⟩
      rw [List.filter_cons_of_neg (by simpa using hkey)]
      exact hall
    · rw [if_neg hkey] at hmid
      split at hmid
      · cases hmid
      · cases hmid
        refine ⟨(key, x) :: fields, by rw [hfields, List.append_assoc]; rfl, ?_⟩
        rw [List.filter_cons_of_pos (by simpa using hkey)]
        exact .cons ⟨rfl, hx⟩ hall

theorem lookup_forall₂ (P : Json → JsValue B → Prop) {entries : List (String × Json)}
    {fields : List (String × JsValue B)}
    (h : List.Forall₂ (fun e x ↦ e.1 = x.1 ∧ P e.2 x.2) entries fields) (key : String) :
    (entries.lookup key = none ∧ fields.lookup key = none) ∨
      ∃ v x, entries.lookup key = some v ∧ fields.lookup key = some x ∧ P v x := by
  induction h with
  | nil => exact .inl ⟨rfl, rfl⟩
  | @cons e x entries fields hex _ ih =>
    obtain ⟨k, v⟩ := e
    obtain ⟨k', x⟩ := x
    obtain ⟨rfl, hP⟩ := hex
    by_cases hk : key = k
    · subst hk
      exact .inr ⟨v, x, List.lookup_cons_self, List.lookup_cons_self, hP⟩
    · rw [List.lookup_cons, List.lookup_cons, beq_false_of_ne hk]
      exact ih

theorem lookup_filter_ne {entries : List (String × Json)} {key key' : String} (h : key ≠ key') :
    (entries.filter (·.1 ≠ key')).lookup key = entries.lookup key := by
  induction entries with
  | nil => rfl
  | cons e entries ih =>
    obtain ⟨k, v⟩ := e
    by_cases hk : k = key'
    · rw [List.filter_cons_of_neg (by simpa using hk), ih, List.lookup_cons,
        beq_false_of_ne (hk ▸ h)]
    · rw [List.filter_cons_of_pos (by simpa using hk), List.lookup_cons, List.lookup_cons, ih]

theorem lookup_filter_self {entries : List (String × Json)} {key : String} :
    (entries.filter (·.1 ≠ key)).lookup key = none := by
  refine List.lookup_eq_none_iff.mpr fun e he ↦ ?_
  have hne : e.1 ≠ key := by simpa using (List.mem_filter.mp he).2
  exact bne_iff_ne.mpr hne.symm

section Copy

variable {opIndex : ℕ} {results : List (Option Json)} {args : JsValue B} {path : List PathStep}

theorem substitute_string {s : String}
    (h : substitutePlaceholders realm opIndex results (.string s) = .ok args) :
    ∃ x, substituteString realm opIndex results s = .ok x ∧ args = .read x := by
  rw [substitutePlaceholders] at h
  cases hx : substituteString realm opIndex results s with
  | error message =>
    rw [hx] at h
    cases h
  | ok x =>
    rw [hx] at h
    exact ⟨x, rfl, (Except.ok.inj h).symm⟩

theorem valueAt_item (path : List PathStep) {items : List Json} {i : ℕ} {v : Json}
    (h : substitutePlaceholders realm opIndex results (.array items) = .ok args)
    (hv : items[i]? = some v) :
    ∃ x, substitutePlaceholders realm opIndex results v = .ok x ∧
      args.valueAt (.item i :: path) = x.valueAt path := by
  rw [substitutePlaceholders] at h
  cases hxs : substituteItems realm opIndex results items with
  | error message =>
    rw [hxs] at h
    cases h
  | ok xs =>
    rw [hxs] at h
    obtain rfl := Except.ok.inj h
    obtain ⟨hlen, hget⟩ := List.forall₂_iff_get.mp (substituteItems_eq_ok realm hxs)
    obtain ⟨hlt, rfl⟩ := List.getElem?_eq_some_iff.mp hv
    refine ⟨xs[i], hget i hlt (hlen ▸ hlt), ?_⟩
    rw [JsValue.valueAt, List.getElem?_eq_getElem (hlen ▸ hlt)]

theorem valueAt_field (path : List PathStep) {entries : List (String × Json)} {key : String}
    {v : Json}
    (h : substitutePlaceholders realm opIndex results (.object entries) = .ok args)
    (hv : entries.lookup key = some v) :
    (key = "__proto__" ∧ args.valueAt (.field key :: path) = none) ∨
      key ≠ "__proto__" ∧ ∃ x, substitutePlaceholders realm opIndex results v = .ok x ∧
        args.valueAt (.field key :: path) = x.valueAt path := by
  rw [substitutePlaceholders] at h
  cases hout : substituteEntries realm opIndex results entries ⟨none, []⟩ with
  | error message =>
    rw [hout] at h
    cases h
  | ok out =>
    rw [hout] at h
    obtain rfl := Except.ok.inj h
    obtain ⟨fields, hfields, hall⟩ := substituteEntries_eq_ok realm hout
    rw [List.nil_append] at hfields
    rw [JsValue.valueAt, hfields]
    have hlookup := lookup_forall₂
      (fun v x ↦ substitutePlaceholders realm opIndex results v = .ok x) hall key
    by_cases hkey : key = "__proto__"
    · subst hkey
      rcases hlookup with ⟨-, hnone⟩ | ⟨v', x, hv', -, -⟩
      · rw [hnone]
        exact .inl ⟨rfl, rfl⟩
      · cases lookup_filter_self.symm.trans hv'
    · rw [lookup_filter_ne hkey, hv] at hlookup
      rcases hlookup with ⟨hnone, -⟩ | ⟨v', x, hv', hx, hsub⟩
      · cases hnone
      · obtain rfl := Option.some_inj.mp hv'
        exact .inr ⟨hkey, x, hsub, by rw [hx]⟩

/-- **Every string is replaced at its place**, unless the place lies under `__proto__`. -/
theorem valueAt_substitute {raw : Json}
    (h : substitutePlaceholders realm opIndex results raw = .ok args) {s : String}
    (hs : valueAt raw path = some (.string s)) :
    (.field "__proto__" ∈ path ∧ args.valueAt path = none) ∨
      .field "__proto__" ∉ path ∧ ∃ x, substituteString realm opIndex results s = .ok x ∧
        args.valueAt path = some (.read x) := by
  induction path generalizing raw args with
  | nil =>
    obtain rfl := Option.some_inj.mp hs
    obtain ⟨x, hx, rfl⟩ := substitute_string realm h
    exact .inr ⟨List.not_mem_nil, x, hx, JsValue.valueAt.eq_1 _⟩
  | cons step path ih =>
    rcases step with i | key
    · rcases raw with _ | _ | _ | _ | items | _
      case array =>
        rw [valueAt] at hs
        cases hi : items[i]? with
        | none => simp [hi] at hs
        | some v =>
          simp only [hi] at hs
          obtain ⟨x, hx, hat⟩ := valueAt_item realm path h hi
          rw [hat]
          simpa using ih hx hs
      all_goals simp [valueAt] at hs
    · rcases raw with _ | _ | _ | _ | _ | entries
      case object =>
        rw [valueAt] at hs
        cases hv : entries.lookup key with
        | none => simp [hv] at hs
        | some v =>
          simp only [hv] at hs
          rcases valueAt_field realm path h hv with
            ⟨rfl, hnone⟩ | ⟨hkey, x, hx, hat⟩
          · exact .inl ⟨List.mem_cons_self, hnone⟩
          · rw [hat]
            simpa [Ne.symm hkey] using ih hx hs
      all_goals simp [valueAt] at hs

end Copy

theorem exists_lt_of_resolve {ref : PlaceholderRef}
    {x : ReadValue B} (hlen : results.length = opIndex)
    (h : resolve realm opIndex results ref = .ok x) : ∃ t < opIndex,
      (ref.target = .op t ∨ ref.target = .prev ∧ t + 1 = opIndex) ∧
        ref.target.index opIndex = t := by
  have hlt : ref.target.index opIndex < opIndex := by
    by_contra hge
    rw [resolve, List.getElem?_eq_none (by omega)] at h
    cases h
  refine ⟨_, hlt, ?_, rfl⟩
  cases hr : ref.target with
  | op n => exact .inl rfl
  | prev =>
    rw [hr, PlaceholderTarget.index] at hlt
    exact .inr ⟨rfl, by rw [PlaceholderTarget.index]; omega⟩

theorem replaced_iff {raw : Json} {args : JsValue B} (hlen : results.length = opIndex)
    (h : substitutePlaceholders realm opIndex results raw = .ok args) :
    Replaced opIndex results raw args ↔ OwnOnly opIndex results raw := by
  constructor
  · intro hreplaced
    refine ⟨fun path s hs hstring hmem ↦ ?_, fun path s ref hs href ↦ ?_⟩
    · obtain ⟨-, hnone⟩ | ⟨hnot, -⟩ := valueAt_substitute realm h hs
      · rcases hstring with hstring | hstring
        · obtain ⟨ref, href⟩ := Option.isSome_iff_exists.mp hstring
          obtain ⟨t, -, -, data, v, -, -, hv⟩ := hreplaced.placeholder path s ref hs href
          rw [hnone] at hv
          cases hv
        · have hv := hreplaced.escape path s hs hstring
          rw [hnone] at hv
          cases hv
      · exact hnot hmem
    · obtain ⟨t, ht, htarget, data, v, hdata, hv, -⟩ := hreplaced.placeholder path s ref hs href
      have hindex : ref.target.index opIndex = t := by
        rcases htarget with htarget | ⟨htarget, heq⟩
        · rw [htarget, PlaceholderTarget.index]
        · rw [htarget, PlaceholderTarget.index, ← heq, Nat.add_sub_cancel]
      exact ⟨data, v, by rw [hindex, hdata, Option.join_some], hv⟩
  · intro hown
    refine ⟨fun path s ref hs href ↦ ?_, fun path s hs hescaped ↦ ?_⟩
    · -- An escaped string is no placeholder, so the branch that resolves it is taken.
      have hplain : ¬ isEscaped s := fun hescaped ↦ by
        rw [parsePlaceholder_of_isEscaped hescaped] at href
        cases href
      obtain ⟨hmem, -⟩ | ⟨-, x, hx, hat⟩ := valueAt_substitute realm h hs
      · exact absurd hmem (hown.unshadowed path s hs (.inl (href ▸ rfl)))
      · obtain ⟨data, v, hdata, hv⟩ := hown.own path s ref hs href
        rw [substituteString, if_neg hplain, href] at hx
        dsimp only at hx
        obtain ⟨t, ht, htarget, hindex⟩ := exists_lt_of_resolve realm hlen hx
        rw [resolve, hdata] at hx
        dsimp only at hx
        rw [followPath_of_ownPath realm hv] at hx
        obtain rfl := Except.ok.inj hx
        refine ⟨t, ht, htarget, data, v, ?_, hv, hat⟩
        rwa [hindex, Option.join_eq_some_iff] at hdata
    · obtain ⟨hmem, -⟩ | ⟨-, x, hx, hat⟩ := valueAt_substitute realm h hs
      · exact absurd hmem (hown.unshadowed path s hs (.inr hescaped))
      · rw [substituteString, if_pos hescaped] at hx
        obtain rfl := Except.ok.inj hx
        exact hat

mutual

theorem substitutePlaceholders_of_collect {v : Json} (h : collectPlaceholders v = [])
    (opIndex : ℕ) (results results' : List (Option Json)) :
    substitutePlaceholders realm opIndex results v =
      substitutePlaceholders realm opIndex results' v := by
  cases v with
  | null => rfl
  | bool b => rfl
  | number n => rfl
  | string s =>
    rw [collectPlaceholders] at h
    have hnone : parsePlaceholder s = none := by
      cases hp : parsePlaceholder s with
      | none => rfl
      | some ref =>
        rw [hp] at h
        cases h
    rw [substitutePlaceholders, substitutePlaceholders, substituteString, substituteString, hnone]
  | array items =>
    rw [collectPlaceholders] at h
    rw [substitutePlaceholders, substitutePlaceholders,
      substituteItems_of_collect h opIndex results results']
  | object entries =>
    rw [collectPlaceholders] at h
    rw [substitutePlaceholders, substitutePlaceholders,
      substituteEntries_of_collect h opIndex results results']

theorem substituteItems_of_collect {vs : List Json} (h : collectItems vs = [])
    (opIndex : ℕ) (results results' : List (Option Json)) :
    substituteItems realm opIndex results vs = substituteItems realm opIndex results' vs := by
  cases vs with
  | nil => rfl
  | cons v vs =>
    rw [collectItems, List.append_eq_nil_iff] at h
    rw [substituteItems, substituteItems,
      substitutePlaceholders_of_collect h.1 opIndex results results',
      substituteItems_of_collect h.2 opIndex results results']

theorem substituteEntries_of_collect {entries : List (String × Json)}
    (h : collectEntries entries = []) (opIndex : ℕ) (results results' : List (Option Json))
    (out : ObjectCopy B) : substituteEntries realm opIndex results entries out =
      substituteEntries realm opIndex results' entries out := by
  cases entries with
  | nil => rfl
  | cons e entries =>
    obtain ⟨key, v⟩ := e
    rw [collectEntries, List.append_eq_nil_iff] at h
    rw [substituteEntries, substituteEntries,
      substitutePlaceholders_of_collect h.1 opIndex results results']
    simp only [substituteEntries_of_collect h.2 opIndex results results']

end

end CadProgram

end RosheraCad
