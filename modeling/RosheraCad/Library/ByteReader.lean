import Mathlib.Data.Vector.Basic
import Mathlib.Tactic.Ring

/-!
# Reading bytes

A writer and a reader are compared by `Reads r out a`: on any string that starts with `out`, the
reader `r` takes exactly `out` and returns `a`. Readers run one after another read what was written
one after another, so the round trip of a record is one step for each field.
-/

/-- A byte array of fixed length. -/
abbrev ByteVec (n : ℕ) := List.Vector UInt8 n

/-! ## Integers -/

/-- The `w` lowest bytes of a number, least significant first. -/
def toLe : ℕ → ℕ → List UInt8
  | 0, _ => []
  | w + 1, n => UInt8.ofNat n :: toLe w (n / 256)

def ofLe : List UInt8 → ℕ
  | [] => 0
  | b :: bs => b.toNat + 256 * ofLe bs

theorem length_toLe (w n : ℕ) : (toLe w n).length = w := by
  induction w generalizing n with
  | zero => rfl
  | succ w ih => rw [toLe, List.length_cons, ih]

theorem toLe_ofLe (l : List UInt8) : toLe l.length (ofLe l) = l := by
  induction l with
  | nil => rfl
  | cons b bs ih =>
    have hb := b.toNat_lt
    have hdiv : (b.toNat + 256 * ofLe bs) / 256 = ofLe bs := by omega
    have hmod : UInt8.ofNat (b.toNat + 256 * ofLe bs) = b := by
      rw [← UInt8.toNat_inj, UInt8.toNat_ofNat']
      omega
    rw [ofLe, List.length_cons, toLe, hdiv, hmod, ih]

theorem ofLe_lt (l : List UInt8) : ofLe l < 256 ^ l.length := by
  induction l with
  | nil => exact Nat.one_pos
  | cons b bs ih =>
    have hb := b.toNat_lt
    rw [ofLe, List.length_cons, pow_succ]
    omega

theorem ofLe_toLe {w n : ℕ} (h : n < 256 ^ w) : ofLe (toLe w n) = n := by
  induction w generalizing n with
  | zero =>
    rw [pow_zero, Nat.lt_one_iff] at h
    rw [h]
    rfl
  | succ w ih =>
    have hdiv : n / 256 < 256 ^ w := by
      rw [pow_succ] at h
      exact Nat.div_lt_of_lt_mul (by rwa [Nat.mul_comm] at h)
    rw [toLe, ofLe, ih hdiv, UInt8.toNat_ofNat']
    omega

inductive ByteOrder
  | littleEndian
  | bigEndian

namespace ByteOrder

/-- The `w` lowest bytes of a number. -/
def bytes (order : ByteOrder) (w n : ℕ) : List UInt8 :=
  match order with
  | littleEndian => toLe w n
  | bigEndian => (toLe w n).reverse

def value (order : ByteOrder) (l : List UInt8) : ℕ :=
  match order with
  | littleEndian => ofLe l
  | bigEndian => ofLe l.reverse

theorem length_bytes (order : ByteOrder) (w n : ℕ) : (order.bytes w n).length = w := by
  rcases order with - | -
  · exact length_toLe w n
  · rw [bytes, List.length_reverse, length_toLe]

theorem bytes_zero (order : ByteOrder) (w : ℕ) : order.bytes w 0 = List.replicate w 0 := by
  have hzero : toLe w 0 = List.replicate w 0 := by
    induction w with
    | zero => rfl
    | succ w ih =>
      rw [toLe, Nat.zero_div, ih, List.replicate_succ]
      rfl
  rcases order with - | -
  · exact hzero
  · rw [bytes, hzero, List.reverse_replicate]

theorem value_bytes {order : ByteOrder} {w n : ℕ} (h : n < 256 ^ w) :
    order.value (order.bytes w n) = n := by
  rcases order with - | -
  · exact ofLe_toLe h
  · rw [bytes, value, List.reverse_reverse, ofLe_toLe h]

theorem bytes_value (order : ByteOrder) (l : List UInt8) :
    order.bytes l.length (order.value l) = l := by
  rcases order with - | -
  · exact toLe_ofLe l
  · rw [bytes, value]
    have h := toLe_ofLe l.reverse
    rw [List.length_reverse] at h
    rw [h, List.reverse_reverse]

theorem value_lt (order : ByteOrder) (l : List UInt8) : order.value l < 256 ^ l.length := by
  rcases order with - | -
  · exact ofLe_lt l
  · have h := ofLe_lt l.reverse
    rwa [List.length_reverse] at h

end ByteOrder

/-! ## Readers -/

abbrev ByteReader (ε α : Type) := StateT (List UInt8) (Except ε) α

namespace ByteReader

variable {ε α β : Type} {bytes rest : List UInt8} {f : α → ByteReader ε β} {r : ByteReader ε α}
  {x : Except ε α} {out : List UInt8}

def readExact (eof : ε) (n : ℕ) : ByteReader ε (ByteVec n) := fun bytes ↦
  if h : n ≤ bytes.length then .ok (⟨bytes.take n, List.length_take_of_le h⟩, bytes.drop n)
  else .error eof

def readU8 (eof : ε) : ByteReader ε UInt8 := do
  return (← readExact eof 1).head

def readU32 (eof : ε) (order : ByteOrder) : ByteReader ε UInt32 := do
  return UInt32.ofNat (order.value (← readExact eof 4).toList)

def readU64 (eof : ε) (order : ByteOrder) : ByteReader ε UInt64 := do
  return UInt64.ofNat (order.value (← readExact eof 8).toList)

/-! ## Reading what was written -/

/-- The reader takes exactly `out`, whatever follows, and returns `a`. -/
def Reads (r : ByteReader ε α) (out : List UInt8) (a : α) : Prop :=
  ∀ rest, r (out ++ rest) = .ok (a, rest)

theorem Reads.pure (a : α) : Reads (pure a : ByteReader ε α) [] a := fun _ ↦ rfl

def Continues (r : ByteReader ε α) (out : List UInt8) (k : ByteReader ε α) : Prop :=
  ∀ rest, r (out ++ rest) = k rest

theorem Reads.continues {out₁ out₂ : List UInt8}
    {a : α} {k : ByteReader ε β} (h₁ : Reads r out₁ a) (h₂ : Continues (f a) out₂ k) :
    Continues (r >>= f) (out₁ ++ out₂) k := by
  intro rest
  have hr := h₁ (out₂ ++ rest)
  rw [← List.append_assoc] at hr
  show Except.bind (r (out₁ ++ out₂ ++ rest)) _ = _
  rw [hr]
  exact h₂ rest

theorem Reads.bind {out₁ out₂ : List UInt8} {a : α}
    {b : β} (h₁ : Reads r out₁ a) (h₂ : Reads (f a) out₂ b) : Reads (r >>= f) (out₁ ++ out₂) b :=
  h₁.continues h₂

theorem Reads.last {f : α → β} {a : α} (h : Reads r out a) :
    Reads (r >>= fun a ↦ Pure.pure (f a)) out (f a) := by
  have hbind := h.bind (f := fun a ↦ Pure.pure (f a)) (Reads.pure (f a))
  rwa [List.append_nil] at hbind

theorem Reads.lift {a : α} (h : x = .ok a) :
    Reads (liftM x : ByteReader ε α) [] a := by
  intro rest
  rw [h]
  rfl

theorem Reads.check {a : α} {b : β}
    (h : x = .ok a) (hf : Reads (f a) out b) : Reads (liftM x >>= f) out b :=
  (Reads.lift h).bind hf

theorem Continues.check {a : α} {k : ByteReader ε β} (h : x = .ok a) (hf : Continues (f a) out k) :
    Continues (liftM x >>= f) out k :=
  (Reads.lift h).continues hf

theorem reads_readExact (eof : ε) {n : ℕ} (v : ByteVec n) : Reads (readExact eof n) v.toList v := by
  intro rest
  have hlen : v.toList.length = n := v.toList_length
  have hle : n ≤ (v.toList ++ rest).length := by
    rw [List.length_append, hlen]
    exact Nat.le_add_right _ _
  rw [readExact, dif_pos hle]
  congr 2
  · exact List.Vector.eq _ _ (List.take_left' hlen)
  · exact List.drop_left' hlen

theorem reads_readU8 (eof : ε) (b : UInt8) : Reads (readU8 eof) [b] b :=
  (reads_readExact eof (b ::ᵥ List.Vector.nil)).last

theorem reads_readU32 (eof : ε) (order : ByteOrder) (x : UInt32) :
    Reads (readU32 eof order) (order.bytes 4 x.toNat) x := by
  have h : Reads (readU32 eof order) (order.bytes 4 x.toNat)
      (UInt32.ofNat (order.value (order.bytes 4 x.toNat))) :=
    (reads_readExact eof ⟨order.bytes 4 x.toNat, order.length_bytes 4 _⟩).last
  rwa [ByteOrder.value_bytes x.toNat_lt, UInt32.ofNat_toNat] at h

theorem reads_readU64 (eof : ε) (order : ByteOrder) (x : UInt64) :
    Reads (readU64 eof order) (order.bytes 8 x.toNat) x := by
  have h : Reads (readU64 eof order) (order.bytes 8 x.toNat)
      (UInt64.ofNat (order.value (order.bytes 8 x.toNat))) :=
    (reads_readExact eof ⟨order.bytes 8 x.toNat, order.length_bytes 8 _⟩).last
  rwa [ByteOrder.value_bytes x.toNat_lt, UInt64.ofNat_toNat] at h

/-! ## What was read -/

theorem bind_eq_ok {b : β} :
    (r >>= f) bytes = .ok (b, rest) ↔
      ∃ a mid, r bytes = .ok (a, mid) ∧ f a mid = .ok (b, rest) := by
  show Except.bind (r bytes) _ = _ ↔ _
  rcases r bytes with err | ⟨a, mid⟩
  · exact iff_of_false nofun (by rintro ⟨a, mid, h, -⟩; cases h)
  · constructor
    · intro h
      exact ⟨a, mid, rfl, h⟩
    · rintro ⟨a', mid', h, hf⟩
      cases h
      exact hf

theorem readExact_eq_ok {eof : ε} {n : ℕ} {v : ByteVec n} :
    readExact eof n bytes = .ok (v, rest) ↔
      n ≤ bytes.length ∧ v.toList = bytes.take n ∧ rest = bytes.drop n := by
  rw [readExact]
  by_cases h : n ≤ bytes.length
  · rw [dif_pos h]
    constructor
    · intro heq
      cases heq
      exact ⟨h, rfl, rfl⟩
    · rintro ⟨-, hv, rfl⟩
      congr 2
      exact List.Vector.eq _ _ hv.symm
  · rw [dif_neg h]
    exact iff_of_false nofun fun h' ↦ h h'.1

theorem readExact_bytes {eof : ε} {n : ℕ} {v : ByteVec n}
    (h : readExact eof n bytes = .ok (v, rest)) : bytes = v.toList ++ rest := by
  obtain ⟨-, hv, rfl⟩ := readExact_eq_ok.mp h
  rw [hv, List.take_append_drop]

theorem readU8_bytes {eof : ε} {b : UInt8}
    (h : readU8 eof bytes = .ok (b, rest)) : bytes = [b] ++ rest := by
  obtain ⟨v, mid, hv, hb⟩ := bind_eq_ok.mp h
  cases hb
  rw [readExact_bytes hv, List.Vector.toList_singleton]

theorem readU32_bytes {eof : ε} {order : ByteOrder} {x : UInt32}
    (h : readU32 eof order bytes = .ok (x, rest)) : bytes = order.bytes 4 x.toNat ++ rest := by
  obtain ⟨v, mid, hv, hx⟩ := bind_eq_ok.mp h
  cases hx
  have hlt := order.value_lt v.toList
  have hbytes := order.bytes_value v.toList
  rw [v.toList_length] at hlt hbytes
  rw [readExact_bytes hv, UInt32.toNat_ofNat_of_lt' hlt, hbytes]

theorem readU64_bytes {eof : ε} {order : ByteOrder} {x : UInt64}
    (h : readU64 eof order bytes = .ok (x, rest)) : bytes = order.bytes 8 x.toNat ++ rest := by
  obtain ⟨v, mid, hv, hx⟩ := bind_eq_ok.mp h
  cases hx
  have hlt := order.value_lt v.toList
  have hbytes := order.bytes_value v.toList
  rw [v.toList_length] at hlt hbytes
  rw [readExact_bytes hv, UInt64.toNat_ofNat_of_lt' hlt, hbytes]

theorem lift_eq_ok {a : α} :
    (liftM x : ByteReader ε α) bytes = .ok (a, rest) ↔ x = .ok a ∧ rest = bytes := by
  rcases x with err | a'
  · exact iff_of_false nofun fun h ↦ nomatch h.1
  · constructor
    · intro h
      cases h
      exact ⟨rfl, rfl⟩
    · rintro ⟨h, rfl⟩
      cases h
      rfl

end ByteReader
