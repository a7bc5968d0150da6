import RosheraCad.Library.IdStore
import RosheraCad.Library.Run
import RosheraCad.Types

/-!
# Transactions over the kernel

A transaction lists the solids made under it, and a rollback removes what is listed. A request makes
its solid under the lock of a model, and lists it afterwards; by then the transaction may have
ended. The system keeps which solids were built under which transaction.
-/

namespace RosheraCad

namespace Transactions

abbrev TxId := Uuid

inductive TxStatus
  | active
  | committed
  | rolledBack
  | expired
  deriving DecidableEq

/-- The state of a transaction, apart from its id, which is its key. Times are in nanoseconds. -/
structure TransactionState where
  status : TxStatus
  createdAt : ℕ
  createdSolids : List ℕ
  deriving DecidableEq

structure TransactionView where
  txId : TxId
  status : TxStatus
  createdSolids : List ℕ
  ageSeconds : ℕ
  deriving DecidableEq

abbrev TransactionManager := OrderedMap TxId TransactionState

inductive ErrorCode
  | transactionNotFound
  | transactionNotActive
  deriving DecidableEq

structure ApiError where
  code : ErrorCode
  error : String
  hint : Option String
  details : Option Json

def transactionNotFound (txId : TxId) : ApiError where
  code := .transactionNotFound
  error := "transaction " ++ txId.toText ++ " is unknown or has been pruned"
  hint := some ("Open a fresh transaction with POST /api/tx/begin and use the returned tx_id " ++
    "within the next hour.")
  details := some (.object [("tx_id", .string txId.toText)])

def statusStr : TxStatus → String
  | .active => "active"
  | .committed => "committed"
  | .rolledBack => "rolled_back"
  | .expired => "expired"

def transactionNotActive (txId : TxId) (status : TxStatus) : ApiError where
  code := .transactionNotActive
  error := "transaction " ++ txId.toText ++ " is in terminal state '" ++ statusStr status ++ "'"
  hint := none
  details := some (.object [("status", .string (statusStr status)), ("tx_id", .string txId.toText)])

/-- How long a transaction may stay open: one hour. -/
def txTtl : ℕ := 60 * 60 * 10 ^ 9

namespace TransactionManager

variable (m : TransactionManager) (now : ℕ)

def begin (id : TxId) : TransactionManager := m.insert id ⟨.active, now, []⟩

def view (id : TxId) : Option TransactionView :=
  m[id]?.map fun tx ↦ ⟨id, tx.status, tx.createdSolids, (now - tx.createdAt) / 10 ^ 9⟩

/-- Change a transaction, if it is active. -/
def whileActive (id : TxId) (f : TransactionState → TransactionState) :
    Except ApiError TransactionManager :=
  match m[id]? with
  | none => .error (transactionNotFound id)
  | some tx =>
    if tx.status = .active then .ok (m.insert id (f tx))
    else .error (transactionNotActive id tx.status)

def trackSolid (id : TxId) (solid : ℕ) : Except ApiError TransactionManager :=
  m.whileActive id fun tx ↦ { tx with createdSolids := tx.createdSolids ++ [solid] }

def commit (id : TxId) : Except ApiError (Option TransactionView × TransactionManager) := do
  let m ← m.whileActive id fun tx ↦ { tx with status := .committed }
  return (m.view now id, m)

def solidsOf (id : TxId) : List ℕ := m[id]?.elim [] TransactionState.createdSolids

/-- The solids the caller must remove. -/
def beginRollback (id : TxId) : Except ApiError (List ℕ × TransactionManager) := do
  let m ← m.whileActive id fun tx ↦ { tx with status := .rolledBack }
  return (m.solidsOf id, m)

def isExpired (tx : TransactionState) : Bool :=
  tx.status = .active && now - tx.createdAt > txTtl

/-- Roll back every transaction past its time. The solids of each are to be removed. -/
def sweepExpired : List (TxId × List ℕ) × TransactionManager :=
  ((m.toList.filter fun e ↦ isExpired now e.2).map fun e ↦ (e.1, e.2.createdSolids),
    m.map fun _ tx ↦ if isExpired now tx then { tx with status := .expired } else tx)

end TransactionManager

/-! ## The server -/

/-- A request under way. Without a header it addresses the default model, else that of a part. -/
inductive Request
  | building (tx : Option TxId) (part : Option Uuid)
  | tracking (tx : TxId) (solid : ℕ)
  | removing (part : Option Uuid) (solids : List ℕ)
  deriving DecidableEq

def Request.isRemoving : Request → Bool
  | .removing .. => true
  | .building .. | .tracking .. => false

structure Server (Solid : Type) where
  transactions : TransactionManager
  models : Option Uuid → IdStore Solid
  requests : OrderedMap ℕ Request
  now : ℕ
  built : List (TxId × Option Uuid × ℕ)

inductive ServerStep (Solid : Type)
  | begin (id : TxId)
  /-- `create_geometry` up to the kernel call. -/
  | create (r : ℕ) (tx : Option TxId) (part : Option Uuid)
  /-- The kernel call, with the solid it makes, if it makes one. -/
  | build (r : ℕ) (solid : Option Solid)
  | track (r : ℕ)
  | commit (id : TxId)
  | rollback (r : ℕ) (id : TxId) (part : Option Uuid)
  | sweep (r : ℕ)
  | remove (r : ℕ)
  | tick (elapsed : ℕ)

namespace Server

variable {Solid : Type} (s : Server Solid)

def new : Server Solid := ⟨∅, fun _ ↦ .empty, ∅, 0, []⟩

def isActive (id : TxId) : Bool :=
  (s.transactions.view s.now id).any fun view ↦ view.status = .active

def create (r : ℕ) (tx : Option TxId) (part : Option Uuid) : Server Solid :=
  if tx.all s.isActive then { s with requests := s.requests.insert r (.building tx part) } else s

def build (r : ℕ) (made : Option Solid) : Server Solid :=
  match s.requests[r]?, made with
  | some (.building tx part), some solid =>
    let (n, store) := (s.models part).add solid
    { s with
      models := Function.update s.models part store
      requests := match tx with
        | none => s.requests.erase r
        | some id => s.requests.insert r (.tracking id n)
      built := s.built ++ tx.toList.map fun id ↦ (id, part, n) }
  | some (.building _ _), none => { s with requests := s.requests.erase r }
  | _, _ => s

def track (r : ℕ) : Server Solid :=
  match s.requests[r]? with
  | some (.tracking id n) =>
    { s with
      transactions := (s.transactions.trackSolid id n).toOption.getD s.transactions
      requests := s.requests.erase r }
  | _ => s

def commit (id : TxId) : Server Solid :=
  match s.transactions.commit s.now id with
  | .ok (_, m) => { s with transactions := m }
  | .error _ => s

def rollback (r : ℕ) (id : TxId) (part : Option Uuid) : Server Solid :=
  match s.transactions.beginRollback id with
  | .ok (solids, m) =>
    { s with transactions := m, requests := s.requests.insert r (.removing part solids) }
  | .error _ => s

def sweep (r : ℕ) : Server Solid :=
  let (expired, m) := s.transactions.sweepExpired s.now
  { s with
    transactions := m
    requests := if expired = [] then s.requests
      else s.requests.insert r (.removing none (expired.flatMap Prod.snd)) }

def remove (r : ℕ) : Server Solid :=
  match s.requests[r]? with
  | some (.removing part solids) =>
    { s with
      models := Function.update s.models part (solids.foldl IdStore.remove (s.models part))
      requests := s.requests.erase r }
  | _ => s

def step : ServerStep Solid → Server Solid
  | .begin id => { s with transactions := s.transactions.begin s.now id }
  | .create r tx part => s.create r tx part
  | .build r made => s.build r made
  | .track r => s.track r
  | .commit id => s.commit id
  | .rollback r id part => s.rollback r id part
  | .sweep r => s.sweep r
  | .remove r => s.remove r
  | .tick elapsed => { s with now := s.now + elapsed }

/-- What is new is new: the id of a transaction, and a request. -/
def enabled : ServerStep Solid → Prop
  | .begin id => id ∉ s.transactions
  | .create r _ _ | .rollback r _ _ | .sweep r => r ∉ s.requests
  | .build _ _ | .track _ | .remove _ | .commit _ | .tick _ => True

instance : ∀ i, Decidable (s.enabled i)
  | .begin id => inferInstanceAs (Decidable (id ∉ s.transactions))
  | .create r _ _ | .rollback r _ _ | .sweep r => inferInstanceAs (Decidable (r ∉ s.requests))
  | .build _ _ | .track _ | .remove _ | .commit _ | .tick _ => isTrue trivial

end Server

/-- A transaction is used with one model, its home, and a sweep only cleans the default one. -/
def Server.AtHome {Solid : Type} (home : TxId → Option Uuid) (s : Server Solid) :
    ServerStep Solid → Prop
  | .create _ tx part => ∀ id ∈ tx, part = home id
  | .rollback _ id part => part = home id
  | .sweep _ => ∀ e ∈ (s.transactions.sweepExpired s.now).1, home e.1 = none
  | .begin _ | .build _ _ | .track _ | .remove _ | .commit _ | .tick _ => True

instance {Solid : Type} (home : TxId → Option Uuid) (s : Server Solid) :
    ∀ i, Decidable (s.AtHome home i)
  | .create _ tx part => Option.decidableForallMem (p := fun id ↦ part = home id) tx
  | .rollback _ id part => inferInstanceAs (Decidable (part = home id))
  | .sweep _ => inferInstanceAs
    (Decidable (∀ e ∈ (s.transactions.sweepExpired s.now).1, home e.1 = none))
  | .begin _ | .build _ _ | .track _ | .remove _ | .commit _ | .tick _ => isTrue trivial

def system (Solid : Type) : GuardedSystem (Server Solid) (ServerStep Solid) where
  init := .new
  enabled := Server.enabled
  step := Server.step

instance {Solid : Type} (s : Server Solid) (i : ServerStep Solid) :
    Decidable ((system Solid).enabled s i) :=
  inferInstanceAs (Decidable (s.enabled i))

/-! ## The transactions of a step -/

def TransactionState.Ended (tx : TransactionState) : Prop :=
  tx.status = .rolledBack ∨ tx.status = .expired

theorem TransactionState.not_ended {tx : TransactionState} (h : tx.status = .active) :
    ¬ tx.Ended := by
  rintro (hend | hend) <;> rw [h] at hend <;> cases hend

namespace TransactionManager

variable {m m' : TransactionManager} {now : ℕ} {id : TxId} {tx : TransactionState}

theorem whileActive_eq_ok {f : TransactionState → TransactionState} :
    m.whileActive id f = .ok m' ↔
      ∃ tx, m[id]? = some tx ∧ tx.status = .active ∧ m' = m.insert id (f tx) := by
  rw [whileActive]
  cases hid : m[id]? with
  | none => simp
  | some tx =>
    by_cases hactive : tx.status = .active
    · simp [hactive, eq_comm]
    · simp [hactive]

theorem mem_sweepExpired {e : TxId × List ℕ} : e ∈ (m.sweepExpired now).1 ↔
    ∃ tx, m[e.1]? = some tx ∧ isExpired now tx ∧ e.2 = tx.createdSolids := by
  rw [sweepExpired, List.mem_map]
  constructor
  · rintro ⟨⟨id, tx⟩, hmem, rfl⟩
    obtain ⟨hmem, hexpired⟩ := List.mem_filter.mp hmem
    exact ⟨tx, OrderedMap.mem_toList.mp hmem, hexpired, rfl⟩
  · rintro ⟨tx, htx, hexpired, heq⟩
    exact ⟨(e.1, tx), List.mem_filter.mpr ⟨OrderedMap.mem_toList.mpr htx, hexpired⟩,
      Prod.ext rfl heq.symm⟩

theorem not_ended_of_isExpired (h : isExpired now tx) : ¬ tx.Ended :=
  TransactionState.not_ended (of_decide_eq_true (Bool.and_eq_true_iff.mp h).1)

theorem getElem?_sweepExpired : (m.sweepExpired now).2[id]? =
    m[id]?.map fun tx ↦ if isExpired now tx then { tx with status := .expired } else tx :=
  Std.ExtTreeMap.getElem?_map

end TransactionManager

/-! ## What every run keeps -/

variable {part : Option Uuid}

namespace Server

variable {Solid : Type} {s : Server Solid} {home : TxId → Option Uuid}
  {requests : OrderedMap ℕ Request}

/-- What is known of a request under way, by the transactions and by what was built. -/
def Justified (home : TxId → Option Uuid) (m : TransactionManager)
    (built : List (TxId × Option Uuid × ℕ)) : Request → Prop
  | .building tx part => ∀ id ∈ tx, part = home id ∧ id ∈ m
  | .tracking id n => (id, home id, n) ∈ built
  | .removing part solids => ∀ n ∈ solids,
    ∃ (id : TxId) (tx : TransactionState), m[id]? = some tx ∧ tx.Ended ∧ n ∈ tx.createdSolids ∧
      home id = part

structure Inv (home : TxId → Option Uuid) (s : Server Solid) : Prop where
  justified : ∀ (r : ℕ) q, s.requests[r]? = some q → Justified home s.transactions s.built q
  built : ∀ id part n, (id, part, n) ∈ s.built →
    part = home id ∧ id ∈ s.transactions ∧ n < (s.models part).nextId
  apart : ∀ id id' part n, (id, part, n) ∈ s.built → (id', part, n) ∈ s.built → id = id'
  tracked : ∀ (id : TxId) tx, s.transactions[id]? = some tx → ∀ n ∈ tx.createdSolids,
    (id, home id, n) ∈ s.built
  kept : ∀ (id : TxId) tx n, s.transactions[id]? = some tx → (id, home id, n) ∈ s.built →
    (tx.Ended → n ∉ tx.createdSolids) → (s.models (home id)).Live n
  gone : ∀ (id : TxId) tx n, s.transactions[id]? = some tx → tx.Ended → n ∈ tx.createdSolids →
    (s.models (home id)).Live n →
    ∃ (r : ℕ) (solids : List ℕ), s.requests[r]? = some (.removing (home id) solids) ∧ n ∈ solids

theorem new_inv : Inv home (.new : Server Solid) where
  justified r q h := by simp [new] at h
  built id part n h := absurd h List.not_mem_nil
  apart id id' part n h := absurd h List.not_mem_nil
  tracked id tx h := by simp [new] at h
  kept id tx n h := by simp [new] at h
  gone id tx n h := by simp [new] at h

/-- How a step may leave a transaction: new, as it was, or changed while it was active; if it ends,
a request is to remove its solids. -/
def Follows (s : Server Solid) (home : TxId → Option Uuid) (requests : OrderedMap ℕ Request)
    (id : TxId) (tx' : TransactionState) : Prop :=
  (s.transactions[id]? = none ∧ ¬ tx'.Ended ∧ tx'.createdSolids = []) ∨
    s.transactions[id]? = some tx' ∨
    ∃ tx, s.transactions[id]? = some tx ∧ ¬ tx.Ended ∧
      (∀ n ∈ tx'.createdSolids, (id, home id, n) ∈ s.built) ∧
      (tx'.Ended → ∃ (r : ℕ) (solids : List ℕ), requests[r]? = some (.removing (home id) solids) ∧
        ∀ n ∈ tx'.createdSolids, n ∈ solids)

/-- No transaction is lost, and one that has ended stays as it is. -/
def Grows (m m' : TransactionManager) : Prop :=
  ∀ (id : TxId) tx, m[id]? = some tx → ∃ tx', m'[id]? = some tx' ∧ (tx.Ended → tx' = tx)

theorem Grows.refl (m : TransactionManager) : Grows m m := fun _ tx htx ↦ ⟨tx, htx, fun _ ↦ rfl⟩

theorem Justified.mono {m m' : TransactionManager} {built built' : List (TxId × Option Uuid × ℕ)}
    {q : Request} (h : Justified home m built q) (hbuilt : built ⊆ built') (hm : Grows m m') :
    Justified home m' built' q := by
  cases q with
  | building tx part =>
    intro id hid
    obtain ⟨hpart, hmem⟩ := h id hid
    obtain ⟨tx, htx⟩ := OrderedMap.mem_iff_exists.mp hmem
    obtain ⟨tx', htx', -⟩ := hm id tx htx
    exact ⟨hpart, OrderedMap.mem_of_getElem? htx'⟩
  | tracking id n => exact hbuilt h
  | removing part solids =>
    intro n hn
    obtain ⟨id, tx, htx, hended, hmem, hpart⟩ := h n hn
    obtain ⟨tx', htx', hsame⟩ := hm id tx htx
    exact ⟨id, tx, hsame hended ▸ htx', hended, hmem, hpart⟩

/-- The requests a step leaves: what is new is justified, and no removal is lost. -/
structure Answers (home : TxId → Option Uuid) (s : Server Solid) (m : TransactionManager)
    (requests : OrderedMap ℕ Request) : Prop where
  justified : ∀ (r : ℕ) q, requests[r]? = some q →
    s.requests[r]? = some q ∨ Justified home m s.built q
  removing : ∀ (r : ℕ) part solids, s.requests[r]? = some (.removing part solids) →
    requests[r]? = some (.removing part solids)

namespace Answers

variable {m : TransactionManager} {r : ℕ} {q : Request}

theorem same : Answers home s m s.requests := ⟨fun _ _ hq ↦ .inl hq, fun _ _ _ hr ↦ hr⟩

theorem insert (hr : r ∉ s.requests) (hq : Justified home m s.built q) :
    Answers home s m (s.requests.insert r q) where
  justified r' q' hq' := by
    rw [OrderedMap.lookup_insert] at hq'
    split_ifs at hq'
    · exact .inr (Option.some_inj.mp hq' ▸ hq)
    · exact .inl hq'
  removing r' part solids hr' := by
    rw [OrderedMap.lookup_insert, if_neg, hr']
    rintro rfl
    exact hr (OrderedMap.mem_of_getElem? hr')

theorem erase (hq : s.requests[r]? = some q) (hne : ¬ q.isRemoving) :
    Answers home s m (s.requests.erase r) where
  justified r' q' hq' := by
    rw [OrderedMap.lookup_erase] at hq'
    split_ifs at hq'
    exact .inl hq'
  removing r' part solids hr' := by
    rw [OrderedMap.lookup_erase, if_neg, hr']
    rintro rfl
    obtain rfl := Option.some_inj.mp (hq.symm.trans hr')
    exact hne rfl

end Answers

/-- **A step that builds and removes nothing** keeps the invariant. -/
theorem Inv.transact (h : s.Inv home) {m : TransactionManager}
    {now : ℕ} (htx : ∀ (id : TxId) tx', m[id]? = some tx' → s.Follows home requests id tx')
    (hm : Grows s.transactions m) (hrequests : Answers home s m requests) :
    Inv home { s with transactions := m, requests := requests, now := now } where
  justified r q hq :=
    (hrequests.justified r q hq).elim (fun hq ↦ (h.justified r q hq).mono (fun _ ↦ id) hm) id
  built id part n hn := by
    obtain ⟨hpart, hmem, hlt⟩ := h.built id part n hn
    obtain ⟨tx, hid⟩ := OrderedMap.mem_iff_exists.mp hmem
    obtain ⟨tx', htx', -⟩ := hm id tx hid
    exact ⟨hpart, OrderedMap.mem_of_getElem? htx', hlt⟩
  apart := h.apart
  tracked id tx' hid n hn := by
    rcases htx id tx' hid with ⟨-, -, hnil⟩ | hsame | ⟨tx, -, -, htracked, -⟩
    · rw [hnil] at hn
      exact absurd hn List.not_mem_nil
    · exact h.tracked id tx' hsame n hn
    · exact htracked n hn
  kept id tx' n hid hbuilt huntracked := by
    rcases htx id tx' hid with ⟨hnone, -, -⟩ | hsame | ⟨tx, htx, hactive, -, -⟩
    · exact absurd (h.built id _ n hbuilt).2.1 (OrderedMap.not_mem_iff.mpr hnone)
    · exact h.kept id tx' n hsame hbuilt huntracked
    · exact h.kept id tx n htx hbuilt fun hended ↦ absurd hended hactive
  gone id tx' n hid hended hn hlive := by
    rcases htx id tx' hid with ⟨-, hnot, -⟩ | hsame | ⟨tx, -, -, -, hremoved⟩
    · exact absurd hended hnot
    · obtain ⟨r, solids, hr, hmem⟩ := h.gone id tx' n hsame hended hn hlive
      exact ⟨r, solids, hrequests.removing r _ solids hr, hmem⟩
    · obtain ⟨r, solids, hr, hall⟩ := hremoved hended
      exact ⟨r, solids, hr, hall n hn⟩

theorem Inv.sameTransactions (h : s.Inv home) {now : ℕ}
    (hrequests : Answers home s s.transactions requests) :
    Inv home { s with requests := requests, now := now } :=
  h.transact (fun _ _ hid ↦ .inr (.inl hid)) (.refl _) hrequests

/-! ## The solids of a model -/

section

variable (models : Option Uuid → IdStore Solid) (part p : Option Uuid) (solid : Solid)

theorem live_add {n : ℕ} : (Function.update models part ((models part).add solid).2 p).Live n ↔
    p = part ∧ n = (models part).nextId ∨ (models p).Live n := by
  rcases eq_or_ne p part with rfl | hp
  · rw [Function.update_self, IdStore.live_iff, IdStore.get_add, IdStore.live_iff]
    split_ifs with hn <;> simp [hn]
  · rw [Function.update_of_ne hp, or_iff_right fun hnew ↦ hp hnew.1]

theorem nextId_le_add :
    (models p).nextId ≤ (Function.update models part ((models part).add solid).2 p).nextId := by
  rcases eq_or_ne p part with rfl | hp
  · rw [Function.update_self]
    exact Nat.le_succ _
  · rw [Function.update_of_ne hp]

theorem live_foldl_remove {store : IdStore Solid} {solids : List ℕ} {n : ℕ} :
    (solids.foldl IdStore.remove store).Live n ↔ store.Live n ∧ n ∉ solids := by
  induction solids generalizing store with
  | nil => simp
  | cons solid solids ih =>
    rw [List.foldl_cons, ih, IdStore.live_iff, IdStore.get_remove, IdStore.live_iff]
    split_ifs with hn <;> simp [hn]

theorem live_remove {solids : List ℕ} {n : ℕ} :
    (Function.update models part (solids.foldl IdStore.remove (models part)) p).Live n ↔
      (models p).Live n ∧ ¬ (p = part ∧ n ∈ solids) := by
  rcases eq_or_ne p part with rfl | hp
  · rw [Function.update_self, live_foldl_remove, eq_self, true_and]
  · rw [Function.update_of_ne hp]
    exact ⟨fun hn ↦ ⟨hn, fun hsolid ↦ hp hsolid.1⟩, And.left⟩

theorem nextId_foldl_remove (store : IdStore Solid) (solids : List ℕ) :
    (solids.foldl IdStore.remove store).nextId = store.nextId := by
  induction solids generalizing store with
  | nil => rfl
  | cons solid solids ih => rw [List.foldl_cons, ih]; rfl

end

/-! ## Step by step -/

theorem Inv.begin (h : s.Inv home) {id : TxId} (hid : id ∉ s.transactions) :
    Inv home { s with transactions := s.transactions.begin s.now id } := by
  have hnone := OrderedMap.not_mem_iff.mp hid
  refine h.transact (fun id' tx' hid' ↦ ?_) (fun id' tx htx ↦ ⟨tx, ?_, fun _ ↦ rfl⟩) .same
  · rw [TransactionManager.begin, OrderedMap.lookup_insert] at hid'
    split_ifs at hid' with heq
    · obtain rfl := Option.some_inj.mp hid'
      exact .inl ⟨heq ▸ hnone, TransactionState.not_ended rfl, rfl⟩
    · exact .inr (.inl hid')
  · rw [TransactionManager.begin, OrderedMap.lookup_insert, if_neg, htx]
    rintro rfl
    rw [hnone] at htx
    cases htx

/-- A change of an active transaction that lists only what was built under it, and whose solids a
request is to remove if it ends. -/
theorem Inv.whileActive (h : s.Inv home) {id : TxId} {f : TransactionState → TransactionState}
    {m : TransactionManager}
    (hm : s.transactions.whileActive id f = .ok m)
    (hf : ∀ tx, s.transactions[id]? = some tx → ∀ n ∈ (f tx).createdSolids,
      (id, home id, n) ∈ s.built)
    (hended : ∀ tx, s.transactions[id]? = some tx → (f tx).Ended →
      ∃ (r : ℕ) (solids : List ℕ), requests[r]? = some (.removing (home id) solids) ∧
        ∀ n ∈ (f tx).createdSolids, n ∈ solids)
    (hrequests : Answers home s m requests) :
    Inv home { s with transactions := m, requests := requests } := by
  obtain ⟨tx, htx, hactive, rfl⟩ := TransactionManager.whileActive_eq_ok.mp hm
  have hnot := TransactionState.not_ended hactive
  refine h.transact (fun id' tx' hid' ↦ ?_) (fun id' tx' htx' ↦ ?_) hrequests
  · rw [OrderedMap.lookup_insert] at hid'
    split_ifs at hid' with heq
    · obtain rfl := Option.some_inj.mp hid'
      subst heq
      exact .inr (.inr ⟨tx, htx, hnot, hf tx htx, hended tx htx⟩)
    · exact .inr (.inl hid')
  · rw [OrderedMap.lookup_insert]
    split_ifs with heq
    · subst heq
      obtain rfl := Option.some_inj.mp (htx.symm.trans htx')
      exact ⟨_, rfl, fun hended ↦ absurd hended hnot⟩
    · exact ⟨tx', htx', fun _ ↦ rfl⟩

theorem isActive_iff {id : TxId} :
    s.isActive id ↔ ∃ tx, s.transactions[id]? = some tx ∧ tx.status = .active := by
  rw [isActive, TransactionManager.view]
  cases s.transactions[id]? <;> simp

theorem Inv.create (h : s.Inv home) {r : ℕ} {tx : Option TxId}
    (hr : r ∉ s.requests) (hhome : ∀ id ∈ tx, part = home id) : (s.create r tx part).Inv home := by
  rw [Server.create]
  split_ifs with hactive
  · refine h.sameTransactions (.insert hr fun id hid ↦ ⟨hhome id hid, ?_⟩)
    rw [Option.mem_def.mp hid, Option.all_some] at hactive
    obtain ⟨tx', htx', -⟩ := isActive_iff.mp hactive
    exact OrderedMap.mem_of_getElem? htx'
  · exact h

theorem Inv.track (h : s.Inv home) (r : ℕ) : (s.track r).Inv home := by
  rw [Server.track]
  split
  · next id n hr =>
    cases hm : s.transactions.trackSolid id n with
    | error => exact h.sameTransactions (.erase hr nofun)
    | ok m =>
      refine h.whileActive hm (fun tx htx n' hn' ↦ ?_) (fun tx htx hended ↦ ?_) (.erase hr nofun)
      · rcases List.mem_append.mp hn' with hn' | hn'
        · exact h.tracked id tx htx n' hn'
        · exact List.mem_singleton.mp hn' ▸ h.justified r _ hr
      · obtain ⟨tx', htx', hactive, -⟩ := TransactionManager.whileActive_eq_ok.mp hm
        obtain rfl := Option.some_inj.mp (htx.symm.trans htx')
        exact absurd hended (TransactionState.not_ended hactive)
  · exact h

theorem Inv.commit (h : s.Inv home) (id : TxId) : (s.commit id).Inv home := by
  rw [Server.commit, TransactionManager.commit]
  cases hm : s.transactions.whileActive id fun tx ↦ { tx with status := .committed } with
  | error => exact h
  | ok m =>
    exact h.whileActive hm (fun tx htx ↦ h.tracked id tx htx)
      (fun tx _ hended ↦ by rcases hended with hend | hend <;> cases hend) .same

theorem Inv.rollback (h : s.Inv home) {r : ℕ} {id : TxId}
    (hr : r ∉ s.requests) (hhome : part = home id) : (s.rollback r id part).Inv home := by
  rw [Server.rollback, TransactionManager.beginRollback]
  cases hm : s.transactions.whileActive id fun tx ↦ { tx with status := .rolledBack } with
  | error => exact h
  | ok m =>
    obtain ⟨tx, htx, -, hinsert⟩ := TransactionManager.whileActive_eq_ok.mp hm
    have hid : m[id]? = some { tx with status := .rolledBack } := by
      rw [hinsert, OrderedMap.lookup_insert, if_pos rfl]
    have hsolids : m.solidsOf id = tx.createdSolids := by
      rw [TransactionManager.solidsOf, hid]
      rfl
    refine h.whileActive hm (fun tx htx ↦ h.tracked id tx htx) (fun tx' htx' _ ↦ ?_)
      (.insert hr fun n hn ↦ ⟨id, _, hid, .inl rfl, hsolids ▸ hn, hhome.symm⟩)
    obtain rfl := Option.some_inj.mp (htx.symm.trans htx')
    refine ⟨r, m.solidsOf id, ?_, fun n hn ↦ hsolids ▸ hn⟩
    rw [OrderedMap.lookup_insert, if_pos rfl, hhome]

theorem Inv.sweep (h : s.Inv home) {r : ℕ} (hr : r ∉ s.requests)
    (hhome : ∀ e ∈ (s.transactions.sweepExpired s.now).1, home e.1 = none) :
    (s.sweep r).Inv home := by
  rw [Server.sweep]
  split
  next expired m hsweep =>
  have hmem : ∀ e, e ∈ expired ↔ ∃ tx, s.transactions[e.1]? = some tx ∧
      TransactionManager.isExpired s.now tx ∧ e.2 = tx.createdSolids := fun e ↦ by
    rw [← TransactionManager.mem_sweepExpired, hsweep]
  have hid : ∀ id : TxId, m[id]? = s.transactions[id]?.map fun tx ↦
      if TransactionManager.isExpired s.now tx then { tx with status := .expired } else tx :=
    fun id ↦ by rw [← TransactionManager.getElem?_sweepExpired, hsweep]
  rw [hsweep] at hhome
  refine h.transact (fun id tx' htx' ↦ ?_) (fun id tx htx ↦ ?_) ?_
  · rw [hid] at htx'
    obtain ⟨tx, htx, rfl⟩ := Option.map_eq_some_iff.mp htx'
    by_cases hexpired : TransactionManager.isExpired s.now tx
    · rw [if_pos hexpired]
      have he := (hmem (id, tx.createdSolids)).mpr ⟨tx, htx, hexpired, rfl⟩
      refine .inr (.inr ⟨tx, htx, TransactionManager.not_ended_of_isExpired hexpired,
        h.tracked id tx htx, fun _ ↦ ⟨r, expired.flatMap Prod.snd, ?_, fun n hn ↦ ?_⟩⟩)
      · rw [if_neg (List.ne_nil_of_mem he), OrderedMap.lookup_insert, if_pos rfl, hhome _ he]
      · exact List.mem_flatMap.mpr ⟨_, he, hn⟩
    · rw [if_neg hexpired]
      exact .inr (.inl htx)
  · refine ⟨_, (hid id).trans (by rw [htx]; rfl), fun hended ↦ if_neg fun hexpired ↦ ?_⟩
    exact TransactionManager.not_ended_of_isExpired hexpired hended
  · split_ifs
    · exact .same
    · refine .insert hr fun n hn ↦ ?_
      obtain ⟨e, he, hn⟩ := List.mem_flatMap.mp hn
      obtain ⟨tx, htx, hexpired, hsolids⟩ := (hmem e).mp he
      exact ⟨e.1, { tx with status := .expired },
        by rw [hid, htx, Option.map_some, if_pos hexpired], .inr rfl, hsolids ▸ hn, hhome e he⟩

theorem Inv.build (h : s.Inv home) (r : ℕ) (made : Option Solid) : (s.build r made).Inv home := by
  unfold Server.build
  split
  · next tx part solid hr =>
    have hhome := h.justified r _ hr
    -- a number that is new was not built before
    have hold : ∀ id p n, (id, p, n) ∈ s.built →
        ¬ (p = part ∧ n = (s.models part).nextId) := by
      rintro id p n hn ⟨rfl, rfl⟩
      exact lt_irrefl _ (h.built id _ _ hn).2.2
    have hbuilt : ∀ id p n, (id, p, n) ∈ s.built ++
          tx.toList.map (fun id ↦ (id, part, (s.models part).nextId)) ↔
        (id, p, n) ∈ s.built ∨ id ∈ tx ∧ p = part ∧ n = (s.models part).nextId := by
      intro id p n
      rw [List.mem_append, List.mem_map]
      simp [eq_comm]
    have hsub : s.built ⊆ s.built ++ tx.toList.map fun id ↦ (id, part, (s.models part).nextId) :=
      List.subset_append_left _ _
    refine ⟨fun r' q hq ↦ ?_, fun id p n hn ↦ ?_, fun id id' p n hn hn' ↦ ?_,
      fun id tx' hid n hn ↦ hsub (h.tracked id tx' hid n hn),
      fun id tx' n hid hn huntracked ↦ ?_, fun id tx' n hid hended hn hlives ↦ ?_⟩
    · have hq' : s.requests[r']? = some q ∨ ∃ id ∈ tx, q = .tracking id (s.models part).nextId := by
        cases tx with
        | none =>
          rw [OrderedMap.lookup_erase] at hq
          split_ifs at hq
          exact .inl hq
        | some id =>
          rw [OrderedMap.lookup_insert] at hq
          split_ifs at hq
          · exact .inr ⟨id, rfl, (Option.some_inj.mp hq).symm⟩
          · exact .inl hq
      obtain hq | ⟨id, hid, rfl⟩ := hq'
      · exact (h.justified r' q hq).mono hsub (.refl _)
      · exact (hbuilt _ _ _).mpr (.inr ⟨hid, (hhome id hid).1.symm, rfl⟩)
    · obtain hn | ⟨hid, rfl, rfl⟩ := (hbuilt id p n).mp hn
      · obtain ⟨hp, hid, hlt⟩ := h.built id p n hn
        exact ⟨hp, hid, hlt.trans_le (nextId_le_add ..)⟩
      · refine ⟨(hhome id hid).1, (hhome id hid).2, ?_⟩
        dsimp only
        rw [Function.update_self]
        exact Nat.lt_succ_self _
    · obtain hn | ⟨hid, hnew⟩ := (hbuilt id p n).mp hn
      · obtain hn' | ⟨-, hnew⟩ := (hbuilt id' p n).mp hn'
        · exact h.apart id id' p n hn hn'
        · exact absurd hnew (hold id p n hn)
      · obtain hn' | ⟨hid', -⟩ := (hbuilt id' p n).mp hn'
        · exact absurd hnew (hold id' p n hn')
        · exact Option.some_inj.mp (hid.symm.trans hid')
    · refine (live_add ..).mpr ?_
      obtain hn | ⟨-, hnew⟩ := (hbuilt id _ n).mp hn
      · exact .inr (h.kept id tx' n hid hn huntracked)
      · exact .inl hnew
    · have hold' := hold id _ n (h.tracked id tx' hid n hn)
      obtain ⟨r', solids, hr', hmem⟩ :=
        h.gone id tx' n hid hended hn (((live_add ..).mp hlives).resolve_left hold')
      refine ⟨r', solids, ?_, hmem⟩
      cases tx with
      | none =>
        have hrest : Answers home s s.transactions (s.requests.erase r) := .erase hr nofun
        exact hrest.removing r' _ solids hr'
      | some id =>
        refine (OrderedMap.lookup_insert ..).trans ((if_neg ?_).trans hr')
        rintro rfl
        cases hr.symm.trans hr'
  · next tx part hr =>
    exact h.sameTransactions (.erase hr nofun)
  · exact h

theorem Inv.remove (h : s.Inv home) (r : ℕ) : (s.remove r).Inv home := by
  rw [Server.remove]
  split
  · next part solids hr =>
    refine ⟨fun r' q hq ↦ h.justified r' q ?_, fun id p n hn ↦ ?_, h.apart,
      h.tracked, fun id tx n hid hbuilt huntracked ↦ ?_, fun id tx n hid hended hn hlives ↦ ?_⟩
    · rw [OrderedMap.lookup_erase] at hq
      split_ifs at hq
      exact hq
    · obtain ⟨hp, hid, hlt⟩ := h.built id p n hn
      refine ⟨hp, hid, ?_⟩
      dsimp only
      rcases eq_or_ne p part with rfl | hp
      · rwa [Function.update_self, nextId_foldl_remove]
      · rwa [Function.update_of_ne hp]
    · refine (live_remove ..).mpr ⟨h.kept id tx n hid hbuilt huntracked, ?_⟩
      rintro ⟨hpart, hn⟩
      obtain ⟨id', tx', hid', hended', hn', hpart'⟩ := h.justified r _ hr n hn
      have hsame := h.apart id id' _ n hbuilt
        (hpart.trans hpart'.symm ▸ h.tracked id' tx' hid' n hn')
      subst hsame
      obtain rfl := Option.some_inj.mp (hid.symm.trans hid')
      exact huntracked hended' hn'
    · obtain ⟨hlives, hnot⟩ := (live_remove ..).mp hlives
      obtain ⟨r', solids', hr', hmem⟩ := h.gone id tx n hid hended hn hlives
      refine ⟨r', solids', ?_, hmem⟩
      rw [OrderedMap.lookup_erase, if_neg, hr']
      rintro rfl
      obtain ⟨rfl, rfl⟩ := Request.removing.inj (Option.some_inj.mp (hr.symm.trans hr'))
      exact hnot ⟨rfl, hmem⟩
  · exact h

theorem Inv.step (h : s.Inv home) {i : ServerStep Solid} (he : s.enabled i)
    (hhome : s.AtHome home i) : (s.step i).Inv home := by
  cases i with
  | begin id => exact h.begin he
  | create r tx part => exact h.create he hhome
  | build r made => exact h.build r made
  | track r => exact h.track r
  | commit id => exact h.commit id
  | rollback r id part => exact h.rollback he hhome
  | sweep r => exact h.sweep he hhome
  | remove r => exact h.remove r
  | tick elapsed => exact h.sameTransactions .same

/-- Nothing is left to be removed. -/
def Swept (s : Server Solid) : Prop := ∀ e ∈ s.requests.toList, ¬ e.2.isRemoving

end Server

/-- **What is left of a transaction** once nothing is left to be removed: a solid built under it is
there just when it was not rolled back, or had ended before the solid was listed. -/
theorem Server.live_built_iff {Solid : Type} {s : Server Solid} {home : TxId → Option Uuid}
    (h : (system Solid).ReachableUnder (Server.AtHome home) s) (hswept : s.Swept) {id : TxId}
    {n : ℕ} (hbuilt : (id, part, n) ∈ s.built) :
    ∃ tx, s.transactions[id]? = some tx ∧
      ((s.models part).Live n ↔ (tx.Ended → n ∉ tx.createdSolids)) := by
  have hinv : s.Inv home :=
    h.invariant (Server.Inv home) Server.new_inv fun _ _ _ ih he hhome ↦ ih.step he hhome
  obtain ⟨rfl, hid, -⟩ := hinv.built id part n hbuilt
  obtain ⟨tx, htx⟩ := OrderedMap.mem_iff_exists.mp hid
  refine ⟨tx, htx, fun hlive hended hn ↦ ?_, hinv.kept id tx n htx hbuilt⟩
  obtain ⟨r, solids, hr, -⟩ := hinv.gone id tx n htx hended hn hlive
  exact hswept (r, _) (OrderedMap.mem_toList.mpr hr) rfl

def orphanRun : List (ServerStep Unit) :=
  [.begin 1, .create 0 (some 1) none, .create 1 (some 1) none, .build 0 (some ()), .track 0,
    .build 1 (some ()), .rollback 2 1 none, .track 1, .remove 2]

/-- A solid that is built before a rollback and listed after it stays. -/
theorem Server.live_built_iff_orphan :
    ∃ tx, ((system Unit).run .new orphanRun).transactions[(1 : TxId)]? = some tx ∧
      ((((system Unit).run .new orphanRun).models none).Live 1 ↔
        (tx.Ended → 1 ∉ tx.createdSolids)) := by
  have hrun : (system Unit).Admits (Server.AtHome fun _ ↦ none) .new orphanRun := by
    decide +kernel
  have hswept : ((system Unit).run .new orphanRun).Swept := by
    unfold Server.Swept
    decide +kernel
  have hbuilt : ((1 : TxId), (none : Option Uuid), 1) ∈
      ((system Unit).run .new orphanRun).built := by
    decide +kernel
  exact Server.live_built_iff (.run .init hrun) hswept hbuilt

end Transactions

end RosheraCad
