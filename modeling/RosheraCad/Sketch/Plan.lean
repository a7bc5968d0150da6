import RosheraCad.Library.OrderedSet
import RosheraCad.Types
import Mathlib.Algebra.GroupWithZero.Nat

/-!
# Decomposition plans of a sketch component

The planner places the smallest unplaced entity whose available hard constraints remove exactly its
free DOFs, and otherwise the first rigid cluster whose boundary removes exactly the three DOFs of a
rigid body. A plan is returned only when every free entity was placed and every hard constraint
consumed.
-/

namespace RosheraCad.Sketch

/-- Entity reference for constraints. -/
inductive EntityRef
  | point (id : Uuid)
  | line (id : Uuid)
  | arc (id : Uuid)
  | circle (id : Uuid)
  | rectangle (id : Uuid)
  | ellipse (id : Uuid)
  | spline (id : Uuid)
  | polyline (id : Uuid)
  deriving DecidableEq

namespace EntityRef

/-- The place of a reference in the order: by kind, then by identifier. -/
def key : EntityRef → ℕ
  | point id => id.toNat
  | line id => 1 * 2 ^ 128 + id.toNat
  | arc id => 2 * 2 ^ 128 + id.toNat
  | circle id => 3 * 2 ^ 128 + id.toNat
  | rectangle id => 4 * 2 ^ 128 + id.toNat
  | ellipse id => 5 * 2 ^ 128 + id.toNat
  | spline id => 6 * 2 ^ 128 + id.toNat
  | polyline id => 7 * 2 ^ 128 + id.toNat

theorem key_injective : Function.Injective key := by
  rintro (a | a | a | a | a | a | a | a) (b | b | b | b | b | b | b | b) h <;>
    · have ha := a.isLt
      have hb := b.isLt
      simp only [key] at h
      first
        | (exfalso; omega)
        | (congr 1; exact BitVec.eq_of_toNat_eq (by omega))

instance : Ord EntityRef := ⟨compareOn key⟩

instance : Std.TransOrd EntityRef := inferInstanceAs (Std.TransCmp (compareOn key))

instance : Std.LawfulEqOrd EntityRef where
  eq_of_compare h := key_injective (Std.LawfulEqOrd.eq_of_compare h)

end EntityRef

/-- One entity of the abstract component model. -/
structure PlanEntity where
  entity : EntityRef
  freeDofs : ℕ
  clusterCapable : Bool
  deriving DecidableEq

/-- One constraint of the abstract component model. -/
structure PlanConstraint where
  index : ℕ
  dofRemoved : ℕ
  hard : Bool
  enforced : Bool
  grounded : Bool
  vars : List EntityRef
  deriving DecidableEq

inductive PlanStep
  | extend (entity : EntityRef) (constraints soft : List ℕ)
  | placeCluster (entities : List EntityRef) (internal boundary soft : List ℕ)
  deriving DecidableEq

namespace PlanStep

def placedEntities : PlanStep → List EntityRef
  | extend entity _ _ => [entity]
  | placeCluster entities _ _ _ => entities

def soft : PlanStep → List ℕ
  | extend _ _ soft => soft
  | placeCluster _ _ _ soft => soft

def pushSoft (index : ℕ) : PlanStep → PlanStep
  | extend entity constraints soft => extend entity constraints (soft ++ [index])
  | placeCluster entities internal boundary soft =>
    placeCluster entities internal boundary (soft ++ [index])

end PlanStep

/-- A complete decomposition plan for one component. -/
structure DrPlan where
  steps : List PlanStep
  deriving DecidableEq

/-- Internal working state of the discovery loop. -/
structure Discovery where
  constraints : List PlanConstraint
  free : OrderedMap EntityRef ℕ
  clusterCapable : OrderedSet EntityRef
  placed : OrderedSet EntityRef
  consumed : List Bool
  steps : List PlanStep

abbrev Cluster := OrderedSet EntityRef

namespace Discovery

variable (d : Discovery)

def isConsumed (i : ℕ) : Bool := d.consumed.getD i false

def consume (indices : List ℕ) (consumed : List Bool) : List Bool :=
  indices.foldl (fun consumed i ↦ consumed.set i true) consumed

/-- Unconsumed hard constraints within `scope` that touch `target`, if their DOF sum is as expected.
-/
def matchingHard (target : EntityRef) (scope : OrderedSet EntityRef) (expectedDofs : ℕ) :
    Option (List ℕ) :=
  let matching := d.constraints.zipIdx.filter fun ci ↦
    !d.isConsumed ci.2 && ci.1.hard && ci.1.vars.contains target && ci.1.vars.all scope.contains
  let indices := matching.map Prod.snd
  let dofs := (matching.map fun ci ↦ ci.1.dofRemoved).sum
  if !indices.isEmpty && dofs = expectedDofs then some indices else none

def extended (entity : EntityRef) (indices : List ℕ) : Discovery :=
  { d with
    consumed := consume indices d.consumed
    placed := d.placed.insert entity
    steps := d.steps ++ [.extend entity indices []] }

/-- Place the smallest unplaced entity whose hard constraints remove exactly its free DOFs. -/
def tryExtend : Option Discovery :=
  let candidates := d.free.toList.filter fun (e, _) ↦ !d.placed.contains e
  candidates.findSome? fun (entity, dofs) ↦
    (d.matchingHard entity (d.placed.insert entity) dofs).map (d.extended entity)

/-! ## Rigid clusters -/

def pool : List EntityRef := d.clusterCapable.toList.filter fun e ↦ !d.placed.contains e

def internalCandidates : List PlanConstraint :=
  (d.constraints.zipIdx.filter fun ci ↦
    !d.isConsumed ci.2 && ci.1.hard && !ci.1.grounded && !ci.1.vars.isEmpty &&
      ci.1.vars.all d.pool.contains).map Prod.fst

def dofsBetween (scope : Cluster) (target : Option EntityRef) : ℕ :=
  ((d.internalCandidates.filter fun c ↦
    c.vars.all scope.contains && target.all c.vars.contains).map PlanConstraint.dofRemoved).sum

def freeOf (e : EntityRef) : ℕ := d.free[e]?.getD 0

def pairs : List EntityRef → List (EntityRef × EntityRef)
  | [] => []
  | a :: l => l.map (a, ·) ++ pairs l

/-- Pair seeds: two entities whose internal constraints remove all but three of their DOFs. -/
def pairSeeds : List Cluster :=
  (pairs d.pool).foldl (fun clusters (a, b) ↦
    if clusters.any fun c ↦ c.contains a && c.contains b then clusters
    else
      let pair : Cluster := .ofList [a, b]
      let freeSum := d.freeOf a + d.freeOf b
      if freeSum ≥ 3 && d.dofsBetween pair none = freeSum - 3 then clusters ++ [pair]
      else clusters) []

/-- The first entity of the pool whose constraints into the cluster remove exactly its free DOFs. -/
def extendOne (cluster : Cluster) : Option Cluster :=
  d.pool.findSome? fun e ↦
    if cluster.contains e then none
    else
      let need := d.freeOf e
      if need > 0 && d.dofsBetween (cluster.insert e) (some e) = need then some (cluster.insert e)
      else none

def extension (cluster : Cluster) (later : List Cluster) : Option (List Cluster) :=
  (d.extendOne cluster).map (· :: later)

end Discovery

def shared (a b : Cluster) : ℕ := (a.toList.filter b.contains).length

def Cluster.union (a b : Cluster) : Cluster := a.insertMany b.toList

def takeFirst {α : Type} (p : α → Bool) : List α → Option (α × List α)
  | [] => none
  | a :: l => if p a then some (a, l) else (takeFirst p l).map fun (b, l) ↦ (b, a :: l)

def mergeTwo (cluster : Cluster) (later : List Cluster) : Option (List Cluster) :=
  (takeFirst (fun other ↦ shared cluster other ≥ 2) later).map fun (other, rest) ↦
    cluster.union other :: rest

def findTriangle (ci : Cluster) : List Cluster → Option (Cluster × Cluster × List Cluster)
  | [] => none
  | cj :: later =>
    if shared ci cj = 0 then (findTriangle ci later).map fun (a, b, l) ↦ (a, b, cj :: l)
    else
      match takeFirst (fun ck ↦ shared cj ck ≥ 1 && shared ci ck ≥ 1) later with
      | some (ck, rest) => some (cj, ck, rest)
      | none => (findTriangle ci later).map fun (a, b, l) ↦ (a, b, cj :: l)

def mergeThree (cluster : Cluster) (later : List Cluster) : Option (List Cluster) :=
  (findTriangle cluster later).map fun (cj, ck, rest) ↦ (cluster.union cj).union ck :: rest

def onFirst (rule : Cluster → List Cluster → Option (List Cluster)) :
    List Cluster → Option (List Cluster)
  | [] => none
  | cluster :: later =>
    match rule cluster later with
    | some clusters => some clusters
    | none => (onFirst rule later).map (cluster :: ·)

namespace Discovery

variable (d : Discovery)

def sortClusters (clusters : List Cluster) : List Cluster :=
  clusters.insertionSort fun x y ↦ (compare x.toList.head? y.toList.head?).isLE

/-- One round of the fixpoint on sorted clusters: extension, else a merge of two, else one of
three. -/
def growOnce (clusters : List Cluster) : Option (List Cluster) :=
  onFirst d.extension clusters <|> onFirst mergeTwo clusters <|> onFirst mergeThree clusters

def grow : ℕ → List Cluster → List Cluster
  | 0, clusters => clusters
  | bound + 1, clusters =>
    let clusters := sortClusters clusters
    match d.growOnce clusters with
    | some clusters => grow bound clusters
    | none => clusters

def growth (clusters : List Cluster) : ℕ :=
  (clusters.map fun c ↦ (d.pool.filter fun e ↦ !c.contains e).length + 1).sum

def discoverRigidClusters : List Cluster :=
  if d.pool.length < 2 then [] else d.grow (d.growth d.pairSeeds + 1) d.pairSeeds

/-! ## Placing a cluster -/

def touching (cluster : Cluster) : List (PlanConstraint × ℕ) :=
  d.constraints.zipIdx.filter fun ci ↦
    !d.isConsumed ci.2 && ci.1.hard && ci.1.vars.any cluster.contains

def isInternal (cluster : Cluster) (c : PlanConstraint) : Bool :=
  c.vars.all cluster.contains && !c.grounded

/-- Whether a constraint places the cluster: it reaches no unplaced entity outside it. -/
def isBoundary (cluster : Cluster) (c : PlanConstraint) : Bool :=
  !isInternal cluster c && c.vars.all fun v ↦ cluster.contains v || d.placed.contains v

def clusterPlaced (cluster : Cluster) (internal boundary : List ℕ) : Discovery :=
  { d with
    consumed := consume (internal ++ boundary) d.consumed
    placed := d.placed.insertMany cluster.toList
    steps := d.steps ++ [.placeCluster cluster.toList internal boundary []] }

/-- Place a cluster whose boundary removes exactly the three DOFs of a rigid body. -/
def placeCluster (cluster : Cluster) : Option Discovery :=
  if cluster.size < 2 then none
  else
    let internal := ((d.touching cluster).filter fun ci ↦ isInternal cluster ci.1).map Prod.snd
    let boundary := (d.touching cluster).filter fun ci ↦ d.isBoundary cluster ci.1
    if (boundary.map fun ci ↦ ci.1.dofRemoved).sum ≠ 3 then none
    else some (d.clusterPlaced cluster internal (boundary.map Prod.snd))

def tryPlaceCluster : Option Discovery := d.discoverRigidClusters.findSome? d.placeCluster

/-- One round of the discovery loop. -/
def advance : Option Discovery := d.tryExtend <|> d.tryPlaceCluster

/-- Rounds until neither rule applies. -/
def run : ℕ → Discovery → Discovery
  | 0, d => d
  | bound + 1, d =>
    match d.advance with
    | some next => run bound next
    | none => d

end Discovery

def placedAt (steps : List PlanStep) : OrderedMap EntityRef ℕ :=
  OrderedMap.insertEntries ∅ (steps.zipIdx.flatMap fun (step, si) ↦
    step.placedEntities.map fun e ↦ (e, si))

def softStep (steps : List PlanStep) (c : PlanConstraint) : Option ℕ :=
  (c.vars.map fun v ↦ (placedAt steps)[v]?).foldlM (fun acc s ↦ s.map (max acc)) 0

def attachSoftPassengers (steps : List PlanStep) (constraints : List PlanConstraint) :
    List PlanStep :=
  constraints.foldl (fun acc c ↦
    if c.hard || c.vars.isEmpty then acc
    else
      match softStep steps c with
      | some si => acc.modify si (PlanStep.pushSoft c.index)
      | none => acc) steps

/-- The state the discovery loop starts in. -/
def Discovery.init (entities : List PlanEntity) (constraints : List PlanConstraint) :
    Discovery where
  constraints := constraints
  free := OrderedMap.insertEntries ∅
    ((entities.filter fun e ↦ e.freeDofs > 0).map fun e ↦ (e.entity, e.freeDofs))
  clusterCapable :=
    .ofList ((entities.filter fun e ↦ e.freeDofs > 0 && e.clusterCapable).map PlanEntity.entity)
  placed := ∅
  consumed := List.replicate constraints.length false
  steps := []

def planComponent (entities : List PlanEntity) (constraints : List PlanConstraint) :
    Option DrPlan :=
  if constraints.any fun c ↦ !c.enforced || c.hard && c.vars.isEmpty then none
  else
    let start := Discovery.init entities constraints
    let discovery := start.run start.free.size
    if discovery.placed.size ≠ discovery.free.size then none
    else if constraints.zipIdx.any fun (c, i) ↦ c.hard && !discovery.isConsumed i then none
    else some ⟨attachSoftPassengers discovery.steps constraints⟩

end RosheraCad.Sketch
