import RosheraCad.Mates.Decomposition
import Mathlib.Data.Finset.Union
import Mathlib.Algebra.GroupWithZero.Nat

/-!
# The decomposed solve

Each component is planned and executed on its own. An extension places a body whose available mates
have structural ranks that sum to six; the rest is grouped into clusters. A component whose residual
is not small in the end is restored and solved once more as one dense system. Each component keeps
the list of its solves.
-/

namespace RosheraCad

namespace Mates

structure DecompositionStats where
  components : ℕ
  condensedBodies : ℕ
  condensationMerges : ℕ
  extendSteps : ℕ
  loopClusters : ℕ
  denseComponents : ℕ
  fallbacks : ℕ
  deriving DecidableEq

def DecompositionStats.default : DecompositionStats := ⟨0, 0, 0, 0, 0, 0, 0⟩

inductive StepKind
  | extend (body : ℕ)
  | cluster
  | whole
  | fallback
  deriving DecidableEq

def StepKind.isPlanned : StepKind → Bool
  | extend _ | cluster => true
  | whole | fallback => false

structure Step where
  kind : StepKind
  blocks : List (List ℕ)
  mates : List ℕ
  deriving DecidableEq

section Model

variable {F : Type} [LE F] [DecidableLE F] [LT F] [DecidableLT F]

def Assembly.setPoses (a : Assembly F) (poses : ℕ → Pose F) : Assembly F :=
  { a with instances := a.instances.mapIdx fun i inst ↦ { inst with pose := poses i } }

/-- Some instances are put back where they were. -/
def Assembly.restore (a : Assembly F) (snapshot : List (ℕ × Pose F)) : Assembly F :=
  snapshot.foldl (fun a (i, pose) ↦
    { a with instances := a.instances.modify i fun inst ↦ { inst with pose } }) a

def Assembly.rankSum (a : Assembly F) (mates : List ℕ) : ℕ :=
  ((mates.filterMap fun mi ↦ a.mates[mi]?).map fun mate ↦ mate.kind.structuralRank).sum

variable (F) in
structure Progress where
  assembly : Assembly F
  placed : Finset ℕ
  unplaced : List ℕ
  consumed : Finset ℕ
  iterations : ℕ
  stats : DecompositionStats
  steps : List Step

namespace Progress

variable (num : Numerics F) (d : Decomposition) (compMates : List ℕ) (r : Progress F)

def solve (kind : StepKind) (blocks : List (List ℕ)) (mates : List ℕ) : Progress F :=
  let (poses, iterations) := num.gaussNewton r.assembly blocks mates
  { r with
    assembly := r.assembly.setPoses poses
    iterations := r.iterations + iterations
    steps := r.steps ++ [⟨kind, blocks, mates⟩] }

/-- The unconsumed mates that touch some bodies and otherwise what is placed. -/
def candidates (bs : List ℕ) : List ℕ :=
  compMates.filter fun mi ↦
    mi ∉ r.consumed ∧ (∃ i ∈ d.supports mi, i ∈ bs.flatMap d.members) ∧
      ∀ i ∈ d.supports mi, i ∈ r.placed ∨ i ∈ bs.flatMap d.members

/-- Solve some bodies against their candidates, consume these, and count the bodies as placed. -/
def place (kind : StepKind) (bs : List ℕ) : Progress F :=
  let mates := r.candidates d compMates bs
  { r.solve num kind (bs.map d.members) mates with
    consumed := r.consumed ∪ mates.toFinset
    placed := r.placed ∪ (bs.flatMap d.members).toFinset }

/-- The candidates of a body have structural ranks summing to its six degrees of freedom. -/
def extensible (body : ℕ) : Bool :=
  !(r.candidates d compMates [body]).isEmpty &&
    r.assembly.rankSum (r.candidates d compMates [body]) == 6

def extendOnce : Option (Progress F) := do
  let pos ← r.unplaced.findIdx? (r.extensible d compMates)
  let body ← r.unplaced[pos]?
  let extended := r.place num d compMates (.extend body) [body]
  return { extended with
    unplaced := r.unplaced.eraseIdx pos
    stats := { extended.stats with extendSteps := extended.stats.extendSteps + 1 } }

/-- Place bodies until none can be placed. Each round places one, which bounds the rounds. -/
def extendLoop : ℕ → Progress F → Progress F
  | 0, r => r
  | fuel + 1, r =>
    match r.extendOnce num d compMates with
    | some r => extendLoop fuel r
    | none => r

def touchedUnplaced (mi : ℕ) : List ℕ :=
  ((((d.supports mi).map d.bodyOf).filter fun b ↦ b ∈ r.unplaced).insertionSort (· ≤ ·)).dedup

def clusters : List (List ℕ) :=
  let touched := (compMates.filter fun mi ↦ mi ∉ r.consumed).map (r.touchedUnplaced d)
  let forest := (UnionFind.new.joinAll (touched.flatMap UnionFind.star)).2
  orderBySmallest d.bodies (r.unplaced.groupsBy forest.root)

def solveCluster (cluster : List ℕ) : Progress F :=
  let solved := r.place num d compMates .cluster cluster
  { solved with stats := { solved.stats with loopClusters := solved.stats.loopClusters + 1 } }

/-- The plan of a component: extensions, then clusters. -/
def plan : Progress F :=
  let r := extendLoop num d compMates r.unplaced.length r
  (r.clusters d compMates).foldl (solveCluster num d compMates) r

end Progress

structure ComponentSolve where
  comp : List ℕ
  steps : List Step
  deriving DecidableEq

def ComponentSolve.fellBack (σ : ComponentSolve) : Bool :=
  σ.steps.any fun step ↦ step.kind == .fallback

namespace Decomposition

variable (d : Decomposition) (a : Assembly F) (comp : List ℕ)

def instancesOf : List ℕ := comp.flatMap d.members

def compMates : List ℕ :=
  (List.range a.mates.length).filter fun mi ↦
    d.enforced mi && (d.supports mi).any fun i ↦ i ∈ d.instancesOf comp

def hasCoupling : Bool :=
  (d.compMates a comp).any fun mi ↦ a.mates[mi]?.any fun mate ↦ mate.kind.isCoupling

end Decomposition

variable (F) in
structure SolveState where
  assembly : Assembly F
  totalIterations : ℕ
  stats : DecompositionStats
  solves : List ComponentSolve

namespace SolveState

variable (num : Numerics F) (d : Decomposition) (s : SolveState F) (comp : List ℕ)

/-- The state in which a component is planned: everything outside it counts as placed. -/
def start : Progress F where
  assembly := s.assembly
  placed := ((List.range s.assembly.instances.length).filter fun i ↦
    i ∉ d.instancesOf comp).toFinset
  unplaced := comp
  consumed := ∅
  iterations := 0
  stats := s.stats
  steps := []

def solveWhole : Progress F :=
  let solved := (s.start d comp).solve num .whole (comp.map d.members) (d.compMates s.assembly comp)
  { solved with stats := { solved.stats with denseComponents := solved.stats.denseComponents + 1 } }

def snapshot : List (ℕ × Pose F) :=
  (d.instancesOf comp).filterMap fun i ↦ s.assembly.instances[i]?.map fun inst ↦ (i, inst.pose)

/-- The component from its original poses as one dense system over its instances. -/
def fallBack (r : Progress F) : Progress F :=
  let restored := { r with assembly := r.assembly.restore (s.snapshot d comp) }
  let solved := restored.solve num .fallback ((d.instancesOf comp).map fun i ↦ [i])
    (d.compMates s.assembly comp)
  if comp.isEmpty then solved
  else { solved with stats := { solved.stats with
    fallbacks := solved.stats.fallbacks + 1
    denseComponents := solved.stats.denseComponents + 1 } }

/-- The component solved whole or by its plan, and whether the plan accounted for every mate. -/
def attempt : Progress F × Bool :=
  let mates := d.compMates s.assembly comp
  if d.hasCoupling s.assembly comp then (s.solveWhole num d comp, true)
  else
    let planned := (s.start d comp).plan num d mates
    -- anything left means the plan could not see it
    (planned, mates.all fun mi ↦ mi ∈ planned.consumed)

/-- Plan, execute and verify one component: its full residual is small, or it falls back. -/
def solveComponent : SolveState F :=
  let mates := d.compMates s.assembly comp
  let (r, plannedOk) := s.attempt num d comp
  let r :=
    if !plannedOk || num.solveTol < num.residualNorm r.assembly mates then s.fallBack num d comp r
    else r
  { assembly := r.assembly
    totalIterations := s.totalIterations + r.iterations
    stats := r.stats
    solves := s.solves ++ [⟨comp, r.steps⟩] }

end SolveState

variable (F) in
structure SolveReport where
  converged : Bool
  iterations : ℕ
  finalResidualNorm : F

namespace Assembly

variable (num : Numerics F) (a : Assembly F)

def report (iterations : ℕ) : SolveReport F :=
  let norm := num.residualNorm a (List.range a.mates.length)
  ⟨norm ≤ num.solveTol, iterations, norm⟩

def solveComponents : SolveState F :=
  let d := a.decomposition num
  let stats := { DecompositionStats.default with
    condensationMerges := d.condensationMerges
    condensedBodies := d.bodies.length
    components := d.components.length }
  d.components.foldl (fun s comp ↦ s.solveComponent num d comp) ⟨a, 0, stats, []⟩

def solveDecomposed : Assembly F × SolveReport F × DecompositionStats :=
  if a.instances.length = 0 then (a, a.report num 0, .default)
  else
    let s := a.solveComponents num
    (s.assembly, s.assembly.report num s.totalIterations, s.stats)

end Assembly

end Model

end Mates

end RosheraCad
