import Mathlib.Data.List.Dedup
import Mathlib.Data.List.Sort
import RosheraCad.Library.UnionFind
import Mathlib.Algebra.Group.Nat.Defs

/-!
# Assemblies, condensation and components

The solver enforces the mates whose kind it knows, whose features fit the kind, and whose references
lead somewhere. Instances locked by mates that are satisfied form one rigid body. Bodies other than
the ground's are connected where an enforced mate touches both. Both steps are unions over a forest.
Numbers are of an arbitrary type.
-/

namespace RosheraCad

namespace Mates

abbrev InstanceId := UInt32

section Data

variable (F : Type)

abbrev Vec3 := F × F × F

structure Pose where
  translation : Vec3 F
  rotation : F × F × F × F
  deriving DecidableEq

structure Instance where
  id : InstanceId
  pose : Pose F

/-- A named geometric feature a mate references. -/
inductive FeatureRef
  | face (point normal : Vec3 F)
  | axis (origin direction : Vec3 F)
  | frame (origin zAxis xAxis : Vec3 F)

inductive MateKind
  | coincident
  | concentric
  | fixed
  | fastened
  | revolute (limits : Option (F × F))
  | slider (limits : Option (F × F))
  | cylindrical (rotLimits transLimits : Option (F × F))
  | planar
  | ball
  | pinSlot (slotDirX : Bool) (limits : Option (F × F))
  | distance (value : F)
  | angle (value : F)
  | parallel
  | tangent (radius : F)
  | gearRatio (ratio : F) (at' : F × F) (couples : UInt32 × UInt32)
  | rackPinion (pinionRadius : F) (at' : F × F) (couples : UInt32 × UInt32)
  | screw (lead : F) (at' : F × F) (couples : UInt32)
  | cam
  | path
  | symmetric

structure Mate where
  kind : MateKind F
  a : InstanceId
  featureA : FeatureRef F
  b : InstanceId
  featureB : FeatureRef F

/-- Instances connected by mates, with one grounded instance. -/
structure Assembly where
  instances : List (Instance F)
  mates : List (Mate F)
  ground : InstanceId

end Data

variable {F : Type}

namespace MateKind

def isNumericallyEnforced : MateKind F → Bool
  | cam | path | symmetric => false
  | _ => true

def isCoupling : MateKind F → Bool
  | gearRatio .. | rackPinion .. | screw .. => true
  | _ => false

def isFastened : MateKind F → Bool
  | fastened | fixed => true
  | _ => false

def structuralRank : MateKind F → ℕ
  | fastened | fixed => 6
  | revolute .. | slider .. => 5
  | cylindrical .. | pinSlot .. | concentric => 4
  | planar | ball | coincident => 3
  | parallel => 2
  | distance .. | angle .. | tangent .. | gearRatio .. | rackPinion .. | screw .. => 1
  | cam | path | symmetric => 0

def coupleRefs : MateKind F → List UInt32
  | gearRatio _ _ couples | rackPinion _ _ couples => [couples.1, couples.2]
  | screw _ _ couples => [couples]
  | _ => []

theorem coupleRefs_eq_nil {kind : MateKind F} : kind.coupleRefs = [] ↔ kind.isCoupling = false := by
  cases kind <;> simp [coupleRefs, isCoupling]

end MateKind

namespace FeatureRef

def isFace : FeatureRef F → Bool
  | face .. => true
  | _ => false

def isAxis : FeatureRef F → Bool
  | axis .. => true
  | _ => false

def isFrame : FeatureRef F → Bool
  | frame .. => true
  | _ => false

end FeatureRef

def featuresMatchKind (kind : MateKind F) (fa fb : FeatureRef F) : Bool :=
  match kind with
  | .concentric => fa.isAxis && fb.isAxis
  | .coincident | .fixed => fa.isFace && fb.isFace
  -- couplings read the frames of the mates they couple
  | .gearRatio .. | .rackPinion .. | .screw .. => true
  | _ => fa.isFrame && fb.isFrame

/-- Why the solver does not enforce a mate. -/
inductive Refusal
  | kindNotEnforced
  | unknownInstance
  | featureKindsMismatch
  | missingCoupled (target : UInt32)
  | coupledIsCoupling (target : UInt32)
  | coupledWithoutFrames (target : UInt32)
  deriving DecidableEq

namespace Assembly

variable (a : Assembly F)

def indexOf (id : InstanceId) : Option ℕ := a.instances.findIdx? fun i ↦ i.id == id

def coupledRefusal (target : UInt32) : Option Refusal :=
  match a.mates[target.toNat]? with
  | none => some (.missingCoupled target)
  | some targetMate =>
    if targetMate.kind.isCoupling then some (.coupledIsCoupling target)
    else if targetMate.featureA.isFrame && targetMate.featureB.isFrame then none
    else some (.coupledWithoutFrames target)

def refusalReason (mate : Mate F) : Option Refusal :=
  if !mate.kind.isNumericallyEnforced then some .kindNotEnforced
  else if (a.indexOf mate.a).isNone || (a.indexOf mate.b).isNone then some .unknownInstance
  else if !featuresMatchKind mate.kind mate.featureA mate.featureB then some .featureKindsMismatch
  else mate.kind.coupleRefs.findSome? a.coupledRefusal

def enforced (mi : ℕ) : Bool := a.mates[mi]?.any fun mate ↦ (a.refusalReason mate).isNone

def endsOf (mate : Mate F) : List ℕ := (a.indexOf mate.a).toList ++ (a.indexOf mate.b).toList

/-- Instance indices a mate's residual can touch, in ascending order. -/
def mateSupport (mi : ℕ) : List ℕ :=
  match a.mates[mi]? with
  | none => []
  | some mate =>
    let support :=
      if mate.kind.coupleRefs.isEmpty then a.endsOf mate
      else mate.kind.coupleRefs.flatMap fun target ↦
        a.mates[target.toNat]?.elim [] a.endsOf
    (support.insertionSort (· ≤ ·)).dedup

variable {a}

theorem lt_of_indexOf {id : InstanceId} {i : ℕ} (h : a.indexOf id = some i) :
    i < a.instances.length := by
  rw [indexOf, List.findIdx?_eq_some_iff_findIdx_eq] at h
  exact h.1

theorem mem_endsOf {mate : Mate F} {i : ℕ} :
    i ∈ a.endsOf mate ↔ a.indexOf mate.a = some i ∨ a.indexOf mate.b = some i := by
  simp [endsOf, Option.mem_toList, eq_comm]

theorem mem_mateSupport {mi i : ℕ} {mate : Mate F} (hmate : a.mates[mi]? = some mate)
    (hcoupling : mate.kind.isCoupling = false) : i ∈ a.mateSupport mi ↔ i ∈ a.endsOf mate := by
  rw [mateSupport, hmate]
  simp [MateKind.coupleRefs_eq_nil.mpr hcoupling]

theorem lt_of_mem_mateSupport {mi i : ℕ} (h : i ∈ a.mateSupport mi) : i < a.instances.length := by
  have hends : ∀ mate : Mate F, i ∈ a.endsOf mate → i < a.instances.length := by
    intro mate hi
    rcases mem_endsOf.mp hi with hi | hi
    · exact lt_of_indexOf hi
    · exact lt_of_indexOf hi
  rw [mateSupport] at h
  rcases hmate : a.mates[mi]? with _ | mate
  · rw [hmate] at h
    exact absurd h List.not_mem_nil
  · rw [hmate] at h
    simp only [List.mem_dedup, List.mem_insertionSort] at h
    split_ifs at h
    · exact hends mate h
    · obtain ⟨target, -, hi⟩ := List.mem_flatMap.mp h
      rcases hcoupled : a.mates[target.toNat]? with _ | coupled
      · rw [hcoupled] at hi
        exact absurd hi List.not_mem_nil
      · rw [hcoupled] at hi
        exact hends coupled hi

theorem exists_ends_of_enforced {mi : ℕ} (h : a.enforced mi) :
    ∃ mate ia ib, a.mates[mi]? = some mate ∧ a.indexOf mate.a = some ia ∧
      a.indexOf mate.b = some ib := by
  rw [enforced, Option.any_eq_true] at h
  obtain ⟨mate, hmate, hnone⟩ := h
  rw [Option.isNone_iff_eq_none, refusalReason] at hnone
  split_ifs at hnone with hkind hinstance hfeatures
  rw [Bool.or_eq_true, not_or, Bool.not_eq_true, Bool.not_eq_true, Option.isNone_eq_false_iff,
    Option.isNone_eq_false_iff] at hinstance
  obtain ⟨ia, hia⟩ := Option.isSome_iff_exists.mp hinstance.1
  obtain ⟨ib, hib⟩ := Option.isSome_iff_exists.mp hinstance.2
  exact ⟨mate, ia, ib, hmate, hia, hib⟩

theorem lt_of_enforced {mi : ℕ} (h : a.enforced mi) : mi < a.mates.length := by
  obtain ⟨mate, -, -, hmate, -⟩ := exists_ends_of_enforced h
  exact (List.getElem?_eq_some_iff.mp hmate).1

end Assembly

/-! ## Condensation -/

/-- What the solver computes with numbers: smallness, violations, and the poses a solve arrives at.
-/
structure Numerics (F : Type) where
  solveTol : F
  mateViolation : Assembly F → Mate F → F
  residualNorm : Assembly F → List ℕ → F
  gaussNewton : Assembly F → List (List ℕ) → List ℕ → (ℕ → Pose F) × ℕ

/-- The mate graph after condensation and component splitting. -/
structure Decomposition where
  enforced : ℕ → Bool
  /-- Per mate: the instance indices its residual can touch. -/
  supports : ℕ → List ℕ
  bodies : List (List ℕ)
  bodyOf : ℕ → ℕ
  components : List (List ℕ)
  condensationMerges : ℕ

namespace Decomposition

def members (d : Decomposition) (b : ℕ) : List ℕ := d.bodies[b]?.getD []

end Decomposition

/-- The smallest instance of a body, or the greatest number for none. -/
def firstMember (bodies : List (List ℕ)) (b : ℕ) : ℕ := (bodies[b]?.getD []).headD (2 ^ 64 - 1)

def orderBySmallest (bodies groups : List (List ℕ)) : List (List ℕ) :=
  let first := firstMember bodies
  let sorted := groups.map fun group ↦ group.insertionSort fun b c ↦ first b ≤ first c
  sorted.insertionSort fun group group' ↦
    (group.head?.map first).getD (2 ^ 64 - 1) ≤ (group'.head?.map first).getD (2 ^ 64 - 1)

theorem exists_perm_of_mem_orderBySmallest {bodies groups : List (List ℕ)} {group : List ℕ}
    (h : group ∈ orderBySmallest bodies groups) : ∃ group' ∈ groups, group'.Perm group := by
  rw [orderBySmallest, List.mem_insertionSort, List.mem_map] at h
  obtain ⟨group', hgroup', rfl⟩ := h
  exact ⟨group', hgroup', (List.perm_insertionSort _ group').symm⟩

theorem countP_orderBySmallest (bodies groups : List (List ℕ)) (b : ℕ) :
    (orderBySmallest bodies groups).countP (fun group ↦ b ∈ group) =
      groups.countP fun group ↦ b ∈ group := by
  rw [orderBySmallest, (List.perm_insertionSort _ _).countP_eq, List.countP_map]
  refine List.countP_congr fun group _ ↦ ?_
  rw [Function.comp_apply, decide_eq_true_eq, decide_eq_true_eq, List.mem_insertionSort]

namespace Assembly

variable {F : Type} [LT F] [DecidableLT F] (num : Numerics F) (a : Assembly F)

/-! ## Condensation -/

def seatedPair (mi : ℕ) (mate : Mate F) : Option (ℕ × ℕ) :=
  if !a.enforced mi || !mate.kind.isFastened then none
  else if num.solveTol < num.mateViolation a mate then none
  else
    match a.indexOf mate.a, a.indexOf mate.b with
    | some ia, some ib => some (ia, ib)
    | _, _ => none

def seatedPairs : List (ℕ × ℕ) :=
  a.mates.zipIdx.filterMap fun (mate, mi) ↦ a.seatedPair num mi mate

/-- The forest of instances after all seated unions, with the unions that merged something. -/
def condensed : ℕ × UnionFind := UnionFind.new.joinAll (a.seatedPairs num)

def bodyRoots : List ℕ :=
  (List.range a.instances.length).filter fun idx ↦ (a.condensed num).2.root idx = idx

def bodyOf (idx : ℕ) : ℕ := (a.bodyRoots num).idxOf ((a.condensed num).2.root idx)

def bodies : List (List ℕ) :=
  (a.bodyRoots num).map fun root ↦
    (root :: (List.range a.instances.length).filter fun idx ↦
      (a.condensed num).2.root idx = root ∧ root ≠ idx).insertionSort (· ≤ ·)

def groundBody : Option ℕ := (a.indexOf a.ground).map (a.bodyOf num)

/-! ## Components -/

def touchedBy (mi : ℕ) : List ℕ :=
  ((((a.mateSupport mi).map (a.bodyOf num)).filter fun b ↦ some b ≠ a.groundBody num).insertionSort
    (· ≤ ·)).dedup

def componentForest : UnionFind :=
  (UnionFind.new.joinAll ((((List.range a.mates.length).filter a.enforced).map
    (a.touchedBy num)).flatMap UnionFind.star)).2

def isTouched (b : ℕ) : Bool :=
  (List.range a.mates.length).any fun mi ↦
    a.enforced mi && (a.mateSupport mi).any fun i ↦ a.bodyOf num i == b

def touchedBodies : List ℕ :=
  (List.range (a.bodies num).length).filter fun b ↦
    some b ≠ a.groundBody num ∧ a.isTouched num b

def components : List (List ℕ) :=
  orderBySmallest (a.bodies num)
    ((a.touchedBodies num).groupsBy (a.componentForest num).root)

def decomposition : Decomposition where
  enforced := a.enforced
  supports := a.mateSupport
  bodies := a.bodies num
  bodyOf := a.bodyOf num
  components := a.components num
  condensationMerges := (a.condensed num).1

variable {num a}

/-! ## Bodies -/

theorem nodup_bodyRoots : (a.bodyRoots num).Nodup := List.nodup_range.filter _

theorem mem_bodyRoots {r : ℕ} : r ∈ a.bodyRoots num ↔
    r < a.instances.length ∧ (a.condensed num).2.root r = r := by
  rw [bodyRoots, List.mem_filter, List.mem_range, decide_eq_true_eq]

theorem root_mem_bodyRoots {i : ℕ} (hi : i < a.instances.length) :
    (a.condensed num).2.root i ∈ a.bodyRoots num :=
  mem_bodyRoots.mpr ⟨((a.condensed num).2.root_le i).trans_lt hi, UnionFind.root_root _ i⟩

theorem bodyOf_lt {i : ℕ} (hi : i < a.instances.length) :
    a.bodyOf num i < (a.bodies num).length := by
  rw [bodies, List.length_map]
  exact List.idxOf_lt_length_iff.mpr (root_mem_bodyRoots hi)

theorem bodyOf_eq_iff {i j : ℕ} (hi : i < a.instances.length) :
    a.bodyOf num i = a.bodyOf num j ↔
      (a.condensed num).2.root i = (a.condensed num).2.root j :=
  List.idxOf_inj (root_mem_bodyRoots hi)

theorem mem_members_iff {i b : ℕ} : i ∈ (a.decomposition num).members b ↔
    i < a.instances.length ∧ a.bodyOf num i = b := by
  rw [Decomposition.members, decomposition, bodies, List.getElem?_map]
  rcases hr : (a.bodyRoots num)[b]? with _ | r
  · have hb := List.getElem?_eq_none_iff.mp hr
    refine iff_of_false List.not_mem_nil ?_
    rintro ⟨hi, rfl⟩
    exact absurd (List.idxOf_lt_length_iff.mpr (root_mem_bodyRoots hi)) (not_lt.mpr hb)
  · obtain ⟨hb, hget⟩ := List.getElem?_eq_some_iff.mp hr
    obtain ⟨hrlt, hroot⟩ := mem_bodyRoots.mp (List.mem_of_getElem? hr)
    have hidx : (a.bodyRoots num).idxOf r = b := hget ▸ nodup_bodyRoots.idxOf_getElem b hb
    rw [Option.map_some, Option.getD_some, List.mem_insertionSort, List.mem_cons,
      List.mem_filter, List.mem_range, decide_eq_true_eq, ← hidx]
    constructor
    · rintro (rfl | ⟨hi, hir, -⟩)
      · exact ⟨hrlt, by rw [bodyOf, hroot]⟩
      · exact ⟨hi, by rw [bodyOf, hir]⟩
    · rintro ⟨hi, hbody⟩
      have hir : (a.condensed num).2.root i = r :=
        (List.idxOf_inj (root_mem_bodyRoots hi)).mp hbody
      by_cases h : i = r
      · exact .inl h
      · exact .inr ⟨hi, hir, Ne.symm h⟩

variable (num a) in
def Locked (i j : ℕ) : Prop :=
  ∃ mi mate, a.mates[mi]? = some mate ∧ a.enforced mi ∧ mate.kind.isFastened ∧
    ¬ num.solveTol < num.mateViolation a mate ∧ a.indexOf mate.a = some i ∧
    a.indexOf mate.b = some j

variable (num a) in
/-- A chain of seated mates, each taken either way, leads from one instance to another. -/
def Welded : ℕ → ℕ → Prop := Relation.EqvGen (a.Locked num)

theorem mem_seatedPairs {i j : ℕ} : (i, j) ∈ a.seatedPairs num ↔ a.Locked num i j := by
  rw [seatedPairs, List.mem_filterMap]
  constructor
  · rintro ⟨⟨mate, mi⟩, hmate, hpair⟩
    simp only [seatedPair] at hpair
    split_ifs at hpair with hkind hseated
    rw [Bool.or_eq_true, not_or, Bool.not_eq_true', Bool.not_eq_true', Bool.not_eq_false,
      Bool.not_eq_false] at hkind
    rcases hia : a.indexOf mate.a with _ | ia <;> rcases hib : a.indexOf mate.b with _ | ib <;>
      rw [hia, hib] at hpair <;> cases hpair
    exact ⟨mi, mate, List.mem_zipIdx_iff_getElem?.mp hmate, hkind.1, hkind.2, hseated, hia, hib⟩
  · rintro ⟨mi, mate, hmate, henforced, hkind, hseated, hia, hib⟩
    refine ⟨(mate, mi), List.mem_zipIdx_iff_getElem?.mpr hmate, ?_⟩
    simp only [seatedPair, henforced, hkind, if_neg hseated, hia, hib]
    rfl

theorem bodyOf_eq_iff_welded {i j : ℕ} (hi : i < a.instances.length) :
    a.bodyOf num i = a.bodyOf num j ↔ a.Welded num i j := by
  rw [bodyOf_eq_iff hi, condensed, UnionFind.root_joinAll_new, Welded]
  simp only [mem_seatedPairs]

/-! ## What the components are -/

variable {b c mi : ℕ} {comp : List ℕ}

theorem mem_touchedBodies : b ∈ a.touchedBodies num ↔ some b ≠ a.groundBody num ∧
    ∃ mi, a.enforced mi ∧ ∃ i ∈ a.mateSupport mi, a.bodyOf num i = b := by
  rw [touchedBodies, List.mem_filter, List.mem_range, decide_eq_true_eq, isTouched,
    List.any_eq_true]
  simp only [Bool.and_eq_true, List.any_eq_true, beq_iff_eq, List.mem_range]
  constructor
  · rintro ⟨-, hground, mi, -, henforced, htouch⟩
    exact ⟨hground, mi, henforced, htouch⟩
  · rintro ⟨hground, mi, henforced, i, hi, rfl⟩
    exact ⟨bodyOf_lt (lt_of_mem_mateSupport hi), hground, mi, lt_of_enforced henforced, henforced,
      i, hi, rfl⟩

theorem mem_touchedBy : b ∈ a.touchedBy num mi ↔
    some b ≠ a.groundBody num ∧ ∃ i ∈ a.mateSupport mi, a.bodyOf num i = b := by
  rw [touchedBy, List.mem_dedup, List.mem_insertionSort, List.mem_filter, List.mem_map,
    decide_eq_true_eq, and_comm]

theorem countP_components (hb : b ∈ a.touchedBodies num) :
    (a.components num).countP (fun comp ↦ b ∈ comp) = 1 := by
  rw [components, countP_orderBySmallest, List.countP_groupsBy _ hb]

theorem mem_component_iff (hcomp : comp ∈ a.components num) (hb : b ∈ comp) :
    c ∈ comp ↔ c ∈ a.touchedBodies num ∧
      (a.componentForest num).root c = (a.componentForest num).root b := by
  obtain ⟨group, hgroup, hperm⟩ := exists_perm_of_mem_orderBySmallest hcomp
  rw [← hperm.mem_iff] at hb ⊢
  exact List.mem_group_iff hgroup hb c

theorem mem_component_of_support {i j : ℕ} (hcomp : comp ∈ a.components num)
    (henforced : a.enforced mi) (hi : i ∈ a.mateSupport mi) (hj : j ∈ a.mateSupport mi)
    (hic : a.bodyOf num i ∈ comp) (hground : some (a.bodyOf num j) ≠ a.groundBody num) :
    a.bodyOf num j ∈ comp := by
  have htouched := ((mem_component_iff hcomp hic).mp hic).1
  rw [mem_component_iff hcomp hic]
  refine ⟨mem_touchedBodies.mpr ⟨hground, mi, henforced, j, hj, rfl⟩, ?_⟩
  have hlist : a.touchedBy num mi ∈
      ((List.range a.mates.length).filter a.enforced).map (a.touchedBy num) :=
    List.mem_map_of_mem (List.mem_filter.mpr ⟨List.mem_range.mpr (lt_of_enforced henforced),
      henforced⟩)
  exact UnionFind.root_joinAll_star hlist (mem_touchedBy.mpr ⟨hground, j, hj, rfl⟩)
    (mem_touchedBy.mpr ⟨(mem_touchedBodies.mp htouched).1, i, hi, rfl⟩)

end Assembly

end Mates

end RosheraCad
