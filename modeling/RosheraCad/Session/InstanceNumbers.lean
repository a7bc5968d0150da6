import RosheraCad.Library.Run
import RosheraCad.Session.Hierarchy

/-!
# The numbers of part instances

What a tree has in it is read off as a list. A command adds one member at most, or changes one:
definitions stay there, and ids unique. Numbers are drawn from a count, which can go down.
-/

namespace RosheraCad

namespace Hierarchy

/-! ## Members -/

inductive Member
  | assembly (id : String)
  | part (instance_ : PartInstance)

namespace Member

def id : Member → String
  | assembly id => id
  | part instance_ => instance_.instanceId

def number : Member → Option (String × UInt32)
  | assembly _ => none
  | part instance_ => some (instance_.definitionId, instance_.instanceNumber)

end Member

mutual

def Assembly.members : Assembly → List Member
  | ⟨id, _, children⟩ => .assembly id :: membersOf children

def membersOf : List HierarchyNode → List Member
  | [] => []
  | .partInstance instance_ :: rest => .part instance_ :: membersOf rest
  | .subAssembly subAssembly :: rest => subAssembly.members ++ membersOf rest

end

def ProjectHierarchy.members (hierarchy : ProjectHierarchy) : List Member :=
  hierarchy.rootAssembly.members

structure ProjectHierarchy.WellKept (hierarchy : ProjectHierarchy) : Prop where
  defined : ∀ instance_, .part instance_ ∈ hierarchy.members →
    (hierarchy.partLibrary instance_.definitionId).isSome
  ids : (hierarchy.members.map Member.id).Nodup
  numbers : (hierarchy.members.filterMap Member.number).Nodup

theorem membersOf_append (nodes nodes' : List HierarchyNode) :
    membersOf (nodes ++ nodes') = membersOf nodes ++ membersOf nodes' := by
  induction nodes with
  | nil => rfl
  | cons node rest ih =>
    cases node with
    | partInstance instance_ => rw [List.cons_append, membersOf, membersOf, ih, List.cons_append]
    | subAssembly subAssembly =>
      rw [List.cons_append, membersOf, membersOf, ih, List.append_assoc]

theorem Assembly.members_eq (assembly : Assembly) :
    assembly.members = .assembly assembly.id :: membersOf assembly.children := by
  cases assembly
  rw [Assembly.members]

theorem Assembly.members_push (assembly : Assembly) (node : HierarchyNode) :
    (assembly.push node).members = assembly.members ++ membersOf [node] := by
  rw [members_eq, members_eq, push, membersOf_append, List.cons_append]

/-! ## Adding a node -/

inductive Adds {α : Type} (members : α → List Member) (targetId : String) (node : HierarchyNode)
    (searched : List Member) (before : α) : Except String Unit × α → Prop
  | failed (h : .assembly targetId ∉ searched) :
    Adds members targetId node searched before (.error "Assembly not found", before)
  | added {after : α} (h : .assembly targetId ∈ searched)
    (hmembers : (members after).Perm (membersOf [node] ++ members before)) :
    Adds members targetId node searched before (.ok (), after)

mutual

theorem addToAssemblyRecursive_adds (targetId : String) (node : HierarchyNode) :
    ∀ assembly : Assembly, Adds Assembly.members targetId node (membersOf assembly.children)
      assembly (addToAssemblyRecursive targetId node assembly)
  | ⟨id, name, children⟩ => by
    have hchildren := addToChildren_adds targetId node children
    rw [addToAssemblyRecursive]
    generalize addToChildren targetId node children = outcome at hchildren
    cases hchildren with
    | failed h => exact .failed h
    | added h hmembers =>
      refine .added h ?_
      rw [Assembly.members, Assembly.members]
      exact (hmembers.cons _).trans List.perm_middle.symm

theorem addToChildren_adds (targetId : String) (node : HierarchyNode) :
    ∀ children : List HierarchyNode, Adds membersOf targetId node (membersOf children) children
      (addToChildren targetId node children)
  | [] => by
    rw [addToChildren, membersOf]
    exact .failed List.not_mem_nil
  | .partInstance instance_ :: rest => by
    have hrest := addToChildren_adds targetId node rest
    rw [addToChildren, membersOf]
    generalize addToChildren targetId node rest = outcome at hrest
    cases hrest with
    | failed h => exact .failed (List.not_mem_cons_of_ne_of_not_mem Member.noConfusion h)
    | added h hmembers =>
      refine .added (List.mem_cons_of_mem _ h) ?_
      rw [membersOf, membersOf]
      exact (hmembers.cons _).trans List.perm_middle.symm
  | .subAssembly subAssembly :: rest => by
    have hsub := addToAssemblyRecursive_adds targetId node subAssembly
    have hrest := addToChildren_adds targetId node rest
    have hhead := subAssembly.members_eq
    rw [addToChildren, membersOf]
    split
    next htarget =>
      refine .added (List.mem_append_left _ ?_) ?_
      · rw [hhead, htarget]
        exact List.mem_cons_self
      · rw [membersOf, membersOf, Assembly.members_push, List.append_assoc]
        exact List.perm_append_comm_assoc ..
    next htarget =>
      generalize addToAssemblyRecursive targetId node subAssembly = outcome at hsub
      generalize addToChildren targetId node rest = outcome' at hrest
      cases hsub with
      | failed h =>
        have hnot : .assembly targetId ∉ subAssembly.members := by
          rw [hhead, List.mem_cons, not_or]
          exact ⟨fun heq ↦ htarget (Member.assembly.inj heq).symm, h⟩
        cases hrest with
        | failed h' => exact .failed fun hmem ↦ (List.mem_append.mp hmem).elim hnot h'
        | added h' hmembers =>
          refine .added (List.mem_append_right _ h') ?_
          rw [membersOf, membersOf]
          exact (hmembers.append_left _).trans (List.perm_append_comm_assoc ..)
      | added h hmembers =>
        refine .added (List.mem_append_left _ ?_) ?_
        · rw [hhead]
          exact List.mem_cons_of_mem _ h
        · rw [membersOf, membersOf, ← List.append_assoc]
          exact hmembers.append_right _

end

theorem ProjectHierarchy.addToAssembly_adds (hierarchy : ProjectHierarchy) (assemblyId : String)
    (node : HierarchyNode) : Adds ProjectHierarchy.members assemblyId node hierarchy.members
      hierarchy (hierarchy.addToAssembly assemblyId node) ∧
        (hierarchy.addToAssembly assemblyId node).2.partLibrary = hierarchy.partLibrary := by
  have hroot := hierarchy.rootAssembly.members_eq
  rw [addToAssembly]
  split
  next htarget =>
    refine ⟨.added ?_ ?_, rfl⟩
    · rw [members, hroot, htarget]
      exact List.mem_cons_self
    · rw [members, members, Assembly.members_push]
      exact List.perm_append_comm
  next htarget =>
    have hadds := addToAssemblyRecursive_adds assemblyId node hierarchy.rootAssembly
    refine ⟨?_, rfl⟩
    generalize addToAssemblyRecursive assemblyId node hierarchy.rootAssembly = outcome at hadds
    cases hadds with
    | failed h =>
      refine .failed ?_
      rw [members, hroot, List.mem_cons, not_or]
      exact ⟨fun heq ↦ htarget (Member.assembly.inj heq).symm, h⟩
    | added h hmembers =>
      refine .added ?_ hmembers
      rw [members, hroot]
      exact List.mem_cons_of_mem _ h

/-! ## Changing an instance -/

def Changes (instanceId : String) (change : PartInstance → PartInstance)
    (before after : List Member) : Prop :=
  ∃ left instance_ right, instance_.instanceId = instanceId ∧
    before = left ++ .part instance_ :: right ∧ after = left ++ .part (change instance_) :: right

namespace Changes

variable {instanceId : String} {change : PartInstance → PartInstance}
  {before after : List Member}

section

variable (h : Changes instanceId change before after)

include h

theorem append_left (first : List Member) :
    Changes instanceId change (first ++ before) (first ++ after) := by
  obtain ⟨left, instance_, right, hid, rfl, rfl⟩ := h
  exact ⟨first ++ left, instance_, right, hid, (List.append_assoc ..).symm,
    (List.append_assoc ..).symm⟩

theorem cons (member : Member) :
    Changes instanceId change (member :: before) (member :: after) := h.append_left [member]

theorem append_right (last : List Member) :
    Changes instanceId change (before ++ last) (after ++ last) := by
  obtain ⟨left, instance_, right, hid, rfl, rfl⟩ := h
  exact ⟨left, instance_, right ++ last, hid, List.append_assoc .., List.append_assoc ..⟩

end

end Changes

theorem changes_of_changeAmong {instanceId : String} {change : PartInstance → PartInstance}
    {children children' : List HierarchyNode}
    (h : changeAmong instanceId change children = some children') :
    Changes instanceId change (membersOf children) (membersOf children') := by
  induction children generalizing children' with
  | nil => cases h
  | cons node rest ih =>
    cases node with
    | partInstance instance_ =>
      rw [changeAmong] at h
      split at h
      next hid =>
        obtain rfl := Option.some_inj.mp h
        rw [membersOf, membersOf]
        exact ⟨[], instance_, membersOf rest, hid, rfl, rfl⟩
      next =>
        obtain ⟨rest', hrest, rfl⟩ := Option.map_eq_some_iff.mp h
        rw [membersOf, membersOf]
        exact (ih hrest).cons _
    | subAssembly subAssembly =>
      rw [changeAmong] at h
      obtain ⟨rest', hrest, rfl⟩ := Option.map_eq_some_iff.mp h
      rw [membersOf, membersOf]
      exact (ih hrest).append_left _

mutual

theorem changes_of_findInstanceInAssemblyMut {targetAssemblyId instanceId : String}
    {change : PartInstance → PartInstance} :
    ∀ {assembly assembly' : Assembly},
      findInstanceInAssemblyMut targetAssemblyId instanceId change assembly = some assembly' →
        Changes instanceId change assembly.members assembly'.members
  | ⟨id, name, children⟩, assembly', h => by
    rw [findInstanceInAssemblyMut] at h
    split at h
    next =>
      obtain ⟨children', hchildren, rfl⟩ := Option.map_eq_some_iff.mp h
      rw [Assembly.members, Assembly.members]
      exact (changes_of_changeAmong hchildren).cons _
    next =>
      obtain ⟨children', hchildren, rfl⟩ := Option.map_eq_some_iff.mp h
      rw [Assembly.members, Assembly.members]
      exact (changes_of_findInstanceInChildrenMut hchildren).cons _

theorem changes_of_findInstanceInChildrenMut {targetAssemblyId instanceId : String}
    {change : PartInstance → PartInstance} :
    ∀ {children children' : List HierarchyNode},
      findInstanceInChildrenMut targetAssemblyId instanceId change children = some children' →
        Changes instanceId change (membersOf children) (membersOf children')
  | [], _, h => by
    rw [findInstanceInChildrenMut] at h
    cases h
  | .partInstance instance_ :: rest, children', h => by
    rw [findInstanceInChildrenMut] at h
    obtain ⟨rest', hrest, rfl⟩ := Option.map_eq_some_iff.mp h
    rw [membersOf, membersOf]
    exact (changes_of_findInstanceInChildrenMut hrest).cons _
  | .subAssembly subAssembly :: rest, children', h => by
    rw [findInstanceInChildrenMut] at h
    split at h
    next hsub =>
      obtain rfl := Option.some_inj.mp h
      rw [membersOf, membersOf]
      exact (changes_of_findInstanceInAssemblyMut hsub).append_right _
    next =>
      obtain ⟨rest', hrest, rfl⟩ := Option.map_eq_some_iff.mp h
      rw [membersOf, membersOf]
      exact (changes_of_findInstanceInChildrenMut hrest).append_left _

end

theorem ProjectHierarchy.changes_of_findInstanceMut {hierarchy hierarchy' : ProjectHierarchy}
    {assemblyId instanceId : String} {change : PartInstance → PartInstance}
    (h : hierarchy.findInstanceMut assemblyId instanceId change = some hierarchy') :
    Changes instanceId change hierarchy.members hierarchy'.members ∧
      hierarchy'.partLibrary = hierarchy.partLibrary := by
  obtain ⟨rootAssembly, hroot, rfl⟩ := Option.map_eq_some_iff.mp h
  exact ⟨changes_of_findInstanceInAssemblyMut hroot, rfl⟩

/-! ## What a change keeps -/

theorem ProjectHierarchy.partLibrary_insertDefinition (hierarchy : ProjectHierarchy)
    (id : String) (definition : PartDefinition) (definitionId : String) :
    (hierarchy.insertDefinition id definition).partLibrary definitionId =
      if definitionId = id then some definition else hierarchy.partLibrary definitionId :=
  Function.update_apply ..

namespace ProjectHierarchy.WellKept

variable {hierarchy hierarchy' : ProjectHierarchy}

theorem add_iff (h : hierarchy.WellKept) {member : Member}
    (hmembers : hierarchy'.members.Perm (member :: hierarchy.members))
    (hlibrary : hierarchy'.partLibrary = hierarchy.partLibrary)
    (hid : member.id ∉ hierarchy.members.map Member.id)
    (hdefined : ∀ instance_, member = .part instance_ →
      (hierarchy.partLibrary instance_.definitionId).isSome) :
    hierarchy'.WellKept ↔
      ∀ number, member.number = some number →
        number ∉ hierarchy.members.filterMap Member.number := by
  have hnumbers : (hierarchy'.members.filterMap Member.number).Nodup ↔
      ((member :: hierarchy.members).filterMap Member.number).Nodup :=
    (hmembers.filterMap _).nodup_iff
  constructor
  · intro h' number hnumber hmem
    have hnodup := hnumbers.mp h'.numbers
    rw [List.filterMap_cons_some hnumber] at hnodup
    exact (List.nodup_cons.mp hnodup).1 hmem
  · intro hfree
    refine ⟨fun instance_ hmem ↦ ?_, ?_, hnumbers.mpr ?_⟩
    · rw [hlibrary]
      rcases List.mem_cons.mp (hmembers.mem_iff.mp hmem) with heq | hmem
      · exact hdefined instance_ heq.symm
      · exact h.defined instance_ hmem
    · rw [(hmembers.map Member.id).nodup_iff]
      exact List.nodup_cons.mpr ⟨hid, h.ids⟩
    · rcases hnumber : member.number with _ | number
      · rw [List.filterMap_cons_none hnumber]
        exact h.numbers
      · rw [List.filterMap_cons_some hnumber]
        exact List.nodup_cons.mpr ⟨hfree number hnumber, h.numbers⟩

theorem insertDefinition (h : hierarchy.WellKept) (id : String) (definition : PartDefinition) :
    (hierarchy.insertDefinition id definition).WellKept where
  defined instance_ hmem := by
    rw [partLibrary_insertDefinition]
    split
    · rfl
    · exact h.defined instance_ hmem
  ids := h.ids
  numbers := h.numbers

theorem change (h : hierarchy.WellKept) {instanceId : String} {change : PartInstance → PartInstance}
    (hchanges : Changes instanceId change hierarchy.members hierarchy'.members)
    (hlibrary : hierarchy'.partLibrary = hierarchy.partLibrary)
    (hid : ∀ i, (change i).instanceId = i.instanceId)
    (hdefined : ∀ i, .part i ∈ hierarchy.members →
      (hierarchy.partLibrary (change i).definitionId).isSome)
    (hnumber : ∀ i, Member.number (.part (change i)) = Member.number (.part i) ∨
      ∀ j, .part j ∈ hierarchy.members → j.definitionId ≠ (change i).definitionId) :
    hierarchy'.WellKept := by
  obtain ⟨left, instance_, right, -, hbefore, hafter⟩ := hchanges
  have hmem : .part instance_ ∈ hierarchy.members := by
    rw [hbefore]
    exact List.mem_append_right _ List.mem_cons_self
  have hrest {member : Member} (hmember : member ∈ left ++ right) : member ∈ hierarchy.members := by
    rw [hbefore]
    exact List.perm_middle.mem_iff.mpr (List.mem_cons_of_mem _ hmember)
  refine ⟨fun j hj ↦ ?_, ?_, ?_⟩
  · rw [hlibrary]
    rw [hafter, List.perm_middle.mem_iff, List.mem_cons] at hj
    rcases hj with heq | hj
    · rw [Member.part.inj heq]
      exact hdefined instance_ hmem
    · exact h.defined j (hrest hj)
  · have hids := h.ids
    rw [hbefore, List.map_append, List.map_cons] at hids
    have hsame : Member.id (.part (change instance_)) = Member.id (.part instance_) :=
      hid instance_
    rw [hafter, List.map_append, List.map_cons, hsame]
    exact hids
  · have hnumbers := h.numbers
    rw [hbefore, (List.perm_middle.filterMap _).nodup_iff,
      List.filterMap_cons_some (rfl : Member.number (.part instance_) = some _),
      List.nodup_cons] at hnumbers
    rw [hafter, (List.perm_middle.filterMap _).nodup_iff,
      List.filterMap_cons_some (rfl : Member.number (.part (change instance_)) = some _),
      List.nodup_cons]
    refine ⟨fun htaken ↦ ?_, hnumbers.2⟩
    rcases hnumber instance_ with hsame | hnew
    · exact hnumbers.1 (Option.some_inj.mp hsame ▸ htaken)
    · obtain ⟨member, hmember, htag⟩ := List.mem_filterMap.mp htaken
      cases member with
      | assembly id => cases htag
      | part j => exact hnew j (hrest hmember) (congrArg Prod.fst (Option.some_inj.mp htag))

end ProjectHierarchy.WellKept

/-! ## What a command keeps -/

def Fresh (newV4 : ℕ → Uuid) (hierarchy : ProjectHierarchy) : Prop :=
  ∀ n < 2, (newV4 n).toText ∉ hierarchy.members.map Member.id ∧
    hierarchy.partLibrary (newV4 n).toText = none

instance decidableFresh (newV4 : ℕ → Uuid) (hierarchy : ProjectHierarchy) :
    Decidable (Fresh newV4 hierarchy) :=
  inferInstanceAs (Decidable (∀ n < 2, _ ∧ _ = none))

def ProjectHierarchy.NumberFree (hierarchy : ProjectHierarchy) : HierarchyCommand → Prop
  | .createPartInstance definitionId assemblyId =>
    (hierarchy.partLibrary definitionId).isSome → .assembly assemblyId ∈ hierarchy.members →
      ∀ instance_, .part instance_ ∈ hierarchy.members → instance_.definitionId = definitionId →
        instance_.instanceNumber ≠ hierarchy.countInstances definitionId + 1
  | _ => True

namespace HierarchyManager

variable {m : HierarchyManager} {newV4 : ℕ → Uuid} {sessionId : String}
  {hierarchy : ProjectHierarchy}

section

variable (hsession : m.sessions sessionId = some hierarchy)

include hsession

theorem write_eq_self :
    m.write sessionId hierarchy = m := by
  rw [write, ← hsession, Function.update_eq_self]

theorem perform_of_error {command : HierarchyCommand} {e : String}
    (he : (m.perform newV4 sessionId hierarchy command).1 = .error e) :
    (m.perform newV4 sessionId hierarchy command).2 = m := by
  cases command with
  | createPartDefinition name => cases he
  | createPartInstance definitionId assemblyId =>
    rw [perform] at he ⊢
    split at he
    next hnone => rw [if_pos hnone]
    next hsome =>
      rw [if_neg hsome]
      have hadds := (hierarchy.addToAssembly_adds assemblyId (.partInstance
        ⟨(newV4 0).toText, definitionId, hierarchy.countInstances definitionId + 1, .default,
          false⟩)).1
      dsimp only at he ⊢
      generalize hierarchy.addToAssembly assemblyId _ = outcome at he hadds ⊢
      cases hadds with
      | failed => exact write_eq_self hsession
      | added => cases he
  | makeInstanceUnique assemblyId instanceId =>
    rw [perform] at he ⊢
    generalize hierarchy.findInstance assemblyId instanceId = found at he ⊢
    rcases found with _ | instance_
    · rfl
    · dsimp only at he ⊢
      split at he
      next hunique => cases he
      next hunique =>
        rw [if_neg hunique]
        generalize hierarchy.partLibrary instance_.definitionId = original at he ⊢
        rcases original with _ | originalDef
        · rfl
        · cases he
  | updateTransform assemblyId instanceId transform =>
    rw [perform] at he
    split at he
    next => cases he
    next => cases he
  | editPartDefinition definitionId =>
    rw [perform] at he ⊢
    split at he
    next hnone => rw [if_pos hnone]
    next => cases he
  | editPartInstance assemblyId instanceId =>
    rw [perform] at he ⊢
    split at he
    next hnone => rw [if_pos hnone]
    next => cases he
  | createSubAssembly parentId name =>
    rw [perform] at he ⊢
    have hadds := (hierarchy.addToAssembly_adds parentId
      (.subAssembly ⟨(newV4 0).toText, name, []⟩)).1
    generalize hierarchy.addToAssembly parentId _ = outcome at he hadds ⊢
    cases hadds with
    | failed => exact write_eq_self hsession
    | added => cases he
  | setWorkflowStage stage => cases he

theorem perform_wellKept_iff
    (h : hierarchy.WellKept) (hfresh : Fresh newV4 hierarchy) (command : HierarchyCommand) :
    ∃ hierarchy', (m.perform newV4 sessionId hierarchy command).2.sessions =
      Function.update m.sessions sessionId (some hierarchy') ∧
        (hierarchy'.WellKept ↔ hierarchy.NumberFree command) := by
  obtain ⟨hid, hnew⟩ := hfresh 0 Nat.zero_lt_two
  have hself : m.sessions = Function.update m.sessions sessionId (some hierarchy) := by
    rw [← hsession, Function.update_eq_self]
  cases command with
  | createPartDefinition name =>
    exact ⟨_, rfl, iff_of_true (h.insertDefinition _ _) trivial⟩
  | createPartInstance definitionId assemblyId =>
    rw [perform]
    split
    next hnone =>
      refine ⟨hierarchy, hself, iff_of_true h fun hsome ↦ ?_⟩
      rw [Option.isNone_iff_eq_none.mp hnone] at hsome
      cases hsome
    next hsome =>
      have hdefinition : (hierarchy.partLibrary definitionId).isSome := by
        rwa [Option.isNone_iff_eq_none, ← ne_eq, Option.ne_none_iff_isSome] at hsome
      obtain ⟨hadds, hlibrary⟩ := hierarchy.addToAssembly_adds assemblyId (.partInstance
        ⟨(newV4 0).toText, definitionId, hierarchy.countInstances definitionId + 1, .default,
          false⟩)
      dsimp only
      generalize hierarchy.addToAssembly assemblyId _ = outcome at hadds hlibrary
      cases hadds with
      | failed habsent =>
        exact ⟨hierarchy, rfl, iff_of_true h fun _ hmem ↦ absurd hmem habsent⟩
      | @added hierarchy' hthere hmembers =>
        refine ⟨hierarchy', rfl, (h.add_iff hmembers hlibrary hid ?_).trans ?_⟩
        · intro instance_ heq
          rw [← Member.part.inj heq]
          exact hdefinition
        · constructor
          · intro hfree _ _ instance_ hmem hdef hnumber
            refine hfree _ rfl (List.mem_filterMap.mpr ⟨.part instance_, hmem, ?_⟩)
            rw [Member.number, hdef, hnumber]
          · intro hfree number hnumber hmem
            obtain ⟨member, hmember, htag⟩ := List.mem_filterMap.mp hmem
            rw [← hnumber] at htag
            cases member with
            | assembly id => cases htag
            | part instance_ =>
              obtain ⟨hdef, htag⟩ := Prod.mk.inj (Option.some_inj.mp htag)
              exact hfree hdefinition hthere instance_ hmember hdef htag
  | makeInstanceUnique assemblyId instanceId =>
    rw [perform]
    generalize hierarchy.findInstance assemblyId instanceId = found
    rcases found with _ | instance_
    · exact ⟨hierarchy, hself, iff_of_true h trivial⟩
    · dsimp only
      split
      next => exact ⟨hierarchy, hself, iff_of_true h trivial⟩
      next =>
        generalize hierarchy.partLibrary instance_.definitionId = original
        rcases original with _ | originalDef
        · exact ⟨hierarchy, hself, iff_of_true h trivial⟩
        · refine ⟨_, rfl, iff_of_true ?_ trivial⟩
          have hinserted := h.insertDefinition (newV4 0).toText
            { originalDef with
              id := (newV4 0).toText
              name := originalDef.name ++ "_Modified"
              version := 1 }
          generalize hchanged : ProjectHierarchy.findInstanceMut _ _ _ _ = changed
          rcases changed with _ | hierarchy'
          · exact hinserted
          · obtain ⟨hchanges, hlibrary⟩ := ProjectHierarchy.changes_of_findInstanceMut hchanged
            refine hinserted.change hchanges hlibrary (fun _ ↦ rfl) (fun i _ ↦ ?_)
              fun _ ↦ Or.inr fun j hj hdef ↦ ?_
            · rw [ProjectHierarchy.partLibrary_insertDefinition, if_pos rfl]
              rfl
            · -- The new definition has no instance yet.
              have hdefined := h.defined j hj
              rw [hdef, hnew] at hdefined
              cases hdefined
  | updateTransform assemblyId instanceId transform =>
    rw [perform]
    generalize hchanged : ProjectHierarchy.findInstanceMut _ _ _ _ = changed
    rcases changed with _ | hierarchy'
    · exact ⟨hierarchy, hself, iff_of_true h trivial⟩
    · obtain ⟨hchanges, hlibrary⟩ := ProjectHierarchy.changes_of_findInstanceMut hchanged
      exact ⟨hierarchy', rfl, iff_of_true (h.change hchanges hlibrary (fun _ ↦ rfl)
        (fun i hi ↦ h.defined i hi) fun _ ↦ Or.inl rfl) trivial⟩
  | editPartDefinition definitionId =>
    rw [perform]
    split
    next => exact ⟨hierarchy, hself, iff_of_true h trivial⟩
    next => exact ⟨hierarchy, hself, iff_of_true h trivial⟩
  | editPartInstance assemblyId instanceId =>
    rw [perform]
    split
    next => exact ⟨hierarchy, hself, iff_of_true h trivial⟩
    next => exact ⟨hierarchy, hself, iff_of_true h trivial⟩
  | createSubAssembly parentId name =>
    rw [perform]
    obtain ⟨hadds, hlibrary⟩ := hierarchy.addToAssembly_adds parentId
      (.subAssembly ⟨(newV4 0).toText, name, []⟩)
    generalize hierarchy.addToAssembly parentId _ = outcome at hadds hlibrary
    cases hadds with
    | failed => exact ⟨hierarchy, rfl, iff_of_true h trivial⟩
    | @added hierarchy' hthere hmembers =>
      refine ⟨hierarchy', rfl, iff_of_true ((h.add_iff hmembers hlibrary hid ?_).mpr ?_) trivial⟩
      · rintro instance_ ⟨⟩
      · rintro number ⟨⟩
  | setWorkflowStage stage => exact ⟨hierarchy, hself, iff_of_true h trivial⟩

end

end HierarchyManager

/-! ## Runs -/

/-- What a manager is asked to do, with the ids it draws for it. -/
inductive Action
  | createSession (newV4 : ℕ → Uuid) (sessionId : String)
  | executeCommand (newV4 : ℕ → Uuid) (sessionId : String) (command : HierarchyCommand)

namespace HierarchyManager

variable (m : HierarchyManager)

def step : Action → HierarchyManager
  | .createSession newV4 sessionId => (m.createSession newV4 sessionId).2
  | .executeCommand newV4 sessionId command => (m.executeCommand newV4 sessionId command).2

/-- A manager without sessions at first. An id that is drawn is not in use in its session. -/
def managing : GuardedSystem HierarchyManager Action where
  init := new
  enabled m
    | .createSession _ _ => True
    | .executeCommand newV4 sessionId _ =>
      (m.sessions sessionId).all fun hierarchy ↦ Fresh newV4 hierarchy
  step := step

def Kept : Prop := ∀ sessionId hierarchy, m.sessions sessionId = some hierarchy → hierarchy.WellKept

/-- An action leaves every hierarchy kept well, and the manager as it was if it fails. -/
structure Right (action : Action) : Prop where
  kept : (m.step action).Kept
  failed : ∀ newV4 sessionId command e, action = .executeCommand newV4 sessionId command →
    (m.executeCommand newV4 sessionId command).1 = .error e →
      (m.executeCommand newV4 sessionId command).2 = m

def NumberFree : Action → Prop
  | .createSession _ _ => True
  | .executeCommand _ sessionId command =>
    ∀ hierarchy, m.sessions sessionId = some hierarchy → hierarchy.NumberFree command

variable {m}

theorem kept_new : new.Kept := by
  rintro _ _ ⟨⟩

theorem Kept.createSession (h : m.Kept) (newV4 : ℕ → Uuid) (sessionId : String) :
    (m.createSession newV4 sessionId).2.Kept := by
  intro sessionId' hierarchy hsession
  change Function.update m.sessions sessionId (some _) sessionId' = _ at hsession
  rw [Function.update_apply] at hsession
  split at hsession
  next =>
    obtain rfl := Option.some_inj.mp hsession
    have hmembers : ProjectHierarchy.members
        ⟨⟨(newV4 0).toText, "Untitled_Assembly", []⟩, fun _ ↦ none⟩ =
          [.assembly (newV4 0).toText] := by
      rw [ProjectHierarchy.members, Assembly.members, membersOf]
    refine ⟨fun instance_ hmem ↦ ?_, ?_, ?_⟩
    · rw [hmembers] at hmem
      cases List.mem_singleton.mp hmem
    · rw [hmembers]
      exact List.nodup_singleton _
    · rw [hmembers]
      exact List.nodup_nil
  next => exact h sessionId' hierarchy hsession

theorem executeCommand_snd {newV4 : ℕ → Uuid} {sessionId : String} {hierarchy : ProjectHierarchy}
    (hsession : m.sessions sessionId = some hierarchy) (command : HierarchyCommand) :
    (m.executeCommand newV4 sessionId command).2 =
      (m.perform newV4 sessionId hierarchy command).2 := by
  rw [executeCommand, hsession]
  dsimp only
  split
  next h => rw [h]
  next h => rw [h]

theorem executeCommand_of_error {newV4 : ℕ → Uuid} {sessionId : String}
    {command : HierarchyCommand} {e : String}
    (he : (m.executeCommand newV4 sessionId command).1 = .error e) :
    (m.executeCommand newV4 sessionId command).2 = m := by
  rcases hsession : m.sessions sessionId with _ | hierarchy
  · rw [executeCommand, hsession]
  · rw [executeCommand_snd hsession]
    rw [executeCommand, hsession] at he
    dsimp only at he
    split at he
    next h => exact perform_of_error hsession (congrArg Prod.fst h)
    next => cases he

theorem Kept.right_iff (h : m.Kept) {action : Action} (henabled : managing.enabled m action) :
    m.Right action ↔ m.NumberFree action := by
  cases action with
  | createSession newV4 sessionId =>
    refine iff_of_true ⟨h.createSession newV4 sessionId, ?_⟩ trivial
    rintro _ _ _ _ ⟨⟩
  | executeCommand newV4 sessionId command =>
    have hfailed : ∀ newV4' sessionId' command' e, Action.executeCommand newV4 sessionId command =
        .executeCommand newV4' sessionId' command' →
          (m.executeCommand newV4' sessionId' command').1 = .error e →
            (m.executeCommand newV4' sessionId' command').2 = m :=
      fun _ _ _ _ _ he ↦ executeCommand_of_error he
    rcases hsession : m.sessions sessionId with _ | hierarchy
    · refine iff_of_true ⟨?_, hfailed⟩ fun hierarchy hsome ↦ ?_
      · rw [step, executeCommand, hsession]
        exact h
      · rw [hsession] at hsome
        cases hsome
    · have hfresh := of_decide_eq_true ((Option.all_eq_true _ _).mp henabled hierarchy hsession)
      obtain ⟨hierarchy', hsessions, hkept⟩ := perform_wellKept_iff hsession
        (h sessionId hierarchy hsession) hfresh command
      rw [← executeCommand_snd hsession command] at hsessions
      constructor
      · intro hright hierarchy₁ hsome
        obtain rfl := Option.some_inj.mp (hsession.symm.trans hsome)
        refine hkept.mp (hright.kept sessionId hierarchy' ?_)
        rw [step, hsessions, Function.update_self]
      · refine fun hfree ↦ ⟨fun sessionId' hierarchy₁ hsome ↦ ?_, hfailed⟩
        rw [step, hsessions, Function.update_apply] at hsome
        split at hsome
        next =>
          obtain rfl := Option.some_inj.mp hsome
          exact hkept.mpr (hfree hierarchy hsession)
        next => exact h sessionId' hierarchy₁ hsome

theorem Kept.admits_right_iff (h : m.Kept) (actions : List Action) :
    managing.Admits Right m actions ↔ managing.Admits NumberFree m actions := by
  induction actions generalizing m with
  | nil => exact Iff.rfl
  | cons action actions ih =>
    constructor
    · rintro ⟨henabled, hright, hrest⟩
      exact ⟨henabled, (h.right_iff henabled).mp hright, (ih hright.kept).mp hrest⟩
    · rintro ⟨henabled, hfree, hrest⟩
      have hright := (h.right_iff henabled).mpr hfree
      exact ⟨henabled, hright, (ih hright.kept).mpr hrest⟩

instance decidableEnabled (m : HierarchyManager) (action : Action) :
    Decidable (managing.enabled m action) :=
  match action with
  | .createSession _ _ => inferInstanceAs (Decidable True)
  | .executeCommand _ _ _ => inferInstanceAs (Decidable (Option.all _ _ = true))

def drawn (k n : ℕ) : Uuid := BitVec.ofNat 128 (2 * k + n)

def threeBolts : List Action :=
  let root := (drawn 0 0).toText
  let bolt := (drawn 1 0).toText
  [.createSession (drawn 0) "s",
    .executeCommand (drawn 1) "s" (.createPartDefinition "bolt"),
    .executeCommand (drawn 2) "s" (.createPartInstance bolt root),
    .executeCommand (drawn 3) "s" (.createPartInstance bolt root),
    .executeCommand (drawn 4) "s" (.makeInstanceUnique root (drawn 2 0).toText),
    .executeCommand (drawn 5) "s" (.createPartInstance bolt root)]

end HierarchyManager

end Hierarchy

end RosheraCad
