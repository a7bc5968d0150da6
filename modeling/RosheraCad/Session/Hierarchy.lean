import RosheraCad.Brep.Snapshot
import RosheraCad.Types

/-!
# The hierarchy of a project

A session has a tree of assemblies, whose leaves are instances of parts, and a library of the
definitions they refer to. An instance is numbered when it is created. A command that writes to the
tree may fail on the way, so these functions are given with the tree they leave behind.
-/

namespace RosheraCad

namespace Hierarchy

/-! ## Data -/

/-- Transform: position, rotation as a quaternion, scale of each axis. -/
structure Transform where
  position : F64 × F64 × F64
  rotation : F64 × F64 × F64 × F64
  scale : F64 × F64 × F64

def one : F64 := 0x3FF0000000000000

def Transform.default : Transform := ⟨(0, 0, 0), (0, 0, 0, one), (one, one, one)⟩

inductive FeatureType
  | sketch
  | extrude
  | revolve
  | fillet
  | chamfer
  | pattern
  | hole

structure Feature where
  id : String
  featureType : FeatureType
  parameters : String → Option F64

structure PartDefinition where
  id : String
  name : String
  geometryId : String
  features : List Feature
  version : UInt32

structure PartInstance where
  instanceId : String
  definitionId : String
  instanceNumber : UInt32
  transform : Transform
  isUnique : Bool

mutual

inductive HierarchyNode
  | partInstance (instance_ : PartInstance)
  | subAssembly (assembly : Assembly)

/-- An assembly of instances and further assemblies. -/
structure Assembly where
  id : String
  name : String
  children : List HierarchyNode

end

structure ProjectHierarchy where
  rootAssembly : Assembly
  partLibrary : String → Option PartDefinition

inductive EditContext
  | assembly (id : String)
  | partDefinition (id : String)
  | partInstance (assemblyId instanceId : String)
  deriving DecidableEq

inductive WorkflowStage
  | create
  | define
  | refine
  | validate
  | output
  deriving DecidableEq

structure WorkflowState where
  currentStage : WorkflowStage
  currentContext : EditContext
  availableTools : List String
  deriving DecidableEq

inductive HierarchyCommand
  | createPartDefinition (name : String)
  | createPartInstance (definitionId assemblyId : String)
  | editPartDefinition (definitionId : String)
  | editPartInstance (assemblyId instanceId : String)
  | makeInstanceUnique (assemblyId instanceId : String)
  | updateTransform (assemblyId instanceId : String) (transform : Transform)
  | createSubAssembly (parentId name : String)
  | setWorkflowStage (stage : WorkflowStage)

structure HierarchyUpdate where
  hierarchy : ProjectHierarchy
  workflowState : WorkflowState
  affectedInstances : List (String × String)

/-! ## Trees -/

def Assembly.push (assembly : Assembly) (node : HierarchyNode) : Assembly :=
  { assembly with children := assembly.children ++ [node] }

mutual

def addToAssemblyRecursive (targetId : String) (node : HierarchyNode) :
    Assembly → Except String Unit × Assembly
  | ⟨id, name, children⟩ =>
    let (result, children) := addToChildren targetId node children
    (result, ⟨id, name, children⟩)

def addToChildren (targetId : String) (node : HierarchyNode) :
    List HierarchyNode → Except String Unit × List HierarchyNode
  | [] => (.error "Assembly not found", [])
  | .partInstance instance_ :: rest =>
    let (result, rest) := addToChildren targetId node rest
    (result, .partInstance instance_ :: rest)
  | .subAssembly subAssembly :: rest =>
    if subAssembly.id = targetId then (.ok (), .subAssembly (subAssembly.push node) :: rest)
    else
      match addToAssemblyRecursive targetId node subAssembly with
      | (.ok (), subAssembly) => (.ok (), .subAssembly subAssembly :: rest)
      | (.error _, subAssembly) =>
        let (result, rest) := addToChildren targetId node rest
        (result, .subAssembly subAssembly :: rest)

end

def instanceAmong (instanceId : String) : List HierarchyNode → Option PartInstance
  | [] => none
  | .partInstance instance_ :: rest =>
    if instance_.instanceId = instanceId then some instance_ else instanceAmong instanceId rest
  | .subAssembly _ :: rest => instanceAmong instanceId rest

mutual

def findInstanceInAssembly (targetAssemblyId instanceId : String) :
    Assembly → Option PartInstance
  | ⟨id, _, children⟩ =>
    match if id = targetAssemblyId then instanceAmong instanceId children else none with
    | some instance_ => some instance_
    | none => findInstanceInChildren targetAssemblyId instanceId children

def findInstanceInChildren (targetAssemblyId instanceId : String) :
    List HierarchyNode → Option PartInstance
  | [] => none
  | .partInstance _ :: rest => findInstanceInChildren targetAssemblyId instanceId rest
  | .subAssembly subAssembly :: rest =>
    match findInstanceInAssembly targetAssemblyId instanceId subAssembly with
    | some instance_ => some instance_
    | none => findInstanceInChildren targetAssemblyId instanceId rest

end

def changeAmong (instanceId : String) (change : PartInstance → PartInstance) :
    List HierarchyNode → Option (List HierarchyNode)
  | [] => none
  | .partInstance instance_ :: rest =>
    if instance_.instanceId = instanceId then some (.partInstance (change instance_) :: rest)
    else (changeAmong instanceId change rest).map (.partInstance instance_ :: ·)
  | .subAssembly subAssembly :: rest =>
    (changeAmong instanceId change rest).map (.subAssembly subAssembly :: ·)

mutual

def findInstanceInAssemblyMut (targetAssemblyId instanceId : String)
    (change : PartInstance → PartInstance) : Assembly → Option Assembly
  | ⟨id, name, children⟩ =>
    if id = targetAssemblyId then (changeAmong instanceId change children).map (⟨id, name, ·⟩)
    else
      (findInstanceInChildrenMut targetAssemblyId instanceId change children).map (⟨id, name, ·⟩)

def findInstanceInChildrenMut (targetAssemblyId instanceId : String)
    (change : PartInstance → PartInstance) : List HierarchyNode → Option (List HierarchyNode)
  | [] => none
  | .partInstance instance_ :: rest =>
    (findInstanceInChildrenMut targetAssemblyId instanceId change rest).map
      (.partInstance instance_ :: ·)
  | .subAssembly subAssembly :: rest =>
    match findInstanceInAssemblyMut targetAssemblyId instanceId change subAssembly with
    | some changed => some (.subAssembly changed :: rest)
    | none =>
      (findInstanceInChildrenMut targetAssemblyId instanceId change rest).map
        (.subAssembly subAssembly :: ·)

end

mutual

def countInstancesInAssembly (definitionId : String) : Assembly → UInt32
  | ⟨_, _, children⟩ => countInstancesInChildren definitionId children

def countInstancesInChildren (definitionId : String) : List HierarchyNode → UInt32
  | [] => 0
  | .partInstance instance_ :: rest =>
    (if instance_.definitionId = definitionId then 1 else 0) +
      countInstancesInChildren definitionId rest
  | .subAssembly subAssembly :: rest =>
    countInstancesInAssembly definitionId subAssembly + countInstancesInChildren definitionId rest

end

mutual

def findInstancesInAssembly (definitionId : String) : Assembly → List (String × String)
  | ⟨id, _, children⟩ => findInstancesInChildren definitionId id children

def findInstancesInChildren (definitionId assemblyId : String) :
    List HierarchyNode → List (String × String)
  | [] => []
  | .partInstance instance_ :: rest =>
    (if instance_.definitionId = definitionId then [(assemblyId, instance_.instanceId)] else []) ++
      findInstancesInChildren definitionId assemblyId rest
  | .subAssembly subAssembly :: rest =>
    findInstancesInAssembly definitionId subAssembly ++
      findInstancesInChildren definitionId assemblyId rest

end

namespace ProjectHierarchy

variable (hierarchy : ProjectHierarchy)

def addToAssembly (assemblyId : String) (node : HierarchyNode) :
    Except String Unit × ProjectHierarchy :=
  if hierarchy.rootAssembly.id = assemblyId then
    (.ok (), { hierarchy with rootAssembly := hierarchy.rootAssembly.push node })
  else
    let (result, rootAssembly) := addToAssemblyRecursive assemblyId node hierarchy.rootAssembly
    (result, { hierarchy with rootAssembly })

def findInstance (assemblyId instanceId : String) : Option PartInstance :=
  findInstanceInAssembly assemblyId instanceId hierarchy.rootAssembly

def findInstanceMut (assemblyId instanceId : String) (change : PartInstance → PartInstance) :
    Option ProjectHierarchy :=
  (findInstanceInAssemblyMut assemblyId instanceId change hierarchy.rootAssembly).map
    fun rootAssembly ↦ { hierarchy with rootAssembly }

def countInstances (definitionId : String) : UInt32 :=
  countInstancesInAssembly definitionId hierarchy.rootAssembly

def findAllInstances (definitionId : String) : List (String × String) :=
  findInstancesInAssembly definitionId hierarchy.rootAssembly

def insertDefinition (id : String) (definition : PartDefinition) : ProjectHierarchy :=
  { hierarchy with partLibrary := Function.update hierarchy.partLibrary id (some definition) }

end ProjectHierarchy

/-! ## The manager -/

structure HierarchyManager where
  sessions : String → Option ProjectHierarchy
  workflowStates : String → Option WorkflowState

def getToolsForStage : WorkflowStage → List String
  | .create => ["new_part", "new_assembly", "import_part", "primitive"]
  | .define => ["sketch", "extrude", "revolve", "constrain"]
  | .refine => ["fillet", "chamfer", "pattern", "transform"]
  | .validate => ["measure", "analyze", "check_interference"]
  | .output => ["export_stl", "export_step", "create_drawing"]

namespace HierarchyManager

/-- A manager without sessions. -/
def new : HierarchyManager := ⟨fun _ ↦ none, fun _ ↦ none⟩

variable (m : HierarchyManager)

def write (sessionId : String) (hierarchy : ProjectHierarchy) : HierarchyManager :=
  { m with sessions := Function.update m.sessions sessionId (some hierarchy) }

def updateState (sessionId : String) (change : WorkflowState → WorkflowState) : HierarchyManager :=
  { m with
    workflowStates :=
      Function.update m.workflowStates sessionId ((m.workflowStates sessionId).map change) }

def setContext (sessionId : String) (context : EditContext) : HierarchyManager :=
  m.updateState sessionId fun state ↦ { state with currentContext := context }

def initialState (hierarchy : ProjectHierarchy) : WorkflowState :=
  ⟨.create, .assembly hierarchy.rootAssembly.id, getToolsForStage .create⟩

def createSession (newV4 : ℕ → Uuid) (sessionId : String) : ProjectHierarchy × HierarchyManager :=
  let hierarchy : ProjectHierarchy :=
    ⟨⟨(newV4 0).toText, "Untitled_Assembly", []⟩, fun _ ↦ none⟩
  (hierarchy,
    ⟨Function.update m.sessions sessionId (some hierarchy),
      Function.update m.workflowStates sessionId (some (initialState hierarchy))⟩)

def perform (newV4 : ℕ → Uuid) (sessionId : String) (hierarchy : ProjectHierarchy) :
    HierarchyCommand → Except String (List (String × String)) × HierarchyManager
  | .createPartDefinition name =>
    let partId := (newV4 0).toText
    let partDef : PartDefinition := ⟨partId, name, (newV4 1).toText, [], 1⟩
    (.ok [], (m.write sessionId (hierarchy.insertDefinition partId partDef)).setContext sessionId
      (.partDefinition partId))
  | .createPartInstance definitionId assemblyId =>
    if (hierarchy.partLibrary definitionId).isNone then (.error "Part definition not found", m)
    else
      let instanceCount := hierarchy.countInstances definitionId
      let instance_ : PartInstance :=
        ⟨(newV4 0).toText, definitionId, instanceCount + 1, .default, false⟩
      match hierarchy.addToAssembly assemblyId (.partInstance instance_) with
      | (.ok (), hierarchy) =>
        (.ok [(assemblyId, instance_.instanceId)], m.write sessionId hierarchy)
      | (.error e, hierarchy) => (.error e, m.write sessionId hierarchy)
  | .makeInstanceUnique assemblyId instanceId =>
    match hierarchy.findInstance assemblyId instanceId with
    | none => (.error "Instance not found", m)
    | some instance_ =>
      if instance_.isUnique then (.ok [], m)
      else
        match hierarchy.partLibrary instance_.definitionId with
        | none => (.error "Part definition not found", m)
        | some originalDef =>
          let newDefId := (newV4 0).toText
          let newDef : PartDefinition :=
            { originalDef with
              id := newDefId
              name := originalDef.name ++ "_Modified"
              version := 1 }
          let hierarchy := hierarchy.insertDefinition newDefId newDef
          let changed := hierarchy.findInstanceMut assemblyId instanceId fun found ↦
            { found with definitionId := newDefId, isUnique := true }
          (.ok [(assemblyId, instanceId)], m.write sessionId (changed.getD hierarchy))
  | .updateTransform assemblyId instanceId transform =>
    match hierarchy.findInstanceMut assemblyId instanceId fun found ↦ { found with transform } with
    | some hierarchy => (.ok [(assemblyId, instanceId)], m.write sessionId hierarchy)
    | none => (.ok [], m)
  | .editPartDefinition definitionId =>
    if (hierarchy.partLibrary definitionId).isNone then (.error "Part definition not found", m)
    else
      (.ok (hierarchy.findAllInstances definitionId),
        m.setContext sessionId (.partDefinition definitionId))
  | .editPartInstance assemblyId instanceId =>
    if (hierarchy.findInstance assemblyId instanceId).isNone then (.error "Instance not found", m)
    else
      (.ok [(assemblyId, instanceId)], m.setContext sessionId (.partInstance assemblyId instanceId))
  | .createSubAssembly parentId name =>
    match hierarchy.addToAssembly parentId (.subAssembly ⟨(newV4 0).toText, name, []⟩) with
    | (.ok (), hierarchy) => (.ok [], m.write sessionId hierarchy)
    | (.error e, hierarchy) => (.error e, m.write sessionId hierarchy)
  | .setWorkflowStage stage =>
    (.ok [], m.updateState sessionId fun state ↦
      { state with currentStage := stage, availableTools := getToolsForStage stage })

def executeCommand (newV4 : ℕ → Uuid) (sessionId : String) (command : HierarchyCommand) :
    Except String HierarchyUpdate × HierarchyManager :=
  match m.sessions sessionId with
  | none => (.error "Session not found", m)
  | some hierarchy =>
    match m.perform newV4 sessionId hierarchy command with
    | (.error e, m) => (.error e, m)
    | (.ok affectedInstances, m) =>
      let hierarchy := (m.sessions sessionId).getD hierarchy
      (.ok ⟨hierarchy, (m.workflowStates sessionId).getD (initialState hierarchy),
        affectedInstances⟩, m)

end HierarchyManager

end Hierarchy

end RosheraCad
