import ArktsServer.Core.SharedTypes
import ArktsServer.Lib.NextFit
import ArktsServer.Lib.OrderedMap
import ArktsServer.Lib.UnixPath
import ArktsServer.Lib.Worklist
import Mathlib.Data.List.Sort

/-
  The plan of a reference search: the candidates in batches
  behind the pinned paths, in chunks of a fixed size or in
  whole semantic units with the project paths that each batch
  admits.

  Key definitions include:
    * `SemanticWorkspaceView`, `HarmonySemanticGraph`
    * `semanticUnitForPath`
    * `groupCandidatesBySemanticUnit`, `packSemanticUnits`
    * `planConservativeReferenceBatches`
    * `expandReferenceBatchAdmission`
-/

namespace ArktsServer

namespace References

open UnixPath

----------
-- Workspaces and Graphs
----------

abbrev FilePath := List Char

abbrev ModuleName := List Char

/-
  What the planner asks its host: the directory it runs in,
  and the keys that `localeCompare` compares.
-/
structure PlannerHost (Collation : Type) where
  cwd : FilePath
  collationKey : List Char → Collation

structure WorkspaceDocument where
  path : FilePath
  overlay : Bool
deriving DecidableEq

structure ProjectMembership where
  paths : List FilePath
  status : MembershipStatus
deriving DecidableEq

/- The fields of a view that the planner reads. -/
structure SemanticWorkspaceView where
  rootPath : FilePath
  statePath : FilePath
  documents : List WorkspaceDocument
  projectMembership : Option ProjectMembership
  semanticRootPaths : Option (List FilePath) := none
  projectFileIdentities :
    Option (List (FilePath × String)) := none
  changedPaths : Option (List FilePath) := none
  removedPaths : Option (List FilePath) := none
deriving DecidableEq

/- A unit goes by the module of its identity. -/
structure HarmonySemanticUnit where
  moduleName : ModuleName
  moduleRoot : FilePath
  dependencies : List ModuleName
deriving DecidableEq

inductive GraphStatus where
| unconfigured
| ready
| unavailable
deriving DecidableEq

/- The project model rejects two modules of one name. -/
structure HarmonySemanticGraph where
  status : GraphStatus
  complete : Bool
  units : List HarmonySemanticUnit
  distinct :
    (units.map HarmonySemanticUnit.moduleName).Nodup
deriving DecidableEq

/- `new Set` of a list, in the order of insertion. -/
def unique {α : Type} [DecidableEq α] : List α → List α
| [] => []
| item :: items =>
    item :: (unique items).filter (fun other => other ≠ item)

variable {α : Type}

/- `Set.prototype.has`. -/
def has
    [DecidableEq α]
    (items : List α)
    (item : α) : Bool :=
  decide (item ∈ items)

/- The items that a set does not have. -/
def without
    [DecidableEq α]
    (items removed : List α) : List α :=
  items.filter fun item => item ∉ removed

/- `String.prototype.length`. -/
def stringLength : List Char → Nat
| [] => 0
| char :: rest =>
    (if char.val ≤ 0xffff then 1 else 2) + stringLength rest

/- `new Map` of the units by their modules: the last wins. -/
def unitNamed
    (units : List HarmonySemanticUnit)
    (name : ModuleName) :
    Option HarmonySemanticUnit :=
  units.reverse.find? fun unit => unit.moduleName = name

def dependencyTable
    (units : List HarmonySemanticUnit) :
    List (ModuleName × List ModuleName) :=
  units.map fun unit => (unit.moduleName, unit.dependencies)

section Planning

variable {Collation : Type} [LinearOrder Collation]
variable (host : PlannerHost Collation)

def inside
    (rootPath candidate : FilePath) :
    Bool :=
  let relative :=
    UnixPath.relative host.cwd
      (resolve host.cwd rootPath)
      (resolve host.cwd candidate)
  relative.isEmpty ||
    (relative.head? ≠ some '/' && relative ≠ ['.', '.'] &&
      !(List.isPrefixOf ['.', '.', '/'] relative))

/- `sort(ordinalCompare)`, which is stable. -/
def sortOrdinal
    (name : α → List Char)
    (items : List α) : List α :=
  items.insertionSort fun left right =>
    host.collationKey (name left)
      ≤ host.collationKey (name right)

/- The unit with the longest root around a path. -/
def semanticUnitForPath
    (graph : HarmonySemanticGraph)
    (filePath : FilePath) :
    Option HarmonySemanticUnit :=
  graph.units.foldl
    (fun owner unit =>
      if inside host unit.moduleRoot filePath
          && owner.all (fun other =>
            stringLength other.moduleRoot
              < stringLength unit.moduleRoot) then
        some unit
      else
        owner)
    none

----------
-- Chunks
----------

structure CandidateChunk where
  paths : List FilePath
  semanticUnits : Nat
  unitNames : List ModuleName := []
  admittedProjectPaths : Option (List FilePath) := none
deriving DecidableEq

structure SemanticUnitPlanningContext where
  graph : HarmonySemanticGraph
  membershipPaths : List FilePath
  pinnedUnitNames : List ModuleName

/- The candidates by the module of their unit. -/
def groupedCandidates
    (graph : HarmonySemanticGraph)
    (candidates : List FilePath) :
    Option (OrderedMap ModuleName (List FilePath)) :=
  candidates.foldlM
    (fun grouped candidate => do
      let unit ← semanticUnitForPath host graph candidate
      let paths := (grouped.get unit.moduleName).getD []
      pure (grouped.set unit.moduleName (paths ++ [candidate])))
    OrderedMap.empty

def groupCandidatesBySemanticUnit
    (candidates pinned membershipPaths : List FilePath)
    (graph : HarmonySemanticGraph) :
    Option
      (List CandidateChunk × SemanticUnitPlanningContext) := do
  let grouped ← groupedCandidates host graph candidates
  let pinnedUnits ←
    pinned.mapM (semanticUnitForPath host graph)
  let pinnedUnitNames :=
    unique (pinnedUnits.map HarmonySemanticUnit.moduleName)
  let units :=
    (sortOrdinal host Prod.fst grouped.entries).map
      fun entry =>
        { paths := entry.2
          semanticUnits := 1
          unitNames := [entry.1] }
  pure
    (units,
      { graph := graph
        membershipPaths :=
          membershipPaths.map (resolve host.cwd)
        pinnedUnitNames := sortOrdinal host id pinnedUnitNames })

/- The members below the roots of some units. -/
def pathsOfUnits
    (units : List HarmonySemanticUnit)
    (names : List ModuleName)
    (membershipPaths : List FilePath) : List FilePath :=
  let roots :=
    (names.filterMap (unitNamed units)).map
      HarmonySemanticUnit.moduleRoot
  membershipPaths.filter fun filePath =>
    roots.any fun root => inside host root filePath

def admittedDependencyClosurePaths
    (seedUnitNames : List ModuleName)
    (context : SemanticUnitPlanningContext) : List FilePath :=
  let admittedUnits :=
    (Worklist.visitAll (dependencyTable context.graph.units)
      false seedUnitNames.reverse []).getD []
  pathsOfUnits host context.graph.units admittedUnits
    context.membershipPaths

/- The batches of `packSemanticUnits` and its open one. -/
structure Packing where
  batches : List CandidateChunk := []
  paths : List FilePath := []
  unitNames : List ModuleName := []
  semanticUnits : Nat := 0

def Packing.flush
    (context : SemanticUnitPlanningContext)
    (packing : Packing) :
    Packing :=
  if packing.paths.length = 0 then
    packing
  else
    { batches :=
        packing.batches ++
          [{ paths := packing.paths
             semanticUnits := packing.semanticUnits
             admittedProjectPaths :=
              some
                (admittedDependencyClosurePaths host
                  (context.pinnedUnitNames
                    ++ packing.unitNames) context) }] }

def Packing.push
    (packing : Packing)
    (unit : CandidateChunk) :
    Packing :=
  { packing with
    paths := packing.paths ++ unit.paths
    unitNames := packing.unitNames ++ unit.unitNames
    semanticUnits := packing.semanticUnits + 1 }

def Packing.add
    (batchRootLimit : Nat)
    (context : SemanticUnitPlanningContext)
    (packing : Packing)
    (unit : CandidateChunk) :
    Packing :=
  let packing :=
    if 0 < packing.paths.length
        ∧ batchRootLimit <
          packing.paths.length + unit.paths.length then
      packing.flush host context
    else
      packing
  if batchRootLimit ≤ (packing.push unit).paths.length then
    (packing.push unit).flush host context
  else
    packing.push unit

def packSemanticUnits
    (units : List CandidateChunk)
    (batchRootLimit : Nat)
    (context : SemanticUnitPlanningContext) :
    List CandidateChunk :=
  ((units.foldl
    (Packing.add host batchRootLimit context) {}).flush
      host context).batches

/- How many multiples of the limit are below a length. -/
def chunkCount (length limit : Nat) : Nat :=
  (length + (limit - 1)) / limit

/- The loop steps through the multiples of the limit. -/
def chunkCandidates
    (candidates : List FilePath)
    (batchRootLimit : Nat) : List CandidateChunk :=
  (List.range
    (chunkCount candidates.length batchRootLimit)).map
    fun index =>
      { paths :=
          (candidates.drop (index * batchRootLimit)).take
            batchRootLimit
        semanticUnits := 0 }

----------
-- Plans
----------

structure ReferenceBatch where
  index : Nat
  rootPaths : List FilePath
  candidateRoots : Nat
  semanticUnits : Nat
  admittedProjectPaths : Option (List FilePath)
deriving DecidableEq

inductive CandidateMode where
| conservative
| indexed
deriving DecidableEq

inductive SemanticUnitMode where
| conservative
| projectGraph
deriving DecidableEq

structure ReferenceSearchPlan where
  membershipFiles : Nat
  candidateFiles : Nat
  candidateMode : CandidateMode
  semanticUnitMode : SemanticUnitMode
  semanticUnits : Nat
  batches : List ReferenceBatch
deriving DecidableEq

def pinnedPaths
    (workspace : SemanticWorkspaceView) :
    List FilePath :=
  unique
    (resolve host.cwd workspace.statePath ::
      (workspace.documents.filter (·.overlay)).map
        fun document => resolve host.cwd document.path)

/- The members that are searched without being pinned. -/
def scopeCandidates
    (pinned membershipPaths : List FilePath)
    (candidatePaths : Option (List FilePath)) :
    List FilePath :=
  sortOrdinal host id
    (((membershipPaths.map (resolve host.cwd)).filter
      fun filePath =>
        candidatePaths.all fun candidates =>
          decide
            (filePath ∈
              candidates.map (resolve host.cwd))).filter
      fun filePath => filePath ∉ pinned)

def numberBatches
    (pinned : List FilePath)
    (chunks : List CandidateChunk) :
    List ReferenceBatch :=
  chunks.zipIdx.map fun entry =>
    { index := entry.2
      rootPaths := pinned ++ entry.1.paths
      candidateRoots := entry.1.paths.length
      semanticUnits := entry.1.semanticUnits
      admittedProjectPaths := entry.1.admittedProjectPaths }

def planBatches
    (pinned : List FilePath)
    (chunks : List CandidateChunk) :
    List ReferenceBatch :=
  if (numberBatches pinned chunks).length = 0 then
    [{ index := 0
       rootPaths := pinned
       candidateRoots := 0
       semanticUnits := 0
       admittedProjectPaths := none }]
  else
    numberBatches pinned chunks

/- The groups of the candidates, when the graph has them. -/
def semanticGroups
    (candidates pinned membershipPaths : List FilePath)
    (semanticGraph : Option HarmonySemanticGraph) :
    Option
      (List CandidateChunk × SemanticUnitPlanningContext) := do
  let graph ← semanticGraph
  if graph.status = .ready ∧ graph.complete = true then
    groupCandidatesBySemanticUnit host candidates pinned
      membershipPaths graph
  else
    none

def planChunks
    (candidates : List FilePath)
    (batchRootLimit : Nat)
    (groups :
      Option
        (List CandidateChunk × SemanticUnitPlanningContext)) :
    List CandidateChunk :=
  match groups with
  | some (units, context) =>
      packSemanticUnits host units batchRootLimit context
  | none => chunkCandidates candidates batchRootLimit

def planConservativeReferenceBatches
    (workspace : SemanticWorkspaceView)
    (batchRootLimit : Nat)
    (candidatePaths : Option (List FilePath))
    (semanticGraph : Option HarmonySemanticGraph) :
    Option ReferenceSearchPlan := do
  let membership ← workspace.projectMembership
  if membership.status ≠ .complete then
    none
  else
    let pinned := pinnedPaths host workspace
    let candidates :=
      scopeCandidates host pinned membership.paths
        candidatePaths
    let groups :=
      semanticGroups host candidates pinned membership.paths
        semanticGraph
    let chunks :=
      planChunks host candidates batchRootLimit groups
    pure
      { membershipFiles := membership.paths.length
        candidateFiles := (unique (pinned ++ candidates)).length
        candidateMode :=
          if candidatePaths.isSome then .indexed
          else .conservative
        semanticUnitMode :=
          if groups.isSome then .projectGraph
          else .conservative
        semanticUnits :=
          if groups.isSome then
            (semanticGraph.map (·.units.length)).getD 0
          else
            0
        batches := planBatches pinned chunks }

def uniquePaths (filePaths : List FilePath) :
    List FilePath :=
  unique (filePaths.map (resolve host.cwd))

/- The roots of some batches that are not pinned. -/
def remainingRoots
    (workspace : SemanticWorkspaceView)
    (batches : List ReferenceBatch) : List FilePath :=
  without
    (uniquePaths host
      (batches.flatMap ReferenceBatch.rootPaths))
    (pinnedPaths host workspace)

----------
-- Expansion
----------

structure ReferenceBatchAdmissionExpansion where
  admittedProjectPaths : List FilePath
  addedProjectFiles : Nat
  addedSemanticUnits : Nat
deriving DecidableEq

def expandReferenceBatchAdmission
    (admittedProjectPaths unavailableProjectPaths
      membershipPaths : List FilePath)
    (graph : HarmonySemanticGraph) :
    Option ReferenceBatchAdmissionExpansion := do
  if graph.status ≠ .ready ∨ graph.complete = false
      ∨ unavailableProjectPaths.length = 0 then
    none
  else
    let membership :=
      unique (membershipPaths.map (resolve host.cwd))
    let admitted :=
      admittedProjectPaths.map (resolve host.cwd)
    let seedUnits ←
      unavailableProjectPaths.mapM fun unavailablePath => do
        let resolved := resolve host.cwd unavailablePath
        if resolved ∈ membership then
          let unit ← semanticUnitForPath host graph resolved
          pure unit.moduleName
        else
          none
    let addedUnits ←
      Worklist.visitAll (dependencyTable graph.units) true
        (unique seedUnits).reverse []
    let added :=
      pathsOfUnits host graph.units addedUnits membership
    let expanded :=
      (membershipPaths.map (resolve host.cwd)).filter
        fun filePath => filePath ∈ admitted ++ added
    let addedProjectFiles : Int :=
      expanded.length - admittedProjectPaths.length
    if addedProjectFiles ≤ 0 then
      none
    else
      let previouslyAdmittedUnits :=
        admittedProjectPaths.filterMap fun filePath =>
          (semanticUnitForPath host graph filePath).map
            HarmonySemanticUnit.moduleName
      pure
        { admittedProjectPaths := expanded
          addedProjectFiles := addedProjectFiles.toNat
          addedSemanticUnits :=
            (addedUnits.filter fun name =>
              name ∉ previouslyAdmittedUnits).length }

end Planning

end References

end ArktsServer
