import ArktsServer.Semantic.ReferencePacking

/-
  The batches of a plan: every path of the scope is a root of
  one batch behind the pinned paths, no batch is larger than
  the limit unless it is a unit of its own, and the project
  paths of a batch are those of a set of units that is closed
  under dependencies.  A suffix that is planned anew in the
  same mode does not grow.

  Key definitions include:
    * `Distinguished`
    * `BatchesPartition`

  Correctness is proven by:
    * `replan_units`, `replan_chunks`
    * `replan_length_le`
    * `batches_partition`
-/

namespace ArktsServer

namespace References

open UnixPath

section Planning

variable {Collation : Type} [LinearOrder Collation]
variable {host : PlannerHost Collation}
variable {context : SemanticUnitPlanningContext}

----------
-- Replanning
----------

/- Units that `localeCompare` tells apart. -/
def Distinguished
    (host : PlannerHost Collation)
    (graph : HarmonySemanticGraph) : Prop :=
  (graph.units.map fun unit =>
    host.collationKey unit.moduleName).Nodup

theorem drop_flatten
    {α : Type}
    (groups : List (List α))
    (count : Nat) :
    ∃ index,
      (groups.drop count).flatten =
        groups.flatten.drop index := by
  induction groups generalizing count with
  | nil => exact ⟨0, by simp⟩
  | cons group groups ih =>
    cases count with
    | zero => exact ⟨0, rfl⟩
    | succ count =>
      rcases ih count with ⟨index, hDrop⟩
      refine ⟨group.length + index, ?_⟩
      rw [List.drop_succ_cons, hDrop, List.flatten_cons,
        List.drop_append]
      simp

variable {filePath : FilePath}
variable {graph : HarmonySemanticGraph}

omit [LinearOrder Collation] in
theorem ownerName_mem
    {name : ModuleName}
    (hOwner : ownerName host graph filePath = some name) :
    ∃ unit ∈ graph.units, unit.moduleName = name := by
  rcases Option.map_eq_some_iff.mp hOwner with
    ⟨unit, hUnit, hModule⟩
  exact ⟨unit, (semanticUnitForPath_spec hUnit).1, hModule⟩

/- Told apart, the names are in strict order. -/
theorem NamesOf.strict
    {candidates : List FilePath}
    {names : List ModuleName}
    (hNames : NamesOf host graph candidates names)
    (hTies : Distinguished host graph) :
    names.Pairwise fun left right =>
      host.collationKey left < host.collationKey right := by
  have hBoth := hNames.sorted.and hNames.distinct
  refine hBoth.imp_of_mem ?_
  intro left right hLeft hRight hPair
  refine lt_of_le_of_ne hPair.1 ?_
  intro hSame
  rcases (hNames.mem_iff left).mp hLeft with
    ⟨_, _, hLeftOwner⟩
  rcases (hNames.mem_iff right).mp hRight with
    ⟨_, _, hRightOwner⟩
  rcases ownerName_mem hLeftOwner with
    ⟨first, hFirst, hFirstName⟩
  rcases ownerName_mem hRightOwner with
    ⟨second, hSecond, hSecondName⟩
  have hUnits : first = second :=
    List.inj_on_of_nodup_map hTies hFirst hSecond
      (by rw [hFirstName, hSecondName, hSame])
  apply hPair.2
  rw [← hFirstName, ← hSecondName, hUnits]

/- Fewer candidates of some units never need more batches. -/
theorem replan_units
    {candidates fewer : List FilePath}
    {names others : List ModuleName}
    {limit index : Nat}
    (hLimit : 1 ≤ limit)
    (hTies : Distinguished host graph)
    (hNames : NamesOf host graph candidates names)
    (hOthers : NamesOf host graph fewer others)
    (hDistinct : fewer.Nodup)
    (hFewer :
      ∀ filePath ∈ fewer,
        filePath ∈
          ((names.drop index).map
            (unitChunk host graph candidates)).flatMap
              CandidateChunk.paths) :
    (NextFit.packFrom limit pathCount []
        (others.map (unitChunk host graph fewer))).length ≤
      (NextFit.packFrom limit pathCount []
        ((names.drop index).map
          (unitChunk host graph candidates))).length := by
  have hMember : ∀ filePath ∈ fewer,
      filePath ∈ candidates ∧
        ∃ name ∈ names.drop index,
          ownerName host graph filePath = some name := by
    intro filePath hFile
    rcases List.mem_flatMap.mp (hFewer filePath hFile) with
      ⟨unit, hUnit, hPath⟩
    rcases List.mem_map.mp hUnit with ⟨name, hName, rfl⟩
    rcases mem_unitChunk_paths.mp hPath with ⟨hMem, hOwner⟩
    exact ⟨hMem, name, hName, hOwner⟩
  have hSubset : others ⊆ names.drop index := by
    intro name hName
    rcases (hOthers.mem_iff name).mp hName with
      ⟨filePath, hFile, hOwner⟩
    rcases (hMember filePath hFile).2 with
      ⟨other, hOther, hSame⟩
    rw [hOwner] at hSame
    injection hSame with hSame
    rw [hSame]
    exact hOther
  have hAnti :
      Std.Antisymm fun left right : ModuleName =>
        host.collationKey left < host.collationKey right :=
    ⟨fun _ _ hLess hMore => absurd hMore (lt_asymm hLess)⟩
  have hSublist : others.Sublist (names.drop index) :=
    List.sublist_of_subperm_of_pairwise
      (List.subperm_of_subset hOthers.distinct hSubset)
      (hOthers.strict hTies)
      ((hNames.strict hTies).sublist (List.drop_sublist _ _))
  have hSizes :
      List.SublistForall₂ (· ≤ ·)
        ((others.map (unitChunk host graph fewer)).map pathCount)
        (((names.drop index).map
          (unitChunk host graph candidates)).map pathCount) := by
    rw [List.sublistForall₂_iff]
    refine
      ⟨(others.map (unitChunk host graph candidates)).map
          pathCount, ?_,
        ((hSublist.map _).map _)⟩
    rw [List.map_map, List.map_map, List.forall₂_map_left_iff,
      List.forall₂_map_right_iff, List.forall₂_same]
    intro name _
    refine
      (List.subperm_of_subset (hDistinct.filter _) ?_).length_le
    intro filePath hPath
    rcases List.mem_filter.mp hPath with ⟨hFile, hOwner⟩
    exact List.mem_filter.mpr ⟨(hMember filePath hFile).1, hOwner⟩
  have hPositive : ∀ unit ∈
      (names.drop index).map (unitChunk host graph candidates),
      0 < pathCount unit := by
    intro unit hUnit
    refine hNames.pathCount_pos unit ?_
    exact ((List.drop_sublist index names).map _).subset hUnit
  have hNone :
      ([] : List CandidateChunk) = [] ↔
        NextFit.load pathCount [] = 0 :=
    ⟨fun _ => rfl, fun _ => rfl⟩
  rw [NextFit.length_packFrom hNone hOthers.pathCount_pos,
    NextFit.length_packFrom hNone hPositive]
  exact NextFit.groups_mono hLimit hSizes

----------
-- Plans
----------

/- The candidates of a plan. -/
def candidatesOf
    (host : PlannerHost Collation)
    (workspace : SemanticWorkspaceView)
    (membership : ProjectMembership)
    (candidatePaths : Option (List FilePath)) :
    List FilePath :=
  scopeCandidates host (pinnedPaths host workspace)
    membership.paths candidatePaths

def groupsOf
    (host : PlannerHost Collation)
    (workspace : SemanticWorkspaceView)
    (membership : ProjectMembership)
    (candidatePaths : Option (List FilePath))
    (semanticGraph : Option HarmonySemanticGraph) :
    Option
      (List CandidateChunk × SemanticUnitPlanningContext) :=
  semanticGroups host
    (candidatesOf host workspace membership candidatePaths)
    (pinnedPaths host workspace) membership.paths
    semanticGraph

variable {workspace : SemanticWorkspaceView}
variable {candidatePaths : Option (List FilePath)}
variable {membership : ProjectMembership}
variable {semanticGraph : Option HarmonySemanticGraph}

/- What the batches of a plan are made from. -/
theorem plan_spec
    {limit : Nat}
    {plan : ReferenceSearchPlan}
    (hMembership :
      workspace.projectMembership = some membership)
    (hPlan :
      planConservativeReferenceBatches host workspace limit
        candidatePaths semanticGraph = some plan) :
    plan.batches =
        planBatches (pinnedPaths host workspace)
          (planChunks host
            (candidatesOf host workspace membership
              candidatePaths)
            limit
            (groupsOf host workspace membership
              candidatePaths semanticGraph)) ∧
      (plan.semanticUnitMode = .projectGraph ↔
        (groupsOf host workspace membership candidatePaths
          semanticGraph).isSome) := by
  unfold planConservativeReferenceBatches at hPlan
  rw [hMembership] at hPlan
  rcases Option.bind_eq_some_iff.mp hPlan with
    ⟨found, hFound, hRest⟩
  injection hFound with hSame
  subst hSame
  split at hRest
  · cases hRest
  · injection hRest with hPlan
    rw [← hPlan]
    refine ⟨rfl, ?_⟩
    simp only
    constructor
    · intro hMode
      split at hMode
      · assumption
      · cases hMode
    · intro hGroups
      exact if_pos hGroups

/- A plan by units, or in chunks. -/
theorem groups_spec
    {units : List CandidateChunk}
    (hGroups :
      groupsOf host workspace membership candidatePaths
        semanticGraph = some (units, context)) :
    ∃ graph names,
      semanticGraph = some graph ∧
        NamesOf host graph
          (candidatesOf host workspace membership
            candidatePaths) names ∧
        units =
          names.map
            (unitChunk host graph
              (candidatesOf host workspace membership
                candidatePaths)) ∧
        context.graph = graph ∧
        context.membershipPaths =
          membership.paths.map (resolve host.cwd) ∧
        ∀ filePath ∈ pinnedPaths host workspace,
          ∃ name ∈ context.pinnedUnitNames,
            ownerName host graph filePath = some name := by
  unfold groupsOf semanticGroups at hGroups
  rcases Option.bind_eq_some_iff.mp hGroups with
    ⟨graph, hGraph, hRest⟩
  split at hRest
  · rcases groupCandidates_spec hRest with
      ⟨names, hNames, hUnits, hContext⟩
    exact ⟨graph, names, hGraph, hNames, hUnits, hContext⟩
  · cases hRest

variable {workspace : SemanticWorkspaceView}
variable {membership : ProjectMembership}

theorem shared_planChunks
    {limit : Nat}
    {candidatePaths : Option (List FilePath)}
    {semanticGraph : Option HarmonySemanticGraph}
    (hLimit : 1 ≤ limit)
    (hDistinct :
      (membership.paths.map (resolve host.cwd)).Nodup) :
    Shared host semanticGraph limit
      (candidatesOf host workspace membership candidatePaths)
      (planChunks host
        (candidatesOf host workspace membership
          candidatePaths)
        limit
        (groupsOf host workspace membership candidatePaths
          semanticGraph)) := by
  cases hGroups :
      groupsOf host workspace membership candidatePaths
        semanticGraph with
  | none => exact shared_chunkCandidates hLimit _ _
  | some groups =>
    rcases groups with ⟨units, context⟩
    rcases groups_spec hGroups with
      ⟨graph, names, hGraph, hNames, hUnits, _⟩
    rw [hUnits, hGraph]
    exact
      shared_packSemanticUnits hNames
        (nodup_scopeCandidates hDistinct)

variable {chunks : List CandidateChunk}
variable {pinned : List FilePath}

theorem mem_planBatches
    {batch : ReferenceBatch}
    (hBatch : batch ∈ planBatches pinned chunks) :
    (chunks = [] ∧
        batch =
          { index := 0
            rootPaths := pinned
            candidateRoots := 0
            semanticUnits := 0
            admittedProjectPaths := none }) ∨
      ∃ chunk ∈ chunks,
        batch.rootPaths = pinned ++ chunk.paths ∧
          batch.candidateRoots = chunk.paths.length ∧
          batch.semanticUnits = chunk.semanticUnits ∧
          batch.admittedProjectPaths =
            chunk.admittedProjectPaths := by
  unfold planBatches at hBatch
  split at hBatch
  · rename_i hNone
    unfold numberBatches at hNone
    rw [List.length_map, List.length_zipIdx] at hNone
    exact
      Or.inl
        ⟨List.eq_nil_of_length_eq_zero hNone,
          List.mem_singleton.mp hBatch⟩
  · unfold numberBatches at hBatch
    rcases List.mem_map.mp hBatch with ⟨entry, hEntry, rfl⟩
    refine Or.inr ⟨entry.1, ?_, rfl, rfl, rfl, rfl⟩
    have hMem := List.mem_map_of_mem (f := Prod.fst) hEntry
    rw [List.zipIdx_map_fst] at hMem
    exact hMem

theorem index_planBatches
    (pinned : List FilePath)
    (chunks : List CandidateChunk) :
    (planBatches pinned chunks).map ReferenceBatch.index =
      List.range (planBatches pinned chunks).length := by
  unfold planBatches
  split
  · rfl
  · unfold numberBatches
    rw [List.map_map, List.length_map, List.length_zipIdx,
      List.range_eq_range']
    exact List.zipIdx_map_snd 0 chunks

theorem length_planBatches
    (pinned : List FilePath)
    (hChunks : chunks ≠ []) :
    planBatches pinned chunks = numberBatches pinned chunks ∧
      (planBatches pinned chunks).length =
        chunks.length := by
  have hLength :
      (numberBatches pinned chunks).length = chunks.length := by
    unfold numberBatches
    rw [List.length_map, List.length_zipIdx]
  have hSome : chunks.length ≠ 0 := fun hZero =>
    hChunks (List.eq_nil_of_length_eq_zero hZero)
  unfold planBatches
  rw [if_neg (hLength ▸ hSome)]
  exact ⟨rfl, hLength⟩

theorem length_planBatches_le
    {bound : Nat}
    (hBound : 1 ≤ bound)
    (hChunks : chunks.length ≤ bound) :
    (planBatches pinned chunks).length ≤ bound := by
  by_cases hNil : chunks = []
  · rw [hNil]
    exact hBound
  · rw [(length_planBatches pinned hNil).2]
    exact hChunks

/- A path of distinct ones is in one chunk. -/
theorem countP_chunks
    (hDistinct :
      (chunks.flatMap CandidateChunk.paths).Nodup)
    (hPath :
      filePath ∈ chunks.flatMap CandidateChunk.paths) :
    chunks.countP (fun chunk => filePath ∈ chunk.paths) =
      1 := by
  induction chunks with
  | nil => cases hPath
  | cons chunk chunks ih =>
    rw [List.flatMap_cons] at hDistinct hPath
    rcases List.nodup_append.mp hDistinct with
      ⟨_, hLater, hApart⟩
    rw [List.countP_cons]
    by_cases hHere : filePath ∈ chunk.paths
    · have hNone :
          chunks.countP
              (fun chunk => filePath ∈ chunk.paths) =
            0 := by
        rw [List.countP_eq_zero]
        intro other hOther hMem
        exact
          hApart filePath hHere filePath
            (List.mem_flatMap.mpr
              ⟨other, hOther, of_decide_eq_true hMem⟩)
            rfl
      rw [hNone]
      simp [hHere]
    · rcases List.mem_append.mp hPath with hIn | hIn
      · exact absurd hIn hHere
      · rw [ih hLater hIn]
        simp [hHere]

theorem countP_planBatches
    (hFree : filePath ∉ pinned)
    (hDistinct :
      (chunks.flatMap CandidateChunk.paths).Nodup)
    (hPath :
      filePath ∈ chunks.flatMap CandidateChunk.paths) :
    (planBatches pinned chunks).countP
        (fun batch => filePath ∈ batch.rootPaths) =
      1 := by
  have hSome : chunks ≠ [] := by
    intro hNil
    rw [hNil] at hPath
    cases hPath
  rw [(length_planBatches pinned hSome).1]
  unfold numberBatches
  rw [List.countP_map]
  have hSame :
      ((fun batch : ReferenceBatch =>
          decide (filePath ∈ batch.rootPaths)) ∘
        fun entry : CandidateChunk × Nat =>
          ({ index := entry.2
             rootPaths := pinned ++ entry.1.paths
             candidateRoots := entry.1.paths.length
             semanticUnits := entry.1.semanticUnits
             admittedProjectPaths :=
              entry.1.admittedProjectPaths } :
            ReferenceBatch)) =
        (fun chunk : CandidateChunk =>
          decide (filePath ∈ chunk.paths)) ∘ Prod.fst := by
    funext entry
    simp [hFree]
  rw [hSame, ← List.countP_map, List.zipIdx_map_fst]
  exact countP_chunks hDistinct hPath

variable {count : Nat}

theorem mem_drop_planBatches
    {batch : ReferenceBatch}
    (hBatch : batch ∈ (planBatches pinned chunks).drop count) :
    batch.rootPaths = pinned ∨
      ∃ chunk ∈ chunks.drop count,
        batch.rootPaths = pinned ++ chunk.paths := by
  unfold planBatches at hBatch
  split at hBatch
  · have hMem := List.mem_of_mem_drop hBatch
    rw [List.mem_singleton.mp hMem]
    exact Or.inl rfl
  · unfold numberBatches at hBatch
    rw [← List.map_drop] at hBatch
    rcases List.mem_map.mp hBatch with ⟨entry, hEntry, rfl⟩
    refine Or.inr ⟨entry.1, ?_, rfl⟩
    have hMem := List.mem_map_of_mem (f := Prod.fst) hEntry
    rw [List.map_drop, List.zipIdx_map_fst] at hMem
    exact hMem

omit [LinearOrder Collation] in
/- What remains of a plan are the paths of its chunks. -/
theorem mem_remainingRoots
    (hResolved :
      ∀ chunk ∈ chunks, ∀ other ∈ chunk.paths,
        resolve host.cwd other = other)
    (hRoot :
      filePath ∈
        remainingRoots host workspace
          ((planBatches (pinnedPaths host workspace)
            chunks).drop count)) :
    filePath ∈
      (chunks.drop count).flatMap CandidateChunk.paths := by
  rcases mem_without.mp hRoot with ⟨hSet, hUnpinned⟩
  unfold uniquePaths at hSet
  rw [mem_unique] at hSet
  rcases List.mem_map.mp hSet with ⟨other, hOther, hSame⟩
  rcases List.mem_flatMap.mp hOther with
    ⟨batch, hBatch, hIn⟩
  have hPinned : other ∉ pinnedPaths host workspace := by
    intro hMem
    have hFixed : resolve host.cwd other = other := by
      unfold pinnedPaths at hMem
      rw [mem_unique] at hMem
      rcases List.mem_cons.mp hMem with rfl | hDocument
      · exact resolve_resolve _ _
      · rcases List.mem_map.mp hDocument with
          ⟨document, _, rfl⟩
        exact resolve_resolve _ _
    rw [hFixed] at hSame
    rw [← hSame] at hUnpinned
    exact hUnpinned hMem
  rcases mem_drop_planBatches hBatch with
    hOnly | ⟨chunk, hChunk, hRoots⟩
  · rw [hOnly] at hIn
    exact absurd hIn hPinned
  · rw [hRoots] at hIn
    have hPath := (List.mem_append.mp hIn).resolve_left hPinned
    have hFixed :=
      hResolved chunk (List.mem_of_mem_drop hChunk) other hPath
    rw [← hSame, hFixed]
    exact List.mem_flatMap.mpr ⟨chunk, hChunk, hPath⟩

theorem chunkCount_le
    {length limit count : Nat}
    (hLimit : 1 ≤ limit)
    (hLength : length ≤ count * limit) :
    chunkCount length limit ≤ count := by
  unfold chunkCount
  rw [Nat.div_le_iff_le_mul_add_pred hLimit, Nat.mul_comm]
  omega

theorem length_flatMap_le
    {limit : Nat}
    (hChunks :
      ∀ chunk ∈ chunks, chunk.paths.length ≤ limit) :
    (chunks.flatMap CandidateChunk.paths).length ≤
      chunks.length * limit := by
  induction chunks with
  | nil => exact Nat.zero_le _
  | cons chunk chunks ih =>
    rw [List.forall_mem_cons] at hChunks
    have hRest := ih hChunks.2
    rw [List.flatMap_cons, List.length_append,
      List.length_cons, Nat.succ_mul]
    omega

theorem suffix_units
    {units : List CandidateChunk}
    {limit : Nat}
    (count : Nat) :
    ∃ index,
      ((NextFit.packFrom limit pathCount [] units).drop
          count).flatten = units.drop index := by
  rcases drop_flatten
      (NextFit.packFrom limit pathCount [] units) count with
    ⟨index, hDrop⟩
  rw [NextFit.packFrom_flatten] at hDrop
  exact ⟨index, hDrop⟩

theorem resolved_candidates
    (hFile :
      filePath ∈
        candidatesOf host workspace membership
          candidatePaths) :
    resolve host.cwd filePath = filePath := by
  have hMember := (mem_scopeCandidates.mp hFile).1.1
  rcases List.mem_map.mp hMember with ⟨other, _, rfl⟩
  exact resolve_resolve _ _

/- Fewer chunks serve a part of the paths of some chunks. -/
theorem replan_chunks
    {limit count : Nat}
    {candidatePaths fewerPaths : Option (List FilePath)}
    {semanticGraph : Option HarmonySemanticGraph}
    (hLimit : 1 ≤ limit)
    (hDistinct :
      (membership.paths.map (resolve host.cwd)).Nodup)
    (hTies :
      ∀ graph ∈ semanticGraph, Distinguished host graph)
    (hMode :
      (groupsOf host workspace membership candidatePaths
          semanticGraph).isSome =
        (groupsOf host workspace membership fewerPaths
          semanticGraph).isSome)
    (hFewer :
      ∀ filePath ∈
          candidatesOf host workspace membership fewerPaths,
        filePath ∈
          ((planChunks host
            (candidatesOf host workspace membership
              candidatePaths)
            limit
            (groupsOf host workspace membership
              candidatePaths semanticGraph)).drop
                count).flatMap CandidateChunk.paths) :
    (planChunks host
        (candidatesOf host workspace membership fewerPaths)
        limit
        (groupsOf host workspace membership fewerPaths
          semanticGraph)).length ≤
      ((planChunks host
        (candidatesOf host workspace membership
          candidatePaths)
        limit
        (groupsOf host workspace membership candidatePaths
          semanticGraph)).drop count).length := by
  have hNodup :
      (candidatesOf host workspace membership fewerPaths).Nodup :=
    nodup_scopeCandidates hDistinct
  cases hGroups :
      groupsOf host workspace membership candidatePaths
        semanticGraph with
  | none =>
    rw [hGroups] at hMode hFewer
    have hNone :
        groupsOf host workspace membership fewerPaths
          semanticGraph = none := by
      rw [← Option.isNone_iff_eq_none,
        ← Option.not_isSome, ← hMode]
      rfl
    rw [hNone]
    change (chunkCandidates _ _).length ≤ _
    rw [length_chunkCandidates]
    refine chunkCount_le hLimit ?_
    refine Nat.le_trans ?_ (length_flatMap_le ?_)
    · exact (List.subperm_of_subset hNodup hFewer).length_le
    · intro chunk hChunk
      rcases List.mem_map.mp (List.mem_of_mem_drop hChunk)
        with ⟨index, _, rfl⟩
      exact List.length_take_le _ _
  | some groups =>
    rw [hGroups] at hMode hFewer
    rcases groups with ⟨units, context⟩
    rcases Option.isSome_iff_exists.mp hMode.symm with
      ⟨⟨others, later⟩, hOthers⟩
    rw [hOthers]
    rcases groups_spec hGroups with
      ⟨graph, names, hGraph, hNames, hUnits, _⟩
    rcases groups_spec hOthers with
      ⟨other, newNames, hOther, hNew, hNewUnits, _⟩
    rw [hGraph] at hOther
    injection hOther with hSame
    subst hSame
    have hPack :
        planChunks host
            (candidatesOf host workspace membership
              candidatePaths) limit (some (units, context)) =
          (NextFit.packFrom limit pathCount [] units).map
            (chunkOf host context) := by
      refine packSemanticUnits_eq ?_
      rw [hUnits]
      exact hNames.pathCount_pos
    have hNewPack :
        planChunks host
            (candidatesOf host workspace membership
              fewerPaths) limit (some (others, later)) =
          (NextFit.packFrom limit pathCount [] others).map
            (chunkOf host later) := by
      refine packSemanticUnits_eq ?_
      rw [hNewUnits]
      exact hNew.pathCount_pos
    rcases @suffix_units units limit count with
      ⟨index, hSuffix⟩
    rw [hPack] at hFewer
    rw [hPack, hNewPack, List.length_map, ← List.map_drop,
      List.length_map,
      ← NextFit.packFrom_suffix units count, hSuffix,
      hUnits, hNewUnits, ← List.map_drop]
    refine
      replan_units hLimit (hTies graph hGraph) hNames hNew
        hNodup ?_
    intro filePath hFile
    have hIn := hFewer filePath hFile
    rw [← List.map_drop, List.flatMap_map] at hIn
    change
      filePath ∈
        List.flatMap
          (fun group : List CandidateChunk =>
            group.flatMap CandidateChunk.paths) _ at hIn
    rw [flatMap_groups, hSuffix, hUnits, ← List.map_drop] at hIn
    exact hIn

----------
-- Partition
----------

/-
  What the batches of a plan are.  A batch with candidates
  has its project paths in a plan by units; the only batch of
  a plan without candidates has none.  A suffix is planned
  anew in the mode of its plan, with some path removed.
-/
structure BatchesPartition
    (host : PlannerHost Collation)
    (workspace : SemanticWorkspaceView)
    (membership : ProjectMembership)
    (limit : Nat)
    (candidatePaths : Option (List FilePath))
    (semanticGraph : Option HarmonySemanticGraph)
    (plan : ReferenceSearchPlan) : Prop where
  indices :
    plan.batches.map ReferenceBatch.index =
      List.range plan.batches.length
  pinned :
    ∀ batch ∈ plan.batches,
      ∀ filePath ∈ pinnedPaths host workspace,
        filePath ∈ batch.rootPaths
  once :
    ∀ filePath,
      InScope host membership.paths candidatePaths filePath →
        filePath ∉ pinnedPaths host workspace →
          plan.batches.countP
            (fun batch => filePath ∈ batch.rootPaths) = 1
  only :
    ∀ batch ∈ plan.batches,
      ∀ filePath ∈ batch.rootPaths,
        filePath ∈ pinnedPaths host workspace ∨
          InScope host membership.paths candidatePaths filePath
  counted :
    ∀ batch ∈ plan.batches,
      batch.candidateRoots =
        batch.rootPaths.countP
          fun filePath => filePath ∉ pinnedPaths host workspace
  fits :
    ∀ batch ∈ plan.batches,
      batch.candidateRoots ≤ limit ∨
        batch.semanticUnits = 1 ∧
          ∃ graph name,
            semanticGraph = some graph ∧
              ∀ filePath ∈ batch.rootPaths,
                filePath ∈ pinnedPaths host workspace ∨
                  ownerName host graph filePath = some name
  admitted :
    plan.semanticUnitMode = .projectGraph →
      ∃ graph, semanticGraph = some graph ∧
        ∀ batch ∈ plan.batches, 0 < batch.candidateRoots →
          ∃ names admitted,
            batch.admittedProjectPaths = some admitted ∧
              admitted =
                pathsOfUnits host graph.units names
                  (membership.paths.map (resolve host.cwd)) ∧
              ClosedUnits graph names ∧
              ∀ filePath ∈ batch.rootPaths,
                filePath ∈
                    membership.paths.map (resolve host.cwd) →
                  filePath ∈ admitted ∧
                    ∃ name ∈ names,
                      ownerName host graph filePath = some name
  replanned :
    ∀ (count : Nat)
      (removed : List FilePath)
      (again : ReferenceSearchPlan),
      (∀ graph ∈ semanticGraph, Distinguished host graph) →
        planConservativeReferenceBatches host workspace limit
            (some
              ((remainingRoots host workspace
                (plan.batches.drop count)).filter
                  fun filePath => filePath ∉ removed))
            semanticGraph = some again →
        again.semanticUnitMode = plan.semanticUnitMode →
        (∃ filePath ∈
            remainingRoots host workspace
              (plan.batches.drop count),
          filePath ∈ removed) →
          again.batches.length ≤
            (plan.batches.drop count).length

theorem replan_length_le
    {limit count : Nat}
    {plan again : ReferenceSearchPlan}
    {removed : List FilePath}
    (hLimit : 1 ≤ limit)
    (hMembership :
      workspace.projectMembership = some membership)
    (hDistinct :
      (membership.paths.map (resolve host.cwd)).Nodup)
    (hTies :
      ∀ graph ∈ semanticGraph, Distinguished host graph)
    (hPlan :
      planConservativeReferenceBatches host workspace limit
        candidatePaths semanticGraph = some plan)
    (hAgain :
      planConservativeReferenceBatches host workspace limit
        (some
          ((remainingRoots host workspace
            (plan.batches.drop count)).filter
              fun filePath => filePath ∉ removed))
        semanticGraph = some again)
    (hMode :
      again.semanticUnitMode = plan.semanticUnitMode)
    (hRemoved :
      ∃ filePath ∈
          remainingRoots host workspace
            (plan.batches.drop count),
        filePath ∈ removed) :
    again.batches.length ≤
      (plan.batches.drop count).length := by
  rcases plan_spec hMembership hPlan with
    ⟨hBatches, hPlanMode⟩
  rcases plan_spec hMembership hAgain with
    ⟨hNewBatches, hNewMode⟩
  have hShared :=
    @shared_planChunks _ _ host workspace membership limit
      candidatePaths semanticGraph hLimit hDistinct
  have hResolved : ∀ chunk ∈
      planChunks host
        (candidatesOf host workspace membership candidatePaths)
        limit
        (groupsOf host workspace membership candidatePaths
          semanticGraph),
      ∀ other ∈ chunk.paths,
        resolve host.cwd other = other := by
    intro chunk hChunk other hOther
    refine resolved_candidates (hShared.perm.mem_iff.mp ?_)
    exact List.mem_flatMap.mpr ⟨chunk, hChunk, hOther⟩
  have hLength := hRemoved
  rw [hBatches] at hLength
  rcases hLength with ⟨lost, hLost, _⟩
  rcases List.mem_flatMap.mp
      (mem_remainingRoots hResolved hLost) with
    ⟨chunk, hChunk, _⟩
  have hSome := List.ne_nil_of_mem (List.mem_of_mem_drop hChunk)
  have hDropped := List.length_pos_of_mem hChunk
  have hChunks :=
    @replan_chunks _ _ host workspace membership limit count
      candidatePaths
      (some
        ((remainingRoots host workspace
          (plan.batches.drop count)).filter
            fun filePath => filePath ∉ removed))
      semanticGraph hLimit hDistinct hTies ?_ ?_
  · have hOld := congrArg List.length hBatches
    rw [(length_planBatches _ hSome).2] at hOld
    rw [List.length_drop] at hChunks hDropped
    rw [hNewBatches, List.length_drop, hOld]
    exact length_planBatches_le hDropped hChunks
  · rw [Bool.eq_iff_iff, ← hPlanMode, ← hNewMode, hMode]
  · intro filePath hFile
    have hScope := (mem_scopeCandidates.mp hFile).1.2 _ rfl
    rcases List.mem_map.mp hScope with ⟨other, hOther, hSame⟩
    have hRoot := (List.mem_filter.mp hOther).1
    rw [hBatches] at hRoot
    have hIn := mem_remainingRoots hResolved hRoot
    rcases List.mem_flatMap.mp hIn with
      ⟨holder, hHolder, hPath⟩
    have hFixed :=
      hResolved holder (List.mem_of_mem_drop hHolder) other hPath
    rw [← hSame, hFixed]
    exact hIn

theorem admitted_partition
    {limit : Nat}
    {candidatePaths : Option (List FilePath)}
    {semanticGraph : Option HarmonySemanticGraph}
    {units : List CandidateChunk}
    (hGroups :
      groupsOf host workspace membership candidatePaths
        semanticGraph = some (units, context)) :
    ∃ graph, semanticGraph = some graph ∧
      ∀ chunk ∈ packSemanticUnits host units limit context,
        ∃ names admitted,
          chunk.admittedProjectPaths = some admitted ∧
            admitted =
              pathsOfUnits host graph.units names
                (membership.paths.map (resolve host.cwd)) ∧
            ClosedUnits graph names ∧
            ∀ filePath,
              filePath ∈ pinnedPaths host workspace ∨
                  filePath ∈ chunk.paths →
                filePath ∈
                    membership.paths.map (resolve host.cwd) →
                  filePath ∈ admitted ∧
                    ∃ name ∈ names,
                      ownerName host graph filePath =
                        some name := by
  rcases groups_spec hGroups with
    ⟨graph, names, hGraph, hNames, hUnits, hContext, hPaths,
      hPinned⟩
  refine ⟨graph, hGraph, ?_⟩
  intro chunk hChunk
  rw [packSemanticUnits_eq
    (hUnits ▸ hNames.pathCount_pos)] at hChunk
  rcases List.mem_map.mp hChunk with ⟨group, hGroup, rfl⟩
  rcases @admitted_spec _ host context
      (context.pinnedUnitNames
        ++ group.flatMap CandidateChunk.unitNames) with
    ⟨closed, hAdmitted, hClosed, hSeeds⟩
  rw [hContext] at hAdmitted hClosed hSeeds
  rw [hPaths] at hAdmitted
  refine ⟨closed, _, rfl, hAdmitted, hClosed, ?_⟩
  intro filePath hRoot hMember
  -- The unit of every root is one of the seeds.
  have hOwner : ∃ name ∈
      context.pinnedUnitNames
        ++ group.flatMap CandidateChunk.unitNames,
      ownerName host graph filePath = some name := by
    rcases hRoot with hPin | hPath
    · rcases hPinned filePath hPin with ⟨name, hName, hOwner⟩
      exact ⟨name, List.mem_append_left _ hName, hOwner⟩
    · rcases List.mem_flatMap.mp hPath with
        ⟨unit, hUnit, hIn⟩
      have hAll :
          unit ∈
            (NextFit.packFrom limit pathCount [] units).flatten :=
        List.mem_flatten.mpr ⟨group, hGroup, hUnit⟩
      rw [NextFit.packFrom_flatten, List.nil_append,
        hUnits] at hAll
      rcases List.mem_map.mp hAll with ⟨name, _, rfl⟩
      refine
        ⟨name, List.mem_append_right _ ?_,
          (mem_unitChunk_paths.mp hIn).2⟩
      exact
        List.mem_flatMap.mpr
          ⟨_, hUnit, List.mem_singleton.mpr rfl⟩
  rcases hOwner with ⟨name, hSeed, hOwner⟩
  rcases ownerName_mem hOwner with ⟨unit, hMem, hModule⟩
  have hKnown : (unitNamed graph.units name).isSome := by
    rw [← hModule, unitNamed_of_mem hMem]
    rfl
  have hName := hSeeds name hSeed hKnown
  refine ⟨?_, name, hName, hOwner⟩
  rw [hAdmitted]
  exact mem_pathsOfUnits hMember hOwner hName

theorem batches_partition
    (host : PlannerHost Collation)
    (workspace : SemanticWorkspaceView)
    (membership : ProjectMembership)
    (limit : Nat)
    (candidatePaths : Option (List FilePath))
    (semanticGraph : Option HarmonySemanticGraph)
    (hLimit : 1 ≤ limit)
    (hMembership :
      workspace.projectMembership = some membership)
    (hComplete : membership.status = .complete)
    (hDistinct :
      (membership.paths.map (resolve host.cwd)).Nodup) :
    ∃ plan,
      planConservativeReferenceBatches host workspace limit
          candidatePaths semanticGraph = some plan ∧
        BatchesPartition host workspace membership limit
          candidatePaths semanticGraph plan := by
  have hSome :
      (planConservativeReferenceBatches host workspace limit
        candidatePaths semanticGraph).isSome := by
    unfold planConservativeReferenceBatches
    simp [hMembership, hComplete]
  rcases Option.isSome_iff_exists.mp hSome with ⟨plan, hPlan⟩
  refine ⟨plan, hPlan, ?_⟩
  rcases plan_spec hMembership hPlan with ⟨hBatches, hMode⟩
  have hShared :=
    @shared_planChunks _ _ host workspace membership limit
      candidatePaths semanticGraph hLimit hDistinct
  have hScope : ∀ filePath,
      filePath ∈
          (planChunks host
            (candidatesOf host workspace membership
              candidatePaths)
            limit
            (groupsOf host workspace membership
              candidatePaths semanticGraph)).flatMap
                CandidateChunk.paths ↔
        InScope host membership.paths candidatePaths filePath ∧
          filePath ∉ pinnedPaths host workspace := by
    intro filePath
    rw [hShared.perm.mem_iff]
    exact mem_scopeCandidates
  have hNodup := hShared.perm.nodup_iff.mpr
    (nodup_scopeCandidates hDistinct)
  have hFree : ∀ chunk ∈
      planChunks host
        (candidatesOf host workspace membership
          candidatePaths)
        limit
        (groupsOf host workspace membership candidatePaths
          semanticGraph),
      ∀ filePath ∈ chunk.paths,
        InScope host membership.paths candidatePaths filePath ∧
          filePath ∉ pinnedPaths host workspace :=
    fun chunk hChunk filePath hPath =>
      (hScope filePath).mp
        (List.mem_flatMap.mpr ⟨chunk, hChunk, hPath⟩)
  refine
    { indices := ?_
      pinned := ?_
      once := ?_
      only := ?_
      counted := ?_
      fits := ?_
      admitted := ?_
      replanned := ?_ }
  · rw [hBatches]
    exact index_planBatches _ _
  · intro batch hBatch filePath hPin
    rw [hBatches] at hBatch
    rcases mem_planBatches hBatch with
      ⟨_, rfl⟩ | ⟨chunk, _, hRoots, _⟩
    · exact hPin
    · rw [hRoots]
      exact List.mem_append_left _ hPin
  · intro filePath hIn hUnpinned
    rw [hBatches]
    exact
      countP_planBatches hUnpinned hNodup
        ((hScope filePath).mpr ⟨hIn, hUnpinned⟩)
  · intro batch hBatch filePath hRoot
    rw [hBatches] at hBatch
    rcases mem_planBatches hBatch with
      ⟨_, rfl⟩ | ⟨chunk, hChunk, hRoots, _⟩
    · exact Or.inl hRoot
    · rw [hRoots] at hRoot
      rcases List.mem_append.mp hRoot with hPin | hPath
      · exact Or.inl hPin
      · exact Or.inr (hFree chunk hChunk filePath hPath).1
  · intro batch hBatch
    have hNone :
        (pinnedPaths host workspace).countP
            (fun filePath =>
              filePath ∉ pinnedPaths host workspace) = 0 := by
      rw [List.countP_eq_zero]
      intro filePath hPin hOut
      exact of_decide_eq_true hOut hPin
    rw [hBatches] at hBatch
    rcases mem_planBatches hBatch with
      ⟨_, rfl⟩ | ⟨chunk, hChunk, hRoots, hCount, _⟩
    · exact hNone.symm
    · rw [hRoots, hCount, List.countP_append, hNone,
        Nat.zero_add, eq_comm, List.countP_eq_length]
      intro filePath hPath
      exact
        decide_eq_true (hFree chunk hChunk filePath hPath).2
  · intro batch hBatch
    rw [hBatches] at hBatch
    rcases mem_planBatches hBatch with
      ⟨_, rfl⟩ | ⟨chunk, hChunk, hRoots, hCount, hUnits, _⟩
    · exact Or.inl (Nat.zero_le _)
    · rw [hRoots, hCount, hUnits]
      rcases hShared.fits chunk hChunk with
        hLess | ⟨hOne, graph, name, hGraph, hOwner⟩
      · exact Or.inl hLess
      · refine Or.inr ⟨hOne, graph, name, hGraph, ?_⟩
        intro filePath hRoot
        rcases List.mem_append.mp hRoot with hPin | hPath
        · exact Or.inl hPin
        · exact Or.inr (hOwner filePath hPath)
  · intro hProject
    rcases Option.isSome_iff_exists.mp (hMode.mp hProject) with
      ⟨⟨units, context⟩, hGroups⟩
    rcases @admitted_partition _ _ host context workspace
        membership limit candidatePaths semanticGraph units
        hGroups with ⟨graph, hGraph, hChunks⟩
    refine ⟨graph, hGraph, ?_⟩
    intro batch hBatch hPositive
    rw [hBatches, hGroups] at hBatch
    rcases mem_planBatches hBatch with
      ⟨_, rfl⟩ | ⟨chunk, hChunk, hRoots, _, _, hPaths⟩
    · exact absurd hPositive (Nat.lt_irrefl 0)
    · rcases hChunks chunk hChunk with
        ⟨names, admitted, hAdmitted, hSame, hClosed, hAll⟩
      refine
        ⟨names, admitted, hPaths.trans hAdmitted, hSame,
          hClosed, ?_⟩
      intro filePath hRoot
      rw [hRoots] at hRoot
      exact hAll filePath (List.mem_append.mp hRoot)
  · intro count removed again hTies hAgain hModes hRemoved
    exact
      replan_length_le hLimit hMembership hDistinct hTies
        hPlan hAgain hModes hRemoved

end Planning

----------
-- Samples
----------

/- An accented letter is a letter with a combining accent. -/
def decomposed (char : Char) : List Nat :=
  if char.toNat = 0xe9 then [0x65, 0x301] else [char.toNat]

/-
  The order of short lower-case texts, which knows canonical
  equivalents as `localeCompare` does.
-/
def sampleHost : PlannerHost Nat :=
  { cwd := ['/']
    collationKey := fun text =>
      ((text.flatMap decomposed ++ List.replicate 8 0).take
        8).foldl (fun key code => key * 2048 + code) 0 }

def sampleUnit (name : Char) : HarmonySemanticUnit :=
  { moduleName := [name]
    moduleRoot := ['/', name]
    dependencies := [] }

def sampleGraph : HarmonySemanticGraph :=
  { status := .ready
    complete := true
    units := ['a', 'b', 'c', 'd'].map sampleUnit
    distinct := by decide }

def sampleMembership : ProjectMembership :=
  { paths :=
      [['/', '1'], ['/', '2'], ['/', '3'],
        ['/', 'a', '/', '1'], ['/', 'a', '/', '2'],
        ['/', 'a', '/', '3'], ['/', 'b', '/', '1'],
        ['/', 'b', '/', '2'], ['/', 'c', '/', '1'],
        ['/', 'c', '/', '2'], ['/', 'd', '/', '1'],
        ['/', 'd', '/', '2']]
    status := .complete }

/- Two nested modules whose names are canonical equivalents. -/
def accentedGraph : HarmonySemanticGraph :=
  { status := .ready
    complete := true
    units :=
      [sampleUnit 'a',
        { moduleName := [Char.ofNat 0xe9]
          moduleRoot := ['/', 'm']
          dependencies := [] },
        { moduleName := ['e', Char.ofNat 0x301]
          moduleRoot := ['/', 'm', '/', 'n']
          dependencies := [] },
        sampleUnit 'z']
    distinct := by decide }

def accentedMembership : ProjectMembership :=
  { paths :=
      [['/', 'a', '/', '1'], ['/', 'm', '/', 'a'],
        ['/', 'm', '/', 'n', '/', '1'],
        ['/', 'm', '/', 'n', '/', '2'],
        ['/', 'm', '/', 'x'], ['/', 'm', '/', 'y'],
        ['/', 'm', '/', 'z'], ['/', 'z', '/', '1'],
        ['/', 'z', '/', '2']]
    status := .complete }

def sampleWorkspace
    (membership : ProjectMembership) :
    SemanticWorkspaceView :=
  { rootPath := ['/']
    statePath := ['/', 'a', '/', 'q']
    documents := []
    projectMembership := some membership }

/- A part of the members is partitioned, too. -/
theorem sample_partition :
    ∃ plan,
      planConservativeReferenceBatches sampleHost
          (sampleWorkspace sampleMembership) 3 none
          (some sampleGraph) = some plan ∧
        BatchesPartition sampleHost
          (sampleWorkspace sampleMembership) sampleMembership 3
          none (some sampleGraph) plan :=
  batches_partition sampleHost
    (sampleWorkspace sampleMembership) sampleMembership 3 none
    (some sampleGraph) (by decide) rfl rfl (by decide)

/- The batches of a suffix, before and after replanning. -/
def replannedLengths
    (membership : ProjectMembership)
    (graph : HarmonySemanticGraph)
    (limit : Nat)
    (removed : FilePath) : Option (Nat × Nat) := do
  let plan ←
    planConservativeReferenceBatches sampleHost
      (sampleWorkspace membership) limit none (some graph)
  let remaining :=
    remainingRoots sampleHost (sampleWorkspace membership)
      (plan.batches.drop 1)
  let again ←
    planConservativeReferenceBatches sampleHost
      (sampleWorkspace membership) limit
      (some (remaining.filter (fun other => other ≠ removed)))
      (some graph)
  pure ((plan.batches.drop 1).length, again.batches.length)

/-
  Three members are outside of all units, so the plan is cut
  into chunks.  The ones after the first chunk are in units,
  and without one of them they take four batches instead of
  three.  Units whose names compare equal are taken in the
  order of their first candidates, and without one of these
  they are packed anew.  And without candidates a batch of a
  plan by units admits no project paths, not even its root.
-/
theorem replanning_adds_batches :
    replannedLengths sampleMembership sampleGraph 3
        ['/', 'a', '/', '3'] = some (3, 4) ∧
      replannedLengths accentedMembership accentedGraph 4
        ['/', 'm', '/', 'a'] = some (2, 3) ∧
      (planConservativeReferenceBatches sampleHost
          (sampleWorkspace
            ⟨[['/', 'a', '/', 'q']], .complete⟩) 3 none
          (some sampleGraph)).map
        (fun plan => (plan.semanticUnitMode, plan.batches)) =
        some
          (.projectGraph,
            [{ index := 0
               rootPaths := [['/', 'a', '/', 'q']]
               candidateRoots := 0
               semanticUnits := 0
               admittedProjectPaths := none }]) := by
  refine ⟨?_, ?_, ?_⟩
  · decide +kernel
  · decide +kernel
  · decide +kernel

end References

end ArktsServer
