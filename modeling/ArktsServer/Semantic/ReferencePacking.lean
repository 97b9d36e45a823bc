import ArktsServer.Semantic.ReferenceUnits

/-
  The chunks of a plan: the packing of whole units as the
  next fit of their sizes, the project paths that a chunk
  admits, and how the chunks share the candidates out.

  Key definitions include:
    * `chunkOf`, `packingOf`
    * `ClosedUnits`
    * `Shared`

  Correctness is proven by:
    * `packSemanticUnits_eq`
    * `admitted_spec`, `mem_pathsOfUnits`
    * `shared_chunkCandidates`
    * `shared_packSemanticUnits`
-/

namespace ArktsServer

namespace References

open UnixPath

section Planning

variable {Collation : Type} [LinearOrder Collation]
variable {host : PlannerHost Collation}

----------
-- Packing
----------

/- A batch of whole units. -/
def chunkOf
    (host : PlannerHost Collation)
    (context : SemanticUnitPlanningContext)
    (group : List CandidateChunk) :
    CandidateChunk :=
  { paths := group.flatMap CandidateChunk.paths
    semanticUnits := group.length
    admittedProjectPaths :=
      some
        (admittedDependencyClosurePaths host
          (context.pinnedUnitNames
            ++ group.flatMap CandidateChunk.unitNames)
          context) }

/- The state of the packing with some open units. -/
def packingOf
    (batches : List CandidateChunk)
    (opened : List CandidateChunk) :
    Packing :=
  { batches := batches
    paths := opened.flatMap CandidateChunk.paths
    unitNames := opened.flatMap CandidateChunk.unitNames
    semanticUnits := opened.length }

def pathCount (unit : CandidateChunk) : Nat :=
  unit.paths.length

theorem length_paths (opened : List CandidateChunk) :
    (opened.flatMap CandidateChunk.paths).length =
      NextFit.load pathCount opened := by
  induction opened with
  | nil => rfl
  | cons unit opened ih =>
    rw [List.flatMap_cons, List.length_append, ih]
    rfl

/- Units with paths make a load. -/
theorem load_eq_zero_iff
    {opened : List CandidateChunk}
    (hSome : ∀ unit ∈ opened, 0 < pathCount unit) :
    opened = [] ↔ NextFit.load pathCount opened = 0 := by
  cases opened with
  | nil => exact ⟨fun _ => rfl, fun _ => rfl⟩
  | cons unit opened =>
    rw [List.forall_mem_cons] at hSome
    rw [NextFit.load]
    constructor
    · intro hNil
      cases hNil
    · intro hZero
      exact absurd hSome.1 (by omega)

variable {context : SemanticUnitPlanningContext}

variable {batches opened : List CandidateChunk}

omit [LinearOrder Collation] in
theorem flush_packingOf
    (hSome : ∀ unit ∈ opened, 0 < pathCount unit) :
    (packingOf batches opened).flush host context =
      if opened.isEmpty then
        packingOf batches []
      else
        packingOf (batches ++ [chunkOf host context opened])
          [] := by
  unfold Packing.flush
  have hLength :
      (packingOf batches opened).paths.length =
        NextFit.load pathCount opened :=
    length_paths opened
  rw [hLength]
  cases opened with
  | nil => rfl
  | cons unit opened =>
    have hLoad :
        NextFit.load pathCount (unit :: opened) ≠ 0 :=
      fun hZero =>
        List.cons_ne_nil _ _ ((load_eq_zero_iff hSome).mpr hZero)
    rw [if_neg hLoad]
    rfl

/- A unit behind the open ones. -/
theorem push_packingOf
    (batches opened : List CandidateChunk)
    (unit : CandidateChunk) :
    (packingOf batches opened).push unit =
      packingOf batches (opened ++ [unit]) := by
  unfold packingOf Packing.push
  simp

variable {limit : Nat}
variable {unit : CandidateChunk}

omit [LinearOrder Collation] in
/- The end of a step: a full batch is flushed. -/
theorem close_packingOf
    (hGrown :
      ∀ other ∈ opened ++ [unit], 0 < pathCount other) :
    (if limit ≤
          (packingOf batches (opened ++ [unit])).paths.length
        then
          (packingOf batches (opened ++ [unit])).flush
            host context
        else
          packingOf batches (opened ++ [unit])) =
      if limit ≤
          NextFit.load pathCount opened + pathCount unit then
        packingOf
          (batches ++
            [chunkOf host context (opened ++ [unit])]) []
      else
        packingOf batches (opened ++ [unit]) := by
  have hLength :
      (packingOf batches (opened ++ [unit])).paths.length =
        NextFit.load pathCount opened + pathCount unit := by
    change
      ((opened ++ [unit]).flatMap CandidateChunk.paths).length = _
    rw [length_paths, NextFit.load_append]
    rfl
  have hOpen : (opened ++ [unit]).isEmpty = false := by
    cases opened <;> rfl
  rw [hLength, flush_packingOf hGrown, hOpen]
  rfl

omit [LinearOrder Collation] in
theorem add_packingOf
    (hOpened : ∀ other ∈ opened, 0 < pathCount other)
    (hUnit : 0 < pathCount unit) :
    Packing.add host limit context (packingOf batches opened)
        unit =
      if ¬ opened.isEmpty
          ∧ limit <
            NextFit.load pathCount opened + pathCount unit then
        if limit ≤ pathCount unit then
          packingOf
            (batches ++ [chunkOf host context opened]
              ++ [chunkOf host context [unit]]) []
        else
          packingOf
            (batches ++ [chunkOf host context opened]) [unit]
      else if limit ≤
          NextFit.load pathCount opened + pathCount unit then
        packingOf
          (batches ++
            [chunkOf host context (opened ++ [unit])]) []
      else
        packingOf batches (opened ++ [unit]) := by
  have hSome :
      0 < (packingOf batches opened).paths.length ↔
        ¬ opened.isEmpty = true := by
    change 0 < (opened.flatMap CandidateChunk.paths).length ↔ _
    rw [length_paths, List.isEmpty_iff, load_eq_zero_iff hOpened]
    exact Nat.pos_iff_ne_zero
  have hLength :
      (packingOf batches opened).paths.length =
        NextFit.load pathCount opened :=
    length_paths opened
  have hGrown :
      ∀ other ∈ opened ++ [unit], 0 < pathCount other := by
    intro other hOther
    rcases List.mem_append.mp hOther with hOld | hNew
    · exact hOpened other hOld
    · rw [List.mem_singleton.mp hNew]
      exact hUnit
  have hSingle :
      ∀ other ∈ [] ++ [unit], 0 < pathCount other := by
    intro other hOther
    rw [List.mem_singleton.mp hOther]
    exact hUnit
  unfold Packing.add
  rw [hLength]
  by_cases hOver :
      ¬ opened.isEmpty = true ∧
        limit < NextFit.load pathCount opened + pathCount unit
  · have hFlushed :
        (packingOf batches opened).flush host context =
          packingOf (batches ++ [chunkOf host context opened])
            [] := by
      rw [flush_packingOf hOpened, if_neg hOver.1]
    have hStart :
        0 < NextFit.load pathCount opened ∧
          limit <
            NextFit.load pathCount opened + unit.paths.length :=
      ⟨hLength ▸ hSome.mpr hOver.1, hOver.2⟩
    simp only [if_pos hOver, if_pos hStart, hFlushed]
    rw [push_packingOf, close_packingOf hSingle]
    simp only [NextFit.load, Nat.zero_add, List.nil_append]
  · have hStart :
        ¬ (0 < NextFit.load pathCount opened ∧
          limit <
            NextFit.load pathCount opened
              + unit.paths.length) := fun hBoth =>
      hOver ⟨hSome.mp (hLength.symm ▸ hBoth.1), hBoth.2⟩
    simp only [if_neg hOver, if_neg hStart]
    rw [push_packingOf, close_packingOf hGrown]

omit [LinearOrder Collation] in
/- The packing of the source is the next fit of its units. -/
theorem foldl_add
    {batches opened units : List CandidateChunk}
    (hOpened : ∀ unit ∈ opened, 0 < pathCount unit)
    (hUnits : ∀ unit ∈ units, 0 < pathCount unit) :
    ((units.foldl (Packing.add host limit context)
        (packingOf batches opened)).flush
          host context).batches =
      batches ++
        (NextFit.packFrom limit pathCount opened units).map
          (chunkOf host context) := by
  induction units generalizing batches opened with
  | nil =>
    rw [List.foldl_nil, flush_packingOf hOpened]
    unfold NextFit.packFrom
    split
    · exact (List.append_nil _).symm
    · rfl
  | cons unit units ih =>
    rw [List.forall_mem_cons] at hUnits
    have hNone :
        ∀ unit ∈ ([] : List CandidateChunk),
          0 < pathCount unit :=
      fun _ hMem => by cases hMem
    have hSingle : ∀ other ∈ [unit], 0 < pathCount other :=
      fun other hOther => by
        rw [List.mem_singleton.mp hOther]
        exact hUnits.1
    have hGrown :
        ∀ other ∈ opened ++ [unit], 0 < pathCount other := by
      intro other hOther
      rcases List.mem_append.mp hOther with hOld | hNew
      · exact hOpened other hOld
      · exact hSingle other hNew
    rw [List.foldl_cons, add_packingOf hOpened hUnits.1,
      NextFit.packFrom]
    split
    · split
      · rw [ih hNone hUnits.2, List.append_assoc,
          List.append_assoc]
        rfl
      · rw [ih hSingle hUnits.2, List.append_assoc]
        rfl
    · split
      · rw [ih hNone hUnits.2, List.append_assoc]
        rfl
      · exact ih hGrown hUnits.2

omit [LinearOrder Collation] in
theorem packSemanticUnits_eq
    {units : List CandidateChunk}
    (hUnits : ∀ unit ∈ units, 0 < pathCount unit) :
    packSemanticUnits host units limit context =
      (NextFit.packFrom limit pathCount [] units).map
        (chunkOf host context) := by
  have hStart : packingOf [] [] = {} := rfl
  unfold packSemanticUnits
  rw [← hStart, foldl_add _ hUnits]
  · rfl
  · intro unit hUnit
    cases hUnit

----------
-- Admission
----------

/- A set of units with the units they depend on. -/
def ClosedUnits
    (graph : HarmonySemanticGraph)
    (names : List ModuleName) : Prop :=
  ∀ name ∈ names, ∀ unit,
    unitNamed graph.units name = some unit →
      ∀ dependency ∈ unit.dependencies,
        (unitNamed graph.units dependency).isSome →
          dependency ∈ names

theorem lookup_dependencyTable
    (units : List HarmonySemanticUnit)
    (name : ModuleName) :
    Worklist.lookup (dependencyTable units) name =
      (unitNamed units name).map
        HarmonySemanticUnit.dependencies := by
  unfold Worklist.lookup dependencyTable unitNamed
  rw [← List.map_reverse, List.find?_map, Option.map_map]
  rfl

theorem isSome_lookup
    (units : List HarmonySemanticUnit)
    (name : ModuleName) :
    (Worklist.lookup (dependencyTable units) name).isSome =
      (unitNamed units name).isSome := by
  rw [lookup_dependencyTable, Option.isSome_map]

variable {graph : HarmonySemanticGraph}
variable {unit : HarmonySemanticUnit}

theorem unitNamed_of_mem
    (hUnit : unit ∈ graph.units) :
    unitNamed graph.units unit.moduleName = some unit := by
  have hMem : unit ∈ graph.units.reverse :=
    List.mem_reverse.mpr hUnit
  have hDistinct :
      (graph.units.reverse.map
        HarmonySemanticUnit.moduleName).Nodup := by
    rw [List.map_reverse, List.nodup_reverse]
    exact graph.distinct
  unfold unitNamed
  generalize graph.units.reverse = units at hMem hDistinct
  induction units with
  | nil => cases hMem
  | cons first units ih =>
    rw [List.map_cons, List.nodup_cons] at hDistinct
    rcases List.mem_cons.mp hMem with rfl | hLater
    · exact List.find?_cons_of_pos (decide_eq_true rfl)
    · have hOther : first.moduleName ≠ unit.moduleName := by
        intro hSame
        rw [hSame] at hDistinct
        exact hDistinct.1 (List.mem_map_of_mem hLater)
      rw [List.find?_cons_of_neg (by simpa using hOther)]
      exact ih hLater hDistinct.2

omit [LinearOrder Collation] in
/- The owner of a path is a unit of the graph around it. -/
theorem semanticUnitForPath_spec
    {filePath : FilePath}
    (hOwner :
      semanticUnitForPath host graph filePath = some unit) :
    unit ∈ graph.units ∧
      inside host unit.moduleRoot filePath = true := by
  unfold semanticUnitForPath at hOwner
  have hFold : ∀ (units : List HarmonySemanticUnit)
      (owner : Option HarmonySemanticUnit),
      (∀ other ∈ units, other ∈ graph.units) →
      (∀ other ∈ owner, other ∈ graph.units ∧
        inside host other.moduleRoot filePath = true) →
      units.foldl
          (fun owner unit =>
            if inside host unit.moduleRoot filePath
                && owner.all (fun other =>
                  stringLength other.moduleRoot
                    < stringLength unit.moduleRoot) then
              some unit
            else owner) owner = some unit →
        unit ∈ graph.units ∧
          inside host unit.moduleRoot filePath = true := by
    intro units
    induction units with
    | nil =>
      intro owner _ hKnown hFound
      exact hKnown unit hFound
    | cons first units ih =>
      intro owner hUnits hKnown hFound
      rw [List.forall_mem_cons] at hUnits
      rw [List.foldl_cons] at hFound
      refine ih _ hUnits.2 ?_ hFound
      intro other hOther
      split at hOther
      · rename_i hNearer
        injection hOther with hSame
        rw [← hSame]
        exact ⟨hUnits.1, (Bool.and_eq_true_iff.mp hNearer).1⟩
      · exact hKnown other hOther
  refine hFold graph.units none (fun _ hMem => hMem) ?_ hOwner
  intro other hOther
  cases hOther

omit [LinearOrder Collation] in
/-
  What a batch admits: the members below the units of a set
  that is closed under dependencies and has the seeds.
-/
theorem admitted_spec
    (seeds : List ModuleName) :
    ∃ names,
      admittedDependencyClosurePaths host seeds context =
          pathsOfUnits host context.graph.units names
            context.membershipPaths ∧
        ClosedUnits context.graph names ∧
        ∀ name ∈ seeds,
          (unitNamed context.graph.units name).isSome →
            name ∈ names := by
  rcases Worklist.visitAll_lenient
      (dependencyTable context.graph.units) seeds.reverse []
    with ⟨names, hNames⟩
  have hStart :
      Worklist.Frontier
        (dependencyTable context.graph.units) seeds.reverse
        [] := by
    intro name hName
    cases hName
  rcases Worklist.visitAll_spec hNames hStart with
    ⟨_, hSeeds, hClosed⟩
  refine ⟨names, ?_, ?_, ?_⟩
  · unfold admittedDependencyClosurePaths
    rw [hNames]
    rfl
  · intro name hName unit hUnit dependency hDependency hKnown
    have hNext :
        Worklist.lookup (dependencyTable context.graph.units)
          name = some unit.dependencies := by
      rw [lookup_dependencyTable, hUnit]
      rfl
    rcases hClosed name hName _ hNext dependency hDependency
        (by rw [isSome_lookup]; exact hKnown) with
      hDone | hPending
    · exact hDone
    · cases hPending
  · intro name hName hKnown
    exact
      hSeeds name (List.mem_reverse.mpr hName)
        (by rw [isSome_lookup]; exact hKnown)

variable {names : List ModuleName}

omit [LinearOrder Collation] in
/- A member of an admitted unit is admitted. -/
theorem mem_pathsOfUnits
    {membershipPaths : List FilePath}
    {filePath : FilePath}
    {name : ModuleName}
    (hMember : filePath ∈ membershipPaths)
    (hOwner : ownerName host graph filePath = some name)
    (hName : name ∈ names) :
    filePath ∈
      pathsOfUnits host graph.units names membershipPaths := by
  rcases Option.map_eq_some_iff.mp hOwner with
    ⟨unit, hUnit, hModule⟩
  rcases semanticUnitForPath_spec hUnit with ⟨hMem, hInside⟩
  have hNamed : unitNamed graph.units name = some unit := by
    rw [← hModule]
    exact unitNamed_of_mem hMem
  unfold pathsOfUnits
  refine List.mem_filter.mpr ⟨hMember, ?_⟩
  rw [List.any_eq_true]
  refine ⟨unit.moduleRoot, ?_, hInside⟩
  refine List.mem_map_of_mem ?_
  exact List.mem_filterMap.mpr ⟨name, hName, hNamed⟩

----------
-- Chunks
----------

/- Chunks that share the candidates out within a limit. -/
structure Shared
    (host : PlannerHost Collation)
    (graph : Option HarmonySemanticGraph)
    (limit : Nat)
    (candidates : List FilePath)
    (chunks : List CandidateChunk) : Prop where
  perm :
    (chunks.flatMap CandidateChunk.paths).Perm candidates
  nonempty : ∀ chunk ∈ chunks, chunk.paths ≠ []
  fits :
    ∀ chunk ∈ chunks,
      chunk.paths.length ≤ limit ∨
        chunk.semanticUnits = 1 ∧
          ∃ unitGraph name,
            graph = some unitGraph ∧
              ∀ filePath ∈ chunk.paths,
                ownerName host unitGraph filePath = some name

theorem flatMap_groups
    {α β : Type}
    (f : α → List β)
    (groups : List (List α)) :
    groups.flatMap (fun group => group.flatMap f) =
      groups.flatten.flatMap f := by
  induction groups with
  | nil => rfl
  | cons group groups ih =>
    rw [List.flatMap_cons, List.flatten_cons,
      List.flatMap_append, ih]

theorem flatMap_pieces
    {α : Type}
    (items : List α)
    (limit count : Nat) :
    (List.range count).flatMap
        (fun index =>
          (items.drop (index * limit)).take limit) =
      items.take (count * limit) := by
  induction count with
  | zero =>
    rw [Nat.zero_mul]
    rfl
  | succ count ih =>
    rw [List.range_succ, List.flatMap_append, ih,
      Nat.succ_mul, List.take_add]
    simp

theorem le_chunkCount_mul
    (hLimit : 1 ≤ limit)
    (length : Nat) :
    length ≤ chunkCount length limit * limit := by
  have hDiv := Nat.div_add_mod (length + (limit - 1)) limit
  have hMod := Nat.mod_lt (length + (limit - 1)) hLimit
  unfold chunkCount
  rw [Nat.mul_comm]
  omega

theorem lt_of_lt_chunkCount
    {limit index length : Nat}
    (hIndex : index < chunkCount length limit) :
    index * limit < length := by
  have hMul := Nat.mul_le_of_le_div _ _ _ hIndex
  rw [Nat.succ_mul] at hMul
  by_cases hZero : limit = 0
  · unfold chunkCount at hIndex
    rw [hZero, Nat.div_zero] at hIndex
    omega
  · omega

theorem length_chunkCandidates
    (candidates : List FilePath)
    (limit : Nat) :
    (chunkCandidates candidates limit).length =
      chunkCount candidates.length limit := by
  unfold chunkCandidates
  rw [List.length_map, List.length_range]

omit [LinearOrder Collation] in
theorem shared_chunkCandidates
    (hLimit : 1 ≤ limit)
    (graph : Option HarmonySemanticGraph)
    (candidates : List FilePath) :
    Shared host graph limit candidates
      (chunkCandidates candidates limit) := by
  unfold chunkCandidates
  refine ⟨?_, ?_, ?_⟩
  · rw [List.flatMap_map, flatMap_pieces,
      List.take_of_length_le
        (le_chunkCount_mul hLimit candidates.length)]
  · intro chunk hChunk
    rcases List.mem_map.mp hChunk with ⟨index, hIndex, rfl⟩
    have hLess := lt_of_lt_chunkCount (List.mem_range.mp hIndex)
    refine List.ne_nil_of_length_pos ?_
    rw [List.length_take, List.length_drop]
    omega
  · intro chunk hChunk
    rcases List.mem_map.mp hChunk with ⟨index, _, rfl⟩
    exact Or.inl (List.length_take_le _ _)

variable {candidates : List FilePath}

omit [LinearOrder Collation] in
theorem mem_unitChunk_paths
    {name : ModuleName}
    {filePath : FilePath} :
    filePath ∈ (unitChunk host graph candidates name).paths ↔
      filePath ∈ candidates ∧
        ownerName host graph filePath = some name := by
  unfold unitChunk
  rw [List.mem_filter, decide_eq_true_eq]

theorem NamesOf.pathCount_pos
    (hNames : NamesOf host graph candidates names) :
    ∀ unit ∈ names.map (unitChunk host graph candidates),
      0 < pathCount unit := by
  intro unit hUnit
  rcases List.mem_map.mp hUnit with ⟨name, hName, rfl⟩
  rcases (hNames.mem_iff name).mp hName with
    ⟨candidate, hMem, hOwner⟩
  exact
    List.length_pos_of_mem
      (mem_unitChunk_paths.mpr ⟨hMem, hOwner⟩)

/- The units share the candidates out among them. -/
theorem NamesOf.perm
    (hNames : NamesOf host graph candidates names)
    (hDistinct : candidates.Nodup) :
    ((names.map (unitChunk host graph candidates)).flatMap
      CandidateChunk.paths).Perm candidates := by
  rw [List.flatMap_map]
  refine (List.perm_ext_iff_of_nodup ?_ hDistinct).mpr ?_
  · rw [List.nodup_flatMap]
    refine ⟨fun name _ => hDistinct.filter _, ?_⟩
    refine hNames.distinct.imp ?_
    intro left right hOther filePath hLeft hRight
    have hFirst := (mem_unitChunk_paths.mp hLeft).2
    have hSecond := (mem_unitChunk_paths.mp hRight).2
    rw [hFirst] at hSecond
    injection hSecond with hSame
    exact hOther hSame
  · intro filePath
    rw [List.mem_flatMap]
    constructor
    · rintro ⟨name, _, hPath⟩
      exact (mem_unitChunk_paths.mp hPath).1
    · intro hMem
      rcases Option.isSome_iff_exists.mp
          (hNames.owned filePath hMem) with ⟨name, hOwner⟩
      exact
        ⟨name, (hNames.mem_iff name).mpr
            ⟨filePath, hMem, hOwner⟩,
          mem_unitChunk_paths.mpr ⟨hMem, hOwner⟩⟩

theorem shared_packSemanticUnits
    (hNames : NamesOf host graph candidates names)
    (hDistinct : candidates.Nodup) :
    Shared host (some graph) limit candidates
      (packSemanticUnits host
        (names.map (unitChunk host graph candidates)) limit
        context) := by
  have hSome := hNames.pathCount_pos
  have hFits :=
    @NextFit.packFrom_fits _ limit pathCount []
      (names.map (unitChunk host graph candidates))
      (Or.inl rfl)
  have hFlat :=
    @NextFit.packFrom_flatten _ limit pathCount []
      (names.map (unitChunk host graph candidates))
  rw [packSemanticUnits_eq hSome]
  have hUnit : ∀ group ∈
      NextFit.packFrom limit pathCount []
        (names.map (unitChunk host graph candidates)),
      ∀ unit ∈ group,
        unit ∈ names.map (unitChunk host graph candidates) := by
    intro group hGroup unit hMem
    have hAll := List.mem_flatten.mpr ⟨group, hGroup, hMem⟩
    rw [hFlat] at hAll
    exact hAll
  refine ⟨?_, ?_, ?_⟩
  · have hPaths :
        ((NextFit.packFrom limit pathCount []
            (names.map (unitChunk host graph candidates))).map
          (chunkOf host context)).flatMap CandidateChunk.paths =
          (names.map (unitChunk host graph
            candidates)).flatMap CandidateChunk.paths := by
      rw [List.flatMap_map]
      change
        List.flatMap
            (fun group : List CandidateChunk =>
              group.flatMap CandidateChunk.paths) _ = _
      rw [flatMap_groups, hFlat]
      rfl
    rw [hPaths]
    exact hNames.perm hDistinct
  · intro chunk hChunk
    rcases List.mem_map.mp hChunk with ⟨group, hGroup, rfl⟩
    rcases List.exists_mem_of_ne_nil _ (hFits group hGroup).1
      with ⟨unit, hMem⟩
    have hPos := hSome unit (hUnit group hGroup unit hMem)
    rcases List.exists_mem_of_ne_nil _
        (List.ne_nil_of_length_pos hPos) with
      ⟨filePath, hPath⟩
    exact
      List.ne_nil_of_mem
        (List.mem_flatMap.mpr ⟨unit, hMem, hPath⟩)
  · intro chunk hChunk
    rcases List.mem_map.mp hChunk with ⟨group, hGroup, rfl⟩
    rcases (hFits group hGroup).2 with hLoad | hSingle
    · left
      rw [← length_paths] at hLoad
      exact hLoad
    · right
      rcases List.length_eq_one_iff.mp hSingle with
        ⟨unit, hOnly⟩
      subst hOnly
      rcases List.mem_map.mp
          (hUnit [unit] hGroup unit List.mem_cons_self) with
        ⟨name, _, rfl⟩
      refine ⟨rfl, graph, name, rfl, ?_⟩
      intro filePath hPath
      rcases List.mem_flatMap.mp hPath with
        ⟨other, hOther, hMem⟩
      rw [List.mem_singleton.mp hOther] at hMem
      exact (mem_unitChunk_paths.mp hMem).2

end Planning

end References

end ArktsServer
