import ArktsServer.Semantic.ReferenceSearchPlanner
import Mathlib.Data.List.Induction

/-
  The candidates of a reference search by the units that own
  them: which paths are candidates, and which names and
  chunks their grouping gives.

  Key definitions include:
    * `InScope`, `ownerName`
    * `Grouped`, `unitChunk`, `NamesOf`

  Correctness is proven by:
    * `mem_scopeCandidates`
    * `groupedCandidates_spec`
    * `groupCandidates_spec`
-/

namespace ArktsServer

namespace References

open UnixPath

----------
-- Sets and Sorting
----------

section Sets

variable {α : Type} [DecidableEq α]
variable {item : α}

theorem mem_unique
    {items : List α} :
    item ∈ unique items ↔ item ∈ items := by
  induction items with
  | nil => exact Iff.rfl
  | cons first items ih =>
    rw [unique, List.mem_cons, List.mem_cons,
      List.mem_filter, ih, decide_eq_true_eq]
    by_cases hSame : item = first
    · simp [hSame]
    · simp [hSame]

theorem mem_without
    {items removed : List α} :
    item ∈ without items removed ↔
      item ∈ items ∧ item ∉ removed := by
  unfold without
  rw [List.mem_filter, decide_eq_true_eq]

theorem has_iff
    {items : List α} :
    has items item = true ↔ item ∈ items := by
  unfold has
  exact decide_eq_true_iff

end Sets

theorem exists_of_mapM
    {α β : Type}
    {f : α → Option β}
    {items : List α}
    {results : List β}
    (hResults : items.mapM f = some results)
    {item : α}
    (hItem : item ∈ items) :
    ∃ result ∈ results, f item = some result := by
  induction items generalizing results with
  | nil => cases hItem
  | cons first items ih =>
    rw [List.mapM_cons] at hResults
    rcases Option.bind_eq_some_iff.mp hResults with
      ⟨found, hFound, hRest⟩
    rcases Option.bind_eq_some_iff.mp hRest with
      ⟨others, hOthers, hAll⟩
    injection hAll with hAll
    rw [← hAll]
    rcases List.mem_cons.mp hItem with rfl | hLater
    · exact ⟨found, List.mem_cons_self, hFound⟩
    · rcases ih hOthers hLater with ⟨result, hMem, hResult⟩
      exact ⟨result, List.mem_cons_of_mem _ hMem, hResult⟩

section Planning

variable {Collation : Type} [LinearOrder Collation]
variable (host : PlannerHost Collation)
variable {α : Type}

theorem perm_sortOrdinal
    (name : α → List Char)
    (items : List α) :
    (sortOrdinal host name items).Perm items :=
  List.perm_insertionSort _ items

theorem sorted_sortOrdinal
    (name : α → List Char)
    (items : List α) :
    (sortOrdinal host name items).Pairwise fun left right =>
      host.collationKey (name left)
        ≤ host.collationKey (name right) := by
  have hTotal :
      Std.Total fun left right : α =>
        host.collationKey (name left)
          ≤ host.collationKey (name right) :=
    ⟨fun left right => le_total _ _⟩
  have hTrans :
      IsTrans α fun left right : α =>
        host.collationKey (name left)
          ≤ host.collationKey (name right) :=
    ⟨fun _ _ _ => le_trans⟩
  exact List.pairwise_insertionSort _ items

----------
-- Scope
----------

/- A member, and a candidate if there are any given. -/
def InScope
    (membershipPaths : List FilePath)
    (candidatePaths : Option (List FilePath))
    (filePath : FilePath) : Prop :=
  filePath ∈ membershipPaths.map (resolve host.cwd) ∧
    ∀ candidates ∈ candidatePaths,
      filePath ∈ candidates.map (resolve host.cwd)

variable {host}
variable {pinned membershipPaths : List FilePath}
variable {candidatePaths : Option (List FilePath)}

theorem mem_scopeCandidates
    {filePath : FilePath} :
    filePath ∈
        scopeCandidates host pinned membershipPaths
          candidatePaths ↔
      InScope host membershipPaths candidatePaths filePath ∧
        filePath ∉ pinned := by
  unfold scopeCandidates InScope
  rw [(perm_sortOrdinal host id _).mem_iff, List.mem_filter,
    List.mem_filter, decide_eq_true_eq, Option.all_eq_true]
  simp only [decide_eq_true_eq, Option.mem_def]

theorem nodup_scopeCandidates
    (hDistinct :
      (membershipPaths.map (resolve host.cwd)).Nodup) :
    (scopeCandidates host pinned membershipPaths
      candidatePaths).Nodup :=
  (perm_sortOrdinal host id _).nodup_iff.mpr
    ((hDistinct.filter _).filter _)

----------
-- Groups
----------

/- The module of the unit around a path. -/
def ownerName
    (host : PlannerHost Collation)
    (graph : HarmonySemanticGraph)
    (filePath : FilePath) : Option ModuleName :=
  (semanticUnitForPath host graph filePath).map
    HarmonySemanticUnit.moduleName

/- Each name of a grouping has the candidates of its unit. -/
structure Grouped
    (host : PlannerHost Collation)
    (graph : HarmonySemanticGraph)
    (candidates : List FilePath)
    (grouped : OrderedMap ModuleName (List FilePath)) :
    Prop where
  owned :
    ∀ candidate ∈ candidates,
      (ownerName host graph candidate).isSome
  get :
    ∀ name,
      grouped.get name =
        if candidates.filter
            (fun candidate =>
              ownerName host graph candidate = some name)
            = [] then
          none
        else
          some
            (candidates.filter fun candidate =>
              ownerName host graph candidate = some name)

variable {grouped : OrderedMap ModuleName (List FilePath)}
variable {graph : HarmonySemanticGraph}
variable {candidates : List FilePath}

omit [LinearOrder Collation] in
theorem groupedCandidates_spec
    (hGrouped :
      groupedCandidates host graph candidates =
        some grouped) :
    Grouped host graph candidates grouped := by
  unfold groupedCandidates at hGrouped
  induction candidates using List.reverseRecOn generalizing
      grouped with
  | nil =>
    injection hGrouped with hEmpty
    subst hEmpty
    refine ⟨?_, fun name => rfl⟩
    intro candidate hMem
    cases hMem
  | append_singleton candidates candidate ih =>
    simp only [List.foldlM_append, List.foldlM_cons,
      List.foldlM_nil, bind_pure] at hGrouped
    rcases Option.bind_eq_some_iff.mp hGrouped with
      ⟨before, hBefore, hLast⟩
    rcases Option.bind_eq_some_iff.mp hLast with
      ⟨unit, hOwner, hAfter⟩
    injection hAfter with hSet
    have hOld := ih hBefore
    have hName :
        ownerName host graph candidate =
          some unit.moduleName := by
      unfold ownerName
      rw [hOwner]
      rfl
    refine ⟨?_, fun name => ?_⟩
    · intro other hOther
      rcases List.mem_append.mp hOther with hMem | hLast
      · exact hOld.owned other hMem
      · rw [List.mem_singleton.mp hLast, hName]
        rfl
    · rw [← hSet, OrderedMap.get_set, List.filter_append,
        hOld.get, hOld.get]
      by_cases hSame : name = unit.moduleName
      · subst hSame
        rw [if_pos rfl, List.filter_cons_of_pos
          (by rw [hName]; exact decide_eq_true rfl)]
        simp only [List.filter_nil, List.append_eq_nil_iff,
          List.cons_ne_nil, and_false, ↓reduceIte]
        split
        · rename_i hNil
          rw [hNil]
          rfl
        · rfl
      · have hOther :
            ¬ ownerName host graph candidate = some name := by
          rw [hName]
          intro hEq
          injection hEq with hEq
          exact hSame hEq.symm
        rw [if_neg hSame, List.filter_cons_of_neg
          (by simpa using hOther), List.filter_nil,
          List.append_nil]

/- The chunk of the unit with a name. -/
def unitChunk
    (host : PlannerHost Collation)
    (graph : HarmonySemanticGraph)
    (candidates : List FilePath)
    (name : ModuleName) :
    CandidateChunk :=
  { paths :=
      candidates.filter fun candidate =>
        ownerName host graph candidate = some name
    semanticUnits := 1
    unitNames := [name] }

/- The units in order, by their names. -/
structure NamesOf
    (host : PlannerHost Collation)
    (graph : HarmonySemanticGraph)
    (candidates : List FilePath)
    (names : List ModuleName) : Prop where
  distinct : names.Nodup
  sorted :
    names.Pairwise fun left right =>
      host.collationKey left ≤ host.collationKey right
  mem_iff :
    ∀ name,
      name ∈ names ↔
        ∃ candidate ∈ candidates,
          ownerName host graph candidate = some name
  owned :
    ∀ candidate ∈ candidates,
      (ownerName host graph candidate).isSome

theorem Grouped.names
    (hGrouped : Grouped host graph candidates grouped) :
    NamesOf host graph candidates
      ((sortOrdinal host Prod.fst grouped.entries).map
        Prod.fst) := by
  have hPerm := perm_sortOrdinal host Prod.fst grouped.entries
  refine ⟨?_, ?_, fun name => ?_, hGrouped.owned⟩
  · rw [(hPerm.map Prod.fst).nodup_iff]
    exact List.pairwise_map.mpr grouped.distinct
  · exact
      List.pairwise_map.mpr
        (sorted_sortOrdinal host Prod.fst grouped.entries)
  · rw [(hPerm.map Prod.fst).mem_iff]
    have hGet := hGrouped.get name
    constructor
    · intro hName
      rcases List.mem_map.mp hName with ⟨entry, hEntry, hKey⟩
      have hSome :=
        OrderedMap.get_eq_some_iff.mpr
          (show (name, entry.2) ∈ grouped.entries by
            rw [← hKey]
            exact hEntry)
      rw [hSome] at hGet
      split at hGet
      · cases hGet
      · rename_i hPaths
        rcases List.exists_mem_of_ne_nil _ hPaths with
          ⟨candidate, hCandidate⟩
        rcases List.mem_filter.mp hCandidate with
          ⟨hMem, hOwner⟩
        exact ⟨candidate, hMem, of_decide_eq_true hOwner⟩
    · rintro ⟨candidate, hMem, hOwner⟩
      rw [if_neg] at hGet
      · exact
          List.mem_map_of_mem (OrderedMap.get_eq_some_iff.mp hGet)
      · exact
          List.ne_nil_of_mem
            (List.mem_filter.mpr ⟨hMem, decide_eq_true hOwner⟩)

theorem Grouped.chunks
    (hGrouped : Grouped host graph candidates grouped) :
    ((sortOrdinal host Prod.fst grouped.entries).map
        fun entry =>
          ({ paths := entry.2
             semanticUnits := 1
             unitNames := [entry.1] } : CandidateChunk)) =
      ((sortOrdinal host Prod.fst grouped.entries).map
        Prod.fst).map (unitChunk host graph candidates) := by
  rw [List.map_map]
  refine List.map_congr_left ?_
  intro entry hEntry
  have hMem :=
    (perm_sortOrdinal host Prod.fst grouped.entries).mem_iff.mp
      hEntry
  have hGet :=
    (OrderedMap.get_eq_some_iff.mpr hMem).symm.trans
      (hGrouped.get entry.1)
  split at hGet
  · cases hGet
  · injection hGet with hPaths
    unfold unitChunk
    rw [hPaths]
    rfl

/- What a successful grouping of the candidates gives. -/
theorem groupCandidates_spec
    {candidates pinned membershipPaths : List FilePath}
    {units : List CandidateChunk}
    {context : SemanticUnitPlanningContext}
    (hGroups :
      groupCandidatesBySemanticUnit host candidates pinned
        membershipPaths graph = some (units, context)) :
    ∃ names,
      NamesOf host graph candidates names ∧
        units = names.map (unitChunk host graph candidates) ∧
        context.graph = graph ∧
        context.membershipPaths =
          membershipPaths.map (resolve host.cwd) ∧
        (∀ filePath ∈ pinned,
          ∃ name ∈ context.pinnedUnitNames,
            ownerName host graph filePath = some name) := by
  unfold groupCandidatesBySemanticUnit at hGroups
  rcases Option.bind_eq_some_iff.mp hGroups with
    ⟨grouped, hGrouped, hRest⟩
  rcases Option.bind_eq_some_iff.mp hRest with
    ⟨pinnedUnits, hPinned, hResult⟩
  injection hResult with hPair
  injection hPair with hUnits hContext
  have hSpec := groupedCandidates_spec hGrouped
  refine ⟨_, hSpec.names, ?_, ?_, ?_, ?_⟩
  · rw [← hUnits]
    exact hSpec.chunks
  · rw [← hContext]
  · rw [← hContext]
  · intro filePath hFile
    rw [← hContext]
    simp only
    rcases exists_of_mapM hPinned hFile with
      ⟨unit, hUnit, hOwner⟩
    refine ⟨unit.moduleName, ?_, ?_⟩
    · rw [(perm_sortOrdinal host id _).mem_iff, mem_unique]
      exact List.mem_map_of_mem hUnit
    · unfold ownerName
      rw [hOwner]
      rfl

end Planning

end References

end ArktsServer
