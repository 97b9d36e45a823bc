import ArktsServer.Core.ResourceIndex
import Mathlib

/-
  The queries of the resource index against a scan of all
  declarations.

  Key definitions include:
    * `sortKey`, `firsts`
    * `Matching`, `FirstDeclaration`

  Correctness is proven by:
    * `compareResources_le_iff`, `sortResources_sorted`
    * `firsts_spec`, `lowerBound_spec`
    * `resource_queries`
    * `findByPrefix_narrow`
    * `load_allOrNothing`
-/

namespace ArktsServer

namespace Resources

----------
-- The Order of Resources
----------

theorem less_iff
    {left right : Text} :
    less left right = true ↔ left < right := by
  induction left generalizing right with
  | nil =>
    cases right with
    | nil =>
      unfold less
      constructor
      · intro hNever
        cases hNever
      · intro hNever
        exact absurd hNever (List.lt_irrefl _)
    | cons other right =>
      exact iff_of_true rfl (List.nil_lt_cons _ _)
  | cons unit left ih =>
    cases right with
    | nil =>
      refine iff_of_false ?_ (List.not_lt_nil _)
      exact Bool.false_ne_true
    | cons other right =>
      unfold less
      rw [List.cons_lt_cons_iff]
      split
      · rename_i hSame
        subst hSame
        rw [ih]
        constructor
        · exact fun hLess => Or.inr ⟨rfl, hLess⟩
        · rintro (hNever | ⟨_, hLess⟩)
          · exact absurd hNever (lt_irrefl _)
          · exact hLess
      · rename_i hOther
        rw [decide_eq_true_iff]
        constructor
        · exact Or.inl
        · rintro (hLess | ⟨hSame, _⟩)
          · exact hLess
          · exact absurd hSame hOther

theorem startsWith_iff
    {text start : Text} :
    startsWith text start = true ↔ start <+: text := by
  induction text generalizing start with
  | nil =>
    cases start with
    | nil => exact iff_of_true rfl List.nil_prefix
    | cons other start =>
      refine iff_of_false Bool.false_ne_true ?_
      intro hNever
      cases List.prefix_nil.mp hNever
  | cons unit text ih =>
    cases start with
    | nil => exact iff_of_true rfl List.nil_prefix
    | cons other start =>
      unfold startsWith
      rw [Bool.and_eq_true, beq_iff_eq, ih,
        List.cons_prefix_cons, eq_comm]

/- Reference, path, line and column. -/
def sortKey
    (resource : ArkUIStringResource) :
    Text ×ₗ Text ×ₗ Nat ×ₗ Nat :=
  toLex
    (resource.reference,
      toLex
        (resource.path,
          toLex
            (resource.range.startLine,
              resource.range.startColumn)))

/- A comparison goes on where it finds no difference. -/
theorem ordinalCompare_cases (left right : Text) :
    left < right ∧ ordinalCompare left right = -1 ∨
      left = right ∧ ordinalCompare left right = 0 ∨
      right < left ∧ ordinalCompare left right = 1 := by
  unfold ordinalCompare
  rcases lt_trichotomy left right with
    hLess | hSame | hMore
  · rw [if_pos (less_iff.mpr hLess)]
    exact Or.inl ⟨hLess, rfl⟩
  · subst hSame
    have hNot : ¬ less left left = true := by
      rw [less_iff]
      exact lt_irrefl _
    rw [if_neg hNot, if_neg hNot]
    exact Or.inr (Or.inl ⟨rfl, rfl⟩)
  · have hNot : ¬ less left right = true := by
      rw [less_iff]
      exact lt_asymm hMore
    rw [if_neg hNot, if_pos (less_iff.mpr hMore)]
    exact Or.inr (Or.inr ⟨hMore, rfl⟩)

theorem compareResources_le_iff
    {left right : ArkUIStringResource} :
    compareResources left right ≤ 0 ↔
      sortKey left ≤ sortKey right := by
  unfold compareResources sortKey
  simp only [Prod.Lex.toLex_le_toLex]
  rcases ordinalCompare_cases left.reference
      right.reference with
    ⟨hLess, hCompare⟩ | ⟨hSame, hCompare⟩ | ⟨hMore, hCompare⟩
  · simp [hCompare, hLess]
  · simp only [hCompare, ne_eq, not_true_eq_false, ↓reduceIte]
    simp only [hSame, lt_self_iff_false, true_and, false_or]
    rcases ordinalCompare_cases left.path right.path with
      ⟨hLess, hPath⟩ | ⟨hSamePath, hPath⟩ | ⟨hMore, hPath⟩
    · simp [hPath, hLess]
    · simp only [hPath, not_true_eq_false, ↓reduceIte]
      simp only [hSamePath, lt_self_iff_false, true_and, false_or]
      split
      · omega
      · omega
    · have hNot := lt_asymm hMore
      have hNe := ne_of_gt hMore
      simp [hPath, hNot, hNe]
  · have hNot := lt_asymm hMore
    have hNe := ne_of_gt hMore
    simp [hCompare, hNot, hNe]

theorem sortResources_perm
    (resources : List ArkUIStringResource) :
    (sortResources resources).Perm resources :=
  List.mergeSort_perm _ _

theorem sortResources_sorted
    (resources : List ArkUIStringResource) :
    (sortResources resources).Pairwise fun left right =>
      sortKey left ≤ sortKey right := by
  have hSorted :=
    @List.pairwise_mergeSort ArkUIStringResource
      (fun left right =>
        decide (compareResources left right ≤ 0))
      (by
        intro first second third hFirst hSecond
        rw [decide_eq_true_iff,
          compareResources_le_iff] at hFirst hSecond ⊢
        exact hFirst.trans hSecond)
      (by
        intro first second
        rw [Bool.or_eq_true, decide_eq_true_iff,
          decide_eq_true_iff, compareResources_le_iff,
          compareResources_le_iff]
        exact le_total _ _)
  exact
    (hSorted resources).imp fun hLe =>
      compareResources_le_iff.mp (of_decide_eq_true hLe)

theorem reference_le_of_key
    {left right : ArkUIStringResource}
    (hKey : sortKey left ≤ sortKey right) :
    ¬ right.reference < left.reference := by
  unfold sortKey at hKey
  rw [Prod.Lex.toLex_le_toLex] at hKey
  rcases hKey with hLess | ⟨hSame, _⟩
  · exact lt_asymm hLess
  · exact fun hNever => absurd hSame.symm (ne_of_lt hNever)

----------
-- Groups
----------

/- The first declaration of each reference. -/
def firsts
    (resources : List ArkUIStringResource) :
    List ArkUIStringResource :=
  (createSnapshot .ready resources).uniqueResources

def groups
    (resources : List ArkUIStringResource) :
    OrderedMap Text (List ArkUIStringResource) :=
  resources.foldl addMatch OrderedMap.empty

variable (resources : List ArkUIStringResource)

/- A group has all declarations of its reference, in order. -/
theorem get_groups
    (reference : Text) :
    ((groups resources).get reference).getD [] =
        resources.filter (·.reference == reference) ∧
      ∀ found, (groups resources).get reference = some found →
        found ≠ [] := by
  unfold groups
  induction resources using List.reverseRecOn with
  | nil => exact ⟨rfl, fun _ hNever => by cases hNever⟩
  | append_singleton resources resource ih =>
    rw [List.foldl_append, List.foldl_cons, List.foldl_nil]
    generalize
      resources.foldl addMatch OrderedMap.empty = before
      at ih ⊢
    unfold addMatch
    rw [OrderedMap.get_set, List.filter_append]
    by_cases hSame : reference = resource.reference
    · subst hSame
      rw [if_pos rfl, Option.getD_some,
        List.filter_cons_of_pos (by simp), List.filter_nil,
        ih.1]
      refine ⟨rfl, ?_⟩
      intro found hFound
      rw [← Option.some.inj hFound]
      simp
    · rw [if_neg hSame,
        List.filter_cons_of_neg (by
          simp [Ne.symm hSame]),
        List.filter_nil, List.append_nil]
      exact ih

/- A new reference brings its first declaration. -/
theorem firsts_append
    (resource : ArkUIStringResource) :
    firsts (resources ++ [resource]) =
      if resources.any
          (·.reference == resource.reference) then
        firsts resources
      else
        firsts resources ++ [resource] := by
  have hGroups :
      groups (resources ++ [resource]) =
        addMatch (groups resources) resource := by
    unfold groups
    rw [List.foldl_append]
    rfl
  have hFirsts : ∀ items,
      firsts items =
        (groups items).entries.flatMap fun entry =>
          entry.2.head?.toList := by
    intro items
    unfold firsts createSnapshot OrderedMap.values
    simp only [List.flatMap_map]
    rfl
  rw [hFirsts, hFirsts, hGroups]
  unfold addMatch
  cases hGet : (groups resources).get resource.reference with
  | none =>
    have hNone :
        resources.any
            (·.reference == resource.reference) =
          false := by
      have hFilter := (get_groups resources resource.reference).1
      rw [hGet, Option.getD_none] at hFilter
      rw [List.any_eq_false]
      exact List.filter_eq_nil_iff.mp hFilter.symm
    rw [hNone, OrderedMap.entries_set_of_none hGet,
      List.flatMap_append]
    rfl
  | some found =>
    have hSome :
        resources.any
            (·.reference == resource.reference) = true := by
      have hGroup := get_groups resources resource.reference
      rw [hGet, Option.getD_some] at hGroup
      have hNonempty := hGroup.2 found rfl
      rw [hGroup.1] at hNonempty
      rcases List.exists_mem_of_ne_nil _ hNonempty with
        ⟨other, hOther⟩
      rcases List.mem_filter.mp hOther with ⟨hMem, hMatch⟩
      exact List.any_eq_true.mpr ⟨other, hMem, hMatch⟩
    rw [hSome, if_pos rfl, Option.getD_some,
      OrderedMap.entries_set_of_some hGet,
      List.flatMap_map]
    have hNonempty :=
      (get_groups resources resource.reference).2 found hGet
    refine List.flatMap_congr ?_
    rintro ⟨reference, other⟩ hEntry
    simp only
    split
    · rename_i hSame
      subst hSame
      have hOther := OrderedMap.get_eq_some_iff.mpr hEntry
      rw [hGet] at hOther
      rw [← Option.some.inj hOther]
      cases found with
      | nil => exact absurd rfl hNonempty
      | cons first found => rfl
    · rfl

/- What `firsts` keeps of a sorted list. -/
structure FirstsOf
    (resources unique : List ArkUIStringResource) : Prop where
  known : ∀ found ∈ unique, found ∈ resources
  all :
    ∀ resource ∈ resources,
      ∃ found ∈ unique, found.reference = resource.reference
  first :
    ∀ found ∈ unique, ∀ resource ∈ resources,
      resource.reference = found.reference →
        sortKey found ≤ sortKey resource
  sorted :
    unique.Pairwise fun first second =>
      first.reference < second.reference

theorem firsts_spec
    {resources : List ArkUIStringResource}
    (hSorted :
      resources.Pairwise fun left right =>
        sortKey left ≤ sortKey right) :
    FirstsOf resources (firsts resources) := by
  induction resources using List.reverseRecOn with
  | nil =>
    refine ⟨?_, ?_, ?_, List.Pairwise.nil⟩
    · exact fun _ hNever => absurd hNever List.not_mem_nil
    · exact fun _ hNever => absurd hNever List.not_mem_nil
    · exact fun _ hNever => absurd hNever List.not_mem_nil
  | append_singleton resources resource ih =>
    rcases List.pairwise_append.mp hSorted with
      ⟨hBefore, _, hLast⟩
    have hLess : ∀ other ∈ resources,
        sortKey other ≤ sortKey resource :=
      fun other hOther =>
        hLast other hOther resource List.mem_cons_self
    rcases ih hBefore with ⟨hKnown, hAll, hFirst, hUnique⟩
    rw [firsts_append]
    split
    · rename_i hThere
      rcases List.any_eq_true.mp hThere with
        ⟨same, hSame, hMatch⟩
      have hMatch := beq_iff_eq.mp hMatch
      refine ⟨?_, ?_, ?_, hUnique⟩
      · intro found hFound
        exact List.mem_append_left _ (hKnown found hFound)
      · intro other hOther
        rcases List.mem_append.mp hOther with hOld | hNew
        · exact hAll other hOld
        · rw [List.mem_singleton.mp hNew, ← hMatch]
          exact hAll same hSame
      · intro found hFound other hOther hReference
        rcases List.mem_append.mp hOther with hOld | hNew
        · exact hFirst found hFound other hOld hReference
        · rw [List.mem_singleton.mp hNew]
          exact hLess found (hKnown found hFound)
    · rename_i hNew
      have hFresh : ∀ other ∈ resources,
          other.reference ≠ resource.reference := by
        intro other hOther hSame
        refine hNew (List.any_eq_true.mpr ⟨other, hOther, ?_⟩)
        exact beq_iff_eq.mpr hSame
      refine ⟨?_, ?_, ?_, ?_⟩
      · intro found hFound
        rcases List.mem_append.mp hFound with hOld | hLater
        · exact List.mem_append_left _ (hKnown found hOld)
        · exact List.mem_append_right _ hLater
      · intro other hOther
        rcases List.mem_append.mp hOther with hOld | hLater
        · rcases hAll other hOld with ⟨found, hFound, hSame⟩
          exact ⟨found, List.mem_append_left _ hFound, hSame⟩
        · exact
            ⟨resource,
              List.mem_append_right _ List.mem_cons_self,
              by rw [List.mem_singleton.mp hLater]⟩
      · intro found hFound other hOther hReference
        rcases List.mem_append.mp hFound with hOld | hLater
        · rcases List.mem_append.mp hOther with
            hThere | hThis
          · exact hFirst found hOld other hThere hReference
          · rw [List.mem_singleton.mp hThis]
            exact hLess found (hKnown found hOld)
        · rw [List.mem_singleton.mp hLater] at hReference ⊢
          rcases List.mem_append.mp hOther with
            hThere | hThis
          · exact absurd hReference (hFresh other hThere)
          · rw [List.mem_singleton.mp hThis]
      · refine
          List.pairwise_append.mpr
            ⟨hUnique, List.pairwise_singleton _ _, ?_⟩
        intro found hFound other hOther
        rw [List.mem_singleton.mp hOther]
        have hThere := hKnown found hFound
        have hNot := reference_le_of_key (hLess found hThere)
        exact
          lt_of_le_of_ne (not_lt.mp hNot) (hFresh found hThere)

----------
-- Prefix Queries
----------

/- Where the search ends, in a list sorted by reference. -/
theorem lowerBound_spec
    {unique : List ArkUIStringResource}
    (hSorted :
      unique.Pairwise fun first second =>
        first.reference < second.reference)
    (start : Text) :
    (∀ index, index < lowerBound unique start →
        ∀ resource, unique[index]? = some resource →
          resource.reference < start) ∧
      ∀ index, lowerBound unique start ≤ index →
        ∀ resource, unique[index]? = some resource →
          ¬ resource.reference < start := by
  have hBelow :
      ∀ (index : Nat) (resource : ArkUIStringResource),
        unique[index]? = some resource →
          less
              ((unique[index]?.map
                (fun resource : ArkUIStringResource =>
                  resource.reference)).getD [])
              start =
            decide (resource.reference < start) := by
    intro index resource hResource
    rw [hResource, Option.map_some, Option.getD_some,
      Bool.eq_iff_iff, less_iff, decide_eq_true_iff]
  have hSpec :=
    @PrefixSearch.firstNot_spec
      (fun middle =>
        less
          ((unique[middle]?.map
            (fun resource : ArkUIStringResource =>
              resource.reference)).getD [])
          start)
      0 unique.length (Nat.zero_le _)
      (by
        intro first second hOrder hLess hSecond
        have hFirstLess : first < unique.length := by omega
        rw [hBelow second _ (List.getElem?_eq_getElem hLess),
          decide_eq_true_iff] at hSecond
        rw [hBelow first _
            (List.getElem?_eq_getElem hFirstLess),
          decide_eq_true_iff]
        rcases Nat.lt_or_eq_of_le hOrder with hBefore | hSame
        · exact
            lt_trans
              (List.pairwise_iff_getElem.mp hSorted first
                second hFirstLess hLess hBefore)
              hSecond
        · subst hSame
          exact hSecond)
  rcases hSpec with ⟨_, hHigh, hFront, hBack⟩
  refine ⟨?_, ?_⟩
  · intro index hIndex resource hResource
    have hThis := hFront index (Nat.zero_le _) hIndex
    rw [hBelow index resource hResource] at hThis
    exact of_decide_eq_true hThis
  · intro index hIndex resource hResource
    have hThis :=
      hBack index hIndex
        (List.getElem?_eq_some_iff.mp hResource).1
    rw [hBelow index resource hResource] at hThis
    exact of_decide_eq_false hThis

/- The references that start with a prefix, in order. -/
structure Matching
    (resources : List ArkUIStringResource)
    (start : Text)
    (references : List Text) : Prop where
  sorted : references.Pairwise (· < ·)
  exactly :
    ∀ reference,
      reference ∈ references ↔
        start <+: reference ∧
          ∃ resource ∈ resources,
            resource.reference = reference

/- The first declaration of its reference. -/
def FirstDeclaration
    (resource : ArkUIStringResource) : Prop :=
  resource ∈ resources ∧
    ∀ other ∈ resources,
      other.reference = resource.reference →
        compareResources resource other ≤ 0

/-
  A prefix query answers what a scan of all declarations
  finds, up to the limit, and an exact query finds all
  declarations of a reference.
-/
theorem resource_queries
    (status : Status)
    (resources : List ArkUIStringResource)
    (start : Text)
    {limit : Int}
    (hPositive : 1 ≤ limit)
    (hSafe : limit ≤ 9007199254740991) :
    let snapshot :=
      createSnapshot status (sortResources resources)
    ∃ references result,
      Matching resources start references ∧
        findByPrefix snapshot start limit = some result ∧
        result.status = status ∧
        result.resources.map (·.reference) =
          references.take (min limit.toNat 128) ∧
        (∀ resource ∈ result.resources,
          FirstDeclaration resources resource) ∧
        (result.isIncomplete = true ↔
          status ≠ .ready ∨
            min limit.toNat 128 < references.length) ∧
        ∀ reference,
          (findExact snapshot reference).1 = status ∧
            (findExact snapshot reference).2.Perm
              (resources.filter (·.reference == reference)) ∧
            (findExact snapshot reference).2.Pairwise
              fun left right =>
                compareResources left right ≤ 0 := by
  intro snapshot
  have hSorted := sortResources_sorted resources
  have hPerm := sortResources_perm resources
  have hFirsts := firsts_spec hSorted
  have hLimit :
      boundedLimit limit maxPrefixQueryResources =
        some (min limit.toNat 128) := by
    unfold boundedLimit
    rw [if_neg (by omega)]
    rfl
  have hBound := lowerBound_spec hFirsts.sorted start
  have hMatches :=
    PrefixSearch.filter_prefix
      (fun resource : ArkUIStringResource =>
        @startsWith_iff resource.reference start)
      hFirsts.sorted hBound.1 hBound.2
  have hCollect :=
    PrefixSearch.collect_eq (firsts (sortResources resources))
      (fun resource => startsWith resource.reference start)
      (min limit.toNat 128)
      (lowerBound (firsts (sortResources resources)) start)
  rw [hMatches] at hCollect
  have hUnique :
      snapshot.uniqueResources =
        firsts (sortResources resources) := rfl
  have hFind :
      ∃ result,
        findByPrefix snapshot start limit = some result ∧
          result.status = status ∧
          result.resources =
            ((firsts (sortResources resources)).filter
              fun resource =>
                startsWith resource.reference start).take
              (min limit.toNat 128) ∧
          (result.isIncomplete = true ↔
            status ≠ .ready ∨
              min limit.toNat 128 <
                ((firsts (sortResources resources)).filter
                  fun resource =>
                    startsWith resource.reference
                      start).length) := by
    unfold findByPrefix
    rw [hLimit, Option.map_some]
    refine ⟨_, rfl, rfl, hCollect.1, ?_⟩
    rw [Bool.or_eq_true, bne_iff_ne]
    exact or_congr Iff.rfl hCollect.2
  rcases hFind with
    ⟨result, hResult, hStatus, hResources, hIncomplete⟩
  refine
    ⟨((firsts (sortResources resources)).filter
        fun resource =>
          startsWith resource.reference start).map
        (·.reference),
      result, ⟨?_, ?_⟩, hResult, hStatus, ?_, ?_, ?_, ?_⟩
  · exact
      List.pairwise_map.mpr (hFirsts.sorted.filter _)
  · intro reference
    rw [List.mem_map]
    constructor
    · rintro ⟨found, hFound, rfl⟩
      rcases List.mem_filter.mp hFound with ⟨hMem, hStarts⟩
      exact
        ⟨startsWith_iff.mp hStarts, found,
          hPerm.mem_iff.mp (hFirsts.known found hMem), rfl⟩
    · rintro ⟨hStarts, resource, hResource, rfl⟩
      rcases hFirsts.all resource
          (hPerm.mem_iff.mpr hResource) with
        ⟨found, hFound, hSame⟩
      refine ⟨found, List.mem_filter.mpr ⟨hFound, ?_⟩, hSame⟩
      rw [startsWith_iff, hSame]
      exact hStarts
  · rw [hResources, List.map_take]
  · intro resource hResource
    rw [hResources] at hResource
    have hFound :=
      (List.mem_filter.mp (List.mem_of_mem_take hResource)).1
    refine ⟨hPerm.mem_iff.mp (hFirsts.known _ hFound), ?_⟩
    intro other hOther hSame
    rw [compareResources_le_iff]
    exact
      hFirsts.first _ hFound other
        (hPerm.mem_iff.mpr hOther) hSame
  · rw [hIncomplete, List.length_map]
  · intro reference
    have hGroup :
        (findExact snapshot reference).2 =
          (sortResources resources).filter
            (·.reference == reference) :=
      (get_groups (sortResources resources) reference).1
    rw [hGroup]
    refine ⟨rfl, hPerm.filter _, ?_⟩
    refine (hSorted.filter _).imp ?_
    intro left right hLe
    exact compareResources_le_iff.mpr hLe

/- Two declarations of one reference. -/
theorem resource_queries_sample :
    let resource := fun path =>
      ({ reference := [1, 2], name := [2], value := none,
         path := path, range := ⟨0, 0, 0, 1⟩ } :
        ArkUIStringResource)
    let resources := [resource [4], resource [3]]
    let snapshot :=
      createSnapshot .ready (sortResources resources)
    ∃ references result,
      Matching resources [1] references ∧
        findByPrefix snapshot [1] 1 = some result ∧
        result.status = .ready ∧
        result.resources.map (·.reference) =
          references.take (min (1 : Int).toNat 128) ∧
        (∀ resource ∈ result.resources,
          FirstDeclaration resources resource) ∧
        (result.isIncomplete = true ↔
          Status.ready ≠ .ready ∨
            min (1 : Int).toNat 128 < references.length) ∧
        ∀ reference,
          (findExact snapshot reference).1 = .ready ∧
            (findExact snapshot reference).2.Perm
              (resources.filter (·.reference == reference)) ∧
            (findExact snapshot reference).2.Pairwise
              fun left right =>
                compareResources left right ≤ 0 :=
  resource_queries .ready _ [1] (by decide) (by decide)

----------
-- Narrowed Queries
----------

def matching
    (resources : List ArkUIStringResource)
    (start : Text) : List ArkUIStringResource :=
  (firsts (sortResources resources)).filter fun resource =>
    startsWith resource.reference start

/- A query takes the first of the matching declarations. -/
theorem findByPrefix_eq
    (status : Status)
    (resources : List ArkUIStringResource)
    (start : Text)
    (limit : Int) :
    findByPrefix
        (createSnapshot status (sortResources resources))
        start limit =
      (boundedLimit limit maxPrefixQueryResources).map
        fun limit =>
          ⟨status,
            status != .ready ||
              decide (limit < (matching resources start).length),
            (matching resources start).take limit⟩ := by
  have hFirsts := firsts_spec (sortResources_sorted resources)
  have hBound := lowerBound_spec hFirsts.sorted start
  have hMatches :=
    PrefixSearch.filter_prefix
      (fun resource : ArkUIStringResource =>
        @startsWith_iff resource.reference start)
      hFirsts.sorted hBound.1 hBound.2
  unfold findByPrefix
  congr 1
  funext limit
  have hCollect :=
    PrefixSearch.collect_eq (firsts (sortResources resources))
      (fun resource => startsWith resource.reference start)
      limit
      (lowerBound (firsts (sortResources resources)) start)
  rw [hMatches, ← decide_eq_true_iff (p := limit < _),
    ← Bool.eq_iff_iff] at hCollect
  exact
    congrArg₂ (PrefixQueryResult.mk status)
      (congrArg (status != .ready || ·) hCollect.2) hCollect.1

theorem matching_append
    (resources : List ArkUIStringResource)
    (start more : Text) :
    matching resources (start ++ more) =
      (matching resources start).filter fun resource =>
        startsWith resource.reference (start ++ more) := by
  unfold matching
  rw [List.filter_filter]
  refine List.filter_congr fun resource _ => ?_
  rw [Bool.eq_iff_iff, Bool.and_eq_true, startsWith_iff,
    startsWith_iff]
  refine ⟨fun hMore => ⟨hMore, ?_⟩, And.left⟩
  exact (List.prefix_append _ _).trans hMore

/-
  What a client filters out of a complete answer, as more
  is typed, is what a new query answers.
-/
theorem findByPrefix_narrow
    {status : Status}
    {resources : List ArkUIStringResource}
    {start : Text}
    {limit : Int}
    {result : PrefixQueryResult}
    (hResult :
      findByPrefix
          (createSnapshot status (sortResources resources))
          start limit = some result)
    (hComplete : result.isIncomplete = false)
    (more : Text) :
    findByPrefix
        (createSnapshot status (sortResources resources))
        (start ++ more) limit =
      some
        ⟨.ready, false,
          result.resources.filter fun resource =>
            startsWith resource.reference (start ++ more)⟩ := by
  rw [findByPrefix_eq, Option.map_eq_some_iff] at hResult ⊢
  rcases hResult with ⟨bound, hBound, rfl⟩
  refine ⟨bound, hBound, ?_⟩
  simp only [Bool.or_eq_false_iff, bne_eq_false_iff_eq,
    decide_eq_false_iff_not, Nat.not_lt] at hComplete
  rcases hComplete with ⟨rfl, hAll⟩
  have hFewer : (matching resources (start ++ more)).length ≤ bound := by
    rw [matching_append]
    exact Nat.le_trans (List.length_filter_le _ _) hAll
  rw [List.take_of_length_le hFewer, List.take_of_length_le hAll,
    ← matching_append, decide_eq_false (Nat.not_lt.mpr hFewer)]
  rfl

/- A reference with a single declaration. -/
def typedResource (reference : Text) : ArkUIStringResource :=
  ⟨reference, [2], none, [3], ⟨0, 0, 0, 1⟩⟩

/- One more letter is typed: two of four references stay. -/
theorem findByPrefix_narrow_sample :
    let resources :=
      [[1, 2], [1, 2, 4], [1, 3], [5]].map typedResource
    findByPrefix
        (createSnapshot .ready (sortResources resources))
        ([1] ++ [2]) 3 =
      some
        ⟨.ready, false,
          (resources.take 3).filter fun resource =>
            startsWith resource.reference ([1] ++ [2])⟩ := by
  intro resources
  refine
    @findByPrefix_narrow _ _ _ _
      ⟨.ready, false, resources.take 3⟩ ?_ rfl [2]
  have hSorted : sortResources resources = resources :=
    List.mergeSort_of_pairwise (by decide)
  rw [findByPrefix_eq, matching, hSorted]
  rfl

----------
-- Loaded Resources
----------

/- What a file brings, and whether all of it was read. -/
def ResourceFile.declared :
    ResourceFile → List ArkUIStringResource
| .file _ (some parsed) => parsed.2
| _ => []

def ResourceFile.bytes : ResourceFile → Nat
| .missing => 0
| .file size _ => size

def ResourceFile.isRead : ResourceFile → Bool
| .file _ (some parsed) => parsed.1 != .unavailable
| _ => false

theorem loadFiles_spec
    (limits : Limits)
    (files : List ResourceFile)
    {status : Status}
    {totalBytes : Nat}
    {resources : List ArkUIStringResource}
    (hStatus : status ≠ .partially)
    (hBytes : totalBytes ≤ limits.maxResourceBytes)
    (hEntries : resources.length ≤ limits.maxResourceEntries) :
    let loaded :=
      loadFiles limits status totalBytes resources files
    loaded = (.partially, []) ∨
      loaded.1 ≠ .partially ∧
        loaded.2 = resources ++ files.flatMap (·.declared) ∧
        loaded.2.length ≤ limits.maxResourceEntries ∧
        totalBytes + (files.map (·.bytes)).sum
          ≤ limits.maxResourceBytes ∧
        (loaded.1 = .ready ↔
          status = .ready ∧ files.all (·.isRead)) := by
  fun_induction loadFiles limits status totalBytes resources files with
  | case1 status totalBytes resources =>
    refine Or.inr ⟨hStatus, ?_, hEntries, ?_, ?_⟩
    · exact (List.append_nil _).symm
    · exact hBytes
    · simp
  | case2 status totalBytes resources files ih =>
    have hRest := ih (by simp) hBytes hEntries
    simpa [ResourceFile.declared, ResourceFile.bytes,
      ResourceFile.isRead] using hRest
  | case3 => exact Or.inl rfl
  | case4 => exact Or.inl rfl
  | case5 status totalBytes resources files size hFile hTotal ih =>
    have hRest := ih (by simp) (by omega) hEntries
    simpa [ResourceFile.declared, ResourceFile.bytes,
      ResourceFile.isRead, Nat.add_assoc] using hRest
  | case6 => exact Or.inl rfl
  | case7 status totalBytes resources files size hFile hTotal parsed hFits ih =>
    have hKept :
        (if parsed.1 = .unavailable then .unavailable
          else status) ≠ Status.partially := by
      split
      · simp
      · exact hStatus
    have hRest := ih hKept (by omega) (by simpa using hFits)
    by_cases hParsed : parsed.1 = .unavailable
    · simpa [ResourceFile.declared, ResourceFile.bytes,
        ResourceFile.isRead, Nat.add_assoc, hParsed] using hRest
    · simpa [ResourceFile.declared, ResourceFile.bytes,
        ResourceFile.isRead, Nat.add_assoc, hParsed] using hRest

/-
  An index has all declarations of the discovered files or
  none, within its limits; it is ready only if the discovery
  was and every file was read.
-/
theorem load_allOrNothing
    (limits : Limits)
    (discovered : Status × List ResourceFile) :
    let snapshot := load limits discovered
    snapshot.resources.length ≤ limits.maxResourceEntries ∧
      (discovered.1 ≠ .ready ∧
          snapshot.status = discovered.1 ∧
          snapshot.resources = [] ∨
        discovered.1 = .ready ∧
          snapshot.status = .partially ∧
          snapshot.resources = [] ∨
        discovered.1 = .ready ∧
          snapshot.status ≠ .partially ∧
          snapshot.resources.Perm
            (discovered.2.flatMap (·.declared)) ∧
          (discovered.2.map (·.bytes)).sum
            ≤ limits.maxResourceBytes ∧
          (snapshot.status = .ready ↔
            discovered.2.all (·.isRead))) := by
  intro snapshot
  rcases discovered with ⟨status, files⟩
  by_cases hDiscovered : status = .ready
  · subst hDiscovered
    have hLoad :
        snapshot =
          createSnapshot (loadFiles limits .ready 0 [] files).1
            (sortResources
              (loadFiles limits .ready 0 [] files).2) := rfl
    rw [hLoad]
    have hPerm :=
      sortResources_perm (loadFiles limits .ready 0 [] files).2
    rcases @loadFiles_spec limits files .ready 0 []
        (by simp) (Nat.zero_le _) (Nat.zero_le _) with
      hNothing | ⟨hStatus, hAll, hEntries, hBytes, hReady⟩
    · rw [hNothing]
      simp [createSnapshot, sortResources]
    · refine
        ⟨?_, Or.inr (Or.inr ⟨rfl, hStatus, ?_, ?_, ?_⟩)⟩
      · exact hPerm.length_eq.trans_le hEntries
      · exact hPerm.trans (List.Perm.of_eq hAll)
      · simpa using hBytes
      · simpa [createSnapshot] using hReady
  · have hLoad : snapshot = createSnapshot status [] := by
      unfold snapshot load
      exact if_pos hDiscovered
    rw [hLoad]
    exact ⟨Nat.zero_le _, Or.inl ⟨hDiscovered, rfl, rfl⟩⟩

end Resources

end ArktsServer
