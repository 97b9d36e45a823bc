import ArktsServer.Core.TypeScriptReferenceQuery
import ArktsServer.Semantic.ReferenceCacheSafety

/-
  The other references of a query are what the query with the
  other choice returns: where all of them have a place, both
  runs see the same places in the same order and only put
  them into different lists.  What the cache stores under the
  toggled flag is what that other run would have answered.

  Key definitions include:
    * `Gathered.swap`
    * `mapReferences`

  Correctness is proven by:
    * `visitReference_twin`, `visitDefinitions_twin`
    * `conclude_twin`
    * `query_twin`
    * `cached_twin`
-/

namespace ArktsServer

namespace ReferenceQuery

open UnixPath References

----------
-- Outcomes
----------

variable {α β : Type}
variable {outcome : Outcome α}
variable {next : Work → α → Outcome β}

theorem bind_eq_going
    {work : Work}
    {value : β} :
    outcome.bind next = .going work value ↔
      ∃ middle first,
        outcome = .going middle first ∧
          next middle first = .going work value := by
  cases outcome with
  | going middle first =>
    constructor
    · intro hNext
      exact ⟨middle, first, rfl, hNext⟩
    · rintro ⟨_, _, hSame, hNext⟩
      injection hSame with hMiddle hFirst
      subst hMiddle
      subst hFirst
      exact hNext
  | finished result =>
    constructor
    · intro hNext
      cases hNext
    · rintro ⟨_, _, hSame, _⟩
      cases hSame
  | thrown =>
    constructor
    · intro hNext
      cases hNext
    · rintro ⟨_, _, hSame, _⟩
      cases hSame

theorem bind_assoc
    {α β γ : Type}
    (outcome : Outcome α)
    (next : Work → α → Outcome β)
    (last : Work → β → Outcome γ) :
    (outcome.bind next).bind last =
      outcome.bind fun work value =>
        (next work value).bind last := by
  cases outcome with
  | going work value => rfl
  | finished result => rfl
  | thrown => rfl

section Twins

variable {Program Collation : Type}
variable {port : ReferenceQueryPort Program}
variable {host : QueryHost Collation}

variable {result : SemanticReferenceQueryResult}

variable {work after : Work}

/- A query that has ended does not go on. -/
theorem finish_ne_going
    {α : Type}
    {value : α} :
    finish port work result ≠ .going after value := by
  intro hGoing
  rcases bind_eq_going.mp hGoing with ⟨_, _, _, hDone⟩
  cases hDone

theorem items_add
    (first second : Nat)
    (work : Work) :
    items port (first + second) work =
      (items port first work).bind fun work _ =>
        items port second work := by
  induction first generalizing work with
  | zero =>
    rw [Nat.zero_add]
    rfl
  | succ first ih =>
    rw [Nat.succ_add, items, items, bind_assoc]
    congr 1
    funext middle _
    exact ih middle

----------
-- References
----------

/- The two lists exchanged. -/
def Gathered.swap (gathered : Gathered) : Gathered :=
  { gathered with
    references := gathered.otherReferences
    seen := gathered.otherSeen
    otherReferences := gathered.references
    otherSeen := gathered.seen }

theorem viewOf_swap
    (targetPath : FilePath)
    (work : Work)
    (gathered : Gathered) :
    viewOf port targetPath work gathered.swap =
      ((viewOf port targetPath work gathered).1,
        (viewOf port targetPath work gathered).2.1.swap,
        (viewOf port targetPath work gathered).2.2) := by
  have hSame :
      gathered.swap.sourceViews = gathered.sourceViews :=
    rfl
  unfold viewOf
  rw [hSame]
  cases gathered.sourceViews.get targetPath with
  | some view => rfl
  | none =>
    cases port.sourceView work.clock targetPath with
    | none => rfl
    | some view => rfl

theorem viewOf_otherComplete
    (targetPath : FilePath)
    (work : Work)
    (gathered : Gathered) :
    (viewOf port targetPath work gathered).2.1.otherComplete =
      gathered.otherComplete := by
  unfold viewOf
  split
  · rfl
  · split
    · rfl
    · rfl

variable {gathered final : Gathered}

/- A reference without a place ends the completeness. -/
theorem unplaced_going
    {primary : Bool}
    {reason : FailureReason}
    (hGoing :
      unplaced port primary reason work gathered =
        .going after final) :
    final.otherComplete = false := by
  unfold unplaced at hGoing
  split at hGoing
  · exact absurd hGoing finish_ne_going
  · injection hGoing with _ hSame
    rw [← hSame]

variable {canonicalDefinitionKeys : List (List Char)}
variable {includeDeclaration : Bool}

/-
  One reference: where the other list stays complete, the
  other run does the same with the lists exchanged.
-/
theorem visitReference_twin
    {reference : ReferenceEntry}
    (hGoing :
      visitReference port host includeDeclaration
        canonicalDefinitionKeys reference work gathered =
          .going after final)
    (hFinal : final.otherComplete = true) :
    gathered.otherComplete = true ∧
      visitReference port host (!includeDeclaration)
        canonicalDefinitionKeys reference work
        gathered.swap = .going after final.swap := by
  unfold visitReference at hGoing
  rcases bind_eq_going.mp hGoing with
    ⟨middle, _, hItem, hRest⟩
  simp only at hRest
  unfold visitReference
  rw [hItem]
  simp only [Outcome.bind, Bool.not_not]
  generalize
    (reference.isDefinition == some true
      || has canonicalDefinitionKeys
        (typescriptSpanKey (resolved host reference.fileName)
          reference.textSpan)) = canonical at hRest ⊢
  split at hRest
  · rename_i hSkipped
    injection hRest with _ hSame
    subst hSame
    rw [hFinal, Bool.not_true, Bool.and_false] at hSkipped
    cases hSkipped
  · split at hRest
    · rw [unplaced_going hRest] at hFinal
      cases hFinal
    · rename_i hWithin
      split at hRest
      · rw [unplaced_going hRest] at hFinal
        cases hFinal
      · rename_i view hView
        split at hRest
        · rw [unplaced_going hRest] at hFinal
          cases hFinal
        · rename_i range hRange
          injection hRest with hAfter hSame
          subst hAfter
          subst hSame
          have hComplete : gathered.otherComplete = true := by
            rw [← viewOf_otherComplete]
            exact hFinal
          have hSwapped :
              gathered.swap.otherComplete = true :=
            hComplete
          refine ⟨hComplete, ?_⟩
          rw [hSwapped, Bool.not_true, Bool.and_false,
            if_neg Bool.false_ne_true, if_neg hWithin,
            viewOf_swap, hView]
          simp only [hRange]
          rfl

theorem visitReferences_twin
    {references : List ReferenceEntry}
    (hGoing :
      visitReferences port host includeDeclaration
        canonicalDefinitionKeys references work gathered =
          .going after final)
    (hFinal : final.otherComplete = true) :
    gathered.otherComplete = true ∧
      visitReferences port host (!includeDeclaration)
        canonicalDefinitionKeys references work
        gathered.swap = .going after final.swap := by
  induction references generalizing work gathered with
  | nil =>
    injection hGoing with hWork hSame
    subst hWork
    subst hSame
    exact ⟨hFinal, rfl⟩
  | cons reference references ih =>
    rcases bind_eq_going.mp hGoing with
      ⟨middle, first, hFirst, hRest⟩
    rcases ih hRest with ⟨hMiddle, hOthers⟩
    rcases visitReference_twin hFirst hMiddle with
      ⟨hComplete, hTwin⟩
    refine ⟨hComplete, ?_⟩
    rw [visitReferences, hTwin]
    exact hOthers

theorem visitDefinitions_twin
    {definitions : List DefinitionInfo}
    (hGoing :
      visitDefinitions port host includeDeclaration
        canonicalDefinitionKeys definitions work gathered =
          .going after final)
    (hFinal : final.otherComplete = true) :
    gathered.otherComplete = true ∧
      visitDefinitions port host (!includeDeclaration)
        canonicalDefinitionKeys definitions work
        gathered.swap = .going after final.swap := by
  induction definitions generalizing work gathered with
  | nil =>
    injection hGoing with hWork hSame
    subst hWork
    subst hSame
    exact ⟨hFinal, rfl⟩
  | cons definition definitions ih =>
    rw [visitDefinitions] at hGoing
    rcases bind_eq_going.mp hGoing with
      ⟨first, _, hFirst, hGoing⟩
    rcases bind_eq_going.mp hGoing with
      ⟨second, _, hSecond, hGoing⟩
    rcases bind_eq_going.mp hGoing with
      ⟨third, _, hThird, hGoing⟩
    rcases bind_eq_going.mp hGoing with
      ⟨fourth, visited, hVisited, hRest⟩
    rcases ih hRest with ⟨hMiddle, hOthers⟩
    rcases visitReferences_twin hVisited hMiddle with
      ⟨hComplete, hTwin⟩
    refine ⟨hComplete, ?_⟩
    rw [visitDefinitions]
    exact
      bind_eq_going.mpr
        ⟨first, _, hFirst,
          bind_eq_going.mpr
            ⟨second, _, hSecond,
              bind_eq_going.mpr
                ⟨third, _, hThird,
                  bind_eq_going.mpr ⟨fourth, _, hTwin, hOthers⟩⟩⟩⟩

----------
-- Queries
----------

theorem bind_eq_finished
    (hFinished : outcome.bind next = .finished result) :
    outcome = .finished result ∨
      ∃ middle first,
        outcome = .going middle first ∧
          next middle first = .finished result := by
  cases outcome with
  | going middle first => exact Or.inr ⟨middle, first, rfl, hFinished⟩
  | finished other =>
    injection hFinished with hSame
    rw [hSame]
    exact Or.inl rfl
  | thrown => cases hFinished

theorem bind_finished
    {middle : Work}
    {first : α}
    (hFirst : outcome = .going middle first)
    (hNext : next middle first = .finished result) :
    outcome.bind next = .finished result := by
  rw [hFirst]
  exact hNext

variable {work : Work}

theorem boundary_ne_finished
    {result : SemanticReferenceQueryResult} :
    boundary port work ≠ .finished result := by
  unfold boundary
  split
  · intro hSame
    cases hSame
  · intro hSame
    cases hSame

theorem item_ne_finished
    {result : SemanticReferenceQueryResult} :
    item port work ≠ .finished result := by
  unfold item
  split
  · intro hSame
    cases hSame
  · exact boundary_ne_finished

theorem items_ne_finished
    {count : Nat}
    {result : SemanticReferenceQueryResult} :
    items port count work ≠ .finished result := by
  induction count generalizing work with
  | zero =>
    intro hSame
    cases hSame
  | succ count ih =>
    intro hSame
    rcases bind_eq_finished hSame with
      hItem | ⟨middle, _, _, hRest⟩
    · exact item_ne_finished hItem
    · exact ih hRest

theorem finish_eq_finished
    {α : Type}
    {result final : SemanticReferenceQueryResult}
    (hFinished :
      (finish port work result : Outcome α) =
        .finished final) :
    final = result ∧
      ∀ other,
        (finish port work other : Outcome α) =
          .finished other := by
  rcases bind_eq_finished hFinished with
    hBoundary | ⟨middle, _, hBoundary, hDone⟩
  · exact absurd hBoundary boundary_ne_finished
  · injection hDone with hSame
    refine ⟨hSame.symm, ?_⟩
    intro other
    unfold finish
    rw [hBoundary]
    rfl

/- A query that stops at the membership is incomplete. -/
theorem checkMembership_finished
    (hFinished :
      checkMembership port work = .finished result) :
    ∃ reason, result = .incomplete reason := by
  unfold checkMembership at hFinished
  split at hFinished
  · rename_i reason _
    exact ⟨reason, (finish_eq_finished hFinished).1⟩
  · cases hFinished

variable [DecidableEq Program] [LinearOrder Collation]

variable {gathered : Gathered}

omit [DecidableEq Program] in
theorem sortOthers_complete
    (hComplete : gathered.otherComplete = true)
    (work : Work) :
    sortOthers port host gathered work =
      (items port (host.comparisons gathered.otherReferences)
        work).bind fun work _ =>
        .going work
          (some (sorted host gathered.otherReferences)) := by
  unfold sortOthers
  rw [if_pos hComplete]

variable {searchedProjectPaths : Option (List FilePath)}
variable {constructorTarget : Option ConstructorTarget}
variable {references other : List DefinitionCandidate}

/- The two sorts take the same number of items together. -/
theorem conclude_twin
    {captureSearchScope : Bool}
    {prepared : Prepared Program}
    (hFinished :
      conclude port host captureSearchScope prepared work
          gathered =
        .finished
          (.complete references (some other)
            searchedProjectPaths constructorTarget)) :
    gathered.otherComplete = true ∧
      conclude port host captureSearchScope prepared work
          gathered.swap =
        .finished
          (.complete other (some references)
            searchedProjectPaths constructorTarget) := by
  unfold conclude at hFinished
  rcases bind_eq_finished hFinished with
    hBoundary | ⟨first, _, hBoundary, hRest⟩
  · exact absurd hBoundary boundary_ne_finished
  · simp only at hRest
    rcases bind_eq_finished hRest with
      hCheck | ⟨second, _, hCheck, hMore⟩
    · rcases checkMembership_finished hCheck with
        ⟨reason, hSame⟩
      cases hSame
    · rcases bind_eq_finished hMore with
        hItems | ⟨third, _, hItems, hLast⟩
      · exact absurd hItems items_ne_finished
      · by_cases hComplete : gathered.otherComplete = true
        · rw [sortOthers_complete hComplete] at hLast
          rw [bind_assoc] at hLast
          rcases bind_eq_finished hLast with
            hOther | ⟨fourth, _, hOther, hFinish⟩
          · exact absurd hOther items_ne_finished
          · rcases finish_eq_finished hFinish with
              ⟨hSame, hAny⟩
            injection hSame with hReferences hOthers hPaths
              hTarget
            injection hOthers with hOthers
            refine ⟨hComplete, ?_⟩
            have hBoth :
                items port
                    (host.comparisons
                        gathered.otherReferences
                      + host.comparisons gathered.references)
                    second =
                  .going fourth () := by
              rw [Nat.add_comm, items_add]
              exact bind_eq_going.mpr ⟨third, _, hItems, hOther⟩
            rw [items_add] at hBoth
            rcases bind_eq_going.mp hBoth with
              ⟨between, _, hFirst, hSecond⟩
            have hSorted :
                sortOthers port host gathered.swap between =
                  .going fourth
                    (some (sorted host gathered.references)) := by
              rw [sortOthers_complete
                (show gathered.swap.otherComplete = true from
                  hComplete)]
              exact bind_eq_going.mpr ⟨fourth, _, hSecond, rfl⟩
            rw [hReferences, hOthers, hPaths, hTarget]
            unfold conclude
            exact
              bind_finished hBoundary
                (bind_finished hCheck
                  (bind_finished hFirst
                    (bind_finished hSorted (hAny _))))
        · unfold sortOthers at hLast
          rw [if_neg hComplete] at hLast
          have hSame := (finish_eq_finished hLast).1
          injection hSame with _ hOthers
          cases hOthers

variable {expectedProgram : Option Program}
variable {position : DocumentPosition}

omit [LinearOrder Collation] in
/- The preparation ends in a result of both choices alike. -/
theorem prepare_finished
    {captureSearchScope : Bool}
    (hFinished :
      prepare port host position captureSearchScope
          expectedProgram =
        .finished
          (.complete references (some other)
            searchedProjectPaths constructorTarget)) :
    references = other := by
  unfold prepare at hFinished
  rcases bind_eq_finished hFinished with
    hBoundary | ⟨first, _, _, hFinished⟩
  · exact absurd hBoundary boundary_ne_finished
  rcases bind_eq_finished hFinished with
    hCheck | ⟨second, _, _, hFinished⟩
  · rcases checkMembership_finished hCheck with
      ⟨reason, hSame⟩
    cases hSame
  simp only at hFinished
  split at hFinished
  · cases (finish_eq_finished hFinished).1
  rcases bind_eq_finished hFinished with
    hBoundary | ⟨third, _, _, hFinished⟩
  · exact absurd hBoundary boundary_ne_finished
  split at hFinished
  · cases (finish_eq_finished hFinished).1
  rcases bind_eq_finished hFinished with
    hBoundary | ⟨fourth, _, _, hFinished⟩
  · exact absurd hBoundary boundary_ne_finished
  rcases bind_eq_finished hFinished with
    hCheck | ⟨fifth, _, _, hFinished⟩
  · rcases checkMembership_finished hCheck with
      ⟨reason, hSame⟩
    cases hSame
  split at hFinished
  · have hSame := (finish_eq_finished hFinished).1
    injection hSame with hReferences hOthers
    injection hOthers with hOthers
    rw [hReferences, hOthers]
  · rcases bind_eq_finished hFinished with
      hItems | ⟨sixth, _, _, hGoing⟩
    · exact absurd hItems items_ne_finished
    · cases hGoing

omit [DecidableEq Program] [LinearOrder Collation]

theorem unplaced_finished
    {primary : Bool}
    {reason : FailureReason}
    (hFinished :
      unplaced port primary reason work gathered =
        .finished result) :
    ∃ reason, result = .incomplete reason := by
  unfold unplaced at hFinished
  split at hFinished
  · exact ⟨reason, (finish_eq_finished hFinished).1⟩
  · cases hFinished

/- A query that ends at a reference is incomplete. -/
theorem visitReferences_finished
    {references : List ReferenceEntry}
    (hFinished :
      visitReferences port host includeDeclaration
        canonicalDefinitionKeys references work gathered =
          .finished result) :
    ∃ reason, result = .incomplete reason := by
  induction references generalizing work gathered with
  | nil => cases hFinished
  | cons reference references ih =>
    rcases bind_eq_finished hFinished with
      hFirst | ⟨_, _, _, hRest⟩
    · unfold visitReference at hFirst
      rcases bind_eq_finished hFirst with
        hItem | ⟨_, _, _, hPlace⟩
      · exact absurd hItem item_ne_finished
      · simp only at hPlace
        split at hPlace
        · cases hPlace
        · split at hPlace
          · exact unplaced_finished hPlace
          · split at hPlace
            · exact unplaced_finished hPlace
            · split at hPlace
              · exact unplaced_finished hPlace
              · cases hPlace
    · exact ih hRest

theorem visitDefinitions_finished
    {definitions : List DefinitionInfo}
    (hFinished :
      visitDefinitions port host includeDeclaration
        canonicalDefinitionKeys definitions work gathered =
          .finished result) :
    ∃ reason, result = .incomplete reason := by
  induction definitions generalizing work gathered with
  | nil => cases hFinished
  | cons definition definitions ih =>
    rw [visitDefinitions] at hFinished
    rcases bind_eq_finished hFinished with
      hBoundary | ⟨_, _, _, hFinished⟩
    · exact absurd hBoundary boundary_ne_finished
    rcases bind_eq_finished hFinished with
      hBoundary | ⟨_, _, _, hFinished⟩
    · exact absurd hBoundary boundary_ne_finished
    rcases bind_eq_finished hFinished with
      hCheck | ⟨_, _, _, hFinished⟩
    · exact checkMembership_finished hCheck
    rcases bind_eq_finished hFinished with
      hVisit | ⟨_, _, _, hRest⟩
    · exact visitReferences_finished hVisit
    · exact ih hRest

variable [DecidableEq Program] [LinearOrder Collation]

theorem query_eq_some
    {includeDeclaration captureSearchScope : Bool}
    {result : SemanticReferenceQueryResult} :
    queryTypeScriptReferences port host position
        includeDeclaration captureSearchScope
        expectedProgram = some result ↔
      ((prepare port host position captureSearchScope
          expectedProgram).bind fun work prepared =>
        (visitDefinitions port host includeDeclaration
          prepared.canonicalDefinitionKeys
          prepared.definitions work Gathered.empty).bind
          (conclude port host captureSearchScope prepared)) =
        .finished result := by
  unfold queryTypeScriptReferences
  split
  · rename_i other hOther
    rw [hOther]
    constructor
    · intro hSame
      rw [Option.some.inj hSame]
    · intro hSame
      injection hSame with hSame
      rw [hSame]
  · rename_i hGoing
    rw [hGoing]
    constructor
    · intro hSame
      cases hSame
    · intro hSame
      cases hSame
  · rename_i hThrown
    rw [hThrown]
    constructor
    · intro hSame
      cases hSame
    · intro hSame
      cases hSame

/-
  The other references of a complete query are the references
  of the query with the other choice, and vice versa.
-/
theorem query_twin
    {includeDeclaration captureSearchScope : Bool}
    (hQuery :
      queryTypeScriptReferences port host position
          includeDeclaration captureSearchScope
          expectedProgram =
        some
          (.complete references (some other)
            searchedProjectPaths constructorTarget)) :
    queryTypeScriptReferences port host position
        (!includeDeclaration) captureSearchScope
        expectedProgram =
      some
        (.complete other (some references)
          searchedProjectPaths constructorTarget) := by
  rw [query_eq_some] at hQuery ⊢
  rcases bind_eq_finished hQuery with
    hPrepared | ⟨work, prepared, hPrepared, hRest⟩
  · have hSame := prepare_finished hPrepared
    rw [hPrepared, hSame]
    rfl
  · rcases bind_eq_finished hRest with
      hVisited | ⟨after, gathered, hVisited, hConclude⟩
    · rcases visitDefinitions_finished hVisited with
        ⟨reason, hSame⟩
      cases hSame
    · rcases conclude_twin hConclude with ⟨hComplete, hTwin⟩
      rcases visitDefinitions_twin hVisited hComplete with
        ⟨_, hSwapped⟩
      exact bind_finished hPrepared (bind_finished hSwapped hTwin)

end Twins

----------
-- Cached Answers
----------

/- Lines and columns of the compiler count from one. -/
def mapReferences
    (pathToFileURL : FilePath → JsonText.Units)
    (references : List DefinitionCandidate) :
    List ReferenceCache.SemanticReference :=
  references.map fun reference =>
    { uri := pathToFileURL reference.path
      range :=
        { start :=
            ⟨reference.range.startLine - 1,
              reference.range.startColumn - 1⟩
          stop :=
            ⟨reference.range.endLine - 1,
              reference.range.endColumn - 1⟩ } }

/-
  The run with the other choice answers what was collected
  for it, and so does the cache once both answers are set.
-/
theorem cached_twin
    {Program Collation : Type}
    [DecidableEq Program]
    [LinearOrder Collation]
    (port : ReferenceQueryPort Program)
    (host : QueryHost Collation)
    (position : DocumentPosition)
    (includeDeclaration captureSearchScope : Bool)
    (expectedProgram : Option Program)
    (references other : List DefinitionCandidate)
    (searchedProjectPaths : Option (List FilePath))
    (constructorTarget : Option ConstructorTarget)
    (hQuery :
      queryTypeScriptReferences port host position
          includeDeclaration captureSearchScope
          expectedProgram =
        some
          (.complete references (some other)
            searchedProjectPaths constructorTarget)) :
    ∃ direct,
      queryTypeScriptReferences port host position
          (!includeDeclaration) captureSearchScope
          expectedProgram =
        some
          (.complete direct (some references)
            searchedProjectPaths constructorTarget) ∧
      direct = other ∧
      ∀ (sha256 : JsonText.Units → JsonText.Units)
        (limits : ReferenceCache.CacheLimits)
        (operations : List ReferenceCache.Operation)
        (world : ReferenceCache.World)
        (document : ReferenceCache.DocumentSnapshot)
        (place : ReferenceCache.TextPosition)
        (pathToFileURL : FilePath → JsonText.Units)
        (address otherAddress : ReferenceCache.Address)
        (inputProof : Option JsonText.Units),
        Function.Injective sha256 →
        ReferenceCache.run sha256 limits
            ReferenceCache.World.start operations =
          some world →
        ReferenceCache.readKnown world address =
          some (mapReferences pathToFileURL references) →
        ReferenceCache.readKnown world otherAddress =
          some (mapReferences pathToFileURL other) →
        ReferenceCache.fits limits
            (mapReferences pathToFileURL references)
            inputProof = true →
        ReferenceCache.fits limits
            (mapReferences pathToFileURL other)
            inputProof = true →
        ∃ next heap cache answer,
          ReferenceCache.step sha256 limits world
              (.set ⟨document, place, includeDeclaration⟩
                (.complete address (some otherAddress))
                inputProof) =
            some next ∧
          ReferenceCache.getWithProof sha256 next.heap
              next.cache
              ⟨document, place, !includeDeclaration⟩ =
            some (heap, cache, some answer) ∧
          ReferenceCache.readReferences heap
              answer.references =
            some (mapReferences pathToFileURL direct) := by
  refine ⟨other, query_twin hQuery, rfl, ?_⟩
  intro sha256 limits operations world document place
    pathToFileURL address otherAddress inputProof hSha hRun
    hReferences hOther hFits hOtherFits
  have hWorld :=
    @ReferenceCache.worldInv_run _ limits hSha _ _ _
      ReferenceCache.worldInv_start hRun
  exact
    @ReferenceCache.set_variant _ limits _ _ _ _ hSha _ hWorld
      ⟨document, place, includeDeclaration⟩ inputProof
      hReferences hOther hFits hOtherFits

----------
-- A Search with a Declaration
----------

/- The text is `a;a`, and the first `a` is the declaration. -/
def samplePort : ReferenceQueryPort Unit where
  rootPath := ['/', 'w']
  checkpointFails := fun _ => false
  querySource := fun _ _ =>
    some
      { content := [97, 59, 97]
        virtualDocument := createSourceDocument [97, 59, 97] }
  sourceView := fun _ _ =>
    some
      { content := [97, 59, 97]
        virtualDocument := createSourceDocument [97, 59, 97] }
  membershipFailure := fun _ => none
  getProgram := fun _ => some ()
  getSourceFiles := fun _ => [['/', 'w', '/', 'a']]
  getDefinitionAtPosition := fun _ _ _ =>
    some [⟨['/', 'w', '/', 'a'], ⟨0, 1⟩, "const"⟩]
  findReferences := fun _ _ _ =>
    some
      [⟨[⟨['/', 'w', '/', 'a'], ⟨0, 1⟩, some true⟩,
        ⟨['/', 'w', '/', 'a'], ⟨2, 1⟩, none⟩]⟩]

def sampleHost : QueryHost Nat where
  planner :=
    { cwd := ['/']
      collationKey := fun text =>
        text.foldl (fun key char => key * 256 + char.toNat) 0 }
  comparisons := List.length

def samplePosition : DocumentPosition where
  path := ['/', 'w', '/', 'a']
  line := 1
  column := 3
  expectedReferenceAnchor := none

def sampleDeclaration : DefinitionCandidate :=
  ⟨['/', 'w', '/', 'a'], ⟨1, 1, 1, 2⟩⟩

def sampleUse : DefinitionCandidate :=
  ⟨['/', 'w', '/', 'a'], ⟨1, 3, 1, 4⟩⟩

theorem sample_query :
    queryTypeScriptReferences samplePort sampleHost
        samplePosition true false none =
      some
        (.complete [sampleDeclaration, sampleUse]
          (some [sampleUse]) none none) := by
  decide +kernel

def sampleFileURL (path : FilePath) : JsonText.Units :=
  ReferenceCache.asciiUnits "file://"
    ++ path.map fun char => UInt16.ofNat char.toNat

/- Both arrays, at 8 and at 9. -/
def sampleObjects : List ReferenceCache.Operation :=
  let uri := sampleFileURL ['/', 'w', '/', 'a']
  [.create (.position ⟨0, 0⟩), .create (.position ⟨0, 1⟩),
    .create (.range 0 1), .create (.reference uri 2),
    .create (.position ⟨0, 2⟩), .create (.position ⟨0, 3⟩),
    .create (.range 4 5), .create (.reference uri 6),
    .create (.array [3, 7]), .create (.array [7])]

def sampleDocument : ReferenceCache.DocumentSnapshot where
  uri := sampleFileURL ['/', 'w', '/', 'a']
  version := 1
  text := [97, 59, 97]
  workspaceId := [119]

theorem cached_twin_sample :
    queryTypeScriptReferences samplePort sampleHost
          samplePosition true false none =
        some
          (.complete [sampleDeclaration, sampleUse]
            (some [sampleUse]) none none) ∧
      ∃ direct,
        queryTypeScriptReferences samplePort sampleHost
            samplePosition false false none =
          some
            (.complete direct
              (some [sampleDeclaration, sampleUse]) none
              none) ∧
        direct = [sampleUse] ∧
        ∃ world next heap cache answer,
          ReferenceCache.run id ReferenceCache.sampleLimits
              ReferenceCache.World.start sampleObjects =
            some world ∧
          ReferenceCache.step id ReferenceCache.sampleLimits
              world
              (.set ⟨sampleDocument, ⟨0, 2⟩, true⟩
                (.complete 8 (some 9)) none) =
            some next ∧
          ReferenceCache.getWithProof id next.heap next.cache
              ⟨sampleDocument, ⟨0, 2⟩, false⟩ =
            some (heap, cache, some answer) ∧
          ReferenceCache.readReferences heap
              answer.references =
            some (mapReferences sampleFileURL direct) := by
  refine ⟨sample_query, ?_⟩
  rcases
      cached_twin samplePort sampleHost samplePosition true
        false none _ _ _ _ sample_query
    with ⟨direct, hDirect, hSame, hCached⟩
  refine ⟨direct, hDirect, hSame, ?_⟩
  have hObjects :
      (ReferenceCache.run id ReferenceCache.sampleLimits
          ReferenceCache.World.start sampleObjects).any
        (fun world =>
          decide
            (ReferenceCache.readKnown world 8 =
                some
                  (mapReferences sampleFileURL
                    [sampleDeclaration, sampleUse]) ∧
              ReferenceCache.readKnown world 9 =
                some
                  (mapReferences sampleFileURL
                    [sampleUse]))) = true := by
    decide +kernel
  rcases (Option.any_eq_true _ _).mp hObjects with
    ⟨world, hRun, hBoth⟩
  have hRead := of_decide_eq_true hBoth
  rcases
      hCached id ReferenceCache.sampleLimits sampleObjects
        world sampleDocument ⟨0, 2⟩ sampleFileURL 8 9 none
        Function.injective_id hRun hRead.1 hRead.2
        (by decide +kernel) (by decide +kernel)
    with ⟨next, heap, cache, answer, hStep, hGet, hAnswer⟩
  exact
    ⟨world, next, heap, cache, answer, hRun, hStep, hGet,
      hAnswer⟩

end ReferenceQuery

end ArktsServer
