import ArktsServer.Semantic.ReferenceBatches
import ArktsServer.Semantic.ReferenceSearchExecutor

/-
  The executor comes to an end.  A batch is verified again
  only with more of the membership, at most once for each
  unit; and every restart drops the expected anchor, the
  semantic graph or the constructor exclusions for good.

  Key definitions include:
    * `HonestVerifier`
    * `Enlarges`, `Retried`
    * `Drops`, `restartsLeft`

  Correctness is proven by:
    * `expansion_enlarges`
    * `verifyBatches_retried`
    * `collectBatches_retried`
    * `attempt_drops`
    * `execute_terminates`
-/

namespace ArktsServer

namespace References

open UnixPath

----------
-- Admissions
----------

/- A rejected anchor was expected. -/
def HonestVerifier (surroundings : Surroundings) : Prop :=
  ∀ clock call verification,
    surroundings.verifyBatch clock call = some verification →
      verification.anchorVerified = some false →
        call.position.expectedReferenceAnchor.isSome

variable (membershipPaths : List FilePath)

/- More of the membership, and all there was. -/
def Enlarges
    (first second : Option (List FilePath)) : Prop :=
  ∃ admitted expanded,
    first = some admitted ∧ second = some expanded ∧
      admitted ⊆ expanded ∧
      (∃ filePath ∈ expanded, filePath ∉ admitted) ∧
      expanded ⊆ membershipPaths

theorem Enlarges.trans
    {membershipPaths : List FilePath}
    {first second third : Option (List FilePath)}
    (hFirst : Enlarges membershipPaths first second)
    (hSecond : Enlarges membershipPaths second third) :
    Enlarges membershipPaths first third := by
  rcases hFirst with
    ⟨admitted, expanded, hAdmitted, hExpanded, hSub,
      ⟨filePath, hMem, hNew⟩, _⟩
  rcases hSecond with
    ⟨middle, larger, hMiddle, hLarger, hMore, _, hMembers⟩
  rw [hExpanded] at hMiddle
  injection hMiddle with hSame
  subst hSame
  exact
    ⟨admitted, larger, hAdmitted, hLarger,
      List.Subset.trans hSub hMore,
      ⟨filePath, hMore hMem, hNew⟩, hMembers⟩

/- The members that are in a set, all of it. -/
def Admission
    (admittedPaths : Option (List FilePath)) : Prop :=
  ∀ admitted ∈ admittedPaths,
    admitted =
      membershipPaths.filter fun filePath =>
        has admitted filePath

theorem admission_filter
    (keep : FilePath → Bool) :
    Admission membershipPaths
      (some (membershipPaths.filter keep)) := by
  intro admitted hAdmitted
  injection hAdmitted with hSame
  subst hSame
  refine List.filter_congr ?_
  intro filePath hMember
  rw [Bool.eq_iff_iff, has_iff, List.mem_filter]
  exact ⟨fun hKeep => ⟨hMember, hKeep⟩, fun hMem => hMem.2⟩

/- A longer selection of the same list has something new. -/
theorem exists_new
    {items first second : List FilePath}
    (hFirst : first = items.filter fun item => has first item)
    (hSecond :
      second = items.filter fun item => has second item)
    (hLonger : first.length < second.length) :
    ∃ item ∈ second, item ∉ first := by
  by_contra hNone
  have hSub : ∀ item ∈ second, item ∈ first := by
    intro item hItem
    by_contra hNew
    exact hNone ⟨item, hItem, hNew⟩
  have hLess :
      (items.filter fun item => has second item).length ≤
        (items.filter fun item => has first item).length := by
    rw [← List.countP_eq_length_filter,
      ← List.countP_eq_length_filter]
    refine List.countP_mono_left ?_
    intro item _ hItem
    exact has_iff.mpr (hSub item (has_iff.mp hItem))
  rw [← hFirst, ← hSecond] at hLess
  omega

section Executing

variable {Collation : Type}
variable {host : PlannerHost Collation}
variable {surroundings : Surroundings}
variable {options : ReferenceSearchExecutorOptions}
variable {workspace : SemanticWorkspaceView}

/- The members of a workspace. -/
def memberPaths
    (host : PlannerHost Collation)
    (workspace : SemanticWorkspaceView) : List FilePath :=
  (workspace.projectMembership.map
    fun membership =>
      membership.paths.map (resolve host.cwd)).getD []

theorem expand_spec
    {admitted unavailable membershipPaths : List FilePath}
    {graph : HarmonySemanticGraph}
    {expanded : ReferenceBatchAdmissionExpansion}
    (hAdmitted :
      Admission (membershipPaths.map (resolve host.cwd))
        (some admitted))
    (hExpanded :
      expandReferenceBatchAdmission host admitted unavailable
        membershipPaths graph = some expanded) :
    Admission (membershipPaths.map (resolve host.cwd))
        (some expanded.admittedProjectPaths) ∧
      Enlarges (membershipPaths.map (resolve host.cwd))
        (some admitted)
        (some expanded.admittedProjectPaths) := by
  unfold expandReferenceBatchAdmission at hExpanded
  split at hExpanded
  · cases hExpanded
  · rcases Option.bind_eq_some_iff.mp hExpanded with
      ⟨seedUnits, _, hRest⟩
    rcases Option.bind_eq_some_iff.mp hRest with
      ⟨addedUnits, _, hResult⟩
    simp only at hResult
    split at hResult
    · cases hResult
    · rename_i hAdded
      injection hResult with hResult
      subst hResult
      simp only at hAdded ⊢
      have hNext :
          Admission (membershipPaths.map (resolve host.cwd))
            (some
              ((membershipPaths.map
                (resolve host.cwd)).filter fun filePath =>
                  filePath ∈
                    admitted.map (resolve host.cwd)
                      ++ pathsOfUnits host graph.units
                        addedUnits
                        (unique
                          (membershipPaths.map
                            (resolve host.cwd))))) :=
        admission_filter _ _
      have hMembers : ∀ filePath ∈ admitted,
          filePath ∈ membershipPaths.map (resolve host.cwd) := by
        intro filePath hMem
        have hSame := hAdmitted admitted rfl
        rw [hSame] at hMem
        exact (List.mem_filter.mp hMem).1
      refine ⟨hNext, admitted, _, rfl, rfl, ?_, ?_, ?_⟩
      · intro filePath hMem
        refine
          List.mem_filter.mpr
            ⟨hMembers filePath hMem, decide_eq_true ?_⟩
        refine List.mem_append_left _ ?_
        rcases List.mem_map.mp (hMembers filePath hMem) with
          ⟨other, _, rfl⟩
        exact
          List.mem_map.mpr
            ⟨_, hMem, resolve_resolve host.cwd other⟩
      · refine
          exists_new (hAdmitted admitted rfl) (hNext _ rfl) ?_
        omega
      · intro filePath hMem
        exact (List.mem_filter.mp hMem).1

/- An expansion is a larger admission. -/
theorem expansion_enlarges
    {search : SearchAttempt}
    {admitted unavailable : Option (List FilePath)}
    {expanded : List FilePath}
    (hAdmitted :
      Admission (memberPaths host workspace) admitted)
    (hExpanded :
      expansion host workspace search admitted unavailable =
        some expanded) :
    Admission (memberPaths host workspace) (some expanded) ∧
      Enlarges (memberPaths host workspace) admitted
        (some expanded) := by
  unfold expansion at hExpanded
  rcases Option.bind_eq_some_iff.mp hExpanded with
    ⟨paths, hPaths, hRest⟩
  rcases Option.bind_eq_some_iff.mp hRest with
    ⟨graph, _, hMore⟩
  rcases Option.bind_eq_some_iff.mp hMore with
    ⟨membership, hMembership, hLast⟩
  rcases Option.bind_eq_some_iff.mp hLast with
    ⟨result, hResult, hSame⟩
  injection hSame with hSame
  subst hSame
  have hMembers :
      memberPaths host workspace =
        membership.paths.map (resolve host.cwd) := by
    unfold memberPaths
    rw [hMembership]
    rfl
  rw [hPaths, hMembers] at hAdmitted ⊢
  exact expand_spec hAdmitted hResult

----------
-- Batches
----------

/-
  The calls for one batch: each retry has a larger admission,
  and there are no more retries than units.
-/
structure Retried
    (membershipPaths : List FilePath)
    (retries : Nat)
    (calls : List VerifierCall) : Prop where
  enlarged :
    calls.Pairwise fun first second =>
      Enlarges membershipPaths first.admittedProjectPaths
        second.admittedProjectPaths
  few : calls.length ≤ retries + 1

/- What the loop around the verifier leaves. -/
structure BatchSpec
    (host : PlannerHost Collation)
    (surroundings : Surroundings)
    (workspace : SemanticWorkspaceView)
    (search : SearchAttempt)
    (retries : Nat)
    (admitted : Option (List FilePath))
    (run : BatchRun) : Prop where
  retried : Retried (memberPaths host workspace) retries run.calls
  started :
    ∀ call ∈ run.calls,
      call.admittedProjectPaths = admitted ∨
        Enlarges (memberPaths host workspace) admitted
          call.admittedProjectPaths
  rejected :
    HonestVerifier surroundings →
      run.ending = .anchorRejected →
        search.request.position.expectedReferenceAnchor.isSome

variable {retries clock : Nat}
variable {ending : BatchEnding}

theorem batchSpec_nil
    {search : SearchAttempt}
    {admitted : Option (List FilePath)}
    (hEnding : ending ≠ .anchorRejected) :
    BatchSpec host surroundings workspace search retries
      admitted ⟨clock, [], ending⟩ := by
  refine
    ⟨⟨List.Pairwise.nil, Nat.zero_le _⟩, ?_,
      fun _ hRejected => absurd hRejected hEnding⟩
  intro call hCall
  cases hCall

variable {call : VerifierCall}

theorem batchSpec_single
    {search : SearchAttempt}
    {admitted : Option (List FilePath)}
    (hCall : call.admittedProjectPaths = admitted)
    (hEnding :
      HonestVerifier surroundings →
        ending = .anchorRejected →
          search.request.position.expectedReferenceAnchor.isSome) :
    BatchSpec host surroundings workspace search retries
      admitted ⟨clock, [call], ending⟩ := by
  refine
    ⟨⟨List.pairwise_singleton _ _, Nat.le_add_left _ _⟩, ?_,
      hEnding⟩
  intro other hOther
  rw [List.mem_singleton.mp hOther]
  exact Or.inl hCall

theorem batchSpec_after
    {search : SearchAttempt}
    {retries : Nat}
    {admitted expanded : Option (List FilePath)}
    {run : BatchRun}
    (hCall : call.admittedProjectPaths = admitted)
    (hRun :
      BatchSpec host surroundings workspace search retries
        expanded run)
    (hLarger :
      Enlarges (memberPaths host workspace) admitted
        expanded) :
    BatchSpec host surroundings workspace search (retries + 1)
      admitted (run.after call) := by
  subst hCall
  have hLater : ∀ other ∈ run.calls,
      Enlarges (memberPaths host workspace)
        call.admittedProjectPaths
        other.admittedProjectPaths := by
    intro other hOther
    rcases hRun.started other hOther with hSame | hMore
    · rw [hSame]
      exact hLarger
    · exact hLarger.trans hMore
  refine
    ⟨⟨List.pairwise_cons.mpr
        ⟨hLater, hRun.retried.enlarged⟩, ?_⟩, ?_,
      hRun.rejected⟩
  · exact Nat.succ_le_succ hRun.retried.few
  · intro other hOther
    rcases List.mem_cons.mp hOther with rfl | hRest
    · exact Or.inl rfl
    · exact Or.inr (hLater other hRest)

theorem verifyBatches_retried
    {search : SearchAttempt}
    {batch : ReferenceBatch}
    {rootPaths : List FilePath}
    {clock attempts : Nat}
    {admitted : Option (List FilePath)}
    (hAdmitted :
      search.dependencyProfile = .closure →
        Admission (memberPaths host workspace) admitted) :
    BatchSpec host surroundings workspace search
      (search.unitCount - attempts) admitted
      (verifyBatches host surroundings workspace search batch
        rootPaths clock attempts admitted) := by
  have hBefore : ∀ {clock : Nat} {ending : BatchEnding},
      ending ≠ .anchorRejected →
        BatchSpec host surroundings workspace search
          (search.unitCount - attempts) admitted
          ⟨clock, [], ending⟩ := fun hEnding =>
    batchSpec_nil hEnding
  have hCalled : ∀ {clock : Nat} {call : VerifierCall}
      {ending : BatchEnding},
      call.admittedProjectPaths = admitted →
        ending ≠ .anchorRejected →
          BatchSpec host surroundings workspace search
            (search.unitCount - attempts) admitted
            ⟨clock, [call], ending⟩ := by
    intro clock call ending hCall hEnding
    exact
      batchSpec_single hCall (fun _ hSame => absurd hSame hEnding)
  rw [verifyBatches]
  split
  · refine hBefore ?_
    intro hSame
    cases hSame
  · split
    · refine hBefore ?_
      intro hSame
      cases hSame
    · simp only
      split
      · refine hCalled rfl ?_
        intro hSame
        cases hSame
      · rename_i verification hVerified
        split
        · rename_i hRejected
          split
          · refine hCalled rfl ?_
            intro hSame
            cases hSame
          · refine batchSpec_single rfl ?_
            intro hHonest _
            exact hHonest _ _ _ hVerified hRejected
        · split
          · refine hCalled rfl ?_
            intro hSame
            cases hSame
          · split
            · rename_i hMore
              split
              · rename_i expanded hExpanded
                have hLarger :=
                  expansion_enlarges (hAdmitted hMore.1) hExpanded
                have hRest :=
                  @verifyBatches_retried search batch rootPaths
                    (clock + 4) (attempts + 1) (some expanded)
                    (fun _ => hLarger.1)
                have hLeft :
                    search.unitCount - attempts =
                      search.unitCount - (attempts + 1) + 1 := by
                  omega
                rw [hLeft]
                exact batchSpec_after rfl hRest hLarger.2
              · refine hCalled rfl ?_
                intro hSame
                cases hSame
            · refine hCalled rfl ?_
              intro hSame
              cases hSame
termination_by search.unitCount - attempts
decreasing_by omega

----------
-- Plans
----------

section Ordered

variable [LinearOrder Collation]
variable {limit : Nat}
variable {candidatePaths : Option (List FilePath)}
variable {semanticGraph : Option HarmonySemanticGraph}
variable {plan : ReferenceSearchPlan}

/- The batches of a plan admit all members of a set. -/
theorem plan_admissions
    (hPlan :
      planConservativeReferenceBatches host workspace limit
        candidatePaths semanticGraph = some plan) :
    ∀ batch ∈ plan.batches,
      Admission (memberPaths host workspace)
        batch.admittedProjectPaths := by
  cases hMembership : workspace.projectMembership with
  | none =>
    unfold planConservativeReferenceBatches at hPlan
    rw [hMembership] at hPlan
    cases hPlan
  | some membership =>
    have hMembers :
        memberPaths host workspace =
          membership.paths.map (resolve host.cwd) := by
      unfold memberPaths
      rw [hMembership]
      rfl
    have hNone : ∀ batch : ReferenceBatch,
        batch.admittedProjectPaths = none →
          Admission (memberPaths host workspace)
            batch.admittedProjectPaths := by
      intro batch hNone admitted hAdmitted
      rw [hNone] at hAdmitted
      cases hAdmitted
    have hBatches := (plan_spec hMembership hPlan).1
    intro batch hBatch
    rw [hBatches] at hBatch
    rcases mem_planBatches hBatch with
      ⟨_, rfl⟩ | ⟨chunk, hChunk, _, _, _, hPaths⟩
    · exact hNone _ rfl
    · cases hGroups :
          groupsOf host workspace membership candidatePaths
            semanticGraph with
      | none =>
        rw [hGroups] at hChunk
        rcases List.mem_map.mp hChunk with ⟨index, _, rfl⟩
        exact hNone _ hPaths
      | some groups =>
        rcases groups with ⟨units, context⟩
        rcases groups_spec hGroups with
          ⟨graph, names, _, hNames, hUnits, _, hContext, _⟩
        rw [hGroups] at hChunk
        change
          chunk ∈ packSemanticUnits host units limit context
            at hChunk
        rw [packSemanticUnits_eq
          (hUnits ▸ hNames.pathCount_pos)] at hChunk
        rcases List.mem_map.mp hChunk with
          ⟨group, _, rfl⟩
        rw [hPaths, hMembers, ← hContext]
        exact admission_filter _ _

theorem isSome_graph_of_mode
    (hPlan :
      planConservativeReferenceBatches host workspace limit
        candidatePaths semanticGraph = some plan)
    (hMode : plan.semanticUnitMode = .projectGraph) :
    semanticGraph.isSome := by
  cases hMembership : workspace.projectMembership with
  | none =>
    unfold planConservativeReferenceBatches at hPlan
    rw [hMembership] at hPlan
    cases hPlan
  | some membership =>
    have hGroups := (plan_spec hMembership hPlan).2.mp hMode
    rcases Option.isSome_iff_exists.mp hGroups with
      ⟨⟨units, context⟩, hSome⟩
    rcases groups_spec hSome with
      ⟨graph, _, hGraph, _⟩
    rw [hGraph]
    rfl

theorem replanned_admissions
    {request : SearchRequest}
    {cursor : Nat}
    {later : List ReferenceBatch}
    {excludedPaths : List FilePath} :
    ∀ batch ∈
        replannedBatches host options workspace request cursor
          later excludedPaths,
      Admission (memberPaths host workspace)
        batch.admittedProjectPaths := by
  intro batch hBatch
  unfold replannedBatches at hBatch
  rcases List.mem_map.mp hBatch with ⟨next, hNext, rfl⟩
  cases hPlan :
      planConservativeReferenceBatches host workspace
        options.batchRootLimit
        (some
          (without (remainingRoots host workspace later)
            excludedPaths))
        request.semanticGraph with
  | none =>
    simp only [hPlan] at hNext
    cases hNext
  | some plan =>
    simp only [hPlan] at hNext
    exact plan_admissions hPlan next hNext

----------
-- Collecting
----------

/- Nothing is consumed where exclusions are not allowed. -/
def Consumable
    (request : SearchRequest)
    (collected : Collected) : Prop :=
  request.allowConstructorExclusion = false →
    collected.consumedExclusions.values = []

variable {result : CompleteReferences}
variable {exclusions : List ConstructorExclusion}

theorem consumable_consume
    {request : SearchRequest}
    {collected : Collected}
    (hCollected : Consumable request collected)
    (hExclusions :
      request.allowConstructorExclusion = false →
        exclusions = []) :
    Consumable request
      ((collected.add result).consume exclusions) := by
  intro hAllow
  rw [hExclusions hAllow]
  exact hCollected hAllow

variable {clock : Nat}

omit [LinearOrder Collation] in
theorem valid_nil
    {request : SearchRequest}
    (hValid :
      (validExclusions surroundings clock
        (exclusionsOf request result)).2 = some exclusions)
    (hAllow : request.allowConstructorExclusion = false) :
    exclusions = [] := by
  have hNone : exclusionsOf request result = [] := by
    unfold exclusionsOf
    rw [hAllow]
    rfl
  rw [hNone] at hValid
  injection hValid with hSame
  exact hSame.symm

/- What the loop over the batches leaves. -/
structure CollectSpec
    (host : PlannerHost Collation)
    (surroundings : Surroundings)
    (workspace : SemanticWorkspaceView)
    (search : SearchAttempt)
    (run : CollectRun) : Prop where
  retried :
    ∀ calls ∈ run.calls,
      Retried (memberPaths host workspace) search.unitCount
        calls
  rejected :
    HonestVerifier surroundings →
      run.ending = .anchorRejected →
        search.request.position.expectedReferenceAnchor.isSome
  fallback :
    run.ending = .unitFallback →
      search.plan.semanticUnitMode = .projectGraph
  consumed :
    ∀ collected, run.ending = .collected collected →
      Consumable search.request collected

omit [LinearOrder Collation] in
theorem collectSpec_after
    {search : SearchAttempt}
    {run : CollectRun}
    {calls : List VerifierCall}
    (hRun :
      CollectSpec host surroundings workspace search run)
    (hCalls :
      Retried (memberPaths host workspace) search.unitCount
        calls) :
    CollectSpec host surroundings workspace search
      (run.after calls) :=
  ⟨List.forall_mem_cons.mpr ⟨hCalls, hRun.retried⟩,
    hRun.rejected, hRun.fallback, hRun.consumed⟩

omit [LinearOrder Collation] in
/- An ending that says nothing about the search. -/
theorem collectSpec_plain
    {search : SearchAttempt}
    {calls : List (List VerifierCall)}
    {ending : CollectEnding}
    (hCalls :
      ∀ batchCalls ∈ calls,
        Retried (memberPaths host workspace) search.unitCount
          batchCalls)
    (hEnding :
      ending = .interrupted ∨
        ∃ result, ending = .stopped result) :
    CollectSpec host surroundings workspace search
      ⟨clock, calls, ending⟩ := by
  rcases hEnding with rfl | ⟨result, rfl⟩
  · refine ⟨hCalls, ?_, ?_, ?_⟩
    · intro _ hSame
      cases hSame
    · intro hSame
      cases hSame
    · intro _ hSame
      cases hSame
  · refine ⟨hCalls, ?_, ?_, ?_⟩
    · intro _ hSame
      cases hSame
    · intro hSame
      cases hSame
    · intro _ hSame
      cases hSame

theorem collectBatches_retried
    {search : SearchAttempt}
    {clock cursor : Nat}
    {rootsReplanned : Bool}
    {collected : Collected}
    {batches : List ReferenceBatch}
    (hBatches :
      ∀ batch ∈ batches,
        Admission (memberPaths host workspace)
          batch.admittedProjectPaths)
    (hCollected : Consumable search.request collected) :
    CollectSpec host surroundings workspace search
      (collectBatches host surroundings options workspace search
        clock cursor rootsReplanned collected batches) := by
  have hNone : ∀ calls ∈ ([] : List (List VerifierCall)),
      Retried (memberPaths host workspace) search.unitCount
        calls := fun _ hMem => by cases hMem
  cases batches with
  | nil =>
    rw [collectBatches]
    refine ⟨hNone, ?_, ?_, ?_⟩
    · intro _ hSame
      cases hSame
    · intro hSame
      cases hSame
    · intro other hSame
      injection hSame with hSame
      rw [← hSame]
      exact hCollected
  | cons batch later =>
    rw [List.forall_mem_cons] at hBatches
    rw [collectBatches]
    split
    · exact collectSpec_plain hNone (Or.inl rfl)
    · split
      · exact collectSpec_plain hNone (Or.inr ⟨_, rfl⟩)
      · have hAdmission :
            search.dependencyProfile = .closure →
              Admission (memberPaths host workspace)
                (batchAdmission host search batch) := by
          intro hClosure
          unfold batchAdmission
          rw [hClosure]
          exact hBatches.1
        have hRun :=
          @verifyBatches_retried _ host surroundings workspace
            search batch (batchRoots host search batch)
            (clock + 2) 0 (batchAdmission host search batch)
            hAdmission
        rw [Nat.sub_zero] at hRun
        simp only
        generalize
          verifyBatches host surroundings workspace search
            batch (batchRoots host search batch) (clock + 2) 0
            (batchAdmission host search batch) = run at hRun ⊢
        have hOne : ∀ calls ∈ [run.calls],
            Retried (memberPaths host workspace)
              search.unitCount calls := by
          intro calls hCalls
          rw [List.mem_singleton.mp hCalls]
          exact hRun.retried
        split
        · exact collectSpec_plain hOne (Or.inl rfl)
        · exact collectSpec_plain hOne (Or.inr ⟨_, rfl⟩)
        · rename_i hRejected
          refine
            ⟨hOne, fun hHonest _ =>
              hRun.rejected hHonest hRejected, ?_, ?_⟩
          · intro hSame
            cases hSame
          · intro _ hSame
            cases hSame
        · split
          · rename_i hMode
            refine ⟨hOne, ?_, fun _ => hMode, ?_⟩
            · intro _ hSame
              cases hSame
            · intro _ hSame
              cases hSame
          · exact collectSpec_plain hOne (Or.inr ⟨_, rfl⟩)
        · rename_i result _
          split
          · exact collectSpec_plain hOne (Or.inl rfl)
          · split
            · exact collectSpec_plain hOne (Or.inl rfl)
            · rename_i exclusions hValid
              have hEmpty := fun hAllow =>
                valid_nil hValid hAllow
              split
              · split
                · exact collectSpec_plain hOne (Or.inl rfl)
                · refine ⟨hOne, ?_, ?_, ?_⟩
                  · intro _ hSame
                    cases hSame
                  · intro hSame
                    cases hSame
                  · intro other hSame
                    injection hSame with hSame
                    rw [← hSame]
                    exact consumable_consume hCollected hEmpty
              · split
                · rename_i hReplan
                  refine collectSpec_after ?_ hRun.retried
                  refine
                    collectBatches_retried replanned_admissions ?_
                  refine consumable_consume hCollected ?_
                  intro hAllow
                  rw [hEmpty hAllow]
                  rfl
                · refine collectSpec_after ?_ hRun.retried
                  exact
                    collectBatches_retried hBatches.2 hCollected
termination_by
  (if rootsReplanned = true then 0 else 1, batches.length)
decreasing_by
  · simp only [*, List.length_cons]
    exact Prod.Lex.right _ (Nat.lt_succ_self _)
  · rename_i hReplan
    rw [hReplan.1]
    exact Prod.Lex.left _ _ Nat.zero_lt_one

----------
-- Restarts
----------

/-
  Nothing that was given up comes back, and something is
  given up.
-/
structure Drops (request next : SearchRequest) : Prop where
  anchor :
    request.position.expectedReferenceAnchor = none →
      next.position.expectedReferenceAnchor = none
  graph :
    request.semanticGraph = none → next.semanticGraph = none
  exclusions :
    request.allowConstructorExclusion = false →
      next.allowConstructorExclusion = false
  dropped :
    (request.position.expectedReferenceAnchor.isSome ∧
        next.position.expectedReferenceAnchor = none) ∨
      (request.semanticGraph.isSome ∧
        next.semanticGraph = none) ∨
      (request.allowConstructorExclusion = true ∧
        next.allowConstructorExclusion = false)

omit [LinearOrder Collation] in
theorem Drops.trans
    {first second third : SearchRequest}
    (hFirst : Drops first second)
    (hSecond : Drops second third) :
    Drops first third := by
  refine
    ⟨fun hNone => hSecond.anchor (hFirst.anchor hNone),
      fun hNone => hSecond.graph (hFirst.graph hNone),
      fun hNone => hSecond.exclusions (hFirst.exclusions hNone),
      ?_⟩
  rcases hFirst.dropped with hAnchor | hGraph | hExclusions
  · exact Or.inl ⟨hAnchor.1, hSecond.anchor hAnchor.2⟩
  · exact Or.inr (Or.inl ⟨hGraph.1, hSecond.graph hGraph.2⟩)
  · exact
      Or.inr
        (Or.inr ⟨hExclusions.1, hSecond.exclusions hExclusions.2⟩)

/- What a search can still give up. -/
def restartsLeft (request : SearchRequest) : Nat :=
  (if request.position.expectedReferenceAnchor.isSome then 1
    else 0) +
    (if request.semanticGraph.isSome then 1 else 0) +
      (if request.allowConstructorExclusion then 1 else 0)

theorem restartsLeft_le (request : SearchRequest) :
    restartsLeft request ≤ 3 := by
  unfold restartsLeft
  split <;> split <;> split <;> decide

variable {request next : SearchRequest}

theorem Drops.less
    (hDrops : Drops request next) :
    restartsLeft next < restartsLeft request := by
  have hAnchor := hDrops.anchor
  have hGraph := hDrops.graph
  have hExclusions := hDrops.exclusions
  have hDropped := hDrops.dropped
  unfold restartsLeft
  cases hOld : request.position.expectedReferenceAnchor <;>
    cases hNew : next.position.expectedReferenceAnchor <;>
      cases hOldGraph : request.semanticGraph <;>
        cases hNewGraph : next.semanticGraph <;>
          cases hOldAllow : request.allowConstructorExclusion <;>
            cases hNewAllow : next.allowConstructorExclusion <;>
              simp_all

/- The batches are retried this often. -/
def retriesOf (request : SearchRequest) : Nat :=
  (request.semanticGraph.map (·.units.length)).getD 0

/- Candidates are current, or given up with their anchor. -/
theorem currentRequest_spec
    {request current : SearchRequest}
    (hCurrent :
      currentRequest surroundings clock request =
        some current) :
    current = request ∨ current = request.withoutCandidates := by
  unfold currentRequest at hCurrent
  split at hCurrent
  · injection hCurrent with hSame
    exact Or.inl hSame.symm
  · rcases Option.map_eq_some_iff.mp hCurrent with
      ⟨valid, _, hSame⟩
    cases valid with
    | true => exact Or.inl hSame.symm
    | false => exact Or.inr hSame.symm

theorem conclude_restarted
    {collected : Collected}
    (hCollected : Consumable request collected)
    (hEnding :
      (conclude host surroundings request clock collected).2 =
        .restarted next) :
    request.allowConstructorExclusion = true ∧
      next =
        { request with allowConstructorExclusion := false } := by
  unfold conclude at hEnding
  simp only at hEnding
  split at hEnding
  · cases hEnding
  · rename_i hStale
    injection hEnding with hSame
    refine ⟨?_, hSame.symm⟩
    by_contra hAllow
    rw [hCollected (Bool.eq_false_of_not_eq_true hAllow)]
      at hStale
    cases hStale
  · split at hEnding
    · cases hEnding
    · split at hEnding
      · cases hEnding
      · cases hEnding

/- What one attempt does. -/
structure AttemptSpec
    (host : PlannerHost Collation)
    (surroundings : Surroundings)
    (workspace : SemanticWorkspaceView)
    (request : SearchRequest)
    (run : AttemptRun) : Prop where
  requested : run.request = request
  retried :
    ∀ calls ∈ run.calls,
      Retried (memberPaths host workspace) (retriesOf request)
        calls
  restarted :
    HonestVerifier surroundings →
      ∀ next, run.ending = .restarted next →
        Drops request next

omit [LinearOrder Collation] in
theorem attemptSpec_silent
    {request : SearchRequest}
    {ending : AttemptEnding}
    (hEnding : ∀ next, ending ≠ .restarted next) :
    AttemptSpec host surroundings workspace request
      ⟨request, clock, [], ending⟩ := by
  refine
    ⟨rfl, ?_, fun _ next hSame => absurd hSame (hEnding next)⟩
  intro calls hCalls
  cases hCalls

theorem attempt_drops
    {request : SearchRequest} :
    AttemptSpec host surroundings workspace request
      (attempt host surroundings options workspace clock
        request) := by
  unfold attempt
  split
  · refine attemptSpec_silent ?_
    intro next hSame
    cases hSame
  · rename_i current hCurrent
    split
    · refine attemptSpec_silent ?_
      intro next hSame
      cases hSame
    · rename_i plan hPlan
      split
      · refine attemptSpec_silent ?_
        intro next hSame
        cases hSame
      · have hCollect :=
          @collectBatches_retried _ host surroundings options
            workspace _ (searchOf host options current plan)
            (clock + 1) 0 false Collected.empty plan.batches
            (plan_admissions hPlan) (fun _ => rfl)
        simp only
        generalize
          collectBatches host surroundings options workspace
            (searchOf host options current plan) (clock + 1) 0
            false Collected.empty plan.batches = run at hCollect ⊢
        have hKept :
            current.semanticGraph = request.semanticGraph ∧
              current.allowConstructorExclusion =
                request.allowConstructorExclusion ∧
              (current.position.expectedReferenceAnchor.isSome →
                current = request) ∧
              (request.position.expectedReferenceAnchor = none →
                current.position.expectedReferenceAnchor =
                  none) := by
          rcases currentRequest_spec hCurrent with rfl | rfl
          · exact ⟨rfl, rfl, fun _ => rfl, fun hNone => hNone⟩
          · refine ⟨rfl, rfl, ?_, fun _ => rfl⟩
            intro hSome
            cases hSome
        rcases hKept with ⟨hGraph, hAllow, hAnchor, hNoAnchor⟩
        have hRetried : ∀ calls ∈ run.calls,
            Retried (memberPaths host workspace)
              (retriesOf request) calls := by
          have hCount :
              (searchOf host options current plan).unitCount =
                retriesOf request := by
            unfold SearchAttempt.unitCount retriesOf
            rw [← hGraph]
            rfl
          rw [← hCount]
          exact hCollect.retried
        split
        · exact ⟨rfl, hRetried, fun _ _ hSame => by cases hSame⟩
        · exact ⟨rfl, hRetried, fun _ _ hSame => by cases hSame⟩
        · rename_i hEnding
          refine ⟨rfl, hRetried, ?_⟩
          intro hHonest next hSame
          injection hSame with hSame
          subst hSame
          have hSome := hCollect.rejected hHonest hEnding
          have hRequest := hAnchor hSome
          refine
            ⟨fun _ => rfl, fun hNone => hGraph.trans hNone,
              fun hNone => hAllow.trans hNone, Or.inl ⟨?_, rfl⟩⟩
          rw [← hRequest]
          exact hSome
        · rename_i hEnding
          refine ⟨rfl, hRetried, ?_⟩
          intro _ next hSame
          injection hSame with hSame
          subst hSame
          refine
            ⟨hNoAnchor, fun _ => rfl,
              fun hNone => hAllow.trans hNone,
              Or.inr (Or.inl ⟨?_, rfl⟩)⟩
          rw [← hGraph]
          exact
            isSome_graph_of_mode hPlan (hCollect.fallback hEnding)
        · rename_i collected hEnding
          refine ⟨rfl, hRetried, ?_⟩
          intro _ next hSame
          rcases
              conclude_restarted
                (hCollect.consumed collected hEnding) hSame
            with ⟨hAllowed, rfl⟩
          exact
            ⟨hNoAnchor, fun hNone => hGraph.trans hNone,
              fun _ => rfl,
              Or.inr (Or.inr ⟨hAllow ▸ hAllowed, rfl⟩)⟩

----------
-- Executions
----------

/- A search that has come to its end. -/
structure ExecuteSpec
    (host : PlannerHost Collation)
    (workspace : SemanticWorkspaceView)
    (request : SearchRequest)
    (runs : List AttemptRun) : Prop where
  few : runs.length ≤ restartsLeft request + 1
  started :
    ∀ run ∈ runs,
      run.request = request ∨ Drops request run.request
  dropped :
    runs.Pairwise fun first later =>
      Drops first.request later.request
  ended :
    ∃ last, runs.getLast? = some last ∧
      ∀ next, last.ending ≠ .restarted next
  retried :
    ∀ run ∈ runs, ∀ calls ∈ run.calls,
      Retried (memberPaths host workspace)
        (retriesOf run.request) calls

variable {run : AttemptRun}

omit [LinearOrder Collation] in
theorem executeSpec_single
    {request : SearchRequest}
    (hRun :
      AttemptSpec host surroundings workspace request run)
    (hEnding : ∀ next, run.ending ≠ .restarted next) :
    ExecuteSpec host workspace request [run] := by
  refine
    ⟨Nat.le_add_left _ _, ?_, List.pairwise_singleton _ _,
      ⟨run, rfl, hEnding⟩, ?_⟩
  · intro other hOther
    rw [List.mem_singleton.mp hOther]
    exact Or.inl hRun.requested
  · intro other hOther
    rw [List.mem_singleton.mp hOther, hRun.requested]
    exact hRun.retried

omit [LinearOrder Collation] in
theorem executeSpec_cons
    {runs : List AttemptRun}
    (hRun :
      AttemptSpec host surroundings workspace request run)
    (hDrops : Drops request next)
    (hRuns : ExecuteSpec host workspace next runs) :
    ExecuteSpec host workspace request (run :: runs) := by
  have hLater : ∀ later ∈ runs,
      Drops request later.request := by
    intro later hMem
    rcases hRuns.started later hMem with hSame | hMore
    · rw [hSame]
      exact hDrops
    · exact hDrops.trans hMore
  rcases hRuns.ended with ⟨last, hLast, hEnding⟩
  refine ⟨?_, ?_, ?_, ⟨last, ?_, hEnding⟩, ?_⟩
  · have hLess := hDrops.less
    have hFew := hRuns.few
    rw [List.length_cons]
    omega
  · intro other hOther
    rcases List.mem_cons.mp hOther with rfl | hMem
    · exact Or.inl hRun.requested
    · exact Or.inr (hLater other hMem)
  · refine List.pairwise_cons.mpr ⟨?_, hRuns.dropped⟩
    intro later hMem
    rw [hRun.requested]
    exact hLater later hMem
  · rw [List.getLast?_cons, hLast]
    rfl
  · intro other hOther
    rcases List.mem_cons.mp hOther with rfl | hMem
    · rw [hRun.requested]
      exact hRun.retried
    · exact hRuns.retried other hMem

/- Enough fuel for the restarts that are left. -/
theorem execute_spec
    (hHonest : HonestVerifier surroundings)
    {fuel clock : Nat}
    {request : SearchRequest}
    (hFuel : restartsLeft request < fuel) :
    ExecuteSpec host workspace request
      (execute host surroundings options workspace fuel clock
        request) := by
  induction fuel generalizing clock request with
  | zero => omega
  | succ fuel hIH =>
    have hRun :
        AttemptSpec host surroundings workspace request
          (attempt host surroundings options workspace clock
            request) :=
      attempt_drops
    rw [execute]
    split
    · rename_i next hNext
      have hDrops := hRun.restarted hHonest next hNext
      have hLess := hDrops.less
      exact executeSpec_cons hRun hDrops (hIH (by omega))
    · rename_i hEnding
      refine executeSpec_single hRun ?_
      intro next hNext
      rw [hEnding] at hNext
      cases hNext
    · rename_i hEnding
      refine executeSpec_single hRun ?_
      intro next hNext
      rw [hEnding] at hNext
      cases hNext

/- More fuel makes no difference. -/
theorem execute_enough
    (hHonest : HonestVerifier surroundings)
    {fuel more clock : Nat}
    {request : SearchRequest}
    (hFuel : restartsLeft request < fuel)
    (hMore : restartsLeft request < more) :
    execute host surroundings options workspace fuel clock
        request =
      execute host surroundings options workspace more clock
        request := by
  induction fuel generalizing more clock request with
  | zero => omega
  | succ fuel hIH =>
    cases more with
    | zero => omega
    | succ more =>
      rw [execute, execute]
      split
      · rename_i next hNext
        have hDrops :=
          (@attempt_drops _ host surroundings options
            workspace _ clock request).restarted hHonest
            next hNext
        have hLess := hDrops.less
        rw [@hIH more _ next (by omega) (by omega)]
      · rfl
      · rfl

/-
  For every workspace and every honest verifier, a search
  restarts at most three times: each restart drops the
  expected anchor, the graph or the exclusions, and never
  gets back what was dropped.  The calls for one batch admit
  more and more of the membership, and there is at most one
  retry for each unit.
-/
theorem execute_terminates
    (host : PlannerHost Collation)
    (surroundings : Surroundings)
    (options : ReferenceSearchExecutorOptions)
    (workspace : SemanticWorkspaceView)
    (clock : Nat)
    (request : SearchRequest)
    (hHonest : HonestVerifier surroundings) :
    ∃ runs,
      (∀ fuel, 4 ≤ fuel →
        execute host surroundings options workspace fuel clock
          request = runs) ∧
      runs.length ≤ 3 + 1 ∧
      (∃ last, runs.getLast? = some last ∧
        ∀ next, last.ending ≠ .restarted next) ∧
      (runs.Pairwise fun first later =>
        Drops first.request later.request) ∧
      ∀ run ∈ runs, ∀ calls ∈ run.calls,
        Retried (memberPaths host workspace)
          (retriesOf run.request) calls := by
  have hLeft := restartsLeft_le request
  have hSpec :=
    @execute_spec _ host surroundings options workspace _
      hHonest 4 clock request (by omega)
  refine ⟨_, ?_, ?_, hSpec.ended, hSpec.dropped, hSpec.retried⟩
  · intro fuel hFuel
    exact execute_enough hHonest (by omega) (by omega)
  · exact le_trans hSpec.few (by omega)

/- A verifier that rejects every expected anchor. -/
def sampleSurroundings : Surroundings where
  identitiesCurrent := fun _ => some true
  checkpointFails := fun _ => false
  admitVerifier := fun _ => true
  verifyBatch := fun _ call =>
    some
      { anchorVerified :=
          call.position.expectedReferenceAnchor.map
            fun _ => false
        result := .complete { references := [] }
        unavailableProjectPaths := none }
  validateConstructorExclusion := fun _ _ => true

theorem sampleSurroundings_honest :
    HonestVerifier sampleSurroundings := by
  intro clock call verification hVerified hRejected
  injection hVerified with hSame
  subst hSame
  rcases Option.map_eq_some_iff.mp hRejected with
    ⟨anchor, hAnchor, _⟩
  rw [hAnchor]
  rfl

def sampleOptions : ReferenceSearchExecutorOptions where
  batchRootLimit := 3
  positive := by decide
  dependencyProfile := .closure

def sampleRequest : SearchRequest where
  position :=
    { path := ['/', 'p', '/', 'a']
      line := 0
      column := 0
      expectedReferenceAnchor :=
        some ⟨['/', 'p', '/', 'a'], 0, 0⟩ }
  includeDeclaration := true
  semanticGraph := some sampleGraph

theorem execute_terminates_sample :
    HonestVerifier sampleSurroundings ∧
      ∃ runs,
        (∀ fuel, 4 ≤ fuel →
          execute sampleHost sampleSurroundings sampleOptions
              (sampleWorkspace sampleMembership) fuel 0
              sampleRequest = runs) ∧
          runs.length ≤ 3 + 1 ∧
          (∃ last, runs.getLast? = some last ∧
            ∀ next, last.ending ≠ .restarted next) ∧
          (runs.Pairwise fun first later =>
            Drops first.request later.request) ∧
          ∀ run ∈ runs, ∀ calls ∈ run.calls,
            Retried
              (memberPaths sampleHost
                (sampleWorkspace sampleMembership))
              (retriesOf run.request) calls :=
  ⟨sampleSurroundings_honest,
    execute_terminates sampleHost sampleSurroundings
      sampleOptions (sampleWorkspace sampleMembership) 0
      sampleRequest sampleSurroundings_honest⟩

end Ordered

end Executing

end References

end ArktsServer
