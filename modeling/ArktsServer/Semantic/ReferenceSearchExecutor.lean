import ArktsServer.Semantic.ReferenceSearchPlanner

/-
  `ReferenceSearchExecutor.execute`: the batches of a plan
  are verified one after the other.  A batch that misses
  sources is verified again with more of the project; a
  rejected anchor, a batch that cannot be helped and a
  constructor exclusion that went stale start the search
  anew without what has failed.

  Key definitions include:
    * `Surroundings`
    * `verifyBatches`, `collectBatches`
    * `SearchRequest`, `attempt`
    * `execute`
-/

namespace ArktsServer

namespace References

open UnixPath

----------
-- Requests and Results
----------

structure ReferenceAnchor where
  path : FilePath
  line : Nat
  column : Nat
deriving DecidableEq

structure DocumentPosition where
  path : FilePath
  line : Nat
  column : Nat
  expectedReferenceAnchor : Option ReferenceAnchor
deriving DecidableEq

structure DefinitionCandidate where
  path : FilePath
  range : SemanticTextRange
deriving DecidableEq

structure ConstructorExclusion where
  path : FilePath
  token : String
deriving DecidableEq

structure CompleteReferences where
  references : List DefinitionCandidate
  otherReferences : Option (List DefinitionCandidate) := none
  searchedProjectPaths : Option (List FilePath) := none
  constructorTarget : Bool := false
  constructorExcludedSources :
    Option (List ConstructorExclusion) := none
deriving DecidableEq

inductive ReferenceQueryResult where
| complete (result : CompleteReferences)
| incomplete (reason : FailureReason)
deriving DecidableEq

structure ReferenceBatchVerification where
  anchorVerified : Option Bool
  result : ReferenceQueryResult
  unavailableProjectPaths : Option (List FilePath)
deriving DecidableEq

inductive DependencyProfile where
| closure
| identity
deriving DecidableEq

/- What `verifyBatch` is called with. -/
structure VerifierCall where
  workspace : SemanticWorkspaceView
  admittedProjectPaths : Option (List FilePath)
  position : DocumentPosition
  includeDeclaration : Bool
  dependencyProfile : DependencyProfile
deriving DecidableEq

/-
  The answers from outside at any time: `none` and a failing
  checkpoint stand for an exception.
-/
structure Surroundings where
  identitiesCurrent : Nat → Option Bool
  checkpointFails : Nat → Bool
  admitVerifier : Nat → Bool
  verifyBatch :
    Nat → VerifierCall → Option ReferenceBatchVerification
  validateConstructorExclusion :
    Nat → ConstructorExclusion → Bool

/- The configuration admits positive limits only. -/
structure ReferenceSearchExecutorOptions where
  batchRootLimit : Nat
  positive : 1 ≤ batchRootLimit
  dependencyProfile : DependencyProfile

structure SearchRequest where
  position : DocumentPosition
  includeDeclaration : Bool
  candidatePaths : Option (List FilePath) := none
  candidateIdentityComplete : Bool := false
  candidateAnchorPath : Option FilePath := none
  candidateSupportPaths : Option (List FilePath) := none
  semanticGraph : Option HarmonySemanticGraph := none
  allowConstructorExclusion : Bool := true
  maxBatches : Option Nat := none
  admitVerifier : Bool := false

section Executing

variable {Collation : Type} [LinearOrder Collation]
variable (host : PlannerHost Collation)
variable (surroundings : Surroundings)
variable (options : ReferenceSearchExecutorOptions)
variable (workspace : SemanticWorkspaceView)

----------
-- Verifying
----------

def scopedWorkspace
    (rootPaths : List FilePath)
    (firstBatch : Bool)
    (admittedProjectPaths : Option (List FilePath)) :
    SemanticWorkspaceView :=
  let admitted := rootPaths.map (resolve host.cwd)
  { workspace with
    semanticRootPaths := some rootPaths
    documents :=
      workspace.documents.filter fun document =>
        document.overlay ||
          has admitted (resolve host.cwd document.path)
    projectFileIdentities :=
      match admittedProjectPaths with
      | none => workspace.projectFileIdentities
      | some paths =>
          workspace.projectFileIdentities.map fun identities =>
            identities.filter fun identity =>
              has (paths.map (resolve host.cwd))
                (resolve host.cwd identity.1)
    changedPaths :=
      if firstBatch then workspace.changedPaths else none
    removedPaths :=
      if firstBatch then workspace.removedPaths else none }

/- What is fixed while a search is attempted. -/
structure SearchAttempt where
  request : SearchRequest
  plan : ReferenceSearchPlan
  identitySupportPaths : Option (List FilePath)
  dependencyProfile : DependencyProfile

def SearchAttempt.unitCount (search : SearchAttempt) : Nat :=
  (search.request.semanticGraph.map
    (·.units.length)).getD 0

inductive BatchEnding where
| verified (result : CompleteReferences)
| anchorRejected
| incomplete (reason : FailureReason)
| refused
| interrupted
deriving DecidableEq

structure BatchRun where
  clock : Nat
  calls : List VerifierCall
  ending : BatchEnding

def BatchRun.after (run : BatchRun) (call : VerifierCall) :
    BatchRun :=
  { run with calls := call :: run.calls }

variable (search : SearchAttempt)

/- A larger admission for a batch that misses sources. -/
def expansion
    (admittedProjectPaths unavailableProjectPaths :
      Option (List FilePath)) :
    Option (List FilePath) := do
  let admitted ← admittedProjectPaths
  let graph ← search.request.semanticGraph
  let membership ← workspace.projectMembership
  let expanded ←
    expandReferenceBatchAdmission host admitted
      (unavailableProjectPaths.getD []) membership.paths graph
  pure expanded.admittedProjectPaths

/-
  The loop around `verifyBatch`.  The index of the batch and
  its roots are fixed, the admission grows.
-/
def verifyBatches
    (search : SearchAttempt)
    (batch : ReferenceBatch)
    (rootPaths : List FilePath)
    (clock expansionAttempts : Nat)
    (admittedProjectPaths : Option (List FilePath)) :
    BatchRun :=
  if surroundings.checkpointFails clock then
    ⟨clock + 1, [], .interrupted⟩
  else if 0 < expansionAttempts
      ∧ search.request.admitVerifier = true
      ∧ surroundings.admitVerifier (clock + 1) = false then
    ⟨clock + 2, [], .refused⟩
  else
    let call : VerifierCall :=
      { workspace :=
          scopedWorkspace host workspace rootPaths
            (batch.index == 0) admittedProjectPaths
        admittedProjectPaths := admittedProjectPaths
        position := search.request.position
        includeDeclaration := search.request.includeDeclaration
        dependencyProfile := search.dependencyProfile }
    match surroundings.verifyBatch (clock + 2) call with
    | none => ⟨clock + 3, [call], .interrupted⟩
    | some verification =>
        if verification.anchorVerified = some false then
          if surroundings.checkpointFails (clock + 3) then
            ⟨clock + 4, [call], .interrupted⟩
          else
            ⟨clock + 4, [call], .anchorRejected⟩
        else
          match verification.result with
          | .complete result =>
              ⟨clock + 4, [call], .verified result⟩
          | .incomplete reason =>
              if hMore :
                  search.dependencyProfile = .closure
                    ∧ search.plan.semanticUnitMode
                      = .projectGraph
                    ∧ reason = .sourceUnavailable
                    ∧ expansionAttempts < search.unitCount then
                match
                    expansion host workspace search
                      admittedProjectPaths
                      verification.unavailableProjectPaths with
                | some expanded =>
                    (verifyBatches search batch rootPaths
                      (clock + 4) (expansionAttempts + 1)
                      (some expanded)).after call
                | none =>
                    ⟨clock + 4, [call], .incomplete reason⟩
              else
                ⟨clock + 4, [call], .incomplete reason⟩
termination_by search.unitCount - expansionAttempts
decreasing_by omega

----------
-- Collecting
----------

structure Collected where
  collected : List DefinitionCandidate
  otherCollected : List DefinitionCandidate
  otherComplete : Bool
  consumedExclusions :
    OrderedMap FilePath ConstructorExclusion

def Collected.empty : Collected :=
  ⟨[], [], true, OrderedMap.empty⟩

def Collected.add
    (collected : Collected)
    (result : CompleteReferences) :
    Collected :=
  { collected with
    collected := collected.collected ++ result.references
    otherCollected :=
      collected.otherCollected
        ++ result.otherReferences.getD []
    otherComplete :=
      collected.otherComplete && result.otherReferences.isSome }

def Collected.consume
    (collected : Collected)
    (exclusions : List ConstructorExclusion) :
    Collected :=
  { collected with
    consumedExclusions :=
      exclusions.foldl
        (fun consumed exclusion =>
          consumed.set exclusion.path exclusion)
        collected.consumedExclusions }

inductive CollectEnding where
| collected (collected : Collected)
| stopped (result : ReferenceQueryResult)
| anchorRejected
| unitFallback
| interrupted

structure CollectRun where
  clock : Nat
  calls : List (List VerifierCall)
  ending : CollectEnding

def CollectRun.after
    (run : CollectRun)
    (calls : List VerifierCall) :
    CollectRun :=
  { run with calls := calls :: run.calls }

/- The exclusions that are valid, and the time after. -/
def validExclusions
    (clock : Nat) :
    List ConstructorExclusion →
      Nat × Option (List ConstructorExclusion)
| [] => (clock, some [])
| exclusion :: exclusions =>
    if surroundings.checkpointFails clock then
      (clock + 1, none)
    else
      let rest := validExclusions (clock + 2) exclusions
      (rest.1,
        rest.2.map fun valid =>
          if surroundings.validateConstructorExclusion
              (clock + 1) exclusion then
            exclusion :: valid
          else
            valid)

variable (request : SearchRequest)

def exclusionsOf
    (result : CompleteReferences) :
    List ConstructorExclusion :=
  if request.allowConstructorExclusion
      && result.constructorTarget then
    result.constructorExcludedSources.getD []
  else
    []

def coversWholeSearchScope
    (searchedPaths : Option (List FilePath))
    (queryPath : FilePath)
    (excludedPaths : List FilePath) : Bool :=
  match searchedPaths, workspace.projectMembership with
  | some paths, some membership =>
      let searched := paths.map (resolve host.cwd)
      decide (membership.status = .complete) &&
        has searched (resolve host.cwd queryPath) &&
        membership.paths.all (fun filePath =>
          has searched (resolve host.cwd filePath) ||
            has excludedPaths (resolve host.cwd filePath)) &&
        (workspace.documents.filter (·.overlay)).all
          (fun document =>
            has searched (resolve host.cwd document.path))
  | _, _ => false

/- The exclusions among the roots that are still to come. -/
def removedExclusions
    (later : List ReferenceBatch)
    (exclusions : List ConstructorExclusion) :
    List ConstructorExclusion :=
  exclusions.filter fun exclusion =>
    has (remainingRoots host workspace later)
      (resolve host.cwd exclusion.path)

/- The batches for the remaining roots without the excluded. -/
def replannedBatches
    (cursor : Nat)
    (later : List ReferenceBatch)
    (excludedPaths : List FilePath) :
    List ReferenceBatch :=
  let remainingPlan :=
    planConservativeReferenceBatches host workspace
      options.batchRootLimit
      (some
        (without (remainingRoots host workspace later)
          excludedPaths))
      request.semanticGraph
  ((remainingPlan.map (·.batches)).getD []).map fun next =>
    { next with index := cursor + 1 + next.index }

/- Whether a verified batch lets the roots be planned anew. -/
def mayReplan
    (batch : ReferenceBatch)
    (later : List ReferenceBatch)
    (result : CompleteReferences)
    (exclusions : List ConstructorExclusion) : Bool :=
  let searched :=
    (result.searchedProjectPaths.getD []).map
      (resolve host.cwd)
  decide (search.dependencyProfile = .closure) &&
    decide (search.plan.candidateMode = .conservative) &&
    decide (0 < exclusions.length) &&
    batch.rootPaths.all (fun filePath =>
      has searched (resolve host.cwd filePath)) &&
    decide
      (0 <
        (removedExclusions host workspace later
          exclusions).length)

def batchRoots
    (batch : ReferenceBatch) : List FilePath :=
  match search.dependencyProfile,
      search.identitySupportPaths with
  | .identity, some supportPaths =>
      uniquePaths host (batch.rootPaths ++ supportPaths)
  | _, _ => batch.rootPaths

def batchAdmission
    (batch : ReferenceBatch) : Option (List FilePath) :=
  match search.dependencyProfile with
  | .identity => some (batchRoots host search batch)
  | .closure => batch.admittedProjectPaths

/- The loop over the batches, which are replaced once. -/
def collectBatches
    (search : SearchAttempt)
    (clock cursor : Nat)
    (rootsReplanned : Bool)
    (collected : Collected)
    (batches : List ReferenceBatch) :
    CollectRun :=
  match batches with
  | [] => ⟨clock, [], .collected collected⟩
  | batch :: later =>
      if search.request.admitVerifier = true
          ∧ surroundings.checkpointFails clock = true then
        ⟨clock + 1, [], .interrupted⟩
      else if search.request.admitVerifier = true
          ∧ surroundings.admitVerifier (clock + 1)
            = false then
        ⟨clock + 2, [],
          .stopped (.incomplete .resourceBudgetExceeded)⟩
      else
        let run :=
          verifyBatches host surroundings workspace search
            batch (batchRoots host search batch) (clock + 2) 0
            (batchAdmission host search batch)
        match run.ending with
        | .interrupted => ⟨run.clock, [run.calls], .interrupted⟩
        | .refused =>
            ⟨run.clock, [run.calls],
              .stopped (.incomplete .resourceBudgetExceeded)⟩
        | .anchorRejected =>
            ⟨run.clock, [run.calls], .anchorRejected⟩
        | .incomplete reason =>
            if search.plan.semanticUnitMode = .projectGraph then
              ⟨run.clock, [run.calls], .unitFallback⟩
            else
              ⟨run.clock, [run.calls],
                .stopped (.incomplete reason)⟩
        | .verified result =>
            if surroundings.checkpointFails run.clock then
              ⟨run.clock + 1, [run.calls], .interrupted⟩
            else
              let valid :=
                validExclusions surroundings (run.clock + 1)
                  (exclusionsOf search.request result)
              match valid.2 with
              | none => ⟨valid.1, [run.calls], .interrupted⟩
              | some exclusions =>
                  let excludedPaths :=
                    exclusions.map fun exclusion =>
                      resolve host.cwd exclusion.path
                  if search.dependencyProfile = .closure
                      ∧ coversWholeSearchScope host workspace
                          result.searchedProjectPaths
                          search.request.position.path
                          excludedPaths = true then
                    if surroundings.checkpointFails valid.1 then
                      ⟨valid.1 + 1, [run.calls], .interrupted⟩
                    else
                      ⟨valid.1 + 1, [run.calls],
                        .collected
                          ((collected.add result).consume
                            exclusions)⟩
                  else if hReplan :
                      rootsReplanned = false
                        ∧ mayReplan host workspace search batch
                          later result exclusions = true then
                    (collectBatches search (valid.1 + 1)
                      (cursor + 1) true
                      ((collected.add result).consume
                        (removedExclusions host workspace later
                          exclusions))
                      (replannedBatches host options workspace
                        search.request cursor later
                        excludedPaths)).after run.calls
                  else
                    (collectBatches search (valid.1 + 1)
                      (cursor + 1) rootsReplanned
                      (collected.add result)
                      later).after run.calls
termination_by
  (if rootsReplanned = true then 0 else 1, batches.length)
decreasing_by
  · rw [hReplan.1]
    exact Prod.Lex.left _ _ (Nat.zero_lt_one)
  · exact Prod.Lex.right _ (Nat.lt_succ_self _)

----------
-- Attempts
----------

/- Without candidates, and without the anchor they gave. -/
def SearchRequest.withoutCandidates
    (request : SearchRequest) :
    SearchRequest :=
  { request with
    position :=
      { request.position with expectedReferenceAnchor := none }
    candidatePaths := none
    candidateIdentityComplete := false
    candidateAnchorPath := none
    candidateSupportPaths := none }

/- Candidates from files that have changed are given up. -/
def currentRequest
    (clock : Nat)
    (request : SearchRequest) : Option SearchRequest :=
  match request.candidatePaths with
  | none => some request
  | some _ =>
      (surroundings.identitiesCurrent clock).map fun current =>
        if current then request else request.withoutCandidates

def identityAnchorPath
    (request : SearchRequest) : Option FilePath := do
  let candidates ← request.candidatePaths
  let anchor ← request.candidateAnchorPath
  if request.candidateIdentityComplete
      && has (candidates.map (resolve host.cwd))
        (resolve host.cwd anchor) then
    some (resolve host.cwd anchor)
  else
    none

def identitySupportPathsOf
    (request : SearchRequest) : Option (List FilePath) :=
  (identityAnchorPath host request).map fun anchor =>
    match request.candidateSupportPaths with
    | some supportPaths => uniquePaths host supportPaths
    | none => [anchor]

def validIdentitySupport
    (request : SearchRequest) : Bool :=
  match identityAnchorPath host request,
      identitySupportPathsOf host request with
  | some anchor, some supportPaths =>
      supportPaths.all (fun filePath =>
        has
          ((request.candidatePaths.getD []).map
            (resolve host.cwd)) filePath) &&
        has supportPaths anchor
  | _, _ => false

inductive AttemptEnding where
| finished (result : ReferenceQueryResult)
| interrupted
| restarted (next : SearchRequest)

structure AttemptRun where
  request : SearchRequest
  clock : Nat
  calls : List (List VerifierCall)
  ending : AttemptEnding

/- One `toLex` for each comparison of `sort`. -/
def referenceKey (reference : DefinitionCandidate) :
    Collation ×ₗ (Nat ×ₗ (Nat ×ₗ (Nat ×ₗ Nat))) :=
  toLex
    (host.collationKey reference.path,
      toLex
        (reference.range.startLine,
          toLex
            (reference.range.startColumn,
              toLex
                (reference.range.endLine,
                  reference.range.endColumn))))

def uniqueSortedReferences
    (references : List DefinitionCandidate) :
    List DefinitionCandidate :=
  (unique references).insertionSort fun left right =>
    referenceKey host left ≤ referenceKey host right

/- Whether the consumed exclusions are valid to the end. -/
def revalidate
    (clock : Nat) :
    List ConstructorExclusion → Nat × Option Bool
| [] => (clock, some true)
| exclusion :: exclusions =>
    if surroundings.checkpointFails clock then
      (clock + 1, none)
    else if surroundings.validateConstructorExclusion
        (clock + 1) exclusion then
      revalidate (clock + 2) exclusions
    else
      (clock + 2, some false)

/- What the collected references are answered with. -/
def publish
    (clock : Nat)
    (request : SearchRequest)
    (collected : Collected) : Option ReferenceQueryResult :=
  let complete :=
    ReferenceQueryResult.complete
      { references :=
          uniqueSortedReferences host collected.collected
        otherReferences :=
          if collected.otherComplete then
            some
              (uniqueSortedReferences host
                collected.otherCollected)
          else
            none }
  match request.candidatePaths with
  | none => some complete
  | some _ =>
      (surroundings.identitiesCurrent clock).map fun current =>
        if current then complete
        else .incomplete .sourceUnavailable

/- The end of an attempt, after its batches. -/
def conclude
    (clock : Nat)
    (collected : Collected) : Nat × AttemptEnding :=
  let valid :=
    revalidate surroundings clock
      collected.consumedExclusions.values
  match valid.2 with
  | none => (valid.1, .interrupted)
  | some false =>
      (valid.1,
        .restarted
          { request with allowConstructorExclusion := false })
  | some true =>
      if surroundings.checkpointFails valid.1 then
        (valid.1 + 1, .interrupted)
      else
        match
            publish host surroundings (valid.1 + 1) request
              collected with
        | none => (valid.1 + 2, .interrupted)
        | some result => (valid.1 + 2, .finished result)

def searchOf
    (plan : ReferenceSearchPlan) :
    SearchAttempt :=
  { request := request
    plan := plan
    identitySupportPaths := identitySupportPathsOf host request
    dependencyProfile :=
      if validIdentitySupport host request then
        options.dependencyProfile
      else
        .closure }

/- One call of `execute`, up to the next one. -/
def attempt
    (clock : Nat)
    (request : SearchRequest) :
    AttemptRun :=
  match currentRequest surroundings clock request with
  | none => ⟨request, clock + 1, [], .interrupted⟩
  | some current =>
      match
          planConservativeReferenceBatches host workspace
            options.batchRootLimit current.candidatePaths
            current.semanticGraph with
      | none =>
          ⟨request, clock + 1, [],
            .finished
              (.incomplete .projectMembershipIncomplete)⟩
      | some plan =>
          if current.maxBatches.any
              (fun limit => limit < plan.batches.length) then
            ⟨request, clock + 1, [],
              .finished (.incomplete .resourceBudgetExceeded)⟩
          else
            let run :=
              collectBatches host surroundings options
                workspace (searchOf host options current plan)
                (clock + 1) 0 false Collected.empty plan.batches
            match run.ending with
            | .interrupted =>
                ⟨request, run.clock, run.calls, .interrupted⟩
            | .stopped result =>
                ⟨request, run.clock, run.calls,
                  .finished result⟩
            | .anchorRejected =>
                ⟨request, run.clock, run.calls,
                  .restarted current.withoutCandidates⟩
            | .unitFallback =>
                ⟨request, run.clock, run.calls,
                  .restarted
                    { current with
                      candidateIdentityComplete := false
                      candidateAnchorPath := none
                      candidateSupportPaths := none
                      semanticGraph := none }⟩
            | .collected collected =>
                let ending :=
                  conclude host surroundings current run.clock
                    collected
                ⟨request, ending.1, run.calls, ending.2⟩

/- The attempts of a search, at most as many as the fuel. -/
def execute :
    Nat → Nat → SearchRequest → List AttemptRun
| 0, _, _ => []
| fuel + 1, clock, request =>
    let run :=
      attempt host surroundings options workspace clock request
    match run.ending with
    | .restarted next => run :: execute fuel run.clock next
    | .finished _ => [run]
    | .interrupted => [run]

end Executing

end References

end ArktsServer
