import ArktsServer.Lib.Transition
import ArktsServer.Sidecar.Runtime

/-
  When the sidecar calls its index complete.

  Over every run of requests and catalog updates the index
  is ready only on evidence: a full catalog without rejected
  or skipped entries, or a refresh after which the store has
  no rejected document.  Every later failure or partial
  result withdraws the evidence.

  Key definitions include:
    * `Event`, `runtimeAfter`
    * `CertifiesCatalog`, `CertifiesRefresh`
    * `Discredits`
    * `Evidence`

  Correctness is proven by:
    * `evidence_of_ready`
    * `ready_has_evidence`
-/

----------
-- Runs
----------

namespace ArktsServer

namespace Sidecar

/- A request with its world, or an update of a worker. -/
inductive Event where
| request (world : World) (request : Request)
| update (update : CatalogUpdate)

def eventStep (runtime : Runtime) : Event → Runtime
| .request world request =>
    (runtime.dispatch world request).1
| .update update => (runtime.handleCatalogUpdate update).1

/- The runtime after a run from the start of the process. -/
def runtimeAfter (events : List Event) : Runtime :=
  Transition.run eventStep {} events

----------
-- Evidence
----------

/- The store call of a refresh that the runtime lets pass. -/
def refreshOutcome
    (runtime : Runtime)
    (world : World)
    (params : RefreshParams) :
    Option (Except StoreError RefreshReport) :=
  if runtime.catalog.isNone && runtime.index.isSome then
    some
      (WorkspaceIndex.refresh world.unicode world.applyBatch
        params.generation params.changed params.removedUris)
  else
    none

/- A full catalog ends with no rejected or skipped entry. -/
def CertifiesCatalog
    (runtime : Runtime)
    (event : Event) : Prop :=
  ∃ generation report progress,
    event = .update (.complete generation report progress) ∧
      runtime.catalog = some generation ∧
      progress.rejected = 0 ∧
      progress.policySkipped = 0

/- A refresh commits and leaves no rejected document. -/
def CertifiesRefresh
    (runtime : Runtime)
    (event : Event) : Prop :=
  ∃ world params report,
    event = .request world (.refresh (Except.ok params)) ∧
      refreshOutcome runtime world params =
        some (Except.ok report) ∧
      report.rejectedDocuments = []

/- A store call of a request fails. -/
def StoreCallFails
    (runtime : Runtime)
    (world : World) :
    Request → Prop
| .refresh (Except.ok params) =>
    ∃ error,
      refreshOutcome runtime world params =
        some (Except.error error)
| .search (Except.ok params) =>
    ∃ error,
      validateExcludedUris params.excludedUris =
          Except.ok () ∧
        runtime.index.isSome ∧
        world.search
            ((SymbolQuery.new world.unicode params.query
              params.limit).excludingUris
                params.excludedUris) =
          Except.error error
| .searchExports (Except.ok params) =>
    ∃ error,
      runtime.index.isSome ∧
        world.searchExports
            (ExportQuery.new world.unicode params.query
              params.limit) =
          Except.error error
| .referenceCandidates (Except.ok params) =>
    ∃ query error,
      checkReferenceCandidates params = Except.ok query ∧
        runtime.index.isSome ∧
        world.searchReferenceCandidates query
            params.sourceResolutions
            params.admittedRootUris =
          Except.error error
| _ => False

/-
  Events that withdraw the evidence: a successful initialize,
  a failed store call, a refresh with rejected documents, and
  a failed or partial catalog.
-/
inductive Discredits (runtime : Runtime) : Event → Prop
| opened
    {world : World}
    {params : InitializeParams}
    {workspace : String × CacheLocation × StoreMetadata} :
    runtime.catalog = none →
      Runtime.openWorkspace world params =
        Except.ok workspace →
      Discredits runtime
        (.request world
          (.initializeWorkspace (Except.ok params)))
| storeFailed {world : World} {request : Request} :
    StoreCallFails runtime world request →
      Discredits runtime (.request world request)
| rejected
    {world : World}
    {params : RefreshParams}
    {report : RefreshReport} :
    refreshOutcome runtime world params =
        some (Except.ok report) →
      report.rejectedDocuments ≠ [] →
      Discredits runtime
        (.request world (.refresh (Except.ok params)))
| partialCatalog
    {generation : Nat}
    {report : RefreshReport}
    {progress : CatalogProgress} :
    runtime.catalog = some generation →
      0 < progress.rejected ∨ 0 < progress.policySkipped →
      Discredits runtime
        (.update (.complete generation report progress))
| failedCatalog
    {generation : Nat}
    {progress : CatalogProgress}
    {message : String} :
    runtime.catalog = some generation →
      Discredits runtime
        (.update (.failed generation progress message))

/-
  Some event of the run certifies the index and no later
  event discredits it.
-/
def Evidence
    (Certifies : Runtime → Event → Prop)
    (events : List Event) : Prop :=
  ∃ before event after,
    events = before ++ event :: after ∧
      Certifies (runtimeAfter before) event ∧
      ∀ middle later rest,
        after = middle ++ later :: rest →
          ¬ Discredits
            (runtimeAfter (before ++ event :: middle)) later

----------
-- One Event
----------

/- The runtime after the store has answered a refresh. -/
def refreshEffect
    (runtime : Runtime) :
    Except StoreError RefreshReport → Runtime
| Except.error _ => runtime.degrade
| Except.ok report => runtime.commitRefresh report

variable {runtime : Runtime}
variable {world : World}
variable {params : RefreshParams}

theorem refresh_of_outcome
    {outcome : Except StoreError RefreshReport}
    (hOutcome :
      refreshOutcome runtime world params = some outcome) :
    (runtime.refresh world params).1 =
      refreshEffect runtime outcome := by
  unfold refreshOutcome at hOutcome
  split at hOutcome
  next hOpen =>
    rcases Bool.and_eq_true_iff.mp hOpen with
      ⟨hCatalog, hIndex⟩
    have hBusy : ¬ runtime.catalog.isSome = true := by
      simpa using hCatalog
    have hMissing : ¬ runtime.index.isNone = true := by
      simpa [← Option.isSome_iff_ne_none] using hIndex
    rw [← Option.some.inj hOutcome]
    unfold Runtime.refresh
    rw [if_neg hBusy, if_neg hMissing]
    cases WorkspaceIndex.refresh world.unicode
        world.applyBatch params.generation params.changed
        params.removedUris with
    | error => rfl
    | ok => rfl
  next => cases hOutcome

theorem refresh_of_no_outcome
    (hOutcome :
      refreshOutcome runtime world params = none) :
    (runtime.refresh world params).1 = runtime := by
  unfold refreshOutcome at hOutcome
  split at hOutcome
  next => cases hOutcome
  next hShut =>
    unfold Runtime.refresh
    by_cases hCatalog : runtime.catalog.isSome = true
    · rw [if_pos hCatalog]
    · rw [if_neg hCatalog]
      have hNone : runtime.index.isNone = true := by
        by_contra hSome
        apply hShut
        simp_all
      rw [if_pos hNone]

/- The report of a refresh is ready iff nothing is rejected. -/
theorem refresh_report_state
    {unicode : Unicode}
    {applyBatch :
      RefreshBatch → Except StoreError CommitReceipt}
    {generation : Nat}
    {changed : List Document}
    {removed : List String}
    {report : RefreshReport}
    (hReport :
      WorkspaceIndex.refresh unicode applyBatch generation
        changed removed = Except.ok report) :
    report.state = .ready ↔ report.rejectedDocuments = [] := by
  unfold WorkspaceIndex.refresh at hReport
  simp only at hReport
  cases hBatch : applyBatch
      (refreshBatch unicode generation changed removed) with
  | error => simp [hBatch, Except.map] at hReport
  | ok receipt =>
    simp only [hBatch, Except.map, Except.ok.injEq] at hReport
    subst hReport
    simp [refreshReport, stateOfRejected]

theorem commitRefresh_ready_iff
    {report : RefreshReport}
    (hOutcome :
      refreshOutcome runtime world params =
        some (Except.ok report)) :
    (runtime.commitRefresh report).completeness = .ready ↔
      report.rejectedDocuments = [] := by
  unfold refreshOutcome at hOutcome
  split at hOutcome
  next =>
    rw [← refresh_report_state (Option.some.inj hOutcome)]
    simp [Runtime.commitRefresh]
  next => cases hOutcome

theorem completeCatalog_ready_iff
    (runtime : Runtime)
    (report : RefreshReport)
    (progress : CatalogProgress) :
    (runtime.completeCatalog report progress).completeness =
        .ready ↔
      progress.rejected = 0 ∧ progress.policySkipped = 0 := by
  unfold Runtime.completeCatalog
  by_cases hRejected : 0 < progress.rejected
  · simp only [if_pos hRejected]
    constructor
    · intro hReady
      cases hReady
    · rintro ⟨hZero, _⟩
      omega
  · by_cases hSkipped : 0 < progress.policySkipped
    · simp only [if_neg hRejected, if_pos hSkipped]
      constructor
      · intro hReady
        cases hReady
      · rintro ⟨_, hZero⟩
        omega
    · simp only [if_neg hRejected, if_neg hSkipped, true_iff]
      omega

theorem handleCatalogUpdate_active
    {update : CatalogUpdate}
    (hCatalog :
      runtime.catalog =
        some (Runtime.updateGeneration update)) :
    runtime.handleCatalogUpdate update =
      (runtime.applyCatalogUpdate update, true) :=
  if_pos (decide_eq_true hCatalog)

/- The searches keep the completeness or discredit it. -/
theorem search_completeness
    (runtime : Runtime)
    (world : World)
    (params : SearchParams) :
    (runtime.search world params).1 = runtime ∨
      (runtime.search world params).1 = runtime.degrade := by
  unfold Runtime.search
  split
  next => exact Or.inl rfl
  next =>
    split
    next => exact Or.inl rfl
    next =>
      simp only
      split
      next => exact Or.inr rfl
      next => exact Or.inl rfl

theorem searchExports_completeness
    (runtime : Runtime)
    (world : World)
    (params : SearchParams) :
    (runtime.searchExports world params).1 = runtime ∨
      (runtime.searchExports world params).1 =
        runtime.degrade := by
  unfold Runtime.searchExports
  split
  next => exact Or.inl rfl
  next =>
    split
    next => exact Or.inr rfl
    next => exact Or.inl rfl

theorem referenceCandidates_completeness
    (runtime : Runtime)
    (world : World)
    (params : ReferenceCandidatesParams) :
    (runtime.referenceCandidates world params).1 = runtime ∨
      (runtime.referenceCandidates world params).1 =
        runtime.degrade := by
  unfold Runtime.referenceCandidates
  split
  next => exact Or.inl rfl
  next =>
    split
    next => exact Or.inl rfl
    next =>
      split
      next => exact Or.inr rfl
      next => exact Or.inl rfl

theorem initializeWorkspace_completeness
    (runtime : Runtime)
    (world : World)
    (params : InitializeParams) :
    (runtime.initializeWorkspace world params).1 = runtime ∨
      (runtime.initializeWorkspace world
        params).1.completeness = .stale := by
  unfold Runtime.initializeWorkspace
  split
  next => exact Or.inl rfl
  next =>
    split
    next => exact Or.inl rfl
    next => exact Or.inr rfl

theorem startCatalog_completeness
    (runtime : Runtime)
    (world : World) :
    (runtime.startCatalog world).1.completeness =
      runtime.completeness := by
  unfold Runtime.startCatalog
  split
  next => rfl
  next =>
    split
    next => rfl
    next =>
      split
      next => rfl
      next => rfl

theorem cancelCatalog_completeness
    (runtime : Runtime)
    (world : World)
    (params : CatalogCancelParams) :
    (runtime.cancelCatalog world params).1.completeness =
      runtime.completeness := by
  unfold Runtime.cancelCatalog
  simp only
  split
  next => rfl
  next => rfl

/- A handler that keeps or withdraws readiness. -/
theorem not_ready_of_degrade
    {runtime next : Runtime}
    (hReady : ¬ runtime.completeness = .ready)
    (hNext : next = runtime ∨ next = runtime.degrade) :
    ¬ next.completeness = .ready := by
  rcases hNext with rfl | rfl
  · exact hReady
  · intro hDegraded
    cases hDegraded

/- Only evidence makes an index ready. -/
theorem request_certifies
    {request : Request}
    (hBefore : ¬ runtime.completeness = .ready)
    (hAfter :
      (runtime.dispatch world request).1.completeness =
        .ready) :
    CertifiesRefresh runtime (.request world request) := by
  cases request with
  | health => exact absurd hAfter hBefore
  | status => exact absurd hAfter hBefore
  | shutdown => exact absurd hAfter hBefore
  | unknown => exact absurd hAfter hBefore
  | initializeWorkspace params =>
    cases params with
    | error => exact absurd hAfter hBefore
    | ok params =>
      rcases initializeWorkspace_completeness runtime
          world params with hSame | hStale
      · have hSame' :
            (runtime.dispatch world
              (.initializeWorkspace
                (Except.ok params))).1 = runtime := hSame
        rw [hSame'] at hAfter
        exact absurd hAfter hBefore
      · have hStale' :
            (runtime.dispatch world
              (.initializeWorkspace
                (Except.ok params))).1.completeness =
              .stale := hStale
        rw [hStale'] at hAfter
        cases hAfter
  | refresh params =>
    cases params with
    | error => exact absurd hAfter hBefore
    | ok params =>
      have hDispatch :
          (runtime.refresh world params).1.completeness =
            .ready := hAfter
      cases hOutcome : refreshOutcome runtime world params with
      | none =>
        rw [refresh_of_no_outcome hOutcome] at hDispatch
        exact absurd hDispatch hBefore
      | some outcome =>
        rw [refresh_of_outcome hOutcome] at hDispatch
        cases outcome with
        | error => cases hDispatch
        | ok report =>
          exact
            ⟨world, params, report, rfl, hOutcome,
              (commitRefresh_ready_iff hOutcome).mp hDispatch⟩
  | search params =>
    cases params with
    | error => exact absurd hAfter hBefore
    | ok params =>
      exact
        absurd hAfter
          (not_ready_of_degrade hBefore
            (search_completeness runtime world params))
  | searchExports params =>
    cases params with
    | error => exact absurd hAfter hBefore
    | ok params =>
      exact
        absurd hAfter
          (not_ready_of_degrade hBefore
            (searchExports_completeness runtime world params))
  | referenceCandidates params =>
    cases params with
    | error => exact absurd hAfter hBefore
    | ok params =>
      exact
        absurd hAfter
          (not_ready_of_degrade hBefore
            (referenceCandidates_completeness runtime
              world params))
  | startCatalog params =>
    cases params with
    | error => exact absurd hAfter hBefore
    | ok params =>
      have hSame := startCatalog_completeness runtime world
      exact absurd (hSame.symm.trans hAfter) hBefore
  | cancelCatalog params =>
    cases params with
    | error => exact absurd hAfter hBefore
    | ok params =>
      have hSame :=
        cancelCatalog_completeness runtime world params
      exact absurd (hSame.symm.trans hAfter) hBefore

theorem update_certifies
    {update : CatalogUpdate}
    (hBefore : ¬ runtime.completeness = .ready)
    (hAfter :
      (runtime.handleCatalogUpdate update).1.completeness =
        .ready) :
    CertifiesCatalog runtime (.update update) := by
  unfold Runtime.handleCatalogUpdate at hAfter
  split at hAfter
  next hActive =>
    have hCatalog := of_decide_eq_true hActive
    cases update with
    | progress => exact absurd hAfter hBefore
    | activating => exact absurd hAfter hBefore
    | cancelled => exact absurd hAfter hBefore
    | failed => cases hAfter
    | complete generation report progress =>
      have hClean :=
        (completeCatalog_ready_iff runtime report
          progress).mp hAfter
      exact
        ⟨generation, report, progress, rfl, hCatalog,
          hClean.1, hClean.2⟩
  next => exact absurd hAfter hBefore

/- The evidence that the runtime accepts. -/
def Certifies (runtime : Runtime) (event : Event) : Prop :=
  CertifiesCatalog runtime event ∨
    CertifiesRefresh runtime event

theorem eventStep_certifies
    {event : Event}
    (hBefore : ¬ runtime.completeness = .ready)
    (hAfter :
      (eventStep runtime event).completeness = .ready) :
    Certifies runtime event := by
  cases event with
  | request world request =>
    exact Or.inr (request_certifies hBefore hAfter)
  | update update =>
    exact Or.inl (update_certifies hBefore hAfter)

/- A failed store call leaves the index degraded. -/
theorem storeCallFails_degrades
    {request : Request}
    (hFails : StoreCallFails runtime world request) :
    (runtime.dispatch world request).1 = runtime.degrade := by
  cases request with
  | refresh params =>
    cases params with
    | error => exact hFails.elim
    | ok params =>
      rcases hFails with ⟨error, hOutcome⟩
      exact refresh_of_outcome hOutcome
  | search params =>
    cases params with
    | error => exact hFails.elim
    | ok params =>
      rcases hFails with
        ⟨error, hValid, hIndex, hSearch⟩
      change (runtime.search world params).1 = _
      unfold Runtime.search
      simp [hValid, hSearch, Option.isSome_iff_ne_none.mp hIndex]
  | searchExports params =>
    cases params with
    | error => exact hFails.elim
    | ok params =>
      rcases hFails with ⟨error, hIndex, hSearch⟩
      change (runtime.searchExports world params).1 = _
      unfold Runtime.searchExports
      simp [hSearch, Option.isSome_iff_ne_none.mp hIndex]
  | referenceCandidates params =>
    cases params with
    | error => exact hFails.elim
    | ok params =>
      rcases hFails with
        ⟨query, error, hValid, hIndex, hSearch⟩
      change (runtime.referenceCandidates world params).1 = _
      unfold Runtime.referenceCandidates
      simp [hValid, hSearch, Option.isSome_iff_ne_none.mp hIndex]
  | _ => exact hFails.elim

/- Every discrediting event leaves the index not ready. -/
theorem not_ready_of_discredits
    {event : Event}
    (hDiscredits : Discredits runtime event) :
    ¬ (eventStep runtime event).completeness = .ready := by
  intro hReady
  cases hDiscredits with
  | @opened world params workspace hCatalog hOpen =>
    have hStale :
        (runtime.initializeWorkspace world
          params).1.completeness = .stale := by
      unfold Runtime.initializeWorkspace
      simp [hCatalog, hOpen]
    have hDispatch :
        (runtime.initializeWorkspace world
          params).1.completeness = .ready := hReady
    rw [hStale] at hDispatch
    cases hDispatch
  | storeFailed hFails =>
    have hDegraded := storeCallFails_degrades hFails
    change (runtime.dispatch _ _).1.completeness = _ at hReady
    rw [hDegraded] at hReady
    cases hReady
  | rejected hOutcome hRejected =>
    change (runtime.refresh _ _).1.completeness = _ at hReady
    rw [refresh_of_outcome hOutcome] at hReady
    exact hRejected ((commitRefresh_ready_iff hOutcome).mp hReady)
  | @partialCatalog generation report progress hCatalog
      hPartial =>
      change
        (runtime.handleCatalogUpdate _).1.completeness = _
          at hReady
      rw [handleCatalogUpdate_active hCatalog] at hReady
      have hClean :=
        (completeCatalog_ready_iff runtime report
          progress).mp hReady
      omega
  | failedCatalog hCatalog =>
    change
      (runtime.handleCatalogUpdate _).1.completeness = _ at hReady
    rw [handleCatalogUpdate_active hCatalog] at hReady
    cases hReady

----------
-- Whole Runs
----------

theorem evidence_of_ready
    {events : List Event}
    (hReady :
      (runtimeAfter events).completeness = .ready) :
    Evidence Certifies events := by
  rcases Transition.exists_last_cause
      (P := fun runtime : Runtime =>
        runtime.completeness = .ready)
      (by decide) hReady with
    ⟨before, event, after, hSplit, hBefore, hAfter⟩
  refine ⟨before, event, after, hSplit, ?_, ?_⟩
  · have hNow := hAfter [] after rfl
    rw [Transition.run_append] at hNow
    exact eventStep_certifies hBefore hNow
  · intro middle later rest hRest hDiscredits
    have hLater :=
      hAfter (middle ++ [later]) rest (by simp [hRest])
    have hJoin :
        before ++ event :: (middle ++ [later]) =
          (before ++ event :: middle) ++ [later] := by
      simp
    rw [hJoin, Transition.run_append] at hLater
    exact not_ready_of_discredits hDiscredits hLater

/- A response that calls the candidates complete. -/
def ClaimsComplete
    (runtime : Runtime)
    (world : World)
    (params : ReferenceCandidatesParams) : Prop :=
  ∃ response,
    (runtime.referenceCandidates world params).2 =
        answered response ∧
      (response.field "complete" = some (.bool true) ∨
        response.field "identityComplete" =
          some (.bool true))

theorem ready_of_claimsComplete
    {params : ReferenceCandidatesParams}
    (hClaims : ClaimsComplete runtime world params) :
    runtime.completeness = .ready := by
  rcases hClaims with ⟨response, hAnswer, hField⟩
  unfold Runtime.referenceCandidates at hAnswer
  split at hAnswer
  next => cases hAnswer
  next =>
    split at hAnswer
    next => cases hAnswer
    next =>
      split at hAnswer
      next => cases hAnswer
      next result _ =>
        have hResponse :
            referenceCandidatesJson runtime.completeness
                result = response :=
          congrArg Prod.fst (Except.ok.inj hAnswer)
        subst hResponse
        rcases hField with hComplete | hIdentity
        · have hBool :
              (result.complete &&
                decide (runtime.completeness = .ready)) =
                true :=
            Json.bool.inj (Option.some.inj hComplete)
          exact
            of_decide_eq_true (Bool.and_eq_true_iff.mp hBool).2
        · have hBool :
              (result.identityComplete &&
                decide (runtime.completeness = .ready)) =
                true :=
            Json.bool.inj (Option.some.inj hIdentity)
          exact
            of_decide_eq_true (Bool.and_eq_true_iff.mp hBool).2

/-
  In every run the index is ready, and reference candidates
  are called complete, only on evidence that no later event
  has withdrawn.
-/
theorem ready_has_evidence
    (events : List Event)
    (hReady :
      (runtimeAfter events).completeness = .ready ∨
        ∃ world params,
          ClaimsComplete (runtimeAfter events) world params) :
    Evidence Certifies events := by
  rcases hReady with hReady | ⟨world, params, hClaims⟩
  · exact evidence_of_ready hReady
  · exact evidence_of_ready (ready_of_claimsComplete hClaims)

----------
-- A Ready Index without a Catalog
----------

/- A world with an empty store that answers every call. -/
def emptyStoreWorld : World where
  unicode := Unicode.ascii
  now := 0
  canonicalize path := Except.ok path
  workspaceCacheLocation _ root :=
    Except.ok ⟨"/cache/symbols-v2.sqlite3", root⟩
  openStore _ := Except.ok ()
  metadata := Except.ok ⟨0, []⟩
  applyBatch batch :=
    Except.ok ⟨batch.generation, batch.rejectedUris⟩
  search _ := Except.ok ⟨[], 0⟩
  searchExports _ := Except.ok ⟨[], 0⟩
  searchReferenceCandidates _ _ _ :=
    Except.ok (unsupportedReferenceCandidates 1)
  cancel := false

/- A client opens a workspace and sends one document. -/
def refreshOnlyRun : List Event :=
  [.request emptyStoreWorld
      (.initializeWorkspace
        (Except.ok ⟨"/workspace", "/cache"⟩)),
    .request emptyStoreWorld
      (.refresh
        (Except.ok
          ⟨1,
            [⟨"file:///workspace/Persisted.ets",
              "class PersistedService \x7b run() \x7b\x7d \x7d\n".toList⟩],
            []⟩))]

theorem refreshOnlyRun_ready :
    (runtimeAfter refreshOnlyRun).completeness = .ready := by
  decide +kernel

theorem ready_has_evidence_refreshOnlyRun :
    Evidence Certifies refreshOnlyRun :=
  ready_has_evidence refreshOnlyRun
    (Or.inl refreshOnlyRun_ready)

/-
  The run ends ready although no catalog has ever been
  started: a clean refresh is enough for the runtime.
-/
theorem refreshOnlyRun_without_catalog :
    (runtimeAfter refreshOnlyRun).completeness = .ready ∧
      ¬ Evidence CertifiesCatalog refreshOnlyRun := by
  refine ⟨refreshOnlyRun_ready, ?_⟩
  rintro ⟨before, event, after, hSplit, hCatalog, _⟩
  rcases hCatalog with
    ⟨generation, report, progress, rfl, _⟩
  have hMem :
      Event.update (.complete generation report progress) ∈
        refreshOnlyRun := by
    rw [hSplit]
    exact List.mem_append_right _ List.mem_cons_self
  simp [refreshOnlyRun] at hMem

end Sidecar

end ArktsServer
