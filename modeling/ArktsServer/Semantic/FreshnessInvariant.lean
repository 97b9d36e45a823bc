import ArktsServer.Semantic.ReferenceFreshness

/-
  What holds while an edit waits for the index, and why the
  pipe, the answers and the sidecar keep it.

  Key definitions include:
    * `Semantic.Reconciled`
    * `Semantic.ReplacedProbe`
    * `Semantic.FreshnessInv`

  Correctness is proven by:
    * `Semantic.FreshnessWorld.FreshnessInv.outside`
    * `Semantic.FreshnessWorld.FreshnessInv.answered`
-/

namespace ArktsServer

namespace Semantic

----------
-- The Property
----------

/- A usable answer covers the changes of its moment. -/
def Reconciled (world : FreshnessWorld) : Prop :=
  ∀ resolution ∈ world.resolutions,
    resolution.result.usable = true →
      resolution.changes ≤ resolution.covered

/-
  The continuation of a search whose token is no longer the
  current one, while another token is.
-/
def ReplacedProbe
    (world : FreshnessWorld) : FreshnessEvent → Bool
| .statusDelivered id =>
    match world.calls.find? (·.id = id) with
    | some { purpose := .search dirty, answer := some _, .. } =>
        world.isDirty && !world.isCurrent dirty
    | _ => false
| _ => false

----------
-- Invariant
----------

/- The tokens that a continuation refers to. -/
def StatusPurpose.dirty? : StatusPurpose → Option Nat
| .capture dirty => some dirty
| .catalogStarted => none
| .postEditCatalog dirty _ => some dirty
| .search dirty => some dirty

def SearchWait.dirty : SearchWait → Nat
| .capture dirty => dirty
| .postEditCatalog dirty _ => dirty

/- Every start in the pipe stands before the status call. -/
def StartsBefore (call : Nat) : List PipeRequest → Prop
| [] => True
| .status other :: rest =>
    if other = call then
      ∀ run, .startCatalog run ∉ rest
    else
      StartsBefore call rest
| .startCatalog _ :: rest =>
    .status call ∈ rest ∧ StartsBefore call rest
| .refresh _ :: rest => StartsBefore call rest

namespace FreshnessWorld

/- A commit above the baseline covers the token's change. -/
def Certified
    (world : FreshnessWorld)
    (dirty baseline : Nat) : Prop :=
  world.builds.Certifies baseline (dirty + 1)

/- The change of the token is covered. -/
def Covered
    (world : FreshnessWorld)
    (dirty : Nat) : Prop :=
  dirty + 1 ≤ world.builds.covered

/- The current token, whose capture has settled. -/
def Captured
    (world : FreshnessWorld)
    (dirty : Nat) : Prop :=
  world.settled (world.freshness.tokens dirty).capture = true

/-
  What the answer of a call may rely on, if its token is the
  current one.
-/
def CallCertified
    (world : FreshnessWorld)
    (call : StatusCall) : Prop :=
  match call.purpose with
  | .capture dirty =>
      world.isCurrent dirty = true →
        world.sessionFailure = none →
          ∀ status,
            call.answer = some (some status) →
              world.Certified dirty status.newest
  | .catalogStarted => True
  | .postEditCatalog dirty baseline =>
      world.isCurrent dirty = true →
        (call.answer = none → world.Certified dirty baseline) ∧
          ∀ status,
            call.answer = some (some status) →
              status.state = .ready →
                baseline < status.committedGeneration →
                  world.Covered dirty
  | .search dirty =>
      world.isCurrent dirty = true →
        world.Captured dirty ∧
          ∀ status,
            call.answer = some (some status) →
              status.state = .ready →
                ∀ baseline,
                  (world.freshness.tokens
                      dirty).baselineGeneration =
                      some baseline →
                    baseline < status.committedGeneration →
                      world.Covered dirty

/-
  The run that waits for `catalogStarted`: once it is
  answered, no catalog can start before the run goes on.
-/
structure StartInv (world : FreshnessWorld) : Prop where
  behind :
    ∀ call,
      world.run = .starting call →
        StartsBefore call world.pipe
  run :
    ∀ call ∈ world.calls,
      call.purpose = .catalogStarted →
        world.run = .starting call.id
  answered :
    ∀ call ∈ world.calls,
      call.purpose = .catalogStarted →
        ∀ status,
          call.answer = some (some status) →
            world.sessionFailure = none →
              (∀ run, .startCatalog run ∉ world.pipe) ∧
                ∀ build,
                  world.builds.building = some build →
                    build.generation ≤ status.newest

/- The token that the run has bound. -/
structure BoundInv (world : FreshnessWorld) : Prop where
  token :
    ∀ pending,
      world.freshness.catalogDirtyGeneration = some pending →
        pending.dirty < world.freshness.nextToken
  building :
    ∀ pending,
      world.freshness.catalogDirtyGeneration = some pending →
        world.sessionFailure = none →
          ∀ build,
            world.builds.building = some build →
              pending.baselineGeneration < build.generation →
                pending.dirty + 1 ≤ build.changes
  ready :
    ∀ pending,
      world.freshness.catalogDirtyGeneration = some pending →
        world.run = .ready →
          world.Certified pending.dirty
            pending.baselineGeneration

/- Identifiers and tokens in use have been given out. -/
structure NamesInv (world : FreshnessWorld) : Prop where
  callIds : ∀ call ∈ world.calls, call.id < world.nextCall
  pipeIds :
    ∀ call, .status call ∈ world.pipe → call < world.nextCall
  callTokens :
    ∀ call ∈ world.calls,
      ∀ dirty,
        call.purpose.dirty? = some dirty →
          dirty < world.freshness.nextToken
  searchTokens :
    ∀ search ∈ world.searches,
      search.dirty < world.freshness.nextToken

/- The current token is the last one. -/
structure CurrentInv (world : FreshnessWorld) : Prop where
  last :
    ∀ dirty,
      world.isCurrent dirty = true →
        dirty + 1 = world.freshness.nextToken
  captureId :
    ∀ dirty,
      world.isCurrent dirty = true →
        (world.freshness.tokens dirty).capture <
          world.nextCall
  captureCall :
    ∀ dirty,
      world.isCurrent dirty = true →
        ∀ call ∈ world.calls,
          (call.id =
              (world.freshness.tokens dirty).capture ↔
            call.purpose = .capture dirty)
  clean :
    world.freshness.dirtyGeneration = none →
      world.freshness.nextToken ≤ world.builds.covered
  captured :
    world.sessionFailure = none →
      ∀ dirty,
        world.isCurrent dirty = true →
          world.Captured dirty →
            ∀ baseline,
              (world.freshness.tokens
                  dirty).baselineGeneration =
                  some baseline →
                world.Certified dirty baseline
  postEdit :
    ∀ dirty,
      world.isCurrent dirty = true →
        (world.freshness.tokens
            dirty).postEditCatalogGeneration.isSome = true →
          world.Covered dirty
  waiting :
    ∀ dirty call,
      .postEditCatalog dirty call ∈ world.searches →
        world.isCurrent dirty = true →
          world.Captured dirty

structure FreshnessInv (world : FreshnessWorld) : Prop where
  names : world.NamesInv
  current : world.CurrentInv
  certified : ∀ call ∈ world.calls, world.CallCertified call
  start : world.StartInv
  bound : world.BoundInv
  failed :
    world.sessionFailure.isSome = true →
      world.pipe = [] ∧ world.run ≠ .ready
  reconciled : Reconciled world

----------
-- Frames
----------

/-
  `later` keeps what `world` says about its current token,
  if it is still the current one.
-/
structure Keeps (world later : FreshnessWorld) : Prop where
  current :
    ∀ dirty,
      dirty < world.freshness.nextToken →
        later.isCurrent dirty = true →
          world.isCurrent dirty = true
  baseline :
    ∀ dirty,
      dirty < world.freshness.nextToken →
        later.isCurrent dirty = true →
          (later.freshness.tokens dirty).baselineGeneration =
            (world.freshness.tokens dirty).baselineGeneration
  captured :
    ∀ dirty,
      dirty < world.freshness.nextToken →
        later.isCurrent dirty = true →
          world.Captured dirty → later.Captured dirty
  failure :
    later.sessionFailure = none → world.sessionFailure = none
  certified :
    ∀ dirty baseline,
      dirty < world.freshness.nextToken →
        world.Certified dirty baseline →
          later.Certified dirty baseline
  covered : world.builds.covered ≤ later.builds.covered

variable {dirty : Nat}
variable {world later : FreshnessWorld}

theorem Keeps.coveredToken
    (hKeeps : Keeps world later)
    (hCovered : world.Covered dirty) :
    later.Covered dirty :=
  Nat.le_trans hCovered hKeeps.covered

theorem Keeps.call
    {call : StatusCall}
    (hKeeps : Keeps world later)
    (hTokens :
      ∀ dirty,
        call.purpose.dirty? = some dirty →
          dirty < world.freshness.nextToken)
    (hCall : world.CallCertified call) :
    later.CallCertified call := by
  unfold CallCertified at hCall ⊢
  cases hPurpose : call.purpose with
  | capture dirty =>
    rw [hPurpose] at hCall hTokens
    have hDirty := hTokens dirty rfl
    intro hCurrent hFailure status hAnswer
    exact
      hKeeps.certified dirty _ hDirty
        (hCall (hKeeps.current dirty hDirty hCurrent)
          (hKeeps.failure hFailure) status hAnswer)
  | catalogStarted => trivial
  | postEditCatalog dirty baseline =>
    rw [hPurpose] at hCall hTokens
    have hDirty := hTokens dirty rfl
    intro hCurrent
    rcases hCall (hKeeps.current dirty hDirty hCurrent) with
      ⟨hWaiting, hAnswered⟩
    refine ⟨?_, ?_⟩
    · intro hNone
      exact hKeeps.certified dirty _ hDirty (hWaiting hNone)
    · intro status hAnswer hReady hAbove
      exact
        hKeeps.coveredToken
          (hAnswered status hAnswer hReady hAbove)
  | search dirty =>
    rw [hPurpose] at hCall hTokens
    have hDirty := hTokens dirty rfl
    intro hCurrent
    rcases hCall (hKeeps.current dirty hDirty hCurrent) with
      ⟨hCaptured, hAnswered⟩
    refine ⟨hKeeps.captured dirty hDirty hCurrent hCaptured, ?_⟩
    intro status hAnswer hReady baseline hBaseline hAbove
    rw [hKeeps.baseline dirty hDirty hCurrent] at hBaseline
    exact
      hKeeps.coveredToken
        (hAnswered status hAnswer hReady baseline hBaseline
          hAbove)

theorem settled_iff
    (world : FreshnessWorld)
    (id : Nat) :
    world.settled id = true ↔
      ∀ call ∈ world.calls, call.id ≠ id := by
  simp [settled]

theorem isCurrent_iff
    (world : FreshnessWorld)
    (dirty : Nat) :
    world.isCurrent dirty = true ↔
      world.freshness.dirtyGeneration = some dirty := by
  simp [isCurrent]

variable {pipe : List PipeRequest}
variable {builds : Builds}

/-
  Steps of the sidecar, of the pipe and of the run: the
  tokens, the calls and the searches stay.
-/
theorem FreshnessInv.outside
    {world : FreshnessWorld}
    {run : ServiceRun}
    {nextRun : Nat}
    (hInv : world.FreshnessInv)
    (hCertified :
      ∀ dirty baseline,
        dirty < world.freshness.nextToken →
          world.builds.Certifies baseline (dirty + 1) →
            builds.Certifies baseline (dirty + 1))
    (hCovered : world.builds.covered ≤ builds.covered)
    (hPipe :
      ∀ call, .status call ∈ pipe → .status call ∈ world.pipe)
    (hStart :
      StartInv
        { world with
          pipe := pipe
          run := run
          nextRun := nextRun
          builds := builds })
    (hBound :
      BoundInv
        { world with
          pipe := pipe
          run := run
          nextRun := nextRun
          builds := builds })
    (hFailed :
      world.sessionFailure.isSome = true →
        pipe = [] ∧ run ≠ .ready) :
    FreshnessInv
      { world with
        pipe := pipe
        run := run
        nextRun := nextRun
        builds := builds } := by
  have hKeeps :
      Keeps world
        { world with
          pipe := pipe
          run := run
          nextRun := nextRun
          builds := builds } :=
    { current := fun _ _ hCurrent => hCurrent
      baseline := fun _ _ _ => rfl
      captured := fun _ _ _ hCaptured => hCaptured
      failure := fun hFailure => hFailure
      certified := hCertified
      covered := hCovered }
  refine
    { names := ?_
      current := ?_
      certified := ?_
      start := hStart
      bound := hBound
      failed := hFailed
      reconciled := hInv.reconciled }
  · refine { hInv.names with pipeIds := ?_ }
    intro call hCall
    exact hInv.names.pipeIds call (hPipe call hCall)
  · refine
      { hInv.current with
        clean := ?_
        captured := ?_
        postEdit := ?_ }
    · intro hNone
      exact Nat.le_trans (hInv.current.clean hNone) hCovered
    · intro hFailure dirty hCurrent hCaptured baseline
        hBaseline
      have hDirty := hInv.current.last dirty hCurrent
      exact
        hCertified dirty baseline (by omega)
          (hInv.current.captured hFailure dirty hCurrent
            hCaptured baseline hBaseline)
    · intro dirty hCurrent hPost
      exact
        hKeeps.coveredToken
          (hInv.current.postEdit dirty hCurrent hPost)
  · intro call hCall
    exact
      hKeeps.call (hInv.names.callTokens call hCall)
        (hInv.certified call hCall)

----------
-- The Pipe
----------

variable {call : Nat}

theorem startsBefore_of_none
    (hNone : ∀ run, .startCatalog run ∉ pipe) :
    StartsBefore call pipe := by
  induction pipe with
  | nil => trivial
  | cons request rest ih =>
    have hRest : ∀ run, .startCatalog run ∉ rest :=
      fun run hRun => hNone run (List.mem_cons_of_mem _ hRun)
    cases request with
    | status other =>
      unfold StartsBefore
      by_cases hOther : other = call
      · rw [if_pos hOther]
        exact hRest
      · rw [if_neg hOther]
        exact ih hRest
    | startCatalog run =>
      exact absurd (List.mem_cons_self ..) (hNone run)
    | refresh generation => exact ih hRest

variable {request : PipeRequest}
variable {rest : List PipeRequest}

theorem startsBefore_tail
    (hBefore : StartsBefore call (request :: rest)) :
    StartsBefore call rest := by
  cases request with
  | status other =>
    unfold StartsBefore at hBefore
    by_cases hOther : other = call
    · rw [if_pos hOther] at hBefore
      exact startsBefore_of_none hBefore
    · rw [if_neg hOther] at hBefore
      exact hBefore
  | startCatalog run => exact hBefore.2
  | refresh generation => exact hBefore

/- A request that starts nothing may follow. -/
theorem startsBefore_append
    (hBefore : StartsBefore call pipe)
    (hRequest : ∀ run, request ≠ .startCatalog run) :
    StartsBefore call (pipe ++ [request]) := by
  induction pipe with
  | nil =>
    apply startsBefore_of_none
    intro run hRun
    exact hRequest run (List.mem_singleton.mp hRun).symm
  | cons first rest ih =>
    cases first with
    | status other =>
      simp only [List.cons_append, StartsBefore] at hBefore ⊢
      by_cases hOther : other = call
      · rw [if_pos hOther] at hBefore ⊢
        intro run hRun
        rcases List.mem_append.mp hRun with hRun | hRun
        · exact hBefore run hRun
        · exact hRequest run (List.mem_singleton.mp hRun).symm
      · rw [if_neg hOther] at hBefore ⊢
        exact ih hBefore
    | startCatalog run =>
      refine ⟨?_, ih hBefore.2⟩
      exact List.mem_append_left _ hBefore.1
    | refresh generation => exact ih hBefore

/- A new status call stands behind every start. -/
theorem startsBefore_new
    (hNew : .status call ∉ pipe) :
    StartsBefore call (pipe ++ [.status call]) := by
  induction pipe with
  | nil =>
    apply startsBefore_of_none
    intro run hRun
    cases List.mem_singleton.mp hRun
  | cons first rest ih =>
    have hRest : .status call ∉ rest :=
      fun hCall => hNew (List.mem_cons_of_mem _ hCall)
    cases first with
    | status other =>
      have hOther : other ≠ call := by
        intro hSame
        rw [hSame] at hNew
        exact hNew (List.mem_cons_self ..)
      simp only [List.cons_append, StartsBefore]
      rw [if_neg hOther]
      exact ih hRest
    | startCatalog run =>
      exact
        ⟨List.mem_append_right _ (List.mem_singleton.mpr rfl),
          ih hRest⟩
    | refresh generation => exact ih hRest

variable {world : FreshnessWorld}

/- A request that starts nothing joins the pipe. -/
theorem StartInv.append
    {nextCall : Nat}
    (hStart : world.StartInv)
    (hRequest : ∀ run, request ≠ .startCatalog run) :
    StartInv
      { world with
        pipe := world.pipe ++ [request]
        nextCall := nextCall } where
  behind := by
    intro call hRun
    exact startsBefore_append (hStart.behind call hRun) hRequest
  run := hStart.run
  answered := by
    intro call hCall hPurpose status hAnswer hFailure
    rcases hStart.answered call hCall hPurpose status hAnswer
      hFailure with ⟨hNone, hBuild⟩
    refine ⟨?_, hBuild⟩
    intro run hRun
    rcases List.mem_append.mp hRun with hRun | hRun
    · exact hNone run hRun
    · exact hRequest run (List.mem_singleton.mp hRun).symm

/- The run is not waiting, and neither is a call of it. -/
theorem startInv_moved
    (hCalls :
      ∀ call ∈ world.calls, call.purpose ≠ .catalogStarted)
    (hRun : ∀ call, world.run ≠ .starting call) :
    world.StartInv where
  behind := by
    intro call hStarting
    exact absurd hStarting (hRun call)
  run := by
    intro call hCall hPurpose
    exact absurd hPurpose (hCalls call hCall)
  answered := by
    intro call hCall hPurpose
    exact absurd hPurpose (hCalls call hCall)

/- Without a starting run there is no such call. -/
theorem StartInv.no_calls
    (hStart : world.StartInv)
    (hRun : ∀ call, world.run ≠ .starting call) :
    ∀ call ∈ world.calls, call.purpose ≠ .catalogStarted := by
  intro call hCall hPurpose
  exact hRun call.id (hStart.run call hCall hPurpose)

theorem freshnessInv_sendsRefresh
    (generation : Nat)
    (hInv : world.FreshnessInv)
    (hFailure : world.sessionFailure = none) :
    FreshnessInv
      { world with
        pipe := world.pipe ++ [.refresh generation] } := by
  refine
    hInv.outside (fun _ _ _ hCertified => hCertified)
      (Nat.le_refl _) ?_ ?_ { hInv.bound with } ?_
  · intro call hCall
    rcases List.mem_append.mp hCall with hCall | hCall
    · exact hCall
    · cases List.mem_singleton.mp hCall
  · exact hInv.start.append (by intro run hRun; cases hRun)
  · simp [hFailure]

/- The run asks for its catalog, or gives it up. -/
theorem freshnessInv_requestCatalog
    (hInv : world.FreshnessInv)
    (hCalls :
      ∀ call ∈ world.calls, call.purpose ≠ .catalogStarted) :
    world.requestCatalog.FreshnessInv := by
  unfold requestCatalog
  split
  · rename_i hFailure
    refine
      hInv.outside (fun _ _ _ hCertified => hCertified)
        (Nat.le_refl _) (fun _ hCall => hCall) ?_ ?_ ?_
    · exact
        startInv_moved hCalls (by intro call hRun; cases hRun)
    · exact
        ⟨hInv.bound.token, hInv.bound.building,
          by intro _ _ hRun; cases hRun⟩
    · intro _
      exact ⟨(hInv.failed hFailure).1, by intro hRun; cases hRun⟩
  · rename_i hFailure
    refine
      hInv.outside (fun _ _ _ hCertified => hCertified)
        (Nat.le_refl _) ?_ ?_ ?_ ?_
    · intro call hCall
      rcases List.mem_append.mp hCall with hCall | hCall
      · exact hCall
      · cases List.mem_singleton.mp hCall
    · exact
        startInv_moved hCalls (by intro call hRun; cases hRun)
    · exact
        ⟨hInv.bound.token, hInv.bound.building,
          by intro _ _ hRun; cases hRun⟩
    · intro hFailed
      exact absurd hFailed hFailure

theorem freshnessInv_runFails
    (hInv : world.FreshnessInv) :
    world.runFails.FreshnessInv := by
  unfold runFails
  split
  · exact hInv
  · rename_i hRun
    refine
      hInv.outside (fun _ _ _ hCertified => hCertified)
        (Nat.le_refl _) (fun _ hCall => hCall) ?_ ?_ ?_
    · exact
        startInv_moved (hInv.start.no_calls hRun)
          (by intro call hIdle; cases hIdle)
    · exact
        ⟨hInv.bound.token, hInv.bound.building,
          by intro _ _ hIdle; cases hIdle⟩
    · intro hFailed
      exact ⟨(hInv.failed hFailed).1, by intro hIdle; cases hIdle⟩

----------
-- Answers
----------

variable {waits : StatusCall → Prop} [DecidablePred waits]

/- The calls that wait are given an answer. -/
def answered
    (world : FreshnessWorld)
    (waits : StatusCall → Prop) [DecidablePred waits]
    (answer : Option WorkspaceIndexStatus) : FreshnessWorld :=
  { world with
    calls :=
      world.calls.map fun call =>
        if waits call then
          { call with answer := some answer }
        else
          call }

variable {answer : Option WorkspaceIndexStatus}

/- Apart from its answer a call is the one it was. -/
theorem mem_answered
    {call : StatusCall}
    (hCall : call ∈ (world.answered waits answer).calls) :
    ∃ old ∈ world.calls,
      call.id = old.id ∧ call.purpose = old.purpose ∧
        (call = old ∨
          waits old ∧
            call = { old with answer := some answer }) := by
  rcases List.mem_map.mp hCall with ⟨old, hOld, rfl⟩
  refine ⟨old, hOld, ?_⟩
  split
  · rename_i hWaits
    exact ⟨rfl, rfl, .inr ⟨hWaits, rfl⟩⟩
  · exact ⟨rfl, rfl, .inl rfl⟩

theorem settled_answered (id : Nat) :
    (world.answered waits answer).settled id =
      world.settled id := by
  simp only [settled, answered, List.all_map]
  congr 1
  funext call
  simp only [Function.comp_apply]
  split <;> rfl

theorem callCertified_answered
    {call : StatusCall}
    (hCall : world.CallCertified call) :
    (world.answered waits answer).CallCertified call := by
  unfold CallCertified Captured at *
  simp only [settled_answered]
  exact hCall

/- Answers change; the identity of a call does not. -/
theorem FreshnessInv.answered
    (waits : StatusCall → Prop) [DecidablePred waits]
    (hInv : world.FreshnessInv)
    (hCertified :
      ∀ call ∈ world.calls,
        waits call →
          world.CallCertified
            { call with answer := some answer })
    (hStart :
      ∀ call ∈ world.calls,
        call.purpose = .catalogStarted →
          waits call →
            ∀ status,
              answer = some status →
                world.sessionFailure = none →
                  (∀ run, .startCatalog run ∉ world.pipe) ∧
                    ∀ build,
                      world.builds.building = some build →
                        build.generation ≤ status.newest) :
    (world.answered waits answer).FreshnessInv := by
  refine
    { hInv with
      names := ?_
      current := ?_
      certified := ?_
      start := ⟨hInv.start.behind, ?_, ?_⟩
      bound := { hInv.bound with } }
  · refine { hInv.names with callIds := ?_, callTokens := ?_ }
    · intro call hCall
      rcases mem_answered hCall with ⟨old, hOld, hId, -, -⟩
      rw [hId]
      exact hInv.names.callIds old hOld
    · intro call hCall
      rcases mem_answered hCall with
        ⟨old, hOld, -, hPurpose, -⟩
      rw [hPurpose]
      exact hInv.names.callTokens old hOld
  · refine
      { hInv.current with
        captureCall := ?_
        captured := ?_
        waiting := ?_ }
    · intro dirty hCurrent call hCall
      rcases mem_answered hCall with
        ⟨old, hOld, hId, hPurpose, -⟩
      rw [hId, hPurpose]
      exact hInv.current.captureCall dirty hCurrent old hOld
    · intro hFailure dirty hCurrent hCaptured
      unfold Captured at hCaptured
      rw [settled_answered] at hCaptured
      exact
        hInv.current.captured hFailure dirty hCurrent hCaptured
    · intro dirty call hSearch hCurrent
      unfold Captured
      rw [settled_answered]
      exact hInv.current.waiting dirty call hSearch hCurrent
  · intro call hCall
    rcases mem_answered hCall with
      ⟨old, hOld, -, -, rfl | ⟨hWaits, rfl⟩⟩
    · exact callCertified_answered (hInv.certified call hOld)
    · exact callCertified_answered (hCertified old hOld hWaits)
  · intro call hCall hStarted
    rcases mem_answered hCall with
      ⟨old, hOld, hId, hPurpose, -⟩
    rw [hId]
    rw [hPurpose] at hStarted
    exact hInv.start.run old hOld hStarted
  · intro call hCall hStarted status hAnswer
    rcases mem_answered hCall with
      ⟨old, hOld, -, -, rfl | ⟨hWaits, rfl⟩⟩
    · exact
        hInv.start.answered call hOld hStarted status hAnswer
    · exact
        hStart old hOld hStarted hWaits status
          (Option.some.inj hAnswer)

/- A rejected call certifies nothing. -/
theorem callCertified_rejected
    {call : StatusCall}
    (hCall : world.CallCertified call) :
    world.CallCertified { call with answer := some none } := by
  unfold CallCertified at *
  cases hPurpose : call.purpose with
  | capture dirty =>
    intro _ _ status hAnswer
    cases hAnswer
  | catalogStarted => trivial
  | postEditCatalog dirty baseline =>
    intro _
    refine ⟨?_, ?_⟩
    · intro hNone
      cases hNone
    · intro status hAnswer
      cases hAnswer
  | search dirty =>
    rw [hPurpose] at hCall
    intro hCurrent
    refine ⟨(hCall hCurrent).1, ?_⟩
    intro status hAnswer
    cases hAnswer

/- Rejections keep the invariant, whatever they hit. -/
theorem FreshnessInv.rejected
    (waits : StatusCall → Prop) [DecidablePred waits]
    (hInv : world.FreshnessInv) :
    (world.answered waits none).FreshnessInv :=
  hInv.answered waits
    (fun call hCall _ =>
      callCertified_rejected (hInv.certified call hCall))
    (by intro _ _ _ _ _ hNone; cases hNone)

/- The status of the sidecar, as it is at this moment. -/
def presentStatus
    (world : FreshnessWorld)
    (state : WorkspaceIndexState) : WorkspaceIndexStatus :=
  ⟨state, world.builds.committed,
    world.builds.building.map Build.generation⟩

theorem presentStatus_newest
    (state : WorkspaceIndexState) :
    (world.presentStatus state).newest =
      world.builds.newest :=
  rfl

variable (state : WorkspaceIndexState)

/- The present status answers a call that was waiting. -/
theorem callCertified_present
    {call : StatusCall}
    (hInv : world.FreshnessInv)
    (hFailure : world.sessionFailure = none)
    (hMember : call ∈ world.calls)
    (hWaiting : call.answer = none) :
    world.CallCertified
      { call with
        answer := some (some (world.presentStatus state)) } := by
  have hCall := hInv.certified call hMember
  unfold CallCertified at *
  cases hPurpose : call.purpose with
  | capture dirty =>
    intro _ _ status hAnswer
    cases hAnswer
    exact Builds.certifies_newest _ _
  | catalogStarted => trivial
  | postEditCatalog dirty baseline =>
    rw [hPurpose] at hCall
    intro hCurrent
    have hBaseline := (hCall hCurrent).1 hWaiting
    refine ⟨?_, ?_⟩
    · intro hNone
      cases hNone
    · intro status hAnswer _ hAbove
      cases hAnswer
      exact hBaseline.committed hAbove
  | search dirty =>
    rw [hPurpose] at hCall
    intro hCurrent
    have hCaptured := (hCall hCurrent).1
    refine ⟨hCaptured, ?_⟩
    intro status hAnswer _ baseline hBaseline hAbove
    cases hAnswer
    have hCertified :=
      hInv.current.captured hFailure dirty hCurrent
        hCaptured baseline hBaseline
    exact hCertified.committed hAbove

theorem freshnessInv_statusRejected
    (id : Nat)
    (hInv : world.FreshnessInv) :
    (world.answerCall id none).FreshnessInv :=
  hInv.rejected fun call => call.id = id ∧ call.answer = none

variable {id : Nat}

/- A session that has failed has emptied the pipe. -/
theorem FreshnessInv.opened
    (hInv : world.FreshnessInv)
    (hPipe : world.pipe = request :: rest) :
    world.sessionFailure = none := by
  by_contra hFailed
  have hEmpty :=
    (hInv.failed (Option.isSome_iff_ne_none.mpr hFailed)).1
  rw [hPipe] at hEmpty
  cases hEmpty

/- A request leaves the pipe, and the run may move on. -/
theorem StartInv.pop
    (hStart : world.StartInv)
    (hPipe : world.pipe = request :: rest)
    (hBuilding :
      ∀ build,
        builds.building = some build →
          world.builds.building = some build ∨
            ∃ run, request = .startCatalog run) :
    StartInv
      { world with
        pipe := rest
        builds := builds } where
  behind := by
    intro call hRun
    have hBefore := hStart.behind call hRun
    rw [hPipe] at hBefore
    exact startsBefore_tail hBefore
  run := hStart.run
  answered := by
    intro call hCall hPurpose status hAnswer hFailure
    rcases hStart.answered call hCall hPurpose status hAnswer
      hFailure with ⟨hNone, hBuild⟩
    rw [hPipe] at hNone
    refine ⟨?_, ?_⟩
    · intro run hRun
      exact hNone run (List.mem_cons_of_mem _ hRun)
    · intro build hNew
      rcases hBuilding build hNew with hOld | ⟨run, rfl⟩
      · exact hBuild build hOld
      · exact absurd (List.mem_cons_self ..) (hNone run)

/- The sidecar handles the request at the head. -/
theorem FreshnessInv.pop
    (hInv : world.FreshnessInv)
    (hPipe : world.pipe = request :: rest)
    (hCertified :
      ∀ dirty baseline,
        dirty < world.freshness.nextToken →
          world.builds.Certifies baseline (dirty + 1) →
            builds.Certifies baseline (dirty + 1))
    (hCovered : world.builds.covered ≤ builds.covered)
    (hBuilding :
      ∀ build,
        builds.building = some build →
          world.builds.building = some build ∨
            ∃ run, request = .startCatalog run)
    (hBound :
      BoundInv
        { world with
          pipe := rest
          builds := builds }) :
    FreshnessInv
      { world with
        pipe := rest
        builds := builds } := by
  refine
    hInv.outside hCertified hCovered ?_
      (hInv.start.pop hPipe hBuilding) hBound ?_
  · intro call hCall
    rw [hPipe]
    exact List.mem_cons_of_mem _ hCall
  · simp [hInv.opened hPipe]

/- A request that changes no builds. -/
theorem FreshnessInv.skip
    (hInv : world.FreshnessInv)
    (hPipe : world.pipe = request :: rest) :
    FreshnessInv { world with pipe := rest } :=
  hInv.pop hPipe (fun _ _ _ hCertified => hCertified)
    (Nat.le_refl _) (fun _ hBuild => .inl hBuild)
    { hInv.bound with }

/- A status call that reaches the head of the pipe. -/
theorem freshnessInv_answersStatus
    (hInv : world.FreshnessInv)
    (hPipe : world.pipe = .status id :: rest) :
    (answerCall { world with pipe := rest } id
      (some (world.presentStatus state))).FreshnessInv := by
  have hPopped := hInv.skip hPipe
  refine
    hPopped.answered
      (fun call => call.id = id ∧ call.answer = none) ?_ ?_
  · intro call hCall hThis
    exact
      callCertified_present state hPopped (hInv.opened hPipe)
        hCall hThis.2
  · intro call hCall hPurpose hThis status hAnswer _
    cases hAnswer
    have hBefore :=
      hInv.start.behind call.id
        (hInv.start.run call hCall hPurpose)
    rw [hPipe, hThis.1] at hBefore
    unfold StartsBefore at hBefore
    rw [if_pos rfl] at hBefore
    refine ⟨hBefore, ?_⟩
    intro build hBuild
    have hBuilding : world.builds.building = some build := hBuild
    rw [presentStatus_newest]
    unfold Builds.newest
    rw [hBuilding]
    exact Nat.le_max_right _ _

theorem freshnessInv_sessionFails
    (lastGeneration : Nat)
    (hInv : world.FreshnessInv) :
    (world.sessionFails lastGeneration).FreshnessInv := by
  unfold sessionFails
  split
  · exact hInv
  · have hRejected :=
      hInv.rejected fun call => call.answer = none
    refine
      { names := ?_
        current := ?_
        certified := ?_
        start := ?_
        bound := ?_
        failed := ?_
        reconciled := hInv.reconciled }
    · exact
        { hRejected.names with
          pipeIds := by
            intro call hCall
            cases hCall }
    · exact
        { hRejected.current with
          captured := by
            intro hFailure
            cases hFailure }
    · intro call hCall
      have hCertified := hRejected.certified call hCall
      unfold CallCertified at *
      cases hPurpose : call.purpose with
      | capture dirty =>
        intro _ hFailure
        cases hFailure
      | catalogStarted => trivial
      | postEditCatalog dirty baseline =>
        rw [hPurpose] at hCertified
        exact hCertified
      | search dirty =>
        rw [hPurpose] at hCertified
        exact hCertified
    · refine ⟨?_, ?_, ?_⟩
      · intro call _
        trivial
      · intro call hCall hPurpose
        have hRun := hRejected.start.run call hCall hPurpose
        have hStarting : world.run = .starting call.id := hRun
        simp only [hStarting]
      · intro call _ _ _ _ hFailure
        cases hFailure
    · refine ⟨hInv.bound.token, ?_, ?_⟩
      · intro pending _ hFailure
        cases hFailure
      · intro pending _ hReady
        split at hReady
        · cases hReady
        · cases hReady
    · intro _
      refine ⟨rfl, ?_⟩
      intro hReady
      split at hReady
      · cases hReady
      · cases hReady

----------
-- The Sidecar
----------

/- A run that was requested is none that starts. -/
theorem StartInv.attach
    (hStart : world.StartInv)
    (run generation : Nat) :
    (world.attach run generation).StartInv := by
  unfold FreshnessWorld.attach
  split
  · rename_i hRequested
    exact
      startInv_moved (hStart.no_calls (by simp [hRequested]))
        (by intro call hAttached; cases hAttached)
  · exact hStart

theorem BoundInv.attach
    (hBound : world.BoundInv)
    (run generation : Nat) :
    (world.attach run generation).BoundInv := by
  unfold FreshnessWorld.attach
  split
  · refine ⟨hBound.token, hBound.building, ?_⟩
    intro _ _ hAttached
    cases hAttached
  · exact hBound

theorem freshnessInv_attach
    (hInv : world.FreshnessInv)
    (run generation : Nat) :
    (world.attach run generation).FreshnessInv := by
  have hStart := hInv.start.attach run generation
  have hBound := hInv.bound.attach run generation
  unfold FreshnessWorld.attach at *
  split
  · rename_i hRequested
    rw [if_pos hRequested] at hStart hBound
    refine
      hInv.outside (fun _ _ _ hCertified => hCertified)
        (Nat.le_refl _) (fun _ hCall => hCall) hStart hBound ?_
    intro hFailed
    exact
      ⟨(hInv.failed hFailed).1,
        by intro hAttached; cases hAttached⟩
  · exact hInv

theorem freshnessInv_sidecarHandles
    (generation : Nat)
    (hInv : world.FreshnessInv) :
    (world.sidecarHandles state generation).FreshnessInv := by
  unfold sidecarHandles
  split
  · exact hInv
  · rename_i id rest hPipe
    exact freshnessInv_answersStatus state hInv hPipe
  · rename_i run rest hPipe
    have hPopped := hInv.skip hPipe
    split
    · exact freshnessInv_attach hPopped run _
    · split
      · apply freshnessInv_attach
        refine
          hInv.pop hPipe ?_ (Nat.le_refl _)
            (fun _ _ => .inr ⟨run, rfl⟩) ?_
        · intro dirty baseline hDirty hCertified
          exact hCertified.start hDirty
        · refine ⟨hInv.bound.token, ?_, ?_⟩
          · intro pending hPending _ build hBuild _
            cases hBuild
            exact hInv.bound.token pending hPending
          · intro pending hPending hReady
            have hToken := hInv.bound.token pending hPending
            have hCertified :=
              hInv.bound.ready pending hPending hReady
            exact hCertified.start hToken
      · exact hPopped
  · rename_i refreshed rest hPipe
    split
    · refine
        hInv.pop hPipe ?_ (Nat.le_max_left _ _)
          (fun _ hBuild => .inl hBuild) ?_
      · intro dirty baseline hDirty hCertified
        exact hCertified.confirm hDirty
      · refine ⟨hInv.bound.token, hInv.bound.building, ?_⟩
        intro pending hPending hReady
        have hToken := hInv.bound.token pending hPending
        have hCertified :=
          hInv.bound.ready pending hPending hReady
        exact hCertified.confirm hToken
    · exact hInv.skip hPipe

/- A run whose catalog has ended is none that starts. -/
theorem StartInv.ended
    {ended : ServiceRun}
    (generation : Nat)
    (hStart : world.StartInv)
    (hEnded : ∀ call, ended ≠ .starting call)
    (hBuilding : builds.building = none) :
    StartInv
      { world with
        builds := builds
        run := world.runEnded generation ended } := by
  unfold runEnded
  by_cases hAttached : world.run = .attached generation
  · rw [if_pos hAttached]
    exact
      startInv_moved (hStart.no_calls (by simp [hAttached]))
        hEnded
  · rw [if_neg hAttached]
    refine ⟨hStart.behind, hStart.run, ?_⟩
    intro call hCall hPurpose status hAnswer hFailure
    refine
      ⟨(hStart.answered call hCall hPurpose status hAnswer
        hFailure).1, ?_⟩
    intro build hBuild
    rw [hBuilding] at hBuild
    cases hBuild

/-
  The commit that makes a run ready is the commit of a
  catalog that started behind its binding, or one that the
  baseline of the binding knows.
-/
theorem freshnessInv_catalogCommits
    (isReady : Bool)
    (hInv : world.FreshnessInv)
    (hFailure : world.sessionFailure = none) :
    (world.catalogCommits isReady).FreshnessInv := by
  unfold catalogCommits
  split
  · exact hInv
  · rename_i build hBuild
    refine
      hInv.outside ?_ (Nat.le_max_left _ _)
        (fun _ hCall => hCall) ?_ ?_ ?_
    · intro dirty baseline _ hCertified
      exact hCertified.commit hBuild
    · refine hInv.start.ended _ ?_ rfl
      intro call
      split <;> simp
    · refine ⟨hInv.bound.token, ?_, ?_⟩
      · intro pending _ _ other hOther
        cases hOther
      · intro pending hPending _
        apply Builds.certifies_commit
        exact
          hInv.bound.building pending hPending hFailure build
            hBuild
    · simp [hFailure]

theorem freshnessInv_catalogEnds
    (hInv : world.FreshnessInv) :
    world.catalogEnds.FreshnessInv := by
  unfold catalogEnds
  split
  · exact hInv
  · rename_i build hBuild
    have hRun :
        world.runEnded build.generation .idle = .ready →
          world.run = .ready := by
      intro hReady
      unfold runEnded at hReady
      by_cases hAttached : world.run = .attached build.generation
      · rw [if_pos hAttached] at hReady
        cases hReady
      · rw [if_neg hAttached] at hReady
        exact hReady
    refine
      hInv.outside ?_ (Nat.le_refl _) (fun _ hCall => hCall)
        ?_ ?_ ?_
    · intro dirty baseline _ hCertified
      exact hCertified.abandon
    · exact hInv.start.ended _ (by simp) rfl
    · refine ⟨hInv.bound.token, ?_, ?_⟩
      · intro pending _ _ other hOther
        cases hOther
      · intro pending hPending hReady
        have hCertified :=
          hInv.bound.ready pending hPending (hRun hReady)
        exact hCertified.abandon
    · intro hFailed
      refine ⟨(hInv.failed hFailed).1, ?_⟩
      intro hReady
      exact (hInv.failed hFailed).2 (hRun hReady)

end FreshnessWorld

end Semantic

end ArktsServer
