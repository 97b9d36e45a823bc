import ArktsServer.Semantic.FreshnessInvariant

/-
  A search that finds the reference index usable finds every
  change covered by a committed generation, unless its token
  was replaced by a newer one while its status call was
  under way.

  Correctness is proven by:
    * `Semantic.freshnessInv_step`
    * `Semantic.reconciled_run`
-/

namespace ArktsServer

namespace Semantic

open Transition

namespace FreshnessWorld

variable {dirty : Nat}
variable {pipe : List PipeRequest}
variable {call : Nat}
variable {world : FreshnessWorld}
variable {answer : Option WorkspaceIndexStatus}
variable {id : Nat}

----------
-- Status Calls
----------

/- The call that `callStatus` makes. -/
def newCall
    (world : FreshnessWorld)
    (purpose : StatusPurpose) : StatusCall where
  id := world.nextCall
  purpose := purpose
  answer :=
    world.sessionFailure.map fun generation =>
      some ⟨.degraded, generation, none⟩

/- The requests that `callStatus` sends. -/
def newRequests (world : FreshnessWorld) : List PipeRequest :=
  if world.sessionFailure.isSome then []
  else [.status world.nextCall]

theorem callStatus_eq
    (world : FreshnessWorld)
    (purpose : StatusPurpose) :
    world.callStatus purpose =
      { world with
        calls := world.calls ++ [world.newCall purpose]
        pipe := world.pipe ++ world.newRequests
        nextCall := world.nextCall + 1 } := by
  unfold callStatus newCall newRequests
  cases hFailure : world.sessionFailure with
  | none => simp
  | some generation => simp

variable {purpose : StatusPurpose}

theorem newCall_answer_some
    {status : WorkspaceIndexStatus}
    (hAnswer :
      (world.newCall purpose).answer = some (some status)) :
    status.state = .degraded ∧
      world.sessionFailure.isSome = true := by
  unfold newCall at hAnswer
  rcases Option.map_eq_some_iff.mp hAnswer with
    ⟨generation, hFailure, hStatus⟩
  refine ⟨?_, by simp [hFailure]⟩
  rw [← Option.some.inj hStatus]

theorem newRequests_starts_nothing
    {run : Nat} :
    .startCatalog run ∉ world.newRequests := by
  unfold newRequests
  split
  · exact List.not_mem_nil
  · intro hRun
    cases List.mem_singleton.mp hRun

theorem startsBefore_newRequests
    (hBefore : StartsBefore call pipe) :
    StartsBefore call (pipe ++ world.newRequests) := by
  unfold newRequests
  split
  · rw [List.append_nil]
    exact hBefore
  · apply startsBefore_append hBefore
    intro run hRun
    cases hRun

/- What a new call leaves of the names. -/
theorem NamesInv.callStatus
    (hNames : world.NamesInv)
    (hToken :
      ∀ dirty,
        purpose.dirty? = some dirty →
          dirty < world.freshness.nextToken) :
    (world.callStatus purpose).NamesInv := by
  rw [callStatus_eq]
  refine ⟨?_, ?_, ?_, hNames.searchTokens⟩
  · intro call hCall
    rcases List.mem_append.mp hCall with hCall | hCall
    · exact Nat.lt_succ_of_lt (hNames.callIds call hCall)
    · rw [List.mem_singleton.mp hCall]
      exact Nat.lt_succ_self _
  · intro call hCall
    rcases List.mem_append.mp hCall with hCall | hCall
    · exact Nat.lt_succ_of_lt (hNames.pipeIds call hCall)
    · unfold newRequests at hCall
      split at hCall
      · cases hCall
      · cases List.mem_singleton.mp hCall
        exact Nat.lt_succ_self _
  · intro call hCall dirty hDirty
    rcases List.mem_append.mp hCall with hCall | hCall
    · exact hNames.callTokens call hCall dirty hDirty
    · rw [List.mem_singleton.mp hCall] at hDirty
      exact hToken dirty hDirty

/- The run goes on waiting for the call it waited for. -/
theorem StartInv.callStatus
    (hStart : world.StartInv)
    (hPurpose : purpose ≠ .catalogStarted) :
    (world.callStatus purpose).StartInv := by
  rw [callStatus_eq]
  refine ⟨?_, ?_, ?_⟩
  · intro call hRun
    exact startsBefore_newRequests (hStart.behind call hRun)
  · intro call hCall hStarted
    rcases List.mem_append.mp hCall with hCall | hCall
    · exact hStart.run call hCall hStarted
    · rw [List.mem_singleton.mp hCall] at hStarted
      exact absurd hStarted hPurpose
  · intro call hCall hStarted status hAnswer hFailure
    rcases List.mem_append.mp hCall with hCall | hCall
    · rcases hStart.answered call hCall hStarted status hAnswer
        hFailure with ⟨hNone, hBuild⟩
      refine ⟨?_, hBuild⟩
      intro run hRun
      rcases List.mem_append.mp hRun with hRun | hRun
      · exact hNone run hRun
      · exact newRequests_starts_nothing hRun
    · rw [List.mem_singleton.mp hCall] at hStarted
      exact absurd hStarted hPurpose

theorem failed_callStatus
    (hFailed :
      world.sessionFailure.isSome = true →
        world.pipe = [] ∧ world.run ≠ .ready) :
    (world.callStatus purpose).sessionFailure.isSome = true →
      (world.callStatus purpose).pipe = [] ∧
        (world.callStatus purpose).run ≠ .ready := by
  rw [callStatus_eq]
  intro hFailure
  have hOpen : world.sessionFailure.isSome = true := hFailure
  refine ⟨?_, (hFailed hOpen).2⟩
  simp [newRequests, hOpen, (hFailed hOpen).1]

theorem settled_callStatus
    (hId : id < world.nextCall) :
    (world.callStatus purpose).settled id =
      world.settled id := by
  rw [callStatus_eq]
  simp only [settled, List.all_append, List.all_cons,
    List.all_nil, Bool.and_true]
  have hOther : world.nextCall ≠ id := by omega
  simp [newCall, hOther]

theorem captured_callStatus
    (purpose : StatusPurpose)
    (hCurrent : world.CurrentInv)
    (dirty : Nat)
    (hDirty : world.isCurrent dirty = true) :
    (world.callStatus purpose).settled
        (world.freshness.tokens dirty).capture =
      world.settled (world.freshness.tokens dirty).capture :=
  settled_callStatus (hCurrent.captureId dirty hDirty)

theorem keeps_callStatus
    (purpose : StatusPurpose)
    (hCurrent : world.CurrentInv) :
    Keeps world (world.callStatus purpose) := by
  have hEq := callStatus_eq world purpose
  refine
    { current := ?_
      baseline := ?_
      captured := ?_
      failure := ?_
      certified := ?_
      covered := ?_ }
  · intro dirty _ hDirty
    rw [hEq] at hDirty
    exact hDirty
  · intro dirty _ _
    rw [hEq]
  · intro dirty _ hDirty hCaptured
    rw [hEq] at hDirty
    have hSettled :=
      captured_callStatus purpose hCurrent dirty hDirty
    unfold Captured at *
    rw [hEq] at hSettled ⊢
    rw [hSettled]
    exact hCaptured
  · intro hFailure
    rw [hEq] at hFailure
    exact hFailure
  · intro dirty baseline _ hCertified
    rw [hEq]
    exact hCertified
  · simp only [hEq, Nat.le_refl]

/- A call that captures no token leaves the current one. -/
theorem CurrentInv.callStatus
    (hCurrent : world.CurrentInv)
    (hCapture : ∀ dirty, purpose ≠ .capture dirty) :
    (world.callStatus purpose).CurrentInv := by
  have hSettled := captured_callStatus purpose hCurrent
  rw [callStatus_eq] at hSettled ⊢
  refine
    { hCurrent with
      captureId := ?_
      captureCall := ?_
      captured := ?_
      waiting := ?_ }
  · intro dirty hDirty
    exact Nat.lt_succ_of_lt (hCurrent.captureId dirty hDirty)
  · intro dirty hDirty call hCall
    rcases List.mem_append.mp hCall with hCall | hCall
    · exact hCurrent.captureCall dirty hDirty call hCall
    · rw [List.mem_singleton.mp hCall]
      have hLess := hCurrent.captureId dirty hDirty
      constructor
      · intro hId
        have hNext :
            world.nextCall =
              (world.freshness.tokens dirty).capture :=
          hId
        omega
      · intro hCaptures
        exact absurd hCaptures (hCapture dirty)
  · intro hFailure dirty hDirty hCaptured
    unfold Captured at hCaptured
    rw [hSettled dirty hDirty] at hCaptured
    exact hCurrent.captured hFailure dirty hDirty hCaptured
  · intro dirty call hSearch hDirty
    have hCaptured := hCurrent.waiting dirty call hSearch hDirty
    unfold Captured at hCaptured ⊢
    rw [hSettled dirty hDirty]
    exact hCaptured

/- The calls of the world, and the new one. -/
theorem certified_callStatus
    (hNames : world.NamesInv)
    (hCurrent : world.CurrentInv)
    (hOld : ∀ call ∈ world.calls, world.CallCertified call)
    (hNew :
      CallCertified (world.callStatus purpose)
        (world.newCall purpose)) :
    ∀ call ∈ (world.callStatus purpose).calls,
      (world.callStatus purpose).CallCertified call := by
  intro call hCall
  have hMember :
      call ∈ world.calls ++ [world.newCall purpose] := by
    rw [callStatus_eq] at hCall
    exact hCall
  rcases List.mem_append.mp hMember with hMember | hMember
  · exact
      (keeps_callStatus purpose hCurrent).call
        (hNames.callTokens call hMember) (hOld call hMember)
  · rw [List.mem_singleton.mp hMember]
    exact hNew

theorem BoundInv.callStatus
    (purpose : StatusPurpose)
    (hBound : world.BoundInv) :
    (world.callStatus purpose).BoundInv := by
  rw [callStatus_eq]
  exact { hBound with }

theorem reconciled_callStatus
    (purpose : StatusPurpose)
    (hReconciled : Reconciled world) :
    Reconciled (world.callStatus purpose) := by
  rw [callStatus_eq]
  exact hReconciled

/- A call for a token that exists. -/
theorem FreshnessInv.callStatus
    (hInv : world.FreshnessInv)
    (hToken :
      ∀ dirty,
        purpose.dirty? = some dirty →
          dirty < world.freshness.nextToken)
    (hCapture : ∀ dirty, purpose ≠ .capture dirty)
    (hPurpose : purpose ≠ .catalogStarted)
    (hCertified :
      CallCertified (world.callStatus purpose)
        (world.newCall purpose)) :
    (world.callStatus purpose).FreshnessInv where
  names := hInv.names.callStatus hToken
  current := hInv.current.callStatus hCapture
  certified :=
    certified_callStatus hInv.names hInv.current
      hInv.certified hCertified
  start := hInv.start.callStatus hPurpose
  bound := hInv.bound.callStatus purpose
  failed := failed_callStatus hInv.failed
  reconciled := reconciled_callStatus purpose hInv.reconciled

----------
-- Changes
----------

/- The world that the call of `changed` is made in. -/
def marked (world : FreshnessWorld) : FreshnessWorld :=
  { world with
    freshness :=
      { world.freshness with
        dirtyGeneration := some world.freshness.nextToken
        tokens :=
          Function.update world.freshness.tokens
            world.freshness.nextToken
            { baselineGeneration :=
                world.freshness.acceptedGeneration
              capture := world.nextCall }
        nextToken := world.freshness.nextToken + 1 } }

theorem changed_eq (world : FreshnessWorld) :
    world.changed =
      world.marked.callStatus
        (.capture world.freshness.nextToken) :=
  rfl

/- Only the new token is current. -/
theorem isCurrent_changed
    (hCurrent : world.changed.isCurrent dirty = true) :
    dirty = world.freshness.nextToken := by
  rw [changed_eq, callStatus_eq] at hCurrent
  have hSome := (isCurrent_iff _ _).mp hCurrent
  exact (Option.some.inj hSome).symm

theorem keeps_changed (world : FreshnessWorld) :
    Keeps world world.changed := by
  have hOlder (dirty : Nat)
      (hOld : dirty < world.freshness.nextToken) :
      ¬ world.changed.isCurrent dirty = true :=
    fun hDirty => Nat.ne_of_lt hOld (isCurrent_changed hDirty)
  have hEq := changed_eq world
  rw [callStatus_eq] at hEq
  refine
    { current := fun dirty hOld hDirty =>
        absurd hDirty (hOlder dirty hOld)
      baseline := fun dirty hOld hDirty =>
        absurd hDirty (hOlder dirty hOld)
      captured := fun dirty hOld hDirty =>
        absurd hDirty (hOlder dirty hOld)
      failure := ?_
      certified := ?_
      covered := ?_ }
  · intro hFailure
    rw [hEq] at hFailure
    exact hFailure
  · intro dirty baseline _ hCertified
    rw [hEq]
    exact hCertified
  · have hBuilds := congrArg FreshnessWorld.builds hEq
    exact Nat.le_of_eq (congrArg Builds.covered hBuilds).symm

/- The call of the new token is the new call, unanswered. -/
theorem currentInv_changed
    (hNames : world.NamesInv) :
    world.changed.CurrentInv := by
  have hToken :
      (world.marked.freshness.tokens
        world.freshness.nextToken).capture = world.nextCall := by
    simp [marked]
  have hEq := changed_eq world
  rw [callStatus_eq] at hEq
  refine
    { last := ?_
      captureId := ?_
      captureCall := ?_
      clean := ?_
      captured := ?_
      postEdit := ?_
      waiting := ?_ }
  · intro dirty hDirty
    rw [isCurrent_changed hDirty, hEq]
    rfl
  · intro dirty hDirty
    rw [isCurrent_changed hDirty, hEq]
    dsimp only
    rw [hToken]
    exact Nat.lt_succ_self _
  · intro dirty hDirty call hCall
    rw [isCurrent_changed hDirty]
    rw [hEq] at hCall ⊢
    dsimp only
    rw [hToken]
    rcases List.mem_append.mp hCall with hCall | hCall
    · have hId := hNames.callIds call hCall
      constructor
      · intro hSame
        omega
      · intro hPurpose
        have hOld :=
          hNames.callTokens call hCall
            world.freshness.nextToken
            (by rw [hPurpose]; rfl)
        omega
    · rw [List.mem_singleton.mp hCall]
      exact ⟨fun _ => rfl, fun _ => rfl⟩
  · intro hNone
    rw [hEq] at hNone
    cases hNone
  · intro _ dirty hDirty hCaptured
    rw [isCurrent_changed hDirty] at hCaptured
    unfold Captured at hCaptured
    rw [settled_iff, hEq] at hCaptured
    have hNew :=
      hCaptured
        (world.marked.newCall
          (.capture world.freshness.nextToken))
        (List.mem_append_right _ (List.mem_singleton.mpr rfl))
    dsimp only at hNew
    rw [hToken] at hNew
    exact absurd rfl hNew
  · intro dirty hDirty hPost
    rw [isCurrent_changed hDirty, hEq] at hPost
    simp [marked] at hPost
  · intro dirty call hSearch hDirty
    have hNew := isCurrent_changed hDirty
    rw [hEq] at hSearch
    have hOld : dirty < world.freshness.nextToken :=
      hNames.searchTokens _ hSearch
    omega

/- A new token makes every older one irrelevant. -/
theorem freshnessInv_changed
    (hInv : world.FreshnessInv) :
    world.changed.FreshnessInv := by
  have hNames : world.marked.NamesInv := by
    refine ⟨hInv.names.callIds, hInv.names.pipeIds, ?_, ?_⟩
    · intro call hCall dirty hDirty
      exact
        Nat.lt_succ_of_lt
          (hInv.names.callTokens call hCall dirty hDirty)
    · intro search hSearch
      exact
        Nat.lt_succ_of_lt (hInv.names.searchTokens search hSearch)
  have hStart : world.marked.StartInv := { hInv.start with }
  have hBound : world.marked.BoundInv :=
    ⟨fun pending hPending =>
        Nat.lt_succ_of_lt (hInv.bound.token pending hPending),
      hInv.bound.building, hInv.bound.ready⟩
  refine
    { names := ?_
      current := currentInv_changed hInv.names
      certified := ?_
      start := hStart.callStatus (by simp)
      bound := hBound.callStatus _
      failed := failed_callStatus hInv.failed
      reconciled := reconciled_callStatus _ hInv.reconciled }
  · apply hNames.callStatus
    intro dirty hDirty
    rw [← Option.some.inj hDirty]
    exact Nat.lt_succ_self _
  · intro call hMem
    have hCall := hMem
    rw [changed_eq, callStatus_eq] at hCall
    rcases List.mem_append.mp hCall with hCall | hCall
    · exact
        (keeps_changed world).call
          (hInv.names.callTokens call hCall)
          (hInv.certified call hCall)
    · rw [List.mem_singleton.mp hCall]
      intro _ hFailure status hAnswer
      have hFailed := (newCall_answer_some hAnswer).2
      rw [changed_eq, callStatus_eq] at hFailure
      have hNone : world.marked.sessionFailure = none := hFailure
      rw [hNone] at hFailed
      cases hFailed

theorem freshnessInv_workspaceFilesChanged
    (rootDirty : Bool)
    (paths : List (Option String))
    (hInv : world.FreshnessInv) :
    (world.workspaceFilesChanged rootDirty
      paths).FreshnessInv := by
  unfold workspaceFilesChanged
  split
  · exact freshnessInv_changed hInv
  · exact hInv

theorem freshnessInv_accepted
    (generation : Nat)
    (hInv : world.FreshnessInv) :
    (world.accepted generation).FreshnessInv :=
  { hInv with
    names := { hInv.names with }
    current := { hInv.current with }
    start := { hInv.start with }
    bound := { hInv.bound with } }

----------
-- Catalog Runs
----------

/- A run begins: it waits for a status call behind all. -/
theorem freshnessInv_catalogStarted
    (hInv : world.FreshnessInv)
    (hIdle : world.run = .idle) :
    world.catalogStarted.FreshnessInv := by
  have hNone := hInv.start.no_calls (by simp [hIdle])
  unfold catalogStarted
  split
  · exact freshnessInv_requestCatalog hInv hNone
  · have hNames :
        NamesInv
          { world with run := .starting world.nextCall } :=
            { hInv.names with }
    have hCurrent :
        CurrentInv
          { world with run := .starting world.nextCall } :=
            { hInv.current with }
    have hBound :
        BoundInv { world with run := .starting world.nextCall } :=
      ⟨hInv.bound.token, hInv.bound.building,
        by intro _ _ hReady; cases hReady⟩
    refine
      { names := ?_
        current := ?_
        certified := ?_
        start := ?_
        bound := hBound.callStatus _
        failed := ?_
        reconciled := reconciled_callStatus _ hInv.reconciled }
    · exact hNames.callStatus (by simp [StatusPurpose.dirty?])
    · exact hCurrent.callStatus (by simp)
    · exact
        certified_callStatus hNames hCurrent hInv.certified
          trivial
    · rw [callStatus_eq]
      refine ⟨?_, ?_, ?_⟩
      · intro call hRun
        cases hRun
        unfold newRequests
        split
        · rename_i hFailure
          dsimp only at hFailure ⊢
          rw [(hInv.failed hFailure).1]
          trivial
        · apply startsBefore_new
          intro hCall
          have hLess := hInv.names.pipeIds _ hCall
          exact absurd hLess (Nat.lt_irrefl _)
      · intro call hCall hPurpose
        rcases List.mem_append.mp hCall with hCall | hCall
        · exact absurd hPurpose (hNone call hCall)
        · rw [List.mem_singleton.mp hCall]
          rfl
      · intro call hCall hPurpose status hAnswer hFailure
        rcases List.mem_append.mp hCall with hCall | hCall
        · exact absurd hPurpose (hNone call hCall)
        · rw [List.mem_singleton.mp hCall] at hAnswer
          have hFailed := (newCall_answer_some hAnswer).2
          have hOpen : world.sessionFailure = none := hFailure
          dsimp only at hFailed
          rw [hOpen] at hFailed
          cases hFailed
    · apply failed_callStatus
      intro hFailure
      exact
        ⟨(hInv.failed hFailure).1, by intro hReady; cases hReady⟩

/- What the new entry of a token keeps is kept. -/
theorem update_kept
    {Field : Type}
    {tokens : Nat → DirtyIndexGeneration}
    {token : DirtyIndexGeneration}
    (field : DirtyIndexGeneration → Field)
    (hField : field token = field (tokens dirty))
    (other : Nat) :
    field (Function.update tokens dirty token other) =
      field (tokens other) := by
  by_cases hSame : other = dirty
  · rw [hSame, Function.update_self]
    exact hField
  · rw [Function.update_of_ne hSame]

/-
  A token gets a new promise or a new post-edit generation;
  its capture and its baseline stay.
-/
theorem FreshnessInv.retoken
    (dirty : Nat)
    (update : DirtyIndexGeneration → DirtyIndexGeneration)
    (hInv : world.FreshnessInv)
    (hCapture :
      ∀ token, (update token).capture = token.capture)
    (hBaseline :
      ∀ token,
        (update token).baselineGeneration =
          token.baselineGeneration)
    (hPost :
      world.isCurrent dirty = true →
        (update (world.freshness.tokens
            dirty)).postEditCatalogGeneration.isSome = true →
          world.Covered dirty) :
    (world.updateToken dirty update).FreshnessInv := by
  have hCaptures :=
    update_kept DirtyIndexGeneration.capture
      (hCapture (world.freshness.tokens dirty))
  have hBaselines :=
    update_kept DirtyIndexGeneration.baselineGeneration
      (hBaseline (world.freshness.tokens dirty))
  have hCaptured (other : Nat) :
      (world.updateToken dirty update).Captured other ↔
        world.Captured other := by
    unfold Captured updateToken
    simp only [hCaptures]
    exact Iff.rfl
  have hKeeps :
      Keeps world (world.updateToken dirty update) :=
    { current := fun _ _ hCurrent => hCurrent
      baseline := fun other _ _ => hBaselines other
      captured := fun other _ _ => (hCaptured other).mpr
      failure := fun hFailure => hFailure
      certified := fun _ _ _ hCertified => hCertified
      covered := Nat.le_refl _ }
  unfold updateToken
  refine
    { hInv with
      names := { hInv.names with }
      current := ?_
      certified := ?_
      start := { hInv.start with }
      bound := { hInv.bound with } }
  · refine
      { last := hInv.current.last
        captureId := ?_
        captureCall := ?_
        clean := hInv.current.clean
        captured := ?_
        postEdit := ?_
        waiting := ?_ }
    · intro other hCurrent
      dsimp only
      rw [hCaptures]
      exact hInv.current.captureId other hCurrent
    · intro other hCurrent call hCall
      dsimp only
      rw [hCaptures]
      exact hInv.current.captureCall other hCurrent call hCall
    · intro hFailure other hCurrent hDone baseline hValue
      dsimp only at hValue
      rw [hBaselines] at hValue
      exact
        hInv.current.captured hFailure other hCurrent
          ((hCaptured other).mp hDone) baseline hValue
    · intro other hCurrent hSome
      by_cases hSame : other = dirty
      · subst hSame
        dsimp only at hSome
        rw [Function.update_self] at hSome
        exact hPost hCurrent hSome
      · dsimp only at hSome
        rw [Function.update_of_ne hSame] at hSome
        exact hInv.current.postEdit other hCurrent hSome
    · intro other call hSearch hCurrent
      exact
        (hCaptured other).mpr
          (hInv.current.waiting other call hSearch hCurrent)
  · intro call hCall
    exact
      hKeeps.call (hInv.names.callTokens call hCall)
        (hInv.certified call hCall)

/- The binding is taken, or a new one is made. -/
theorem FreshnessInv.rebind
    {run : ServiceRun}
    {bound : Option CatalogDirtyGeneration}
    (hInv : world.FreshnessInv)
    (hBound :
      BoundInv
        { world with
          run := run
          freshness :=
            { world.freshness with
              catalogDirtyGeneration := bound } })
    (hStart :
      run = world.run ∨
        (∀ call ∈ world.calls,
            call.purpose ≠ .catalogStarted) ∧
          ∀ call, run ≠ .starting call)
    (hReady : run = .ready → world.run = .ready) :
    FreshnessInv
      { world with
        run := run
        freshness :=
          { world.freshness with
            catalogDirtyGeneration := bound } } where
  names := { hInv.names with }
  current := { hInv.current with }
  certified := hInv.certified
  start := by
    rcases hStart with rfl | ⟨hCalls, hRun⟩
    · exact { hInv.start with }
    · exact startInv_moved hCalls hRun
  bound := hBound
  failed := by
    intro hFailed
    rcases hInv.failed hFailed with ⟨hPipe, hRun⟩
    exact ⟨hPipe, fun hNow => hRun (hReady hNow)⟩
  reconciled := hInv.reconciled

theorem boundInv_none
    {run : ServiceRun} :
    BoundInv
      { world with
        run := run
        freshness :=
          { world.freshness with
            catalogDirtyGeneration := none } } := by
  refine ⟨?_, ?_, ?_⟩
  · intro pending hPending
    cases hPending
  · intro pending hPending
    cases hPending
  · intro pending hPending
    cases hPending

/- The token bound to the run that is reported ready. -/
theorem freshnessInv_catalogReady
    (hInv : world.FreshnessInv)
    (hReady : world.run = .ready) :
    (catalogReady { world with run := .idle }).FreshnessInv := by
  have hOpen : world.sessionFailure = none := by
    by_contra hFailed
    exact
      (hInv.failed (Option.isSome_iff_ne_none.mpr hFailed)).2
        hReady
  have hNone := hInv.start.no_calls (by simp [hReady])
  have hTaken :
      FreshnessInv
        { world with
          run := .idle
          freshness :=
            { world.freshness with
              catalogDirtyGeneration := none } } :=
    hInv.rebind boundInv_none
      (.inr ⟨hNone, by intro call hIdle; cases hIdle⟩)
      (by intro hIdle; cases hIdle)
  unfold catalogReady
  dsimp only
  split
  · exact hTaken
  · rename_i pending hPending
    split
    · rename_i hCurrent
      have hCertified := hInv.bound.ready pending hPending hReady
      have hNoted :=
        hTaken.retoken pending.dirty
          (fun token =>
            { token with
              postEditCatalogCapture := some world.nextCall })
          (fun _ => rfl) (fun _ => rfl)
          (hInv.current.postEdit pending.dirty)
      apply hNoted.callStatus
      · intro dirty hDirty
        rw [← Option.some.inj hDirty]
        exact hInv.bound.token pending hPending
      · simp
      · simp
      · rw [callStatus_eq]
        intro _
        refine ⟨fun _ => hCertified, ?_⟩
        intro status hAnswer
        have hFailed := (newCall_answer_some hAnswer).2
        dsimp only at hFailed
        rw [hOpen] at hFailed
        cases hFailed
    · exact hTaken

----------
-- Searches
----------

theorem FreshnessInv.resolve
    {result : ReferenceIndexFreshnessResult}
    (hInv : world.FreshnessInv)
    (hUsable :
      result.usable = true →
        world.freshness.nextToken ≤ world.builds.covered) :
    (world.resolve result).FreshnessInv where
  names := { hInv.names with }
  current := { hInv.current with }
  certified := hInv.certified
  start := { hInv.start with }
  bound := { hInv.bound with }
  failed := hInv.failed
  reconciled := by
    intro resolution hMember
    rcases List.mem_append.mp hMember with hOld | hNew
    · exact hInv.reconciled resolution hOld
    · rw [List.mem_singleton.mp hNew]
      exact hUsable

/- The searches that wait change. -/
theorem FreshnessInv.research
    {searches : List SearchWait}
    (hInv : world.FreshnessInv)
    (hTokens :
      ∀ search ∈ searches,
        search.dirty < world.freshness.nextToken)
    (hWaiting :
      ∀ dirty call,
        .postEditCatalog dirty call ∈ searches →
          world.isCurrent dirty = true →
            world.Captured dirty) :
    FreshnessInv { world with searches := searches } :=
  { hInv with
    names :=
      ⟨hInv.names.callIds, hInv.names.pipeIds,
        hInv.names.callTokens, hTokens⟩
    current :=
      ⟨hInv.current.last, hInv.current.captureId,
        hInv.current.captureCall, hInv.current.clean,
        hInv.current.captured, hInv.current.postEdit, hWaiting⟩
    start := { hInv.start with }
    bound := { hInv.bound with } }

theorem freshnessInv_beforeSearch
    (hInv : world.FreshnessInv) :
    world.beforeSearch.FreshnessInv := by
  unfold beforeSearch
  split
  · rename_i hNone
    exact hInv.resolve (fun _ => hInv.current.clean hNone)
  · rename_i dirty hDirty
    have hLast :=
      hInv.current.last dirty ((isCurrent_iff _ _).mpr hDirty)
    apply hInv.research
    · intro search hSearch
      rcases List.mem_append.mp hSearch with hOld | hNew
      · exact hInv.names.searchTokens search hOld
      · rw [List.mem_singleton.mp hNew]
        have hLess : dirty < world.freshness.nextToken := by
          omega
        exact hLess
    · intro other call hSearch hCurrent
      rcases List.mem_append.mp hSearch with hOld | hNew
      · exact hInv.current.waiting other call hOld hCurrent
      · cases List.mem_singleton.mp hNew

theorem freshnessInv_searchResumes
    (index : Nat)
    (hInv : world.FreshnessInv) :
    (world.searchResumes index).FreshnessInv := by
  unfold searchResumes
  split
  · rename_i dirty hFound
    have hMember := List.mem_of_getElem? hFound
    have hToken : dirty < world.freshness.nextToken :=
      hInv.names.searchTokens _ hMember
    dsimp only
    split
    · rename_i hSettled
      apply hInv.research
      · intro search hSearch
        rcases List.mem_or_eq_of_mem_set hSearch with
          hOld | hNew
        · exact hInv.names.searchTokens search hOld
        · rw [hNew]
          exact hToken
      · intro other call hSearch hCurrent
        rcases List.mem_or_eq_of_mem_set hSearch with
          hOld | hNew
        · exact hInv.current.waiting other call hOld hCurrent
        · cases hNew
          exact hSettled
    · exact hInv
  · rename_i dirty call hFound
    have hMember := List.mem_of_getElem? hFound
    split
    · have hResumed :
          FreshnessInv
            { world with
              searches := world.searches.eraseIdx index } := by
        apply hInv.research
        · intro search hSearch
          exact
            hInv.names.searchTokens search
              (List.mem_of_mem_eraseIdx hSearch)
        · intro other otherCall hSearch
          exact
            hInv.current.waiting other otherCall
              (List.mem_of_mem_eraseIdx hSearch)
      apply hResumed.callStatus
      · intro other hOther
        rw [← Option.some.inj hOther]
        exact hInv.names.searchTokens _ hMember
      · simp
      · simp
      · intro hCurrent
        have hToken := hInv.names.searchTokens _ hMember
        have hKeeps :=
          keeps_callStatus (.search dirty) hResumed.current
        have hBefore : world.isCurrent dirty = true :=
          hKeeps.current dirty hToken hCurrent
        have hCaptured :=
          hInv.current.waiting dirty call hMember hBefore
        refine
          ⟨hKeeps.captured dirty hToken hCurrent hCaptured, ?_⟩
        intro status hAnswer hReady
        have hDegraded := (newCall_answer_some hAnswer).1
        rw [hDegraded] at hReady
        cases hReady
    · exact hInv
  · exact hInv

----------
-- Continuations
----------

/- A call leaves once its continuation runs. -/
def removed
    (world : FreshnessWorld)
    (id : Nat) : FreshnessWorld :=
  { world with
    calls := world.calls.filter fun call => call.id ≠ id }

theorem mem_removed
    {call : StatusCall} :
    call ∈ (world.removed id).calls ↔
      call ∈ world.calls ∧ call.id ≠ id := by
  simp [removed, List.mem_filter]

theorem captured_removed
    {id dirty : Nat}
    (hCaptured : world.Captured dirty) :
    (world.removed id).Captured dirty := by
  unfold Captured at *
  rw [settled_iff] at *
  intro call hCall
  exact hCaptured call (mem_removed.mp hCall).1

theorem keeps_removed (id : Nat) :
    Keeps world (world.removed id) where
  current := fun _ _ hCurrent => hCurrent
  baseline := fun _ _ _ => rfl
  captured := fun _ _ _ hCaptured => captured_removed hCaptured
  failure := fun hFailure => hFailure
  certified := fun _ _ _ hCertified => hCertified
  covered := Nat.le_refl _

theorem NamesInv.removed
    (hNames : world.NamesInv)
    (id : Nat) :
    (world.removed id).NamesInv :=
  { hNames with
    callIds := fun call hCall =>
      hNames.callIds call (mem_removed.mp hCall).1
    callTokens := fun call hCall =>
      hNames.callTokens call (mem_removed.mp hCall).1 }

theorem StartInv.removed
    (hStart : world.StartInv)
    (id : Nat) :
    (world.removed id).StartInv where
  behind := hStart.behind
  run := fun call hCall =>
    hStart.run call (mem_removed.mp hCall).1
  answered := fun call hCall =>
    hStart.answered call (mem_removed.mp hCall).1

variable {call : StatusCall}

/- A continuation that captures no current token. -/
theorem FreshnessInv.removed
    (hInv : world.FreshnessInv)
    (hMember : call ∈ world.calls)
    (hPurpose :
      ∀ dirty,
        world.isCurrent dirty = true →
          call.purpose ≠ .capture dirty) :
    (world.removed call.id).FreshnessInv := by
  refine
    { hInv with
      names := hInv.names.removed call.id
      current := ?_
      certified := ?_
      start := hInv.start.removed call.id
      bound := { hInv.bound with } }
  · refine
      { last := hInv.current.last
        captureId := hInv.current.captureId
        captureCall := ?_
        clean := hInv.current.clean
        captured := ?_
        postEdit := hInv.current.postEdit
        waiting := ?_ }
    · intro dirty hCurrent other hOther
      exact
        hInv.current.captureCall dirty hCurrent other
          (mem_removed.mp hOther).1
    · intro hFailure dirty hCurrent hCaptured
      apply hInv.current.captured hFailure dirty hCurrent
      unfold Captured at *
      rw [settled_iff] at *
      intro other hOther hId
      by_cases hSame : other.id = call.id
      · have hThis :
            call.id = (world.freshness.tokens dirty).capture := by
          rw [← hSame]
          exact hId
        exact
          hPurpose dirty hCurrent
            ((hInv.current.captureCall dirty hCurrent call
              hMember).mp hThis)
      · exact
          hCaptured other (mem_removed.mpr ⟨hOther, hSame⟩) hId
    · intro dirty waits hSearch hCurrent
      exact
        captured_removed
          (hInv.current.waiting dirty waits hSearch hCurrent)
  · intro other hOther
    have hOld := (mem_removed.mp hOther).1
    exact
      (keeps_removed call.id).call
        (hInv.names.callTokens other hOld)
        (hInv.certified other hOld)

/- While the capture is under way no search relies on it. -/
theorem not_captured
    (hInv : world.FreshnessInv)
    (hMember : call ∈ world.calls)
    (hCurrent : world.isCurrent dirty = true)
    (hPurpose : call.purpose = .capture dirty) :
    ¬ world.Captured dirty := by
  intro hCaptured
  unfold Captured at hCaptured
  rw [settled_iff] at hCaptured
  exact
    hCaptured call hMember
      ((hInv.current.captureCall dirty hCurrent call
        hMember).mpr hPurpose)

/- The capture of the current token settles. -/
theorem freshnessInv_captureSettles
    (hInv : world.FreshnessInv)
    (hMember : call ∈ world.calls)
    (hPurpose : call.purpose = .capture dirty)
    (hAnswer : call.answer = some answer) :
    ((world.removed call.id).captureSettles dirty
      answer).FreshnessInv := by
  unfold captureSettles
  split
  · rename_i hNow
    have hCurrent : world.isCurrent dirty = true := hNow
    have hCall := hInv.certified call hMember
    unfold CallCertified at hCall
    rw [hPurpose] at hCall
    have hNever := not_captured hInv hMember hCurrent hPurpose
    have hOnly (other : Nat)
        (hOther : world.isCurrent other = true) :
        other = dirty := by
      have hFirst := hInv.current.last other hOther
      have hSecond := hInv.current.last dirty hCurrent
      omega
    have hCaptureField (other : Nat)
        (baseline : Option Nat) :
        (Function.update world.freshness.tokens dirty
            { world.freshness.tokens dirty with
              baselineGeneration := baseline }
            other).capture =
          (world.freshness.tokens other).capture :=
      update_kept DirtyIndexGeneration.capture (by rfl) other
    have hPostField (other : Nat)
        (baseline : Option Nat) :
        (Function.update world.freshness.tokens dirty
            { world.freshness.tokens dirty with
              baselineGeneration := baseline }
            other).postEditCatalogGeneration =
          (world.freshness.tokens
            other).postEditCatalogGeneration :=
      update_kept DirtyIndexGeneration.postEditCatalogGeneration
        (by rfl) other
    unfold updateToken
    refine
      { hInv with
        names := ?_
        current := ?_
        certified := ?_
        start := ?_
        bound := { hInv.bound with } }
    · have hNames := hInv.names.removed call.id
      exact { hNames with }
    · refine
        { last := hInv.current.last
          captureId := ?_
          captureCall := ?_
          clean := hInv.current.clean
          captured := ?_
          postEdit := ?_
          waiting := ?_ }
      · intro other hOther
        have hId := hInv.current.captureId other hOther
        rw [← hCaptureField other] at hId
        exact hId
      · intro other hOther waits hWaits
        have hIff :=
          hInv.current.captureCall other hOther waits
            (mem_removed.mp hWaits).1
        rw [← hCaptureField other] at hIff
        exact hIff
      · intro hFailure other hOther _ baseline hBaseline
        have hSame := hOnly other hOther
        subst hSame
        dsimp only [FreshnessWorld.removed] at hBaseline
        rw [Function.update_self] at hBaseline
        rcases Option.map_eq_some_iff.mp hBaseline with
          ⟨status, hStatus, hMax⟩
        rw [hStatus] at hAnswer
        have hCertified := hCall hCurrent hFailure status hAnswer
        have hAbove : status.newest ≤ baseline := by
          rw [← hMax]
          exact Nat.le_max_right _ _
        exact hCertified.mono hAbove
      · intro other hOther hPost
        apply hInv.current.postEdit other hOther
        rw [← hPostField other]
        exact hPost
      · intro other waits hSearch hOther
        have hSame := hOnly other hOther
        rw [hSame] at hSearch
        exact
          absurd
            (hInv.current.waiting dirty waits hSearch hCurrent)
            hNever
    · intro other hOther
      have hOld := (mem_removed.mp hOther).1
      have hRemains :=
        (keeps_removed call.id).call
          (hInv.names.callTokens other hOld)
          (hInv.certified other hOld)
      have hBefore := hInv.certified other hOld
      unfold CallCertified at hRemains hBefore ⊢
      cases hOtherPurpose : other.purpose with
      | capture token =>
        rw [hOtherPurpose] at hRemains
        exact hRemains
      | catalogStarted => trivial
      | postEditCatalog token baseline =>
        rw [hOtherPurpose] at hRemains
        exact hRemains
      | search token =>
        rw [hOtherPurpose] at hBefore
        intro hToken
        have hSame := hOnly token hToken
        rw [hSame] at hBefore
        exact absurd (hBefore hCurrent).1 hNever
    · have hStart := hInv.start.removed call.id
      exact { hStart with }
  · rename_i hNow
    apply hInv.removed hMember
    intro other hOther hCaptures
    rw [hPurpose] at hCaptures
    cases hCaptures
    exact hNow hOther

/- The run binds the current token and asks its catalog. -/
theorem freshnessInv_catalogStartedSettles
    (hInv : world.FreshnessInv)
    (hMember : call ∈ world.calls)
    (hPurpose : call.purpose = .catalogStarted)
    (hAnswer : call.answer = some answer) :
    ((world.removed call.id).catalogStartedSettles
      answer).FreshnessInv := by
  have hRemoved := hInv.removed hMember (by simp [hPurpose])
  have hRun := hInv.start.run call hMember hPurpose
  have hNone :
      ∀ other ∈ (world.removed call.id).calls,
        other.purpose ≠ .catalogStarted := by
    intro other hOther hStarted
    rcases mem_removed.mp hOther with ⟨hOld, hId⟩
    have hSame := hInv.start.run other hOld hStarted
    rw [hRun] at hSame
    injection hSame with hSameId
    exact hId hSameId.symm
  unfold catalogStartedSettles
  split
  · rename_i status dirty hDirty
    have hLast :=
      hInv.current.last dirty ((isCurrent_iff _ _).mpr hDirty)
    have hBound :
        FreshnessInv
          { world.removed call.id with
            freshness :=
              { (world.removed call.id).freshness with
                catalogDirtyGeneration :=
                  some ⟨dirty, status.newest⟩ } } := by
      apply hRemoved.rebind _ (.inl rfl) (fun hReady => hReady)
      refine ⟨?_, ?_, ?_⟩
      · intro pending hPending
        rw [← Option.some.inj hPending]
        have hLess : dirty < world.freshness.nextToken := by
          omega
        exact hLess
      · intro pending hPending hFailure build hBuild hAbove
        rw [← Option.some.inj hPending] at hAbove
        have hKnown :=
          (hInv.start.answered call hMember hPurpose status
            hAnswer hFailure).2 build hBuild
        dsimp only at hAbove
        omega
      · intro pending _ hReady
        have hStarting : world.run = .ready := hReady
        rw [hRun] at hStarting
        cases hStarting
    exact freshnessInv_requestCatalog hBound hNone
  · exact freshnessInv_requestCatalog hRemoved hNone

/- The generation of the run that was reported ready. -/
theorem freshnessInv_postEditCatalogSettles
    {dirty baseline : Nat}
    (hInv : world.FreshnessInv)
    (hMember : call ∈ world.calls)
    (hPurpose : call.purpose = .postEditCatalog dirty baseline)
    (hAnswer : call.answer = some answer) :
    ((world.removed call.id).postEditCatalogSettles dirty
      baseline answer).FreshnessInv := by
  have hRemoved := hInv.removed hMember (by simp [hPurpose])
  have hCall := hInv.certified call hMember
  unfold CallCertified at hCall
  rw [hPurpose] at hCall
  unfold postEditCatalogSettles
  split
  · exact hRemoved
  · rename_i status
    split
    · rename_i hCurrent
      rcases hCurrent with ⟨hNow, hReady, hAbove⟩
      have hCovered := (hCall hNow).2 status hAnswer hReady hAbove
      exact
        hRemoved.retoken dirty _ (fun _ => rfl) (fun _ => rfl)
          (fun _ _ => hCovered)
    · exact hRemoved

/- No token is left: everything is reconciled. -/
theorem freshnessInv_reconciled
    (hInv : world.FreshnessInv)
    (hCovered :
      world.freshness.nextToken ≤ world.builds.covered) :
    FreshnessInv
      { world with
        freshness :=
          { world.freshness with dirtyGeneration := none } } := by
  have hNever (dirty : Nat) :
      ¬ isCurrent
          { world with
            freshness :=
              { world.freshness with dirtyGeneration := none } }
          dirty = true := by
    intro hCurrent
    cases (isCurrent_iff _ _).mp hCurrent
  refine
    { hInv with
      names := { hInv.names with }
      current := ?_
      certified := ?_
      start := { hInv.start with }
      bound := { hInv.bound with } }
  · refine
      { last := fun dirty hDirty => absurd hDirty (hNever dirty)
        captureId :=
          fun dirty hDirty => absurd hDirty (hNever dirty)
        captureCall :=
          fun dirty hDirty => absurd hDirty (hNever dirty)
        clean := fun _ => hCovered
        captured :=
          fun _ dirty hDirty => absurd hDirty (hNever dirty)
        postEdit :=
          fun dirty hDirty => absurd hDirty (hNever dirty)
        waiting :=
          fun dirty _ _ hDirty => absurd hDirty (hNever dirty) }
  · intro call _
    unfold CallCertified
    cases call.purpose with
    | capture dirty =>
      exact fun hDirty => absurd hDirty (hNever dirty)
    | catalogStarted => trivial
    | postEditCatalog dirty baseline =>
      exact fun hDirty => absurd hDirty (hNever dirty)
    | search dirty =>
      exact fun hDirty => absurd hDirty (hNever dirty)

theorem any_eq_true
    {α : Type}
    {test : α → Bool}
    {value : Option α}
    (hAny : value.any test = true) :
    ∃ inner, value = some inner ∧ test inner = true := by
  cases value with
  | none => cases hAny
  | some inner => exact ⟨inner, rfl, hAny⟩

/- What certifies the current token covers its change. -/
theorem covered_of_certifies
    {status : WorkspaceIndexStatus}
    (hInv : world.FreshnessInv)
    (hMember : call ∈ world.calls)
    (hPurpose : call.purpose = .search dirty)
    (hAnswer : call.answer = some (some status))
    (hCurrent : world.isCurrent dirty = true)
    (hCertifies :
      certifies (world.freshness.tokens dirty) status = true) :
    world.Covered dirty := by
  have hCall := hInv.certified call hMember
  unfold CallCertified at hCall
  rw [hPurpose] at hCall
  simp only [certifies, Bool.and_eq_true, decide_eq_true_eq,
    Bool.or_eq_true] at hCertifies
  rcases hCertifies with ⟨hReady, hBaseline | hPost⟩
  · rcases any_eq_true hBaseline with
      ⟨baseline, hSome, hAbove⟩
    exact
      (hCall hCurrent).2 status hAnswer hReady baseline hSome
        (of_decide_eq_true hAbove)
  · apply hInv.current.postEdit dirty hCurrent
    rcases any_eq_true hPost with ⟨generation, hSome, _⟩
    rw [hSome]
    rfl

theorem freshnessInv_searchSettles
    (hInv : world.FreshnessInv)
    (hMember : call ∈ world.calls)
    (hPurpose : call.purpose = .search dirty)
    (hAnswer : call.answer = some answer)
    (hReplaced :
      world.isDirty = true → world.isCurrent dirty = true) :
    ((world.removed call.id).searchSettles dirty
      answer).FreshnessInv := by
  have hRemoved := hInv.removed hMember (by simp [hPurpose])
  unfold searchSettles
  split
  · rename_i hOther
    apply hRemoved.resolve
    intro _
    apply hInv.current.clean
    by_contra hDirty
    have hCurrent :=
      hReplaced (Option.isSome_iff_ne_none.mpr hDirty)
    have hNot : world.isCurrent dirty = false := hOther
    rw [hCurrent] at hNot
    cases hNot
  · rename_i hNow
    have hCurrent : world.isCurrent dirty = true := by
      cases hValue : world.isCurrent dirty with
      | false => exact absurd hValue hNow
      | true => rfl
    dsimp only
    split
    · rename_i hCertifies
      rcases any_eq_true hCertifies with
        ⟨status, hSome, hStatus⟩
      rw [hSome] at hAnswer
      have hCovered : world.Covered dirty :=
        covered_of_certifies hInv hMember hPurpose hAnswer
          hCurrent hStatus
      have hLast := hInv.current.last dirty hCurrent
      have hAll :
          world.freshness.nextToken ≤ world.builds.covered := by
        unfold Covered at hCovered
        omega
      apply FreshnessInv.resolve
      · exact freshnessInv_reconciled hRemoved hAll
      · intro _
        exact hAll
    · apply hRemoved.resolve
      intro hUsable
      cases hUsable

/- The continuation of an answered call. -/
theorem freshnessInv_statusDelivered
    (id : Nat)
    (hInv : world.FreshnessInv)
    (hProbe :
      ReplacedProbe world (.statusDelivered id) = false) :
    (world.statusDelivered id).FreshnessInv := by
  unfold statusDelivered
  split
  · rename_i found purpose answer hFound
    have hMember := List.mem_of_find?_eq_some hFound
    have hId := List.find?_some hFound
    simp only [decide_eq_true_eq] at hId
    subst hId
    cases purpose with
    | capture dirty =>
      exact freshnessInv_captureSettles hInv hMember rfl rfl
    | catalogStarted =>
      exact
        freshnessInv_catalogStartedSettles hInv hMember rfl rfl
    | postEditCatalog dirty baseline =>
      exact
        freshnessInv_postEditCatalogSettles hInv hMember rfl rfl
    | search dirty =>
      refine freshnessInv_searchSettles hInv hMember rfl rfl ?_
      intro hDirty
      unfold ReplacedProbe at hProbe
      simp only [hFound, hDirty, Bool.true_and,
        Bool.not_eq_false'] at hProbe
      exact hProbe
  · exact hInv

end FreshnessWorld

----------
-- Runs
----------

open FreshnessWorld

theorem freshnessInv_start : FreshnessInv {} := by
  refine
    { names := ⟨?_, ?_, ?_, ?_⟩
      current :=
        { last := ?_
          captureId := ?_
          captureCall := ?_
          clean := fun _ => Nat.le_refl _
          captured := fun _ _ hDirty => by cases hDirty
          postEdit := ?_
          waiting := fun _ _ hSearch => by cases hSearch }
      certified := ?_
      start := ⟨?_, ?_, ?_⟩
      bound := ⟨?_, ?_, ?_⟩
      failed := fun hFailed => by cases hFailed
      reconciled := ?_ }
  all_goals
    intro _ hNone
    cases hNone

/- Every step but a replaced probe keeps the invariant. -/
theorem freshnessInv_step
    (world : FreshnessWorld)
    (event : FreshnessEvent)
    (hInv : world.FreshnessInv)
    (hProbe : ReplacedProbe world event = false) :
    (freshnessStep world event).FreshnessInv := by
  cases event with
  | changed => exact freshnessInv_changed hInv
  | workspaceFilesChanged rootDirty paths =>
    exact freshnessInv_workspaceFilesChanged rootDirty paths hInv
  | accepted generation =>
    exact freshnessInv_accepted generation hInv
  | beforeSearch => exact freshnessInv_beforeSearch hInv
  | searchResumes index =>
    exact freshnessInv_searchResumes index hInv
  | statusDelivered call =>
    exact freshnessInv_statusDelivered call hInv hProbe
  | statusRejected call =>
    exact freshnessInv_statusRejected call hInv
  | catalogStarted =>
    simp only [freshnessStep]
    split
    · rename_i hIdle
      exact freshnessInv_catalogStarted hInv hIdle
    · exact hInv
  | catalogReady =>
    simp only [freshnessStep]
    split
    · rename_i hReady
      exact freshnessInv_catalogReady hInv hReady
    · exact hInv
  | runFails => exact freshnessInv_runFails hInv
  | sendsRefresh generation =>
    simp only [freshnessStep]
    split
    · rename_i hFailure
      exact freshnessInv_sendsRefresh generation hInv hFailure
    · exact hInv
  | sidecarHandles state generation =>
    exact freshnessInv_sidecarHandles state generation hInv
  | catalogCommits isReady =>
    simp only [freshnessStep]
    split
    · rename_i hFailure
      exact freshnessInv_catalogCommits isReady hInv hFailure
    · exact hInv
  | catalogEnds => exact freshnessInv_catalogEnds hInv
  | sessionFails lastGeneration =>
    exact freshnessInv_sessionFails lastGeneration hInv

/-
  In a run without a replaced probe every usable search
  finds all changes covered by a committed generation.
-/
theorem reconciled_run
    (events : List FreshnessEvent)
    (hProbes :
      Admissible freshnessStep
        (fun world event => ReplacedProbe world event = false)
        {} events) :
    Reconciled (freshnessRun events) :=
  (run_invariant_of_admissible freshnessInv_step
    freshnessInv_start hProbes).reconciled

/- An edit, a catalog that covers it, and a usable search. -/
def coveredRun : List FreshnessEvent :=
  [.changed, .sidecarHandles .ready 0, .statusDelivered 0,
    .catalogStarted, .sidecarHandles .ready 0,
    .statusDelivered 1, .sidecarHandles .ready 1,
    .catalogCommits true, .catalogReady,
    .sidecarHandles .ready 0, .statusDelivered 2,
    .beforeSearch, .searchResumes 0, .searchResumes 0,
    .sidecarHandles .ready 0, .statusDelivered 3]

theorem reconciled_coveredRun :
    (freshnessRun coveredRun).resolutions =
        [⟨⟨true, true, some 0, some 1⟩, 1, 1⟩] ∧
      Reconciled (freshnessRun coveredRun) :=
  ⟨by decide +kernel,
    reconciled_run coveredRun (by decide +kernel)⟩

/-
  A second edit while the status call of a search is under
  way: the search answers that the index is usable, and no
  generation was committed at all.
-/
def replacedRun : List FreshnessEvent :=
  [.changed, .sidecarHandles .ready 0, .statusDelivered 0,
    .beforeSearch, .searchResumes 0, .searchResumes 0,
    .changed, .sidecarHandles .ready 0, .statusDelivered 1]

theorem not_reconciled_replacedRun :
    (freshnessRun replacedRun).resolutions =
        [⟨⟨true, false, none, none⟩, 2, 0⟩] ∧
      ¬ Reconciled (freshnessRun replacedRun) := by
  have hResolutions :
      (freshnessRun replacedRun).resolutions =
        [⟨⟨true, false, none, none⟩, 2, 0⟩] := by
    decide +kernel
  refine ⟨hResolutions, ?_⟩
  intro hReconciled
  unfold Reconciled at hReconciled
  rw [hResolutions] at hReconciled
  have hCovered := hReconciled _ (List.mem_singleton.mpr rfl) rfl
  exact absurd hCovered (by decide)

end Semantic

end ArktsServer
