import ArktsServer.Client.SidecarSteps

/-
  The client never rejects the catalog of a sidecar that it
  keeps up with: the invariant of a whole session, and what
  follows for the promise of the run.

  Key definitions include:
    * `Client.SessionInv`

  Correctness is proven by:
    * `Client.SessionInv.start`, `Client.SessionInv.step`
    * `Client.settles_at_terminal`
-/

----------
-- Steps of the Session
----------

namespace ArktsServer

namespace Client

open Sidecar SharedCell

structure SessionInv
    (generation committed : Nat)
    (session : CatalogSession) : Prop where
  catalog :
    CatalogSystem.Invariant generation committed
      session.catalog
  sidecar : SidecarInv generation session
  queue :
    ∃ queue, QueueInv generation session.clientSide queue

namespace SessionInv

variable {generation committed : Nat}
variable {session : CatalogSession}

/- A step of the worker, of a cancel call or of a panic. -/
theorem catalogStep
    (hInv : SessionInv generation committed session)
    {move : CatalogSystem.Move}
    {effects : List WorkerEffect}
    (hHistory :
      (session.catalog.step generation move).history =
        session.catalog.history ++ effects)
    (hControl :
      (session.catalog.step generation move).control =
          .cancelled →
        session.client.cancelStarted = true) :
    SessionInv generation committed
      { session with
        catalog := session.catalog.step generation move } where
  catalog :=
    CatalogSystem.step_invariant session.catalog move hInv.catalog
  sidecar := hInv.sidecar.catalogStep hHistory hControl
  queue := hInv.queue

theorem cancelStarted_of_control
    (hInv : SessionInv generation committed session)
    (hControl : session.catalog.control = .cancelled) :
    session.client.cancelStarted = true :=
  hInv.sidecar.cancelling (Or.inr (Or.inr hControl))

theorem worker
    (hInv : SessionInv generation committed session) :
    SessionInv generation committed
      { session with
        catalog := session.catalog.step generation .worker } := by
  rcases CatalogSystem.stepWorker_history hInv.catalog with
    ⟨effects, hHistory, hControl⟩
  have hSame :
      (session.catalog.step generation .worker).history =
        session.catalog.history ++ effects :=
    hHistory
  apply hInv.catalogStep hSame
  intro hCancelled
  exact hInv.cancelStarted_of_control (hControl hCancelled)

theorem panic
    (hInv : SessionInv generation committed session) :
    SessionInv generation committed
      { session with
        catalog := session.catalog.step generation .panic } := by
  rcases CatalogSystem.stepPanic_history generation
      session.catalog with
    ⟨hHistory, hControl⟩
  have hSame :
      (session.catalog.step generation .panic).history =
        session.catalog.history ++ [] :=
    hHistory.trans (List.append_nil _).symm
  apply hInv.catalogStep hSame
  intro hCancelled
  exact
    hInv.cancelStarted_of_control (hControl.symm.trans hCancelled)

theorem tick
    (hInv : SessionInv generation committed session)
    {elapsed : Nat}
    (hTime : session.now + elapsed ≤ maxSafeInteger) :
    SessionInv generation committed
      { session with now := session.now + elapsed } where
  catalog := hInv.catalog
  sidecar := by
    refine
      { received := hInv.sidecar.received
        identity := hInv.sidecar.identity
        time := hTime
        generation_le := hInv.sidecar.generation_le
        committed_le := hInv.sidecar.committed_le
        small := hInv.sidecar.small
        sound := hInv.sidecar.sound
        catalog := ?_
        cancelling := hInv.sidecar.cancelling
        calling := hInv.sidecar.calling
        requests := hInv.sidecar.requests }
    rcases hInv.sidecar.catalog with hBuilding | hOver
    · exact Or.inl { hBuilding with }
    · exact Or.inr hOver
  queue := by
    rcases hInv.queue with ⟨queue, hQueue⟩
    have hLater :
        SnapshotLe session.current
          ⟨session.runtime, session.now + elapsed⟩ :=
      ⟨Nat.le_refl _, Nat.le_add_right _ _,
        fun _ => ProgressLe.refl _⟩
    exact ⟨queue, hQueue.move hLater⟩

/- An event of the present state is written. -/
theorem writeEvent
    (hCatalog :
      CatalogSystem.Invariant generation committed
        session.catalog)
    (hSidecar : SidecarInv generation session)
    {side : ClientSide}
    {queue : Queue}
    (hQueue : QueueInv generation side queue)
    (hStdout : side.stdout = session.stdout)
    (hContinuations :
      side.continuations = session.continuations)
    (hClient : side.client = session.client)
    (hFailure : side.failure = session.failure)
    (hIdentity :
      side.workspaceIdentity = session.workspaceIdentity)
    (hLe : SnapshotLe side.current session.current)
    (hOver :
      session.runtime.catalog = none →
        side.ended ∨ session.current.terminal = true) :
    SessionInv generation committed session.writeEvent where
  catalog := hCatalog
  sidecar := by
    refine
      { hSidecar with
        catalog := ?_ }
    rcases hSidecar.catalog with hBuilding | hEnded
    · exact Or.inl { hBuilding with }
    · exact Or.inr hEnded
  queue := by
    rcases side with
      ⟨stdout, continuations, client, failure, identity,
        current, ended⟩
    cases hStdout
    cases hContinuations
    cases hClient
    cases hFailure
    cases hIdentity
    refine
      ⟨{ queue with
          lines := queue.lines ++ [.event session.current] },
        ?_⟩
    apply hQueue.write (.event session.current)
      (session.runtime.catalog = none)
    · exact Or.inl ⟨_, rfl⟩
    · exact hSidecar.reportable
    · exact hLe
    · intro snapshot hEq
      cases hEq
    · intro hNone
      rcases hOver hNone with hBefore | hEnds
      · exact Or.inl hBefore
      · exact Or.inr ⟨_, rfl, hEnds⟩

theorem heartbeat
    (hInv : SessionInv generation committed session) :
    SessionInv generation committed session.heartbeat := by
  simp only [CatalogSession.heartbeat]
  split
  · rcases hInv.queue with ⟨queue, hQueue⟩
    exact
      writeEvent hInv.catalog hInv.sidecar hQueue rfl rfl rfl
        rfl rfl (SnapshotLe.refl _) fun hNone => Or.inl hNone
  · exact hInv

theorem receive
    (hInv : SessionInv generation committed session)
    (hSmall :
      ∀ update,
        (sentUpdates session.catalog.history)[
            session.received]? = some update →
          SmallProgress (updateProgress update)) :
    SessionInv generation committed session.receive := by
  rcases hInv.queue with ⟨queue, hQueue⟩
  simp only [CatalogSession.receive]
  split
  · exact hInv
  · rename_i hFree
    have hCalling : session.calling = none := by
      simpa using hFree
    split
    · exact hInv
    · rename_i update hUpdate
      rcases hInv.sidecar.catalog with hBuilding | hOver
      · have hOwn :
            Runtime.updateGeneration update = generation := by
          rcases hInv.catalog.sentInOrder with
            ⟨reports, ending, hSent, hOrder⟩
          apply (hOrder.own update _).1
          rw [← hSent]
          exact List.mem_of_getElem? hUpdate
        have hActive :
            session.runtime.isActiveCatalog
                (Runtime.updateGeneration update) =
              true := by
          rw [hOwn]
          exact decide_eq_true hBuilding.catalog
        have hHandled :
            session.runtime.handleCatalogUpdate update =
              (session.runtime.applyCatalogUpdate update, true) :=
          if_pos hActive
        simp only [hHandled, if_true]
        rcases handled_update hInv.catalog hInv.sidecar
            hBuilding hCalling hUpdate
            (hSmall update hUpdate) with
          ⟨hSidecar, hLe, hEnds⟩
        exact
          writeEvent hInv.catalog hSidecar hQueue rfl rfl rfl
            rfl rfl hLe fun hNone => Or.inr (hEnds hNone)
      · have hActive :
            ¬ session.runtime.isActiveCatalog
                (Runtime.updateGeneration update) =
              true := by
          simp only [Runtime.isActiveCatalog, hOver.catalog,
            decide_eq_true_eq]
          exact fun hEq => by cases hEq
        have hHandled :
            session.runtime.handleCatalogUpdate update =
              (session.runtime, false) :=
          if_neg hActive
        simp only [hHandled, Bool.false_eq_true, if_false]
        refine ⟨hInv.catalog, ?_, queue, hQueue⟩
        exact
          { received :=
              (List.getElem?_eq_some_iff.mp hUpdate).1
            identity := hInv.sidecar.identity
            time := hInv.sidecar.time
            generation_le := hInv.sidecar.generation_le
            committed_le := hInv.sidecar.committed_le
            small := hInv.sidecar.small
            sound := hInv.sidecar.sound
            catalog := Or.inr hOver
            cancelling := hInv.sidecar.cancelling
            calling := hInv.sidecar.calling
            requests := hInv.sidecar.requests }

/- The answer to a cancel request is written. -/
theorem answerCancel
    (hInv : SessionInv generation committed session)
    (world : World)
    {cancelled : Bool}
    (hStarted : session.client.cancelStarted = true) :
    SessionInv generation committed
      (session.answerCancel world generation cancelled) := by
  rcases hInv.queue with ⟨queue, hQueue⟩
  have hFree
      (runtime : Runtime)
      (hCatalog :
        Building generation { session with runtime } ∨
          Over generation runtime)
      (hIdentity :
        runtime.workspaceIdentity =
          session.runtime.workspaceIdentity)
      (hCommitted :
        runtime.committedGeneration =
          session.runtime.committedGeneration)
      (hProgress : runtime.progress = session.runtime.progress)
      (stdout : List Line) :
      SidecarInv generation
        { session with
          runtime
          calling := none
          stdout } := by
    refine
      { received := hInv.sidecar.received
        identity := hIdentity.trans hInv.sidecar.identity
        time := hInv.sidecar.time
        generation_le := hInv.sidecar.generation_le
        committed_le := ?_
        small := ?_
        sound := ?_
        catalog := ?_
        cancelling := fun _ => hStarted
        calling := ?_
        requests := hInv.sidecar.requests }
    · dsimp only
      rw [hCommitted]
      exact hInv.sidecar.committed_le
    · dsimp only
      rw [hProgress]
      exact hInv.sidecar.small
    · dsimp only
      rw [hProgress]
      exact hInv.sidecar.sound
    · rcases hCatalog with hBuilding | hOver
      · exact Or.inl { hBuilding with }
      · exact Or.inr hOver
    · intro index requested hSome
      cases hSome
  by_cases hCancels :
      (decide (session.runtime.catalog = some generation) &&
        cancelled) = true
  · have hActive :
        session.runtime.catalog = some generation := by
      rw [Bool.and_eq_true, decide_eq_true_eq] at hCancels
      exact hCancels.1
    have hBuilding :
        Building generation session := by
      rcases hInv.sidecar.catalog with hBuilding | hOver
      · exact hBuilding
      · have hNone := hActive.symm.trans hOver.catalog
        cases hNone
    have hNext :
        Building generation
          { session with
            runtime :=
              { session.runtime with phase := .cancelling } } :=
      ⟨hBuilding.catalog, hBuilding.building,
        Or.inr (Or.inr rfl), hBuilding.progress,
        hBuilding.running⟩
    have hSidecar :=
      hFree { session.runtime with phase := .cancelling }
        (Or.inl hNext) rfl rfl rfl
    have hLe :
        SnapshotLe session.current
          ⟨{ session.runtime with phase := .cancelling },
            session.now⟩ := by
      refine ⟨?_, Nat.le_refl _, fun _ => ProgressLe.refl _⟩
      rcases hBuilding.phase with hPhase | hPhase | hPhase
      · simp [CatalogSession.current, hPhase,
          catalogPhaseRank]
      · simp [CatalogSession.current, hPhase,
          catalogPhaseRank]
      · simp [CatalogSession.current, hPhase]
    simp only [CatalogSession.answerCancel,
      Runtime.cancelCatalog, hCancels, if_true,
      Runtime.catalogAnswer, answered]
    refine ⟨hInv.catalog, hSidecar _, ?_⟩
    have hWrite :=
      hQueue.write
        (.cancel true
          ⟨{ session.runtime with phase := .cancelling },
            session.now⟩)
        (session.runtime.catalog = none)
        (Or.inr ⟨hStarted, _, _, rfl⟩)
        (hSidecar session.stdout).reportable hLe
        (by
          intro snapshot hEq
          cases hEq
          rfl)
        fun hNone => Or.inl hNone
    exact ⟨_, hWrite⟩
  · have hRefused :
        (decide (session.runtime.catalog = some generation) &&
            cancelled) =
          false := by
      simpa using hCancels
    have hSidecar :=
      hFree session.runtime hInv.sidecar.catalog rfl rfl rfl
    simp only [CatalogSession.answerCancel,
      Runtime.cancelCatalog, hRefused, Bool.false_eq_true,
      if_false, Runtime.catalogAnswer, answered]
    refine ⟨hInv.catalog, hSidecar _, ?_⟩
    have hWrite :=
      hQueue.write (.cancel false session.current)
        (session.runtime.catalog = none)
        (Or.inr ⟨hStarted, _, _, rfl⟩)
        hInv.sidecar.reportable (SnapshotLe.refl _)
        (by
          intro snapshot hEq
          cases hEq)
        fun hNone => Or.inl hNone
    exact ⟨_, hWrite⟩

/- The request loop takes a cancel request. -/
theorem request
    (hInv : SessionInv generation committed session)
    (world : World) :
    SessionInv generation committed
      (session.request world generation) := by
  simp only [CatalogSession.request]
  split
  · exact hInv
  · split
    · exact hInv
    · rename_i requested rest hRequests
      have hRequested :=
        hInv.sidecar.requests requested (by
          rw [hRequests]
          exact List.mem_cons_self)
      rcases hRequested with ⟨rfl, hStarted⟩
      have hTaken :
          SessionInv requested committed
            { session with
              client :=
                { session.client with
                  cancelRequests := rest } } := by
        refine ⟨hInv.catalog, ?_, ?_⟩
        · apply hInv.sidecar.withClient
          · exact id
          · intro other hOther
            apply hInv.sidecar.requests other
            rw [hRequests]
            exact List.mem_cons_of_mem _ hOther
        · rcases hInv.queue with ⟨queue, hQueue⟩
          exact ⟨queue, hQueue.requests rest⟩
      split
      · rename_i hActive
        have hHistory :
            (session.catalog.step requested .call).history =
              session.catalog.history ++ [] :=
          (List.append_nil _).symm
        have hCalled :=
          hTaken.catalogStep hHistory fun _ => hStarted
        refine ⟨hCalled.catalog, ?_, hCalled.queue⟩
        refine
          { received := hCalled.sidecar.received
            identity := hCalled.sidecar.identity
            time := hCalled.sidecar.time
            generation_le := hCalled.sidecar.generation_le
            committed_le := hCalled.sidecar.committed_le
            small := hCalled.sidecar.small
            sound := hCalled.sidecar.sound
            catalog := ?_
            cancelling := hCalled.sidecar.cancelling
            calling := ?_
            requests := hCalled.sidecar.requests }
        · rcases hCalled.sidecar.catalog with
            hBuilding | hOver
          · exact Or.inl { hBuilding with }
          · exact Or.inr hOver
        · intro index other hSome
          cases hSome
          exact ⟨rfl, hActive, hStarted⟩
      · exact hTaken.answerCancel world hStarted

/- The cancel call goes on or returns. -/
theorem caller
    (hInv : SessionInv generation committed session)
    (world : World) :
    SessionInv generation committed
      (session.caller world generation) := by
  simp only [CatalogSession.caller]
  split
  · exact hInv
  · rename_i index requested hCalling
    rcases hInv.sidecar.calling index requested hCalling with
      ⟨rfl, _, hStarted⟩
    split
    · exact hInv.answerCancel world hStarted
    · have hHistory :
          (session.catalog.step requested
              (.caller index)).history =
            session.catalog.history ++ [] :=
        (CatalogSystem.stepCaller_history _ _).trans
          (List.append_nil _).symm
      exact hInv.catalogStep hHistory fun _ => hStarted

/- The client reads a line. -/
theorem read
    (hInv : SessionInv generation committed session)
    (hConforming :
      ∀ event rest,
        session.stdout = .event event :: rest →
          CatalogSession.isTerminalEvent event = false →
          session.continuations.any
              CatalogSession.isRefusal =
            false) :
    SessionInv generation committed session.read := by
  rcases hInv.queue with ⟨queue, hQueue⟩
  simp only [CatalogSession.read]
  split
  · exact hInv
  · rename_i continuation rest hStdout
    refine ⟨hInv.catalog, ?_, hQueue.readResponse hStdout⟩
    exact
      hInv.sidecar.withClient _ _ session.client _ id
        hInv.sidecar.requests
  · rename_i event rest hStdout
    rcases hQueue.readEvent hStdout
        (hConforming event rest hStdout) with
      ⟨client, queue', hAccept, hStarted, hRequests, hNext⟩
    have hAccepted :
        session.client.acceptCatalogEvent
            session.workspaceIdentity event =
          Except.ok client :=
      hAccept
    simp only [CatalogSession.settle, hAccepted]
    refine ⟨hInv.catalog, ?_, queue', hNext⟩
    have hSame :
        client.cancelStarted = session.client.cancelStarted :=
      hStarted
    have hSent :
        client.cancelRequests = session.client.cancelRequests :=
      hRequests
    apply hInv.sidecar.withClient
    · rw [hSame]
      exact id
    · rw [hSame, hSent]
      exact hInv.sidecar.requests

/- Cancelling asks for the generation of the run. -/
theorem cancelCatalog_requests
    (run : CatalogRun)
    (hGeneration :
      ∀ requested,
        run.generation = some requested →
          requested = generation)
    (hRequests :
      ∀ requested ∈ run.cancelRequests,
        requested = generation ∧ run.cancelStarted = true) :
    (run.cancelStarted = true →
        run.cancelCatalog.cancelStarted = true) ∧
      ∀ requested ∈ run.cancelCatalog.cancelRequests,
        requested = generation ∧
          run.cancelCatalog.cancelStarted = true := by
  rcases QueueInv.cancelCatalog_eq run with
    hSame | ⟨requested, hSome, _, hCancel⟩
  · rw [hSame]
    exact ⟨id, hRequests⟩
  · rw [hCancel]
    refine ⟨fun _ => rfl, ?_⟩
    intro other hOther
    rcases List.mem_append.mp hOther with hOld | hNew
    · exact ⟨(hRequests other hOld).1, rfl⟩
    · rw [List.mem_singleton.mp hNew]
      exact ⟨hGeneration requested hSome, rfl⟩

theorem abort
    (hInv : SessionInv generation committed session) :
    SessionInv generation committed
      { session with client := session.client.onAbort } := by
  rcases hInv.queue with ⟨queue, hQueue⟩
  refine ⟨hInv.catalog, ?_, queue, hQueue.abort⟩
  have hGeneration :
      ∀ requested,
        session.client.generation = some requested →
          requested = generation := by
    intro requested hSome
    rcases hQueue.stage with hStarting | hStarted
    · have hNone := hStarting.generation.symm.trans hSome
      cases hNone
    · have hSame := hStarted.generation.symm.trans hSome
      cases hSame
      rfl
  have hAborted :
      (session.client.cancelStarted = true →
          session.client.onAbort.cancelStarted = true) ∧
        ∀ requested ∈ session.client.onAbort.cancelRequests,
          requested = generation ∧
            session.client.onAbort.cancelStarted = true := by
    rw [CatalogRun.onAbort]
    split
    · exact ⟨id, hInv.sidecar.requests⟩
    · exact
        cancelCatalog_requests
          { session.client with abortRequested := true }
          hGeneration hInv.sidecar.requests
  exact
    hInv.sidecar.withClient _ _ session.client.onAbort _
      hAborted.1 hAborted.2

/- The client continues behind a resolved request. -/
theorem resume
    (hInv : SessionInv generation committed session) :
    SessionInv generation committed session.resume := by
  rcases hInv.queue with ⟨⟨waiting, buffer, lines⟩, hQueue⟩
  cases waiting with
  | nil =>
    have hNone : session.continuations = [] :=
      hQueue.continuations
    simp only [CatalogSession.resume, hNone]
    exact hInv
  | cons entry waiting =>
    have hContinuations :
        session.continuations =
          entry.continuation generation ::
            waiting.map (Entry.continuation generation) :=
      hQueue.continuations
    rcases hQueue.stage with hStarting | hStarted
    · rcases hStarting.order with
        ⟨hNone, _⟩ | ⟨snapshot, events, hFirst, hEvents⟩
      · cases hNone
      · cases hFirst
        cases hEvents
        rcases hQueue.resumeStart hStarting
            hInv.sidecar.generation_le with
          ⟨hBegin, hNext⟩
        have hResumed :
            session.client.beginCatalog
                (responseJson "accepted" true generation
                  snapshot) =
              Except.ok
                (if (begunRun session.client generation
                      snapshot buffer).abortRequested ∧
                    (begunRun session.client generation
                      snapshot buffer).settled = false then
                  (begunRun session.client generation
                    snapshot buffer).cancelCatalog
                else
                  begunRun session.client generation
                    snapshot buffer) :=
          hBegin
        have hSame :=
          begunRun_cancelStarted session.client generation
            snapshot buffer
        have hSent :=
          begunRun_cancelRequests session.client generation
            snapshot buffer
        have hOwn :=
          begunRun_generation session.client generation
            snapshot buffer
        simp only [CatalogSession.resume, hContinuations,
          Entry.continuation, CatalogSession.settle,
          hResumed, List.map_nil]
        split
        · refine ⟨hInv.catalog, ?_, _, hNext.cancel⟩
          have hOnly :
              ∀ requested,
                (begunRun session.client generation snapshot
                    buffer).generation =
                  some requested →
                requested = generation := by
            intro requested hSome
            rw [hOwn] at hSome
            cases hSome
            rfl
          have hEarlier := hInv.sidecar.requests
          rw [← hSent, ← hSame] at hEarlier
          have hRequests :=
            cancelCatalog_requests
              (begunRun session.client generation snapshot buffer)
              hOnly hEarlier
          rw [hSame] at hRequests
          exact
            hInv.sidecar.withClient _ _ _ _ hRequests.1
              hRequests.2
        · refine ⟨hInv.catalog, ?_, _, hNext⟩
          apply hInv.sidecar.withClient
          · rw [hSame]
            exact id
          · rw [hSame, hSent]
            exact hInv.sidecar.requests
    · have hBuffer : buffer = [] := hStarted.buffer
      subst hBuffer
      rcases hStarted.waiting entry List.mem_cons_self with
        ⟨cancelled, snapshot, rfl⟩
      rcases hQueue.resumeCancel hStarted with
        ⟨hFinish, hNext⟩
      have hFinished :
          session.client.finishCancel
              (responseJson "cancelled" cancelled generation
                snapshot) =
            Except.ok (session.client.noted snapshot) :=
        hFinish
      simp only [CatalogSession.resume, hContinuations,
        Entry.continuation, CatalogSession.settle,
        hFinished]
      refine ⟨hInv.catalog, ?_, _, hNext⟩
      apply hInv.sidecar.withClient
      · rw [CatalogRun.noted_cancelStarted]
        exact id
      · rw [CatalogRun.noted_cancelStarted,
          CatalogRun.noted_cancelRequests]
        exact hInv.sidecar.requests

/- Every conforming step keeps the invariant. -/
theorem step
    (world : World)
    (hInv : SessionInv generation committed session)
    (move : CatalogSession.Move)
    (hConforming : session.Conforming move) :
    SessionInv generation committed
      (session.step world generation move) := by
  cases move with
  | worker => exact hInv.worker
  | panic => exact hInv.panic
  | tick elapsed => exact hInv.tick hConforming
  | receive =>
    apply hInv.receive
    intro update hUpdate
    exact hConforming update hUpdate
  | heartbeat => exact hInv.heartbeat
  | request => exact hInv.request world
  | caller => exact hInv.caller world
  | read =>
    apply hInv.read
    intro event rest hStdout
    have hNext : session.nextEvent = some event := by
      rw [CatalogSession.nextEvent, hStdout]
    exact hConforming event hNext
  | resume => exact hInv.resume
  | abort => exact hInv.abort

/- The session behind an accepted start request. -/
def spawned
    (idle : Runtime)
    (generation now : Nat)
    (response : Json)
    (script : WorkerScript) : CatalogSession where
  catalog :=
    CatalogSystem.start generation idle.committedGeneration
      script
  received := 0
  runtime := idle.spawnCatalog generation
  calling := none
  now
  stdout := [.response (.start response)]
  continuations := []
  workspaceIdentity := idle.workspaceIdentity.getD ""
  client := {}
  failure := none

variable {idle : Runtime}

theorem spawned_sidecar
    {now : Nat}
    {identity : String}
    (hIdentity : idle.workspaceIdentity = some identity)
    (hSafe : generation ≤ maxSafeInteger)
    (hCommitted : idle.committedGeneration ≤ maxSafeInteger)
    (hNow : now ≤ maxSafeInteger)
    (response : Json)
    (script : WorkerScript) :
    SidecarInv generation
      (spawned idle generation now response script) := by
  refine
    { received := Nat.zero_le _
      identity := ?_
      time := hNow
      generation_le := hSafe
      committed_le := hCommitted
      small := ?_
      sound := soundProgress_of_none rfl
      catalog := Or.inl ?_
      cancelling := ?_
      calling := ?_
      requests := ?_ }
  · simp only [spawned, Runtime.spawnCatalog, hIdentity,
      Option.getD_some]
  · refine
      ⟨Nat.zero_le _, Nat.zero_le _, Nat.zero_le _,
        Nat.zero_le _, Nat.zero_le _, ?_, ?_, Nat.zero_le _⟩
    · intro total hTotal
      cases hTotal
    · intro storage hStorage
      cases hStorage
  · refine ⟨rfl, rfl, Or.inl rfl, Or.inl rfl, ?_⟩
    intro update hUpdate
    cases hUpdate
  · rintro (hPhase | hPhase | hControl)
    · cases hPhase
    · cases hPhase
    · cases hControl
  · intro index requested hCalling
    cases hCalling
  · intro requested hRequested
    cases hRequested

/- The start response is the only unhandled status. -/
theorem spawned_queue
    {now : Nat}
    {script : WorkerScript}
    {response : Json}
    (hResponse :
      response =
        responseJson "accepted" true generation
          ⟨idle.spawnCatalog generation, now⟩)
    (hSidecar :
      SidecarInv generation
        (spawned idle generation now response script)) :
    QueueInv generation
      (spawned idle generation now response script).clientSide
      ⟨[], [], [.start ⟨idle.spawnCatalog generation, now⟩]⟩
      := by
  subst hResponse
  have hOnly :
      ∀ entry ∈
          Queue.entries
            ⟨[], [],
              [.start ⟨idle.spawnCatalog generation, now⟩]⟩,
        entry = .start ⟨idle.spawnCatalog generation, now⟩ := by
    intro entry hEntry
    exact List.mem_singleton.mp hEntry
  refine
    { stdout := rfl
      continuations := rfl
      buffered := rfl
      reportable := ?_
      order := ?_
      flags := ?_
      stage := ?_
      follows := ?_
      outcome := ?_
      ending := ?_
      failure := rfl }
  · intro entry hEntry
    rw [hOnly entry hEntry]
    exact hSidecar.reportable
  · have hOne :
        ([] ++
          [(⟨idle.spawnCatalog generation, now⟩ :
            Snapshot)]).Pairwise SnapshotLe :=
      List.pairwise_singleton _ _
    exact pairwise_repeat hOne
  · intro snapshot hEntry
    cases hOnly _ hEntry
  · exact
      Or.inl ⟨rfl, rfl, rfl, rfl, Or.inl ⟨rfl, rfl, _, [], rfl⟩⟩
  · intro _ mark hMark
    cases hMark
  · refine ⟨rfl, Or.inl ⟨rfl, rfl, ?_⟩⟩
    intro progress hProgress
    cases hProgress
  · intro hOver
    cases hOver

/- An accepted catalog starts in the invariant. -/
theorem start
    {world : World}
    {script : WorkerScript}
    (hStart :
      CatalogSession.start world idle script = some session)
    (hGeneration : session.runtime.catalog = some generation)
    (hSafe : generation ≤ maxSafeInteger)
    (hCommitted : idle.committedGeneration ≤ maxSafeInteger)
    (hNow : world.now ≤ maxSafeInteger) :
    SessionInv generation idle.committedGeneration session := by
  simp only [CatalogSession.start, Runtime.startCatalog] at hStart
  cases hIdle : idle.catalog with
  | some active =>
    simp only [hIdle] at hStart
    cases hStart
  | none =>
    simp only [hIdle] at hStart
    split at hStart
    · rename_i hAnswer
      split at hAnswer
      · cases hAnswer
      · rename_i hReady
        split at hAnswer
        · cases hAnswer
        · cases hAnswer
          cases hStart
          cases hGeneration
          have hIdentity :
              ∃ identity,
                idle.workspaceIdentity = some identity := by
            cases hName : idle.workspaceIdentity with
            | none => simp [hName] at hReady
            | some identity => exact ⟨identity, rfl⟩
          rcases hIdentity with ⟨identity, hName⟩
          have hSidecar :=
            spawned_sidecar hName hSafe hCommitted hNow
          exact
            ⟨CatalogSystem.start_invariant _ _ script,
              hSidecar _ script, _,
              spawned_queue rfl (hSidecar _ script)⟩
    · cases hStart

/- A drained session has settled. -/
theorem drained
    (hInv : SessionInv generation committed session)
    (hDrained : session.Drained) :
    session.client.settled = true := by
  rcases hDrained with
    ⟨hWorker, hReceived, _, hStdout, hContinuations⟩
  rcases hInv.queue with ⟨⟨waiting, buffer, lines⟩, hQueue⟩
  have hLines : lines = [] := by
    have hMap := hQueue.stdout
    have hNone : session.clientSide.stdout = [] := hStdout
    rw [hNone] at hMap
    exact List.map_eq_nil_iff.mp hMap.symm
  have hWaiting : waiting = [] := by
    have hMap := hQueue.continuations
    have hNone : session.clientSide.continuations = [] :=
      hContinuations
    rw [hNone] at hMap
    exact List.map_eq_nil_iff.mp hMap.symm
  subst hLines
  subst hWaiting
  rcases hInv.sidecar.catalog with hBuilding | hOver
  · rcases hInv.catalog.worker.post controlRely_refl
        hWorker with
      ⟨_, hEnded⟩
    rcases hEnded.sentInOrder with
      ⟨reports, update, hSent, _, hTerminal⟩
    have hMem : update ∈ session.receivedUpdates := by
      rw [CatalogSession.receivedUpdates, hReceived,
        List.take_length, hSent]
      exact List.mem_append_right _ (List.mem_singleton_self _)
    rw [hBuilding.running update hMem] at hTerminal
    cases hTerminal
  · rcases hQueue.ending hOver.catalog with
      hSettled | ⟨snapshot, hMem, _⟩
    · exact hSettled
    · rcases hQueue.stage with hStarting | hStarted
      · rcases hStarting.order with
          ⟨_, _, first, events, hNone⟩ |
          ⟨first, events, hNone, _⟩
        · cases hNone
        · cases hNone
      · have hBuffer : buffer = [] := hStarted.buffer
        subst hBuffer
        cases hMem

end SessionInv

----------
-- The Promise of a Run
----------

/-
  In every run in which the client keeps up, no status is
  rejected, the promise settles at most once and at its
  terminal status, and it has settled when nothing is left
  to do.
-/
theorem settles_at_terminal
    (world : World)
    (idle : Runtime)
    (script : WorkerScript)
    (session : CatalogSession)
    (generation : Nat)
    (moves : List CatalogSession.Move)
    (hStart :
      CatalogSession.start world idle script = some session)
    (hGeneration : session.runtime.catalog = some generation)
    (hSafe :
      generation ≤ maxSafeInteger ∧
        idle.committedGeneration ≤ maxSafeInteger ∧
        world.now ≤ maxSafeInteger)
    (hConforming :
      Transition.Admissible
        (CatalogSession.step world generation)
        CatalogSession.Conforming session moves) :
    let last :=
      Transition.run (CatalogSession.step world generation)
        session moves
    last.failure = none ∧
      Outcome last.client ∧
      (last.Drained → last.client.settled = true) := by
  intro last
  have hInv :
      SessionInv generation idle.committedGeneration last := by
    apply Transition.run_invariant_of_admissible _ _
      hConforming
    · intro state move hState hAllowed
      exact hState.step world move hAllowed
    · exact
        SessionInv.start hStart hGeneration hSafe.1 hSafe.2.1
          hSafe.2.2
  rcases hInv.queue with ⟨queue, hQueue⟩
  exact ⟨hQueue.failure, hQueue.outcome, hInv.drained⟩

/- A runtime that has opened its workspace. -/
def openedRuntime : Runtime :=
  { index := some ⟨"/cache/symbols-v2.sqlite3", "file:///w"⟩
    workspaceRoot := some "/w"
    databasePath := some "/cache/symbols-v2.sqlite3"
    workspaceIdentity := some "file:///w" }

def openedWorld : World :=
  { unicode := Unicode.ascii
    now := 0
    canonicalize := fun path => Except.ok path
    workspaceCacheLocation := fun _ root =>
      Except.ok ⟨"/cache/symbols-v2.sqlite3", root⟩
    openStore := fun _ => Except.ok ()
    metadata := Except.ok ⟨0, []⟩
    applyBatch := fun batch =>
      Except.ok ⟨batch.generation, batch.rejectedUris⟩
    search := fun _ => Except.ok ⟨[], 0⟩
    searchExports := fun _ => Except.ok ⟨[], 0⟩
    searchReferenceCandidates := fun _ _ _ =>
      Except.ok (unsupportedReferenceCandidates 1)
    cancel := false }

/- The start of a session that reuses its catalog. -/
def reuseSession : CatalogSession :=
  SessionInv.spawned openedRuntime 1 0
    (responseJson "accepted" true 1
      ⟨openedRuntime.spawnCatalog 1, 0⟩)
    reuseScript

/-
  A client that handles every line at once.  The cancel
  request comes when the worker is already publishing.
-/
def promptMoves : List CatalogSession.Move :=
  [.read, .resume] ++ List.replicate 20 .worker ++
    [.abort, .request, .caller, .caller, .caller, .caller,
      .read, .resume] ++
    List.replicate 20 .worker ++
    (List.replicate 9 [.receive, .tick 1, .read]).flatten

theorem settles_at_terminal_prompt :
    let last :=
      Transition.run (CatalogSession.step openedWorld 1)
        reuseSession promptMoves
    last.failure = none ∧
      Outcome last.client ∧
      (last.Drained → last.client.settled = true) :=
  settles_at_terminal openedWorld openedRuntime reuseScript
    reuseSession 1 promptMoves rfl rfl
    (by decide)
    (by decide +kernel)

/-
  The same run in one chunk: the refused answer is read
  before the reports behind it, and is handled after them.
-/
def chunkedMoves : List CatalogSession.Move :=
  [.read, .resume] ++ List.replicate 20 .worker ++
    [.abort, .request, .caller, .caller, .caller, .caller,
      .receive, .receive, .read, .read, .read, .resume]

/- The client rejects the catalog of this sidecar. -/
theorem rejects_chunkedMoves :
    CatalogSession.start openedWorld openedRuntime
          reuseScript =
        some reuseSession ∧
      (Transition.run (CatalogSession.step openedWorld 1)
          reuseSession chunkedMoves).failure =
        some "index sidecar catalog progress regressed" ∧
      (Transition.run (CatalogSession.step openedWorld 1)
          reuseSession chunkedMoves).client.resolved =
        0 := by
  refine ⟨rfl, ?_, ?_⟩
  · decide +kernel
  · decide +kernel

end Client

end ArktsServer
