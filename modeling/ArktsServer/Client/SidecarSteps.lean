import ArktsServer.Client.SessionQueue

/-
  The sidecar's side of a catalog session: the runtime is in
  step with the updates it has received, and every update
  moves it on to a status that the client can accept.

  Key definitions include:
    * `Client.Building`, `Client.Over`
    * `Client.SidecarInv`

  Correctness is proven by:
    * `Client.SidecarInv.reportable`
    * `Client.handled_update`
-/

----------
-- The Sidecar
----------

namespace ArktsServer

namespace Client

open Sidecar SharedCell

/- The updates that the request loop has received. -/
def CatalogSession.receivedUpdates
    (session : CatalogSession) : List CatalogUpdate :=
  (sentUpdates session.catalog.history).take session.received

/- The catalog is being built. -/
structure Building
    (generation : Nat)
    (session : CatalogSession) : Prop where
  catalog : session.runtime.catalog = some generation
  building :
    session.runtime.buildingGeneration = some generation
  phase :
    session.runtime.phase = .discovering ∨
      session.runtime.phase = .activating ∨
      session.runtime.phase = .cancelling
  progress :
    session.runtime.progress = {} ∨
      ∃ update ∈ session.receivedUpdates,
        session.runtime.progress = updateProgress update
  running :
    ∀ update ∈ session.receivedUpdates,
      isTerminal update = false

/- The catalog has ended. -/
structure Over
    (generation : Nat)
    (runtime : Runtime) : Prop where
  catalog : runtime.catalog = none
  phase : isTerminalPhase runtime.phase = true
  building : runtime.buildingGeneration = none
  committed :
    runtime.phase = .ready ∨ runtime.phase = .partial_ →
      runtime.committedGeneration = generation

structure SidecarInv
    (generation : Nat)
    (session : CatalogSession) : Prop where
  received :
    session.received ≤
      (sentUpdates session.catalog.history).length
  identity :
    session.runtime.workspaceIdentity =
      some session.workspaceIdentity
  time : session.now ≤ maxSafeInteger
  generation_le : generation ≤ maxSafeInteger
  committed_le :
    session.runtime.committedGeneration ≤ maxSafeInteger
  small : SmallProgress session.runtime.progress
  sound : SoundProgress session.runtime.progress
  catalog :
    Building generation session ∨
      Over generation session.runtime
  cancelling :
    session.runtime.phase = .cancelling ∨
        session.runtime.phase = .cancelled ∨
        session.catalog.control = .cancelled →
      session.client.cancelStarted = true
  calling :
    ∀ index requested,
      session.calling = some (index, requested) →
        requested = generation ∧
          session.runtime.catalog = some generation ∧
          session.client.cancelStarted = true
  requests :
    ∀ requested ∈ session.client.cancelRequests,
      requested = generation ∧
        session.client.cancelStarted = true

/- The sidecar at this moment. -/
def CatalogSession.current
    (session : CatalogSession) : Snapshot :=
  ⟨session.runtime, session.now⟩

variable {session : CatalogSession}
variable {generation : Nat}

theorem Building.not_terminal
    (hBuilding : Building generation session) :
    session.current.terminal = false := by
  have hPhase := hBuilding.phase
  simp only [CatalogSession.current, Snapshot.terminal]
  rcases hPhase with hPhase | hPhase | hPhase
  · rw [hPhase]
    rfl
  · rw [hPhase]
    rfl
  · rw [hPhase]
    rfl

/- What the sidecar would report now can be accepted. -/
theorem SidecarInv.reportable
    (hInv : SidecarInv generation session) :
    Reportable generation session.workspaceIdentity
      session.client.cancelStarted session.current where
  countable := by
    refine ⟨hInv.committed_le, ?_, hInv.small, hInv.time⟩
    intro building hBuilding
    rcases hInv.catalog with hCatalog | hOver
    · have hSame := hCatalog.building.symm.trans hBuilding
      cases hSame
      exact hInv.generation_le
    · have hNone := hOver.building.symm.trans hBuilding
      cases hNone
  sound := hInv.sound
  identity := hInv.identity
  building := by
    intro hRunning
    rcases hInv.catalog with hCatalog | hOver
    · exact hCatalog.building
    · have hEnds := hOver.phase
      have hNot : session.current.terminal = true := hEnds
      rw [hRunning] at hNot
      cases hNot
  committed := by
    intro hReady
    rcases hInv.catalog with hCatalog | hOver
    · have hNot := hCatalog.not_terminal
      have hEnds : session.current.terminal = true := by
        simp only [Snapshot.terminal]
        rcases hReady with hReady | hReady
        · rw [hReady]
          rfl
        · rw [hReady]
          rfl
      rw [hNot] at hEnds
      cases hEnds
    · exact hOver.committed hReady
  cancelling := fun hPhase => hInv.cancelling (Or.inl hPhase)
  cancelled :=
    fun hPhase => hInv.cancelling (Or.inr (Or.inl hPhase))

/- What the client sees of a session. -/
def CatalogSession.clientSide
    (session : CatalogSession) : ClientSide where
  stdout := session.stdout
  continuations := session.continuations
  client := session.client
  failure := session.failure
  workspaceIdentity := session.workspaceIdentity
  current := session.current
  ended := session.runtime.catalog = none

----------
-- Steps of the Catalog
----------

/- The client cannot tell the steps of the worker apart. -/
theorem SidecarInv.catalogStep
    (hInv : SidecarInv generation session)
    {catalog : CatalogSystem}
    {effects : List WorkerEffect}
    (hHistory :
      catalog.history = session.catalog.history ++ effects)
    (hControl :
      catalog.control = .cancelled →
        session.client.cancelStarted = true) :
    SidecarInv generation { session with catalog } := by
  have hSent :
      sentUpdates catalog.history =
        sentUpdates session.catalog.history ++
          sentUpdates effects := by
    rw [hHistory]
    exact List.filterMap_append
  have hReceived :
      CatalogSession.receivedUpdates
          { session with catalog } =
        session.receivedUpdates := by
    simp only [CatalogSession.receivedUpdates, hSent]
    exact List.take_append_of_le_length hInv.received
  refine
    { hInv with
      received := ?_
      catalog := ?_
      cancelling := ?_ }
  · have hLe := hInv.received
    simp only [hSent, List.length_append]
    omega
  · rcases hInv.catalog with hBuilding | hOver
    · refine
        Or.inl
          ⟨hBuilding.catalog, hBuilding.building,
            hBuilding.phase, ?_, ?_⟩
      · rw [hReceived]
        exact hBuilding.progress
      · rw [hReceived]
        exact hBuilding.running
    · exact Or.inr hOver
  · intro hCancelling
    rcases hCancelling with hPhase | hPhase | hCancelled
    · exact hInv.cancelling (Or.inl hPhase)
    · exact hInv.cancelling (Or.inr (Or.inl hPhase))
    · exact hControl hCancelled

----------
-- Receiving Updates
----------

/- The session whose runtime has handled an update. -/
def CatalogSession.handled
    (session : CatalogSession)
    (runtime : Runtime) : CatalogSession :=
  { session with received := session.received + 1, runtime }

section Receiving

variable {generation : Nat}
variable {session : CatalogSession}
variable {update : CatalogUpdate}
variable {runtime : Runtime}

theorem receivedUpdates_handled
    (hUpdate :
      (sentUpdates session.catalog.history)[
          session.received]? = some update)
    (runtime : Runtime) :
    (session.handled runtime).receivedUpdates =
      session.receivedUpdates ++ [update] := by
  simp only [CatalogSession.receivedUpdates,
    CatalogSession.handled, List.take_add_one, hUpdate,
    Option.toList_some]

/- Handling an update keeps what does not depend on it. -/
theorem SidecarInv.handled
    (hInv : SidecarInv generation session)
    (hUpdate :
      (sentUpdates session.catalog.history)[
          session.received]? = some update)
    (hIdentity :
      runtime.workspaceIdentity =
        session.runtime.workspaceIdentity)
    (hCommitted :
      runtime.committedGeneration ≤ maxSafeInteger)
    (hProgress : runtime.progress = updateProgress update)
    (hSmall : SmallProgress (updateProgress update))
    (hSound : SoundProgress (updateProgress update))
    (hCatalog :
      Building generation (session.handled runtime) ∨
        Over generation runtime)
    (hCancelling :
      runtime.phase = .cancelling ∨
          runtime.phase = .cancelled →
        session.client.cancelStarted = true)
    (hCalling : session.calling = none) :
    SidecarInv generation (session.handled runtime) where
  received := (List.getElem?_eq_some_iff.mp hUpdate).1
  identity := hIdentity.trans hInv.identity
  time := hInv.time
  generation_le := hInv.generation_le
  committed_le := hCommitted
  small := by
    simp only [CatalogSession.handled, hProgress]
    exact hSmall
  sound := by
    simp only [CatalogSession.handled, hProgress]
    exact hSound
  catalog := hCatalog
  cancelling := by
    intro hPhase
    rcases hPhase with hPhase | hPhase | hControl
    · exact hCancelling (Or.inl hPhase)
    · exact hCancelling (Or.inr hPhase)
    · exact hInv.cancelling (Or.inr (Or.inr hControl))
  calling := by
    intro index requested hSome
    have hNone := hCalling.symm.trans hSome
    cases hNone
  requests := hInv.requests

/- A report moves the runtime on. -/
theorem handled_report
    (runtime : Runtime)
    (hInv : SidecarInv generation session)
    (hBuilding : Building generation session)
    (hCalling : session.calling = none)
    (hUpdate :
      (sentUpdates session.catalog.history)[
          session.received]? = some update)
    (hSmall : SmallProgress (updateProgress update))
    (hSound : SoundProgress (updateProgress update))
    (hRunning : isTerminal update = false)
    (hOrder :
      ∀ earlier ∈ session.receivedUpdates,
        UpdateLe earlier update)
    (hProgress : runtime.progress = updateProgress update)
    (hRank :
      catalogPhaseRank session.runtime.phase ≤
        catalogPhaseRank runtime.phase)
    (hPhase :
      runtime.phase = .discovering ∨
        runtime.phase = .activating ∨
        runtime.phase = .cancelling)
    (hCancelling :
      runtime.phase = .cancelling →
        session.runtime.phase = .cancelling)
    (hIdentity :
      runtime.workspaceIdentity =
        session.runtime.workspaceIdentity)
    (hCatalog :
      runtime.catalog = session.runtime.catalog)
    (hGeneration :
      runtime.buildingGeneration =
        session.runtime.buildingGeneration)
    (hCommitted :
      runtime.committedGeneration =
        session.runtime.committedGeneration) :
    SidecarInv generation (session.handled runtime) ∧
      SnapshotLe session.current
        (session.handled runtime).current := by
  have hReceived := receivedUpdates_handled hUpdate runtime
  have hMem :
      update ∈ (session.handled runtime).receivedUpdates := by
    rw [hReceived]
    exact List.mem_append_right _ (List.mem_singleton_self _)
  have hNext :
      Building generation (session.handled runtime) := by
    refine
      ⟨hCatalog.trans hBuilding.catalog,
        hGeneration.trans hBuilding.building, hPhase,
        Or.inr ⟨update, hMem, hProgress⟩, ?_⟩
    intro other hOther
    rw [hReceived] at hOther
    rcases List.mem_append.mp hOther with hOld | hNew
    · exact hBuilding.running other hOld
    · rw [List.mem_singleton.mp hNew]
      exact hRunning
  refine ⟨?_, hRank, Nat.le_refl _, ?_⟩
  · apply hInv.handled hUpdate hIdentity _ hProgress hSmall
      hSound (Or.inl hNext) _ hCalling
    · rw [hCommitted]
      exact hInv.committed_le
    · rintro (hNow | hNow)
      · exact hInv.cancelling (Or.inl (hCancelling hNow))
      · rw [hNow] at hPhase
        rcases hPhase with hNot | hNot | hNot
        · cases hNot
        · cases hNot
        · cases hNot
  · intro _
    simp only [CatalogSession.current, CatalogSession.handled,
      hProgress]
    rcases hBuilding.progress with
      hStart | ⟨earlier, hEarlier, hSame⟩
    · rw [hStart]
      refine
        ⟨Nat.zero_le _, Nat.zero_le _, Nat.zero_le _,
          Nat.zero_le _, Nat.zero_le _, ?_, ?_⟩
      · intro total hTotal
        cases hTotal
      · intro storage hStorage
        cases hStorage
    · rw [hSame]
      exact hOrder earlier hEarlier

/- A terminal update ends the catalog. -/
theorem handled_terminal
    (runtime : Runtime)
    (hInv : SidecarInv generation session)
    (hCalling : session.calling = none)
    (hUpdate :
      (sentUpdates session.catalog.history)[
          session.received]? = some update)
    (hSmall : SmallProgress (updateProgress update))
    (hSound : SoundProgress (updateProgress update))
    (hProgress : runtime.progress = updateProgress update)
    (hOver : Over generation runtime)
    (hIdentity :
      runtime.workspaceIdentity =
        session.runtime.workspaceIdentity)
    (hCommitted :
      runtime.committedGeneration ≤ maxSafeInteger)
    (hCancelled :
      runtime.phase = .cancelled →
        session.catalog.control = .cancelled) :
    SidecarInv generation (session.handled runtime) ∧
      SnapshotLe session.current
        (session.handled runtime).current := by
  have hTerminal := hOver.phase
  refine ⟨?_, ?_, Nat.le_refl _, ?_⟩
  · apply hInv.handled hUpdate hIdentity hCommitted hProgress
      hSmall hSound (Or.inr hOver) _ hCalling
    rintro (hNow | hNow)
    · rw [hNow] at hTerminal
      cases hTerminal
    · exact
        hInv.cancelling (Or.inr (Or.inr (hCancelled hNow)))
  · have hFour := (isTerminalPhase_iff _).mp hTerminal
    simp only [CatalogSession.current, CatalogSession.handled,
      hFour]
    exact catalogPhaseRank_le _
  · intro hRunning
    have hEnds :
        (session.handled runtime).current.terminal = true :=
      hTerminal
    rw [hRunning] at hEnds
    cases hEnds

/- The runtime behind a completed catalog. -/
theorem over_completeCatalog
    (runtime : Runtime)
    {report : RefreshReport}
    (hReport : report.committedGeneration = generation)
    (progress : CatalogProgress) :
    Over generation (runtime.completeCatalog report progress)
      := by
  simp only [Runtime.completeCatalog]
  split
  · exact ⟨rfl, rfl, rfl, fun _ => hReport⟩
  · split
    · exact ⟨rfl, rfl, rfl, fun _ => hReport⟩
    · exact ⟨rfl, rfl, rfl, fun _ => hReport⟩

theorem completeCatalog_keeps
    (runtime : Runtime)
    (report : RefreshReport)
    (progress : CatalogProgress) :
    let next := runtime.completeCatalog report progress
    next.progress = progress ∧
      next.workspaceIdentity = runtime.workspaceIdentity ∧
      next.committedGeneration = report.committedGeneration ∧
      next.phase ≠ .cancelled := by
  simp only [Runtime.completeCatalog]
  split
  · exact ⟨rfl, rfl, rfl, fun hEq => by cases hEq⟩
  · split
    · exact ⟨rfl, rfl, rfl, fun hEq => by cases hEq⟩
    · exact ⟨rfl, rfl, rfl, fun hEq => by cases hEq⟩

/- The active catalog handles its next update. -/
theorem handled_update
    {committed : Nat}
    (hCatalog :
      CatalogSystem.Invariant generation committed
        session.catalog)
    (hInv : SidecarInv generation session)
    (hBuilding : Building generation session)
    (hCalling : session.calling = none)
    (hUpdate :
      (sentUpdates session.catalog.history)[
          session.received]? = some update)
    (hSmall : SmallProgress (updateProgress update)) :
    let runtime := session.runtime.applyCatalogUpdate update
    SidecarInv generation (session.handled runtime) ∧
      SnapshotLe session.current
        (session.handled runtime).current ∧
      (runtime.catalog = none →
        (session.handled runtime).current.terminal =
          true) := by
  rcases hCatalog.sentInOrder with
    ⟨reports, ending, hSent, hSentOrder⟩
  have hNext := hUpdate
  rw [hSent] at hNext
  have hOwn := hSentOrder.own update (List.mem_of_getElem? hNext)
  have hEarlier := next_update hSentOrder hNext
  rw [← hSent] at hEarlier
  have hPhase := hBuilding.phase
  cases update with
  | progress sender progress =>
    rcases hEarlier with ⟨hRunning, hOrder⟩ | hEnds
    · have hReport :=
        handled_report
          (session.runtime.applyCatalogUpdate
            (.progress sender progress))
          hInv hBuilding hCalling hUpdate hSmall hOwn.2
          hRunning hOrder rfl (Nat.le_refl _) hPhase id rfl
          rfl rfl rfl
      refine ⟨hReport.1, hReport.2, ?_⟩
      intro hNone
      have hSome := hBuilding.catalog.symm.trans hNone
      cases hSome
    · cases hEnds.terminal
  | activating sender progress =>
    rcases hEarlier with ⟨hRunning, hOrder⟩ | hEnds
    · have hPhases :
          catalogPhaseRank session.runtime.phase ≤
              catalogPhaseRank
                (session.runtime.applyCatalogUpdate
                  (.activating sender progress)).phase ∧
            ((session.runtime.applyCatalogUpdate
                  (.activating sender progress)).phase =
                .activating ∨
              (session.runtime.applyCatalogUpdate
                    (.activating sender progress)).phase =
                  .cancelling ∧
                session.runtime.phase = .cancelling) := by
        simp only [Runtime.applyCatalogUpdate]
        rcases hPhase with hPhase | hPhase | hPhase
        · simp [hPhase, catalogPhaseRank]
        · simp [hPhase, catalogPhaseRank]
        · simp [hPhase, catalogPhaseRank]
      have hReport :=
        handled_report
          (session.runtime.applyCatalogUpdate
            (.activating sender progress))
          hInv hBuilding hCalling hUpdate hSmall hOwn.2
          hRunning hOrder rfl hPhases.1
          (hPhases.2.elim (fun hNow => Or.inr (Or.inl hNow))
            fun hNow => Or.inr (Or.inr hNow.1))
          (fun hNow =>
            hPhases.2.elim
              (fun hNot => by
                rw [hNow] at hNot
                cases hNot)
              fun hBoth => hBoth.2)
          rfl rfl rfl rfl
      refine ⟨hReport.1, hReport.2, ?_⟩
      intro hNone
      have hSome := hBuilding.catalog.symm.trans hNone
      cases hSome
    · cases hEnds.terminal
  | complete sender report progress =>
    rcases hEarlier with ⟨hRunning, _⟩ | hEnds
    · cases hRunning
    · have hSender : sender = generation := hOwn.1
      subst hSender
      have hReport := hEnds.complete report progress rfl
      have hOver :=
        over_completeCatalog session.runtime hReport progress
      rcases completeCatalog_keeps session.runtime report
          progress with
        ⟨hProgress, hIdentity, hCommitted, hPhaseNe⟩
      have hBound :
          (session.runtime.completeCatalog report
              progress).committedGeneration ≤
            maxSafeInteger := by
        rw [hCommitted, hReport]
        exact hInv.generation_le
      have hTerminal :=
        handled_terminal _ hInv hCalling hUpdate hSmall
          hOwn.2 hProgress hOver hIdentity hBound
          fun hCancelled => absurd hCancelled hPhaseNe
      exact ⟨hTerminal.1, hTerminal.2, fun _ => hOver.phase⟩
  | cancelled sender progress =>
    rcases hEarlier with ⟨hRunning, _⟩ | hEnds
    · cases hRunning
    · have hSender : sender = generation := hOwn.1
      subst hSender
      have hTerminal :=
        handled_terminal
          (session.runtime.applyCatalogUpdate
            (.cancelled sender progress))
          hInv hCalling hUpdate hSmall hOwn.2 rfl
          ⟨rfl, rfl, rfl, by
            rintro (hReady | hReady)
            · cases hReady
            · cases hReady⟩
          rfl hInv.committed_le
          fun _ => hEnds.cancelled progress rfl
      exact ⟨hTerminal.1, hTerminal.2, fun _ => rfl⟩
  | failed sender progress message =>
    rcases hEarlier with ⟨hRunning, _⟩ | hEnds
    · cases hRunning
    · have hTerminal :=
        handled_terminal
          (session.runtime.applyCatalogUpdate
            (.failed sender progress message))
          hInv hCalling hUpdate hSmall hOwn.2 rfl
          ⟨rfl, rfl, rfl, by
            rintro (hReady | hReady)
            · cases hReady
            · cases hReady⟩
          rfl hInv.committed_le
          fun hCancelled => by cases hCancelled
      exact ⟨hTerminal.1, hTerminal.2, fun _ => rfl⟩

end Receiving

/- Steps of the client leave the sidecar as it is. -/
theorem SidecarInv.withClient
    (hInv : SidecarInv generation session)
    (stdout : List Line)
    (continuations : List Continuation)
    (client : CatalogRun)
    (failure : Option String)
    (hStarted :
      session.client.cancelStarted = true →
        client.cancelStarted = true)
    (hRequests :
      ∀ requested ∈ client.cancelRequests,
        requested = generation ∧
          client.cancelStarted = true) :
    SidecarInv generation
      { session with
        stdout
        continuations
        client
        failure } := by
  refine
    { hInv with
      catalog := ?_
      cancelling := fun hPhase =>
        hStarted (hInv.cancelling hPhase)
      calling := ?_
      requests := hRequests }
  · rcases hInv.catalog with hBuilding | hOver
    · exact Or.inl { hBuilding with }
    · exact Or.inr hOver
  · intro index requested hSome
    rcases hInv.calling index requested hSome with
      ⟨hRequested, hActive, hOpen⟩
    exact ⟨hRequested, hActive, hStarted hOpen⟩

end Client

end ArktsServer
