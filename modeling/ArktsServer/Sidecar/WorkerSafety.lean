import ArktsServer.Sidecar.WorkerTrace

/-
  The whole catalog worker, whatever its script and whenever
  it is cancelled: it publishes only in the publishing
  state, and its one terminal update agrees with what it did.

  Key definitions include:
    * `KeepsTrack`
    * `SessionEnd`
    * `Scanning`

  Correctness is proven by:
    * `session_safe`, `finish_safe`
    * `scan_safe`
    * `catalogWorker_safe`, `panicReport_safe`
-/

----------
-- Writing
----------

namespace ArktsServer

namespace Sidecar

open SharedCell

section Parts

variable {generation : Nat}
variable {history : List WorkerEffect}
variable {progress : CatalogProgress}
variable {control : ControlState}

namespace Tracks

variable {state state' : BuildState}

/- A step that leaves the last report as it is. -/
theorem grow
    (hTracks : Tracks generation history state)
    (hStorage :
      state'.progress.storage = state.progress.storage)
    (hStarted :
      state'.progress.stageStarted =
        state.progress.stageStarted)
    (hSequence :
      state'.progress.activitySequence =
        state.progress.activitySequence)
    (hTotal :
      state'.progress.totalFiles = state.progress.totalFiles)
    (hDiscovered :
      state.progress.discovered ≤ state'.progress.discovered)
    (hIndexed :
      state.progress.indexed ≤ state'.progress.indexed)
    (hRejected :
      state.progress.rejected ≤ state'.progress.rejected)
    (hSkipped :
      state.progress.policySkipped ≤
        state'.progress.policySkipped)
    (hIgnored :
      state.progress.ignored ≤ state'.progress.ignored)
    (hDocuments :
      state'.storage.writtenDocuments +
          state'.pendingDocuments ≤
        state'.progress.indexed)
    (hWritten :
      state.storage.writtenDocuments ≤
        state'.storage.writtenDocuments)
    (hRows :
      state.storage.writtenRows ≤ state'.storage.writtenRows) :
    Tracks generation history state' := by
  refine ⟨?_, hDocuments, ?_⟩
  · apply hTracks.live.advance
    · refine
        ⟨hDiscovered, hIndexed, hRejected, hSkipped, hIgnored,
          ?_, ?_⟩
      · intro total hSome
        exact ⟨total, by rw [hTotal]; exact hSome, Nat.le_refl _⟩
      · intro previous hSome
        exact
          ⟨previous, by rw [hStorage]; exact hSome,
            Nat.le_refl _, Nat.le_refl _,
            Or.inr ⟨hSequence.symm, rfl, hStarted.symm⟩⟩
    · intro storage hSome
      rw [hStorage] at hSome
      exact (hTracks.live.sound storage hSome).trans hIndexed
  · intro previous hSome
    rw [hStorage] at hSome
    rcases hTracks.stored previous hSome with
      ⟨hLeft, hRight⟩
    exact ⟨hLeft.trans hWritten, hRight.trans hRows⟩

theorem parsed
    (hTracks : Tracks generation history state) :
    Tracks generation history state.parsed := by
  have hDocuments := hTracks.documents
  apply hTracks.grow
  all_goals simp only [BuildState.parsed]
  all_goals omega

theorem rejected
    (hTracks : Tracks generation history state)
    (uri : String) :
    Tracks generation history (state.rejected uri) := by
  have hDocuments := hTracks.documents
  apply hTracks.grow
  all_goals simp only [BuildState.rejected]
  all_goals omega

theorem skipped
    (hTracks : Tracks generation history state) :
    Tracks generation history state.skipped := by
  have hDocuments := hTracks.documents
  apply hTracks.grow
  all_goals simp only [BuildState.skipped]
  all_goals omega

theorem wrote
    (hTracks : Tracks generation history state)
    (documents rows : Nat) :
    Tracks generation history
      (state.wrote documents rows) := by
  have hDocuments := hTracks.documents
  apply hTracks.grow
  all_goals simp only [BuildState.wrote]
  all_goals omega

theorem checkpointed
    (hTracks : Tracks generation history state)
    (walFrames checkpointedFrames : Nat) :
    Tracks generation history
      (state.checkpointed walFrames checkpointedFrames) :=
        { hTracks with }

theorem rejectedDocuments
    (hTracks : Tracks generation history state)
    (rejectedDocuments : List String) :
    Tracks generation history
      { state with rejectedDocuments } := { hTracks with }

end Tracks

/- A step after which build and reports still agree. -/
def KeepsTrack
    (generation : Nat)
    (step : BuildState → Action BuildState) : Prop :=
  ∀ control history state,
    Tracks generation history state →
      WorkerSafe generation
        (fun _ history state =>
          Tracks generation history state)
        (step state) control history

theorem keepsTrack_done
    {step : BuildState → BuildState}
    (hStep :
      ∀ history state,
        Tracks generation history state →
          Tracks generation history (step state)) :
    KeepsTrack generation fun state => .done (step state) := by
  intro control history state hTracks _ _
  exact hStep history state hTracks

theorem keepsTrack_attempt (failure : Option String) :
    KeepsTrack generation (attempt failure) :=
  keepsTrack_done fun _ _ hTracks => hTracks.failure failure

theorem keepsTrack_emit
    (stage : CatalogStage)
    (view : Observation) :
    KeepsTrack generation (emit generation stage view) := by
  intro control history state hTracks
  exact
    (emit_safe stage view hTracks).weaken
      fun _ _ _ hEntered => hEntered.1

theorem keepsTrack_activateProducer
    (gate : Except String (Option FileGate)) :
    KeepsTrack generation
      (activateProducer generation gate) := by
  intro control history state hTracks
  apply WorkerSafe.bind (beginActivation_safe gate hTracks.live)
  intro loaded later result hLive
  have hLater : Tracks generation later state :=
    ⟨hLive, hTracks.documents, hTracks.stored⟩
  intro after _
  rcases result with message | activated
  · exact hLater.failure _
  · cases activated with
    | false => exact hLater.failure _
    | true => exact hLater

theorem keepsTrack_buildStep (step : BuildStep) :
    KeepsTrack generation (buildStep generation step) := by
  cases step with
  | emit stage view => exact keepsTrack_emit stage.stage view
  | parsed =>
    exact keepsTrack_done fun _ _ hTracks => hTracks.parsed
  | rejected uri =>
    exact
      keepsTrack_done fun _ _ hTracks =>
        hTracks.rejected uri
  | skipped =>
    exact keepsTrack_done fun _ _ hTracks => hTracks.skipped
  | activate gate => exact keepsTrack_activateProducer gate
  | wrote documents rows =>
    exact
      keepsTrack_done fun _ _ hTracks =>
        hTracks.wrote documents rows
  | checkpointed walFrames checkpointedFrames =>
    exact
      keepsTrack_done fun _ _ hTracks =>
        hTracks.checkpointed walFrames checkpointedFrames
  | fail message =>
    exact
      keepsTrack_done fun _ _ hTracks =>
        hTracks.failure (some message)

----------
-- Sessions
----------

theorem runSteps_append
    (first second : List (BuildState → Action BuildState))
    (state : BuildState) :
    runSteps (first ++ second) state =
      (runSteps first state).bind (runSteps second) := by
  induction first generalizing state with
  | nil => rfl
  | cons step rest ih =>
    simp only [List.cons_append, runSteps]
    split
    · rename_i hFailed
      cases second with
      | nil => rfl
      | cons next others =>
        simp only [Program.bind, runSteps, if_pos hFailed]
    · rw [Program.bind_assoc]
      congr 1
      funext middle
      exact ih middle

/- Steps that keep track do so in sequence. -/
theorem runSteps_safe
    {steps : List (BuildState → Action BuildState)}
    (hSteps : ∀ step ∈ steps, KeepsTrack generation step) :
    KeepsTrack generation (runSteps steps) := by
  induction steps with
  | nil =>
    intro control history state hTracks _ _
    exact hTracks
  | cons step rest ih =>
    intro control history state hTracks
    simp only [runSteps]
    split
    · intro _ _
      exact hTracks
    · apply WorkerSafe.bind
        (hSteps step List.mem_cons_self _ _ _ hTracks)
      intro loaded later middle hMiddle
      apply ih
      · intro other hOther
        exact hSteps other (List.mem_cons_of_mem _ hOther)
      · exact hMiddle

/- The state in which a reuse replaces the parsed count. -/
structure Unparsed (state : BuildState) : Prop where
  indexed : state.progress.indexed = 0
  storage : state.progress.storage = none
  written : state.storage.writtenDocuments = 0
  pending : state.pendingDocuments = 0

variable {state : BuildState}

theorem emitReusing_safe
    (verified : Nat)
    (gate : Except String (Option FileGate))
    (view : Observation)
    (hTracks : Tracks generation history state)
    (hUnparsed : Unparsed state) :
    WorkerSafe generation
      (fun _ history state => Tracks generation history state)
      (emitReusing generation verified gate view state)
      control history := by
  rcases hUnparsed with
    ⟨hIndexed, hStorage, hWritten, hPending⟩
  have hVerified :
      Tracks generation history
        { state with
          progress :=
            { state.progress with indexed := verified } } := by
    apply hTracks.grow
    all_goals dsimp only
    all_goals omega
  apply WorkerSafe.bind (beginActivation_safe gate hVerified.live)
  intro loaded later result hLive
  have hLater :=
    Tracks.mk hLive hVerified.documents hVerified.stored
  rcases result with message | activated
  · intro _ _
    exact hLater.failure _
  · cases activated with
    | false =>
      intro _ _
      exact hLater.failure _
    | true => exact keepsTrack_emit _ _ _ _ _ hLater

/- The private work of either route. -/
theorem runSteps_routeSteps_safe
    (route : Route)
    (hTracks : Tracks generation history state)
    (hUnparsed : Unparsed state) :
    WorkerSafe generation
      (fun _ history state => Tracks generation history state)
      (runSteps (routeSteps generation route) state) control
      history := by
  cases route with
  | reuse verified gate view storedRejected =>
    simp only [routeSteps, runSteps]
    split
    · intro _ _
      exact hTracks
    · apply WorkerSafe.bind
        (emitReusing_safe verified gate view hTracks hUnparsed)
      intro _ _ _ hLater _ _
      exact hLater
  | rebuild script =>
    apply runSteps_safe _ _ _ _ hTracks
    intro step hStep
    simp only [routeSteps, List.cons_append,
      List.mem_cons, List.mem_append, List.mem_map,
      List.not_mem_nil, or_false] at hStep
    rcases hStep with rfl | ⟨write, _, rfl⟩ | rfl | rfl |
      rfl | rfl | rfl | rfl | rfl
    · exact keepsTrack_attempt _
    · exact keepsTrack_buildStep write
    · exact keepsTrack_emit _ _
    · exact keepsTrack_attempt _
    · exact keepsTrack_emit _ _
    · exact keepsTrack_attempt _
    · exact
        keepsTrack_done fun _ _ hTracks =>
          hTracks.checkpointed _ _
    · exact keepsTrack_emit _ _
    · exact keepsTrack_attempt _

/-
  How a session ends: failed before its commit, or behind
  the commit in the publishing state.
-/
def SessionEnd
    (generation : Nat)
    (control : ControlState)
    (history : List WorkerEffect)
    (state : BuildState) : Prop :=
  (Tracks generation history state ∧
      state.failure.isSome = true) ∨
    ∃ before,
      history = before ++ [.publish] ∧
        Tracks generation before state ∧
        control = .publishing

theorem tracks_readRejected
    (route : Route)
    (hTracks : Tracks generation history state) :
    ∃ state',
      readRejected route state = .done state' ∧
        Tracks generation history state' := by
  cases route with
  | reuse verified gate view storedRejected =>
    cases storedRejected with
    | error message =>
      exact ⟨_, rfl, hTracks.failure (some message)⟩
    | ok rejectedDocuments =>
      exact ⟨_, rfl, hTracks.rejectedDocuments rejectedDocuments⟩
  | rebuild script =>
    exact ⟨_, rfl, hTracks.rejectedDocuments _⟩

/- The last steps of a session, from the claim to publish. -/
theorem publishSteps_safe
    (script : SessionScript)
    (hTracks : Tracks generation history state) :
    WorkerSafe generation (SessionEnd generation)
      (runSteps
        [emit generation .publishing script.publishing,
          attempt script.commitFailure, commit,
          readRejected script.route]
        state)
      control history := by
  simp only [runSteps]
  split
  · rename_i hFailed
    intro _ _
    exact Or.inl ⟨hTracks, hFailed⟩
  · apply WorkerSafe.bind
      (emit_safe .publishing script.publishing hTracks)
    rintro claimed later entered ⟨hEntered, hClaimed⟩
    split
    · rename_i hFailed
      intro _ _
      exact Or.inl ⟨hEntered, hFailed⟩
    · rename_i hPassed
      have hPublishing : claimed = .publishing := by
        apply hClaimed _ rfl
        simpa using hPassed
      have hAttempted := hEntered.failure script.commitFailure
      simp only [attempt, Program.bind]
      split
      · rename_i hFailed
        intro _ _
        exact Or.inl ⟨hAttempted, hFailed⟩
      · rename_i hCommits
        rcases tracks_readRejected script.route
            hAttempted with
          ⟨final, hFinal, hTracksFinal⟩
        simp only [commit, Program.bind, hFinal, if_neg hCommits]
        subst hPublishing
        intro after hAfter
        refine ⟨Active.live hEntered.live, ?_⟩
        intro last hLast
        refine Or.inr ⟨later, rfl, hTracksFinal, ?_⟩
        have hStill := controlRely_publishing hAfter
        subst hStill
        exact controlRely_publishing hLast

theorem session_safe
    (script : SessionScript)
    (hTracks : Tracks generation history state)
    (hUnparsed : Unparsed state) :
    WorkerSafe generation (SessionEnd generation)
      (runSteps (sessionSteps generation script) state)
      control history := by
  have hSplit :
      sessionSteps generation script =
        [attempt script.openFailure] ++
          (routeSteps generation script.route ++
            ([emit generation .checking script.checking,
                attempt script.lockFailure] ++
              [emit generation .publishing script.publishing,
                attempt script.commitFailure, commit,
                readRejected script.route])) := by
    simp [sessionSteps]
  rw [hSplit, runSteps_append]
  have hOpened :
      WorkerSafe generation
        (fun _ history state =>
          Tracks generation history state ∧ Unparsed state)
        (runSteps [attempt script.openFailure] state) control
        history := by
    simp only [runSteps]
    split
    · intro _ _
      exact ⟨hTracks, hUnparsed⟩
    · intro _ _
      refine ⟨hTracks.failure _, ?_⟩
      exact { hUnparsed with }
  apply WorkerSafe.bind hOpened
  rintro _ _ opened ⟨hFirst, hFresh⟩
  rw [runSteps_append]
  apply WorkerSafe.bind
    (runSteps_routeSteps_safe script.route hFirst hFresh)
  intro _ _ built hSecond
  rw [runSteps_append]
  have hChecking :
      KeepsTrack generation
        (runSteps
          [emit generation .checking script.checking,
            attempt script.lockFailure]) := by
    apply runSteps_safe
    intro step hStep
    simp only [List.mem_cons, List.not_mem_nil, or_false] at hStep
    rcases hStep with rfl | rfl
    · exact keepsTrack_emit _ _
    · exact keepsTrack_attempt _
  apply WorkerSafe.bind (hChecking _ _ _ hSecond)
  intro _ _ checked hThird
  exact publishSteps_safe script hThird

/- The end of the thread agrees with the session. -/
theorem finish_safe
    (hEnd : SessionEnd generation control history state) :
    WorkerSafe generation
      (fun control history _ =>
        Ended generation control history)
      (finish generation state) control history := by
  simp only [finish]
  split
  · rename_i hNone
    rcases hEnd with ⟨_, hFailed⟩ | ⟨before, rfl, hTracks, rfl⟩
    · rw [hNone] at hFailed
      cases hFailed
    · intro later hLater
      refine
        ⟨Active.published hTracks.live
          (controlRely_publishing hLater), ?_⟩
      intro last hLast
      have hStill := controlRely_publishing hLater
      subst hStill
      exact
        Ended.complete hTracks.live
          (controlRely_publishing hLast) rfl
  · rcases hEnd with ⟨hTracks, _⟩ | ⟨before, rfl, hTracks, rfl⟩
    · intro loaded _
      refine ⟨Active.live hTracks.live, ?_⟩
      dsimp only
      split
      · rename_i hCancelled
        subst hCancelled
        intro later hLater
        refine ⟨Active.live hTracks.live, ?_⟩
        intro last hLast
        have hStill := controlRely_cancelled hLater
        subst hStill
        exact
          Ended.cancelled hTracks.live
            (controlRely_cancelled hLast)
      · intro later _
        refine ⟨Active.live hTracks.live, ?_⟩
        intro last _
        exact
          Ended.failed (Active.live hTracks.live)
            hTracks.live.sound
    · intro loaded hLoaded
      have hPublishing := controlRely_publishing hLoaded
      subst hPublishing
      have hActive :
          Active generation .publishing (before ++ [.publish]) :=
        Active.published hTracks.live rfl
      refine ⟨hActive, ?_⟩
      dsimp only
      split
      · rename_i hCancelled
        cases hCancelled
      · intro later hLater
        have hStill := controlRely_publishing hLater
        subst hStill
        refine ⟨hActive, ?_⟩
        intro last hLast
        have hLastStill := controlRely_publishing hLast
        subst hLastStill
        exact Ended.failed hActive hTracks.live.sound

----------
-- Scanning
----------

/- The progress of a scan: nothing is parsed or stored. -/
structure Scanning
    (generation : Nat)
    (history : List WorkerEffect)
    (progress : CatalogProgress) : Prop where
  live : Live generation history progress
  indexed : progress.indexed = 0
  storage : progress.storage = none
  totalFiles : progress.totalFiles = none

theorem soundProgress_of_none
    {progress : CatalogProgress}
    (hNone : progress.storage = none) :
    SoundProgress progress := by
  intro storage hSome
  rw [hNone] at hSome
  cases hSome

/- A scan only counts up. -/
theorem Scanning.count
    (hScanning : Scanning generation history progress)
    {progress' : CatalogProgress}
    (hDiscovered : progress.discovered ≤ progress'.discovered)
    (hRejected : progress.rejected ≤ progress'.rejected)
    (hSkipped :
      progress.policySkipped ≤ progress'.policySkipped)
    (hIgnored : progress.ignored ≤ progress'.ignored)
    (hIndexed : progress'.indexed = progress.indexed)
    (hStorage : progress'.storage = progress.storage)
    (hTotal : progress'.totalFiles = progress.totalFiles) :
    Scanning generation history progress' := by
  have hNone : progress'.storage = none :=
    hStorage.trans hScanning.storage
  refine
    ⟨?_, hIndexed.trans hScanning.indexed, hNone,
      hTotal.trans hScanning.totalFiles⟩
  apply hScanning.live.advance
  · refine
      ⟨hDiscovered, hIndexed.ge, hRejected, hSkipped, hIgnored,
        ?_, ?_⟩
    · intro total hSome
      rw [hScanning.totalFiles] at hSome
      cases hSome
    · intro previous hSome
      rw [hScanning.storage] at hSome
      cases hSome
  · exact soundProgress_of_none hNone

/- A scan ends the worker or hands its progress on. -/
def Scanned
    (generation : Nat)
    (control : ControlState)
    (history : List WorkerEffect)
    (result : Option ScanState) : Prop :=
  match result with
  | none => Ended generation control history
  | some state =>
      Scanning generation history state.progress

variable {state : ScanState}

theorem scan_safe
    (steps : List ScanStep)
    (hScanning :
      Scanning generation history state.progress) :
    WorkerSafe generation (Scanned generation)
      (scan generation steps state) control history := by
  induction steps generalizing state control history with
  | nil =>
    intro _ _
    exact hScanning
  | cons step rest ih =>
    have hActive
        (control : ControlState) :
        Active generation control history :=
      Active.live hScanning.live
    cases step with
    | poll =>
      intro loaded _
      refine ⟨hActive _, ?_⟩
      dsimp only
      split
      · rename_i hCancelled
        subst hCancelled
        intro later hLater
        refine ⟨hActive _, ?_⟩
        intro last hLast
        have hStill := controlRely_cancelled hLater
        subst hStill
        exact
          Ended.cancelled hScanning.live
            (controlRely_cancelled hLast)
      · exact ih hScanning
    | count discovered rejected policySkipped ignored =>
      apply ih
      exact
        hScanning.count (Nat.le_add_right _ _)
          (Nat.le_add_right _ _) (Nat.le_add_right _ _)
          (Nat.le_add_right _ _) rfl rfl rfl
    | rejectSource uri =>
      apply ih
      exact
        hScanning.count (Nat.le_refl _)
          (Nat.le_add_right _ _) (Nat.le_refl _)
          (Nat.le_refl _) rfl rfl rfl
    | report =>
      intro _ _
      refine ⟨hActive _, ?_⟩
      apply ih
      exact
        ⟨hScanning.live.send rfl rfl rfl,
          hScanning.indexed, hScanning.storage,
          hScanning.totalFiles⟩
    | fail message =>
      intro _ _
      refine ⟨hActive _, ?_⟩
      intro _ _
      exact Ended.failed (hActive _) hScanning.live.sound

/- The build starts where the scan has ended. -/
theorem tracks_startBuild
    (hScanning :
      Scanning generation history state.progress) :
    Tracks generation history (startBuild state) := by
  refine ⟨?_, Nat.zero_le _, ?_⟩
  · apply hScanning.live.advance
    · refine
        ⟨Nat.le_refl _, Nat.le_refl _, Nat.le_refl _,
          Nat.le_refl _, Nat.le_refl _, ?_, ?_⟩
      · intro total hSome
        rw [hScanning.totalFiles] at hSome
        cases hSome
      · intro previous hSome
        rw [hScanning.storage] at hSome
        cases hSome
    · exact hScanning.live.sound
  · intro previous hSome
    have hNone :
        (startBuild state).progress.storage = none :=
      hScanning.storage
    rw [hNone] at hSome
    cases hSome

theorem buildCatalog_safe
    (script : WorkerScript)
    (hScanning :
      Scanning generation history state.progress) :
    WorkerSafe generation
      (fun control history _ =>
        Ended generation control history)
      (buildCatalog generation script state) control
      history := by
  have hTracks := tracks_startBuild hScanning
  simp only [buildCatalog]
  split
  · intro _ _
    refine ⟨Active.live hTracks.live, ?_⟩
    intro _ _
    exact
      Ended.failed (Active.live hTracks.live) hTracks.live.sound
  · have hUnparsed : Unparsed (startBuild state) :=
      ⟨hScanning.indexed, hScanning.storage, rfl, rfl⟩
    apply WorkerSafe.bind
      (session_safe script.session hTracks hUnparsed)
    intro _ _ _ hEnd
    exact finish_safe hEnd

end Parts

----------
-- The Worker
----------

/- The worker has sent nothing and everything is zero. -/
theorem scanning_start (generation : Nat) :
    Scanning generation [] {} := by
  refine ⟨⟨?_, ?_, ?_, ?_⟩, rfl, rfl, rfl⟩
  · exact List.not_mem_nil
  · intro update hUpdate
    cases hUpdate
  · exact List.isChain_singleton _
  · exact soundProgress_of_none rfl

/-
  The worker under any cancellation: its history is in order
  while it runs, and it ends with one terminal update.
-/
theorem catalogWorker_safe
    (generation : Nat)
    (script : WorkerScript) :
    WorkerSafe generation
      (fun control history _ =>
        Ended generation control history)
      (catalogWorker generation script) .running [] := by
  have hStart := scanning_start generation
  intro first _
  refine ⟨Active.live hStart.live, ?_⟩
  have hSent :
      Scanning generation
        ([] ++ [.send (.progress generation {})]) {} :=
    ⟨hStart.live.send rfl rfl rfl, rfl, rfl, rfl⟩
  have hScan :
      WorkerSafe generation (Scanned generation)
        (scan generation script.scan ⟨{}, []⟩) first
        ([] ++ [.send (.progress generation {})]) :=
    scan_safe script.scan hSent
  apply WorkerSafe.bind hScan
  intro _ _ scanned hScanned
  cases scanned with
  | none =>
    intro _ hRely
    exact Ended.interfere hScanned hRely
  | some state => exact buildCatalog_safe script hScanned

variable {control : ControlState}
variable {history : List WorkerEffect}
variable {generation : Nat}

/- A worker that is still running may panic. -/
theorem panicReport_safe
    (hActive : Active generation control history) :
    WorkerSafe generation
      (fun control history _ =>
        Ended generation control history)
      (panicReport generation) control history := by
  intro later hLater
  have hStill := hActive.interfere hLater
  refine ⟨hStill, ?_⟩
  intro last hLast
  exact
    Ended.failed (hStill.interfere hLast)
      (soundProgress_of_none rfl)

----------
-- Sent Updates
----------

def UpdateLe (before after : CatalogUpdate) : Prop :=
  ProgressLe (updateProgress before) (updateProgress after)

/- What a terminal update says about its catalog. -/
structure TerminalUpdate
    (generation : Nat)
    (control : ControlState)
    (update : CatalogUpdate) : Prop where
  terminal : isTerminal update = true
  cancelled :
    ∀ progress,
      update = .cancelled generation progress →
        control = .cancelled
  complete :
    ∀ report progress,
      update = .complete generation report progress →
        report.committedGeneration = generation

/- The updates of a worker: reports, then at most one end. -/
structure SentInOrder
    (generation : Nat)
    (control : ControlState)
    (reports ending : List CatalogUpdate) : Prop where
  ordered : reports.Pairwise UpdateLe
  running : ∀ update ∈ reports, isTerminal update = false
  own :
    ∀ update ∈ reports ++ ending,
      Runtime.updateGeneration update = generation ∧
        SoundProgress (updateProgress update)
  ending :
    ending = [] ∨
      ∃ update,
        ending = [update] ∧
          TerminalUpdate generation control update

theorem Live.reports
    {progress : CatalogProgress}
    (hLive : Live generation history progress)
    {ending : List CatalogUpdate}
    (hOwn :
      ∀ update ∈ ending,
        Runtime.updateGeneration update = generation ∧
          SoundProgress (updateProgress update))
    (hEnding :
      ending = [] ∨
        ∃ update,
          ending = [update] ∧
            TerminalUpdate generation control update) :
    SentInOrder generation control (sentUpdates history)
      ending where
  ordered := by
    have hTrans : IsTrans CatalogProgress ProgressLe :=
      ⟨fun _ _ _ => ProgressLe.trans⟩
    have hChain := List.isChain_iff_pairwise.mp hLive.ordered
    have hReports := (List.pairwise_append.mp hChain).1
    rw [List.pairwise_map] at hReports
    exact hReports
  running := by
    intro update hUpdate
    exact (hLive.running update hUpdate).1
  own := by
    intro update hUpdate
    rcases List.mem_append.mp hUpdate with hOld | hNew
    · exact (hLive.running update hOld).2
    · exact hOwn update hNew
  ending := hEnding

theorem Active.sentInOrder
    (hActive : Active generation control history) :
    SentInOrder generation control (sentUpdates history)
      [] := by
  have hNone :
      ∀ update ∈ ([] : List CatalogUpdate),
        Runtime.updateGeneration update = generation ∧
          SoundProgress (updateProgress update) := by
    intro update hUpdate
    cases hUpdate
  cases hActive with
  | live hLive =>
    exact Live.reports hLive hNone (Or.inl rfl)
  | published hLive hPublishing =>
    rw [sentUpdates_append_publish]
    exact Live.reports hLive hNone (Or.inl rfl)

/- A worker that has ended has sent a terminal update. -/
theorem Ended.sentInOrder
    (hEnded : Ended generation control history) :
    ∃ reports update,
      sentUpdates history = reports ++ [update] ∧
        SentInOrder generation control reports [update] ∧
        isTerminal update = true := by
  have hOwn
      (update : CatalogUpdate)
      (hGeneration : Runtime.updateGeneration update = generation)
      (hSound : SoundProgress (updateProgress update)) :
      ∀ other ∈ [update],
        Runtime.updateGeneration other = generation ∧
          SoundProgress (updateProgress other) := by
    intro other hOther
    rw [List.mem_singleton.mp hOther]
    exact ⟨hGeneration, hSound⟩
  cases hEnded with
  | cancelled hLive hCancelled =>
    refine ⟨_, _, sentUpdates_append_send _ _, ?_, rfl⟩
    apply Live.reports hLive
      (hOwn (.cancelled generation _) rfl hLive.sound)
    refine Or.inr ⟨_, rfl, rfl, ?_, ?_⟩
    · intro _ _
      exact hCancelled
    · intro _ _ hEq
      cases hEq
  | failed hActive hSound =>
    have hOrder := hActive.sentInOrder
    refine ⟨_, _, sentUpdates_append_send _ _, ?_, rfl⟩
    refine
      ⟨hOrder.ordered, hOrder.running, ?_,
        Or.inr ⟨_, rfl, rfl, ?_, ?_⟩⟩
    · intro update hUpdate
      rcases List.mem_append.mp hUpdate with hOld | hNew
      · exact hOrder.own update (List.mem_append_left _ hOld)
      · exact
          hOwn (.failed generation _ _) rfl hSound update hNew
    · intro _ hEq
      cases hEq
    · intro _ _ hEq
      cases hEq
  | complete hLive hPublishing hReport =>
    refine ⟨_, _, sentUpdates_append_send _ _, ?_, rfl⟩
    rw [sentUpdates_append_publish]
    apply Live.reports hLive
      (hOwn (.complete generation _ _) rfl hLive.sound)
    refine Or.inr ⟨_, rfl, rfl, ?_, ?_⟩
    · intro _ hEq
      cases hEq
    · intro _ _ hEq
      cases hEq
      exact hReport

/- The next update that the request loop receives. -/
theorem next_update
    {reports ending : List CatalogUpdate}
    (hOrder : SentInOrder generation control reports ending)
    {received : Nat}
    {update : CatalogUpdate}
    (hUpdate : (reports ++ ending)[received]? = some update) :
    (isTerminal update = false ∧
        ∀ earlier ∈ (reports ++ ending).take received,
          UpdateLe earlier update) ∨
      TerminalUpdate generation control update := by
  by_cases hReport : received < reports.length
  · rw [List.getElem?_append_left hReport] at hUpdate
    have hMem := List.mem_of_getElem? hUpdate
    refine Or.inl ⟨hOrder.running update hMem, ?_⟩
    intro earlier hEarlier
    rw [List.take_append_of_le_length hReport.le] at hEarlier
    have hSplit := List.take_append_drop received reports
    have hOrdered := hOrder.ordered
    rw [← hSplit, List.pairwise_append] at hOrdered
    apply hOrdered.2.2 earlier hEarlier
    apply List.mem_of_getElem? (i := 0)
    rw [List.getElem?_drop, Nat.add_zero]
    exact hUpdate
  · apply Or.inr
    rw [List.getElem?_append_right (by omega)] at hUpdate
    rcases hOrder.ending with hNone | ⟨last, hLast, hEnds⟩
    · rw [hNone] at hUpdate
      cases hUpdate
    · rw [hLast] at hUpdate
      have hMem := List.mem_of_getElem? hUpdate
      rw [List.mem_singleton.mp hMem]
      exact hEnds

end Sidecar

end ArktsServer
