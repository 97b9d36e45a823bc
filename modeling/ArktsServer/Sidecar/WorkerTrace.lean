import ArktsServer.Sidecar.CatalogWorker
import Mathlib.Data.List.Chain

/-
  The histories that the catalog worker can leave, and the
  parts of the worker that watch the state byte: activation
  and the observer of a build.

  A report never goes back behind an earlier one, whatever
  the script and whenever the worker is cancelled.

  Key definitions include:
    * `controlRely`, `controlGuarantee`
    * `ProgressLe`, `SoundProgress`
    * `Live`, `Active`, `Ended`
    * `WorkerSafe`, `Tracks`

  Correctness is proven by:
    * `beginActivation_safe`
    * `observe_safe`, `emit_safe`
-/

----------
-- Interference
----------

namespace ArktsServer

namespace Sidecar

open SharedCell

/- What cancellation may do to the state byte. -/
def controlRely (before after : ControlState) : Prop :=
  after = before ∨
    (after = .cancelled ∧
      (before = .running ∨ before = .activating ∨
        before = .testActivationWaiting))

/- What the worker may do to the state byte. -/
def controlGuarantee (before after : ControlState) : Prop :=
  (before = .running ∧
      (after = .activating ∨
        after = .testActivationWaiting)) ∨
    (before = .testActivationWaiting ∧
      after = .activating) ∨
    (before = .activating ∧ after = .publishing)

theorem controlRely_refl (control : ControlState) :
    controlRely control control :=
  Or.inl rfl

theorem controlRely_trans
    (first second third : ControlState)
    (hLeft : controlRely first second)
    (hRight : controlRely second third) :
    controlRely first third := by
  rcases hLeft with rfl | ⟨rfl, hFirst⟩
  · exact hRight
  · rcases hRight with rfl | ⟨rfl, _⟩
    · exact Or.inr ⟨rfl, hFirst⟩
    · exact Or.inr ⟨rfl, hFirst⟩

/- Nobody cancels a worker that is publishing. -/
theorem controlRely_publishing
    {after : ControlState}
    (hRely : controlRely .publishing after) :
    after = .publishing := by
  rcases hRely with rfl | ⟨_, hBefore⟩
  · rfl
  · rcases hBefore with hBefore | hBefore | hBefore
    · cases hBefore
    · cases hBefore
    · cases hBefore

theorem controlRely_cancelled
    {after : ControlState}
    (hRely : controlRely .cancelled after) :
    after = .cancelled := by
  rcases hRely with rfl | ⟨rfl, _⟩
  · rfl
  · rfl

----------
-- Reported Progress
----------

def updateProgress : CatalogUpdate → CatalogProgress
| .progress _ progress => progress
| .activating _ progress => progress
| .complete _ _ progress => progress
| .cancelled _ progress => progress
| .failed _ progress _ => progress

/- The update ends the catalog. -/
def isTerminal : CatalogUpdate → Bool
| .progress _ _ => false
| .activating _ _ => false
| .complete _ _ _ => true
| .cancelled _ _ => true
| .failed _ _ _ => true

/- The storage part of a report does not go back. -/
structure StorageLe
    (before : CatalogProgress)
    (previous : CatalogBuildProgress)
    (after : CatalogProgress)
    (current : CatalogBuildProgress) : Prop where
  documents :
    previous.writtenDocuments ≤ current.writtenDocuments
  rows : previous.writtenRows ≤ current.writtenRows
  sequence :
    before.activitySequence < after.activitySequence ∨
      (before.activitySequence = after.activitySequence ∧
        previous.stage = current.stage ∧
        before.stageStarted = after.stageStarted)

/- No counter of a report goes back. -/
structure ProgressLe (before after : CatalogProgress) :
    Prop where
  discovered : before.discovered ≤ after.discovered
  indexed : before.indexed ≤ after.indexed
  rejected : before.rejected ≤ after.rejected
  policySkipped : before.policySkipped ≤ after.policySkipped
  ignored : before.ignored ≤ after.ignored
  totalFiles :
    ∀ total,
      before.totalFiles = some total →
        ∃ total',
          after.totalFiles = some total' ∧ total ≤ total'
  storage :
    ∀ previous,
      before.storage = some previous →
        ∃ current,
          after.storage = some current ∧
            StorageLe before previous after current

namespace ProgressLe

theorem refl (progress : CatalogProgress) :
    ProgressLe progress progress where
  discovered := Nat.le_refl _
  indexed := Nat.le_refl _
  rejected := Nat.le_refl _
  policySkipped := Nat.le_refl _
  ignored := Nat.le_refl _
  totalFiles total hTotal := ⟨total, hTotal, Nat.le_refl _⟩
  storage previous hStorage :=
    ⟨previous, hStorage, Nat.le_refl _, Nat.le_refl _,
      Or.inr ⟨rfl, rfl, rfl⟩⟩

theorem trans
    {first second third : CatalogProgress}
    (hLeft : ProgressLe first second)
    (hRight : ProgressLe second third) :
    ProgressLe first third where
  discovered := hLeft.discovered.trans hRight.discovered
  indexed := hLeft.indexed.trans hRight.indexed
  rejected := hLeft.rejected.trans hRight.rejected
  policySkipped := hLeft.policySkipped.trans hRight.policySkipped
  ignored := hLeft.ignored.trans hRight.ignored
  totalFiles := by
    intro total hTotal
    rcases hLeft.totalFiles total hTotal with
      ⟨middle, hMiddle, hLe⟩
    rcases hRight.totalFiles middle hMiddle with
      ⟨last, hLast, hLe'⟩
    exact ⟨last, hLast, hLe.trans hLe'⟩
  storage := by
    intro previous hStorage
    rcases hLeft.storage previous hStorage with
      ⟨middle, hMiddle, hFirst⟩
    rcases hRight.storage middle hMiddle with
      ⟨last, hLast, hSecond⟩
    refine
      ⟨last, hLast, hFirst.documents.trans hSecond.documents,
        hFirst.rows.trans hSecond.rows, ?_⟩
    rcases hFirst.sequence with hLt | ⟨hEq, hStage, hStarted⟩
    · rcases hSecond.sequence with hLt' | ⟨hEq', _, _⟩
      · exact Or.inl (hLt.trans hLt')
      · exact Or.inl (by omega)
    · rcases hSecond.sequence with
        hLt' | ⟨hEq', hStage', hStarted'⟩
      · exact Or.inl (by omega)
      · exact
          Or.inr
            ⟨hEq.trans hEq', hStage.trans hStage',
              hStarted.trans hStarted'⟩

end ProgressLe

/- A report never claims more files stored than parsed. -/
def SoundProgress (progress : CatalogProgress) : Prop :=
  ∀ storage,
    progress.storage = some storage →
      storage.writtenDocuments ≤ progress.indexed

----------
-- Histories
----------

/- The updates of a history. -/
def sentUpdates (history : List WorkerEffect) :
    List CatalogUpdate :=
  history.filterMap fun effect =>
    match effect with
    | .send update => some update
    | .publish => none

@[simp] theorem sentUpdates_append_send
    (history : List WorkerEffect)
    (update : CatalogUpdate) :
    sentUpdates (history ++ [.send update]) =
      sentUpdates history ++ [update] := by
  simp [sentUpdates]

@[simp] theorem sentUpdates_append_publish
    (history : List WorkerEffect) :
    sentUpdates (history ++ [.publish]) =
      sentUpdates history := by
  simp [sentUpdates]

/-
  A worker that has neither published nor ended.  Its
  reports are in order and the last one is not ahead of its
  progress.
-/
structure Live
    (generation : Nat)
    (history : List WorkerEffect)
    (progress : CatalogProgress) : Prop where
  unpublished : WorkerEffect.publish ∉ history
  running :
    ∀ update ∈ sentUpdates history,
      isTerminal update = false ∧
        Runtime.updateGeneration update = generation ∧
        SoundProgress (updateProgress update)
  ordered :
    ((sentUpdates history).map updateProgress ++
      [progress]).IsChain ProgressLe
  sound : SoundProgress progress

namespace Live

variable {generation : Nat}
variable {history : List WorkerEffect}
variable {progress progress' : CatalogProgress}

/- The progress moves on between two reports. -/
theorem advance
    (hLive : Live generation history progress)
    (hLe : ProgressLe progress progress')
    (hSound : SoundProgress progress') :
    Live generation history progress' where
  unpublished := hLive.unpublished
  running := hLive.running
  ordered := by
    have hOrdered := hLive.ordered
    rw [List.isChain_append] at hOrdered ⊢
    rcases hOrdered with ⟨hChain, _, hLast⟩
    refine ⟨hChain, List.isChain_singleton _, ?_⟩
    intro last hMem first hFirst
    have hStep := hLast last hMem progress rfl
    cases hFirst
    exact hStep.trans hLe
  sound := hSound

/- A report of the present progress. -/
theorem send
    (hLive : Live generation history progress)
    {update : CatalogUpdate}
    (hRunning : isTerminal update = false)
    (hGeneration :
      Runtime.updateGeneration update = generation)
    (hProgress : updateProgress update = progress) :
    Live generation (history ++ [.send update]) progress where
  unpublished := by
    intro hMem
    rcases List.mem_append.mp hMem with hOld | hNew
    · exact hLive.unpublished hOld
    · simp at hNew
  running := by
    intro other hOther
    rw [sentUpdates_append_send] at hOther
    rcases List.mem_append.mp hOther with hOld | hNew
    · exact hLive.running other hOld
    · rw [List.mem_singleton.mp hNew]
      refine ⟨hRunning, hGeneration, ?_⟩
      rw [hProgress]
      exact hLive.sound
  ordered := by
    rw [sentUpdates_append_send, List.map_append,
      List.map_singleton, hProgress, List.isChain_append]
    refine ⟨hLive.ordered, List.isChain_singleton _, ?_⟩
    intro last hMem first hFirst
    rw [List.getLast?_append] at hMem
    cases hMem
    cases hFirst
    exact ProgressLe.refl _
  sound := hLive.sound

end Live

/- The history of a worker that has not ended. -/
inductive Active
    (generation : Nat)
    (control : ControlState) : List WorkerEffect → Prop
| live
    {history : List WorkerEffect}
    {progress : CatalogProgress} :
    Live generation history progress →
      Active generation control history
| published
    {history : List WorkerEffect}
    {progress : CatalogProgress} :
    Live generation history progress →
      control = .publishing →
      Active generation control (history ++ [.publish])

/- The history of a worker that has ended. -/
inductive Ended
    (generation : Nat)
    (control : ControlState) : List WorkerEffect → Prop
| cancelled
    {history : List WorkerEffect}
    {progress : CatalogProgress} :
    Live generation history progress →
      control = .cancelled →
      Ended generation control
        (history ++ [.send (.cancelled generation progress)])
| failed
    {history : List WorkerEffect}
    {progress : CatalogProgress}
    {message : String} :
    Active generation control history →
      SoundProgress progress →
      Ended generation control
        (history ++
          [.send (.failed generation progress message)])
| complete
    {history : List WorkerEffect}
    {progress : CatalogProgress}
    {report : RefreshReport} :
    Live generation history progress →
      control = .publishing →
      report.committedGeneration = generation →
      Ended generation control
        (history ++ [.publish] ++
          [.send (.complete generation report progress)])

variable {history : List WorkerEffect}
variable {generation : Nat}

/- Cancellation leaves the history of a worker in order. -/
theorem Active.interfere
    {control control' : ControlState}
    (hActive : Active generation control history)
    (hRely : controlRely control control') :
    Active generation control' history := by
  cases hActive with
  | live hLive => exact Active.live hLive
  | published hLive hPublishing =>
    subst hPublishing
    exact Active.published hLive (controlRely_publishing hRely)

theorem Ended.interfere
    {control control' : ControlState}
    (hEnded : Ended generation control history)
    (hRely : controlRely control control') :
    Ended generation control' history := by
  cases hEnded with
  | cancelled hLive hCancelled =>
    subst hCancelled
    exact Ended.cancelled hLive (controlRely_cancelled hRely)
  | failed hActive hSound =>
    exact Ended.failed (hActive.interfere hRely) hSound
  | complete hLive hPublishing hReport =>
    subst hPublishing
    exact
      Ended.complete hLive (controlRely_publishing hRely) hReport

/- Safety of a part of the worker. -/
abbrev WorkerSafe
    {Value : Type}
    (generation : Nat)
    (Post : ControlState → List WorkerEffect → Value → Prop)
    (program : Action Value)
    (control : ControlState)
    (history : List WorkerEffect) : Prop :=
  Safe controlRely controlGuarantee (Active generation) Post
    program control history

theorem WorkerSafe.bind
    {Value Result : Type}
    {Middle :
      ControlState → List WorkerEffect → Value → Prop}
    {Post :
      ControlState → List WorkerEffect → Result → Prop}
    {program : Action Value}
    {after : Value → Action Result}
    {control : ControlState}
    (hSafe :
      WorkerSafe generation Middle program control history)
    (hAfter :
      ∀ control history value,
        Middle control history value →
          WorkerSafe generation Post (after value) control
            history) :
    WorkerSafe generation Post (program.bind after) control
      history :=
  Safe.bind controlRely_refl hSafe hAfter

----------
-- Activation
----------

section Parts

variable {generation : Nat}
variable {history : List WorkerEffect}
variable {progress : CatalogProgress}
variable {control : ControlState}

theorem waitForRelease_safe
    (released : Bool)
    (polls : Nat)
    (hLive : Live generation history progress) :
    WorkerSafe generation
      (fun _ history _ => Live generation history progress)
      (waitForRelease released polls) control history := by
  induction polls generalizing control with
  | zero =>
    intro state _
    refine ⟨Active.live hLive, ?_⟩
    dsimp only
    split
    · intro _ _
      exact hLive
    · split
      · intro _ _
        exact hLive
      · intro _ _
        exact hLive
  | succ polls ih =>
    intro state _
    refine ⟨Active.live hLive, ?_⟩
    dsimp only
    split
    · intro _ _
      exact hLive
    · exact ih

theorem afterRelease_safe
    (result : Except String Bool)
    (hLive : Live generation history progress) :
    WorkerSafe generation
      (fun _ history _ => Live generation history progress)
      (afterRelease result) control history := by
  rcases result with message | released
  · intro _ _
    exact hLive
  · cases released with
    | false =>
      intro _ _
      exact hLive
    | true =>
      refine ⟨Or.inr (Or.inl ⟨rfl, rfl⟩), ?_⟩
      intro state _
      refine ⟨Active.live hLive, ?_, ?_⟩
      · intro _ _ _
        exact hLive
      · intro _ _ _
        exact hLive

/- Activation reports the progress it was given. -/
theorem beginActivation_safe
    (gate : Except String (Option FileGate))
    (hLive : Live generation history progress) :
    WorkerSafe generation
      (fun _ history _ => Live generation history progress)
      (beginActivation generation progress gate) control
      history := by
  have hSent :
      Live generation
        (history ++ [.send (.activating generation progress)])
        progress :=
    hLive.send rfl rfl rfl
  rcases gate with message | _ | gate
  · intro _ _
    exact hLive
  · refine ⟨Or.inl ⟨rfl, Or.inl rfl⟩, ?_⟩
    intro state _
    refine ⟨Active.live hLive, ?_, ?_⟩
    · intro _ _ _
      refine ⟨Active.live hLive, ?_⟩
      intro _ _
      exact hSent
    · intro _ _ _
      exact hLive
  · refine ⟨Or.inl ⟨rfl, Or.inr rfl⟩, ?_⟩
    intro state _
    refine ⟨Active.live hLive, ?_, ?_⟩
    · intro _ _ _
      refine ⟨Active.live hLive, ?_⟩
      apply WorkerSafe.bind
        (waitForRelease_safe gate.released gate.polls hSent)
      intro _ _ result hResult
      exact afterRelease_safe result hResult
    · intro _ _ _
      exact hLive

----------
-- Observing a Build
----------

/-
  The build and its reports agree: the last report is not
  ahead of the storage counters, and these are not ahead of
  the parsed documents.
-/
structure Tracks
    (generation : Nat)
    (history : List WorkerEffect)
    (state : BuildState) : Prop where
  live : Live generation history state.progress
  documents :
    state.storage.writtenDocuments + state.pendingDocuments ≤
      state.progress.indexed
  stored :
    ∀ previous,
      state.progress.storage = some previous →
        previous.writtenDocuments ≤
            state.storage.writtenDocuments ∧
          previous.writtenRows ≤ state.storage.writtenRows

namespace Tracks

variable {state : BuildState}

theorem bump
    (hTracks : Tracks generation history state) :
    Tracks generation history state.bump := by
  refine ⟨?_, hTracks.documents, hTracks.stored⟩
  apply hTracks.live.advance
  · refine
      ⟨Nat.le_refl _, Nat.le_refl _, Nat.le_refl _,
        Nat.le_refl _, Nat.le_refl _, ?_, ?_⟩
    · intro total hTotal
      exact ⟨total, hTotal, Nat.le_refl _⟩
    · intro previous hPrevious
      exact
        ⟨previous, hPrevious, Nat.le_refl _, Nat.le_refl _,
          Or.inl (Nat.lt_succ_self _)⟩
  · exact hTracks.live.sound

theorem report
    (hTracks : Tracks generation history state)
    (now : Nat) :
    Tracks generation history (state.report now) := by
  refine ⟨?_, hTracks.documents, ?_⟩
  · apply hTracks.live.advance
    · refine
        ⟨Nat.le_refl _, Nat.le_refl _, Nat.le_refl _,
          Nat.le_refl _, Nat.le_refl _, ?_, ?_⟩
      · intro total hTotal
        exact ⟨total, hTotal, Nat.le_refl _⟩
      · intro previous hPrevious
        have hStored := hTracks.stored previous hPrevious
        exact
          ⟨state.storage, rfl, hStored.1, hStored.2,
            Or.inl (Nat.lt_succ_self _)⟩
    · intro storage hStorage
      cases hStorage
      have hDocuments := hTracks.documents
      simp only [BuildState.report]
      omega
  · intro previous hPrevious
    cases hPrevious
    exact ⟨Nat.le_refl _, Nat.le_refl _⟩

/- A report of the present progress. -/
theorem send
    (hTracks : Tracks generation history state)
    {update : CatalogUpdate}
    (hRunning : isTerminal update = false)
    (hGeneration :
      Runtime.updateGeneration update = generation)
    (hProgress : updateProgress update = state.progress) :
    Tracks generation (history ++ [.send update]) state :=
  ⟨hTracks.live.send hRunning hGeneration hProgress,
    hTracks.documents, hTracks.stored⟩

theorem enter
    (hTracks : Tracks generation history state)
    (stage : CatalogStage) :
    Tracks generation history (state.enter stage) :=
      { hTracks with }

theorem failure
    (hTracks : Tracks generation history state)
    (failure : Option String) :
    Tracks generation history { state with failure } :=
      { hTracks with }

theorem sourceChanged
    (hTracks : Tracks generation history state) :
    Tracks generation history
      { state with sourceChanged := true } :=
        { hTracks with }

end Tracks

/-
  What an observation leaves: a build in step with its
  reports that may publish only in the publishing state.
-/
def Observed
    (generation : Nat)
    (stage : CatalogStage)
    (control : ControlState)
    (history : List WorkerEffect)
    (result : Bool × BuildState) : Prop :=
  Tracks generation history result.2 ∧
    (result.1 = true →
      stage = .publishing → control = .publishing)

variable {state : BuildState}
variable {stage : CatalogStage}

theorem observed_refused
    (hTracks : Tracks generation history state) :
    Observed generation stage control history
      (false, state) := by
  refine ⟨hTracks, ?_⟩
  intro hTrue
  cases hTrue

theorem checkSources_safe
    (sources : List Bool)
    (hStage : state.storage.stage = stage)
    (hTracks : Tracks generation history state) :
    WorkerSafe generation
      (fun _ history result =>
        Tracks generation history result.2 ∧
          result.2.storage.stage = stage)
      (checkSources generation sources state) control
      history := by
  induction sources generalizing state control history with
  | nil =>
    intro _ _
    exact ⟨hTracks, hStage⟩
  | cons current rest ih =>
    intro loaded _
    refine ⟨Active.live hTracks.live, ?_⟩
    dsimp only
    split
    · intro _ _
      exact ⟨hTracks, hStage⟩
    · split
      · intro _ _
        exact ⟨hTracks.sourceChanged, hStage⟩
      · intro _ _
        refine ⟨Active.live hTracks.live, ?_⟩
        exact ih hStage (hTracks.bump.send rfl rfl rfl)

theorem claimPublishing_safe
    (hStage : state.storage.stage = stage)
    (hTracks : Tracks generation history state) :
    WorkerSafe generation (Observed generation stage)
      (claimPublishing state) control history := by
  simp only [claimPublishing]
  split
  · refine ⟨Or.inr (Or.inr ⟨rfl, rfl⟩), ?_⟩
    intro loaded _
    refine ⟨Active.live hTracks.live, ?_, ?_⟩
    · intro _ after hAfter
      refine ⟨hTracks, ?_⟩
      intro _ _
      exact controlRely_publishing hAfter
    · intro _ _ _
      exact observed_refused hTracks
  · rename_i hOther
    intro _ _
    refine ⟨hTracks, ?_⟩
    intro _ hPublishing
    exact absurd (hStage.trans hPublishing) hOther

theorem afterReport_safe
    (view : Observation)
    (hStage : state.storage.stage = stage)
    (hTracks : Tracks generation history state) :
    WorkerSafe generation (Observed generation stage)
      (afterReport generation view state) control
      history := by
  intro loaded _
  refine ⟨Active.live hTracks.live, ?_⟩
  dsimp only
  split
  · intro _ _
    exact observed_refused hTracks
  · split
    · apply WorkerSafe.bind
        (checkSources_safe view.sourcesCurrent hStage hTracks)
      rintro after later ⟨passed, checked⟩ ⟨hLater, hSame⟩
      cases passed with
      | false =>
        intro _ _
        exact observed_refused hLater
      | true => exact claimPublishing_safe hSame hLater
    · exact claimPublishing_safe hStage hTracks

theorem reportUpdate_running
    (generation : Nat)
    (control : ControlState)
    (progress : CatalogProgress) :
    isTerminal (reportUpdate generation control progress) =
        false ∧
      Runtime.updateGeneration
          (reportUpdate generation control progress) =
        generation ∧
      updateProgress
          (reportUpdate generation control progress) =
        progress := by
  simp only [reportUpdate]
  split
  · exact ⟨rfl, rfl, rfl⟩
  · exact ⟨rfl, rfl, rfl⟩

theorem observe_safe
    (view : Observation)
    (hStage : state.storage.stage = stage)
    (hTracks : Tracks generation history state) :
    WorkerSafe generation (Observed generation stage)
      (observe generation view state) control history := by
  intro loaded _
  refine ⟨Active.live hTracks.live, ?_⟩
  dsimp only
  split
  · intro _ _
    exact observed_refused hTracks
  · split
    · rename_i hWriting
      intro _ _
      refine ⟨hTracks, ?_⟩
      intro _ hPublishing
      rw [hStage, hPublishing] at hWriting
      cases hWriting.1
    · intro again _
      refine ⟨Active.live hTracks.live, ?_⟩
      intro _ _
      refine ⟨Active.live hTracks.live, ?_⟩
      rcases reportUpdate_running generation again
          (state.report view.now).progress with
        ⟨hRunning, hGeneration, hProgress⟩
      have hReported :=
        (hTracks.report view.now).send hRunning hGeneration
          hProgress
      have hSame :
          (state.report view.now).storage.stage = stage :=
        hStage
      exact afterReport_safe view hSame hReported

/- What entering a stage leaves. -/
def Entered
    (generation : Nat)
    (stage : CatalogStage)
    (control : ControlState)
    (history : List WorkerEffect)
    (state : BuildState) : Prop :=
  Tracks generation history state ∧
    (state.failure = none →
      stage = .publishing → control = .publishing)

theorem emit_safe
    (stage : CatalogStage)
    (view : Observation)
    (hTracks : Tracks generation history state) :
    WorkerSafe generation (Entered generation stage)
      (emit generation stage view state) control history := by
  have hStage : (state.enter stage).storage.stage = stage := rfl
  apply WorkerSafe.bind
    (observe_safe view hStage (hTracks.enter stage))
  rintro loaded later ⟨passed, result⟩ ⟨hLater, hPublishing⟩
  intro after hAfter
  cases passed with
  | false =>
    refine ⟨hLater.failure _, ?_⟩
    intro hNone
    cases hNone
  | true =>
    refine ⟨hLater, ?_⟩
    intro _ hEntered
    have hNow := hPublishing rfl hEntered
    rw [hNow] at hAfter
    exact controlRely_publishing hAfter

end Parts

end Sidecar

end ArktsServer
