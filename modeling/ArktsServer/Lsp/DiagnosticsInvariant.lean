import ArktsServer.Lsp.DocumentDiagnostics

/-
  Who is responsible for the diagnostics of a document, and
  why cancelling, updating and moving on keep it so.

  Key definitions include:
    * `Lsp.Frame`, `Lsp.Narrows`
    * `Lsp.Sound`, `Lsp.CoveredBut`, `Lsp.Armed`
    * `Lsp.DiagnosticsInv`

  Correctness is proven by:
    * `Lsp.update_coveredBut`, `Lsp.finish_coveredBut`
-/

namespace ArktsServer

namespace Lsp

open DocumentDiagnostics

----------
-- Frames
----------

/- What the work on single diagnoses leaves alone. -/
structure Frame (before after : DocumentDiagnostics) : Prop where
  documents : after.documents = before.documents
  workspaceEpochs :
    after.workspaceEpochs = before.workspaceEpochs
  dirtyWorkspaces :
    after.dirtyWorkspaces = before.dirtyWorkspaces
  refreshTimer : after.refreshTimer = before.refreshTimer
  suspensionCount :
    after.suspensionCount = before.suspensionCount
  suspensions : after.suspensions = before.suspensions
  disposed : after.disposed = before.disposed

theorem Frame.refl (state : DocumentDiagnostics) :
    Frame state state :=
  ⟨rfl, rfl, rfl, rfl, rfl, rfl, rfl⟩

theorem Frame.trans
    {first second third : DocumentDiagnostics}
    (hFirst : Frame first second)
    (hSecond : Frame second third) :
    Frame first third :=
  ⟨hSecond.documents.trans hFirst.documents,
    hSecond.workspaceEpochs.trans hFirst.workspaceEpochs,
    hSecond.dirtyWorkspaces.trans hFirst.dirtyWorkspaces,
    hSecond.refreshTimer.trans hFirst.refreshTimer,
    hSecond.suspensionCount.trans hFirst.suspensionCount,
    hSecond.suspensions.trans hFirst.suspensions,
    hSecond.disposed.trans hFirst.disposed⟩

theorem Frame.epoch
    {before after : DocumentDiagnostics}
    (hFrame : Frame before after)
    (workspaceId : String) :
    after.epoch workspaceId = before.epoch workspaceId := by
  unfold DocumentDiagnostics.epoch
  rw [hFrame.workspaceEpochs]

variable {Item : Type}
variable {step : DocumentDiagnostics → Item → DocumentDiagnostics}

theorem foldl_frame
    (hStep : ∀ state item, Frame state (step state item))
    (items : List Item)
    (state : DocumentDiagnostics) :
    Frame state (items.foldl step state) := by
  induction items generalizing state with
  | nil => exact Frame.refl state
  | cons item items ih =>
    exact (hStep state item).trans (ih (step state item))

theorem cancel_frame
    (state : DocumentDiagnostics)
    (uri : String) :
    Frame state (state.cancel uri) := by
  unfold cancel
  split
  · exact Frame.refl state
  · exact ⟨rfl, rfl, rfl, rfl, rfl, rfl, rfl⟩

theorem finish_frame
    (state : DocumentDiagnostics)
    (id : Nat)
    (diagnosis : Diagnosis) :
    Frame state (state.finish id diagnosis) :=
  ⟨rfl, rfl, rfl, rfl, rfl, rfl, rfl⟩

section Workspaces

variable (workspaceOf : String → String)

theorem update_frame
    (state : DocumentDiagnostics)
    (document : TextDocument) :
    Frame state (state.update workspaceOf document) := by
  have hAwait :
      Frame state (state.await workspaceOf document) :=
    ⟨rfl, rfl, rfl, rfl, rfl, rfl, rfl⟩
  have hCancel := hAwait.trans (cancel_frame _ document.uri)
  unfold update
  simp only
  split
  · exact hCancel
  · split
    · exact hCancel.trans ⟨rfl, rfl, rfl, rfl, rfl, rfl, rfl⟩
    · exact hCancel.trans ⟨rfl, rfl, rfl, rfl, rfl, rfl, rfl⟩

----------
-- Soundness
----------

/-
  A pending diagnosis belongs to its document.  It has not
  been aborted, and if its workspace was refreshed since,
  the epoch tells.
-/
structure Pends
    (state : DocumentDiagnostics)
    (uri : String)
    (diagnosis : Diagnosis) : Prop where
  document :
    diagnosis.document.uri = uri ∧
      diagnosis.document.workspaceId = workspaceOf uri
  unaborted : diagnosis.aborted = false
  epoch_le : diagnosis.epoch ≤ state.epoch (workspaceOf uri)
  epoch_lt :
    diagnosis.refreshed = true →
      diagnosis.epoch < state.epoch (workspaceOf uri)

/- The suspensions that have not been released. -/
def activeSuspensions (suspensions : List Suspension) : Nat :=
  suspensions.countP fun suspension => !suspension.released

structure Sound (state : DocumentDiagnostics) : Prop where
  pends :
    ∀ uri id,
      state.pending.get uri = some id →
        ∃ diagnosis,
          state.diagnoses[id]? = some diagnosis ∧
            Pends workspaceOf state uri diagnosis
  stopped :
    state.disposed = true → ∀ uri, state.pending.get uri = none
  fresh :
    ∀ document openVersion refreshed,
      .diagnostics document openVersion refreshed
          ∈ state.outputs →
        openVersion = some document.version ∧
          refreshed = false
  count :
    state.suspensionCount =
      activeSuspensions state.suspensions
  deferred :
    state.disposed = false →
      state.suspensionCount = 0 → state.deferredUris = []

/-
  An open document waits for the diagnostics of its version
  in the epoch of its workspace.
-/
def Waits
    (state : DocumentDiagnostics)
    (uri : String)
    (version : Int) : Prop :=
  state.documents.get uri = some version ∧
    ⟨uri, version, state.epoch (workspaceOf uri)⟩
      ∈ state.awaited

/- A diagnosis that has yet to be answered. -/
structure Answers
    (state : DocumentDiagnostics)
    (uri : String)
    (version : Int)
    (diagnosis : Diagnosis) : Prop where
  ofVersion : diagnosis.document.version = version
  ofEpoch : diagnosis.epoch = state.epoch (workspaceOf uri)
  unanswered :
    diagnosis.phase = .scheduled ∨
      diagnosis.phase = .diagnosing

/- Who is responsible for the diagnostics of a document. -/
inductive Covered
    (state : DocumentDiagnostics)
    (uri : String)
    (version : Int) : Prop
| pending
    (id : Nat)
    (diagnosis : Diagnosis)
    (hPending : state.pending.get uri = some id)
    (hDiagnosis : state.diagnoses[id]? = some diagnosis)
    (hAnswers :
      Answers workspaceOf state uri version diagnosis)
| deferred (hDeferred : uri ∈ state.deferredUris)
| dirty
    (hDirty :
      (state.dirtyWorkspaces.get (workspaceOf uri)).isSome
        = true)

/- No waiting document is forgotten, but for the exempt. -/
def CoveredBut
    (Exempt : String → Prop)
    (state : DocumentDiagnostics) : Prop :=
  ∀ uri version,
    Waits workspaceOf state uri version →
    ¬ Exempt uri →
    Covered workspaceOf state uri version

/- A dirty workspace is refreshed after the suspensions. -/
def Armed (state : DocumentDiagnostics) : Prop :=
  state.disposed = false →
    state.dirtyWorkspaces.entries ≠ [] →
      state.refreshTimer.isSome = true ∨
        0 < state.suspensionCount

structure DiagnosticsInv
    (state : DocumentDiagnostics) : Prop where
  sound : Sound workspaceOf state
  covered :
    state.disposed = false →
      CoveredBut workspaceOf (fun _ => False) state
  armed : Armed state

variable {workspaceOf : String → String}

variable {state : DocumentDiagnostics}
variable {id : Nat}

theorem Sound.pends_at
    {uri : String}
    {diagnosis : Diagnosis}
    (hSound : Sound workspaceOf state)
    (hPending : state.pending.get uri = some id)
    (hDiagnosis : state.diagnoses[id]? = some diagnosis) :
    Pends workspaceOf state uri diagnosis := by
  rcases hSound.pends uri id hPending with
    ⟨pended, hPended, hPends⟩
  rw [hDiagnosis] at hPended
  exact Option.some.inj hPended ▸ hPends

/- Two documents do not share a pending diagnosis. -/
theorem Sound.pending_inj
    (hSound : Sound workspaceOf state)
    {left right : String}
    (hLeft : state.pending.get left = some id)
    (hRight : state.pending.get right = some id) :
    left = right := by
  rcases hSound.pends left id hLeft with
    ⟨first, hFirst, hFirstPends⟩
  have hSecondPends := hSound.pends_at hRight hFirst
  rw [← hFirstPends.document.1, hSecondPends.document.1]

/-
  A change that only drops pending diagnoses, and moves on
  those that stay.
-/
structure Narrows
    (before after : DocumentDiagnostics) : Prop where
  frame : Frame before after
  pending :
    ∀ uri id,
      after.pending.get uri = some id →
        before.pending.get uri = some id
  kept :
    ∀ uri id diagnosis,
      after.pending.get uri = some id →
      before.diagnoses[id]? = some diagnosis →
        ∃ moved,
          after.diagnoses[id]? = some moved ∧
            moved.document = diagnosis.document ∧
            moved.epoch = diagnosis.epoch ∧
            moved.aborted = diagnosis.aborted ∧
            moved.refreshed = diagnosis.refreshed
  deferredUris : after.deferredUris = before.deferredUris
  outputs :
    ∀ document openVersion refreshed,
      .diagnostics document openVersion refreshed
          ∈ after.outputs →
        .diagnostics document openVersion refreshed
          ∈ before.outputs

variable {before after : DocumentDiagnostics}
variable {uri : String}

theorem Pends.moved
    {diagnosis moved : Diagnosis}
    (hPends : Pends workspaceOf before uri diagnosis)
    (hEpoch :
      ∀ workspaceId,
        after.epoch workspaceId = before.epoch workspaceId)
    (hMoved :
      moved.document = diagnosis.document ∧
        moved.epoch = diagnosis.epoch ∧
        moved.aborted = diagnosis.aborted ∧
        moved.refreshed = diagnosis.refreshed) :
    Pends workspaceOf after uri moved := by
  rcases hMoved with ⟨hDocument, hOwn, hAborted, hRefreshed⟩
  refine ⟨?_, ?_, ?_, ?_⟩
  · rw [hDocument]
    exact hPends.document
  · rw [hAborted]
    exact hPends.unaborted
  · rw [hOwn, hEpoch]
    exact hPends.epoch_le
  · rw [hOwn, hEpoch, hRefreshed]
    exact hPends.epoch_lt

/- What pends is told by three fields of the state. -/
theorem Sound.pends_of_same
    (hSound : Sound workspaceOf before)
    (hPending : after.pending = before.pending)
    (hDiagnoses : after.diagnoses = before.diagnoses)
    (hEpoch :
      ∀ workspaceId,
        after.epoch workspaceId = before.epoch workspaceId)
    (uri : String)
    (id : Nat)
    (hOwn : after.pending.get uri = some id) :
    ∃ diagnosis,
      after.diagnoses[id]? = some diagnosis ∧
        Pends workspaceOf after uri diagnosis := by
  rw [hPending] at hOwn
  rcases hSound.pends uri id hOwn with
    ⟨diagnosis, hDiagnosis, hPends⟩
  rw [hDiagnoses]
  exact
    ⟨diagnosis, hDiagnosis,
      hPends.moved hEpoch ⟨rfl, rfl, rfl, rfl⟩⟩

theorem Narrows.sound
    (hNarrows : Narrows before after)
    (hSound : Sound workspaceOf before) :
    Sound workspaceOf after := by
  have hFrame := hNarrows.frame
  refine ⟨?_, ?_, ?_, ?_, ?_⟩
  · intro uri id hPending
    rcases hSound.pends uri id
        (hNarrows.pending uri id hPending) with
      ⟨diagnosis, hDiagnosis, hPends⟩
    rcases hNarrows.kept uri id diagnosis hPending
        hDiagnosis with
      ⟨moved, hMoved, hSame⟩
    exact ⟨moved, hMoved, hPends.moved hFrame.epoch hSame⟩
  · intro hDisposed uri
    rw [hFrame.disposed] at hDisposed
    cases hPending : after.pending.get uri with
    | none => rfl
    | some id =>
      have hBefore := hNarrows.pending uri id hPending
      rw [hSound.stopped hDisposed uri] at hBefore
      cases hBefore
  · intro document openVersion refreshed hOutput
    exact
      hSound.fresh document openVersion refreshed
        (hNarrows.outputs _ _ _ hOutput)
  · rw [hFrame.suspensionCount, hFrame.suspensions]
    exact hSound.count
  · intro hDisposed hCount
    rw [hFrame.disposed] at hDisposed
    rw [hFrame.suspensionCount] at hCount
    rw [hNarrows.deferredUris]
    exact hSound.deferred hDisposed hCount

/- Who is responsible for a document stays so. -/
theorem Covered.kept
    {version : Int}
    (hCovered : Covered workspaceOf before uri version)
    (hEpoch :
      ∀ workspaceId,
        after.epoch workspaceId = before.epoch workspaceId)
    (hPending :
      ∀ id diagnosis,
        before.pending.get uri = some id →
        before.diagnoses[id]? = some diagnosis →
          after.pending.get uri = some id ∧
            after.diagnoses[id]? = some diagnosis)
    (hDeferred :
      uri ∈ before.deferredUris → uri ∈ after.deferredUris)
    (hDirty :
      (before.dirtyWorkspaces.get (workspaceOf uri)).isSome
          = true →
        (after.dirtyWorkspaces.get (workspaceOf uri)).isSome
          = true) :
    Covered workspaceOf after uri version := by
  cases hCovered with
  | pending id diagnosis hGet hDiagnosis hAnswers =>
    rcases hPending id diagnosis hGet hDiagnosis with
      ⟨hNewGet, hNewDiagnosis⟩
    exact
      .pending id diagnosis hNewGet hNewDiagnosis
        ⟨hAnswers.ofVersion,
          hAnswers.ofEpoch.trans (hEpoch _).symm,
          hAnswers.unanswered⟩
  | deferred hOld => exact .deferred (hDeferred hOld)
  | dirty hOld => exact .dirty (hDirty hOld)

/- Coverage reads a part of the state only. -/
theorem CoveredBut.same
    {Exempt : String → Prop}
    (hCovered : CoveredBut workspaceOf Exempt before)
    (hDocuments : after.documents = before.documents)
    (hEpochs : after.workspaceEpochs = before.workspaceEpochs)
    (hDirty : after.dirtyWorkspaces = before.dirtyWorkspaces)
    (hDiagnoses : after.diagnoses = before.diagnoses)
    (hPending : after.pending = before.pending)
    (hDeferred : after.deferredUris = before.deferredUris)
    (hAwaited : after.awaited = before.awaited) :
    CoveredBut workspaceOf Exempt after := by
  have hEpoch :
      ∀ workspaceId,
        after.epoch workspaceId = before.epoch workspaceId := by
    intro workspaceId
    unfold DocumentDiagnostics.epoch
    rw [hEpochs]
  intro uri version hWaits hNot
  unfold Waits at hWaits
  rw [hDocuments, hEpoch, hAwaited] at hWaits
  refine (hCovered uri version hWaits hNot).kept hEpoch ?_ ?_ ?_
  · intro id diagnosis hGet hDiagnosis
    rw [hPending, hDiagnoses]
    exact ⟨hGet, hDiagnosis⟩
  · rw [hDeferred]
    exact fun hOld => hOld
  · rw [hDirty]
    exact fun hOld => hOld

/-
  Documents stay covered when nobody new waits, nobody is
  dropped from the deferred ones, and what pended is covered.
-/
theorem CoveredBut.transfer
    {Exempt Exempt' : String → Prop}
    (hCovered : CoveredBut workspaceOf Exempt before)
    (hFrame : Frame before after)
    (hExempt : ∀ uri, Exempt uri → Exempt' uri)
    (hWaits :
      ∀ uri version,
        ¬ Exempt' uri →
        Waits workspaceOf after uri version →
        Waits workspaceOf before uri version)
    (hDeferred :
      ∀ uri ∈ before.deferredUris, uri ∈ after.deferredUris)
    (hPending :
      ∀ uri version id diagnosis,
        ¬ Exempt' uri →
        Waits workspaceOf after uri version →
        before.pending.get uri = some id →
        before.diagnoses[id]? = some diagnosis →
        Answers workspaceOf before uri version diagnosis →
        Covered workspaceOf after uri version) :
    CoveredBut workspaceOf Exempt' after := by
  intro uri version hAfter hNot
  cases hCovered uri version (hWaits uri version hNot hAfter)
      (fun hOld => hNot (hExempt uri hOld)) with
  | pending id diagnosis hGet hDiagnosis hAnswers =>
    exact
      hPending uri version id diagnosis hNot hAfter hGet
        hDiagnosis hAnswers
  | deferred hOld => exact .deferred (hDeferred uri hOld)
  | dirty hOld =>
    refine .dirty ?_
    rw [hFrame.dirtyWorkspaces]
    exact hOld

variable {diagnosis : Diagnosis}
variable {version : Int}

theorem Answers.of_epoch
    (hFrame : Frame before after)
    (hAnswers :
      Answers workspaceOf before uri version diagnosis) :
    Answers workspaceOf after uri version diagnosis :=
  ⟨hAnswers.ofVersion,
    hAnswers.ofEpoch.trans (hFrame.epoch _).symm,
    hAnswers.unanswered⟩

----------
-- Cancelling
----------

theorem get_pending_cancel
    (state : DocumentDiagnostics)
    (uri other : String) :
    (state.cancel uri).pending.get other =
      if other = uri then none else state.pending.get other := by
  unfold cancel
  split
  · rename_i hNone
    split
    · rename_i hSame
      rw [hSame, hNone]
    · rfl
  · exact OrderedMap.get_delete _ _ _

/- Only the pending diagnosis of the document is aborted. -/
theorem getElem?_cancel
    (hOther : state.pending.get uri ≠ some id) :
    (state.cancel uri).diagnoses[id]? = state.diagnoses[id]? := by
  unfold cancel
  split
  · rfl
  · rename_i pendingId hPending
    have hNe : pendingId ≠ id := by
      rintro rfl
      exact hOther hPending
    rw [List.getElem?_modify_ne _ _ hNe]

theorem cancel_narrows
    (hSound : Sound workspaceOf state)
    (uri : String) :
    Narrows state (state.cancel uri) := by
  refine ⟨cancel_frame state uri, ?_, ?_, ?_, ?_⟩
  · intro other id hPending
    rw [get_pending_cancel] at hPending
    split at hPending
    · cases hPending
    · exact hPending
  · intro other id diagnosis hPending hDiagnosis
    rw [get_pending_cancel] at hPending
    split at hPending
    · cases hPending
    · rename_i hNe
      refine ⟨diagnosis, ?_, rfl, rfl, rfl, rfl⟩
      rw [getElem?_cancel, hDiagnosis]
      intro hShared
      exact hNe (hSound.pending_inj hPending hShared)
  · unfold cancel
    split
    · rfl
    · rfl
  · unfold cancel
    split
    · exact fun _ _ _ hOutput => hOutput
    · exact fun _ _ _ hOutput => hOutput

variable {Exempt : String → Prop}

theorem cancel_coveredBut
    (hSound : Sound workspaceOf state)
    (hCovered : CoveredBut workspaceOf Exempt state)
    (uri : String) :
    CoveredBut workspaceOf
      (fun other => Exempt other ∨ other = uri)
      (state.cancel uri) := by
  have hFrame := cancel_frame state uri
  have hAwaited :
      (state.cancel uri).awaited = state.awaited := by
    unfold cancel
    split
    · rfl
    · rfl
  refine hCovered.transfer hFrame (fun _ => Or.inl) ?_ ?_ ?_
  · intro other version _ hWaits
    unfold Waits at hWaits
    rw [hFrame.documents, hFrame.epoch, hAwaited] at hWaits
    exact hWaits
  · intro other hOther
    rw [(cancel_narrows hSound uri).deferredUris]
    exact hOther
  · intro other version id diagnosis hNot _ hPending
      hDiagnosis hAnswers
    have hNe : other ≠ uri := fun hSame => hNot (.inr hSame)
    refine .pending id diagnosis ?_ ?_ (hAnswers.of_epoch hFrame)
    · rw [get_pending_cancel, if_neg hNe]
      exact hPending
    · rw [getElem?_cancel, hDiagnosis]
      intro hShared
      exact hNe (hSound.pending_inj hPending hShared)

----------
-- Updating
----------

/- The diagnoses stay, and so do those that pend. -/
theorem narrows_same
    (hFrame : Frame before after)
    (hPending : after.pending = before.pending)
    (hDiagnoses : after.diagnoses = before.diagnoses)
    (hDeferred : after.deferredUris = before.deferredUris)
    (hOutputs :
      ∀ document openVersion refreshed,
        .diagnostics document openVersion refreshed
            ∈ after.outputs →
          .diagnostics document openVersion refreshed
            ∈ before.outputs) :
    Narrows before after where
  frame := hFrame
  pending _ _ hGet := hPending ▸ hGet
  kept _ _ diagnosis _ hDiagnosis :=
    ⟨diagnosis, hDiagnoses ▸ hDiagnosis, rfl, rfl, rfl, rfl⟩
  deferredUris := hDeferred
  outputs := hOutputs

theorem await_narrows
    (workspaceOf : String → String)
    (state : DocumentDiagnostics)
    (document : TextDocument) :
    Narrows state (state.await workspaceOf document) :=
  narrows_same ⟨rfl, rfl, rfl, rfl, rfl, rfl, rfl⟩ rfl rfl rfl
    fun _ _ _ hOutput => hOutput

variable {document : TextDocument}

theorem await_coveredBut
    (hCovered :
      CoveredBut workspaceOf
        (fun other => Exempt other ∨ other = document.uri)
        state) :
    CoveredBut workspaceOf
      (fun other => Exempt other ∨ other = document.uri)
      (state.await workspaceOf document) := by
  refine
    hCovered.transfer
      (await_narrows workspaceOf state document).frame
      (fun _ hOld => hOld) ?_ (fun _ hOld => hOld) ?_
  · rintro other version hNot ⟨hOpen, hAwaited⟩
    refine ⟨hOpen, ?_⟩
    rcases List.mem_append.mp hAwaited with hOld | hNew
    · exact hOld
    · have hSame :=
        congrArg Inspection.uri (List.mem_singleton.mp hNew)
      exact absurd (Or.inr hSame) hNot
  · intro other version id diagnosis _ _ hPending hDiagnosis
      hAnswers
    exact
      .pending id diagnosis hPending hDiagnosis
        { hAnswers with }

theorem defer_sound
    (hSound : Sound workspaceOf state)
    (hSuspended : 0 < state.suspensionCount)
    (uri : String) :
    Sound workspaceOf (state.defer uri) :=
  { hSound with
    pends other id hPending := by
      rcases hSound.pends other id hPending with
        ⟨diagnosis, hDiagnosis, hPends⟩
      exact
        ⟨diagnosis, hDiagnosis,
          hPends.moved (fun _ => rfl) ⟨rfl, rfl, rfl, rfl⟩⟩
    deferred _ hCount :=
      absurd (hCount ▸ hSuspended) (Nat.lt_irrefl 0) }

theorem mem_defer
    (state : DocumentDiagnostics)
    (uri other : String) :
    other ∈ (state.defer uri).deferredUris ↔
      other ∈ state.deferredUris ∨ other = uri := by
  unfold defer
  by_cases hMem : uri ∈ state.deferredUris
  · rw [if_pos hMem]
    constructor
    · exact Or.inl
    · rintro (hOld | rfl)
      · exact hOld
      · exact hMem
  · rw [if_neg hMem, List.mem_append, List.mem_singleton]

/- A deferred document is covered. -/
theorem defer_coveredBut
    (hCovered :
      CoveredBut workspaceOf
        (fun other => Exempt other ∨ other = uri)
        state) :
    CoveredBut workspaceOf Exempt (state.defer uri) := by
  intro other version hWaits hNot
  have hMember := mem_defer state uri other
  by_cases hSame : other = uri
  · exact .deferred (hMember.mpr (.inr hSame))
  · exact
      (hCovered other version hWaits
          fun hOld => hOld.elim hNot hSame).kept
        (fun _ => rfl)
        (fun _ _ hPending hDiagnosis => ⟨hPending, hDiagnosis⟩)
        (fun hDeferred => hMember.mpr (.inl hDeferred))
        (fun hDirty => hDirty)

theorem getElem?_schedule
    (hDiagnosis : state.diagnoses[id]? = some diagnosis) :
    (state.schedule workspaceOf document).diagnoses[id]?
      = some diagnosis := by
  unfold schedule
  simp only
  rcases List.getElem?_eq_some_iff.mp hDiagnosis with
    ⟨hLt, _⟩
  rw [List.getElem?_append_left hLt]
  exact hDiagnosis

theorem schedule_sound
    (hSound : Sound workspaceOf state)
    (hRunning : state.disposed = false)
    (document : TextDocument) :
    Sound workspaceOf
      (state.schedule workspaceOf document) where
  pends other id hPending := by
    unfold schedule at hPending
    simp only [OrderedMap.get_set] at hPending
    by_cases hSame : other = document.uri
    · rw [if_pos hSame, Option.some.injEq] at hPending
      subst hPending hSame
      refine ⟨_, List.getElem?_concat_length, ?_⟩
      refine ⟨⟨rfl, rfl⟩, rfl, Nat.le_refl _, ?_⟩
      intro hRefreshed
      cases hRefreshed
    · rw [if_neg hSame] at hPending
      rcases hSound.pends other id hPending with
        ⟨diagnosis, hDiagnosis, hPends⟩
      exact
        ⟨diagnosis, getElem?_schedule hDiagnosis,
          hPends.moved (fun _ => rfl) ⟨rfl, rfl, rfl, rfl⟩⟩
  stopped hDisposed := by
    have hStopped : state.disposed = true := hDisposed
    rw [hRunning] at hStopped
    cases hStopped
  fresh := hSound.fresh
  count := hSound.count
  deferred := hSound.deferred

/- A document with a new diagnosis is covered. -/
theorem schedule_coveredBut
    (hOpen :
      state.documents.get document.uri =
        some document.version)
    (hCovered :
      CoveredBut workspaceOf
        (fun other => Exempt other ∨ other = document.uri)
        state) :
    CoveredBut workspaceOf Exempt
      (state.schedule workspaceOf document) := by
  intro other version hWaits hNot
  by_cases hSame : other = document.uri
  · subst hSame
    have hVersion : document.version = version := by
      have hCurrent :
          state.documents.get document.uri = some version :=
        hWaits.1
      rw [hOpen] at hCurrent
      exact Option.some.inj hCurrent
    refine
      .pending state.diagnoses.length _ ?_
        List.getElem?_concat_length ⟨hVersion, rfl, .inl rfl⟩
    unfold schedule
    simp only [OrderedMap.get_set, if_true]
  · refine
      (hCovered other version hWaits
          fun hOld => hOld.elim hNot hSame).kept
        (fun _ => rfl) ?_ (fun hDeferred => hDeferred)
        (fun hDirty => hDirty)
    intro id diagnosis hPending hDiagnosis
    refine ⟨?_, getElem?_schedule hDiagnosis⟩
    unfold schedule
    simp only [OrderedMap.get_set, if_neg hSame]
    exact hPending

theorem update_sound
    (hSound : Sound workspaceOf state)
    (document : TextDocument) :
    Sound workspaceOf (state.update workspaceOf document) := by
  have hAwait :=
    (await_narrows workspaceOf state document).sound hSound
  have hCancel :=
    (cancel_narrows hAwait document.uri).sound hAwait
  unfold update
  simp only
  split
  · exact hCancel
  · rename_i hRunning
    split
    · rename_i hSuspended
      exact defer_sound hCancel hSuspended document.uri
    · exact
        schedule_sound hCancel
          (Bool.eq_false_iff.mpr hRunning) document

/- The document of an update is covered, whoever was. -/
theorem update_coveredBut
    (hSound : Sound workspaceOf state)
    (hRunning : state.disposed = false)
    (hOpen :
      state.documents.get document.uri =
        some document.version)
    (hCovered :
      CoveredBut workspaceOf
        (fun other => Exempt other ∨ other = document.uri)
        state) :
    CoveredBut workspaceOf Exempt
      (state.update workspaceOf document) := by
  have hAwait := await_narrows workspaceOf state document
  have hCancel :
      CoveredBut workspaceOf
        (fun other => Exempt other ∨ other = document.uri)
        ((state.await workspaceOf document).cancel
          document.uri) := by
    intro other version hWaits hNot
    refine
      cancel_coveredBut (hAwait.sound hSound)
        (await_coveredBut hCovered) document.uri other
        version hWaits ?_
    rintro (hOld | hSame)
    · exact hNot hOld
    · exact hNot (.inr hSame)
  have hFrame :=
    hAwait.frame.trans
      (cancel_frame (state.await workspaceOf document)
        document.uri)
  unfold update
  simp only
  rw [hFrame.disposed, hRunning]
  simp only [Bool.false_eq_true, if_false]
  split
  · exact defer_coveredBut hCancel
  · refine schedule_coveredBut ?_ hCancel
    rw [hFrame.documents]
    exact hOpen

theorem length_cancel
    (state : DocumentDiagnostics)
    (uri : String) :
    (state.cancel uri).diagnoses.length =
      state.diagnoses.length := by
  unfold cancel
  split
  · rfl
  · exact List.length_modify _ _ _

/- A diagnosis that still pends is not the updated one. -/
theorem pending_update
    {other : String}
    (hPending :
      (state.update workspaceOf document).pending.get other =
        some id)
    (hOld : id < state.diagnoses.length) :
    other ≠ document.uri ∧
      state.pending.get other = some id := by
  have hCancel :
      ((state.await workspaceOf document).cancel
          document.uri).pending.get other = some id →
        other ≠ document.uri ∧
          state.pending.get other = some id := by
    intro hGet
    rw [get_pending_cancel] at hGet
    split at hGet
    · cases hGet
    · rename_i hNe
      exact ⟨hNe, hGet⟩
  unfold update at hPending
  simp only at hPending
  split at hPending
  · exact hCancel hPending
  · split at hPending
    · exact hCancel hPending
    · unfold schedule at hPending
      simp only [OrderedMap.get_set] at hPending
      split at hPending
      · have hNew := Option.some.inj hPending
        rw [length_cancel] at hNew
        exact absurd hNew.symm (Nat.ne_of_lt hOld)
      · exact hCancel hPending

----------
-- Moving On
----------

/- A change of a diagnosis that is no abortion. -/
def Keeps (change : Diagnosis → Diagnosis) : Prop :=
  ∀ diagnosis,
    (change diagnosis).document = diagnosis.document ∧
      (change diagnosis).epoch = diagnosis.epoch ∧
      (change diagnosis).aborted = diagnosis.aborted ∧
      (change diagnosis).refreshed = diagnosis.refreshed

theorem keeps_finished :
    Keeps fun diagnosis =>
      { diagnosis with phase := .finished, settled := true } :=
  fun _ => ⟨rfl, rfl, rfl, rfl⟩

theorem keeps_phase (phase : DiagnosisPhase) :
    Keeps fun diagnosis =>
      { diagnosis with phase := phase } :=
  fun _ => ⟨rfl, rfl, rfl, rfl⟩

theorem keeps_started :
    Keeps fun diagnosis =>
      { diagnosis with started := true } :=
  fun _ => ⟨rfl, rfl, rfl, rfl⟩

variable {change : Diagnosis → Diagnosis}
variable {index : Nat}

theorem getElem?_modify_kept
    (hKeeps : Keeps change)
    {diagnoses : List Diagnosis}
    (hDiagnosis : diagnoses[index]? = some diagnosis)
    (id : Nat) :
    ∃ moved,
      (diagnoses.modify id change)[index]? = some moved ∧
        moved.document = diagnosis.document ∧
        moved.epoch = diagnosis.epoch ∧
        moved.aborted = diagnosis.aborted ∧
        moved.refreshed = diagnosis.refreshed := by
  rw [List.getElem?_modify, hDiagnosis]
  by_cases hSame : id = index
  · exact ⟨change diagnosis, by simp [hSame], hKeeps diagnosis⟩
  · exact ⟨diagnosis, by simp [hSame], rfl, rfl, rfl, rfl⟩

theorem modify_narrows
    (hKeeps : Keeps change)
    (state : DocumentDiagnostics)
    (id : Nat) :
    Narrows state
      { state with
        diagnoses := state.diagnoses.modify id change } where
  frame := ⟨rfl, rfl, rfl, rfl, rfl, rfl, rfl⟩
  pending _ _ hPending := hPending
  kept _ _ _ _ hDiagnosis :=
    getElem?_modify_kept hKeeps hDiagnosis id
  deferredUris := rfl
  outputs _ _ _ hOutput := hOutput

/- A diagnosis that still answers keeps its document covered. -/
theorem modify_coveredBut
    (hCovered : CoveredBut workspaceOf Exempt state)
    (hMoved :
      ∀ uri version diagnosis,
        Waits workspaceOf state uri version →
        state.pending.get uri = some id →
        state.diagnoses[id]? = some diagnosis →
        Answers workspaceOf state uri version diagnosis →
        Answers workspaceOf state uri version
          (change diagnosis)) :
    CoveredBut workspaceOf Exempt
      { state with
        diagnoses := state.diagnoses.modify id change } := by
  have hFrame :
      Frame state
        { state with
          diagnoses := state.diagnoses.modify id change } :=
    ⟨rfl, rfl, rfl, rfl, rfl, rfl, rfl⟩
  refine
    hCovered.transfer hFrame (fun _ hOld => hOld)
      (fun _ _ _ hWaits => hWaits) (fun _ hOld => hOld) ?_
  intro uri version index diagnosis _ hWaits hPending
    hDiagnosis hAnswers
  by_cases hSame : id = index
  · subst hSame
    refine
      .pending id (change diagnosis) hPending ?_
        ((hMoved uri version diagnosis hWaits hPending
          hDiagnosis hAnswers).of_epoch hFrame)
    simp only
    rw [List.getElem?_modify, hDiagnosis]
    simp
  · refine
      .pending index diagnosis hPending ?_
        (hAnswers.of_epoch hFrame)
    simp only
    rw [List.getElem?_modify_ne _ _ hSame]
    exact hDiagnosis

theorem get_pending_finish
    (state : DocumentDiagnostics)
    (id : Nat)
    (diagnosis : Diagnosis)
    (other : String) :
    (state.finish id diagnosis).pending.get other =
      if other = diagnosis.document.uri ∧
          state.pending.get other = some id
      then none
      else state.pending.get other := by
  unfold finish
  simp only
  by_cases hOwn :
      state.pending.get diagnosis.document.uri = some id
  · rw [if_pos hOwn, OrderedMap.get_delete]
    by_cases hUri : other = diagnosis.document.uri
    · rw [if_pos hUri, if_pos ⟨hUri, hUri ▸ hOwn⟩]
    · rw [if_neg hUri, if_neg (fun hBoth => hUri hBoth.1)]
  · rw [if_neg hOwn, if_neg]
    rintro ⟨rfl, hGet⟩
    exact hOwn hGet

theorem finish_narrows
    (state : DocumentDiagnostics)
    (id : Nat)
    (diagnosis : Diagnosis) :
    Narrows state (state.finish id diagnosis) where
  frame := finish_frame state id diagnosis
  pending uri index hPending := by
    rw [get_pending_finish] at hPending
    split at hPending
    · cases hPending
    · exact hPending
  kept _ _ _ _ hDiagnosis :=
    getElem?_modify_kept keeps_finished hDiagnosis id
  deferredUris := rfl
  outputs _ _ _ hOutput := hOutput

/-
  A diagnosis may finish when its document does not wait for
  it any more.
-/
theorem finish_coveredBut
    (hCovered : CoveredBut workspaceOf Exempt state)
    (hFinal :
      ∀ uri version current,
        Waits workspaceOf state uri version →
        state.pending.get uri = some id →
        state.diagnoses[id]? = some current →
        ¬ Answers workspaceOf state uri version current) :
    CoveredBut workspaceOf Exempt
      (state.finish id diagnosis) := by
  have hFrame := finish_frame state id diagnosis
  refine
    hCovered.transfer hFrame (fun _ hOld => hOld)
      (fun _ _ _ hWaits => hWaits) (fun _ hOld => hOld) ?_
  intro uri version index current _ hWaits hPending
    hCurrent hAnswers
  by_cases hSame : id = index
  · subst hSame
    exact
      absurd hAnswers
        (hFinal uri version current hWaits hPending hCurrent)
  · refine
      .pending index current ?_ ?_ (hAnswers.of_epoch hFrame)
    · rw [get_pending_finish, if_neg]
      · exact hPending
      · rintro ⟨_, hOther⟩
        rw [hPending, Option.some.injEq] at hOther
        exact hSame hOther.symm
    · unfold finish
      simp only
      rw [List.getElem?_modify_ne _ _ hSame]
      exact hCurrent

end Workspaces

end Lsp

end ArktsServer
