import ArktsServer.Lsp.DiagnosticsInvariant

/-
  Diagnostics are never stale and never forgotten: what is
  published is for the open version of a document, in the
  epoch in which it was scheduled, and an open document that
  waits for its diagnostics has a diagnosis, is deferred, or
  is in a workspace that will be refreshed.

  Key definitions include:
    * `Lsp.Kept`

  Correctness is proven by:
    * `Lsp.diagnosticsInv_step`
    * `Lsp.diagnostics_fresh_and_kept`
-/

namespace ArktsServer

namespace Lsp

open DocumentDiagnostics Transition

variable {Item : Type}
variable {step : DocumentDiagnostics → Item → DocumentDiagnostics}

section Workspaces

variable {workspaceOf : String → String}
variable {state : DocumentDiagnostics}
variable {id : Nat}
variable {before after : DocumentDiagnostics}
variable {uri : String}
variable {diagnosis : Diagnosis}
variable {version : Int}
variable {Exempt : String → Prop}
variable {document : TextDocument}
variable {index : Nat}

----------
-- Diagnosing
----------

/- What the steps of a diagnosis leave behind. -/
structure Kept
    (workspaceOf : String → String)
    (before after : DocumentDiagnostics) : Prop where
  frame : Frame before after
  sound : Sound workspaceOf after
  covered :
    after.disposed = false →
      CoveredBut workspaceOf (fun _ => False) after

theorem Kept.refl
    (hInv : DiagnosticsInv workspaceOf state) :
    Kept workspaceOf state state :=
  ⟨Frame.refl state, hInv.sound, hInv.covered⟩

theorem Kept.inv
    (hKept : Kept workspaceOf before after)
    (hInv : DiagnosticsInv workspaceOf before) :
    DiagnosticsInv workspaceOf after where
  sound := hKept.sound
  covered := hKept.covered
  armed := by
    have hArmed := hInv.armed
    unfold Armed at hArmed ⊢
    rw [hKept.frame.disposed, hKept.frame.dirtyWorkspaces,
      hKept.frame.refreshTimer, hKept.frame.suspensionCount]
    exact hArmed

theorem Kept.finish
    (hKept : Kept workspaceOf before after)
    (hFinal :
      after.disposed = false →
        ∀ uri version current,
          Waits workspaceOf after uri version →
          after.pending.get uri = some id →
          after.diagnoses[id]? = some current →
          ¬ Answers workspaceOf after uri version current) :
    Kept workspaceOf before (after.finish id diagnosis) where
  frame := hKept.frame.trans (finish_frame after id diagnosis)
  sound := (finish_narrows after id diagnosis).sound hKept.sound
  covered hRunning :=
    finish_coveredBut (hKept.covered hRunning) (hFinal hRunning)

theorem isCurrentWorkspace_of_answers
    (hPends : Pends workspaceOf state uri diagnosis)
    (hAnswers :
      Answers workspaceOf state uri version diagnosis) :
    state.isCurrentWorkspace diagnosis = true := by
  unfold isCurrentWorkspace
  rw [hPends.document.2]
  exact decide_eq_true hAnswers.ofEpoch

/- A timer that finds its task pending marks it as started. -/
theorem started_kept
    (hInv : DiagnosticsInv workspaceOf state)
    (id : Nat) :
    Kept workspaceOf state
      { state with
        diagnoses :=
          state.diagnoses.modify id fun diagnosis =>
            { diagnosis with started := true } } where
  frame := (modify_narrows keeps_started state id).frame
  sound :=
    (modify_narrows keeps_started state id).sound hInv.sound
  covered hRunning :=
    modify_coveredBut (hInv.covered hRunning)
      fun _ _ _ _ _ _ hAnswers =>
        { hAnswers with }

theorem Kept.enterDiagnosing
    (hKept : Kept workspaceOf before after)
    (id : Nat) :
    Kept workspaceOf before (after.enter id .diagnosing) where
  frame :=
    hKept.frame.trans
      (modify_narrows (keeps_phase .diagnosing) after id).frame
  sound :=
    (modify_narrows (keeps_phase .diagnosing) after id).sound
      hKept.sound
  covered hRunning :=
    modify_coveredBut (hKept.covered hRunning)
      fun _ _ _ _ _ _ hAnswers =>
        ⟨hAnswers.ofVersion, hAnswers.ofEpoch, .inr rfl⟩

theorem timerFired_kept
    (hInv : DiagnosticsInv workspaceOf state)
    (hDiagnosis : state.diagnoses[id]? = some diagnosis) :
    Kept workspaceOf state
      (state.timerFired id diagnosis) := by
  have hFinish :
      ∀ begun,
        Kept workspaceOf state begun →
        (∀ current,
          begun.diagnoses[id]? = some current →
            current.document = diagnosis.document ∧
              current.epoch = diagnosis.epoch) →
        Kept workspaceOf state
          (if begun.isCurrentWorkspace diagnosis then
            begun.enter id .diagnosing
          else begun.finish id diagnosis) := by
    intro begun hKept hSame
    split
    · exact hKept.enterDiagnosing id
    · rename_i hStale
      refine hKept.finish ?_
      intro _ uri version current _ hPending hCurrent hAnswers
      have hMatches :=
        isCurrentWorkspace_of_answers
          (hKept.sound.pends_at hPending hCurrent) hAnswers
      unfold isCurrentWorkspace at hMatches hStale
      rw [(hSame current hCurrent).1,
        (hSame current hCurrent).2] at hMatches
      exact hStale hMatches
  unfold timerFired
  simp only
  split
  · split
    · refine hFinish _ (started_kept hInv id) ?_
      intro current hCurrent
      simp only [List.getElem?_modify_eq, hDiagnosis] at hCurrent
      rw [← Option.some.inj hCurrent]
      exact ⟨rfl, rfl⟩
    · refine hFinish _ (Kept.refl hInv) ?_
      intro current hCurrent
      rw [hDiagnosis] at hCurrent
      rw [← Option.some.inj hCurrent]
      exact ⟨rfl, rfl⟩
  · exact Kept.refl hInv

theorem answer_narrows
    (state : DocumentDiagnostics)
    (diagnosis : Diagnosis) :
    Narrows state (state.answer diagnosis) :=
  narrows_same ⟨rfl, rfl, rfl, rfl, rfl, rfl, rfl⟩ rfl rfl rfl
    fun _ _ _ hOutput => hOutput

/- A logged error tells the client nothing about a document. -/
theorem error_narrows
    (state : DocumentDiagnostics)
    (document : DocumentSnapshot) :
    Narrows state
      { state with
        outputs := state.outputs ++ [.error document] } := by
  refine
    narrows_same ⟨rfl, rfl, rfl, rfl, rfl, rfl, rfl⟩ rfl rfl
      rfl ?_
  intro _ _ _ hOutput
  rcases List.mem_append.mp hOutput with hOld | hNew
  · exact hOld
  · cases List.mem_singleton.mp hNew

theorem answer_coveredBut
    (hCovered : CoveredBut workspaceOf Exempt state)
    (diagnosis : Diagnosis) :
    CoveredBut workspaceOf Exempt
      (state.answer diagnosis) := by
  have hFrame := (answer_narrows state diagnosis).frame
  refine
    hCovered.transfer hFrame (fun _ hOld => hOld)
      ?_ (fun _ hOld => hOld) ?_
  · rintro uri version _ ⟨hOpen, hAwaited⟩
    exact ⟨hOpen, List.mem_of_mem_filter hAwaited⟩
  · intro uri version id current _ _ hPending hCurrent
      hAnswers
    exact
      .pending id current hPending hCurrent
        (hAnswers.of_epoch hFrame)

/- Whoever was answered does not wait. -/
theorem not_waits_answer
    (hUri : diagnosis.document.uri = uri)
    (hWaits :
      Waits workspaceOf (state.answer diagnosis) uri version) :
    ¬ Answers workspaceOf state uri version diagnosis := by
  intro hAnswers
  have hFiltered :
      (⟨uri, version, state.epoch (workspaceOf uri)⟩ :
          Inspection)
        ∈ (state.answer diagnosis).awaited :=
    hWaits.2
  unfold answer at hFiltered
  have hNe := (List.mem_filter.mp hFiltered).2
  rw [hUri, hAnswers.ofVersion, hAnswers.ofEpoch] at hNe
  simp at hNe

theorem update_kept
    (hInv : DiagnosticsInv workspaceOf state)
    (hOpen :
      state.documents.get document.uri =
        some document.version) :
    Kept workspaceOf state
      (state.update workspaceOf document) where
  frame := update_frame workspaceOf state document
  sound := update_sound hInv.sound document
  covered hStopped := by
    rw [(update_frame workspaceOf state document).disposed]
      at hStopped
    refine update_coveredBut hInv.sound hStopped hOpen ?_
    intro uri version hWaits hNot
    exact
      hInv.covered hStopped uri version hWaits
        (fun hFalse => hFalse.elim)

/- The last words of a diagnosis that threw. -/
theorem caught_kept
    (hInv : DiagnosticsInv workspaceOf state)
    (hDiagnosis : state.diagnoses[id]? = some diagnosis)
    (contentModified : Bool) :
    Kept workspaceOf state
      ((state.caught workspaceOf id diagnosis
        contentModified).finish id diagnosis) := by
  have hPended (uri : String)
      (hPending : state.pending.get uri = some id) :=
    hInv.sound.pends_at hPending hDiagnosis
  unfold caught
  simp only
  split
  · rename_i hOwned
    refine (Kept.refl hInv).finish ?_
    intro _ uri version current _ hPending hCurrent hAnswers
    rw [hDiagnosis] at hCurrent
    cases hCurrent
    have hMatches :=
      isCurrentWorkspace_of_answers (hPended uri hPending)
        hAnswers
    rw [hOwned.2] at hMatches
    cases hMatches
  · rename_i hUnowned
    split
    · rename_i hRetry
      rcases hRetry with
        ⟨_, hRunning, _, hOpen, hOwn, _⟩
      rcases Option.isSome_iff_exists.mp hOpen with
        ⟨version, hVersion⟩
      rw [hVersion]
      simp only
      refine (update_kept hInv hVersion).finish ?_
      intro _ uri other current _ hPending
      rcases pending_update hPending
          (List.getElem?_eq_some_iff.mp hDiagnosis).1 with
        ⟨hNe, hOld⟩
      exact absurd (hInv.sound.pending_inj hOld hOwn) hNe
    · rename_i hNoRetry
      split
      · rename_i hUnaborted
        have hLogged :
            Kept workspaceOf state
              { state with
                outputs :=
                  state.outputs ++
                    [.error diagnosis.document] } := by
          have hNarrows := error_narrows state diagnosis.document
          refine ⟨hNarrows.frame, hNarrows.sound hInv.sound, ?_⟩
          intro hRunning
          exact
            (hInv.covered hRunning).same rfl rfl rfl rfl rfl rfl
              rfl
        split
        · rename_i hModified
          refine hLogged.finish ?_
          intro hRunning uri version current hWaits hPending
            hCurrent hAnswers
          have hPends := hPended uri hPending
          have hMatches :
              state.isCurrentWorkspace diagnosis = true := by
            cases hMatch : state.isCurrentWorkspace diagnosis with
            | true => rfl
            | false => exact absurd ⟨hModified, hMatch⟩ hUnowned
          -- Only a closed document is not diagnosed again.
          refine
            hNoRetry
              ⟨hUnaborted, hRunning, hMatches, ?_, ?_, hModified⟩
          · rw [hPends.document.1]
            exact Option.isSome_iff_exists.mpr ⟨_, hWaits.1⟩
          · rw [hPends.document.1]
            exact hPending
        · have hAnswered :
              Kept workspaceOf state
                (answer
                  { state with
                    outputs :=
                      state.outputs ++
                        [.error diagnosis.document] }
                  diagnosis) :=
            ⟨hLogged.frame.trans (answer_narrows _ _).frame,
              (answer_narrows _ _).sound hLogged.sound,
              fun hRunning =>
                answer_coveredBut (hLogged.covered hRunning)
                  diagnosis⟩
          refine hAnswered.finish ?_
          intro _ uri version current hWaits hPending hCurrent
            hAnswers
          have hCurrent' :
              state.diagnoses[id]? = some current :=
            hCurrent
          rw [hDiagnosis] at hCurrent'
          cases hCurrent'
          exact
            not_waits_answer (hPended uri hPending).document.1
              hWaits
              { hAnswers with }
      · rename_i hAborted
        refine (Kept.refl hInv).finish ?_
        intro _ uri version current _ hPending _ _
        exact hAborted (hPended uri hPending).unaborted

/- The diagnostics of a document that is still current. -/
theorem published_kept
    (hInv : DiagnosticsInv workspaceOf state)
    (hDiagnosis : state.diagnoses[id]? = some diagnosis)
    (hCurrent : state.isCurrentWorkspace diagnosis = true)
    (hPending :
      state.pending.get diagnosis.document.uri = some id)
    (hOpen :
      state.documents.get diagnosis.document.uri =
        some diagnosis.document.version) :
    Kept workspaceOf state
      { (state.answer diagnosis).enter id .sending with
        outputs :=
          state.outputs ++
            [.diagnostics diagnosis.document
              (state.documents.get diagnosis.document.uri)
              diagnosis.refreshed] } := by
  have hNarrows := answer_narrows state diagnosis
  have hEnter :=
    modify_narrows (keeps_phase .sending)
      (state.answer diagnosis) id
  have hSound := hEnter.sound (hNarrows.sound hInv.sound)
  have hFrame :
      Frame state
        { (state.answer diagnosis).enter id .sending with
          outputs :=
            state.outputs ++
              [.diagnostics diagnosis.document
                (state.documents.get diagnosis.document.uri)
                diagnosis.refreshed] } :=
    ⟨rfl, rfl, rfl, rfl, rfl, rfl, rfl⟩
  refine ⟨hFrame, ?_, ?_⟩
  · refine
      ⟨?_, hSound.stopped, ?_, hSound.count, hSound.deferred⟩
    · exact hSound.pends_of_same rfl rfl fun _ => rfl
    intro document openVersion refreshed hOutput
    rcases List.mem_append.mp hOutput with hOld | hNew
    · exact hInv.sound.fresh _ _ _ hOld
    · cases List.mem_singleton.mp hNew
      refine ⟨hOpen, ?_⟩
      have hPends := hInv.sound.pends_at hPending hDiagnosis
      cases hRefreshed : diagnosis.refreshed with
      | false => rfl
      | true =>
        have hLt := hPends.epoch_lt hRefreshed
        unfold isCurrentWorkspace at hCurrent
        rw [hPends.document.2, decide_eq_true_eq] at hCurrent
        exact absurd hCurrent (Nat.ne_of_lt hLt)
  · intro hRunning
    have hMoved :
        CoveredBut workspaceOf (fun _ => False)
          ((state.answer diagnosis).enter id .sending) := by
      refine
        modify_coveredBut
          (answer_coveredBut (hInv.covered hRunning) diagnosis)
          ?_
      intro uri version current hWaits hOwn hFound hAnswers
      have hFound' : state.diagnoses[id]? = some current := hFound
      rw [hDiagnosis] at hFound'
      cases hFound'
      have hUri := hInv.sound.pending_inj hPending hOwn
      exact
        absurd
          { hAnswers with }
          (not_waits_answer hUri hWaits)
    exact hMoved.same rfl rfl rfl rfl rfl rfl rfl

theorem diagnosed_kept
    (hInv : DiagnosticsInv workspaceOf state)
    (hDiagnosis : state.diagnoses[id]? = some diagnosis)
    (settlement : Settlement) :
    Kept workspaceOf state
      (state.diagnosed workspaceOf id diagnosis
        settlement) := by
  unfold diagnosed
  split
  · cases settlement with
    | contentModified => exact caught_kept hInv hDiagnosis true
    | failure => exact caught_kept hInv hDiagnosis false
    | value =>
      simp only
      split
      · rename_i hDropped
        refine (Kept.refl hInv).finish ?_
        intro _ uri version current hWaits hPending hCurrent
          hAnswers
        have hPends := hInv.sound.pends_at hPending hDiagnosis
        rw [hDiagnosis] at hCurrent
        cases hCurrent
        rcases hDropped with
          hAborted | hStale | hTaken | hClosed | hOther
        · rw [hPends.unaborted] at hAborted
          cases hAborted
        · rw [isCurrentWorkspace_of_answers hPends
            hAnswers] at hStale
          cases hStale
        · rw [hPends.document.1] at hTaken
          exact hTaken hPending
        · rw [hPends.document.1, hAnswers.ofVersion]
            at hClosed
          exact hClosed hWaits.1
        · exact hOther rfl
      · rename_i hCurrent
        simp only [not_or, Bool.not_eq_true,
          Bool.not_eq_false, Decidable.not_not] at hCurrent
        exact
          published_kept hInv hDiagnosis hCurrent.2.1
            hCurrent.2.2.1 hCurrent.2.2.2.1
  · exact Kept.refl hInv

theorem diagnosticsSent_kept
    (hInv : DiagnosticsInv workspaceOf state)
    (hDiagnosis : state.diagnoses[id]? = some diagnosis)
    (settlement : Settlement) :
    Kept workspaceOf state
      (state.diagnosticsSent workspaceOf id diagnosis
        settlement) := by
  unfold diagnosticsSent
  split
  · rename_i hSending
    cases settlement with
    | contentModified => exact caught_kept hInv hDiagnosis true
    | failure => exact caught_kept hInv hDiagnosis false
    | value =>
      refine (Kept.refl hInv).finish ?_
      intro _ uri version current _ _ hCurrent hAnswers
      rw [hDiagnosis] at hCurrent
      cases hCurrent
      rcases hAnswers.unanswered with hPhase | hPhase
      · rw [hSending] at hPhase
        cases hPhase
      · rw [hSending] at hPhase
        cases hPhase
  · exact Kept.refl hInv

----------
-- Refreshing
----------

/- Soundness does not read the clock. -/
theorem Sound.rearmed
    (hSound : Sound workspaceOf state)
    (refreshTimer : Option Nat)
    (dirtyWorkspaces : OrderedMap String Nat) :
    Sound workspaceOf
      { state with
        refreshTimer := refreshTimer
        dirtyWorkspaces := dirtyWorkspaces } :=
  { hSound with
    pends := hSound.pends_of_same rfl rfl fun _ => rfl }

/- The refresh timer is armed when it has work to do. -/
theorem scheduleRefresh_inv
    (hSound : Sound workspaceOf state)
    (hCovered :
      state.disposed = false →
        CoveredBut workspaceOf (fun _ => False) state) :
    DiagnosticsInv workspaceOf (scheduleRefresh state) := by
  unfold scheduleRefresh
  split
  · rename_i hIdle
    refine ⟨hSound, hCovered, ?_⟩
    intro hRunning _
    rcases hIdle with hDisposed | hSuspended
    · rw [hRunning] at hDisposed
      cases hDisposed
    · exact .inr hSuspended
  · split
    · rename_i hNone
      refine ⟨hSound, hCovered, ?_⟩
      intro _ hDirty
      rw [List.min?_eq_none_iff] at hNone
      exact absurd (List.map_eq_nil_iff.mp hNone) hDirty
    · refine ⟨hSound.rearmed _ _, ?_, fun _ _ => .inl rfl⟩
      intro hRunning
      exact (hCovered hRunning).same rfl rfl rfl rfl rfl rfl rfl

theorem foldl_sound
    (start : DocumentDiagnostics)
    (hFrame : ∀ state item, Frame state (step state item))
    (items : List Item)
    (hStep :
      ∀ state item,
        Frame start state →
          Sound workspaceOf state →
            Sound workspaceOf (step state item))
    (hSound : Sound workspaceOf start) :
    Sound workspaceOf (items.foldl step start) := by
  have hBoth :
      ∀ state item,
        Frame start state ∧ Sound workspaceOf state →
          Frame start (step state item) ∧
            Sound workspaceOf (step state item) :=
    fun state item hOld =>
      ⟨hOld.1.trans (hFrame state item),
        hStep state item hOld.1 hOld.2⟩
  exact (run_invariant hBoth ⟨Frame.refl start, hSound⟩ items).2

/-
  Documents that are exempt at first are covered one after
  the other.
-/
theorem foldl_covered
    (uriOf : Item → String)
    (start : DocumentDiagnostics)
    (hFrame : ∀ state item, Frame state (step state item))
    (items : List Item)
    (hStep :
      ∀ state item Exempt,
        item ∈ items →
        Frame start state →
        Sound workspaceOf state →
        CoveredBut workspaceOf
          (fun other => Exempt other ∨ other = uriOf item)
          state →
        Sound workspaceOf (step state item) ∧
          CoveredBut workspaceOf Exempt (step state item))
    (hStart : Frame start state)
    (hSound : Sound workspaceOf state)
    (hCovered :
      CoveredBut workspaceOf
        (fun uri => uri ∈ items.map uriOf) state) :
    Sound workspaceOf (items.foldl step state) ∧
      CoveredBut workspaceOf (fun _ => False)
        (items.foldl step state) := by
  induction items generalizing state with
  | nil =>
    refine ⟨hSound, ?_⟩
    intro uri version hWaits _
    exact hCovered uri version hWaits List.not_mem_nil
  | cons item items ih =>
    have hNext :=
      hStep state item (fun uri => uri ∈ items.map uriOf)
        List.mem_cons_self hStart hSound
        (fun uri version hWaits hNot =>
          hCovered uri version hWaits (by
            intro hMem
            rcases List.mem_cons.mp hMem with hHead | hTail
            · exact hNot (.inr hHead)
            · exact hNot (.inl hTail)))
    exact
      ih
        (fun state item Exempt hItem =>
          hStep state item Exempt (List.mem_cons_of_mem _ hItem))
        (hStart.trans (hFrame state item)) hNext.1 hNext.2

theorem mem_allDocuments
    {document : TextDocument} :
    document ∈ state.allDocuments ↔
      state.documents.get document.uri =
        some document.version := by
  unfold allDocuments
  rw [List.mem_map, OrderedMap.get_eq_some_iff]
  constructor
  · rintro ⟨entry, hEntry, rfl⟩
    exact hEntry
  · intro hEntry
    exact ⟨_, hEntry, rfl⟩

/- What was due is exempt until its documents are updated. -/
theorem takeDue_coveredBut
    (hCovered : CoveredBut workspaceOf (fun _ => False) state)
    (now : Nat) :
    CoveredBut workspaceOf
      (fun uri =>
        uri ∈
          (state.allDocuments.filter fun document =>
            workspaceOf document.uri ∈
              state.dueWorkspaces now).map TextDocument.uri)
      (state.takeDue now) := by
  intro uri version hWaits hNot
  refine
    (hCovered uri version hWaits fun hFalse => hFalse).kept
      (fun _ => rfl)
      (fun _ _ hPending hDiagnosis => ⟨hPending, hDiagnosis⟩)
      (fun hDeferred => hDeferred) ?_
  intro hDirty
  rcases Option.isSome_iff_exists.mp hDirty with ⟨due, hDue⟩
  by_cases hLe : due ≤ now
  · have hOpen :
        ⟨uri, version⟩ ∈ state.allDocuments :=
      mem_allDocuments.mpr hWaits.1
    have hWorkspace :
        workspaceOf uri ∈ state.dueWorkspaces now :=
      OrderedMap.mem_keys_iff.mpr
        ⟨due,
          OrderedMap.get_filter.mpr ⟨hDue, decide_eq_true hLe⟩⟩
    refine absurd ?_ hNot
    exact
      List.mem_map.mpr
        ⟨_,
          List.mem_filter.mpr ⟨hOpen, decide_eq_true hWorkspace⟩,
          rfl⟩
  · refine Option.isSome_iff_exists.mpr ⟨due, ?_⟩
    exact
      OrderedMap.get_filter.mpr
        ⟨hDue, decide_eq_true (Nat.lt_of_not_le hLe)⟩

theorem refreshFired_inv
    (hInv : DiagnosticsInv workspaceOf state)
    (now : Nat) :
    DiagnosticsInv workspaceOf
      (state.refreshFired workspaceOf now) := by
  unfold refreshFired
  split
  · have hSound : Sound workspaceOf (state.takeDue now) :=
      hInv.sound.rearmed _ _
    refine
      scheduleRefresh_inv
        (foldl_sound _ (update_frame workspaceOf) _
          (fun _ document _ hOld => update_sound hOld document)
          hSound)
        ?_
    intro hStopped
    rw [(foldl_frame (update_frame workspaceOf) _
      _).disposed] at hStopped
    have hRunning : state.disposed = false := hStopped
    refine
      (foldl_covered TextDocument.uri (state.takeDue now)
        (update_frame workspaceOf) _ ?_ (Frame.refl _) hSound
        (takeDue_coveredBut (hInv.covered hRunning) now)).2
    intro middle document Exempt hMem hStart hOld hCovered
    refine ⟨update_sound hOld document, ?_⟩
    refine
      update_coveredBut hOld
        (hStart.disposed.trans hRunning) ?_ hCovered
    rw [hStart.documents]
    exact mem_allDocuments.mp (List.mem_of_mem_filter hMem)
  · exact hInv

theorem awaitWorkspace_sound
    (hSound : Sound workspaceOf state)
    (hDisposed : state.disposed = true)
    (workspaceId : String) :
    Sound workspaceOf
      (state.awaitWorkspace workspaceOf workspaceId) :=
  { hSound with
    pends uri id hPending := by
      have hOld : state.pending.get uri = some id := hPending
      rw [hSound.stopped hDisposed uri] at hOld
      cases hOld }

/- The next epoch of a workspace leaves the others alone. -/
theorem epoch_refreshed
    (state : DocumentDiagnostics)
    (workspaceId other : String) :
    ((state.workspaceEpochs.set workspaceId
        (state.epoch workspaceId + 1)).get other).getD 0
      = if other = workspaceId
        then state.epoch workspaceId + 1
        else state.epoch other := by
  rw [OrderedMap.get_set]
  by_cases hSame : other = workspaceId
  · rw [if_pos hSame, if_pos hSame]
    rfl
  · rw [if_neg hSame, if_neg hSame]
    rfl

theorem refreshWorkspace_inv
    (hInv : DiagnosticsInv workspaceOf state)
    (workspaceId : String)
    (now : Nat) :
    DiagnosticsInv workspaceOf
      (state.refreshWorkspace workspaceOf workspaceId
        now) := by
  have hSound := hInv.sound
  unfold refreshWorkspace
  simp only
  split
  · rename_i hDisposed
    refine ⟨awaitWorkspace_sound hSound hDisposed _, ?_, ?_⟩
    all_goals
      intro hRunning
      rw [hDisposed] at hRunning
      cases hRunning
  · rename_i hLive
    have hRunning : state.disposed = false :=
      Bool.eq_false_iff.mpr hLive
    have hMark :
        ∀ (id : Nat) (diagnosis : Diagnosis),
          state.diagnoses[id]? = some diagnosis →
            (state.awaitWorkspace workspaceOf
                workspaceId).diagnoses[id]?
              = some
                (if diagnosis.document.workspaceId = workspaceId
                then { diagnosis with refreshed := true }
                else diagnosis) := by
      intro id diagnosis hDiagnosis
      unfold awaitWorkspace
      simp only [List.getElem?_map, hDiagnosis, Option.map_some]
    refine scheduleRefresh_inv ⟨?_, ?_, ?_, ?_, ?_⟩ fun _ => ?_
    · intro uri id hPending
      rcases hSound.pends uri id hPending with
        ⟨diagnosis, hDiagnosis, hPends⟩
      refine ⟨_, hMark id diagnosis hDiagnosis, ?_⟩
      have hEpoch :=
        epoch_refreshed state workspaceId (workspaceOf uri)
      by_cases hSame : workspaceOf uri = workspaceId
      · rw [if_pos (hPends.document.2.trans hSame)]
        rw [if_pos hSame] at hEpoch
        have hLe := hPends.epoch_le
        rw [hSame] at hLe
        refine
          ⟨hPends.document, hPends.unaborted, ?_, fun _ => ?_⟩
        · exact
            Nat.le_trans (Nat.le_succ_of_le hLe)
              (Nat.le_of_eq hEpoch.symm)
        · exact
            Nat.lt_of_lt_of_eq (Nat.lt_succ_of_le hLe) hEpoch.symm
      · rw [if_neg (fun hOwn =>
          hSame (hPends.document.2.symm.trans hOwn))]
        rw [if_neg hSame] at hEpoch
        exact
          ⟨hPends.document, hPends.unaborted,
            Nat.le_trans hPends.epoch_le
              (Nat.le_of_eq hEpoch.symm),
            fun hRefreshed =>
              Nat.lt_of_lt_of_eq (hPends.epoch_lt hRefreshed)
                hEpoch.symm⟩
    · exact hSound.stopped
    · exact hSound.fresh
    · exact hSound.count
    · exact hSound.deferred
    · intro uri version hWaits _
      have hEpoch :=
        epoch_refreshed state workspaceId (workspaceOf uri)
      by_cases hSame : workspaceOf uri = workspaceId
      · refine .dirty ?_
        change
          ((state.dirtyWorkspaces.set workspaceId _).get
            (workspaceOf uri)).isSome = true
        rw [OrderedMap.get_set, if_pos hSame]
        rfl
      · rw [if_neg hSame] at hEpoch
        have hOld :
            Waits workspaceOf state uri version := by
          refine ⟨hWaits.1, ?_⟩
          rcases List.mem_append.mp hWaits.2 with hOld | hNew
          · exact hEpoch ▸ hOld
          · rcases List.mem_map.mp hNew with
              ⟨document, hDocument, hInspection⟩
            have hUri : document.uri = uri :=
              congrArg Inspection.uri hInspection
            have hOwn :=
              of_decide_eq_true (List.mem_filter.mp hDocument).2
            exact absurd (hUri ▸ hOwn) hSame
        cases hInv.covered hRunning uri version hOld
            (fun hFalse => hFalse.elim) with
        | pending id diagnosis hPending hDiagnosis hAnswers =>
          refine
            .pending id _ hPending
              (hMark id diagnosis hDiagnosis) ?_
          have hNow := hAnswers.ofEpoch.trans hEpoch.symm
          split
          · exact
              ⟨hAnswers.ofVersion, hNow, hAnswers.unanswered⟩
          · exact
              ⟨hAnswers.ofVersion, hNow, hAnswers.unanswered⟩
        | deferred hDeferred => exact .deferred hDeferred
        | dirty hDirty =>
          refine .dirty ?_
          change
            ((state.dirtyWorkspaces.set workspaceId _).get
              (workspaceOf uri)).isSome = true
          rw [OrderedMap.get_set, if_neg hSame]
          exact hDirty

----------
-- Documents and Suspensions
----------

/- Soundness does not read the documents. -/
theorem Sound.retold
    (hSound : Sound workspaceOf state)
    (documents : OrderedMap String Int)
    (awaited : List Inspection) :
    Sound workspaceOf
      { state with
        documents := documents
        awaited := awaited } :=
  { hSound with
    pends := hSound.pends_of_same rfl rfl fun _ => rfl }

/- A document without inspections does not wait. -/
theorem retold_coveredBut
    (hCovered : CoveredBut workspaceOf (fun _ => False) state)
    {documents : OrderedMap String Int}
    (hOthers :
      ∀ other,
        other ≠ uri →
          documents.get other = state.documents.get other) :
    CoveredBut workspaceOf (fun _ => False)
      { state with
        documents := documents
        awaited := state.awaited.filter (·.uri ≠ uri) } := by
  rintro other version ⟨hOpen, hAwaited⟩ hNot
  rcases List.mem_filter.mp hAwaited with ⟨hOld, hNe⟩
  have hOther : other ≠ uri := of_decide_eq_true hNe
  have hBefore : state.documents.get other = some version :=
    (hOthers other hOther).symm.trans hOpen
  exact
    (hCovered other version ⟨hBefore, hOld⟩ hNot).kept
      (fun _ => rfl)
      (fun _ _ hPending hDiagnosis => ⟨hPending, hDiagnosis⟩)
      (fun hDeferred => hDeferred) (fun hDirty => hDirty)

theorem changed_inv
    (hInv : DiagnosticsInv workspaceOf state)
    (document : TextDocument) :
    DiagnosticsInv workspaceOf (state.changed document) where
  sound := hInv.sound.retold _ _
  covered hRunning :=
    retold_coveredBut (hInv.covered hRunning)
      fun other hOther => by
        rw [OrderedMap.get_set, if_neg hOther]
  armed := hInv.armed

theorem close_inv
    (hInv : DiagnosticsInv workspaceOf state)
    (uri : String) :
    DiagnosticsInv workspaceOf (state.close uri) := by
  have hTold :
      Sound workspaceOf
        { state with
          documents := state.documents.delete uri
          awaited := state.awaited.filter (·.uri ≠ uri) } :=
    hInv.sound.retold _ _
  have hFrame :=
    cancel_frame
      { state with
        documents := state.documents.delete uri
        awaited := state.awaited.filter (·.uri ≠ uri) } uri
  have hSound := (cancel_narrows hTold uri).sound hTold
  unfold close
  simp only
  refine ⟨⟨?_, hSound.stopped, ?_, hSound.count, ?_⟩, ?_, ?_⟩
  · exact hSound.pends_of_same rfl rfl fun _ => rfl
  · intro document openVersion refreshed hOutput
    rcases List.mem_append.mp hOutput with hOld | hNew
    · exact hSound.fresh _ _ _ hOld
    · cases List.mem_singleton.mp hNew
  · intro hRunning hCount
    simp only
    rw [hSound.deferred hRunning hCount]
    rfl
  · intro hRunning other version hWaits hNot
    have hBefore : state.disposed = false :=
      hFrame.disposed.symm.trans hRunning
    have hTold :=
      cancel_coveredBut hTold
        (retold_coveredBut (hInv.covered hBefore)
          fun other hOther => by
            rw [OrderedMap.get_delete, if_neg hOther])
        uri
    have hOther : other ≠ uri := by
      rintro rfl
      have hOpen := hWaits.1
      simp only [hFrame.documents, OrderedMap.get_delete,
        if_true] at hOpen
      cases hOpen
    exact
      (hTold other version hWaits
          fun hExempt => hExempt.elim id hOther).kept
        (fun _ => rfl)
        (fun _ _ hPending hDiagnosis => ⟨hPending, hDiagnosis⟩)
        (fun hDeferred =>
          List.mem_filter.mpr ⟨hDeferred, decide_eq_true hOther⟩)
        (fun hDirty => hDirty)
  · intro hRunning hDirty
    simp only [hFrame.disposed] at hRunning
    simp only [hFrame.dirtyWorkspaces] at hDirty
    simp only [hFrame.refreshTimer, hFrame.suspensionCount]
    exact hInv.armed hRunning hDirty

/- A suspended diagnosis leaves its document deferred. -/
theorem deferCancel_sound
    (hSound : Sound workspaceOf state)
    (hSuspended : 0 < state.suspensionCount)
    (uri : String) :
    Sound workspaceOf ((state.defer uri).cancel uri) := by
  have hDefer := defer_sound hSound hSuspended uri
  exact (cancel_narrows hDefer uri).sound hDefer

theorem deferCancel_frame
    (state : DocumentDiagnostics)
    (uri : String) :
    Frame state ((state.defer uri).cancel uri) := by
  have hDefer : Frame state (state.defer uri) :=
    ⟨rfl, rfl, rfl, rfl, rfl, rfl, rfl⟩
  exact hDefer.trans (cancel_frame (state.defer uri) uri)

theorem deferCancel_coveredBut
    (hSound : Sound workspaceOf state)
    (hSuspended : 0 < state.suspensionCount)
    (hCovered :
      CoveredBut workspaceOf
        (fun other => Exempt other ∨ other = uri)
        state) :
    CoveredBut workspaceOf Exempt
      ((state.defer uri).cancel uri) := by
  have hDefer := defer_sound hSound hSuspended uri
  have hCancel :=
    cancel_coveredBut hDefer (defer_coveredBut hCovered) uri
  intro other version hWaits hNot
  by_cases hSame : other = uri
  · refine .deferred ?_
    rw [(cancel_narrows hDefer uri).deferredUris]
    exact (mem_defer state uri other).mpr (.inr hSame)
  · exact
      hCancel other version hWaits
        (fun hExempt => hExempt.elim hNot hSame)

theorem beginSuspension_sound
    (hSound : Sound workspaceOf state) :
    Sound workspaceOf state.beginSuspension where
  pends := hSound.pends_of_same rfl rfl fun _ => rfl
  stopped := hSound.stopped
  fresh := hSound.fresh
  count := by
    unfold beginSuspension activeSuspensions
    simp only [List.countP_append]
    rw [hSound.count]
    rfl
  deferred _ hCount := by
    cases hCount

theorem suspend_inv
    (hInv : DiagnosticsInv workspaceOf state) :
    DiagnosticsInv workspaceOf state.suspend := by
  have hBegun := beginSuspension_sound hInv.sound
  have hFrame :=
    foldl_frame deferCancel_frame state.pending.keys
      state.beginSuspension
  have hSuspended :
      ∀ middle,
        Frame state.beginSuspension middle →
          0 < middle.suspensionCount := by
    intro middle hStart
    rw [hStart.suspensionCount]
    exact Nat.succ_pos _
  refine ⟨?_, ?_, fun _ _ => .inr (hSuspended _ hFrame)⟩
  · exact
      foldl_sound _ deferCancel_frame _
        (fun middle uri hStart hOld =>
          deferCancel_sound hOld (hSuspended middle hStart) uri)
        hBegun
  · intro hStopped
    have hRunning : state.disposed = false :=
      hFrame.disposed.symm.trans hStopped
    have hCovered :
        CoveredBut workspaceOf (fun _ => False)
          state.beginSuspension :=
      (hInv.covered hRunning).same rfl rfl rfl rfl rfl rfl rfl
    refine
      (foldl_covered id state.beginSuspension deferCancel_frame
        _ ?_ (Frame.refl _) hBegun ?_).2
    · intro middle uri Exempt _ hStart hOld hMiddle
      have hPositive := hSuspended middle hStart
      exact
        ⟨deferCancel_sound hOld hPositive uri,
          deferCancel_coveredBut hOld hPositive hMiddle⟩
    · intro uri version hWaits _
      exact hCovered uri version hWaits (fun hFalse => hFalse)

variable {suspension : Suspension}

/- A release ends one of the active suspensions. -/
theorem activeSuspensions_release
    {suspensions : List Suspension}
    (hSuspension : suspensions[index]? = some suspension)
    (hActive : suspension.released = false) :
    activeSuspensions
        (suspensions.modify index fun suspension =>
          { suspension with released := true }) + 1
      = activeSuspensions suspensions := by
  unfold activeSuspensions
  induction suspensions generalizing index with
  | nil => cases hSuspension
  | cons head tail ih =>
    cases index with
    | zero =>
      cases hSuspension
      simp [hActive]
    | succ index =>
      rw [List.modify_succ_cons, List.countP_cons,
        List.countP_cons, ← ih hSuspension]
      exact Nat.add_right_comm _ _ _

theorem resume_frame
    (state : DocumentDiagnostics)
    (uri : String) :
    Frame state (state.resume workspaceOf uri) := by
  unfold resume
  split
  · split
    · exact update_frame workspaceOf state _
    · exact Frame.refl state
  · exact Frame.refl state

theorem resume_sound
    (hSound : Sound workspaceOf state)
    (uri : String) :
    Sound workspaceOf (state.resume workspaceOf uri) := by
  unfold resume
  split
  · split
    · exact update_sound hSound _
    · exact hSound
  · exact hSound

/- A deferred document is updated, or will be refreshed. -/
theorem resume_coveredBut
    (hSound : Sound workspaceOf state)
    (hRunning : state.disposed = false)
    (hCovered :
      CoveredBut workspaceOf
        (fun other => Exempt other ∨ other = uri)
        state) :
    CoveredBut workspaceOf Exempt
      (state.resume workspaceOf uri) := by
  have hOthers :
      ∀ other version,
        Waits workspaceOf state other version →
        ¬ Exempt other →
        other ≠ uri →
        Covered workspaceOf state other version := by
    intro other version hWaits hNot hNe
    exact
      hCovered other version hWaits
        (fun hExempt => hExempt.elim hNot hNe)
  unfold resume
  split
  · rename_i version hOpen
    split
    · exact update_coveredBut hSound hRunning hOpen hCovered
    · rename_i hDirty
      intro other current hWaits hNot
      by_cases hSame : other = uri
      · refine .dirty ?_
        rw [hSame]
        cases hDue :
            state.dirtyWorkspaces.get (workspaceOf uri) with
        | none => exact absurd (hDue ▸ rfl) hDirty
        | some due => rfl
      · exact hOthers other current hWaits hNot hSame
  · rename_i hClosed
    intro other current hWaits hNot
    refine hOthers other current hWaits hNot ?_
    rintro rfl
    rw [hWaits.1] at hClosed
    cases hClosed

theorem endSuspension_count
    (hSound : Sound workspaceOf state)
    (hSuspension : state.suspensions[index]? = some suspension)
    (hActive : suspension.released = false) :
    (state.endSuspension index).suspensionCount =
      activeSuspensions
        (state.endSuspension index).suspensions := by
  have hOne := activeSuspensions_release hSuspension hActive
  unfold endSuspension
  simp only
  rw [hSound.count, ← hOne]
  exact Nat.add_sub_cancel _ 1

/- The deferred documents may go when they are nobody's. -/
theorem endSuspension_sound
    (hSound : Sound workspaceOf state)
    (hSuspension : state.suspensions[index]? = some suspension)
    (hActive : suspension.released = false)
    {deferredUris : List String}
    (hDeferred :
      state.disposed = false →
        (state.endSuspension index).suspensionCount = 0 →
          deferredUris = []) :
    Sound workspaceOf
      { state.endSuspension index with
        deferredUris := deferredUris } where
  pends := hSound.pends_of_same rfl rfl fun _ => rfl
  stopped := hSound.stopped
  fresh := hSound.fresh
  count := endSuspension_count hSound hSuspension hActive
  deferred := hDeferred

theorem release_inv
    (hInv : DiagnosticsInv workspaceOf state)
    (index : Nat) :
    DiagnosticsInv workspaceOf
      (state.release workspaceOf index) := by
  have hSound := hInv.sound
  cases hSuspension : state.suspensions[index]? with
  | none =>
    unfold release
    rw [hSuspension]
    exact hInv
  | some suspension =>
    unfold release
    rw [hSuspension]
    simp only [Option.any_some]
    split
    · rename_i hReady
      rw [Bool.and_eq_true, Bool.not_eq_true'] at hReady
      split
      · rename_i hIdle
        refine
          ⟨endSuspension_sound hSound hSuspension hReady.1 ?_,
            ?_, ?_⟩
        · intro hRunning hCount
          rcases hIdle with hDisposed | hSuspended
          · have hStopped : state.disposed = true := hDisposed
            rw [hRunning] at hStopped
            cases hStopped
          · rw [hCount] at hSuspended
            exact absurd hSuspended (Nat.lt_irrefl 0)
        · intro hRunning
          exact
            (hInv.covered hRunning).same rfl rfl rfl rfl rfl
              rfl rfl
        · intro hRunning _
          rcases hIdle with hDisposed | hSuspended
          · rw [hRunning] at hDisposed
            cases hDisposed
          · exact .inr hSuspended
      · have hBegun :
            Sound workspaceOf
              { state.endSuspension index with
                deferredUris := [] } :=
          endSuspension_sound hSound hSuspension hReady.1
            (fun _ _ => rfl)
        refine
          scheduleRefresh_inv
            (foldl_sound _ resume_frame _
              (fun _ uri _ hOld => resume_sound hOld uri)
              hBegun)
            ?_
        intro hStopped
        rw [(foldl_frame resume_frame _ _).disposed] at hStopped
        have hRunning : state.disposed = false := hStopped
        refine
          (foldl_covered id
            { state.endSuspension index with
              deferredUris := [] }
            resume_frame _ ?_ (Frame.refl _) hBegun ?_).2
        · intro middle uri Exempt _ hStart hOld hCovered
          exact
            ⟨resume_sound hOld uri,
              resume_coveredBut hOld
                (hStart.disposed.trans hRunning) hCovered⟩
        · intro uri version hWaits hNot
          exact
            (hInv.covered hRunning uri version hWaits
                fun hFalse => hFalse).kept
              (fun _ => rfl)
              (fun _ _ hPending hDiagnosis =>
                ⟨hPending, hDiagnosis⟩)
              (fun hDeferred =>
                absurd (List.mem_map.mpr ⟨uri, hDeferred, rfl⟩)
                  hNot)
              (fun hDirty => hDirty)
    · exact hInv

theorem get_pending_foldl_cancel
    (uris : List String)
    (state : DocumentDiagnostics)
    (other : String) :
    (uris.foldl cancel state).pending.get other =
      if other ∈ uris then none
      else state.pending.get other := by
  induction uris generalizing state with
  | nil => rfl
  | cons uri uris ih =>
    rw [List.foldl_cons, ih, get_pending_cancel]
    by_cases hTail : other ∈ uris
    · simp [hTail]
    · simp [hTail]

theorem outputs_foldl_cancel
    (uris : List String)
    (state : DocumentDiagnostics) :
    (uris.foldl cancel state).outputs = state.outputs := by
  induction uris generalizing state with
  | nil => rfl
  | cons uri uris ih =>
    rw [List.foldl_cons, ih]
    unfold cancel
    split
    · rfl
    · rfl

theorem dispose_inv
    (hInv : DiagnosticsInv workspaceOf state) :
    DiagnosticsInv workspaceOf state.dispose := by
  have hFrame :=
    foldl_frame cancel_frame state.pending.keys
      { state with
        disposed := true
        deferredUris := []
        dirtyWorkspaces := .empty
        workspaceEpochs := .empty
        refreshTimer := none }
  have hDisposed : state.dispose.disposed = true :=
    hFrame.disposed
  have hNone :
      ∀ uri, state.dispose.pending.get uri = none := by
    intro uri
    unfold dispose
    rw [get_pending_foldl_cancel]
    split
    · rfl
    · rename_i hAbsent
      exact OrderedMap.get_eq_none_iff.mpr hAbsent
  refine ⟨⟨?_, fun _ => hNone, ?_, ?_, ?_⟩, ?_, ?_⟩
  · intro uri id hPending
    rw [hNone] at hPending
    cases hPending
  · intro document openVersion refreshed hOutput
    unfold dispose at hOutput
    rw [outputs_foldl_cancel] at hOutput
    exact hInv.sound.fresh _ _ _ hOutput
  · unfold dispose
    rw [hFrame.suspensionCount, hFrame.suspensions]
    exact hInv.sound.count
  all_goals
    intro hRunning
    rw [hDisposed] at hRunning
    cases hRunning

----------
-- Runs
----------

theorem diagnosticsInv_initial :
    DiagnosticsInv workspaceOf {} where
  sound :=
    { pends := by
        intro uri id hPending
        cases hPending
      stopped := fun _ _ => rfl
      fresh := by
        intro document openVersion refreshed hOutput
        cases hOutput
      count := rfl
      deferred := fun _ _ => rfl }
  covered := by
    rintro _ uri version ⟨_, hAwaited⟩
    cases hAwaited
  armed _ hDirty := absurd rfl hDirty

theorem ofDiagnosis_inv
    (hInv : DiagnosticsInv workspaceOf state)
    {step : Diagnosis → DocumentDiagnostics}
    (hStep :
      ∀ diagnosis,
        state.diagnoses[id]? = some diagnosis →
          Kept workspaceOf state (step diagnosis)) :
    DiagnosticsInv workspaceOf (state.ofDiagnosis id step) := by
  unfold ofDiagnosis
  cases hDiagnosis : state.diagnoses[id]? with
  | none => exact hInv
  | some diagnosis => exact (hStep diagnosis hDiagnosis).inv hInv

theorem diagnosticsInv_step
    (state : DocumentDiagnostics)
    (event : DiagnosticsEvent)
    (hInv : DiagnosticsInv workspaceOf state) :
    DiagnosticsInv workspaceOf
      (diagnosticsStep workspaceOf state event) := by
  cases event with
  | changed document => exact changed_inv hInv document
  | update uri =>
    change
      DiagnosticsInv workspaceOf
        ((state.documents.get uri).elim state fun version =>
          state.update workspaceOf ⟨uri, version⟩)
    cases hOpen : state.documents.get uri with
    | none => exact hInv
    | some version =>
      exact (update_kept hInv hOpen).inv hInv
  | refreshWorkspace workspaceId now =>
    exact refreshWorkspace_inv hInv workspaceId now
  | close uri => exact close_inv hInv uri
  | suspend => exact suspend_inv hInv
  | release index => exact release_inv hInv index
  | dispose => exact dispose_inv hInv
  | timerFired id =>
    exact
      ofDiagnosis_inv hInv fun _ hDiagnosis =>
        timerFired_kept hInv hDiagnosis
  | diagnosed id settlement =>
    exact
      ofDiagnosis_inv hInv fun _ hDiagnosis =>
        diagnosed_kept hInv hDiagnosis settlement
  | diagnosticsSent id settlement =>
    exact
      ofDiagnosis_inv hInv fun _ hDiagnosis =>
        diagnosticsSent_kept hInv hDiagnosis settlement
  | refreshFired now => exact refreshFired_inv hInv now

/-
  After every run, what was published was for the version
  that was open, in a workspace that had not been refreshed
  since.  Before the end, an open document whose version was
  requested in the epoch of its workspace, and that has had
  no answer, has a pending diagnosis of just that, is
  deferred by a suspension, or is in a dirty workspace, for
  which the timer is armed or a suspension is active.
-/
theorem diagnostics_fresh_and_kept
    (workspaceOf : String → String)
    (events : List DiagnosticsEvent) :
    let state := run (diagnosticsStep workspaceOf) {} events
    (∀ document openVersion refreshed,
      .diagnostics document openVersion refreshed
          ∈ state.outputs →
        openVersion = some document.version ∧
          refreshed = false) ∧
      (state.disposed = false →
        ∀ uri version,
          state.documents.get uri = some version →
          ⟨uri, version, state.epoch (workspaceOf uri)⟩
              ∈ state.awaited →
          (∃ id diagnosis,
            state.pending.get uri = some id ∧
              state.diagnoses[id]? = some diagnosis ∧
              diagnosis.document.version = version ∧
              diagnosis.epoch
                = state.epoch (workspaceOf uri) ∧
              diagnosis.aborted = false) ∨
            (uri ∈ state.deferredUris ∧
              ∃ suspension ∈ state.suspensions,
                suspension.released = false) ∨
            ((state.dirtyWorkspaces.get
                (workspaceOf uri)).isSome = true ∧
              (state.refreshTimer.isSome = true ∨
                ∃ suspension ∈ state.suspensions,
                  suspension.released = false))) := by
  intro state
  have hInv : DiagnosticsInv workspaceOf state :=
    run_invariant diagnosticsInv_step diagnosticsInv_initial
      events
  have hActive :
      0 < state.suspensionCount →
        ∃ suspension ∈ state.suspensions,
          suspension.released = false := by
    intro hPositive
    rw [hInv.sound.count] at hPositive
    rcases List.countP_pos_iff.mp hPositive with
      ⟨suspension, hMem, hReleased⟩
    exact ⟨suspension, hMem, by simpa using hReleased⟩
  refine ⟨hInv.sound.fresh, ?_⟩
  intro hRunning uri version hOpen hAwaited
  cases hInv.covered hRunning uri version ⟨hOpen, hAwaited⟩
      (fun hFalse => hFalse) with
  | pending id diagnosis hPending hDiagnosis hAnswers =>
      have hPends := hInv.sound.pends_at hPending hDiagnosis
      exact
        .inl
          ⟨id, diagnosis, hPending, hDiagnosis,
            hAnswers.ofVersion, hAnswers.ofEpoch,
            hPends.unaborted⟩
  | deferred hDeferred =>
      refine .inr (.inl ⟨hDeferred, hActive ?_⟩)
      refine Nat.pos_of_ne_zero fun hCount => ?_
      rw [hInv.sound.deferred hRunning hCount] at hDeferred
      cases hDeferred
  | dirty hDirty =>
      refine .inr (.inr ⟨hDirty, ?_⟩)
      have hEntries : state.dirtyWorkspaces.entries ≠ [] := by
        intro hNil
        unfold OrderedMap.get at hDirty
        rw [hNil] at hDirty
        cases hDirty
      exact (hInv.armed hRunning hEntries).imp id hActive

/- A refresh fences the diagnosis that it interrupts. -/
example :
    (run (diagnosticsStep fun _ => "w") {}
      [.changed ⟨"a", 1⟩, .update "a", .timerFired 0,
        .refreshWorkspace "w" 0, .diagnosed 0 .value,
        .refreshFired 80, .timerFired 1,
        .diagnosed 1 .value]).outputs
      = [.diagnostics ⟨"a", 1, "w"⟩ (some 1) false] := by
  decide +kernel

end Workspaces

end Lsp

end ArktsServer
