import ArktsServer.Semantic.SupervisorAccounting
import ArktsServer.Semantic.WireSizes

/-
  Which edits the supervisor of a root takes up.  An edit
  over a limit of the guard restarts the root.  The guard
  looks at the bytes of the text and at the number of the
  changes; the codec behind it looks at the bytes of the
  whole message, and what only the codec finds too large is
  thrown back as invalid.

  Key definitions include:
    * `canonicalWorkerFileUri`
    * `StructurallyValid`
    * `TakenUp`, `Restarted`

  Correctness is proven by:
    * `checkMutation_eq`
    * `mutate_admits_iff`
-/

----------
-- URIs
----------

namespace ArktsServer

namespace Semantic

open Supervisor

def maxSemanticWorkerUriBytes : Nat := 16 * 1024

/-
  `canonicalWorkerFileUri`.  The reading of the text as a
  URL and as a path is left open.
-/
def canonicalWorkerFileUri
    (isFileUrl : Uri → Bool)
    (value : Uri) :
    Bool :=
  (stringByteMetrics (codeUnits value)
      maxSemanticWorkerUriBytes maxSemanticWorkerMessageBytes
      .invalidMutation .invalidMutation).isOk
    && isFileUrl value

theorem stringBytes_of_canonical
    {isFileUrl : Uri → Bool}
    {uri : Uri}
    (hCanonical : canonicalWorkerFileUri isFileUrl uri = true) :
    stringBytes uri ≤ 6 * maxSemanticWorkerUriBytes + 2 := by
  unfold canonicalWorkerFileUri at hCanonical
  have hBounds := byteMetrics_bounds (codeUnits uri)
  cases hMetrics :
      stringByteMetrics (codeUnits uri)
        maxSemanticWorkerUriBytes maxSemanticWorkerMessageBytes
        .invalidMutation .invalidMutation with
  | error error =>
    rw [hMetrics] at hCanonical
    cases hCanonical
  | ok metrics =>
    rcases stringByteMetrics_ok_iff.mp hMetrics with
      ⟨rfl, hRaw, _⟩
    unfold stringBytes
    omega

----------
-- Valid Edits
----------

/- What the constructor of the supervisor has checked. -/
structure Constructed
    (options : SupervisorOptions) : Prop where
  epoch : 0 < options.epoch
  root :
    options.protocol.isCanonicalSemanticWorkerFileUri
      options.rootUri = true

/- A valid edit of the root, of any size. -/
def StructurallyValid
    (options : SupervisorOptions) :
    RootSemanticWorkerMutationInput → Prop
| .document mutation =>
    isSemanticWorkerUriWithinRoot options mutation.uri = true ∧
      mutation.documentVersion ≤ maxSafeInteger
| .workspaceFilesChanged files =>
    files.rootUri = options.rootUri ∧
      (files.configurationChanged = some true →
        files.rootDirty = true) ∧
      (files.resourceDirty = true →
        files.resourceChanged = true) ∧
      (files.rootDirty = true ∨ files.resourceChanged = true
        ∨ files.changes ≠ []) ∧
      ∀ change ∈ files.changes,
        isSemanticWorkerUriWithinRoot options change.uri = true

variable {options : SupervisorOptions}
variable {supervisor : Supervisor}
variable {input : RootSemanticWorkerMutationInput}
variable {isFileUrl : Uri → Bool}

theorem withinRoot_iff
    {uri : Uri} :
    isSemanticWorkerUriWithinRoot options uri = true ↔
      options.protocol.isCanonicalSemanticWorkerFileUri uri
          = true ∧
        options.protocol.isCanonicalSemanticWorkerFileUri
          options.rootUri = true ∧
        options.protocol.isUriWithinRoot uri options.rootUri
          = true := by
  unfold isSemanticWorkerUriWithinRoot
  rw [Bool.and_eq_true, Bool.and_eq_true, and_assoc]

theorem StructurallyValid.wellFormed
    (hConstructed : Constructed options)
    (hValid : StructurallyValid options input) :
    WellFormed options.protocol input := by
  cases input with
  | document mutation =>
    exact ⟨(withinRoot_iff.mp hValid.1).1, hValid.2⟩
  | workspaceFilesChanged files =>
    rcases hValid with
      ⟨hRoot, hConfiguration, hResource, hEffect, hChanges⟩
    refine
      ⟨hRoot ▸ hConstructed.root, hConfiguration, hResource,
        hEffect, fun change hChange => ?_⟩
    rcases withinRoot_iff.mp (hChanges change hChange) with
      ⟨hCanonical, _, hWithin⟩
    exact ⟨hCanonical, hRoot ▸ hWithin⟩

/- A close is never too large. -/
theorem close_fits
    {uri : Uri}
    {version : Nat}
    (hCanonical : canonicalWorkerFileUri isFileUrl uri = true)
    (hVersion : version ≤ maxSafeInteger) :
    messageBytes 1 1 (.document ⟨.closed, uri, version, []⟩)
      ≤ maxSemanticWorkerMessageBytes := by
  have hUri := stringBytes_of_canonical hCanonical
  have hDigits : numberWireBytes version ≤ 16 :=
    (Nat.length_toDigits_le_iff (by decide) (by decide)).mpr
      (Nat.lt_of_le_of_lt hVersion (by decide))
  have hNames :
      objectBytes
          [("protocol", numberWireBytes 2),
            ("epoch", numberWireBytes 1),
            ("revision", numberWireBytes 1),
            ("kind", stringBytes "close"), ("uri", 0),
            ("documentVersion", 0)] = 78 := by
    decide
  have hBytes :
      messageBytes 1 1
          (.document ⟨.closed, uri, version, []⟩) =
        78 + stringBytes uri + numberWireBytes version := by
    rw [← hNames]
    unfold messageBytes messageFields documentFields
      documentTextFields objectBytes
    simp only [if_pos, List.append_nil, totalBytes,
      List.length_cons, List.length_nil, fieldBytes,
      DocumentMutationKind.name]
    omega
  have hLimits :
      78 + (6 * maxSemanticWorkerUriBytes + 2) + 16
        ≤ maxSemanticWorkerMessageBytes := by
    decide
  omega

----------
-- Checks
----------

theorem StructurallyValid.targetsRoot
    (hUris :
      options.protocol.isCanonicalSemanticWorkerFileUri =
        canonicalWorkerFileUri isFileUrl)
    (hValid : StructurallyValid options input) :
    mutationTargetsRoot options input = true := by
  cases input with
  | document mutation =>
    have hCanonical := (withinRoot_iff.mp hValid.1).1
    have hClose :
        decodeDocumentMutation options.protocol 1 1
            ⟨.closed, mutation.uri,
              mutation.documentVersion, []⟩ = .ok _ :=
      (decodeDocumentMutation_ok_iff Nat.one_pos
        Nat.one_pos).mpr
        ⟨⟨hCanonical, hValid.2⟩, Nat.zero_le _,
          close_fits (hUris ▸ hCanonical) hValid.2⟩
    simp only [mutationTargetsRoot, hClose, hValid.1]
    rfl
  | workspaceFilesChanged files =>
    exact decide_eq_true hValid.1

theorem StructurallyValid.overbound
    (hConstructed : Constructed options)
    (hValid : StructurallyValid options input) :
    overboundStructure options input = true := by
  cases input with
  | document mutation => rfl
  | workspaceFilesChanged files =>
    rcases hValid with
      ⟨hRoot, hConfiguration, hResource, _, hChanges⟩
    have hCanonical := hConstructed.root
    rw [← hRoot] at hCanonical
    have hAll :
        ∀ change ∈ files.changes,
          options.protocol.isCanonicalSemanticWorkerFileUri
              change.uri = true ∧
            isSemanticWorkerUriWithinRoot options change.uri
              = true :=
      fun change hChange =>
        ⟨(withinRoot_iff.mp (hChanges change hChange)).1,
          hChanges change hChange⟩
    unfold overboundStructure
    simp only [Bool.and_eq_true, decide_eq_true_eq,
      Bool.not_eq_true', Bool.and_eq_false_iff,
      decide_eq_false_iff_not, Bool.not_eq_false',
      List.all_eq_true]
    refine ⟨⟨⟨⟨hRoot, hCanonical⟩, ?_⟩, ?_⟩, hAll⟩
    · by_cases hChanged :
        files.configurationChanged = some true
      · exact Or.inr (hConfiguration hChanged)
      · exact Or.inl hChanged
    · cases hDirty : files.resourceDirty with
      | true => exact Or.inr (hResource hDirty)
      | false => exact Or.inl rfl

/- The guard lets the counts through that the codec takes. -/
theorem exceeds_eq_false_iff :
    mutationExceedsTransportBounds input = false ↔
      WithinCounts input := by
  unfold mutationExceedsTransportBounds WithinCounts
  rw [Bool.or_eq_false_iff, decide_eq_false_iff_not, Nat.not_lt]
  cases input with
  | document mutation =>
    exact and_iff_left rfl
  | workspaceFilesChanged files =>
    simp only [workspaceMutationExceedsFileChangeBound,
      decide_eq_false_iff_not, Nat.not_lt]
    exact and_iff_right (Nat.zero_le _)

/- What the checks make of a valid edit. -/
theorem checkMutation_eq
    (hUris :
      options.protocol.isCanonicalSemanticWorkerFileUri =
        canonicalWorkerFileUri isFileUrl)
    (hConstructed : Constructed options)
    (hValid : StructurallyValid options input) :
    checkMutation options input =
      if mutationExceedsTransportBounds input = true then
        .restart
      else if messageBytes options.epoch 1 input
          ≤ maxSemanticWorkerMessageBytes then
        .canonical input
      else
        .invalid := by
  have hTargets := hValid.targetsRoot hUris
  have hOverbound := hValid.overbound hConstructed
  unfold checkMutation
  rw [hTargets, hOverbound]
  simp only [Bool.not_true, Bool.and_false, Bool.false_eq_true,
    if_false]
  by_cases hExceeds : mutationExceedsTransportBounds input = true
  · rw [if_pos hExceeds, if_pos hExceeds]
  · rw [if_neg hExceeds, if_neg hExceeds]
    have hCounts :=
      exceeds_eq_false_iff.mp (Bool.not_eq_true _ ▸ hExceeds)
    have hCodec :=
      @canonicalMutationInput_ok_iff options.protocol input
        options.epoch hConstructed.epoch
    by_cases hFits :
        messageBytes options.epoch 1 input
          ≤ maxSemanticWorkerMessageBytes
    · rw [if_pos hFits,
        hCodec.mpr
          ⟨hValid.wellFormed hConstructed, hCounts, hFits⟩]
      simp only [hTargets, if_true]
    · rw [if_neg hFits]
      cases hCanonical :
          canonicalMutationInput options.protocol options.epoch
            input with
      | error error => rfl
      | ok canonical =>
        rw [canonicalMutationInput_eq _ hCanonical] at hCanonical
        exact absurd (hCodec.mp hCanonical).2.2 hFits

----------
-- Outcomes
----------

/- The edit is in the queue, on its own or with another. -/
def TakenUp
    (options : SupervisorOptions)
    (supervisor : Supervisor)
    (input : RootSemanticWorkerMutationInput)
    (outcome :
      Supervisor × Except SemanticWorkerErrorCode Nat) : Prop :=
  outcome =
      (pump options
          (supervisor.nextGeneration.pushMutation input),
        .ok supervisor.nextPromise) ∨
    ∃ record ∈ supervisor.pendingMutations, ∃ next,
      mergeMutations options.protocol options.epoch
          record.input input = .ok next ∧
        outcome =
          (pump options
              (supervisor.nextGeneration.joinMutation record
                input next),
            .ok record.promise)

/-
  The promise is rejected with `restart-required`, and the
  fatal shutdown has begun.
-/
structure Restarted
    (supervisor : Supervisor)
    (outcome :
      Supervisor × Except SemanticWorkerErrorCode Nat) :
    Prop where
  promise : outcome.2 = .ok supervisor.nextPromise
  rejected :
    ∃ later,
      outcome.1.log =
          supervisor.log
            ++ .settled supervisor.nextPromise
                (.rejected .restartRequired)
              :: .stopped :: later
  failure : outcome.1.failure = some .restartRequired
  disposed : outcome.1.disposed = true
  terminating : outcome.1.terminating = true

theorem failure_of_available
    (hAvailable : supervisor.assertAvailable = .ok ()) :
    supervisor.failure = none := by
  unfold assertAvailable at hAvailable
  cases hFailure : supervisor.failure with
  | none => rfl
  | some failure =>
    rw [hFailure] at hAvailable
    cases hAvailable

theorem restarted_of_reject
    (hAvailable : supervisor.assertAvailable = .ok ()) :
    Restarted supervisor supervisor.rejectMutationAndRestart := by
  have hNone :
      (supervisor.rejectedPromise .restartRequired).failure =
        none :=
    failure_of_available hAvailable
  have hShutdown :
      (supervisor.rejectedPromise
          .restartRequired).beginFatalShutdown
          .restartRequired =
        { (supervisor.rejectedPromise
            .restartRequired).shutDown .restartRequired with
          failureWaits := true } := by
    unfold beginFatalShutdown
    simp only [hNone]
  have hRejected :
      (supervisor.rejectedPromise .restartRequired).log =
        supervisor.log
          ++ [.settled supervisor.nextPromise
            (.rejected .restartRequired)] :=
    rfl
  have hLog :
      ((supervisor.rejectedPromise
          .restartRequired).shutDown .restartRequired).log =
        (supervisor.rejectedPromise .restartRequired).log
          ++ .stopped :: rejections .restartRequired
            (supervisor.pendingMutationPromises
              ++ supervisor.pendingRequestPromises) :=
    rfl
  rw [hRejected, List.append_assoc] at hLog
  unfold rejectMutationAndRestart
  rw [hShutdown]
  exact ⟨rfl, ⟨_, hLog⟩, rfl, rfl, rfl⟩

/- Behind the checks, nothing is thrown any more. -/
theorem acceptMutation_cases
    (hAvailable : supervisor.assertAvailable = .ok ()) :
    TakenUp options supervisor input
        (acceptMutation options supervisor input) ∨
      Restarted supervisor
        (acceptMutation options supervisor input) := by
  have hReject := restarted_of_reject hAvailable
  unfold acceptMutation
  cases hExisting :
      findCoalescingMutation supervisor.pendingMutations
        input with
  | none =>
    simp only [nextSnapshot]
    split
    · exact Or.inr hReject
    · exact Or.inl (Or.inl rfl)
  | some record =>
    cases hNext :
        mergeMutations options.protocol options.epoch
          record.input input with
    | error error =>
      simp only [nextSnapshot, hNext]
      exact Or.inr hReject
    | ok next =>
      simp only [nextSnapshot, hNext]
      split
      · exact Or.inr hReject
      · exact
          Or.inl
            (Or.inr
              ⟨record, findCoalescing_mem hExisting,
                next, hNext, rfl⟩)

/- A refusal is no outcome of the two. -/
theorem not_of_refused
    {outcome :
      Supervisor × Except SemanticWorkerErrorCode Nat}
    {code : SemanticWorkerErrorCode}
    (hRefused : outcome.2 = .error code) :
    ¬ (TakenUp options supervisor input outcome ∨
      Restarted supervisor outcome) := by
  rintro ((rfl | ⟨record, _, next, _, rfl⟩) | hRestarted)
  · cases hRefused
  · cases hRefused
  · rw [hRestarted.promise] at hRefused
    cases hRefused

/- What is only too large for the codec is thrown back. -/
theorem mutate_refused
    (hUris :
      options.protocol.isCanonicalSemanticWorkerFileUri =
        canonicalWorkerFileUri isFileUrl)
    (hConstructed : Constructed options)
    (hAvailable : supervisor.assertAvailable = .ok ())
    (hValid : StructurallyValid options input)
    (hCounts : WithinCounts input)
    (hOver :
      maxSemanticWorkerMessageBytes
        < messageBytes options.epoch 1 input) :
    supervisor.mutate options input =
      (supervisor, .error .invalidRequest) := by
  have hExceeds := exceeds_eq_false_iff.mpr hCounts
  unfold mutate
  rw [hAvailable, checkMutation_eq hUris hConstructed hValid,
    hExceeds]
  simp only [Bool.false_eq_true, if_false,
    if_neg (Nat.not_le.mpr hOver)]

/-
  A valid edit is taken up or restarts the root exactly when
  the guard finds it too large or its message is not.
-/
theorem mutate_admits_iff
    (hUris :
      options.protocol.isCanonicalSemanticWorkerFileUri =
        canonicalWorkerFileUri isFileUrl)
    (hConstructed : Constructed options)
    (hAvailable : supervisor.assertAvailable = .ok ())
    (hValid : StructurallyValid options input) :
    (TakenUp options supervisor input
          (supervisor.mutate options input) ∨
        Restarted supervisor
          (supervisor.mutate options input)) ↔
      (mutationExceedsTransportBounds input = true ∨
        messageBytes options.epoch 1 input
          ≤ maxSemanticWorkerMessageBytes) := by
  cases hExceeds : mutationExceedsTransportBounds input with
  | true =>
      have hRun :
          supervisor.mutate options input =
            supervisor.rejectMutationAndRestart := by
        unfold mutate
        rw [hAvailable,
          checkMutation_eq hUris hConstructed hValid,
          if_pos hExceeds]
      rw [hRun]
      exact
        iff_of_true (Or.inr (restarted_of_reject hAvailable))
          (Or.inl rfl)
  | false =>
      have hNot : ¬ mutationExceedsTransportBounds input = true :=
        by rw [hExceeds]; exact Bool.false_ne_true
      by_cases hFits :
          messageBytes options.epoch 1 input
            ≤ maxSemanticWorkerMessageBytes
      · have hRun :
            supervisor.mutate options input =
              acceptMutation options supervisor input := by
          unfold mutate
          rw [hAvailable,
            checkMutation_eq hUris hConstructed hValid,
            if_neg hNot, if_pos hFits]
        rw [hRun]
        exact
          iff_of_true (acceptMutation_cases hAvailable)
            (Or.inr hFits)
      · have hRun :=
          mutate_refused hUris hConstructed hAvailable hValid
            (exceeds_eq_false_iff.mp hExceeds)
            (Nat.not_le.mp hFits)
        rw [hRun]
        refine iff_of_false (not_of_refused rfl) ?_
        rintro (hTrue | hSmall)
        · cases hTrue
        · exact hFits hSmall

----------
-- Runs
----------

def isWorkspaceUri (uri : Uri) : Bool :=
  uri ∈ ["file:///w", "file:///w/a.ets"]

def workspaceOptions : SupervisorOptions :=
  { protocol :=
      { isCanonicalSemanticWorkerFileUri :=
          canonicalWorkerFileUri isWorkspaceUri
        isUriWithinRoot := fun _ root => root = "file:///w"
        decodesArguments := fun _ => true
        inputBytes := fun _ => 0
        decodesValue := fun _ _ _ => true }
    rootUri := "file:///w"
    epoch := 1
    sendThrows := fun _ => false }

def openedEdit (text : CodeUnits) :
    RootSemanticWorkerMutationInput :=
  .document ⟨.opened, "file:///w/a.ets", 1, text⟩

theorem workspaceOptions_constructed :
    Constructed workspaceOptions :=
  ⟨Nat.one_pos, by decide⟩

theorem openedEdit_valid
    (text : CodeUnits) :
    StructurallyValid workspaceOptions (openedEdit text) := by
  have hWithin :
      isSemanticWorkerUriWithinRoot workspaceOptions
        "file:///w/a.ets" = true := by
    decide
  have hVersion : 1 ≤ maxSafeInteger := by
    decide
  exact ⟨hWithin, hVersion⟩

theorem mutate_admits_letter :
    TakenUp workspaceOptions {} (openedEdit [0x61])
        (mutate workspaceOptions {} (openedEdit [0x61])) ∨
      Restarted {}
        (mutate workspaceOptions {} (openedEdit [0x61])) :=
  (mutate_admits_iff rfl workspaceOptions_constructed rfl
    (openedEdit_valid [0x61])).mpr
    (Or.inr (by decide))

theorem unitMetrics_lineFeeds
    (count : Nat) :
    unitMetrics (List.replicate count 0x0a) =
      ⟨count, 2 * count⟩ := by
  induction count with
  | zero => rfl
  | succ count ih =>
    cases count with
    | zero => rfl
    | succ count =>
      have hLine :
          unitMetrics (List.replicate (count + 2) 0x0a) =
            (codeUnitBytes 0x0a).add
              (unitMetrics (List.replicate (count + 1) 0x0a)) :=
        if_neg (by decide)
      have hCode : codeUnitBytes 0x0a = ⟨1, 2⟩ := by
        decide
      have hDouble :
          2 + 2 * (count + 1) = 2 * (count + 2) := by
        omega
      rw [hLine, ih, hCode, ByteMetrics.add]
      exact congrArg₂ ByteMetrics.mk (Nat.add_comm 1 _) hDouble

/- A line feed is one byte that takes two on the wire. -/
theorem mutate_lineFeeds
    {count : Nat}
    (hRaw : count ≤ maxSemanticWorkerTextBytes)
    (hWire : maxSemanticWorkerMessageBytes < 2 * count + 2) :
    mutate workspaceOptions {}
        (openedEdit (List.replicate count 0x0a)) =
      ({}, .error .invalidRequest) := by
  have hMetrics :
      byteMetrics (List.replicate count 0x0a) =
        ⟨count, 2 * count + 2⟩ := by
    rw [byteMetrics_eq, unitMetrics_lineFeeds]
    rfl
  refine
    mutate_refused rfl workspaceOptions_constructed rfl
      (openedEdit_valid _) ?_ ?_
  · change
      (byteMetrics (List.replicate count 0x0a)).rawBytes
        ≤ maxSemanticWorkerTextBytes
    rw [hMetrics]
    exact hRaw
  · have hText :
        ("text",
          (byteMetrics (List.replicate count 0x0a)).wireBytes) ∈
          messageFields 1 1
            (openedEdit (List.replicate count 0x0a)) :=
      List.mem_append_right _ (List.mem_singleton_self _)
    have hField := le_objectBytes hText
    rw [hMetrics] at hField
    exact Nat.lt_of_lt_of_le hWire hField

/-
  A text of line feeds is within the limit of the guard, and
  its message is not within that of the codec.
-/
theorem mutate_refuses_lineFeeds :
    ∃ (options : SupervisorOptions)
      (input : RootSemanticWorkerMutationInput),
      Constructed options ∧ StructurallyValid options input ∧
        mutate options {} input =
            ({}, .error .invalidRequest) ∧
          ¬ (TakenUp options {} input (mutate options {} input)
            ∨ Restarted {} (mutate options {} input)) := by
  have hRefused :=
    @mutate_lineFeeds 4194304 (by decide) (by decide)
  exact
    ⟨workspaceOptions,
      openedEdit (List.replicate 4194304 0x0a),
      workspaceOptions_constructed, openedEdit_valid _,
      hRefused, not_of_refused (congrArg Prod.snd hRefused)⟩

end Semantic

end ArktsServer
