import ArktsServer.Sidecar.WorkerTrace

/-
  How the client reads a catalog status: the checks of
  `mapCatalogStatus` on the JSON value and the monotonicity
  check between two reports.

  Key definitions include:
    * `Client.isNonNegativeInteger`
    * `Client.MappedCatalogStatus`
    * `Client.mapCatalogStatus`
    * `Client.assertMonotonicCatalogProgress`

  Correctness is proven by:
    * `Client.mapCatalogStatus_status`
    * `Client.assertMonotonic_of_progressLe`
-/

----------
-- Reading Values
----------

namespace ArktsServer

namespace Client

open Sidecar

/- A number that passes `isNonNegativeInteger`. -/
def isNonNegativeInteger : Option Json → Option Nat
| some (.num value) =>
    if value ≤ maxSafeInteger then some value else none
| _ => none

/- A value that passes `isNullableGeneration`. -/
def isNullableGeneration :
    Option Json → Option (Option Nat)
| some .null => some none
| value => (isNonNegativeInteger value).map some

/- An optional number: `undefined` passes. -/
def isOptionalInteger : Option Json → Option (Option Nat)
| none => some none
| value => (isNonNegativeInteger value).map some

/- The member of a type of names that a value spells. -/
def readName
    {α : Type}
    (name : α → String)
    (members : List α)
    (value : Option Json) : Option α :=
  match value with
  | some (.str text) =>
      members.find? fun member => name member == text
  | _ => none

def isCatalogPhase : Option Json → Option Phase :=
  readName Phase.name
    [.idle, .discovering, .activating, .cancelling, .ready,
      .partial_, .degraded, .cancelled]

def isIndexState : Option Json → Option IndexState :=
  readName stateName [.warming, .ready, .degraded]

def isCompleteness : Option Json → Option Completeness :=
  readName Completeness.name [.ready, .partial_, .stale]

def isCatalogStage : Option Json → Option CatalogStage :=
  readName CatalogStage.name
    [.writing, .committing, .checkpointing, .validating,
      .publishing, .checking, .reusing]

/- The message of a `SidecarProtocolError`. -/
abbrev Checked (α : Type) := Except String α

def asRecord (value : Option Json) : Checked Json :=
  match value with
  | some (.obj fields) => pure (.obj fields)
  | _ =>
      throw "index sidecar returned an invalid object"

----------
-- Mapped Statuses
----------

structure WorkspaceCatalogStorage where
  stage : CatalogStage
  writtenDocuments : Nat
  writtenRows : Nat
  stageElapsedMs : Nat
  activitySequence : Nat
  walFrames : Nat
  checkpointedFrames : Nat
deriving DecidableEq

structure CatalogProgressMark where
  phase : Phase
  discovered : Nat
  indexed : Nat
  rejected : Nat
  policySkipped : Nat
  ignored : Nat
  totalFiles : Option Nat
  storage : Option WorkspaceCatalogStorage
deriving DecidableEq

/- The phases that the client shows. -/
inductive ProgressPhase where
| discovering
| indexing
| ready
| degraded
| cancelled
deriving DecidableEq

structure WorkspaceIndexProgress where
  phase : ProgressPhase
  discoveredFiles : Nat
  indexedFiles : Nat
  skippedEntries : Nat
  storage : Option WorkspaceCatalogStorage
  totalFiles : Option Nat
deriving DecidableEq

structure WorkspaceIndexStatus where
  state : IndexState
  committedGeneration : Nat
  buildingGeneration : Option Nat
  message : Option String
deriving DecidableEq

structure MappedCatalogStatus where
  progress : WorkspaceIndexProgress
  indexStatus : WorkspaceIndexStatus
  phase : Phase
  committedGeneration : Nat
  buildingGeneration : Option Nat
  mark : CatalogProgressMark
  terminal : Bool
deriving DecidableEq

def mapCatalogPhase
    (phase : Phase)
    (totalKnown : Bool) : ProgressPhase :=
  match phase with
  | .ready => .ready
  | .partial_ => .ready
  | .degraded => .degraded
  | .cancelled => .cancelled
  | .activating => .indexing
  | .cancelling => .indexing
  | .idle => if totalKnown then .indexing else .discovering
  | .discovering =>
      if totalKnown then .indexing else .discovering

def isTerminalPhase : Phase → Bool
| .ready => true
| .partial_ => true
| .degraded => true
| .cancelled => true
| _ => false

/- The fields of a status that pass their checks. -/
structure CatalogFields where
  phase : Phase
  state : IndexState
  completeness : Completeness
  committedGeneration : Nat
  buildingGeneration : Option Nat
  discovered : Nat
  indexed : Nat
  rejected : Nat
  policySkipped : Nat
  ignored : Nat
  totalFiles : Option Nat

def readCatalogFields (status : Json) :
    Option CatalogFields := do
  let phase ← isCatalogPhase (status.field "phase")
  let state ← isIndexState (status.field "state")
  let completeness ←
    isCompleteness (status.field "completeness")
  let committedGeneration ←
    isNonNegativeInteger (status.field "committedGeneration")
  let buildingGeneration ←
    isNullableGeneration (status.field "buildingGeneration")
  let discovered ←
    isNonNegativeInteger (status.field "discovered")
  let indexed ← isNonNegativeInteger (status.field "indexed")
  let rejected ← isNonNegativeInteger (status.field "rejected")
  let policySkipped ←
    isNonNegativeInteger (status.field "policySkipped")
  let ignored ← isNonNegativeInteger (status.field "ignored")
  let totalFiles ←
    isOptionalInteger (status.field "totalFiles")
  pure
    { phase, state, completeness, committedGeneration,
      buildingGeneration, discovered, indexed, rejected,
      policySkipped, ignored, totalFiles }

def readStorage (storage : Json) :
    Option WorkspaceCatalogStorage := do
  let stage ← isCatalogStage (storage.field "stage")
  let writtenDocuments ←
    isNonNegativeInteger (storage.field "writtenDocuments")
  let writtenRows ←
    isNonNegativeInteger (storage.field "writtenRows")
  let stageElapsedMs ←
    isNonNegativeInteger (storage.field "stageElapsedMs")
  let activitySequence ←
    isNonNegativeInteger (storage.field "activitySequence")
  let walFrames ←
    isNonNegativeInteger (storage.field "walFrames")
  let checkpointedFrames ←
    isNonNegativeInteger (storage.field "checkpointedFrames")
  pure
    { stage, writtenDocuments, writtenRows, stageElapsedMs,
      activitySequence, walFrames, checkpointedFrames }

def mapStorage (value : Option Json) :
    Checked (Option WorkspaceCatalogStorage) :=
  match value with
  | none => pure none
  | some value => do
      let storage ← asRecord (some value)
      match readStorage storage with
      | some storage => pure (some storage)
      | none =>
          throw
            "index sidecar returned invalid storage progress"

/- `status.message` when it is a string. -/
def readMessage (status : Json) : Option String :=
  match status.field "message" with
  | some (.str message) => some message
  | _ => none

def mappedStatus
    (fields : CatalogFields)
    (storage : Option WorkspaceCatalogStorage)
    (message : Option String) : MappedCatalogStatus where
  progress :=
    { phase :=
        mapCatalogPhase fields.phase fields.totalFiles.isSome
      discoveredFiles := fields.discovered
      indexedFiles := fields.indexed
      skippedEntries :=
        fields.rejected + fields.policySkipped +
          fields.ignored
      storage
      totalFiles := fields.totalFiles }
  indexStatus :=
    { state := fields.state
      committedGeneration := fields.committedGeneration
      buildingGeneration := fields.buildingGeneration
      message }
  phase := fields.phase
  committedGeneration := fields.committedGeneration
  buildingGeneration := fields.buildingGeneration
  mark :=
    { phase := fields.phase
      discovered := fields.discovered
      indexed := fields.indexed
      rejected := fields.rejected
      policySkipped := fields.policySkipped
      ignored := fields.ignored
      totalFiles := fields.totalFiles
      storage }
  terminal := isTerminalPhase fields.phase

def mapCatalogStatus (value : Option Json) :
    Checked MappedCatalogStatus := do
  let status ← asRecord value
  match readCatalogFields status with
  | none =>
      throw "index sidecar returned an invalid catalog status"
  | some fields =>
      let storage ← mapStorage (status.field "storage")
      if storage.any fun storage =>
          decide (fields.indexed < storage.writtenDocuments)
      then
        throw "index sidecar persisted more files than it parsed"
      else
        pure
          (mappedStatus fields storage (readMessage status))

----------
-- Monotonicity
----------

def catalogPhaseRank : Phase → Nat
| .idle => 0
| .discovering => 1
| .activating => 2
| .cancelling => 3
| .ready => 4
| .partial_ => 4
| .degraded => 4
| .cancelled => 4

def storageRegressed :
    Option WorkspaceCatalogStorage →
      Option WorkspaceCatalogStorage → Bool
| some a, some b =>
    decide (b.activitySequence < a.activitySequence) ||
      decide (b.writtenDocuments < a.writtenDocuments) ||
      decide (b.writtenRows < a.writtenRows) ||
      (decide (b.activitySequence = a.activitySequence) &&
        (decide (b.stage ≠ a.stage) ||
          decide (b.stageElapsedMs < a.stageElapsedMs)))
| _, _ => false

def totalRegressed : Option Nat → Option Nat → Bool
| some previous, some current => decide (current < previous)
| some _, none => true
| none, _ => false

def progressRegressed
    (previous current : CatalogProgressMark) : Bool :=
  storageRegressed previous.storage current.storage ||
    decide
      (catalogPhaseRank current.phase <
        catalogPhaseRank previous.phase) ||
    decide (current.discovered < previous.discovered) ||
    decide (current.indexed < previous.indexed) ||
    decide (current.rejected < previous.rejected) ||
    decide (current.policySkipped < previous.policySkipped) ||
    decide (current.ignored < previous.ignored) ||
    totalRegressed previous.totalFiles current.totalFiles

def assertMonotonicCatalogProgress
    (previous current : CatalogProgressMark) :
    Checked Unit :=
  if progressRegressed previous current then
    throw "index sidecar catalog progress regressed"
  else
    pure ()

----------
-- Statuses of the Sidecar
----------

/- The counters of a report are safe integers. -/
structure SmallProgress (progress : CatalogProgress) :
    Prop where
  discovered : progress.discovered ≤ maxSafeInteger
  indexed : progress.indexed ≤ maxSafeInteger
  rejected : progress.rejected ≤ maxSafeInteger
  policySkipped : progress.policySkipped ≤ maxSafeInteger
  ignored : progress.ignored ≤ maxSafeInteger
  totalFiles :
    ∀ total,
      progress.totalFiles = some total →
        total ≤ maxSafeInteger
  storage :
    ∀ storage,
      progress.storage = some storage →
        storage.writtenDocuments ≤ maxSafeInteger ∧
          storage.writtenRows ≤ maxSafeInteger ∧
          storage.walFrames ≤ maxSafeInteger ∧
          storage.checkpointedFrames ≤ maxSafeInteger
  sequence : progress.activitySequence ≤ maxSafeInteger

instance (progress : CatalogProgress) :
    Decidable (SmallProgress progress) :=
  decidable_of_iff
    (progress.discovered ≤ maxSafeInteger ∧
      progress.indexed ≤ maxSafeInteger ∧
      progress.rejected ≤ maxSafeInteger ∧
      progress.policySkipped ≤ maxSafeInteger ∧
      progress.ignored ≤ maxSafeInteger ∧
      (∀ total ∈ progress.totalFiles,
        total ≤ maxSafeInteger) ∧
      (∀ storage ∈ progress.storage,
        storage.writtenDocuments ≤ maxSafeInteger ∧
          storage.writtenRows ≤ maxSafeInteger ∧
          storage.walFrames ≤ maxSafeInteger ∧
          storage.checkpointedFrames ≤ maxSafeInteger) ∧
      progress.activitySequence ≤ maxSafeInteger)
    ⟨fun ⟨h1, h2, h3, h4, h5, h6, h7, h8⟩ =>
        ⟨h1, h2, h3, h4, h5, h6, h7, h8⟩,
      fun ⟨h1, h2, h3, h4, h5, h6, h7, h8⟩ =>
        ⟨h1, h2, h3, h4, h5, h6, h7, h8⟩⟩

/- Every number of a status is a safe integer. -/
structure Countable
    (runtime : Runtime)
    (now : Nat) : Prop where
  committed : runtime.committedGeneration ≤ maxSafeInteger
  building :
    ∀ generation,
      runtime.buildingGeneration = some generation →
        generation ≤ maxSafeInteger
  progress : SmallProgress runtime.progress
  time : now ≤ maxSafeInteger

variable {now : Nat}

theorem Countable.elapsed
    {runtime : Runtime}
    (hCount : Countable runtime now) :
    (runtime.progress.stageStarted.map (now - ·)).getD 0 ≤
      maxSafeInteger := by
  have hTime := hCount.time
  cases runtime.progress.stageStarted with
  | none => exact Nat.zero_le _
  | some started => exact (Nat.sub_le _ _).trans hTime

/- The fields that the client reads from a status. -/
def statusFields (runtime : Runtime) : CatalogFields where
  phase := runtime.phase
  state := runtime.state
  completeness := runtime.completeness
  committedGeneration := runtime.committedGeneration
  buildingGeneration := runtime.buildingGeneration
  discovered := runtime.progress.discovered
  indexed := runtime.progress.indexed
  rejected := runtime.progress.rejected
  policySkipped := runtime.progress.policySkipped
  ignored := runtime.progress.ignored
  totalFiles := runtime.progress.totalFiles

def storageFields
    (progress : CatalogProgress)
    (now : Nat)
    (storage : CatalogBuildProgress) :
    WorkspaceCatalogStorage where
  stage := storage.stage
  writtenDocuments := storage.writtenDocuments
  writtenRows := storage.writtenRows
  stageElapsedMs :=
    (progress.stageStarted.map (now - ·)).getD 0
  activitySequence := progress.activitySequence
  walFrames := storage.walFrames
  checkpointedFrames := storage.checkpointedFrames

def statusStorage
    (progress : CatalogProgress)
    (now : Nat) : Option WorkspaceCatalogStorage :=
  progress.storage.map (storageFields progress now)

variable (runtime : Runtime)

/- What the client makes of a status. -/
def mappedOf
    (now : Nat) : MappedCatalogStatus :=
  mappedStatus (statusFields runtime)
    (statusStorage runtime.progress now) runtime.message

@[simp] theorem isCatalogPhase_name (phase : Phase) :
    isCatalogPhase (some (.str phase.name)) = some phase := by
  cases phase <;> rfl

@[simp] theorem isIndexState_name (state : IndexState) :
    isIndexState (some (.str (stateName state))) =
      some state := by
  cases state <;> rfl

@[simp] theorem isCompleteness_name
    (completeness : Completeness) :
    isCompleteness (some (.str completeness.name)) =
      some completeness := by
  cases completeness <;> rfl

@[simp] theorem isCatalogStage_name (stage : CatalogStage) :
    isCatalogStage (some (.str stage.name)) = some stage := by
  cases stage <;> rfl

theorem isNonNegativeInteger_num
    {value : Nat}
    (hValue : value ≤ maxSafeInteger) :
    isNonNegativeInteger (some (.num value)) = some value :=
  if_pos hValue

theorem isNullableGeneration_ofOption
    {generation : Option Nat}
    (hValue :
      ∀ value,
        generation = some value → value ≤ maxSafeInteger) :
    isNullableGeneration
        (some (Json.ofOption .num generation)) =
      some generation := by
  cases generation with
  | none => rfl
  | some value =>
    simp only [Json.ofOption, isNullableGeneration,
      isNonNegativeInteger_num (hValue value rfl),
      Option.map_some]

/- The optional end of a status. -/
def statusTail (runtime : Runtime) (now : Nat) :
    List (String × Json) :=
  Json.optionalField "storage"
      (storageJson runtime.progress now)
      runtime.progress.storage ++
    Json.optionalField "totalFiles" .num
      runtime.progress.totalFiles ++
    Json.optionalField "message" .str runtime.message

theorem lookup_statusTail_storage
    (now : Nat) :
    (statusTail runtime now).lookup "storage" =
      runtime.progress.storage.map
        (storageJson runtime.progress now) := by
  simp only [statusTail]
  cases runtime.progress.storage with
  | some storage => rfl
  | none =>
    cases runtime.progress.totalFiles <;>
      cases runtime.message <;> rfl

theorem lookup_statusTail_totalFiles
    (now : Nat) :
    (statusTail runtime now).lookup "totalFiles" =
      runtime.progress.totalFiles.map .num := by
  simp only [statusTail]
  cases runtime.progress.storage <;>
    cases runtime.progress.totalFiles <;>
      cases runtime.message <;> rfl

theorem lookup_statusTail_message
    (now : Nat) :
    (statusTail runtime now).lookup "message" =
      runtime.message.map .str := by
  simp only [statusTail]
  cases runtime.progress.storage <;>
    cases runtime.progress.totalFiles <;>
      cases runtime.message <;> rfl

/- A field behind the fixed ones is looked up in the tail. -/
theorem field_status_storage
    (now : Nat) :
    (runtime.status now).field "storage" =
      runtime.progress.storage.map
        (storageJson runtime.progress now) := by
  rw [← lookup_statusTail_storage]
  rfl

theorem field_status_totalFiles
    (now : Nat) :
    (runtime.status now).field "totalFiles" =
      runtime.progress.totalFiles.map .num := by
  rw [← lookup_statusTail_totalFiles runtime now]
  rfl

theorem field_status_message
    (now : Nat) :
    (runtime.status now).field "message" =
      runtime.message.map .str := by
  rw [← lookup_statusTail_message runtime now]
  rfl

theorem readCatalogFields_status
    {runtime : Runtime}
    (hCount : Countable runtime now) :
    readCatalogFields (runtime.status now) =
      some (statusFields runtime) := by
  have hTotal :
      isOptionalInteger
          ((runtime.status now).field "totalFiles") =
        some runtime.progress.totalFiles := by
    rw [field_status_totalFiles]
    have hBound := hCount.progress.totalFiles
    cases hSome : runtime.progress.totalFiles with
    | none => rfl
    | some total =>
      simp only [Option.map_some, isOptionalInteger,
        isNonNegativeInteger_num (hBound total hSome)]
  have hField
      (key : String)
      (value : Json)
      (hLookup : (runtime.status now).field key = some value) :
      (runtime.status now).field key = some value :=
    hLookup
  rw [readCatalogFields, hTotal,
    hField "phase" (.str runtime.phase.name) rfl,
    hField "state" (.str (stateName runtime.state)) rfl,
    hField "completeness" (.str runtime.completeness.name) rfl,
    hField "committedGeneration"
      (.num runtime.committedGeneration) rfl,
    hField "buildingGeneration"
      (.ofOption .num runtime.buildingGeneration) rfl,
    hField "discovered" (.num runtime.progress.discovered) rfl,
    hField "indexed" (.num runtime.progress.indexed) rfl,
    hField "rejected" (.num runtime.progress.rejected) rfl,
    hField "policySkipped"
      (.num runtime.progress.policySkipped) rfl,
    hField "ignored" (.num runtime.progress.ignored) rfl]
  simp only [isCatalogPhase_name, isIndexState_name,
    isCompleteness_name,
    isNonNegativeInteger_num hCount.committed,
    isNullableGeneration_ofOption hCount.building,
    isNonNegativeInteger_num hCount.progress.discovered,
    isNonNegativeInteger_num hCount.progress.indexed,
    isNonNegativeInteger_num hCount.progress.rejected,
    isNonNegativeInteger_num hCount.progress.policySkipped,
    isNonNegativeInteger_num hCount.progress.ignored]
  rfl

theorem readStorage_storageJson
    {progress : CatalogProgress}
    {storage : CatalogBuildProgress}
    (hDocuments : storage.writtenDocuments ≤ maxSafeInteger)
    (hRows : storage.writtenRows ≤ maxSafeInteger)
    (hWal : storage.walFrames ≤ maxSafeInteger)
    (hFrames : storage.checkpointedFrames ≤ maxSafeInteger)
    (hSequence : progress.activitySequence ≤ maxSafeInteger)
    (hElapsed :
      (progress.stageStarted.map (now - ·)).getD 0 ≤
        maxSafeInteger) :
    readStorage (storageJson progress now storage) =
      some (storageFields progress now storage) := by
  have hField
      (key : String)
      (value : Json)
      (hLookup :
        (storageJson progress now storage).field key =
          some value) :
      (storageJson progress now storage).field key = some value :=
    hLookup
  rw [readStorage,
    hField "stage" (.str storage.stage.name) rfl,
    hField "writtenDocuments" (.num storage.writtenDocuments) rfl,
    hField "writtenRows" (.num storage.writtenRows) rfl,
    hField "stageElapsedMs"
      (.num ((progress.stageStarted.map (now - ·)).getD 0))
      rfl,
    hField "activitySequence" (.num progress.activitySequence)
      rfl,
    hField "walFrames" (.num storage.walFrames) rfl,
    hField "checkpointedFrames"
      (.num storage.checkpointedFrames) rfl]
  simp only [isCatalogStage_name,
    isNonNegativeInteger_num hDocuments,
    isNonNegativeInteger_num hRows,
    isNonNegativeInteger_num hWal,
    isNonNegativeInteger_num hFrames,
    isNonNegativeInteger_num hSequence,
    isNonNegativeInteger_num hElapsed]
  rfl

theorem mapStorage_status
    {runtime : Runtime}
    (hCount : Countable runtime now) :
    mapStorage ((runtime.status now).field "storage") =
      Except.ok (statusStorage runtime.progress now) := by
  rw [field_status_storage]
  cases hSome : runtime.progress.storage with
  | none =>
    simp only [statusStorage, hSome, Option.map_none]
    rfl
  | some storage =>
    rcases hCount.progress.storage storage hSome with
      ⟨hDocuments, hRows, hWal, hFrames⟩
    have hRead :=
      readStorage_storageJson hDocuments hRows hWal hFrames
        hCount.progress.sequence hCount.elapsed
    simp only [statusStorage, hSome, Option.map_some, mapStorage]
    have hRecord :
        asRecord
            (some (storageJson runtime.progress now storage)) =
          Except.ok (storageJson runtime.progress now storage) :=
      rfl
    rw [hRecord]
    simp only [bind, Except.bind, hRead]
    rfl

/- The client accepts every sound status it can count. -/
theorem mapCatalogStatus_status
    {runtime : Runtime}
    (hCount : Countable runtime now)
    (hSound : SoundProgress runtime.progress) :
    mapCatalogStatus (some (runtime.status now)) =
      Except.ok (mappedOf runtime now) := by
  have hRecord :
      asRecord (some (runtime.status now)) =
        Except.ok (runtime.status now) :=
    rfl
  have hMessage :
      readMessage (runtime.status now) = runtime.message := by
    rw [readMessage, field_status_message]
    cases runtime.message <;> rfl
  have hStored :
      ((statusStorage runtime.progress now).any fun storage =>
        decide
          ((statusFields runtime).indexed <
            storage.writtenDocuments)) = false := by
    cases hSome : runtime.progress.storage with
    | none => simp [statusStorage, hSome]
    | some storage =>
      have hLe := hSound storage hSome
      simp only [statusStorage, hSome, Option.map_some,
        Option.any_some]
      exact decide_eq_false (Nat.not_lt.mpr hLe)
  rw [mapCatalogStatus, hRecord]
  simp only [bind, Except.bind,
    readCatalogFields_status hCount,
    mapStorage_status hCount, hStored, hMessage]
  rfl

----------
-- Reports in Order
----------

variable {earlier later : Nat}

theorem storageRegressed_statusStorage
    {before after : CatalogProgress}
    (hLe : ProgressLe before after)
    (hTime : earlier ≤ later) :
    storageRegressed (statusStorage before earlier)
      (statusStorage after later) = false := by
  cases hBefore : before.storage with
  | none =>
    simp only [statusStorage, hBefore, Option.map_none]
    rfl
  | some previous =>
    rcases hLe.storage previous hBefore with
      ⟨current, hCurrent, hStorage⟩
    have hDocuments := hStorage.documents
    have hRows := hStorage.rows
    simp only [statusStorage, hBefore, hCurrent,
      Option.map_some, storageRegressed, storageFields,
      Bool.or_eq_false_iff, Bool.and_eq_false_iff,
      decide_eq_false_iff_not, Nat.not_lt, not_not]
    rcases hStorage.sequence with
      hLt | ⟨hEq, hStage, hStarted⟩
    · refine ⟨⟨⟨hLt.le, hDocuments⟩, hRows⟩, ?_⟩
      exact Or.inl (by omega)
    · refine ⟨⟨⟨hEq.le, hDocuments⟩, hRows⟩, Or.inr ?_⟩
      refine ⟨hStage.symm, ?_⟩
      rw [hStarted]
      cases after.stageStarted with
      | none => exact Nat.le_refl _
      | some started =>
        exact Nat.sub_le_sub_right hTime started

/- Reports in order pass the monotonicity check. -/
theorem assertMonotonic_of_progressLe
    {before after : Runtime}
    (hRank :
      catalogPhaseRank before.phase ≤
        catalogPhaseRank after.phase)
    (hLe : ProgressLe before.progress after.progress)
    (hTime : earlier ≤ later) :
    assertMonotonicCatalogProgress
        (mappedOf before earlier).mark
        (mappedOf after later).mark =
      Except.ok () := by
  have hStorage := storageRegressed_statusStorage hLe hTime
  have hTotal :
      totalRegressed before.progress.totalFiles
        after.progress.totalFiles = false := by
    cases hBefore : before.progress.totalFiles with
    | none => rfl
    | some total =>
      rcases hLe.totalFiles total hBefore with
        ⟨total', hAfter, hLe'⟩
      rw [hAfter]
      simp only [totalRegressed, decide_eq_false_iff_not]
      omega
  have hDiscovered := hLe.discovered
  have hIndexed := hLe.indexed
  have hRejected := hLe.rejected
  have hSkipped := hLe.policySkipped
  have hIgnored := hLe.ignored
  have hNot :
      progressRegressed (mappedOf before earlier).mark
        (mappedOf after later).mark = false := by
    simp only [progressRegressed, Bool.or_eq_false_iff]
    refine ⟨⟨⟨⟨⟨⟨⟨hStorage, ?_⟩, ?_⟩, ?_⟩, ?_⟩, ?_⟩, ?_⟩, hTotal⟩
    · exact decide_eq_false (Nat.not_lt.mpr hRank)
    · exact decide_eq_false (Nat.not_lt.mpr hDiscovered)
    · exact decide_eq_false (Nat.not_lt.mpr hIndexed)
    · exact decide_eq_false (Nat.not_lt.mpr hRejected)
    · exact decide_eq_false (Nat.not_lt.mpr hSkipped)
    · exact decide_eq_false (Nat.not_lt.mpr hIgnored)
  simp only [assertMonotonicCatalogProgress, hNot]
  rfl

end Client

end ArktsServer
