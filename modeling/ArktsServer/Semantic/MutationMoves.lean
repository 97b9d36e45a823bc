import ArktsServer.Semantic.MutationOrder

/-
  The moves of the supervisor as far as mutations are
  concerned, and the order of the mutations in every run.

  Key definitions include:
    * `Semantic.Supervisor.QuietMove`
    * `Semantic.Supervisor.MutationMove`

  Correctness is proven by:
    * `Semantic.Supervisor.mutationMove`
    * `Semantic.Supervisor.mutationRun_invariant`
    * `Semantic.Supervisor.orderInv_run`
-/

namespace ArktsServer

namespace Semantic

variable {promise : Nat}

namespace Supervisor

variable {options : SupervisorOptions}
variable {message : Option WorkerMessage}
variable {supervisor first second : Supervisor}

----------
-- Quiet Moves
----------

/- Neither a call, nor a mutation, nor its acknowledgement. -/
structure Quiet
    (observation : Observation) : Prop where
  accepted : observation.accepted? = none
  mutation : observation.mutation? = none
  acknowledged : observation.acknowledged? = none

theorem quiet_rejected
    (promise : Nat)
    (code : SemanticWorkerErrorCode) :
    Quiet (.settled promise (.rejected code)) :=
  ⟨rfl, rfl, rfl⟩

/- The promise will not be acknowledged. -/
def Lost
    (supervisor : Supervisor)
    (promise : Nat) :
    Prop :=
  (∃ code,
      .settled promise (.rejected code) ∈ supervisor.log)
    ∨ (supervisor.failure.isSome = true
      ∧ ∃ record,
        supervisor.active = some (.mutation record)
          ∧ record.promise = promise)

/-
  A move that accepts no call, sends no mutation and
  acknowledges none: at most it drops the queue.
-/
structure QuietMove
    (first second : Supervisor) : Prop where
  log :
    ∃ more,
      second.log = first.log ++ more
        ∧ ∀ observation ∈ more, Quiet observation
  pending :
    second.pendingMutations = first.pendingMutations
      ∨ second.pendingMutations = []
        ∧ second.disposed = true
        ∧ ∀ record ∈ first.pendingMutations,
          second.Lost record.promise
  next : first.nextPromise ≤ second.nextPromise
  lost : ∀ promise, first.Lost promise → second.Lost promise
  live :
    second.disposed = false →
    first.disposed = false
      ∧ second.appliedRevision = first.appliedRevision
      ∧ second.mutationsInFlight = first.mutationsInFlight
  active :
    second.failure = none ∨ second.disposed = false →
    (first.failure = none ∨ first.disposed = false)
      ∧ ∀ record,
        second.active = some (.mutation record) →
        first.active = some (.mutation record)

theorem QuietMove.lists
    (hQuiet : QuietMove first second) :
    acceptedCalls second.log = acceptedCalls first.log
      ∧ sentMutations second.log = sentMutations first.log
      ∧ acknowledgedPromises second.log
        = acknowledgedPromises first.log := by
  obtain ⟨more, hLog, hMore⟩ := hQuiet.log
  have hCalls : acceptedCalls more = [] :=
    List.filterMap_eq_nil_iff.mpr
      fun observation hMem => (hMore observation hMem).accepted
  have hSent : sentMutations more = [] :=
    List.filterMap_eq_nil_iff.mpr
      fun observation hMem => (hMore observation hMem).mutation
  have hDone : acknowledgedPromises more = [] :=
    List.filterMap_eq_nil_iff.mpr
      fun observation hMem =>
        (hMore observation hMem).acknowledged
  rw [hLog, acceptedCalls_append, sentMutations_append,
    acknowledgedPromises_append, hCalls, hSent, hDone]
  simp only [List.append_nil, and_self]

theorem QuietMove.trans
    {third : Supervisor}
    (hFirst : QuietMove first second)
    (hSecond : QuietMove second third) :
    QuietMove first third := by
  constructor
  · obtain ⟨more, hLog, hMore⟩ := hFirst.log
    obtain ⟨later, hLater, hQuiet⟩ := hSecond.log
    refine ⟨more ++ later, ?_, ?_⟩
    · rw [hLater, hLog, List.append_assoc]
    · intro observation hMem
      rcases List.mem_append.mp hMem with hOld | hNew
      · exact hMore observation hOld
      · exact hQuiet observation hNew
  · rcases hSecond.pending with hSame | hDropped
    · rw [hSame]
      rcases hFirst.pending with hKept | ⟨hEmpty, hStop, hLost⟩
      · exact Or.inl hKept
      · right
        refine ⟨hEmpty, ?_, ?_⟩
        · cases hDisposed : third.disposed with
          | true => rfl
          | false =>
            have hLive := (hSecond.live hDisposed).1
            rw [hStop] at hLive
            cases hLive
        · intro record hMem
          exact hSecond.lost _ (hLost record hMem)
    · right
      refine ⟨hDropped.1, hDropped.2.1, ?_⟩
      intro record hMem
      rcases hFirst.pending with hKept | ⟨_, _, hLost⟩
      · apply hDropped.2.2
        rw [hKept]
        exact hMem
      · exact hSecond.lost _ (hLost record hMem)
  · exact Nat.le_trans hFirst.next hSecond.next
  · intro promise hLost
    exact hSecond.lost _ (hFirst.lost _ hLost)
  · intro hLive
    obtain ⟨hMiddle, hApplied, hFlight⟩ := hSecond.live hLive
    obtain ⟨hStart, hBefore, hCount⟩ := hFirst.live hMiddle
    exact ⟨hStart, hApplied.trans hBefore, hFlight.trans hCount⟩
  · intro hGoing
    obtain ⟨hMiddle, hActive⟩ := hSecond.active hGoing
    obtain ⟨hStart, hBefore⟩ := hFirst.active hMiddle
    exact
      ⟨hStart, fun record hRecord =>
        hBefore record (hActive record hRecord)⟩

variable {more : List Observation}

/- A rejection in the log stays there. -/
theorem Lost.of_log
    (hLog : second.log = first.log ++ more)
    (hActive :
      first.failure.isSome = true →
      ∀ record,
        first.active = some (.mutation record) →
        second.Lost record.promise)
    (hLost : first.Lost promise) :
    second.Lost promise := by
  rcases hLost with hRejected | hHeld
  · obtain ⟨code, hMem⟩ := hRejected
    left
    exact ⟨code, by
      rw [hLog]
      exact List.mem_append_left _ hMem⟩
  · obtain ⟨hFailure, record, hRecord, hEq⟩ := hHeld
    rw [← hEq]
    exact hActive hFailure record hRecord

/- A change of other fields. -/
theorem quietMove_of_same
    (hLog : second.log = first.log ++ more)
    (hMore : ∀ observation ∈ more, Quiet observation)
    (hPending :
      second.pendingMutations = first.pendingMutations)
    (hNext : first.nextPromise ≤ second.nextPromise)
    (hDisposed : second.disposed = first.disposed)
    (hFailure : second.failure = first.failure)
    (hApplied :
      second.appliedRevision = first.appliedRevision)
    (hActive :
      ∀ record,
        second.active = some (.mutation record)
          ↔ first.active = some (.mutation record)) :
    QuietMove first second := by
  constructor
  · exact ⟨more, hLog, hMore⟩
  · exact Or.inl hPending
  · exact hNext
  · intro promise hLost
    refine hLost.of_log hLog ?_
    intro hSome record hRecord
    right
    rw [hFailure]
    exact ⟨hSome, record, (hActive record).mpr hRecord, rfl⟩
  · intro hLive
    rw [hDisposed] at hLive
    refine ⟨hLive, hApplied, ?_⟩
    unfold mutationsInFlight
    split
    · rename_i record hRecord
      rw [(hActive record).mp hRecord]
    · rename_i hNone
      split
      · rename_i record hRecord
        exact absurd ((hActive record).mpr hRecord) (hNone record)
      · rfl
  · rw [hFailure, hDisposed]
    intro hGoing
    exact ⟨hGoing, fun record => (hActive record).mp⟩

----------
-- Stops
----------

/- The failure of a mutation loses its promise. -/
theorem lost_activeFailure
    {failure : SemanticWorkerErrorCode}
    {record : MutationRecord}
    (hActive : supervisor.active = some (.mutation record)) :
    ∃ code,
      .settled record.promise (.rejected code)
        ∈ supervisor.activeFailure failure := by
  refine ⟨failure, ?_⟩
  simp [activeFailure, hActive, rejections]

/- A stopped supervisor rejects what it has active. -/
theorem quietMove_stopped
    {detachedReference : Option RequestRecord}
    (hDisposed : supervisor.disposed = true)
    (failure : SemanticWorkerErrorCode)
    (hMore :
      ∀ observation ∈ more, Quiet observation)
    (hActive :
      ∀ observation ∈ supervisor.activeFailure failure,
        observation ∈ more) :
    QuietMove supervisor
      { supervisor with
        active := none
        detachedReference := detachedReference
        log := supervisor.log ++ more } := by
  constructor
  · exact ⟨_, rfl, hMore⟩
  · exact Or.inl rfl
  · exact Nat.le_refl _
  · intro promise hLost
    refine hLost.of_log rfl ?_
    intro _ record hRecord
    obtain ⟨code, hMem⟩ := @lost_activeFailure _ failure _ hRecord
    left
    exact ⟨code, List.mem_append_right _ (hActive _ hMem)⟩
  · intro hLive
    rw [hDisposed] at hLive
    cases hLive
  · intro hGoing
    exact ⟨hGoing, fun record hRecord => by cases hRecord⟩

theorem quietMove_settleActiveFailure
    (hDisposed : supervisor.disposed = true)
    (failure : SemanticWorkerErrorCode) :
    QuietMove supervisor
      (supervisor.settleActiveFailure failure) := by
  rw [settleActiveFailure_eq]
  exact
    quietMove_stopped hDisposed failure
      (forall_activeFailure quiet_rejected _ _)
      (fun _ hMem => hMem)

theorem quietMove_settleLanes
    (hDisposed : supervisor.disposed = true)
    (failure : SemanticWorkerErrorCode) :
    QuietMove supervisor (supervisor.settleLanes failure) := by
  rw [settleLanes_eq]
  exact
    quietMove_stopped hDisposed failure
      (forall_lanesFailure quiet_rejected _ _)
      (fun _ => List.mem_append_left _)

theorem quiet_stopped
    (error : SemanticWorkerErrorCode)
    (promises : List Nat) :
    ∀ observation ∈ .stopped :: rejections error promises,
      Quiet observation :=
  List.forall_mem_cons.mpr
    ⟨⟨rfl, rfl, rfl⟩, forall_rejections quiet_rejected _ _⟩

/- What the queue holds is rejected with it. -/
theorem abandonQueues_lost
    (supervisor : Supervisor)
    (error : SemanticWorkerErrorCode) :
    ∀ record ∈ supervisor.pendingMutations,
      .settled record.promise (.rejected error)
        ∈ (supervisor.abandonQueues error).log := by
  intro record hMem
  rw [abandonQueues_log]
  apply List.mem_append_right
  apply List.mem_cons_of_mem
  exact
    List.mem_map_of_mem
      (List.mem_append_left _ (List.mem_map_of_mem hMem))

theorem quietMove_abandonQueues
    (supervisor : Supervisor)
    (error : SemanticWorkerErrorCode) :
    QuietMove supervisor (supervisor.abandonQueues error) := by
  constructor
  · exact
      ⟨_, supervisor.abandonQueues_log error, quiet_stopped _ _⟩
  · right
    refine ⟨rfl, rfl, ?_⟩
    intro record hMem
    exact
      Or.inl ⟨error, supervisor.abandonQueues_lost error _ hMem⟩
  · exact Nat.le_refl _
  · intro promise hLost
    refine hLost.of_log (supervisor.abandonQueues_log error) ?_
    intro hFailure record hRecord
    exact Or.inr ⟨hFailure, record, hRecord, rfl⟩
  · intro hLive
    cases hLive
  · intro hGoing
    refine ⟨?_, fun record hRecord => hRecord⟩
    rcases hGoing with hNone | hLive
    · exact Or.inl hNone
    · cases hLive

theorem quietMove_shutDown
    (supervisor : Supervisor)
    (failure : SemanticWorkerErrorCode) :
    QuietMove supervisor (supervisor.shutDown failure) := by
  apply (supervisor.quietMove_abandonQueues failure).trans
  constructor
  · refine ⟨[], (List.append_nil _).symm, ?_⟩
    intro observation hMem
    cases hMem
  · exact Or.inl rfl
  · exact Nat.le_refl _
  · intro promise hLost
    rcases hLost with hRejected | hHeld
    · exact Or.inl hRejected
    · exact Or.inr ⟨rfl, hHeld.2⟩
  · intro hLive
    cases hLive
  · intro hGoing
    rcases hGoing with hNone | hLive
    · cases hNone
    · cases hLive

/- A change of fields that no mutation depends on. -/
theorem quietMove_unseen
    (hSame :
      second =
        { second with
          log := first.log
          active := first.active
          pendingMutations := first.pendingMutations
          nextPromise := first.nextPromise
          appliedRevision := first.appliedRevision
          disposed := first.disposed
          failure := first.failure }) :
    QuietMove first second := by
  rw [hSame]
  exact
    quietMove_of_same (List.append_nil _).symm
      (List.forall_mem_nil _) rfl (Nat.le_refl _) rfl rfl rfl
      (fun _ => Iff.rfl)

/- The same, with one observation. -/
theorem quietMove_told
    {observation : Observation}
    (hSame :
      second =
        { second with
          log := first.log ++ [observation]
          active := first.active
          pendingMutations := first.pendingMutations
          appliedRevision := first.appliedRevision
          disposed := first.disposed
          failure := first.failure })
    (hQuiet : Quiet observation)
    (hNext : first.nextPromise ≤ second.nextPromise) :
    QuietMove first second := by
  rw [hSame]
  exact
    quietMove_of_same rfl (List.forall_mem_singleton.mpr hQuiet)
      rfl hNext rfl rfl rfl (fun _ => Iff.rfl)

/- The supervisor waits for its termination. -/
theorem quietMove_waits
    (supervisor : Supervisor)
    (failureWaits disposeWaits terminating : Bool)
    (deadlineStarted disposing : Bool) :
    QuietMove supervisor
      { supervisor with
        failureWaits := failureWaits
        disposeWaits := disposeWaits
        terminating := terminating
        deadlineStarted := deadlineStarted
        disposing := disposing } :=
  quietMove_unseen rfl

theorem quietMove_fail
    (hFailure : supervisor.failure = none)
    (endpointTerminal : Bool) :
    QuietMove supervisor
      (supervisor.fail endpointTerminal) := by
  rw [fail_eq hFailure]
  have hDown := supervisor.quietMove_shutDown .workerUnavailable
  cases endpointTerminal with
  | true => exact hDown.trans (quietMove_settleLanes rfl _)
  | false =>
    exact hDown.trans (quietMove_waits _ true _ true true _)

theorem quietMove_dispose
    (supervisor : Supervisor) :
    QuietMove supervisor supervisor.dispose := by
  unfold dispose
  split
  · exact
      quietMove_waits supervisor _ _ _ _ supervisor.disposing
  · have hAbandoned :=
      supervisor.quietMove_abandonQueues .workerUnavailable
    dsimp only
    split
    · exact
        hAbandoned.trans (quietMove_waits _ _ _ true true true)
    · exact
        hAbandoned.trans (quietMove_waits _ _ true _ true true)

/- A mutation that could not be sent is lost. -/
theorem quietMove_mutationLost
    (hFailure : supervisor.failure = none)
    {record : MutationRecord}
    {records : List MutationRecord}
    (hQueue : supervisor.pendingMutations = record :: records)
    (wire : Option SemanticWorkerMutation)
    (sends : Nat) :
    QuietMove supervisor
      (({ supervisor.shiftMutation record records with
          sends := sends }.activateMutation record wire).fail
        false) := by
  have hMiddle :
      ({ supervisor.shiftMutation record records with
          sends := sends }.activateMutation record
        wire).failure = none := hFailure
  rw [fail_eq hMiddle]
  constructor
  · exact ⟨_, abandonQueues_log _ _, quiet_stopped _ _⟩
  · right
    refine ⟨rfl, rfl, ?_⟩
    intro other hMem
    rw [hQueue] at hMem
    rcases List.mem_cons.mp hMem with hHead | hTail
    · rw [hHead]
      exact Or.inr ⟨rfl, _, rfl, rfl⟩
    · left
      exact ⟨_, abandonQueues_lost _ _ other hTail⟩
  · exact Nat.le_refl _
  · intro promise hLost
    rcases hLost with hRejected | hHeld
    · obtain ⟨code, hMem⟩ := hRejected
      left
      exact ⟨code, List.mem_append_left _ hMem⟩
    · rw [hFailure] at hHeld
      cases hHeld.1
  · intro hLive
    cases hLive
  · intro hGoing
    rcases hGoing with hNone | hLive
    · cases hNone
    · cases hLive

----------
-- Mutation Moves
----------

/- What a move does as far as mutations are concerned. -/
inductive MutationMove
    (options : SupervisorOptions) :
    Supervisor → Supervisor → Prop where
| pushed
    {supervisor : Supervisor}
    {snapshot : RootSemanticWorkerMutationInput}
    (hLive : supervisor.disposed = false) :
    MutationMove options supervisor
      (supervisor.nextGeneration.pushMutation snapshot)
| joined
    {supervisor : Supervisor}
    {record : MutationRecord}
    {snapshot : RootSemanticWorkerMutationInput}
    (hLive : supervisor.disposed = false)
    (hExisting :
      findCoalescingMutation supervisor.pendingMutations
        snapshot = some record) :
    MutationMove options supervisor
      (supervisor.nextGeneration.joinMutation record snapshot
        (joinMutations record.input snapshot))
| sent
    {supervisor : Supervisor}
    {record : MutationRecord}
    {records : List MutationRecord}
    (hLive : supervisor.disposed = false)
    (hIdle : supervisor.active = none)
    (hQueue : supervisor.pendingMutations = record :: records) :
    MutationMove options supervisor
      (((supervisor.shiftMutation record
        records).activateMutation record
          (some ⟨options.epoch, supervisor.appliedRevision + 1,
            record.input⟩)).delivered record.promise
        (.mutation ⟨options.epoch,
          supervisor.appliedRevision + 1, record.input⟩))
| acknowledged
    {supervisor : Supervisor}
    {record : MutationRecord}
    {wire : SemanticWorkerMutation}
    (hFailure : supervisor.failure = none)
    (hActive : supervisor.active = some (.mutation record))
    (hWire : record.wire = some wire) :
    MutationMove options supervisor
      ({ supervisor with
          appliedRevision := wire.revision
          active := none }.settle record.promise .acknowledged)
| quiet
    {first second : Supervisor}
    (hQuiet : QuietMove first second) :
    MutationMove options first second

/- The answer of a request leaves the mutations alone. -/
theorem quietMove_answered
    {record : RequestRecord}
    {detached : Bool}
    {settlement : Settlement}
    (hRecord :
      supervisor.laneRequest detached
        = some (.request record))
    (hSettlement : settlement ≠ .acknowledged) :
    QuietMove supervisor
      ((supervisor.clearLane detached).settle record.promise
        settlement) := by
  have hQuiet :
      Quiet (.settled record.promise settlement) := by
    refine ⟨rfl, rfl, ?_⟩
    cases settlement with
    | acknowledged => exact absurd rfl hSettlement
    | fulfilled => rfl
    | rejected => rfl
  cases detached with
  | true => exact quietMove_told rfl hQuiet (Nat.le_refl _)
  | false =>
    have hActive :
        supervisor.active = some (.request record) := hRecord
    refine
      quietMove_of_same rfl
        (List.forall_mem_singleton.mpr hQuiet) rfl
        (Nat.le_refl _) rfl rfl rfl ?_
    intro other
    simp [clearLane, settle, observe, hActive]

theorem responseSettlement_ne
    (cell : SemanticWorkerCancellationCell)
    (response : SemanticWorkerResponse) :
    responseSettlement cell response ≠ .acknowledged := by
  unfold responseSettlement
  split
  · intro hEq
    cases hEq
  · split <;>
      · intro hEq
        cases hEq

/- A request in its lane is no mutation. -/
theorem occupyLane_mutation
    (hIdle : supervisor.active = none)
    (request : RequestRecord)
    (record : MutationRecord) :
    (supervisor.occupyLane request).active
        = some (.mutation record)
      ↔ supervisor.active = some (.mutation record) := by
  unfold occupyLane
  split
  · exact Iff.rfl
  · rw [hIdle]
    constructor
    · intro hRequest
      cases hRequest
    · intro hNone
      cases hNone

theorem quietMove_occupyLane
    (hIdle : supervisor.active = none)
    (request : RequestRecord)
    (sends : Nat)
    (more : List Observation)
    (hMore : ∀ observation ∈ more, Quiet observation) :
    QuietMove supervisor
      ({ supervisor.takeRead.2.nextId.occupyLane request with
          sends := sends }.observe more) := by
  have hActive :=
    @occupyLane_mutation supervisor.takeRead.2.nextId hIdle
      request
  refine
    quietMove_of_same ?_ hMore ?_ ?_ ?_ ?_ ?_ hActive <;>
    simp only [observe, occupyLane] <;> split <;>
    first | exact Nat.le_refl _ | rfl

theorem mutationMove
    (hMove : Move options message first second)
    (hStop : first.StopInv) :
    MutationMove options first second := by
  cases hMove with
  | pushed hLive => exact .pushed hLive
  | joined hLive hExisting hNext =>
    rw [hNext]
    exact .joined hLive hExisting
  | mutationSent hLive hIdle hQueue =>
    exact .sent hLive hIdle hQueue
  | mutationLost wire sends hLive _ hQueue =>
    exact
      .quiet
        (quietMove_mutationLost (hStop.live hLive).1
          hQueue wire sends)
  | passedOver =>
    exact .quiet (quietMove_unseen rfl)
  | staleRejected =>
    exact
      .quiet
        (quietMove_told rfl ⟨rfl, rfl, rfl⟩ (Nat.le_refl _))
  | @requestSent _ _ record _ hIdle =>
    exact
      .quiet
        (quietMove_occupyLane hIdle _ _ _
          (List.forall_mem_singleton.mpr ⟨rfl, rfl, rfl⟩))
  | @requestLost _ _ record sends hLive hIdle =>
    have hOccupied :=
      quietMove_occupyLane hIdle
        (first.numberRequest options record) sends []
        (by simp)
    have hLog :
        ({ first.takeRead.2.nextId.occupyLane
            (first.numberRequest options record) with
            sends := sends }.observe [])
          = { first.takeRead.2.nextId.occupyLane
            (first.numberRequest options record) with
            sends := sends } := by
      simp only [observe, List.append_nil]
    rw [hLog] at hOccupied
    apply MutationMove.quiet
    apply hOccupied.trans
    apply quietMove_fail
    have hFailure := (hStop.live hLive).1
    unfold occupyLane
    split <;> exact hFailure
  | acknowledged hFailure hActive hWire =>
    exact .acknowledged hFailure hActive hWire
  | answered _ hRecord =>
    exact
      .quiet
        (quietMove_answered hRecord (responseSettlement_ne _ _))
  | failed hFailure => exact .quiet (quietMove_fail hFailure _)
  | activeSettled hFailure =>
    have hSome : first.failure.isSome = true := by
      rw [hFailure]
      rfl
    exact
      .quiet
        (quietMove_settleActiveFailure (hStop.failure hSome) _)
  | restarted =>
    apply MutationMove.quiet
    have hRejected :
        QuietMove first
          (first.rejectedPromise .restartRequired) :=
      quietMove_told rfl ⟨rfl, rfl, rfl⟩ (Nat.le_succ _)
    exact
      (hRejected.trans (quietMove_shutDown _ _)).trans
        (quietMove_waits _ true _ true true _)
  | refused =>
    exact
      .quiet
        (quietMove_told rfl ⟨rfl, rfl, rfl⟩ (Nat.le_succ _))
  | enqueued =>
    exact
      .quiet
        (quietMove_told rfl ⟨rfl, rfl, rfl⟩ (Nat.le_succ _))
  | cellCancelled =>
    exact .quiet (quietMove_unseen rfl)
  | readCancelled =>
    exact
      .quiet
        (quietMove_told rfl ⟨rfl, rfl, rfl⟩ (Nat.le_refl _))
  | disposeCalled => exact .quiet (quietMove_dispose first)
  | terminated =>
    exact .quiet (quietMove_unseen rfl)
  | deadlineElapsed =>
    exact .quiet (quietMove_unseen rfl)
  | failureContinued hWaits =>
    have hFailed := (hStop.failureWaits hWaits).1
    have hDisposed := hStop.failure hFailed
    apply MutationMove.quiet
    apply
      (quietMove_waits first false first.disposeWaits
        first.terminating first.deadlineStarted
        first.disposing).trans
    apply quietMove_settleLanes
    exact hDisposed
  | lanesAwaited =>
    exact .quiet (quietMove_waits first _ false true true _)
  | deadlineSettled hWaits =>
    have hDisposed := (hStop.disposeWaits hWaits).1
    apply MutationMove.quiet
    apply
      (quietMove_waits first first.failureWaits false true
        first.deadlineStarted first.disposing).trans
    apply quietMove_settleLanes
    exact hDisposed

----------
-- Runs
----------

theorem OrderInv.quietMove
    (hInv : first.OrderInv)
    (hQuiet : QuietMove first second) :
    second.OrderInv := by
  obtain ⟨hCalls, hSent, _⟩ := hQuiet.lists
  refine hInv.of_quiet ?_ hCalls hSent hQuiet.next ?_
  · rcases hQuiet.pending with hSame | hDropped
    · exact Or.inl hSame
    · exact Or.inr hDropped.1
  · intro hDisposed
    obtain ⟨hLive, hApplied, hFlight⟩ := hQuiet.live hDisposed
    refine ⟨hLive, ?_, ?_⟩
    · rw [hApplied, hFlight]
    · intro record hRecord
      exact
        ⟨(hQuiet.active (Or.inr hDisposed)).2 record hRecord,
          hApplied⟩

/- The acknowledgement brings the revision of the record. -/
theorem OrderInv.acknowledged
    (hInv : supervisor.OrderInv)
    {record : MutationRecord}
    {wire : SemanticWorkerMutation}
    (hActive : supervisor.active = some (.mutation record))
    (hWire : record.wire = some wire) :
    ({ supervisor with
        appliedRevision := wire.revision
        active := none }.settle record.promise
      .acknowledged).OrderInv := by
  have hCalls :
      acceptedCalls
          (supervisor.log
            ++ [.settled record.promise .acknowledged])
        = acceptedCalls supervisor.log :=
    (acceptedCalls_append _ _).trans (List.append_nil _)
  have hSent :
      sentMutations
          (supervisor.log
            ++ [.settled record.promise .acknowledged])
        = sentMutations supervisor.log :=
    (sentMutations_append _ _).trans (List.append_nil _)
  refine
    hInv.of_quiet (Or.inl rfl) hCalls hSent (Nat.le_refl _) ?_
  intro hLive
  obtain ⟨other, hOther, hRevision⟩ :=
    hInv.wires hLive record hActive
  rw [hWire] at hOther
  cases hOther
  refine ⟨hLive, ?_, ?_⟩
  · simp [settle, observe, mutationsInFlight, hActive,
      hRevision]
  · intro later hLater
    cases hLater

theorem orderInv_move
    (hMove : MutationMove options first second)
    (hPlaced : first.Placed)
    (hInv : first.OrderInv) :
    second.OrderInv := by
  cases hMove with
  | pushed =>
    exact
      hInv.nextGeneration.pushMutation
        ((moved_nextGeneration first).placed hPlaced) _
  | joined _ hExisting =>
    exact
      hInv.nextGeneration.joinMutation
        ((moved_nextGeneration first).placed hPlaced)
        hExisting rfl rfl
  | sent hLive hIdle hQueue =>
    exact hInv.mutationSent hPlaced hLive hIdle hQueue rfl rfl
  | acknowledged _ hActive hWire =>
    exact hInv.acknowledged hActive hWire
  | quiet hQuiet => exact hInv.quietMove hQuiet

theorem orderInv_initial : ({} : Supervisor).OrderInv := by
  constructor
  · intro record hMem
    cases hMem
  · exact List.Pairwise.nil
  · intro promise hMem
    cases hMem
  · intro record hMem
    cases hMem
  · intro sent hMem
    cases hMem
  · intro call hMem
    cases hMem
  · exact List.Pairwise.nil
  · rfl
  · intro _
    rfl
  · intro _ record hActive
    cases hActive

/-
  What mutation moves keep, under the other invariants,
  holds after every run.
-/
theorem mutationRun_invariant
    {Inv : Supervisor → Prop}
    (hMove :
      ∀ first second,
        MutationMove options first second →
        first.Placed → first.OrderInv →
        Inv first → Inv second)
    (hInitial : Inv {})
    (events : List SupervisorEvent) :
    Inv (supervisorRun options events) := by
  let All := fun supervisor : Supervisor =>
    supervisor.Placed ∧ supervisor.StopInv
      ∧ supervisor.OrderInv ∧ Inv supervisor
  have hAll : All (supervisorRun options events) := by
    apply supervisorRun_invariant
    · intro message first second hStep hInv
      obtain ⟨hPlaced, hStop, hOrder, hKept⟩ := hInv
      have hMutation := mutationMove hStep hStop
      exact
        ⟨placed_move hStep hPlaced, stopInv_move hStep hStop,
          orderInv_move hMutation hPlaced hOrder,
          hMove first second hMutation hPlaced hOrder hKept⟩
    · exact
        ⟨placed_initial, stopInv_initial, orderInv_initial,
          hInitial⟩
  exact hAll.2.2.2

theorem orderInv_run
    (options : SupervisorOptions)
    (events : List SupervisorEvent) :
    (supervisorRun options events).OrderInv :=
  mutationRun_invariant
    (fun _ _ hMove hPlaced hOrder _ =>
      orderInv_move hMove hPlaced hOrder)
    orderInv_initial events

end Supervisor

end Semantic

end ArktsServer
