import ArktsServer.Semantic.SupervisorMoves
import Mathlib.Data.List.Count

/-
  The accounts of the supervisor: the place of every
  promise, and the bytes of the queue.

  Key definitions include:
    * `Semantic.Supervisor.places`
    * `Semantic.Supervisor.Placed`
    * `Semantic.Supervisor.QueueInv`

  Correctness is proven by:
    * `Semantic.Supervisor.placed_run`
    * `Semantic.Supervisor.queueInv_run`
-/

namespace ArktsServer

namespace Semantic

open Transition

----------
-- Observations
----------

def Observation.settledPromise? : Observation → Option Nat
| .settled promise _ => some promise
| _ => none

/- The promise that a call has been given. -/
def Observation.issued? : Observation → Option Nat
| .accepted promise _ => some promise
| .requested promise _ => some promise
| _ => none

def settledPromises
    (log : List Observation) :
    List Nat :=
  log.filterMap Observation.settledPromise?

def issuedPromises
    (log : List Observation) :
    List Nat :=
  log.filterMap Observation.issued?

theorem settledPromises_append
    (log more : List Observation) :
    settledPromises (log ++ more)
      = settledPromises log ++ settledPromises more :=
  List.filterMap_append

theorem issuedPromises_append
    (log more : List Observation) :
    issuedPromises (log ++ more)
      = issuedPromises log ++ issuedPromises more :=
  List.filterMap_append

namespace Supervisor

@[simp]
theorem settledPromises_rejections
    (code : SemanticWorkerErrorCode)
    (promises : List Nat) :
    settledPromises (rejections code promises) = promises := by
  induction promises with
  | nil => rfl
  | cons promise promises ih =>
    have hCons :
        settledPromises
            (rejections code (promise :: promises))
          = promise
            :: settledPromises
              (rejections code promises) := rfl
    rw [hCons, ih]

@[simp]
theorem issuedPromises_rejections
    (code : SemanticWorkerErrorCode)
    (promises : List Nat) :
    issuedPromises (rejections code promises) = [] := by
  induction promises with
  | nil => rfl
  | cons promise promises ih =>
    have hCons :
        issuedPromises
            (rejections code (promise :: promises))
          = issuedPromises (rejections code promises) := rfl
    rw [hCons, ih]

----------
-- The Place of a Promise
----------

variable {options : SupervisorOptions}
variable {message : Option WorkerMessage}
variable {supervisor first second : Supervisor}

/-
  How often a promise is held: in the queue, in the pending
  reads, in the two lanes, or among the settled ones.
-/
def places
    (supervisor : Supervisor)
    (promise : Nat) :
    Nat :=
  supervisor.pendingMutationPromises.count promise
    + supervisor.pendingRequestPromises.count promise
    + supervisor.activePromise.count promise
    + supervisor.detachedRequest.count promise
    + (settledPromises supervisor.log).count promise

/-
  Every promise handed out has one place, and no other
  promise has one.
-/
structure Placed
    (supervisor : Supervisor) : Prop where
  places :
    ∀ promise,
      supervisor.places promise
        = if promise < supervisor.nextPromise then 1 else 0
  issued :
    ∀ promise ∈ issuedPromises supervisor.log,
      promise < supervisor.nextPromise

/-
  A change that moves promises around and hands out none.
-/
structure Moved
    (first second : Supervisor) : Prop where
  places :
    ∀ promise, second.places promise = first.places promise
  nextPromise : second.nextPromise = first.nextPromise
  issued :
    issuedPromises second.log = issuedPromises first.log

/- How often a promise waits to be settled. -/
def held
    (supervisor : Supervisor)
    (promise : Nat) :
    Nat :=
  supervisor.pendingMutationPromises.count promise
    + supervisor.pendingRequestPromises.count promise
    + supervisor.activePromise.count promise
    + supervisor.detachedRequest.count promise

/- What is held no more has been settled. -/
theorem moved_of_log
    {more : List Observation}
    (hLog : second.log = first.log ++ more)
    (hNext : second.nextPromise = first.nextPromise)
    (hIssued : issuedPromises more = [])
    (hHeld :
      ∀ promise,
        second.held promise
            + (settledPromises more).count promise
          = first.held promise) :
    Moved first second := by
  constructor
  · intro promise
    change
      second.held promise
          + (settledPromises second.log).count promise
        = first.held promise
          + (settledPromises first.log).count promise
    rw [hLog, settledPromises_append, List.count_append,
      ← hHeld promise]
    omega
  · exact hNext
  · rw [hLog, issuedPromises_append, hIssued, List.append_nil]

theorem Moved.trans
    {third : Supervisor}
    (hFirst : Moved first second)
    (hSecond : Moved second third) :
    Moved first third :=
  { places := fun promise =>
      (hSecond.places promise).trans (hFirst.places promise)
    nextPromise := hSecond.nextPromise.trans hFirst.nextPromise
    issued := hSecond.issued.trans hFirst.issued }

theorem Moved.placed
    (hMoved : Moved first second)
    (hPlaced : first.Placed) :
    second.Placed := by
  constructor
  · intro promise
    rw [hMoved.places, hMoved.nextPromise]
    exact hPlaced.places promise
  · intro promise hMem
    rw [hMoved.issued] at hMem
    rw [hMoved.nextPromise]
    exact hPlaced.issued promise hMem

/- The failure of the active command settles its promise. -/
theorem settledPromises_activeFailure
    (supervisor : Supervisor)
    (failure : SemanticWorkerErrorCode) :
    settledPromises (supervisor.activeFailure failure)
        = supervisor.activePromise
      ∧ issuedPromises (supervisor.activeFailure failure)
        = [] := by
  unfold activeFailure activePromise
  cases supervisor.active with
  | none => exact ⟨rfl, rfl⟩
  | some command => cases command <;> exact ⟨rfl, rfl⟩

theorem settledPromises_detachedFailure
    (supervisor : Supervisor)
    (failure : SemanticWorkerErrorCode) :
    settledPromises (supervisor.detachedFailure failure)
        = supervisor.detachedRequest
      ∧ issuedPromises (supervisor.detachedFailure failure)
        = [] := by
  unfold detachedFailure detachedRequest
  cases supervisor.detachedReference with
  | none => exact ⟨rfl, rfl⟩
  | some record => exact ⟨rfl, rfl⟩

theorem moved_settleActiveFailure
    (supervisor : Supervisor)
    (failure : SemanticWorkerErrorCode) :
    Moved supervisor
      (supervisor.settleActiveFailure failure) := by
  obtain ⟨hSettled, hIssued⟩ :=
    supervisor.settledPromises_activeFailure failure
  rw [settleActiveFailure_eq]
  refine moved_of_log rfl rfl hIssued fun promise => ?_
  rw [hSettled]
  exact Nat.add_right_comm _ _ _

theorem moved_settleDetachedFailure
    (supervisor : Supervisor)
    (failure : SemanticWorkerErrorCode) :
    Moved supervisor
      (supervisor.settleDetachedFailure failure) := by
  obtain ⟨hSettled, hIssued⟩ :=
    supervisor.settledPromises_detachedFailure failure
  rw [settleDetachedFailure_eq]
  refine moved_of_log rfl rfl hIssued fun promise => ?_
  rw [hSettled]
  rfl

theorem moved_settleLanes
    (supervisor : Supervisor)
    (failure : SemanticWorkerErrorCode) :
    Moved supervisor (supervisor.settleLanes failure) :=
  (supervisor.moved_settleActiveFailure failure).trans
    (moved_settleDetachedFailure _ failure)

/- A change of the other fields. -/
theorem moved_of_same
    (hMutations :
      second.pendingMutationPromises
        = first.pendingMutationPromises)
    (hRequests :
      second.pendingRequestPromises
        = first.pendingRequestPromises)
    (hActive : second.activePromise = first.activePromise)
    (hDetached :
      second.detachedRequest = first.detachedRequest)
    (hLog : second.log = first.log)
    (hNext : second.nextPromise = first.nextPromise) :
    Moved first second := by
  constructor
  · intro promise
    simp only [places, hMutations, hRequests, hActive,
      hDetached, hLog]
  · exact hNext
  · rw [hLog]

theorem Placed.moved
    (hPlaced : first.Placed)
    (hMoved : Moved first second) : second.Placed :=
  hMoved.placed hPlaced

theorem moved_sends
    (supervisor : Supervisor)
    (sends : Nat) :
    Moved supervisor { supervisor with sends := sends } :=
  moved_of_same rfl rfl rfl rfl rfl rfl

theorem moved_abandonQueues
    (supervisor : Supervisor)
    (error : SemanticWorkerErrorCode) :
    Moved supervisor (supervisor.abandonQueues error) := by
  let waiting :=
    supervisor.pendingMutationPromises
      ++ supervisor.pendingRequestPromises
  refine
    moved_of_log rfl rfl (issuedPromises_rejections error waiting)
      fun promise => ?_
  have hSettled :
      settledPromises (.stopped :: rejections error waiting)
        = waiting :=
    settledPromises_rejections error waiting
  rw [hSettled, List.count_append]
  change
    0 + 0 + supervisor.activePromise.count promise
      + supervisor.detachedRequest.count promise + _ = _
  unfold held
  omega

theorem moved_shutDown
    (supervisor : Supervisor)
    (failure : SemanticWorkerErrorCode) :
    Moved supervisor (supervisor.shutDown failure) :=
  (supervisor.moved_abandonQueues failure).trans
    (moved_of_same rfl rfl rfl rfl rfl rfl)

theorem moved_fail
    (supervisor : Supervisor)
    (endpointTerminal : Bool) :
    Moved supervisor (supervisor.fail endpointTerminal) := by
  cases hFailure : supervisor.failure with
  | some failure =>
    cases endpointTerminal with
    | true =>
      have hEq :
          supervisor.fail true
            = supervisor.settleActiveFailure failure := by
        simp [fail, hFailure]
      rw [hEq]
      exact supervisor.moved_settleActiveFailure failure
    | false =>
      have hEq : supervisor.fail false = supervisor := by
        simp [fail, hFailure]
      rw [hEq]
      exact moved_of_same rfl rfl rfl rfl rfl rfl
  | none =>
    rw [fail_eq hFailure]
    have hDown := supervisor.moved_shutDown .workerUnavailable
    cases endpointTerminal with
    | true => exact hDown.trans (moved_settleLanes _ _)
    | false =>
      exact hDown.trans (moved_of_same rfl rfl rfl rfl rfl rfl)

theorem moved_dispose
    (supervisor : Supervisor) :
    Moved supervisor supervisor.dispose := by
  unfold dispose
  split
  · exact moved_of_same rfl rfl rfl rfl rfl rfl
  · have hAbandoned :=
      supervisor.moved_abandonQueues .workerUnavailable
    dsimp only
    split
    · exact
        hAbandoned.trans (moved_of_same rfl rfl rfl rfl rfl rfl)
    · exact
        hAbandoned.trans (moved_of_same rfl rfl rfl rfl rfl rfl)

theorem moved_nextGeneration
    (supervisor : Supervisor) :
    Moved supervisor supervisor.nextGeneration := by
  refine
    moved_of_log rfl rfl (issuedPromises_rejections _ _)
      fun promise => ?_
  rw [settledPromises_rejections]
  change
    supervisor.pendingMutationPromises.count promise + 0
      + supervisor.activePromise.count promise
      + supervisor.detachedRequest.count promise
      + supervisor.pendingRequestPromises.count promise = _
  unfold held
  omega

theorem count_one
    (other promise : Nat) :
    [other].count promise
      = if promise = other then 1 else 0 := by
  by_cases hEq : promise = other
  · subst hEq
    simp
  · simp [hEq, Ne.symm hEq]

/- A change that hands out the next promise. -/
theorem Placed.handOut
    {more : List Observation}
    (hPlaced : first.Placed)
    (hLog : second.log = first.log ++ more)
    (hNext : second.nextPromise = first.nextPromise + 1)
    (hIssued :
      ∀ promise ∈ issuedPromises more,
        promise = first.nextPromise)
    (hHeld :
      ∀ promise,
        second.held promise
            + (settledPromises more).count promise
          = first.held promise
            + [first.nextPromise].count promise) :
    second.Placed := by
  constructor
  · intro promise
    have hPlaces := hPlaced.places promise
    have hCount := hHeld promise
    rw [count_one] at hCount
    change
      second.held promise
        + (settledPromises second.log).count promise = _
    change
      first.held promise
        + (settledPromises first.log).count promise = _
      at hPlaces
    rw [hLog, settledPromises_append, List.count_append, hNext]
    split at hCount <;> split at hPlaces <;> split <;> omega
  · intro promise hMem
    rw [hLog, issuedPromises_append] at hMem
    rw [hNext]
    rcases List.mem_append.mp hMem with hOld | hNew
    · exact Nat.lt_succ_of_lt (hPlaced.issued promise hOld)
    · rw [hIssued promise hNew]
      exact Nat.lt_succ_self _

/- A promise that has a place has been handed out. -/
theorem Placed.lt_of_place
    (hPlaced : supervisor.Placed)
    {promise : Nat}
    (hPlace : 0 < supervisor.places promise) :
    promise < supervisor.nextPromise := by
  rw [hPlaced.places] at hPlace
  by_contra hLt
  rw [if_neg hLt] at hPlace
  omega

theorem Placed.rejectedPromise
    (hPlaced : supervisor.Placed)
    (code : SemanticWorkerErrorCode) :
    (supervisor.rejectedPromise code).Placed := by
  refine hPlaced.handOut rfl rfl ?_ fun _ => rfl
  intro promise hMem
  cases hMem

/- The record that a mutation joins is in the queue. -/
theorem findCoalescing_mem
    {pending : List MutationRecord}
    {input : RootSemanticWorkerMutationInput}
    {record : MutationRecord}
    (hFind :
      findCoalescingMutation pending input = some record) :
    record ∈ pending := by
  cases input with
  | document mutation =>
    have hScan :
        ∀ reversed : List MutationRecord,
          findDocumentMutation mutation reversed = some record →
          record ∈ reversed := by
      intro reversed
      induction reversed with
      | nil =>
        intro hNone
        cases hNone
      | cons head earlier ih =>
        intro hSome
        unfold findDocumentMutation at hSome
        split at hSome
        · cases hSome
        · split at hSome
          · split at hSome
            · cases hSome
            · cases hSome
              exact List.mem_cons_self
          · exact List.mem_cons_of_mem _ (ih hSome)
    exact List.mem_reverse.mp (hScan pending.reverse hFind)
  | workspaceFilesChanged files =>
    simp only [findCoalescingMutation,
      findWorkspaceMutation] at hFind
    split at hFind
    · cases hFind
    · rename_i tail hTail
      split at hFind
      · cases hFind
        exact List.mem_of_getLast? hTail
      · cases hFind

@[simp]
theorem takeUp_promise
    (promise : Nat)
    (next : RootSemanticWorkerMutationInput)
    (record : MutationRecord) :
    (takeUp promise next record).promise
      = record.promise := by
  unfold takeUp
  split <;> rfl

theorem joinMutation_promises
    (supervisor : Supervisor)
    (existing : MutationRecord)
    (snapshot next : RootSemanticWorkerMutationInput) :
    (supervisor.joinMutation existing snapshot
        next).pendingMutationPromises
      = supervisor.pendingMutationPromises := by
  have hRecords :
      (supervisor.joinMutation existing snapshot
          next).pendingMutations
        = supervisor.pendingMutations.map
          (takeUp existing.promise next) := rfl
  simp only [pendingMutationPromises, hRecords, List.map_map]
  apply List.map_congr_left
  intro record _
  exact takeUp_promise _ _ _

theorem Placed.pushMutation
    (hPlaced : supervisor.Placed)
    (snapshot : RootSemanticWorkerMutationInput) :
    (supervisor.pushMutation snapshot).Placed := by
  refine hPlaced.handOut rfl rfl ?_ fun promise => ?_
  · exact fun promise hMem => List.mem_singleton.mp hMem
  · have hMutations :
        (supervisor.pushMutation
          snapshot).pendingMutationPromises
          = supervisor.pendingMutationPromises
            ++ [supervisor.nextPromise] := by
      simp [pendingMutationPromises,
        Supervisor.pushMutation, observe]
    unfold held
    rw [hMutations, List.count_append]
    change
      _ + supervisor.pendingRequestPromises.count promise
        + supervisor.activePromise.count promise
        + supervisor.detachedRequest.count promise + 0 = _
    omega

variable {existing : MutationRecord}

theorem Placed.joinMutation
    (hPlaced : supervisor.Placed)
    (hMem : existing ∈ supervisor.pendingMutations)
    (snapshot next : RootSemanticWorkerMutationInput) :
    (supervisor.joinMutation existing snapshot next).Placed := by
  have hLog :
      (supervisor.joinMutation existing snapshot next).log
        = supervisor.log
          ++ [.accepted existing.promise snapshot] := rfl
  have hSettled :
      settledPromises
          [.accepted existing.promise snapshot] = [] := rfl
  constructor
  · intro promise
    have hSame :
        (supervisor.joinMutation existing snapshot
            next).places promise
          = supervisor.places promise := by
      simp only [Supervisor.places, joinMutation_promises, hLog,
        settledPromises_append, hSettled, List.append_nil]
      rfl
    rw [hSame]
    exact hPlaced.places promise
  · intro promise hIssued
    rw [hLog, issuedPromises_append] at hIssued
    rcases List.mem_append.mp hIssued with hOld | hNew
    · exact hPlaced.issued promise hOld
    · have hEq : promise = existing.promise := by
        simpa [issuedPromises, Observation.issued?] using hNew
      apply hPlaced.lt_of_place
      have hCount :
          0 < supervisor.pendingMutationPromises.count
            promise := by
        rw [hEq]
        exact List.count_pos_iff.mpr (List.mem_map_of_mem hMem)
      unfold Supervisor.places
      omega

----------
-- Lanes and Reads
----------

variable {records : List MutationRecord}

theorem moved_mutationActive
    {record : MutationRecord}
    {wire : Option SemanticWorkerMutation}
    (hIdle : supervisor.active = none)
    (hQueue : supervisor.pendingMutations = record :: records) :
    Moved supervisor
      ((supervisor.shiftMutation record
        records).activateMutation record wire) := by
  constructor
  · intro promise
    have hMutations :
        supervisor.pendingMutationPromises
          = record.promise
            :: records.map MutationRecord.promise := by
      simp [pendingMutationPromises, hQueue]
    have hActive : supervisor.activePromise = [] := by
      simp [activePromise, hIdle]
    have hAfter :
        ((supervisor.shiftMutation record
            records).activateMutation record wire).activePromise
          = [record.promise] := rfl
    have hRest :
        ((supervisor.shiftMutation record
            records).activateMutation record
              wire).pendingMutationPromises
          = records.map MutationRecord.promise := rfl
    simp only [places, hMutations, hActive, hAfter, hRest,
      List.count_cons, List.count_nil]
    simp only [pendingRequestPromises, detachedRequest,
      shiftMutation, activateMutation]
    omega
  · rfl
  · rfl

/- A command that goes to the endpoint keeps its place. -/
theorem moved_delivered
    (supervisor : Supervisor)
    (promise : Nat)
    (command : SemanticWorkerCommand) :
    Moved supervisor
      (supervisor.delivered promise command) :=
  moved_of_log rfl rfl rfl fun _ => rfl

theorem takeRead_none
    (hNone : supervisor.takeRead.1 = none) :
    supervisor.takeRead.2.pendingRequests
      = supervisor.pendingRequests :=
  PendingReads.take_none hNone

variable {record : RequestRecord}

/- Taking a request takes its promise out of the reads. -/
theorem takeRead_count
    (hTaken : supervisor.takeRead.1 = some record)
    (promise : Nat) :
    supervisor.pendingRequestPromises.count promise
      = supervisor.takeRead.2.pendingRequestPromises.count
          promise
        + [record.promise].count promise := by
  have hPerm := PendingReads.take_perm hTaken
  have hCount :=
    (hPerm.map RequestRecord.promise).count_eq promise
  simp only [pendingRequestPromises]
  rw [← hCount, List.map_cons, List.count_cons,
    List.count_singleton]
  rfl

theorem moved_rejectStale
    (hTaken : supervisor.takeRead.1 = some record) :
    Moved supervisor
      (supervisor.takeRead.2.rejectStale record) := by
  refine moved_of_log rfl rfl rfl fun promise => ?_
  unfold held
  rw [takeRead_count hTaken promise]
  change
    supervisor.pendingMutationPromises.count promise
      + supervisor.takeRead.2.pendingRequestPromises.count
        promise
      + supervisor.activePromise.count promise
      + supervisor.detachedRequest.count promise
      + [record.promise].count promise = _
  omega

theorem moved_occupyLane
    (hIdle : supervisor.active = none)
    (hTaken : supervisor.takeRead.1 = some record)
    (hLane :
      record.input.method = .references →
        supervisor.detachedReference = none)
    (options : SupervisorOptions) :
    Moved supervisor
      (supervisor.takeRead.2.nextId.occupyLane
        (supervisor.numberRequest options record)) := by
  unfold occupyLane
  have hActive : supervisor.activePromise = [] := by
    simp [activePromise, hIdle]
  split
  · rename_i hMethod
    have hFree := hLane hMethod
    constructor
    · intro promise
      have hCount := takeRead_count hTaken promise
      have hDetached : supervisor.detachedRequest = [] := by
        simp [detachedRequest, hFree]
      simp only [places, hCount, hDetached, List.count_nil]
      simp only [detachedRequest, numberRequest, nextId,
        pendingMutationPromises, pendingRequestPromises,
        activePromise, takeRead]
      omega
    · rfl
    · rfl
  · constructor
    · intro promise
      have hCount := takeRead_count hTaken promise
      have hAfter :
          ({ supervisor.takeRead.2.nextId with
              active :=
                some
                  (.request
                    (supervisor.numberRequest options record)) } :
              Supervisor).activePromise
            = [record.promise] := rfl
      simp only [places, hCount, hActive, hAfter, List.count_nil]
      simp only [detachedRequest, nextId,
        pendingMutationPromises, pendingRequestPromises,
        takeRead]
      omega
    · rfl
    · rfl

theorem moved_answered
    {detached : Bool}
    (hRecord :
      supervisor.laneRequest detached
        = some (.request record))
    (settlement : Settlement) :
    Moved supervisor
      ((supervisor.clearLane detached).settle record.promise
        settlement) := by
  have hOne :
      settledPromises [.settled record.promise settlement]
        = [record.promise] := rfl
  cases detached with
  | true =>
    have hDetached :
        supervisor.detachedReference = some record := by
      simpa [laneRequest] using hRecord
    have hBefore :
        supervisor.detachedRequest = [record.promise] := by
      simp [detachedRequest, hDetached]
    refine moved_of_log rfl rfl rfl fun promise => ?_
    rw [hOne, ← hBefore]
    rfl
  | false =>
    have hActive :
        supervisor.active = some (.request record) := by
      simpa [laneRequest] using hRecord
    have hBefore :
        supervisor.activePromise = [record.promise] := by
      simp [activePromise, hActive, CommandRecord.promise]
    refine moved_of_log rfl rfl rfl fun promise => ?_
    rw [hOne, ← hBefore]
    exact Nat.add_right_comm _ _ _

theorem moved_acknowledged
    {record : MutationRecord}
    (hActive : supervisor.active = some (.mutation record))
    (revision : Nat) :
    Moved supervisor
      ({ supervisor with
          appliedRevision := revision
          active := none }.settle record.promise
            .acknowledged) := by
  have hBefore :
      supervisor.activePromise = [record.promise] := by
    simp [activePromise, hActive, CommandRecord.promise]
  have hOne :
      settledPromises [.settled record.promise .acknowledged]
        = [record.promise] := rfl
  refine moved_of_log rfl rfl rfl fun promise => ?_
  rw [hOne, ← hBefore]
  exact Nat.add_right_comm _ _ _

variable {reads : PendingReads}

theorem moved_readCancelled
    (hRemove :
      supervisor.pendingRequests.remove record = some reads)
    (settlement : Settlement) :
    Moved supervisor
      ({ supervisor with pendingRequests := reads }.settle
        record.promise settlement) := by
  have hPerm := PendingReads.remove_perm hRemove
  refine moved_of_log rfl rfl rfl fun promise => ?_
  have hCount :=
    (hPerm.map RequestRecord.promise).count_eq promise
  rw [List.map_cons, ← List.singleton_append,
    List.count_append] at hCount
  change
    supervisor.pendingMutationPromises.count promise
      + (reads.records.map RequestRecord.promise).count promise
      + supervisor.activePromise.count promise
      + supervisor.detachedRequest.count promise
      + [record.promise].count promise = _
  unfold held pendingRequestPromises
  rw [← hCount]
  omega

theorem Placed.enqueueRequest
    (hPlaced : supervisor.Placed)
    {protocol : WorkerProtocol}
    {input : RootSemanticWorkerRequestInput}
    (hAdd :
      supervisor.pendingRequests.add protocol
        (supervisor.newRequest input) = some reads) :
    (supervisor.enqueueRequest reads input).Placed := by
  refine hPlaced.handOut rfl rfl ?_ fun promise => ?_
  · exact fun promise hMem => List.mem_singleton.mp hMem
  · have hRequests :
        (supervisor.enqueueRequest reads
          input).pendingRequestPromises
          = supervisor.pendingRequestPromises
            ++ [supervisor.nextPromise] := by
      have hRecords := PendingReads.add_records hAdd
      have hReads :
          (supervisor.enqueueRequest reads
            input).pendingRequests = reads := rfl
      simp [pendingRequestPromises, hReads, hRecords, newRequest]
    unfold held
    rw [hRequests, List.count_append]
    change
      supervisor.pendingMutationPromises.count promise + _
        + supervisor.activePromise.count promise
        + supervisor.detachedRequest.count promise + 0 = _
    omega

/- Every move keeps each promise in one place. -/
theorem placed_move
    (hMove : Move options message first second)
    (hPlaced : first.Placed) :
    second.Placed := by
  cases hMove with
  | pushed =>
    exact
      ((first.moved_nextGeneration).placed hPlaced).pushMutation _
  | joined _ hExisting =>
    exact
      ((first.moved_nextGeneration).placed
        hPlaced).joinMutation
        (findCoalescing_mem hExisting) _ _
  | mutationSent _ hIdle hQueue =>
    exact
      ((moved_mutationActive hIdle hQueue).trans
        (moved_delivered _ _ _)).placed hPlaced
  | @mutationLost _ _ record records wire sends _ hIdle
      hQueue =>
      have hActive :
          Moved first
            ((first.shiftMutation record
              records).activateMutation record wire) :=
        moved_mutationActive hIdle hQueue
      exact
        (hActive.trans
          ((moved_sends _ sends).trans
            (moved_fail _ false))).placed hPlaced
  | passedOver hNone =>
    have hReads := takeRead_none hNone
    have hSame : Moved first first.takeRead.2 := by
      refine moved_of_same rfl ?_ rfl rfl rfl rfl
      simp only [pendingRequestPromises, hReads]
    exact hSame.placed hPlaced
  | staleRejected _ hTaken =>
    exact (moved_rejectStale hTaken).placed hPlaced
  | requestSent _ hIdle _ hTaken hLane =>
    exact
      ((moved_occupyLane hIdle hTaken hLane options).trans
        (moved_delivered _ _ _)).placed hPlaced
  | requestLost sends _ hIdle hTaken hLane =>
    exact
      ((moved_occupyLane hIdle hTaken hLane options).trans
        ((moved_sends _ sends).trans
          (moved_fail _ false))).placed hPlaced
  | acknowledged _ hActive =>
    exact (moved_acknowledged hActive _).placed hPlaced
  | answered _ hRecord =>
    exact (moved_answered hRecord _).placed hPlaced
  | failed =>
    exact (first.moved_fail _).placed hPlaced
  | activeSettled =>
    exact (first.moved_settleActiveFailure _).placed hPlaced
  | restarted =>
    have hRejected := hPlaced.rejectedPromise .restartRequired
    exact
      (hRejected.moved (moved_shutDown _ .restartRequired)).moved
        (moved_of_same rfl rfl rfl rfl rfl rfl)
  | refused => exact hPlaced.rejectedPromise _
  | enqueued _ hAdd => exact hPlaced.enqueueRequest hAdd
  | cellCancelled =>
    exact hPlaced.moved (moved_of_same rfl rfl rfl rfl rfl rfl)
  | readCancelled hRemove =>
    exact (moved_readCancelled hRemove _).placed hPlaced
  | disposeCalled =>
    exact first.moved_dispose.placed hPlaced
  | terminated =>
    exact hPlaced.moved (moved_of_same rfl rfl rfl rfl rfl rfl)
  | deadlineElapsed =>
    exact hPlaced.moved (moved_of_same rfl rfl rfl rfl rfl rfl)
  | failureContinued =>
    have hFlag :
        Moved first { first with failureWaits := false } :=
      moved_of_same rfl rfl rfl rfl rfl rfl
    exact (hFlag.trans (moved_settleLanes _ _)).placed hPlaced
  | lanesAwaited =>
    exact hPlaced.moved (moved_of_same rfl rfl rfl rfl rfl rfl)
  | deadlineSettled =>
    have hFlag :
        Moved first
          { first with
            disposeWaits := false
            terminating := true } :=
      moved_of_same rfl rfl rfl rfl rfl rfl
    exact (hFlag.trans (moved_settleLanes _ _)).placed hPlaced

theorem placed_initial : ({} : Supervisor).Placed := by
  constructor
  · intro promise
    rfl
  · intro promise hMem
    cases hMem

/- In every run each promise has exactly one place. -/
theorem placed_run
    (options : SupervisorOptions)
    (events : List SupervisorEvent) :
    (supervisorRun options events).Placed :=
  supervisorRun_invariant
    (fun _ _ _ hMove hPlaced => placed_move hMove hPlaced)
    placed_initial events

----------
-- The Queue
----------

/- The bytes that the queued records account for. -/
def mutationBytes : List MutationRecord → Nat
| [] => 0
| record :: records => record.textBytes + mutationBytes records

structure QueueInv
    (supervisor : Supervisor) : Prop where
  bytes :
    supervisor.queuedMutationTextBytes
      = mutationBytes supervisor.pendingMutations
  records :
    supervisor.pendingMutations.length
      ≤ maxQueuedMutationRecords
  bound :
    supervisor.queuedMutationTextBytes
      ≤ maxQueuedMutationTextBytes
  texts :
    ∀ record ∈ supervisor.pendingMutations,
      record.textBytes = mutationTextBytes record.input

theorem QueueInv.of_same
    (hInv : first.QueueInv)
    (hQueue : second.pendingMutations = first.pendingMutations)
    (hBytes :
      second.queuedMutationTextBytes
        = first.queuedMutationTextBytes) :
    second.QueueInv := by
  constructor
  · rw [hBytes, hQueue]
    exact hInv.bytes
  · rw [hQueue]
    exact hInv.records
  · rw [hBytes]
    exact hInv.bound
  · rw [hQueue]
    exact hInv.texts

theorem queueInv_of_empty
    (hQueue : supervisor.pendingMutations = [])
    (hBytes : supervisor.queuedMutationTextBytes = 0) :
    supervisor.QueueInv := by
  constructor
  · rw [hBytes, hQueue]
    rfl
  · rw [hQueue]
    exact Nat.zero_le _
  · rw [hBytes]
    exact Nat.zero_le _
  · rw [hQueue]
    intro record hMem
    cases hMem

theorem mutationBytes_append
    (records more : List MutationRecord) :
    mutationBytes (records ++ more)
      = mutationBytes records + mutationBytes more := by
  induction records with
  | nil => simp [mutationBytes]
  | cons record records ih =>
    simp only [List.cons_append, mutationBytes, ih]
    omega

/- A record that is not joined keeps its bytes. -/
theorem map_takeUp_of_not_mem
    {promise : Nat}
    (hOther :
      promise ∉ records.map MutationRecord.promise)
    (next : RootSemanticWorkerMutationInput) :
    records.map (takeUp promise next) = records := by
  induction records with
  | nil => rfl
  | cons record records ih =>
    rw [List.map_cons, List.mem_cons, not_or] at hOther
    rw [List.map_cons, ih hOther.2]
    unfold takeUp
    rw [if_neg (Ne.symm hOther.1)]

/- Joining a record exchanges its bytes. -/
theorem mutationBytes_takeUp
    (hNodup : (records.map MutationRecord.promise).Nodup)
    (hMem : existing ∈ records)
    (next : RootSemanticWorkerMutationInput) :
    mutationBytes
          (records.map (takeUp existing.promise next))
        + existing.textBytes
      = mutationBytes records + mutationTextBytes next := by
  induction records with
  | nil => cases hMem
  | cons record records ih =>
    have hSplit := List.nodup_cons.mp hNodup
    rw [List.map_cons, mutationBytes, mutationBytes]
    rcases List.mem_cons.mp hMem with hHead | hTail
    · subst hHead
      rw [map_takeUp_of_not_mem hSplit.1]
      simp only [takeUp, if_true]
      omega
    · have hOther : record.promise ≠ existing.promise := by
        intro hEq
        apply hSplit.1
        rw [hEq]
        exact List.mem_map_of_mem hTail
      have hRest := ih hSplit.2 hTail
      have hSame :
          takeUp existing.promise next record = record := by
        unfold takeUp
        rw [if_neg hOther]
      rw [hSame]
      omega

/- The queue holds each promise once. -/
theorem Placed.nodup_pending
    (hPlaced : supervisor.Placed) :
    supervisor.pendingMutationPromises.Nodup := by
  rw [List.nodup_iff_count_le_one]
  intro promise
  have hPlace := hPlaced.places promise
  unfold Supervisor.places at hPlace
  split at hPlace <;> omega

/- The promises are settled at most once. -/
theorem Placed.nodup_settled
    (hPlaced : supervisor.Placed) :
    (settledPromises supervisor.log).Nodup := by
  rw [List.nodup_iff_count_le_one]
  intro promise
  have hPlace := hPlaced.places promise
  unfold Supervisor.places at hPlace
  split at hPlace <;> omega

theorem QueueInv.pushMutation
    (hInv : supervisor.QueueInv)
    {snapshot : RootSemanticWorkerMutationInput}
    (hBounds :
      supervisor.exceedsQueueBounds none snapshot snapshot
        = false) :
    (supervisor.nextGeneration.pushMutation
      snapshot).QueueInv := by
  have hQueue :
      (supervisor.nextGeneration.pushMutation
          snapshot).pendingMutations
        = supervisor.pendingMutations
          ++ [{ promise := supervisor.nextPromise
                input := snapshot
                documentKey := snapshot.documentKey
                textBytes := mutationTextBytes snapshot }] := rfl
  have hBytes :
      (supervisor.nextGeneration.pushMutation
          snapshot).queuedMutationTextBytes
        = supervisor.queuedMutationTextBytes
          + mutationTextBytes snapshot := rfl
  simp only [exceedsQueueBounds, queuedRecordCount,
    nextTextBytes, Bool.or_eq_false_iff,
    decide_eq_false_iff_not, Option.map_none,
    Option.getD_none, Option.isNone_none] at hBounds
  obtain ⟨⟨_, hRecords⟩, hText⟩ := hBounds
  constructor
  · rw [hBytes, hQueue, mutationBytes_append, hInv.bytes]
    rfl
  · rw [hQueue, List.length_append]
    exact Nat.le_of_not_lt (of_decide_eq_false hRecords)
  · rw [hBytes]
    exact Nat.le_of_not_lt (of_decide_eq_false hText)
  · rw [hQueue]
    intro record hMem
    rcases List.mem_append.mp hMem with hOld | hNew
    · exact hInv.texts record hOld
    · rw [List.mem_singleton] at hNew
      subst hNew
      rfl

theorem QueueInv.joinMutation
    (hInv : supervisor.QueueInv)
    (hPlaced : supervisor.Placed)
    {snapshot next : RootSemanticWorkerMutationInput}
    (hMem : existing ∈ supervisor.pendingMutations)
    (hBounds :
      supervisor.exceedsQueueBounds (some existing)
        snapshot next = false) :
    (supervisor.nextGeneration.joinMutation existing
      snapshot next).QueueInv := by
  have hQueue :
      (supervisor.nextGeneration.joinMutation existing
          snapshot next).pendingMutations
        = supervisor.pendingMutations.map
          (takeUp existing.promise next) := rfl
  have hBytes :
      (supervisor.nextGeneration.joinMutation existing
          snapshot next).queuedMutationTextBytes
        = supervisor.queuedMutationTextBytes
          - existing.textBytes + mutationTextBytes next := rfl
  simp only [exceedsQueueBounds, nextTextBytes,
    Bool.or_eq_false_iff, decide_eq_false_iff_not,
    Option.map_some, Option.getD_some] at hBounds
  obtain ⟨_, hText⟩ := hBounds
  have hExchange :=
    mutationBytes_takeUp hPlaced.nodup_pending hMem next
  have hOld :
      existing.textBytes
        ≤ mutationBytes supervisor.pendingMutations := by
    obtain ⟨before, after, hSplit⟩ := List.append_of_mem hMem
    rw [hSplit, mutationBytes_append, mutationBytes]
    omega
  constructor
  · rw [hBytes, hQueue, hInv.bytes]
    omega
  · rw [hQueue, List.length_map]
    exact hInv.records
  · rw [hBytes]
    exact Nat.le_of_not_lt (of_decide_eq_false hText)
  · rw [hQueue]
    intro record hRecord
    obtain ⟨old, hOldMem, hEq⟩ := List.mem_map.mp hRecord
    rw [← hEq]
    unfold takeUp
    split
    · rfl
    · exact hInv.texts old hOldMem

theorem QueueInv.shiftMutation
    (hInv : supervisor.QueueInv)
    {record : MutationRecord}
    (hQueue : supervisor.pendingMutations = record :: records) :
    (supervisor.shiftMutation record records).QueueInv := by
  have hBytes := hInv.bytes
  have hRecords := hInv.records
  have hBound := hInv.bound
  rw [hQueue] at hBytes hRecords
  rw [mutationBytes] at hBytes
  rw [List.length_cons] at hRecords
  constructor
  · simp only [Supervisor.shiftMutation]
    omega
  · simp only [Supervisor.shiftMutation]
    omega
  · simp only [Supervisor.shiftMutation]
    omega
  · intro other hMem
    apply hInv.texts
    rw [hQueue]
    exact List.mem_cons_of_mem _ hMem

theorem QueueInv.fail
    (hInv : supervisor.QueueInv)
    (endpointTerminal : Bool) :
    (supervisor.fail endpointTerminal).QueueInv := by
  cases hFailure : supervisor.failure with
  | some failure =>
    unfold Supervisor.fail
    rw [hFailure]
    dsimp only
    split
    · rw [settleActiveFailure_eq]
      exact hInv.of_same rfl rfl
    · exact hInv
  | none =>
    rw [fail_eq hFailure]
    split
    · rw [settleLanes_eq]
      exact queueInv_of_empty rfl rfl
    · exact queueInv_of_empty rfl rfl

theorem queueInv_move
    (hMove : Move options message first second)
    (hPlaced : first.Placed)
    (hInv : first.QueueInv) :
    second.QueueInv := by
  cases hMove with
  | pushed _ _ hBounds => exact hInv.pushMutation hBounds
  | joined _ hExisting _ hBounds =>
    exact
      hInv.joinMutation hPlaced
        (findCoalescing_mem hExisting) hBounds
  | mutationSent _ _ hQueue =>
    exact (hInv.shiftMutation hQueue).of_same rfl rfl
  | mutationLost _ _ _ _ hQueue =>
    apply QueueInv.fail
    exact (hInv.shiftMutation hQueue).of_same rfl rfl
  | passedOver => exact hInv.of_same rfl rfl
  | staleRejected => exact hInv.of_same rfl rfl
  | requestSent =>
    refine hInv.of_same ?_ ?_
    · simp only [delivered, observe, occupyLane]
      split <;> rfl
    · simp only [delivered, observe, occupyLane]
      split <;> rfl
  | requestLost =>
    apply QueueInv.fail
    refine hInv.of_same ?_ ?_
    · simp only [occupyLane]
      split <;> rfl
    · simp only [occupyLane]
      split <;> rfl
  | acknowledged => exact hInv.of_same rfl rfl
  | @answered _ _ _ _ _ detached =>
    refine hInv.of_same ?_ ?_ <;> cases detached <;> rfl
  | failed => exact hInv.fail _
  | activeSettled =>
    rw [settleActiveFailure_eq]
    exact hInv.of_same rfl rfl
  | restarted => exact queueInv_of_empty rfl rfl
  | refused => exact hInv.of_same rfl rfl
  | enqueued => exact hInv.of_same rfl rfl
  | cellCancelled => exact hInv.of_same rfl rfl
  | readCancelled => exact hInv.of_same rfl rfl
  | disposeCalled =>
    unfold dispose
    split
    · exact hInv
    · dsimp only
      split
      · exact queueInv_of_empty rfl rfl
      · exact queueInv_of_empty rfl rfl
  | terminated => exact hInv.of_same rfl rfl
  | deadlineElapsed => exact hInv.of_same rfl rfl
  | failureContinued =>
    rw [settleLanes_eq]
    exact hInv.of_same rfl rfl
  | lanesAwaited => exact hInv.of_same rfl rfl
  | deadlineSettled =>
    rw [settleLanes_eq]
    exact hInv.of_same rfl rfl

/- In every run the queue is counted and bounded. -/
theorem queueInv_run
    (options : SupervisorOptions)
    (events : List SupervisorEvent) :
    (supervisorRun options events).QueueInv := by
  let Both := fun supervisor : Supervisor =>
    supervisor.Placed ∧ supervisor.QueueInv
  have hBoth : Both (supervisorRun options events) := by
    apply supervisorRun_invariant
    · intro _ _ _ hMove hInv
      exact
        ⟨placed_move hMove hInv.1,
          queueInv_move hMove hInv.1 hInv.2⟩
    · exact ⟨placed_initial, queueInv_of_empty rfl rfl⟩
  exact hBoth.2

end Supervisor

end Semantic

end ArktsServer
