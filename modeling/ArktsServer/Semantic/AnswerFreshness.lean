import ArktsServer.Semantic.MutationEffects

/-
  The requests that the supervisor may still answer: no call
  has been accepted since they were made, and those that are
  with the worker were sent behind the mutations of all the
  calls before them.

  Key definitions include:
    * `Semantic.Applied`
    * `Semantic.Asked`
    * `Semantic.Posted`
    * `Semantic.Supervisor.RequestMove`
    * `Semantic.Supervisor.FreshInv`

  Correctness is proven by:
    * `Semantic.Supervisor.requestMove`
    * `Semantic.Supervisor.mutationInv_move`
    * `Semantic.Supervisor.freshInv_move`
-/

namespace ArktsServer

namespace Semantic

open Transition

----------
-- Requests in the Log
----------

def Observation.fulfilled? :
    Observation → Option (Nat × JsonText)
| .settled promise (.fulfilled value) => some (promise, value)
| _ => none

def Observation.request? :
    Observation → Option SemanticWorkerRequest
| .sent _ (.request request) => some request
| _ => none

/- The requests on the wire, in order. -/
def sentRequests
    (log : List Observation) :
    List SemanticWorkerRequest :=
  log.filterMap Observation.request?

theorem sentRequests_append
    (log more : List Observation) :
    sentRequests (log ++ more)
      = sentRequests log ++ sentRequests more :=
  List.filterMap_append

/-
  The wire mutations of a log stand for its calls, each call
  is on the wire, and the wire builds the table of the
  calls.
-/
structure Applied
    (log : List Observation) : Prop where
  carried :
    ∀ call ∈ acceptedCalls log,
      call.1 ∈ (sentMutations log).map Prod.fst
  stands :
    ∀ sent ∈ sentMutations log,
      StandsFor sent.2.input
        (callsOf sent.1 (acceptedCalls log))
  once : ((sentMutations log).map Prod.fst).Nodup
  table :
    applyDocuments noDocuments (sentInputs log)
      = applyDocuments noDocuments (acceptedInputs log)

/- Since the request was made no call has been accepted. -/
def Asked
    (log : List Observation)
    (promise : Nat)
    (input : RootSemanticWorkerRequestInput) :
    Prop :=
  ∃ before after,
    log = before ++ .requested promise input :: after
      ∧ acceptedCalls after = []

/-
  The request was sent when all calls had been applied, and
  nothing has been accepted or applied since.
-/
def Posted
    (log : List Observation)
    (promise : Nat)
    (request : SemanticWorkerRequest) :
    Prop :=
  ∃ asked after,
    log = asked ++ .sent promise (.request request) :: after
      ∧ Asked asked promise request.input
      ∧ Applied asked
      ∧ acceptedCalls after = []
      ∧ sentMutations after = []

variable {input : RootSemanticWorkerRequestInput}
variable {log more : List Observation}

theorem Asked.append
    {promise : Nat}
    (hAsked : Asked log promise input)
    (hMore : acceptedCalls more = []) :
    Asked (log ++ more) promise input := by
  obtain ⟨before, after, hLog, hCalls⟩ := hAsked
  refine ⟨before, after ++ more, ?_, ?_⟩
  · rw [hLog, List.append_assoc, List.cons_append]
  · rw [acceptedCalls_append, hCalls, hMore]
    rfl

variable {request : SemanticWorkerRequest}

theorem Posted.append
    {promise : Nat}
    (hPosted : Posted log promise request)
    (hCalls : acceptedCalls more = [])
    (hSent : sentMutations more = []) :
    Posted (log ++ more) promise request := by
  obtain ⟨asked, after, hLog, hAsked, hApplied, hNone, hQuiet⟩ :=
    hPosted
  refine ⟨asked, after ++ more, ?_, hAsked, hApplied, ?_, ?_⟩
  · rw [hLog, List.append_assoc, List.cons_append]
  · rw [acceptedCalls_append, hNone, hCalls]
    rfl
  · rw [sentMutations_append, hQuiet, hSent]
    rfl

/- A posted request has been applied up to this moment. -/
theorem Posted.calls
    {log : List Observation}
    {promise : Nat}
    (hPosted : Posted log promise request)
    {call : AcceptedCall}
    (hCall : call ∈ acceptedCalls log) :
    call.1 ∈ (sentMutations log).map Prod.fst := by
  obtain ⟨asked, after, hLog, _, hApplied, hNone, _⟩ := hPosted
  have hAsked :
      acceptedCalls log = acceptedCalls asked := by
    have hSent :
        acceptedCalls
            (.sent promise (.request request) :: after)
          = acceptedCalls after := rfl
    rw [hLog, acceptedCalls_append, hSent, hNone, List.append_nil]
  rw [hAsked] at hCall
  obtain ⟨sent, hSent, hPromise⟩ :=
    List.mem_map.mp (hApplied.carried call hCall)
  rw [← hPromise, hLog, sentMutations_append]
  exact List.mem_map_of_mem (List.mem_append_left _ hSent)

namespace Supervisor

variable {options : SupervisorOptions}
variable {message : Option WorkerMessage}
variable {supervisor first second : Supervisor}

----------
-- Request Moves
----------

/- The requests in the two lanes. -/
def laneRecords
    (supervisor : Supervisor) :
    List RequestRecord :=
  (match supervisor.active with
    | some (.request record) => [record]
    | _ => [])
    ++ supervisor.detachedReference.toList

/- No command, no call, and no value. -/
structure Plain
    (observation : Observation) : Prop where
  issued : observation.issued? = none
  command : observation.command? = none
  fulfilled : observation.fulfilled? = none

/- The requests that are held were held before. -/
structure Keeps
    (first second : Supervisor) : Prop where
  pending :
    ∀ record ∈ second.pendingRequests.records,
      record ∈ first.pendingRequests.records
  lanes :
    ∀ record ∈ second.laneRecords,
      second.cells record.promise = none →
      record ∈ first.laneRecords
        ∧ first.cells record.promise = none
  ids : first.nextRequestId ≤ second.nextRequestId

structure PlainMove
    (first second : Supervisor) : Prop where
  keeps : Keeps first second
  log :
    ∃ more,
      second.log = first.log ++ more
        ∧ ∀ observation ∈ more, Plain observation

/- A queued request takes a lane and is posted. -/
structure RequestSent
    (options : SupervisorOptions)
    (record : RequestRecord)
    (first second : Supervisor) : Prop where
  log :
    second.log
      = first.log
        ++ [.sent record.promise
          (.request (first.wireRequest options record.input))]
  queued : record ∈ first.pendingRequests.records
  pending :
    ∀ other ∈ second.pendingRequests.records,
      other ∈ first.pendingRequests.records
  lanes :
    ∀ other ∈ second.laneRecords,
      second.cells other.promise = none →
      (other ∈ first.laneRecords
          ∧ first.cells other.promise = none)
        ∨ other = first.numberRequest options record
  ids : second.nextRequestId = first.nextRequestId + 1

/- What a move does as far as requests are concerned. -/
inductive RequestMove
    (options : SupervisorOptions) :
    Option WorkerMessage → Supervisor → Supervisor → Prop where
| accepted
    {message : Option WorkerMessage}
    {first second : Supervisor}
    {more : List Observation}
    (call : AcceptedCall)
    (hLog :
      second.log
        = first.log ++ (more ++ [.accepted call.1 call.2]))
    (hMore : ∀ observation ∈ more, Plain observation)
    (hPending : second.pendingRequests.records = [])
    (hLanes :
      ∀ record ∈ second.laneRecords,
        second.cells record.promise ≠ none)
    (hIds : first.nextRequestId ≤ second.nextRequestId)
    (hPromise :
      call.1 = first.nextPromise
        ∨ call.1 ∈ first.pendingMutationPromises) :
    RequestMove options message first second
| mutationSent
    {message : Option WorkerMessage}
    {first second : Supervisor}
    {record : MutationRecord}
    {wire : SemanticWorkerMutation}
    (hLog :
      second.log
        = first.log ++ [.sent record.promise (.mutation wire)])
    (hHead : record ∈ first.pendingMutations)
    (hKeeps : Keeps first second) :
    RequestMove options message first second
| requestSent
    {message : Option WorkerMessage}
    {first second : Supervisor}
    {record : RequestRecord}
    (hLive : first.disposed = false)
    (hIdle : first.active = none)
    (hQueue : first.pendingMutations = [])
    (hSent : RequestSent options record first second) :
    RequestMove options message first second
| enqueued
    {message : Option WorkerMessage}
    {first second : Supervisor}
    {record : RequestRecord}
    (hLog :
      second.log
        = first.log ++ [.requested record.promise record.input])
    (hPromise : record.promise = first.nextPromise)
    (hPending :
      ∀ other ∈ second.pendingRequests.records,
        other ∈ first.pendingRequests.records
          ∨ other = record)
    (hLanes : second.laneRecords = first.laneRecords)
    (hCells : second.cells = first.cells)
    (hIds : first.nextRequestId ≤ second.nextRequestId) :
    RequestMove options message first second
| answered
    {message : WorkerMessage}
    {first second : Supervisor}
    {record : RequestRecord}
    {wire : SemanticWorkerRequest}
    {response : SemanticWorkerResponse}
    (hLog :
      second.log
        = first.log
          ++ [.settled record.promise
            (responseSettlement
              (first.cells record.promise) response)])
    (hRecord : record ∈ first.laneRecords)
    (hWire : record.wire = some wire)
    (hMessage : message = .response response)
    (hMatches : matchesRequest options wire response = true)
    (hKeeps : Keeps first second) :
    RequestMove options (some message) first second
| plain
    {message : Option WorkerMessage}
    {first second : Supervisor}
    (hPlain : PlainMove first second) :
    RequestMove options message first second

variable {third : Supervisor}

theorem Keeps.trans
    (hFirst : Keeps first second)
    (hSecond : Keeps second third) :
    Keeps first third := by
  constructor
  · intro record hMem
    exact hFirst.pending record (hSecond.pending record hMem)
  · intro record hMem hCell
    obtain ⟨hLane, hBefore⟩ := hSecond.lanes record hMem hCell
    exact hFirst.lanes record hLane hBefore
  · exact Nat.le_trans hFirst.ids hSecond.ids

theorem PlainMove.trans
    (hFirst : PlainMove first second)
    (hSecond : PlainMove second third) :
    PlainMove first third := by
  obtain ⟨more, hLog, hMore⟩ := hFirst.log
  obtain ⟨later, hLater, hPlain⟩ := hSecond.log
  refine ⟨hFirst.keeps.trans hSecond.keeps, ?_⟩
  refine ⟨more ++ later, ?_, ?_⟩
  · rw [hLater, hLog, List.append_assoc]
  · intro observation hMem
    rcases List.mem_append.mp hMem with hOld | hNew
    · exact hMore observation hOld
    · exact hPlain observation hNew

/- A cell that a cancellation has passed is not free. -/
theorem cancelCells_none
    {reason : SemanticWorkerTerminalCancellationState}
    {promises : List Nat}
    {promise : Nat}
    (hNone :
      (supervisor.cancelCells reason promises).cells promise
        = none) :
    promise ∉ promises ∧ supervisor.cells promise = none := by
  simp only [cancelCells] at hNone
  split at hNone
  · exact absurd hNone (cancelCell_ne_none _ _)
  · rename_i hOther
    exact ⟨hOther, hNone⟩

variable {record : RequestRecord}

theorem laneRecords_promise
    (hMem : record ∈ supervisor.laneRecords) :
    record.promise
      ∈ supervisor.activeRequest ++ supervisor.detachedRequest
    := by
  rcases List.mem_append.mp hMem with hActive | hDetached
  · apply List.mem_append_left
    split at hActive
    · rename_i other hOther
      rw [List.mem_singleton] at hActive
      simp [activeRequest, hOther, hActive]
    · cases hActive
  · apply List.mem_append_right
    unfold detachedRequest
    rw [Option.mem_toList] at hDetached
    rw [hDetached]
    exact List.mem_singleton_self _

----------
-- Told Lanes
----------

theorem plain_rejected
    (promise : Nat)
    (code : SemanticWorkerErrorCode) :
    Plain (.settled promise (.rejected code)) :=
  ⟨rfl, rfl, rfl⟩

/-
  A move behind which no request waits, and those in the
  lanes have been cancelled.
-/
structure Told
    (first second : Supervisor) : Prop where
  log :
    ∃ more,
      second.log = first.log ++ more
        ∧ ∀ observation ∈ more, Plain observation
  pending : second.pendingRequests.records = []
  lanes :
    ∀ record ∈ second.laneRecords,
      second.cells record.promise ≠ none
  ids : first.nextRequestId ≤ second.nextRequestId

theorem Told.plainMove
    (hTold : Told first second) :
    PlainMove first second := by
  refine ⟨⟨?_, ?_, hTold.ids⟩, hTold.log⟩
  · intro record hMem
    rw [hTold.pending] at hMem
    cases hMem
  · intro record hMem hCell
    exact absurd hCell (hTold.lanes record hMem)

/- The same end from an earlier start. -/
theorem Told.of_log
    (hTold : Told second third)
    (hLog : second.log = first.log)
    (hIds : first.nextRequestId ≤ second.nextRequestId) :
    Told first third := by
  obtain ⟨more, hMore, hPlain⟩ := hTold.log
  refine
    ⟨⟨more, ?_, hPlain⟩, hTold.pending, hTold.lanes,
      Nat.le_trans hIds hTold.ids⟩
  rw [hMore, hLog]

theorem told_abandonQueues
    (supervisor : Supervisor)
    (error : SemanticWorkerErrorCode) :
    Told supervisor (supervisor.abandonQueues error) := by
  refine
    ⟨⟨_, supervisor.abandonQueues_log error, ?_⟩, rfl, ?_,
      Nat.le_refl _⟩
  · intro observation hMem
    rcases List.mem_cons.mp hMem with hStopped | hRejected
    · rw [hStopped]
      exact ⟨rfl, rfl, rfl⟩
    · exact
        forall_rejections plain_rejected _ _ observation hRejected
  · intro record hMem hNone
    have hLane : record ∈ supervisor.laneRecords := hMem
    apply (cancelCells_none hNone).1
    apply List.mem_append_left
    exact laneRecords_promise hLane

variable {more : List Observation}

/- What follows on a stop keeps its lanes at most. -/
theorem Told.followed
    (hTold : Told first second)
    (hLog : third.log = second.log ++ more)
    (hMore : ∀ observation ∈ more, Plain observation)
    (hPending :
      third.pendingRequests.records
        = second.pendingRequests.records)
    (hLanes :
      ∀ record ∈ third.laneRecords,
        record ∈ second.laneRecords)
    (hCells : third.cells = second.cells)
    (hIds : third.nextRequestId = second.nextRequestId) :
    Told first third := by
  obtain ⟨before, hBefore, hPlain⟩ := hTold.log
  constructor
  · refine ⟨before ++ more, ?_, ?_⟩
    · rw [hLog, hBefore, List.append_assoc]
    · intro observation hMem
      rcases List.mem_append.mp hMem with hOld | hNew
      · exact hPlain observation hOld
      · exact hMore observation hNew
  · rw [hPending, hTold.pending]
  · intro record hMem
    rw [hCells]
    exact hTold.lanes record (hLanes record hMem)
  · rw [hIds]
    exact hTold.ids

theorem told_shutDown
    (supervisor : Supervisor)
    (failure : SemanticWorkerErrorCode) :
    Told supervisor (supervisor.shutDown failure) :=
  (supervisor.told_abandonQueues failure).followed
    (List.append_nil _).symm (List.forall_mem_nil _) rfl
    (fun _ hMem => hMem) rfl rfl

theorem Told.settleLanes
    (hTold : Told first second)
    (failure : SemanticWorkerErrorCode) :
    Told first (second.settleLanes failure) := by
  rw [settleLanes_eq]
  refine
    hTold.followed rfl
      (forall_lanesFailure plain_rejected second failure) rfl
      ?_ rfl rfl
  intro record hMem
  cases hMem

theorem told_fail
    (hFailure : supervisor.failure = none)
    (endpointTerminal : Bool) :
    Told supervisor (supervisor.fail endpointTerminal) := by
  rw [fail_eq hFailure]
  have hDown := supervisor.told_shutDown .workerUnavailable
  cases endpointTerminal with
  | true => exact hDown.settleLanes _
  | false =>
    exact
      hDown.followed (List.append_nil _).symm (List.forall_mem_nil _) rfl
        (fun _ hMem => hMem) rfl rfl

----------
-- Plain Moves
----------

/- A change of other fields, which may free a lane. -/
theorem plainMove_of_same
    (hLog : second.log = first.log ++ more)
    (hMore : ∀ observation ∈ more, Plain observation)
    (hPending :
      ∀ record ∈ second.pendingRequests.records,
        record ∈ first.pendingRequests.records)
    (hLanes :
      ∀ record ∈ second.laneRecords,
        record ∈ first.laneRecords)
    (hCells :
      ∀ promise,
        second.cells promise = none →
        first.cells promise = none)
    (hIds : first.nextRequestId ≤ second.nextRequestId) :
    PlainMove first second :=
  { keeps :=
      { pending := hPending
        lanes := fun record hMem hCell =>
          ⟨hLanes record hMem, hCells _ hCell⟩
        ids := hIds }
    log := ⟨more, hLog, hMore⟩ }

theorem plainMove_fields
    (hLog : second.log = first.log ++ more)
    (hMore : ∀ observation ∈ more, Plain observation)
    (hPending :
      second.pendingRequests = first.pendingRequests)
    (hActive : second.active = first.active)
    (hDetached :
      second.detachedReference = first.detachedReference)
    (hCells : second.cells = first.cells)
    (hIds : second.nextRequestId = first.nextRequestId) :
    PlainMove first second := by
  apply plainMove_of_same hLog hMore
  · rw [hPending]
    exact fun _ hMem => hMem
  · unfold laneRecords
    rw [hActive, hDetached]
    exact fun _ hMem => hMem
  · rw [hCells]
    exact fun _ hNone => hNone
  · exact Nat.le_of_eq hIds.symm

theorem plainMove_settleLanes
    (supervisor : Supervisor)
    (failure : SemanticWorkerErrorCode) :
    PlainMove supervisor (supervisor.settleLanes failure) := by
  rw [settleLanes_eq]
  refine
    plainMove_of_same rfl
      (forall_lanesFailure plain_rejected supervisor failure)
      (fun _ hMem => hMem) ?_ (fun _ hNone => hNone)
      (Nat.le_refl _)
  intro record hMem
  cases hMem

theorem plainMove_dispose
    (supervisor : Supervisor) :
    PlainMove supervisor supervisor.dispose := by
  have hTold := supervisor.told_abandonQueues .workerUnavailable
  unfold dispose
  split
  · exact
      plainMove_fields (List.append_nil _).symm (List.forall_mem_nil _)
        rfl rfl rfl rfl rfl
  · dsimp only
    split <;>
    · apply hTold.plainMove.trans
      exact
        plainMove_fields (List.append_nil _).symm (List.forall_mem_nil _)
          rfl rfl rfl rfl rfl

/- A taken request was one of the reads. -/
theorem takeRead_mem
    (hTaken : supervisor.takeRead.1 = some record) :
    record ∈ supervisor.pendingRequests.records
      ∧ ∀ other
          ∈ supervisor.takeRead.2.pendingRequests.records,
        other ∈ supervisor.pendingRequests.records := by
  have hPerm := PendingReads.take_perm hTaken
  constructor
  · exact hPerm.mem_iff.mp List.mem_cons_self
  · intro other hMem
    exact hPerm.mem_iff.mp (List.mem_cons_of_mem _ hMem)

/- The lanes once a request has entered its own. -/
theorem laneRecords_occupyLane
    (hIdle : supervisor.active = none)
    (record : RequestRecord) :
    ∀ other ∈ (supervisor.occupyLane record).laneRecords,
      other ∈ supervisor.laneRecords ∨ other = record := by
  intro other hMem
  unfold occupyLane at hMem
  split at hMem
  · simp only [laneRecords, hIdle, Option.toList_some,
      List.nil_append, List.mem_singleton] at hMem
    exact Or.inr hMem
  · simp only [laneRecords, List.cons_append,
      List.nil_append, List.mem_cons] at hMem
    rcases hMem with hHere | hDetached
    · exact Or.inr hHere
    · left
      unfold laneRecords
      exact List.mem_append_right _ hDetached

/- The lanes once one of them is free. -/
theorem laneRecords_clearLane
    (supervisor : Supervisor)
    (detached : Bool) :
    ∀ other ∈ (supervisor.clearLane detached).laneRecords,
      other ∈ supervisor.laneRecords := by
  intro other hMem
  cases detached with
  | true =>
    simp only [clearLane, if_true, laneRecords,
      Option.toList_none, List.append_nil] at hMem
    exact List.mem_append_left _ hMem
  | false =>
    simp only [clearLane, Bool.false_eq_true, if_false,
      laneRecords, List.nil_append] at hMem
    exact List.mem_append_right _ hMem

theorem mem_laneRecords
    {detached : Bool}
    (hRecord :
      supervisor.laneRequest detached
        = some (.request record)) :
    record ∈ supervisor.laneRecords := by
  cases detached with
  | true =>
    apply List.mem_append_right
    rw [Option.mem_toList]
    obtain ⟨other, hOther, hEq⟩ :=
      Option.map_eq_some_iff.mp hRecord
    cases hEq
    exact hOther
  | false =>
    have hActive :
        supervisor.active = some (.request record) := hRecord
    apply List.mem_append_left
    rw [hActive]
    exact List.mem_singleton_self _

/- A new generation has told all requests. -/
theorem told_nextGeneration
    (supervisor : Supervisor) :
    Told supervisor supervisor.nextGeneration := by
  refine
    ⟨⟨_, rfl, forall_rejections plain_rejected _ _⟩, rfl, ?_, Nat.le_refl _⟩
  intro record hMem hNone
  have hLane : record ∈ supervisor.laneRecords := hMem
  apply (cancelCells_none hNone).1
  apply List.mem_append_left
  exact laneRecords_promise hLane

/- A call behind a new generation. -/
theorem requestMove_accepted
    (call : AcceptedCall)
    (hLog :
      second.log
        = first.nextGeneration.log
          ++ [.accepted call.1 call.2])
    (hPending :
      second.pendingRequests
        = first.nextGeneration.pendingRequests)
    (hLanes :
      second.laneRecords = first.nextGeneration.laneRecords)
    (hCells : second.cells = first.nextGeneration.cells)
    (hIds :
      second.nextRequestId
        = first.nextGeneration.nextRequestId)
    (hPromise :
      call.1 = first.nextPromise
        ∨ call.1 ∈ first.pendingMutationPromises) :
    RequestMove options message first second := by
  have hTold := first.told_nextGeneration
  refine
    .accepted call
      (hLog.trans (List.append_assoc _ _ _))
      (forall_rejections plain_rejected _ _) ?_ ?_ ?_ hPromise
  · rw [hPending, hTold.pending]
  · rw [hLanes, hCells]
    exact hTold.lanes
  · rw [hIds]
    exact hTold.ids

theorem occupyLane_fields
    (supervisor : Supervisor)
    (record : RequestRecord) :
    (supervisor.occupyLane record).log = supervisor.log
      ∧ (supervisor.occupyLane record).pendingRequests
        = supervisor.pendingRequests
      ∧ (supervisor.occupyLane record).cells
        = supervisor.cells
      ∧ (supervisor.occupyLane record).nextRequestId
        = supervisor.nextRequestId
      ∧ (supervisor.occupyLane record).failure
        = supervisor.failure := by
  unfold occupyLane
  split <;> exact ⟨rfl, rfl, rfl, rfl, rfl⟩

theorem requestMove_sent
    (hLive : supervisor.disposed = false)
    (hIdle : supervisor.active = none)
    (hQueue : supervisor.pendingMutations = [])
    (hTaken : supervisor.takeRead.1 = some record) :
    RequestMove options message supervisor
      ((supervisor.takeRead.2.nextId.occupyLane
          (supervisor.numberRequest options record)).delivered
        record.promise
        (.request
          (supervisor.wireRequest options record.input))) := by
  obtain ⟨hLog, hReads, hCells, hIds, _⟩ :=
    supervisor.takeRead.2.nextId.occupyLane_fields
      (supervisor.numberRequest options record)
  obtain ⟨hRecord, hRest⟩ := takeRead_mem hTaken
  have hLanes :=
    @laneRecords_occupyLane supervisor.takeRead.2.nextId
      hIdle (supervisor.numberRequest options record)
  refine .requestSent hLive hIdle hQueue ⟨?_, hRecord, ?_, ?_, ?_⟩
  · exact
      congrArg
        (fun log =>
          log
            ++ [Observation.sent record.promise
              (.request
                (supervisor.wireRequest options record.input))])
        hLog
  · intro other hMem
    apply hRest
    have hSame :
        other
          ∈ (supervisor.takeRead.2.nextId.occupyLane
            (supervisor.numberRequest options
              record)).pendingRequests.records := hMem
    rw [hReads] at hSame
    exact hSame
  · intro other hMem hNone
    rcases hLanes other hMem with hOld | hNew
    · left
      refine ⟨hOld, ?_⟩
      have hCell :
          (supervisor.takeRead.2.nextId.occupyLane
            (supervisor.numberRequest options record)).cells
              other.promise = none := hNone
      rw [hCells] at hCell
      exact hCell
    · exact Or.inr hNew
  · exact hIds

theorem requestMove
    (hMove : Move options message first second)
    (hStop : first.StopInv) :
    RequestMove options message first second := by
  cases hMove with
  | @pushed _ _ snapshot =>
    exact
      requestMove_accepted (first.nextPromise, snapshot)
        rfl rfl rfl rfl rfl (Or.inl rfl)
  | @joined _ _ record snapshot _ _ hExisting =>
    exact
      requestMove_accepted (record.promise, snapshot)
        rfl rfl rfl rfl rfl
        (Or.inr
          (List.mem_map_of_mem (findCoalescing_mem hExisting)))
  | @mutationSent _ _ record records _ hIdle hQueue =>
    refine .mutationSent rfl ?_ ⟨fun _ hMem => hMem, ?_, ?_⟩
    · rw [hQueue]
      exact List.mem_cons_self
    · intro other hMem hNone
      refine ⟨?_, hNone⟩
      apply List.mem_append_right
      exact hMem
    · exact Nat.le_refl _
  | @mutationLost _ _ record records wire sends hLive =>
    apply RequestMove.plain
    apply Told.plainMove
    refine Told.of_log (told_fail ?_ false) rfl ?_
    · exact (hStop.live hLive).1
    · exact Nat.le_refl _
  | passedOver hNone =>
    exact
      .plain
        (plainMove_fields (List.append_nil _).symm (List.forall_mem_nil _)
          (takeRead_none hNone) rfl rfl rfl rfl)
  | @staleRejected _ _ record _ hTaken =>
    apply RequestMove.plain
    refine
      plainMove_of_same rfl
        (List.forall_mem_singleton.mpr ⟨rfl, rfl, rfl⟩)
        (takeRead_mem hTaken).2 (fun _ hMem => hMem) ?_
        (Nat.le_refl _)
    intro promise hNone
    exact (@cancelCells_none first.takeRead.2 _ _ _ hNone).2
  | requestSent hLive hIdle hQueue hTaken =>
    exact requestMove_sent hLive hIdle hQueue hTaken
  | @requestLost _ _ record sends hLive =>
    obtain ⟨hLog, _, _, hIds, hFailure⟩ :=
      first.takeRead.2.nextId.occupyLane_fields
        (first.numberRequest options record)
    apply RequestMove.plain
    apply Told.plainMove
    refine Told.of_log (told_fail ?_ false) hLog ?_
    · exact hFailure.trans (hStop.live hLive).1
    · exact
        Nat.le_of_lt
          (Nat.lt_of_lt_of_eq (Nat.lt_succ_self _) hIds.symm)
  | @acknowledged _ _ record wire =>
    apply RequestMove.plain
    refine
      plainMove_of_same rfl
        (List.forall_mem_singleton.mpr ⟨rfl, rfl, rfl⟩)
        (fun _ hMem => hMem) ?_ (fun _ hNone => hNone)
        (Nat.le_refl _)
    intro other hMem
    exact List.mem_append_right _ hMem
  | @answered _ _ record wire response detached _ hRecord
      hWire hMessage hMatches =>
      have hLanes := first.laneRecords_clearLane detached
      refine
        .answered ?_ (mem_laneRecords hRecord) hWire hMessage
          hMatches ⟨?_, ?_, ?_⟩
      · cases detached <;> rfl
      · cases detached <;> exact fun _ hMem => hMem
      · intro other hMem hNone
        refine ⟨hLanes other hMem, ?_⟩
        cases detached <;> exact hNone
      · cases detached <;> exact Nat.le_refl _
  | failed hFailure =>
    exact .plain (told_fail hFailure _).plainMove
  | activeSettled =>
    apply RequestMove.plain
    rw [settleActiveFailure_eq]
    refine
      plainMove_of_same rfl
        (forall_activeFailure plain_rejected _ _)
        (fun _ hMem => hMem) ?_ (fun _ hNone => hNone)
        (Nat.le_refl _)
    intro other hMem
    exact List.mem_append_right _ hMem
  | restarted =>
    have hRejected :
        PlainMove first
          (first.rejectedPromise .restartRequired) :=
      plainMove_fields rfl
        (List.forall_mem_singleton.mpr ⟨rfl, rfl, rfl⟩) rfl rfl rfl rfl
        rfl
    apply RequestMove.plain
    apply (hRejected.trans (told_shutDown _ _).plainMove).trans
    exact
      plainMove_fields (List.append_nil _).symm (List.forall_mem_nil _)
        rfl rfl rfl rfl rfl
  | refused =>
    exact
      .plain
        (plainMove_fields rfl
          (List.forall_mem_singleton.mpr ⟨rfl, rfl, rfl⟩) rfl rfl rfl rfl
          rfl)
  | @enqueued _ _ reads input _ hAdd =>
    refine
      @RequestMove.enqueued options message first _
        (first.newRequest input) rfl rfl ?_ rfl rfl
        (Nat.le_refl _)
    intro other hMem
    have hReads : other ∈ reads.records := hMem
    rw [PendingReads.add_records hAdd] at hReads
    rcases List.mem_append.mp hReads with hOld | hNew
    · exact Or.inl hOld
    · exact Or.inr (List.mem_singleton.mp hNew)
  | cellCancelled =>
    apply RequestMove.plain
    refine
      plainMove_of_same (List.append_nil _).symm (List.forall_mem_nil _)
        (fun _ hMem => hMem) (fun _ hMem => hMem) ?_
        (Nat.le_refl _)
    intro promise hNone
    exact (cancelCells_none hNone).2
  | @readCancelled _ _ record reads code hRemove =>
    apply RequestMove.plain
    refine
      plainMove_of_same rfl
        (List.forall_mem_singleton.mpr ⟨rfl, rfl, rfl⟩) ?_
        (fun _ hMem => hMem) (fun _ hNone => hNone)
        (Nat.le_refl _)
    intro other hMem
    exact
      (PendingReads.remove_perm hRemove).mem_iff.mp
        (List.mem_cons_of_mem _ hMem)
  | disposeCalled => exact .plain (plainMove_dispose first)
  | terminated =>
    exact
      .plain
        (plainMove_fields (List.append_nil _).symm (List.forall_mem_nil _)
          rfl rfl rfl rfl rfl)
  | deadlineElapsed =>
    exact
      .plain
        (plainMove_fields (List.append_nil _).symm (List.forall_mem_nil _)
          rfl rfl rfl rfl rfl)
  | failureContinued =>
    apply RequestMove.plain
    refine PlainMove.trans ?_ (plainMove_settleLanes _ _)
    exact
      plainMove_fields (List.append_nil _).symm (List.forall_mem_nil _)
        rfl rfl rfl rfl rfl
  | lanesAwaited =>
    exact
      .plain
        (plainMove_fields (List.append_nil _).symm (List.forall_mem_nil _)
          rfl rfl rfl rfl rfl)
  | deadlineSettled =>
    apply RequestMove.plain
    refine PlainMove.trans ?_ (plainMove_settleLanes _ _)
    exact
      plainMove_fields (List.append_nil _).symm (List.forall_mem_nil _)
        rfl rfl rfl rfl rfl

----------
-- Outstanding Calls
----------

/- Until a stop a call is queued, active or acknowledged. -/
def OutstandingInv
    (supervisor : Supervisor) :
    Prop :=
  supervisor.disposed = false →
  ∀ call ∈ acceptedCalls supervisor.log,
    call.1 ∈ supervisor.pendingMutationPromises
      ∨ (∃ record,
        supervisor.active = some (.mutation record)
          ∧ record.promise = call.1)
      ∨ call.1 ∈ acknowledgedPromises supervisor.log

theorem OutstandingInv.quietMove
    (hInv : first.OutstandingInv)
    (hQuiet : QuietMove first second) :
    second.OutstandingInv := by
  intro hLive call hCall
  obtain ⟨hCalls, _, hDone⟩ := hQuiet.lists
  obtain ⟨hBefore, _, hFlight⟩ := hQuiet.live hLive
  have hQueue :
      second.pendingMutations = first.pendingMutations := by
    rcases hQuiet.pending with hSame | ⟨_, hStop, _⟩
    · exact hSame
    · rw [hLive] at hStop
      cases hStop
  rw [hCalls] at hCall
  rw [hDone]
  rcases hInv hBefore call hCall with hQueued | hRest
  · left
    simp only [pendingMutationPromises, hQueue]
    exact hQueued
  · right
    rcases hRest with hActive | hKnown
    · left
      obtain ⟨record, hRecord, hPromise⟩ := hActive
      have hOne : second.mutationsInFlight = 1 := by
        rw [hFlight]
        simp only [mutationsInFlight, hRecord]
      unfold mutationsInFlight at hOne
      split at hOne
      · rename_i other hOther
        have hSame :=
          (hQuiet.active (Or.inr hLive)).2 other hOther
        rw [hRecord] at hSame
        cases hSame
        exact ⟨record, hOther, hPromise⟩
      · cases hOne
    · exact Or.inr hKnown

theorem OutstandingInv.accepted
    (hInv : first.OutstandingInv)
    (call : AcceptedCall)
    (hLog :
      second.log
        = first.log ++ [.accepted call.1 call.2])
    (hDisposed : second.disposed = first.disposed)
    (hActive : second.active = first.active)
    (hCall : call.1 ∈ second.pendingMutationPromises)
    (hQueue :
      ∀ promise ∈ first.pendingMutationPromises,
        promise ∈ second.pendingMutationPromises) :
    second.OutstandingInv := by
  intro hLive other hOther
  rw [hDisposed] at hLive
  have hDone :
      acknowledgedPromises second.log
        = acknowledgedPromises first.log := by
    rw [hLog]
    exact
      (acknowledgedPromises_append _ _).trans (List.append_nil _)
  rw [hLog, acceptedCalls_append] at hOther
  rw [hActive, hDone]
  rcases List.mem_append.mp hOther with hOld | hNew
  · rcases hInv hLive other hOld with hQueued | hRest
    · exact Or.inl (hQueue _ hQueued)
    · exact Or.inr hRest
  · left
    rw [List.mem_singleton.mp hNew]
    exact hCall

theorem outstandingInv_move
    (hMove : MutationMove options first second)
    (hInv : first.OutstandingInv) :
    second.OutstandingInv := by
  have hGeneration :=
    hInv.quietMove first.quietMove_nextGeneration
  cases hMove with
  | @pushed snapshot =>
    refine
      hGeneration.accepted (first.nextPromise, snapshot)
        rfl rfl rfl ?_ ?_
    · simp [pushMutation, observe, pendingMutationPromises,
        nextGeneration, invalidateRequests, drainRequests,
        cancelCells]
    · intro promise hMem
      have hPromises :
          (first.nextGeneration.pushMutation
              snapshot).pendingMutationPromises
            = first.nextGeneration.pendingMutationPromises
              ++ [first.nextPromise] :=
        List.map_append
      rw [hPromises]
      exact List.mem_append_left _ hMem
  | @joined record snapshot _ hExisting =>
    have hPromises :=
      joinMutation_promises first.nextGeneration record
        snapshot (joinMutations record.input snapshot)
    refine
      hGeneration.accepted (record.promise, snapshot)
        rfl rfl rfl ?_ ?_
    · rw [hPromises]
      exact List.mem_map_of_mem (findCoalescing_mem hExisting)
    · rw [hPromises]
      exact fun _ hMem => hMem
  | @sent record records _ hIdle hQueue =>
    intro hLive call hCall
    have hOld :
        call ∈ acceptedCalls first.log := by
      simp only [delivered, activateMutation,
        shiftMutation, observe] at hCall
      rw [acceptedCalls_append] at hCall
      rcases List.mem_append.mp hCall with hOld | hNew
      · exact hOld
      · cases hNew
    rcases hInv hLive call hOld with hQueued | hRest
    · simp only [pendingMutationPromises, hQueue,
        List.map_cons, List.mem_cons] at hQueued
      rcases hQueued with hHead | hTail
      · exact Or.inr (Or.inl ⟨_, rfl, hHead.symm⟩)
      · exact Or.inl hTail
    · rcases hRest with hActive | hKnown
      · obtain ⟨other, hOther, _⟩ := hActive
        rw [hIdle] at hOther
        cases hOther
      · right
        right
        simp only [delivered, activateMutation,
          shiftMutation, observe]
        rw [acknowledgedPromises_append]
        exact List.mem_append_left _ hKnown
  | @acknowledged record wire _ hActive =>
    intro hLive call hCall
    have hOld :
        call ∈ acceptedCalls first.log := by
      simp only [settle, observe] at hCall
      rw [acceptedCalls_append] at hCall
      rcases List.mem_append.mp hCall with hOld | hNew
      · exact hOld
      · cases hNew
    rcases hInv hLive call hOld with hQueued | hRest
    · exact Or.inl hQueued
    · right
      right
      simp only [settle, observe]
      rw [acknowledgedPromises_append]
      rcases hRest with hSame | hKnown
      · obtain ⟨other, hOther, hPromise⟩ := hSame
        rw [hActive] at hOther
        cases hOther
        apply List.mem_append_right
        rw [← hPromise]
        exact List.mem_singleton_self _
      · exact List.mem_append_left _ hKnown
  | quiet hQuiet => exact hInv.quietMove hQuiet

/- All that the moves keep of the mutations. -/
structure MutationInv
    (supervisor : Supervisor) : Prop where
  placed : supervisor.Placed
  stop : supervisor.StopInv
  order : supervisor.OrderInv
  table : supervisor.TableInv
  carried : supervisor.CarriedInv
  outstanding : supervisor.OutstandingInv

theorem mutationInv_move
    (hMove : Move options message first second)
    (hInv : first.MutationInv) :
    second.MutationInv := by
  have hMutation := mutationMove hMove hInv.stop
  exact
    { placed := placed_move hMove hInv.placed
      stop := stopInv_move hMove hInv.stop
      order := orderInv_move hMutation hInv.placed hInv.order
      table :=
        tableInv_move hMutation hInv.placed hInv.order hInv.table
      carried := carriedInv_move hMutation hInv.carried
      outstanding :=
        outstandingInv_move hMutation hInv.outstanding }

theorem mutationInv_initial : ({} : Supervisor).MutationInv :=
  { placed := placed_initial
    stop := stopInv_initial
    order := orderInv_initial
    table := Or.inr rfl
    carried :=
      ⟨fun _ hMem => (List.not_mem_nil hMem).elim,
        fun _ _ hActive => by cases hActive⟩
    outstanding :=
      fun _ _ hCall => (List.not_mem_nil hCall).elim }

/- An idle supervisor has had all its calls applied. -/
theorem MutationInv.applied
    (hInv : supervisor.MutationInv)
    (hLive : supervisor.disposed = false)
    (hIdle : supervisor.active = none)
    (hQueue : supervisor.pendingMutations = []) :
    Applied supervisor.log := by
  have hDone :
      ∀ call ∈ acceptedCalls supervisor.log,
        call.1 ∈ acknowledgedPromises supervisor.log := by
    intro call hCall
    rcases hInv.outstanding hLive call hCall with
      hQueued | hActive | hKnown
    · simp only [pendingMutationPromises, hQueue,
        List.map_nil] at hQueued
      cases hQueued
    · obtain ⟨record, hRecord, _⟩ := hActive
      rw [hIdle] at hRecord
      cases hRecord
    · exact hKnown
  constructor
  · intro call hCall
    exact hInv.carried.acknowledged _ (hDone call hCall)
  · exact hInv.order.sentStands
  · exact
      ((List.pairwise_append.mp hInv.order.sorted).1).imp
        (fun hLt => Nat.ne_of_lt hLt)
  · exact
      table_of_acknowledged hInv.placed hInv.order hInv.table
        hDone

----------
-- Fresh Requests
----------

/-
  Requests that wait have been asked since the last call,
  requests in the lanes have been posted since then, unless
  their cell says otherwise, and identifiers grow.
-/
structure FreshInv
    (supervisor : Supervisor) : Prop where
  pending :
    ∀ record ∈ supervisor.pendingRequests.records,
      Asked supervisor.log record.promise record.input
  lanes :
    ∀ record ∈ supervisor.laneRecords,
      supervisor.cells record.promise = none →
      ∃ wire,
        record.wire = some wire
          ∧ Posted supervisor.log record.promise wire
  ids :
    (sentRequests supervisor.log).Pairwise
      fun earlier later => earlier.id < later.id
  below :
    ∀ request ∈ sentRequests supervisor.log,
      request.id < supervisor.nextRequestId

/- A move that keeps the requests and what they rest on. -/
theorem FreshInv.keeps
    (hInv : first.FreshInv)
    (hKeeps : Keeps first second)
    (hLog : second.log = first.log ++ more)
    (hCalls : acceptedCalls more = [])
    (hSent :
      sentMutations more = []
        ∨ ∀ record ∈ first.laneRecords,
          first.cells record.promise ≠ none)
    (hRequests : sentRequests more = []) :
    second.FreshInv := by
  constructor
  · intro record hMem
    rw [hLog]
    exact
      (hInv.pending record
        (hKeeps.pending record hMem)).append hCalls
  · intro record hMem hNone
    obtain ⟨hLane, hCell⟩ := hKeeps.lanes record hMem hNone
    obtain ⟨wire, hWire, hPosted⟩ := hInv.lanes record hLane hCell
    refine ⟨wire, hWire, ?_⟩
    rw [hLog]
    rcases hSent with hQuiet | hTold
    · exact hPosted.append hCalls hQuiet
    · exact absurd hCell (hTold record hLane)
  · rw [hLog, sentRequests_append, hRequests, List.append_nil]
    exact hInv.ids
  · rw [hLog, sentRequests_append, hRequests, List.append_nil]
    intro request hMem
    exact Nat.lt_of_lt_of_le (hInv.below request hMem) hKeeps.ids

theorem plain_lists
    (hMore : ∀ observation ∈ more, Plain observation) :
    acceptedCalls more = []
      ∧ sentMutations more = []
      ∧ sentRequests more = [] := by
  refine ⟨?_, ?_, ?_⟩ <;>
  · apply List.filterMap_eq_nil_iff.mpr
    intro observation hMem
    obtain ⟨hIssued, hCommand, _⟩ := hMore observation hMem
    cases observation with
    | accepted => cases hIssued
    | requested => cases hIssued
    | settled => rfl
    | sent => cases hCommand
    | stopped => rfl

/- While a mutation is queued no free request is posted. -/
theorem FreshInv.told_of_queue
    (hInv : supervisor.FreshInv)
    (hOrder : supervisor.OrderInv)
    {record : MutationRecord}
    (hHead : record ∈ supervisor.pendingMutations) :
    ∀ request ∈ supervisor.laneRecords,
      supervisor.cells request.promise ≠ none := by
  intro request hMem hNone
  obtain ⟨wire, _, hPosted⟩ := hInv.lanes request hMem hNone
  obtain ⟨call, hCall, hPromise⟩ := hOrder.exists_call hHead
  have hSent := hPosted.calls hCall
  rw [hPromise] at hSent
  have hLt :=
    (List.pairwise_append.mp hOrder.sorted).2.2
      record.promise hSent record.promise
      (List.mem_map_of_mem hHead)
  exact Nat.lt_irrefl _ hLt

/- The request that is sent has been posted. -/
theorem FreshInv.requestSent
    (hInv : first.FreshInv)
    (hApplied : Applied first.log)
    (hSent : RequestSent options record first second) :
    second.FreshInv := by
  have hRequests :
      sentRequests second.log
        = sentRequests first.log
          ++ [first.wireRequest options record.input] := by
    rw [hSent.log]
    exact sentRequests_append _ _
  constructor
  · intro other hMem
    rw [hSent.log]
    exact
      (hInv.pending other (hSent.pending other hMem)).append rfl
  · intro other hMem hNone
    rw [hSent.log]
    rcases hSent.lanes other hMem hNone with hOld | hNew
    · obtain ⟨wire, hWire, hPosted⟩ :=
        hInv.lanes other hOld.1 hOld.2
      exact ⟨wire, hWire, hPosted.append rfl rfl⟩
    · rw [hNew]
      refine ⟨_, rfl, first.log, [], rfl, ?_, hApplied, rfl, rfl⟩
      exact hInv.pending record hSent.queued
  · rw [hRequests, List.pairwise_append]
    refine ⟨hInv.ids, List.pairwise_singleton _ _, ?_⟩
    intro request hMem later hLater
    rw [List.mem_singleton] at hLater
    rw [hLater]
    exact hInv.below request hMem
  · rw [hRequests, hSent.ids]
    intro request hMem
    rcases List.mem_append.mp hMem with hOld | hNew
    · exact Nat.lt_succ_of_lt (hInv.below request hOld)
    · rw [List.mem_singleton] at hNew
      rw [hNew]
      exact Nat.lt_succ_self _

theorem freshInv_move
    (hMove : RequestMove options message first second)
    (hMutations : first.MutationInv)
    (hInv : first.FreshInv) :
    second.FreshInv := by
  cases hMove with
  | @accepted _ _ _ more call hLog hMore hPending hLanes hIds =>
    obtain ⟨_, _, hRequests⟩ := plain_lists hMore
    have hSame :
        sentRequests second.log = sentRequests first.log := by
      rw [hLog, sentRequests_append, sentRequests_append,
        hRequests]
      exact List.append_nil _
    constructor
    · rw [hPending]
      intro record hMem
      cases hMem
    · intro record hMem hNone
      exact absurd hNone (hLanes record hMem)
    · rw [hSame]
      exact hInv.ids
    · rw [hSame]
      intro request hMem
      exact Nat.lt_of_lt_of_le (hInv.below request hMem) hIds
  | mutationSent hLog hHead hKeeps =>
    have hTold := hInv.told_of_queue hMutations.order hHead
    exact hInv.keeps hKeeps hLog rfl (Or.inr hTold) rfl
  | requestSent hLive hIdle hQueue hSent =>
    have hApplied := hMutations.applied hLive hIdle hQueue
    exact hInv.requestSent hApplied hSent
  | @enqueued _ _ _ record hLog hPromise hPending hLanes hCells
      hIds =>
      constructor
      · intro other hMem
        rw [hLog]
        rcases hPending other hMem with hOld | hNew
        · obtain ⟨before, after, hAsked, hCalls⟩ :=
            hInv.pending other hOld
          exact Asked.append ⟨before, after, hAsked, hCalls⟩ rfl
        · rw [hNew]
          exact ⟨first.log, [], rfl, rfl⟩
      · intro other hMem hNone
        rw [hLanes] at hMem
        rw [hCells] at hNone
        obtain ⟨wire, hWire, hPosted⟩ :=
          hInv.lanes other hMem hNone
        refine ⟨wire, hWire, ?_⟩
        rw [hLog]
        exact hPosted.append rfl rfl
      · rw [hLog, sentRequests_append]
        exact (List.append_nil _).symm ▸ hInv.ids
      · rw [hLog, sentRequests_append]
        intro request hMem
        rcases List.mem_append.mp hMem with hOld | hNew
        · exact
            Nat.lt_of_lt_of_le (hInv.below request hOld) hIds
        · cases hNew
  | answered hLog _ _ _ _ hKeeps =>
    exact hInv.keeps hKeeps hLog rfl (Or.inl rfl) rfl
  | plain hPlain =>
    obtain ⟨more, hLog, hMore⟩ := hPlain.log
    obtain ⟨hCalls, hSent, hRequests⟩ := plain_lists hMore
    exact
      hInv.keeps hPlain.keeps hLog hCalls (Or.inl hSent) hRequests

theorem freshInv_initial : ({} : Supervisor).FreshInv := by
  constructor
  · intro record hMem
    cases hMem
  · intro record hMem
    cases hMem
  · exact List.Pairwise.nil
  · intro request hMem
    cases hMem

----------
-- Calls and Requests
----------

/- No promise is both a call's and a request's. -/
def ApartInv
    (supervisor : Supervisor) :
    Prop :=
  ∀ call ∈ acceptedCalls supervisor.log,
  ∀ input,
    .requested call.1 input ∉ supervisor.log

theorem requested_issued
    {log : List Observation}
    {promise : Nat}
    (hMem : .requested promise input ∈ log) :
    promise ∈ issuedPromises log :=
  List.mem_filterMap.mpr ⟨_, hMem, rfl⟩

/- A move that issues no promise keeps them apart. -/
theorem ApartInv.append
    (hInv : first.ApartInv)
    (hLog : second.log = first.log ++ more)
    (hMore :
      ∀ observation ∈ more, observation.issued? = none) :
    second.ApartInv := by
  have hCalls :
      acceptedCalls second.log = acceptedCalls first.log := by
    have hNone : acceptedCalls more = [] := by
      apply List.filterMap_eq_nil_iff.mpr
      intro observation hMem
      have hIssued := hMore observation hMem
      cases observation with
      | accepted => cases hIssued
      | requested => rfl
      | settled => rfl
      | sent => rfl
      | stopped => rfl
    rw [hLog, acceptedCalls_append, hNone, List.append_nil]
  intro call hCall input hMem
  rw [hCalls] at hCall
  rw [hLog] at hMem
  rcases List.mem_append.mp hMem with hOld | hNew
  · exact hInv call hCall input hOld
  · have hIssued := hMore _ hNew
    cases hIssued

theorem issued_singleton
    {observation : Observation}
    (hNone : observation.issued? = none) :
    ∀ other ∈ [observation], other.issued? = none := by
  intro other hMem
  rw [List.mem_singleton] at hMem
  rw [hMem]
  exact hNone

theorem apartInv_move
    (hMove : RequestMove options message first second)
    (hMutations : first.MutationInv)
    (hInv : first.ApartInv) :
    second.ApartInv := by
  cases hMove with
  | @accepted _ _ _ more call hLog hMore _ _ _ hPromise =>
    have hRequested :
        ∀ promise input,
          .requested promise input ∈ second.log →
          .requested promise input ∈ first.log := by
      intro promise input hMem
      rw [hLog] at hMem
      rcases List.mem_append.mp hMem with hOld | hNew
      · exact hOld
      · rcases List.mem_append.mp hNew with hPlain | hCall
        · have hIssued := (hMore _ hPlain).issued
          cases hIssued
        · rw [List.mem_singleton] at hCall
          cases hCall
    have hCalls :
        acceptedCalls second.log
          = acceptedCalls first.log ++ [call] := by
      obtain ⟨hNone, _, _⟩ := plain_lists hMore
      rw [hLog, acceptedCalls_append, acceptedCalls_append, hNone]
      rfl
    intro other hOther input hMem
    rw [hCalls] at hOther
    have hBefore := hRequested _ _ hMem
    rcases List.mem_append.mp hOther with hOld | hNew
    · exact hInv other hOld input hBefore
    · rw [List.mem_singleton] at hNew
      rw [hNew] at hBefore
      rcases hPromise with hNext | hQueued
      · have hLt :=
          hMutations.placed.issued _ (requested_issued hBefore)
        rw [hNext] at hLt
        exact Nat.lt_irrefl _ hLt
      · obtain ⟨record, hRecord, hEq⟩ :=
          List.mem_map.mp hQueued
        obtain ⟨old, hOld, hSame⟩ :=
          hMutations.order.exists_call hRecord
        rw [← hEq, ← hSame] at hBefore
        exact hInv old hOld input hBefore
  | mutationSent hLog =>
    exact hInv.append hLog (issued_singleton rfl)
  | requestSent _ _ _ hSent =>
    exact hInv.append hSent.log (issued_singleton rfl)
  | @enqueued _ _ _ record hLog hPromise =>
    have hCalls :
        acceptedCalls second.log = acceptedCalls first.log := by
      rw [hLog]
      exact (acceptedCalls_append _ _).trans (List.append_nil _)
    intro call hCall input hMem
    rw [hCalls] at hCall
    rw [hLog] at hMem
    rcases List.mem_append.mp hMem with hOld | hNew
    · exact hInv call hCall input hOld
    · rw [List.mem_singleton] at hNew
      obtain ⟨hSame, _⟩ := Observation.requested.inj hNew
      have hLt := OrderInv.call_lt hMutations.placed hCall
      rw [hSame, hPromise] at hLt
      exact Nat.lt_irrefl _ hLt
  | answered hLog =>
    exact hInv.append hLog (issued_singleton rfl)
  | plain hPlain =>
    obtain ⟨more, hLog, hMore⟩ := hPlain.log
    exact
      hInv.append hLog
        (fun observation hMem =>
          (hMore observation hMem).issued)

/- A request is not acknowledged. -/
theorem ApartInv.settlement
    (hInv : supervisor.ApartInv)
    (hOrder : supervisor.OrderInv)
    (hCarried : supervisor.CarriedInv)
    {promise : Nat}
    (hRequested : .requested promise input ∈ supervisor.log) :
    .settled promise .acknowledged ∉ supervisor.log := by
  intro hMem
  have hDone :
      promise ∈ acknowledgedPromises supervisor.log :=
    List.mem_filterMap.mpr ⟨_, hMem, rfl⟩
  obtain ⟨sent, hSent, hPromise⟩ :=
    List.mem_map.mp (hCarried.acknowledged _ hDone)
  obtain ⟨first, later, hCalls, _⟩ := hOrder.sentStands sent hSent
  have hFirst :
      first ∈ callsOf sent.1 (acceptedCalls supervisor.log) := by
    rw [hCalls]
    exact List.mem_cons_self
  obtain ⟨call, hCall, _⟩ := List.mem_map.mp hFirst
  obtain ⟨hAccepted, hEq⟩ := List.mem_filter.mp hCall
  apply hInv call hAccepted input
  rw [of_decide_eq_true hEq, hPromise]
  exact hRequested

end Supervisor

end Semantic

end ArktsServer
