import ArktsServer.Semantic.AnswerFreshness

/-
  The answers that a supervisor passes on from its worker:
  a request is fulfilled with what the engine computed in
  the state of exactly the calls before the request.

  Key definitions include:
    * `Semantic.Answered`
    * `Semantic.WorldInv`
    * `Semantic.FreshAnswers`

  Correctness is proven by:
    * `Semantic.worldInv_run`
    * `Semantic.freshAnswers_run`
-/

namespace ArktsServer

namespace Semantic

open Transition

----------
-- Commands
----------

def SemanticWorkerCommand.mutation? :
    SemanticWorkerCommand → Option SemanticWorkerMutation
| .mutation given => some given
| .request _ => none

def SemanticWorkerCommand.request? :
    SemanticWorkerCommand → Option SemanticWorkerRequest
| .mutation _ => none
| .request given => some given

def mutationsOf
    (commands : List SemanticWorkerCommand) :
    List SemanticWorkerMutation :=
  commands.filterMap SemanticWorkerCommand.mutation?

def requestsOf
    (commands : List SemanticWorkerCommand) :
    List SemanticWorkerRequest :=
  commands.filterMap SemanticWorkerCommand.request?

/- What the mutations among commands add up to. -/
def historyOf
    (commands : List SemanticWorkerCommand) :
    WorkerHistory :=
  (mutationsOf commands).map SemanticWorkerMutation.input

/- The histories that come about behind a request. -/
def laterHistories
    (history : WorkerHistory) :
    List SemanticWorkerCommand → List WorkerHistory
| [] => []
| .request _ :: commands => laterHistories history commands
| .mutation mutation :: commands =>
    (history ++ [mutation.input])
      :: laterHistories (history ++ [mutation.input]) commands

theorem historyOf_append
    (commands more : List SemanticWorkerCommand) :
    historyOf (commands ++ more)
      = historyOf commands ++ historyOf more := by
  unfold historyOf mutationsOf
  rw [List.filterMap_append, List.map_append]

theorem laterHistories_append
    (history : WorkerHistory)
    (commands more : List SemanticWorkerCommand) :
    laterHistories history (commands ++ more)
      = laterHistories history commands
        ++ laterHistories (history ++ historyOf commands)
          more := by
  induction commands generalizing history with
  | nil =>
    have hNone : historyOf [] = [] := rfl
    rw [hNone, List.append_nil]
    rfl
  | cons command commands ih =>
    cases command with
    | request request => exact ih history
    | mutation mutation =>
      have hHistory :
          historyOf (.mutation mutation :: commands)
            = mutation.input :: historyOf commands := rfl
      have hRest := ih (history ++ [mutation.input])
      rw [List.append_assoc, List.singleton_append] at hRest
      rw [hHistory, List.cons_append, laterHistories,
        laterHistories, hRest, List.cons_append]

variable {commands : List SemanticWorkerCommand}

theorem laterHistories_none
    (hNone : mutationsOf commands = [])
    (history : WorkerHistory) :
    laterHistories history commands = [] := by
  induction commands with
  | nil => rfl
  | cons command commands ih =>
    cases command with
    | request request => exact ih hNone
    | mutation mutation => cases hNone

theorem sentCommands_append
    (log more : List Observation) :
    sentCommands (log ++ more)
      = sentCommands log ++ sentCommands more :=
  List.filterMap_append

/- The mutations and requests among the sent commands. -/
theorem mutationsOf_sentCommands
    (log : List Observation) :
    mutationsOf (sentCommands log)
      = (sentMutations log).map Prod.snd := by
  unfold mutationsOf sentCommands sentMutations
  rw [List.filterMap_filterMap, List.map_filterMap]
  apply List.filterMap_congr
  intro observation _
  cases observation with
  | sent promise command => cases command <;> rfl
  | accepted => rfl
  | requested => rfl
  | settled => rfl
  | stopped => rfl

theorem requestsOf_sentCommands
    (log : List Observation) :
    requestsOf (sentCommands log) = sentRequests log := by
  unfold requestsOf sentCommands sentRequests
  rw [List.filterMap_filterMap]
  apply List.filterMap_congr
  intro observation _
  cases observation with
  | sent promise command => cases command <;> rfl
  | accepted => rfl
  | requested => rfl
  | settled => rfl
  | stopped => rfl

theorem historyOf_sentCommands
    (log : List Observation) :
    historyOf (sentCommands log) = sentInputs log := by
  unfold historyOf sentInputs
  rw [mutationsOf_sentCommands, List.map_map]
  rfl

/- Identifiers tell the requests of a run apart. -/
theorem request_unique
    {before after others rest : List SemanticWorkerCommand}
    {request other : SemanticWorkerRequest}
    (hIds :
      (requestsOf (before ++ .request request :: after)).Pairwise
        fun earlier later => earlier.id < later.id)
    (hSame :
      before ++ .request request :: after
        = others ++ .request other :: rest)
    (hId : request.id = other.id) :
    before = others ∧ request = other ∧ after = rest := by
  induction before generalizing others with
  | nil =>
    cases others with
    | nil =>
      cases hSame
      exact ⟨rfl, rfl, rfl⟩
    | cons command others =>
      exfalso
      obtain ⟨hHead, hTail⟩ := List.cons.inj hSame
      have hLt := (List.pairwise_cons.mp hIds).1 other (by
        rw [hTail]
        exact
          List.mem_filterMap.mpr ⟨.request other, by simp, rfl⟩)
      rw [hId] at hLt
      exact Nat.lt_irrefl _ hLt
  | cons command before ih =>
    cases others with
    | nil =>
      exfalso
      obtain ⟨hHead, hTail⟩ := List.cons.inj hSame
      rw [hHead] at hIds
      have hLt :=
        (List.pairwise_cons.mp hIds).1 request
          (List.mem_filterMap.mpr
            ⟨.request request, by simp, rfl⟩)
      rw [hId] at hLt
      exact Nat.lt_irrefl _ hLt
    | cons first others =>
      obtain ⟨hHead, hTail⟩ := List.cons.inj hSame
      have hRest :
          (requestsOf
            (before ++ .request request :: after)).Pairwise
            fun earlier later => earlier.id < later.id :=
        hIds.sublist ((List.sublist_cons_self _ _).filterMap _)
      obtain ⟨hBefore, hRequest, hAfter⟩ := ih hRest hTail
      rw [hHead, hBefore]
      exact ⟨rfl, hRequest, hAfter⟩

----------
-- Answers
----------

/-
  The value of a request that was sent in a moment of the
  log and is answered at its end: nothing has been accepted
  since the request was asked, and the engine has only seen
  the mutations of the calls before.
-/
def Answered
    (engine : Engine)
    (log : List Observation)
    (promise : Nat)
    (value : JsonText) :
    Prop :=
  ∃ asked request after,
    log = asked ++ .sent promise (.request request) :: after
      ∧ Asked asked promise request.input
      ∧ Applied asked
      ∧ acceptedCalls after = []
      ∧ value = engine request [sentInputs asked]

/- The engine has computed a value among the commands. -/
def Computed
    (engine : Engine)
    (commands : List SemanticWorkerCommand)
    (id : Nat)
    (value : JsonText) :
    Prop :=
  ∃ before request after rest,
    commands = before ++ .request request :: (after ++ rest)
      ∧ request.id = id
      ∧ value
        = engine request
          (historyOf before
            :: laterHistories (historyOf before) after)

variable {engine : Engine}
variable {value : JsonText}

theorem Computed.append
    {id : Nat}
    (hComputed : Computed engine commands id value)
    (more : List SemanticWorkerCommand) :
    Computed engine (commands ++ more) id value := by
  obtain ⟨before, request, after, rest, hCommands, hRest⟩ :=
    hComputed
  refine ⟨before, request, after, rest ++ more, ?_, hRest⟩
  rw [hCommands]
  simp only [List.append_assoc, List.cons_append]

/- What was computed for a posted request answers it. -/
theorem Posted.answered
    {log : List Observation}
    {promise : Nat}
    {wire : SemanticWorkerRequest}
    (hPosted : Posted log promise wire)
    (hIds :
      (sentRequests log).Pairwise
        fun earlier later => earlier.id < later.id)
    (hComputed :
      Computed engine (sentCommands log) wire.id value) :
    Answered engine log promise value := by
  obtain ⟨asked, after, hLog, hAsked, hApplied, hCalls, hSent⟩ :=
    hPosted
  obtain ⟨before, request, seen, rest, hCommands, hId, hValue⟩ :=
    hComputed
  have hWire :
      sentCommands log
        = sentCommands asked
          ++ .request wire :: sentCommands after := by
    rw [hLog, sentCommands_append]
    rfl
  rw [← requestsOf_sentCommands, hWire] at hIds
  rw [hWire] at hCommands
  obtain ⟨hBefore, hRequest, hAfter⟩ :=
    request_unique hIds hCommands hId.symm
  have hNone : mutationsOf seen = [] := by
    have hAll : mutationsOf (seen ++ rest) = [] := by
      rw [← hAfter, mutationsOf_sentCommands, hSent]
      rfl
    unfold mutationsOf at hAll ⊢
    rw [List.filterMap_append, List.append_eq_nil_iff] at hAll
    exact hAll.1
  refine ⟨asked, wire, after, hLog, hAsked, hApplied, hCalls, ?_⟩
  rw [hValue, laterHistories_none hNone, ← hBefore,
    historyOf_sentCommands, hRequest]

/- Each value in a log answers its request. -/
def Fulfilled
    (engine : Engine)
    (log : List Observation) :
    Prop :=
  ∀ index promise value,
    log[index]? = some (.settled promise (.fulfilled value)) →
    Answered engine (log.take index) promise value

theorem Fulfilled.append
    {log more : List Observation}
    (hLog : Fulfilled engine log)
    (hMore :
      ∀ observation ∈ more, observation.fulfilled? = none) :
    Fulfilled engine (log ++ more) := by
  intro index promise value hGet
  rcases Nat.lt_or_ge index log.length with hLt | hGe
  · rw [List.getElem?_append_left hLt] at hGet
    rw [List.take_append_of_le_length (Nat.le_of_lt hLt)]
    exact hLog index promise value hGet
  · rw [List.getElem?_append_right hGe] at hGet
    have hNone := hMore _ (List.mem_of_getElem? hGet)
    cases hNone

theorem Fulfilled.answered
    {log : List Observation}
    (hLog : Fulfilled engine log)
    {promise : Nat}
    {settlement : Settlement}
    (hAnswered :
      ∀ value,
        settlement = .fulfilled value →
        Answered engine log promise value) :
    Fulfilled engine
      (log ++ [.settled promise settlement]) := by
  intro index other value hGet
  rcases Nat.lt_or_ge index log.length with hLt | hGe
  · rw [List.getElem?_append_left hLt] at hGet
    rw [List.take_append_of_le_length (Nat.le_of_lt hLt)]
    exact hLog index other value hGet
  · rw [List.getElem?_append_right hGe] at hGet
    have hMem := List.mem_of_getElem? hGet
    rw [List.mem_singleton] at hMem
    have hZero : index - log.length = 0 := by
      have hBound := (List.getElem?_eq_some_iff.mp hGet).1
      rw [List.length_singleton] at hBound
      omega
    have hIndex : index = log.length := by omega
    obtain ⟨hPromise, hValue⟩ := Observation.settled.inj hMem
    rw [hIndex, List.take_left', hPromise]
    · exact hAnswered value hValue.symm
    · rfl

----------
-- Supervisor
----------

/- What the supervisor keeps, with its answers. -/
structure AnswerInv
    (engine : Engine)
    (supervisor : Supervisor) : Prop where
  mutations : supervisor.MutationInv
  fresh : supervisor.FreshInv
  apart : supervisor.ApartInv
  fulfilled : Fulfilled engine supervisor.log

variable {options : SupervisorOptions}
variable {engine : Engine}

variable {message : Option WorkerMessage}
variable {first second : Supervisor}

theorem extends_move
    (hMove :
      Supervisor.RequestMove options message first second) :
    ∃ more, second.log = first.log ++ more := by
  cases hMove with
  | accepted call hLog => exact ⟨_, hLog⟩
  | mutationSent hLog => exact ⟨_, hLog⟩
  | requestSent _ _ _ hSent => exact ⟨_, hSent.log⟩
  | enqueued hLog => exact ⟨_, hLog⟩
  | answered hLog => exact ⟨_, hLog⟩
  | plain hPlain =>
    obtain ⟨more, hLog, _⟩ := hPlain.log
    exact ⟨more, hLog⟩

/- A message brings what the worker has computed. -/
def Genuine
    (engine : Engine)
    (commands : List SemanticWorkerCommand)
    (message : Option WorkerMessage) :
    Prop :=
  ∀ response value,
    message = some (.response response) →
    response.result = .ok value →
    Computed engine commands response.id value

/- A fulfilled settlement passes the value on. -/
theorem responseSettlement_fulfilled
    {cell : SemanticWorkerCancellationCell}
    {response : SemanticWorkerResponse}
    (hSettlement :
      Supervisor.responseSettlement cell response
        = .fulfilled value) :
    cell = none ∧ response.result = .ok value := by
  unfold Supervisor.responseSettlement at hSettlement
  split at hSettlement
  · cases hSettlement
  · split at hSettlement
    · rename_i other hResult
      cases hSettlement
      exact ⟨rfl, hResult⟩
    · cases hSettlement

theorem fulfilled_move
    (hMove :
      Supervisor.RequestMove options message first second)
    (hGenuine :
      Genuine engine (sentCommands first.log) message)
    (hFresh : first.FreshInv)
    (hInv : Fulfilled engine first.log) :
    Fulfilled engine second.log := by
  have hOne :
      ∀ observation : Observation,
        observation.fulfilled? = none →
        ∀ other ∈ [observation], other.fulfilled? = none := by
    intro observation hNone other hMem
    rw [List.mem_singleton] at hMem
    rw [hMem]
    exact hNone
  cases hMove with
  | accepted call hLog hMore =>
    rw [hLog]
    apply hInv.append
    intro observation hMem
    rcases List.mem_append.mp hMem with hPlain | hCall
    · exact (hMore observation hPlain).fulfilled
    · exact hOne _ rfl observation hCall
  | mutationSent hLog =>
    rw [hLog]
    exact hInv.append (hOne _ rfl)
  | requestSent _ _ _ hSent =>
    rw [hSent.log]
    exact hInv.append (hOne _ rfl)
  | enqueued hLog =>
    rw [hLog]
    exact hInv.append (hOne _ rfl)
  | @answered message _ _ record wire response hLog hRecord hWire
      hMessage hMatches =>
      rw [hLog]
      apply hInv.answered
      intro value hSettlement
      obtain ⟨hCell, hResult⟩ :=
        responseSettlement_fulfilled hSettlement
      obtain ⟨posted, hPosted, hPost⟩ :=
        hFresh.lanes record hRecord hCell
      rw [hWire] at hPosted
      cases hPosted
      have hId : response.id = wire.id := by
        simp only [Supervisor.matchesRequest,
          Bool.and_eq_true, decide_eq_true_eq] at hMatches
        exact hMatches.1.1.2
      have hComputed :=
        hGenuine response value (congrArg some hMessage) hResult
      rw [hId] at hComputed
      exact hPost.answered hFresh.ids hComputed
  | plain hPlain =>
    obtain ⟨more, hLog, hMore⟩ := hPlain.log
    rw [hLog]
    apply hInv.append
    intro observation hMem
    exact (hMore observation hMem).fulfilled

/- A step of the supervisor with a genuine message. -/
theorem answerInv_moves
    (hMoves : Moves options message first second)
    (hGenuine :
      Genuine engine (sentCommands first.log) message)
    (hInv : AnswerInv engine first) :
    AnswerInv engine second
      ∧ ∃ more, second.log = first.log ++ more := by
  let Inv := fun supervisor : Supervisor =>
    AnswerInv engine supervisor
      ∧ ∃ more, supervisor.log = first.log ++ more
  have hStart : Inv first := ⟨hInv, [], (List.append_nil _).symm⟩
  refine
    @Moves.invariant options message first second Inv ?_
      hMoves hStart
  intro earlier later hMove hKept
  obtain ⟨hEarlier, more, hLog⟩ := hKept
  have hRequest :=
    Supervisor.requestMove hMove hEarlier.mutations.stop
  have hStill :
      Genuine engine (sentCommands earlier.log) message := by
    intro response value hMessage hResult
    rw [hLog, sentCommands_append]
    exact (hGenuine response value hMessage hResult).append _
  obtain ⟨next, hNext⟩ := extends_move hRequest
  refine ⟨?_, more ++ next, ?_⟩
  · exact
      { mutations :=
          Supervisor.mutationInv_move hMove hEarlier.mutations
        fresh :=
          Supervisor.freshInv_move hRequest hEarlier.mutations
            hEarlier.fresh
        apart :=
          Supervisor.apartInv_move hRequest hEarlier.mutations
            hEarlier.apart
        fulfilled :=
          fulfilled_move hRequest hStill hEarlier.fresh
            hEarlier.fulfilled }
  · rw [hNext, hLog, List.append_assoc]

----------
-- Worker
----------

/- A request has run since its place among the commands. -/
def Ran
    (commands : List SemanticWorkerCommand)
    (evaluation : Evaluation) :
    Prop :=
  ∃ before after,
    commands = before ++ .request evaluation.request :: after
      ∧ evaluation.seen
        = historyOf before
          :: laterHistories (historyOf before) after

/- The worker behind the commands that it has taken. -/
structure RuntimeInv
    (commands : List SemanticWorkerCommand)
    (runtime : WorkerRuntime) : Prop where
  running : runtime.failed = false
  applied : runtime.applied = historyOf commands
  revision :
    runtime.appliedRevision = (historyOf commands).length
  current :
    ∀ evaluation,
      runtime.current = some evaluation →
      Ran commands evaluation
  references :
    ∀ evaluation ∈ runtime.references,
      Ran commands evaluation

variable {evaluation : Evaluation}

/- A further request leaves what has run as it is. -/
theorem Ran.request
    (hRan : Ran commands evaluation)
    (request : SemanticWorkerRequest) :
    Ran (commands ++ [.request request]) evaluation := by
  obtain ⟨before, after, hCommands, hSeen⟩ := hRan
  refine ⟨before, after ++ [.request request], ?_, ?_⟩
  · rw [hCommands, List.append_assoc, List.cons_append]
  · rw [laterHistories_append, hSeen]
    exact congrArg _ (List.append_nil _).symm

/- A mutation is seen by what is running. -/
theorem Ran.mutation
    (hRan : Ran commands evaluation)
    (mutation : SemanticWorkerMutation) :
    Ran (commands ++ [.mutation mutation])
      (WorkerRuntime.Evaluation.see
        (historyOf commands ++ [mutation.input])
        evaluation) := by
  obtain ⟨before, after, hCommands, hSeen⟩ := hRan
  refine ⟨before, after ++ [.mutation mutation], ?_, ?_⟩
  · rw [hCommands, List.append_assoc, List.cons_append]
    rfl
  · have hHistory :
        historyOf commands
          = historyOf before ++ historyOf after := by
      have hRequest :
          historyOf (.request evaluation.request :: after)
            = historyOf after := rfl
      rw [hCommands, historyOf_append, hRequest]
    rw [laterHistories_append, ← hHistory]
    simp only [WorkerRuntime.Evaluation.see, hSeen,
      List.cons_append]
    rfl

variable {runtime : WorkerRuntime}

/- A mutation under the next revision is applied. -/
theorem RuntimeInv.applyMutation
    (hInv : RuntimeInv commands runtime)
    (hIdle : runtime.current = none)
    {mutation : SemanticWorkerMutation}
    (hRevision :
      mutation.revision = (historyOf commands).length + 1) :
    RuntimeInv (commands ++ [.mutation mutation])
      (runtime.applyMutation mutation).1 := by
  have hNext :
      mutation.revision = runtime.appliedRevision + 1 := by
    rw [hInv.revision, hRevision]
  have hHistory :
      historyOf (commands ++ [.mutation mutation])
        = historyOf commands ++ [mutation.input] :=
    historyOf_append _ _
  unfold WorkerRuntime.applyMutation
  rw [if_neg (not_not_intro hNext)]
  constructor
  · exact hInv.running
  · rw [hHistory, ← hInv.applied]
  · rw [hHistory, List.length_append, List.length_singleton]
    exact hRevision
  · intro evaluation hCurrent
    have hSome : runtime.current = some evaluation := hCurrent
    rw [hIdle] at hSome
    cases hSome
  · intro evaluation hMem
    obtain ⟨old, hOld, hEq⟩ := List.mem_map.mp hMem
    rw [← hEq, hInv.applied]
    exact (hInv.references old hOld).mutation mutation

/- A request starts in the history of the commands. -/
theorem RuntimeInv.startRequest
    (hInv : RuntimeInv commands runtime)
    (rootUri : Uri)
    (request : SemanticWorkerRequest) :
    RuntimeInv (commands ++ [.request request])
      (runtime.startRequest rootUri request).1 := by
  have hHistory :
      historyOf (commands ++ [.request request])
        = historyOf commands := by
    rw [historyOf_append]
    exact List.append_nil _
  have hNew :
      Ran (commands ++ [.request request])
        { request := request
          seen := [runtime.applied] } := by
    refine ⟨commands, [], rfl, ?_⟩
    rw [hInv.applied]
    rfl
  have hSame :
      RuntimeInv (commands ++ [.request request]) runtime := by
    constructor
    · exact hInv.running
    · rw [hHistory]
      exact hInv.applied
    · rw [hHistory]
      exact hInv.revision
    · intro evaluation hCurrent
      exact (hInv.current evaluation hCurrent).request request
    · intro evaluation hMem
      exact (hInv.references evaluation hMem).request request
  unfold WorkerRuntime.startRequest
  split
  · exact hSame
  · split
    · exact hSame
    · dsimp only
      split
      · refine
          ⟨hSame.running, hSame.applied, hSame.revision,
            hSame.current, ?_⟩
        intro evaluation hMem
        rcases List.mem_append.mp hMem with hOld | hLast
        · exact hSame.references evaluation hOld
        · rw [List.mem_singleton.mp hLast]
          exact hNew
      · refine
          ⟨hSame.running, hSame.applied, hSame.revision, ?_,
            hSame.references⟩
        intro evaluation hCurrent
        cases hCurrent
        exact hNew

/- The replies bring no value that was not computed. -/
def RepliesInv
    (engine : Engine)
    (commands : List SemanticWorkerCommand)
    (replies : List WorkerMessage) :
    Prop :=
  ∀ message ∈ replies, Genuine engine commands (some message)

theorem Genuine.append
    (hGenuine : Genuine engine commands message)
    (more : List SemanticWorkerCommand) :
    Genuine engine (commands ++ more) message := by
  intro response value hMessage hResult
  exact (hGenuine response value hMessage hResult).append more

/- The worker's own messages carry no value. -/
theorem dispatch_replies
    (commands : List SemanticWorkerCommand)
    (runtime : WorkerRuntime)
    (rootUri : Uri)
    (command : SemanticWorkerCommand) :
    RepliesInv engine commands
      (runtime.dispatch rootUri command).2 := by
  have hError :
      ∀ request code,
        RepliesInv engine commands
          [WorkerRuntime.postError request code] := by
    intro request code message hMem response value hMessage
      hResult
    rw [List.mem_singleton] at hMem
    rw [hMem] at hMessage
    cases hMessage
    cases hResult
  have hNone : RepliesInv engine commands [] := by
    intro message hMem
    cases hMem
  cases command with
  | mutation mutation =>
    simp only [WorkerRuntime.dispatch,
      WorkerRuntime.applyMutation]
    split
    · exact hNone
    · intro message hMem response value hMessage
      rw [List.mem_singleton] at hMem
      rw [hMem] at hMessage
      cases hMessage
  | request request =>
    simp only [WorkerRuntime.dispatch, WorkerRuntime.startRequest]
    split
    · exact hError _ _
    · split
      · exact hError _ _
      · split <;> exact hNone

/- The end of a request brings what the engine computed. -/
theorem terminal_genuine
    {commands : List SemanticWorkerCommand}
    (hRan : Ran commands evaluation)
    (error : Option SemanticWorkerErrorCode) :
    Genuine engine commands
      (some (WorkerRuntime.terminal engine evaluation error)) := by
  intro response value hMessage hResult
  obtain ⟨before, after, hCommands, hSeen⟩ := hRan
  cases error with
  | some code =>
    cases hMessage
    cases hResult
  | none =>
    cases hMessage
    cases hResult
    refine ⟨before, evaluation.request, after, [], ?_, rfl, ?_⟩
    · rw [List.append_nil]
      exact hCommands
    · rw [hSeen]

----------
-- Runs
----------

/- The worker has taken the first of the sent commands. -/
structure WorldInv
    (engine : Engine)
    (world : SemanticWorld) : Prop where
  supervisor : AnswerInv engine world.supervisor
  received :
    world.received
      ≤ (sentCommands world.supervisor.log).length
  runtime :
    RuntimeInv
      ((sentCommands world.supervisor.log).take world.received)
      world.runtime
  replies :
    RepliesInv engine (sentCommands world.supervisor.log)
      world.replies

variable {world : SemanticWorld}
variable {supervisor : Supervisor}

/- A step of the supervisor leaves the worker as it is. -/
theorem WorldInv.supervisorStep
    (hInv : WorldInv engine world)
    {replies : List WorkerMessage}
    (hReplies :
      ∀ message ∈ replies, message ∈ world.replies)
    (hStep :
      AnswerInv engine supervisor
        ∧ ∃ more,
          supervisor.log = world.supervisor.log ++ more) :
    WorldInv engine
      { world with
        supervisor := supervisor
        replies := replies } := by
  obtain ⟨hSupervisor, more, hLog⟩ := hStep
  have hCommands :
      sentCommands supervisor.log
        = sentCommands world.supervisor.log
          ++ sentCommands more := by
    rw [hLog, sentCommands_append]
  constructor
  · exact hSupervisor
  · rw [hCommands, List.length_append]
    exact Nat.le_add_right_of_le hInv.received
  · rw [hCommands,
      List.take_append_of_le_length hInv.received]
    exact hInv.runtime
  · rw [hCommands]
    intro message hMem
    exact (hInv.replies message (hReplies message hMem)).append _

/- The next command comes under the next revision. -/
theorem next_revision
    (hOrder : supervisor.OrderInv)
    {taken rest : List SemanticWorkerCommand}
    {mutation : SemanticWorkerMutation}
    (hCommands :
      sentCommands supervisor.log
        = taken ++ .mutation mutation :: rest) :
    mutation.revision = (historyOf taken).length + 1 := by
  have hRevisions :
      (mutationsOf (sentCommands supervisor.log)).map
          SemanticWorkerMutation.revision
        = List.range' 1
          (sentMutations supervisor.log).length := by
    rw [mutationsOf_sentCommands, List.map_map]
    exact hOrder.revisions
  have hSplit :
      mutationsOf (taken ++ .mutation mutation :: rest)
        = mutationsOf taken ++ mutation :: mutationsOf rest :=
    List.filterMap_append
  rw [hCommands, hSplit, List.map_append, List.map_cons]
    at hRevisions
  have hAt :
      (List.range' 1 (sentMutations supervisor.log).length)[
          (mutationsOf taken).length]?
        = some mutation.revision := by
    rw [← hRevisions, List.getElem?_append_right]
    · simp
    · simp
  rw [List.getElem?_range'] at hAt
  · unfold historyOf
    rw [List.length_map]
    have hEq := Option.some.inj hAt
    omega
  · have hBound := (List.getElem?_eq_some_iff.mp hAt).1
    rw [List.length_range'] at hBound
    exact hBound

theorem WorldInv.dispatch
    (hInv : WorldInv engine world) :
    WorldInv engine (world.dispatch options) := by
  unfold SemanticWorld.dispatch
  split
  · exact hInv
  · rename_i hFree
    have hIdle : world.runtime.current = none := by
      rw [not_or] at hFree
      simpa using hFree.2
    split
    · exact hInv
    · rename_i command hCommand
      obtain ⟨hLt, hGet⟩ := List.getElem?_eq_some_iff.mp hCommand
      have hTake :
          (sentCommands world.supervisor.log).take
              (world.received + 1)
            = (sentCommands world.supervisor.log).take
                world.received
              ++ [command] := by
        rw [List.take_add_one, hCommand]
        rfl
      have hSplit :
          sentCommands world.supervisor.log
            = (sentCommands world.supervisor.log).take
                world.received
              ++ command
                :: (sentCommands world.supervisor.log).drop
                  (world.received + 1) := by
        rw [← hGet, ← List.drop_eq_getElem_cons,
          List.take_append_drop]
      constructor
      · exact hInv.supervisor
      · exact hLt
      · rw [hTake]
        cases command with
        | mutation mutation =>
          exact
            hInv.runtime.applyMutation hIdle
              (next_revision
                hInv.supervisor.mutations.order hSplit)
        | request request =>
          exact hInv.runtime.startRequest options.rootUri request
      · intro message hMem
        rcases List.mem_append.mp hMem with hOld | hNew
        · exact hInv.replies message hOld
        · exact dispatch_replies _ _ _ _ message hNew

/- What the worker has taken is among what was sent. -/
theorem Ran.genuine
    (hRan :
      Ran
        ((sentCommands world.supervisor.log).take
          world.received)
        evaluation)
    (error : Option SemanticWorkerErrorCode) :
    Genuine engine (sentCommands world.supervisor.log)
      (some (WorkerRuntime.terminal engine evaluation error))
    := by
  have hGenuine := @terminal_genuine engine _ _ hRan error
  have hAll :=
    hGenuine.append
      ((sentCommands world.supervisor.log).drop world.received)
  rw [List.take_append_drop] at hAll
  exact hAll

theorem WorldInv.finishCurrent
    (hInv : WorldInv engine world)
    (error : Option SemanticWorkerErrorCode) :
    WorldInv engine (world.finishCurrent engine error) := by
  unfold SemanticWorld.finishCurrent
  split
  · exact hInv
  · rename_i evaluation hCurrent
    have hRan := hInv.runtime.current evaluation hCurrent
    refine
      ⟨hInv.supervisor, hInv.received,
        ⟨hInv.runtime.running, hInv.runtime.applied,
          hInv.runtime.revision, ?_, hInv.runtime.references⟩,
        ?_⟩
    · intro other hOther
      cases hOther
    · intro message hMem
      rcases List.mem_append.mp hMem with hOld | hNew
      · exact hInv.replies message hOld
      · rw [List.mem_singleton.mp hNew]
        exact hRan.genuine error

theorem WorldInv.finishReferences
    (hInv : WorldInv engine world)
    (index : Nat)
    (error : Option SemanticWorkerErrorCode) :
    WorldInv engine
      (world.finishReferences engine index error) := by
  unfold SemanticWorld.finishReferences
  split
  · exact hInv
  · rename_i evaluation hReferences
    have hRan :=
      hInv.runtime.references evaluation
        (List.mem_of_getElem? hReferences)
    refine
      ⟨hInv.supervisor, hInv.received,
        ⟨hInv.runtime.running, hInv.runtime.applied,
          hInv.runtime.revision, hInv.runtime.current, ?_⟩,
        ?_⟩
    · intro other hOther
      exact
        hInv.runtime.references other
          (List.mem_of_mem_eraseIdx hOther)
    · intro message hMem
      rcases List.mem_append.mp hMem with hOld | hNew
      · exact hInv.replies message hOld
      · rw [List.mem_singleton.mp hNew]
        exact hRan.genuine error

theorem WorldInv.deliver
    (hInv : WorldInv engine world) :
    WorldInv engine (world.deliver options) := by
  unfold SemanticWorld.deliver
  split
  · exact hInv
  · rename_i message messages hReplies
    have hGenuine :=
      hInv.replies message (by
        rw [hReplies]
        exact List.mem_cons_self)
    apply hInv.supervisorStep
    · intro other hMem
      rw [hReplies]
      exact List.mem_cons_of_mem _ hMem
    · exact
        answerInv_moves
          (supervisorStep_moves options world.supervisor
            (.message message))
          hGenuine hInv.supervisor

theorem worldInv_step
    (hInv : WorldInv engine world)
    (event : WorldEvent) :
    WorldInv engine (worldStep options engine world event) := by
  have hSilent :
      ∀ event : SupervisorEvent,
        event.message? = none →
        WorldInv engine
          { world with
            supervisor :=
              supervisorStep options world.supervisor event }
      := by
    intro event hMessage
    apply hInv.supervisorStep (fun _ hMem => hMem)
    apply
      answerInv_moves
        (supervisorStep_moves options world.supervisor event)
    · rw [hMessage]
      intro response value hSome
      cases hSome
    · exact hInv.supervisor
  cases event with
  | supervisor event =>
    cases event with
    | message message => exact hInv
    | mutate input => exact hSilent _ rfl
    | request input => exact hSilent _ rfl
    | cancel promise reason => exact hSilent _ rfl
    | endpointError => exact hSilent _ rfl
    | endpointExit => exact hSilent _ rfl
    | dispose => exact hSilent _ rfl
    | terminated => exact hSilent _ rfl
    | deadlineElapsed => exact hSilent _ rfl
    | failureContinues => exact hSilent _ rfl
    | disposeContinues => exact hSilent _ rfl
  | dispatch => exact hInv.dispatch
  | finishCurrent error => exact hInv.finishCurrent error
  | finishReferences index error =>
    exact hInv.finishReferences index error
  | deliver => exact hInv.deliver

theorem worldInv_initial : WorldInv engine {} := by
  refine
    ⟨⟨Supervisor.mutationInv_initial,
        Supervisor.freshInv_initial, ?_, ?_⟩,
      Nat.le_refl _, ⟨rfl, rfl, rfl, ?_, ?_⟩, ?_⟩
  · intro call hMem
    cases hMem
  · intro index promise value hGet
    cases hGet
  · intro evaluation hCurrent
    cases hCurrent
  · intro evaluation hMem
    cases hMem
  · intro message hMem
    cases hMem

theorem worldInv_run
    (options : SupervisorOptions)
    (engine : Engine)
    (events : List WorldEvent) :
    WorldInv engine (worldRun options engine events) := by
  apply run_invariant
  · intro world event hInv
    exact worldInv_step hInv event
  · exact worldInv_initial

/-
  A request is settled once: with the value of the engine in
  the state of the calls before it, when no call has been
  accepted since, or with an error.
-/
structure FreshAnswers
    (engine : Engine)
    (log : List Observation) : Prop where
  fulfilled : Fulfilled engine log
  otherwise :
    ∀ promise input settlement,
      .requested promise input ∈ log →
      .settled promise settlement ∈ log →
      (∃ value, settlement = .fulfilled value)
        ∨ ∃ code, settlement = .rejected code
  once : (settledPromises log).Nodup

/-
  In every run of a supervisor with its worker the answers
  are fresh, those of the references lane too.
-/
theorem freshAnswers_run
    (options : SupervisorOptions)
    (engine : Engine)
    (events : List WorldEvent) :
    FreshAnswers engine
      (worldRun options engine events).supervisor.log := by
  have hInv := (worldInv_run options engine events).supervisor
  constructor
  · exact hInv.fulfilled
  · intro promise input settlement hRequested hSettled
    cases settlement with
    | acknowledged =>
        exact
          absurd hSettled
            (hInv.apart.settlement hInv.mutations.order
              hInv.mutations.carried hRequested)
    | fulfilled value => exact Or.inl ⟨value, rfl⟩
    | rejected code => exact Or.inr ⟨code, rfl⟩
  · exact hInv.mutations.placed.nodup_settled

end Semantic

end ArktsServer
