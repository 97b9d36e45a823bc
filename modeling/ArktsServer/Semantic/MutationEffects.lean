import ArktsServer.Semantic.MutationMoves

/-
  The meaning of coalesced mutations: the wire mutations
  build the document table of the accepted calls, and each
  invalidation on the wire says what its calls said.

  Key definitions include:
    * `Semantic.Supervisor.TableInv`
    * `Semantic.Reports`
    * `Semantic.Coalesced`

  Correctness is proven by:
    * `Semantic.Supervisor.tableInv_run`
    * `Semantic.reports_iff`
    * `Semantic.coalesced_iff`
-/

namespace ArktsServer

namespace Semantic

open Transition

----------
-- Document Tables
----------

def acceptedInputs
    (log : List Observation) :
    List RootSemanticWorkerMutationInput :=
  (acceptedCalls log).map Prod.snd

def sentInputs
    (log : List Observation) :
    List RootSemanticWorkerMutationInput :=
  (sentMutations log).map (fun sent => sent.2.input)

variable (table : DocumentTable)

theorem applyDocuments_append
    (inputs more : List RootSemanticWorkerMutationInput) :
    applyDocuments table (inputs ++ more)
      = applyDocuments (applyDocuments table inputs) more :=
  List.foldl_append

theorem applyDocuments_cons
    (input : RootSemanticWorkerMutationInput)
    (inputs : List RootSemanticWorkerMutationInput) :
    applyDocuments table (input :: inputs)
      = applyDocuments (applyDocument table input) inputs :=
  rfl

/- A document mutation writes the entry of its URI. -/
def documentEntry
    (mutation : DocumentMutation) :
    Option OpenDocument :=
  if mutation.kind = .closed then
    none
  else
    some ⟨mutation.documentVersion, mutation.text⟩

theorem applyDocument_eq
    (mutation : DocumentMutation) :
    applyDocument table (.document mutation)
      = Function.update table mutation.uri
        (documentEntry mutation) := by
  by_cases hClosed : mutation.kind = .closed <;>
    simp [applyDocument, documentEntry, hClosed]

/- Mutations of different documents commute. -/
theorem applyDocument_comm
    {first second : DocumentMutation}
    (hUri : first.uri ≠ second.uri) :
    applyDocument (applyDocument table (.document first))
        (.document second)
      = applyDocument
        (applyDocument table (.document second))
        (.document first) := by
  rw [applyDocument_eq, applyDocument_eq, applyDocument_eq,
    applyDocument_eq]
  exact Function.update_comm hUri _ _ table

variable {inputs : List RootSemanticWorkerMutationInput}

/- A mutation may be moved before those of other documents. -/
theorem applyDocuments_comm
    (mutation : DocumentMutation)
    (hOthers :
      ∀ input ∈ inputs,
        ∃ document,
          input = .document document
            ∧ document.uri ≠ mutation.uri)
    (table : DocumentTable) :
    applyDocument (applyDocuments table inputs)
        (.document mutation)
      = applyDocuments
        (applyDocument table (.document mutation))
        inputs := by
  induction inputs generalizing table with
  | nil => rfl
  | cons input inputs ih =>
    obtain ⟨document, hInput, hUri⟩ :=
      hOthers input List.mem_cons_self
    rw [applyDocuments_cons, applyDocuments_cons, ih]
    · rw [hInput, applyDocument_comm table hUri]
    · intro other hMem
      exact hOthers other (List.mem_cons_of_mem _ hMem)

/- The joined mutation does what the two did. -/
theorem applyDocument_join
    {previous next : DocumentMutation}
    (hUri : previous.uri = next.uri)
    (hOpen : next.kind ≠ .closed) :
    applyDocument table
        (.document (joinDocumentMutations previous next))
      = applyDocument
        (applyDocument table (.document previous))
        (.document next) := by
  have hJoined :
      (joinDocumentMutations previous next).uri = next.uri
        ∧ documentEntry (joinDocumentMutations previous next)
          = documentEntry next := by
    unfold joinDocumentMutations
    split
    · exact ⟨rfl, rfl⟩
    · refine ⟨rfl, ?_⟩
      simp [documentEntry, hOpen]
  rw [applyDocument_eq, applyDocument_eq, applyDocument_eq,
    hJoined.1, hJoined.2, hUri, Function.update_idem]

/- The queue behind a join has the effect of the call. -/
theorem applyDocuments_takeUp
    {pending : List MutationRecord}
    {record : MutationRecord}
    {input : RootSemanticWorkerMutationInput}
    (hKeys :
      ∀ other ∈ pending,
        other.documentKey = other.input.documentKey)
    (hNodup : (pending.map MutationRecord.promise).Nodup)
    (hFind :
      findCoalescingMutation pending input = some record)
    (table : DocumentTable) :
    applyDocuments table
        ((pending.map
            (Supervisor.takeUp record.promise
              (joinMutations record.input input))).map
          MutationRecord.input)
      = applyDocument
        (applyDocuments table
          (pending.map MutationRecord.input))
        input := by
  have hSplit :
      ∃ earlier later,
        pending = earlier ++ record :: later
          ∧ ∀ start : DocumentTable,
            applyDocuments
                (applyDocument start
                  (joinMutations record.input input))
                (later.map MutationRecord.input)
              = applyDocument
                (applyDocuments
                  (applyDocument start record.input)
                  (later.map MutationRecord.input))
                input := by
    cases input with
    | workspaceFilesChanged files =>
      obtain ⟨⟨earlier, hPending⟩, previous, hInput⟩ :=
        findWorkspace_join hFind
      refine ⟨earlier, [], hPending, ?_⟩
      intro start
      rw [hInput]
      rfl
    | document mutation =>
      have hJoin := findDocument_join hFind
      obtain ⟨earlier, later, hPending, hLater⟩ := hJoin.split
      obtain ⟨previous, hInput, _, hOpen⟩ := hJoin.lives
      have hUri : previous.uri = mutation.uri := by
        have hKey := hKeys record (by
          rw [hPending]
          exact List.mem_append_right _ List.mem_cons_self)
        rw [hJoin.key, hInput] at hKey
        exact (Option.some.inj hKey).symm
      refine ⟨earlier, later, hPending, ?_⟩
      intro start
      rw [applyDocuments_comm mutation, hInput,
        ← applyDocument_join start hUri hOpen]
      · rfl
      · intro other hMem
        obtain ⟨queued, hQueued, hEq⟩ := List.mem_map.mp hMem
        obtain ⟨document, hDocument, hOther⟩ :=
          hLater queued hQueued
        refine ⟨document, by rw [← hEq, hDocument], ?_⟩
        intro hSame
        apply hOther
        rw [hKeys queued (by
          rw [hPending]
          exact List.mem_append_right _
            (List.mem_cons_of_mem _ hQueued)),
          hDocument, ← hSame]
        rfl
  obtain ⟨earlier, later, hPending, hJoined⟩ := hSplit
  subst hPending
  rw [List.map_append, List.nodup_append] at hNodup
  have hTail := List.nodup_cons.mp hNodup.2.1
  have hEarlier :
      earlier.map
          (Supervisor.takeUp record.promise
            (joinMutations record.input input))
        = earlier := by
    apply Supervisor.map_takeUp_of_not_mem
    intro hMem
    exact hNodup.2.2 _ hMem _ List.mem_cons_self rfl
  have hLater :
      later.map
          (Supervisor.takeUp record.promise
            (joinMutations record.input input))
        = later := by
    apply Supervisor.map_takeUp_of_not_mem
    exact hTail.1
  have hRecord :
      (Supervisor.takeUp record.promise
          (joinMutations record.input input) record).input
        = joinMutations record.input input := by
    unfold Supervisor.takeUp
    rw [if_pos rfl]
  rw [List.map_append, List.map_cons, hEarlier, hLater,
    List.map_append, List.map_cons, hRecord,
    applyDocuments_append, applyDocuments_cons, hJoined,
    List.map_append, List.map_cons, applyDocuments_append,
    applyDocuments_cons]

namespace Supervisor

variable {options : SupervisorOptions}
variable {supervisor first second : Supervisor}

/- The inputs on the wire, and those still in the queue. -/
def issuedInputs
    (supervisor : Supervisor) :
    List RootSemanticWorkerMutationInput :=
  sentInputs supervisor.log
    ++ supervisor.pendingMutations.map MutationRecord.input

/-
  Unless an accepted call is lost, what is issued builds the
  table of the calls.
-/
def TableInv
    (supervisor : Supervisor) :
    Prop :=
  (∃ call ∈ acceptedCalls supervisor.log,
      supervisor.Lost call.1)
    ∨ applyDocuments noDocuments supervisor.issuedInputs
      = applyDocuments noDocuments
        (acceptedInputs supervisor.log)

/- A queued record stands for a call with its promise. -/
theorem OrderInv.exists_call
    (hInv : supervisor.OrderInv)
    {record : MutationRecord}
    (hMem : record ∈ supervisor.pendingMutations) :
    ∃ call ∈ acceptedCalls supervisor.log,
      call.1 = record.promise := by
  obtain ⟨first, later, hCalls, _⟩ := hInv.stands record hMem
  have hFirst :
      first
        ∈ callsOf record.promise
          (acceptedCalls supervisor.log) := by
    rw [hCalls]
    exact List.mem_cons_self
  obtain ⟨call, hCall, _⟩ := List.mem_map.mp hFirst
  obtain ⟨hAccepted, hPromise⟩ := List.mem_filter.mp hCall
  exact ⟨call, hAccepted, of_decide_eq_true hPromise⟩

theorem TableInv.quietMove
    (hInv : first.TableInv)
    (hOrder : first.OrderInv)
    (hQuiet : QuietMove first second) :
    second.TableInv := by
  obtain ⟨hCalls, hSent, _⟩ := hQuiet.lists
  unfold TableInv issuedInputs acceptedInputs sentInputs
  rw [hCalls, hSent]
  rcases hInv with hLost | hTable
  · obtain ⟨call, hMem, hPromise⟩ := hLost
    left
    exact ⟨call, hMem, hQuiet.lost _ hPromise⟩
  · rcases hQuiet.pending with hSame | ⟨hEmpty, _, hDropped⟩
    · right
      rw [hSame]
      exact hTable
    · cases hQueue : first.pendingMutations with
      | nil =>
        right
        rw [hEmpty]
        simp only [issuedInputs, hQueue] at hTable
        exact hTable
      | cons record records =>
        left
        have hMem : record ∈ first.pendingMutations := by
          rw [hQueue]
          exact List.mem_cons_self
        obtain ⟨call, hCall, hPromise⟩ := hOrder.exists_call hMem
        refine ⟨call, hCall, ?_⟩
        rw [hPromise]
        exact hDropped record hMem

theorem quietMove_nextGeneration
    (supervisor : Supervisor) :
    QuietMove supervisor supervisor.nextGeneration :=
  quietMove_of_same rfl (forall_rejections quiet_rejected _ _) rfl
    (Nat.le_refl _) rfl rfl rfl (fun _ => Iff.rfl)

variable {promise : Nat}

/- Without an active mutation only a rejection is a loss. -/
theorem Lost.rejected
    (hLost : supervisor.Lost promise)
    (hNone :
      supervisor.failure = none ∨ supervisor.active = none) :
    ∃ code,
      .settled promise (.rejected code) ∈ supervisor.log := by
  rcases hLost with hRejected | ⟨hSome, record, hActive, _⟩
  · exact hRejected
  · rcases hNone with hFailure | hIdle
    · rw [hFailure] at hSome
      cases hSome
    · rw [hIdle] at hActive
      cases hActive

/- An accepted call that keeps the active command. -/
theorem Lost.of_accepted
    {call : AcceptedCall}
    (hLog :
      second.log
        = first.log ++ [.accepted call.1 call.2])
    (hFailure : second.failure = first.failure)
    (hActive : second.active = first.active)
    (hLost : first.Lost promise) :
    second.Lost promise := by
  refine hLost.of_log hLog ?_
  intro hSome record hRecord
  right
  rw [hFailure, hActive]
  exact ⟨hSome, record, hRecord, rfl⟩

/- The queue takes up a call as the table does. -/
theorem TableInv.accepted
    (hInv : first.TableInv)
    (call : AcceptedCall)
    (hLog :
      second.log
        = first.log ++ [.accepted call.1 call.2])
    (hFailure : second.failure = first.failure)
    (hActive : second.active = first.active)
    (hQueue :
      ∀ table,
        applyDocuments table
            (second.pendingMutations.map MutationRecord.input)
          = applyDocument
            (applyDocuments table
              (first.pendingMutations.map
                MutationRecord.input))
            call.2) :
    second.TableInv := by
  have hCalls :
      acceptedCalls second.log
        = acceptedCalls first.log ++ [call] := by
    rw [hLog]
    exact acceptedCalls_append _ _
  have hSent :
      sentMutations second.log = sentMutations first.log := by
    rw [hLog]
    exact (sentMutations_append _ _).trans (List.append_nil _)
  rcases hInv with hLost | hTable
  · left
    obtain ⟨lost, hMem, hPromise⟩ := hLost
    refine ⟨lost, ?_, hPromise.of_accepted hLog hFailure hActive⟩
    rw [hCalls]
    exact List.mem_append_left _ hMem
  · right
    simp only [issuedInputs, sentInputs, acceptedInputs]
      at hTable ⊢
    rw [hCalls, hSent, applyDocuments_append, hQueue,
      List.map_append, applyDocuments_append, ← hTable,
      applyDocuments_append]
    rfl

theorem tableInv_move
    (hMove : MutationMove options first second)
    (hPlaced : first.Placed)
    (hOrder : first.OrderInv)
    (hInv : first.TableInv) :
    second.TableInv := by
  have hGeneration :=
    hInv.quietMove hOrder first.quietMove_nextGeneration
  cases hMove with
  | @pushed snapshot =>
    refine
      hGeneration.accepted (first.nextPromise, snapshot)
        rfl rfl rfl ?_
    intro table
    have hQueue :
        (first.nextGeneration.pushMutation
            snapshot).pendingMutations.map MutationRecord.input
          = first.pendingMutations.map MutationRecord.input
            ++ [snapshot] :=
      List.map_append
    rw [hQueue, applyDocuments_append]
    rfl
  | @joined record snapshot _ hExisting =>
    refine
      hGeneration.accepted (record.promise, snapshot)
        rfl rfl rfl ?_
    exact
      applyDocuments_takeUp hOrder.keys
        hPlaced.nodup_pending hExisting
  | @sent record records _ hIdle hQueue =>
    have hCalls :
        acceptedCalls
            (first.log
              ++ [.sent record.promise
                (.mutation ⟨options.epoch,
                  first.appliedRevision + 1,
                  record.input⟩)])
          = acceptedCalls first.log :=
      (acceptedCalls_append _ _).trans (List.append_nil _)
    have hSent :
        sentMutations
            (first.log
              ++ [.sent record.promise
                (.mutation ⟨options.epoch,
                  first.appliedRevision + 1,
                  record.input⟩)])
          = sentMutations first.log
            ++ [(record.promise,
              ⟨options.epoch, first.appliedRevision + 1,
                record.input⟩)] :=
      sentMutations_append _ _
    rcases hInv with hLost | hTable
    · left
      obtain ⟨call, hMem, hPromise⟩ := hLost
      refine ⟨call, hCalls ▸ hMem, ?_⟩
      obtain ⟨code, hRejected⟩ := hPromise.rejected (Or.inr hIdle)
      exact Or.inl ⟨code, List.mem_append_left _ hRejected⟩
    · right
      simp only [issuedInputs, sentInputs, acceptedInputs,
        hQueue] at hTable
      simp only [issuedInputs, sentInputs, acceptedInputs,
        delivered, activateMutation, shiftMutation, observe]
      rw [hCalls, hSent, ← hTable]
      simp only [List.map_append, List.map_cons,
        List.map_nil, List.append_assoc, List.cons_append,
        List.nil_append]
  | @acknowledged record wire hFailure =>
    have hCalls :
        acceptedCalls
            (first.log ++ [.settled record.promise .acknowledged])
          = acceptedCalls first.log :=
      (acceptedCalls_append _ _).trans (List.append_nil _)
    have hSent :
        sentMutations
            (first.log ++ [.settled record.promise .acknowledged])
          = sentMutations first.log :=
      (sentMutations_append _ _).trans (List.append_nil _)
    rcases hInv with hLost | hTable
    · left
      obtain ⟨call, hMem, hPromise⟩ := hLost
      refine ⟨call, hCalls ▸ hMem, ?_⟩
      obtain ⟨code, hRejected⟩ :=
        hPromise.rejected (Or.inl hFailure)
      exact Or.inl ⟨code, List.mem_append_left _ hRejected⟩
    · right
      simp only [issuedInputs, sentInputs, acceptedInputs]
        at hTable
      simp only [issuedInputs, sentInputs, acceptedInputs,
        settle, observe]
      rw [hCalls, hSent]
      exact hTable
  | quiet hQuiet => exact hInv.quietMove hOrder hQuiet

theorem tableInv_run
    (options : SupervisorOptions)
    (events : List SupervisorEvent) :
    (supervisorRun options events).TableInv :=
  mutationRun_invariant
    (fun _ _ hMove hPlaced hOrder hInv =>
      tableInv_move hMove hPlaced hOrder hInv)
    (Or.inr rfl) events

----------
-- Carried Calls
----------

/- An acknowledged mutation has been on the wire. -/
structure CarriedInv
    (supervisor : Supervisor) : Prop where
  acknowledged :
    ∀ promise ∈ acknowledgedPromises supervisor.log,
      promise ∈ supervisor.sentMutationPromises
  active :
    supervisor.failure = none ∨ supervisor.disposed = false →
    ∀ record,
      supervisor.active = some (.mutation record) →
      record.promise ∈ supervisor.sentMutationPromises

/- A move that keeps the wire and the active command. -/
theorem CarriedInv.of_same
    (hInv : first.CarriedInv)
    (hDone :
      acknowledgedPromises second.log
        = acknowledgedPromises first.log)
    (hSent :
      sentMutations second.log = sentMutations first.log)
    (hActive :
      second.failure = none ∨ second.disposed = false →
      (first.failure = none ∨ first.disposed = false)
        ∧ ∀ record,
          second.active = some (.mutation record) →
          first.active = some (.mutation record)) :
    second.CarriedInv := by
  constructor
  · unfold sentMutationPromises
    rw [hDone, hSent]
    exact hInv.acknowledged
  · unfold sentMutationPromises
    rw [hSent]
    intro hGoing record hRecord
    obtain ⟨hBefore, hKept⟩ := hActive hGoing
    exact hInv.active hBefore record (hKept record hRecord)

theorem CarriedInv.quietMove
    (hInv : first.CarriedInv)
    (hQuiet : QuietMove first second) :
    second.CarriedInv := by
  obtain ⟨_, hSent, hDone⟩ := hQuiet.lists
  exact hInv.of_same hDone hSent hQuiet.active

theorem CarriedInv.accepted
    (hInv : first.CarriedInv)
    (call : AcceptedCall)
    (hLog :
      second.log
        = first.log ++ [.accepted call.1 call.2])
    (hFailure : second.failure = first.failure)
    (hDisposed : second.disposed = first.disposed)
    (hActive : second.active = first.active) :
    second.CarriedInv := by
  apply hInv.of_same
  · rw [hLog]
    exact
      (acknowledgedPromises_append _ _).trans (List.append_nil _)
  · rw [hLog]
    exact (sentMutations_append _ _).trans (List.append_nil _)
  · rw [hFailure, hDisposed, hActive]
    exact fun hGoing => ⟨hGoing, fun _ hRecord => hRecord⟩

theorem carriedInv_move
    (hMove : MutationMove options first second)
    (hInv : first.CarriedInv) :
    second.CarriedInv := by
  have hGeneration :=
    hInv.quietMove first.quietMove_nextGeneration
  cases hMove with
  | @pushed snapshot =>
    exact
      hGeneration.accepted (first.nextPromise, snapshot)
        rfl rfl rfl rfl
  | @joined record snapshot =>
    exact
      hGeneration.accepted (record.promise, snapshot)
        rfl rfl rfl rfl
  | @sent record records =>
    have hSent :
        (((first.shiftMutation record
            records).activateMutation record
              (some ⟨options.epoch,
                first.appliedRevision + 1,
                record.input⟩)).delivered record.promise
          (.mutation ⟨options.epoch,
            first.appliedRevision + 1,
            record.input⟩)).sentMutationPromises
          = first.sentMutationPromises
            ++ [record.promise] := by
      have hAppend :=
        sentMutations_append first.log
          [.sent record.promise
            (.mutation ⟨options.epoch,
              first.appliedRevision + 1, record.input⟩)]
      exact
        (congrArg (List.map Prod.fst) hAppend).trans
          List.map_append
    have hDone :
        acknowledgedPromises
            (first.log
              ++ [.sent record.promise
                (.mutation ⟨options.epoch,
                  first.appliedRevision + 1,
                  record.input⟩)])
          = acknowledgedPromises first.log :=
      (acknowledgedPromises_append _ _).trans (List.append_nil _)
    constructor
    · rw [hSent]
      intro promise hMem
      apply List.mem_append_left
      exact hInv.acknowledged promise (hDone ▸ hMem)
    · rw [hSent]
      intro _ other hOther
      apply List.mem_append_right
      cases hOther
      exact List.mem_singleton_self _
  | @acknowledged record wire hFailure hActive =>
    have hSent :
        sentMutations
            (first.log ++ [.settled record.promise .acknowledged])
          = sentMutations first.log :=
      (sentMutations_append _ _).trans (List.append_nil _)
    constructor
    · intro promise hMem
      simp only [sentMutationPromises, settle, observe, hSent]
      simp only [settle, observe,
        acknowledgedPromises_append] at hMem
      rcases List.mem_append.mp hMem with hOld | hNew
      · exact hInv.acknowledged promise hOld
      · rw [List.mem_singleton.mp hNew]
        exact hInv.active (Or.inl hFailure) record hActive
    · intro _ other hOther
      cases hOther
  | quiet hQuiet => exact hInv.quietMove hQuiet

theorem carriedInv_run
    (options : SupervisorOptions)
    (events : List SupervisorEvent) :
    (supervisorRun options events).CarriedInv := by
  apply mutationRun_invariant
  · intro _ _ hMove _ _ hInv
    exact carriedInv_move hMove hInv
  · constructor
    · intro promise hMem
      cases hMem
    · intro _ record hActive
      cases hActive

/- Settled promises are settled in one way. -/
theorem settled_unique
    {log : List Observation}
    (hNodup : (settledPromises log).Nodup)
    {settlement other : Settlement}
    (hMem : .settled promise settlement ∈ log)
    (hOther : .settled promise other ∈ log) :
    settlement = other := by
  induction log with
  | nil => cases hMem
  | cons observation log ih =>
    have hTail :
        (settledPromises log).Nodup :=
      hNodup.sublist
        ((List.sublist_cons_self observation log).filterMap _)
    have hHead :
        ∀ head later,
          observation = .settled promise head →
          .settled promise later ∉ log := by
      intro head later hEq hLater
      rw [hEq] at hNodup
      apply (List.nodup_cons.mp hNodup).1
      exact List.mem_filterMap.mpr ⟨_, hLater, rfl⟩
    rcases List.mem_cons.mp hMem with hHere | hThere
    · rcases List.mem_cons.mp hOther with hAlso | hBehind
      · rw [← hHere] at hAlso
        cases hAlso
        rfl
      · exact absurd hBehind (hHead _ _ hHere.symm)
    · rcases List.mem_cons.mp hOther with hAlso | hBehind
      · exact absurd hThere (hHead _ _ hAlso.symm)
      · exact ih hTail hThere hBehind

/- An acknowledged promise is not lost. -/
theorem not_lost_of_acknowledged
    (hPlaced : supervisor.Placed)
    (hMem : promise ∈ acknowledgedPromises supervisor.log) :
    ¬ supervisor.Lost promise := by
  intro hLost
  have hDone := mem_acknowledged hMem
  rcases hLost with hRejected | hHeld
  · obtain ⟨code, hCode⟩ := hRejected
    have hSame := settled_unique hPlaced.nodup_settled hDone hCode
    cases hSame
  · obtain ⟨_, record, hActive, hPromise⟩ := hHeld
    have hPlace := hPlaced.places promise
    have hSettled :
        0 < (settledPromises supervisor.log).count promise :=
      List.count_pos_iff.mpr (acknowledged_settled hMem)
    have hHolds :
        0 < supervisor.activePromise.count promise := by
      apply List.count_pos_iff.mpr
      rw [← hPromise]
      simp [activePromise, hActive, CommandRecord.promise]
    unfold Supervisor.places at hPlace
    split at hPlace <;> omega

/- An acknowledged promise has left the queue. -/
theorem not_pending_of_acknowledged
    (hPlaced : supervisor.Placed)
    (hMem : promise ∈ acknowledgedPromises supervisor.log) :
    promise ∉ supervisor.pendingMutationPromises := by
  intro hPending
  have hPlace := hPlaced.places promise
  have hSettled :
      0 < (settledPromises supervisor.log).count promise :=
    List.count_pos_iff.mpr (acknowledged_settled hMem)
  have hQueued :
      0 < supervisor.pendingMutationPromises.count promise :=
    List.count_pos_iff.mpr hPending
  unfold Supervisor.places at hPlace
  split at hPlace <;> omega

end Supervisor

----------
-- Joined Invalidations
----------

def RootSemanticWorkerMutationInput.files? :
    RootSemanticWorkerMutationInput →
      Option WorkspaceFilesChanged
| .workspaceFilesChanged files => some files
| .document _ => none

/- The flags of an invalidation say what its calls said. -/
structure JoinsFlags
    (files : WorkspaceFilesChanged)
    (calls : List WorkspaceFilesChanged) : Prop where
  rootDirty :
    files.rootDirty = true
      ↔ ∃ call ∈ calls, call.rootDirty = true
  configurationChanged :
    files.configurationChanged = some true
      ↔ ∃ call ∈ calls,
        call.configurationChanged = some true
  resourceDirty :
    files.resourceDirty = true
      ↔ ∃ call ∈ calls, call.resourceDirty = true
  resourceChanged :
    files.resourceChanged = true
      ↔ ∃ call ∈ calls, call.resourceChanged = true

/- What the calls said of one file, in order. -/
def fileEvents
    (uri : Uri)
    (calls : List WorkspaceFilesChanged) :
    List FileChangeKind :=
  eventsOf uri (calls.flatMap WorkspaceFilesChanged.changes)

/- Each file is reported with its net effect. -/
def Reports
    (files : WorkspaceFilesChanged)
    (calls : List WorkspaceFilesChanged) :
    Prop :=
  ∀ uri kind,
    ⟨uri, kind⟩ ∈ files.changes
      ↔ netEffect (fileEvents uri calls) = some kind

/- No call lists a URI twice. -/
def ListsOnce
    (calls : List WorkspaceFilesChanged) :
    Prop :=
  ∀ call ∈ calls, (changedUris call.changes).Nodup

theorem fileEvents_cons
    (uri : Uri)
    (call : WorkspaceFilesChanged)
    (calls : List WorkspaceFilesChanged) :
    fileEvents uri (call :: calls)
      = eventsOf uri call.changes ++ fileEvents uri calls := by
  unfold fileEvents
  rw [List.flatMap_cons, eventsOf_append]

theorem joinsFlags_one
    (call : WorkspaceFilesChanged) :
    JoinsFlags call [call] := by
  constructor <;> simp

/- Joining two calls disjoins their flags. -/
theorem JoinsFlags.join
    {first next files : WorkspaceFilesChanged}
    {later : List WorkspaceFilesChanged}
    (hFlags :
      JoinsFlags files
        (joinWorkspaceInvalidations first next :: later)) :
    JoinsFlags files (first :: next :: later) := by
  obtain ⟨hRoot, hConfiguration, hDirty, hChanged⟩ := hFlags
  have hJoined :
      (joinWorkspaceInvalidations first
          next).configurationChanged = some true
        ↔ first.configurationChanged = some true
          ∨ next.configurationChanged = some true := by
    unfold joinWorkspaceInvalidations
    dsimp only
    split
    · rename_i hEither
      exact ⟨fun _ => hEither, fun _ => rfl⟩
    · rename_i hNeither
      constructor
      · intro hNone
        cases hNone
      · intro hEither
        exact absurd hEither hNeither
  constructor
  · rw [hRoot]
    simp [joinWorkspaceInvalidations, or_assoc]
  · rw [hConfiguration]
    simp only [List.mem_cons, exists_eq_or_imp, hJoined, or_assoc]
  · rw [hDirty]
    simp [joinWorkspaceInvalidations, or_assoc]
  · rw [hChanged]
    simp [joinWorkspaceInvalidations, or_assoc]

/-
  The joined invalidation carries the flags of the calls,
  and each URI is listed with the merged effect.
-/
theorem joined_files
    (first : WorkspaceFilesChanged)
    (later : List WorkspaceFilesChanged) :
    JoinsFlags (later.foldl joinWorkspaceInvalidations first)
        (first :: later)
      ∧ ((changedUris first.changes).Nodup →
        (changedUris
            (later.foldl joinWorkspaceInvalidations
              first).changes).Nodup
          ∧ ∀ uri,
            getFileChange uri
                (later.foldl joinWorkspaceInvalidations
                  first).changes
              = mergedEffect none
                (fileEvents uri (first :: later))) := by
  induction later generalizing first with
  | nil =>
    refine ⟨joinsFlags_one first, ?_⟩
    intro hNodup
    refine ⟨hNodup, ?_⟩
    intro uri
    have hNone : fileEvents uri [] = [] := rfl
    rw [fileEvents_cons, hNone, List.append_nil,
      mergedEffect_eventsOf hNodup]
    rfl
  | cons next later ih =>
    obtain ⟨hFlags, hEffects⟩ :=
      ih (joinWorkspaceInvalidations first next)
    refine ⟨hFlags.join, ?_⟩
    intro hNodup
    have hMerge := getFileChange_merge hNodup next.changes
    have hKeys :
        (changedUris
          (joinWorkspaceInvalidations first
            next).changes).Nodup := (hMerge "").2
    obtain ⟨hNew, hGet⟩ := hEffects hKeys
    refine ⟨hNew, ?_⟩
    intro uri
    rw [List.foldl_cons, hGet, fileEvents_cons,
      mergedEffect_append, mergedEffect_eventsOf hKeys,
      fileEvents_cons, mergedEffect_append,
      mergedEffect_eventsOf hNodup, fileEvents_cons,
      mergedEffect_append]
    exact
      congrArg
        (fun effect =>
          mergedEffect effect (fileEvents uri later))
        (hMerge uri).1

/- A record of invalidations joins the files of its calls. -/
theorem StandsFor.files
    {files : WorkspaceFilesChanged}
    (hStands :
      StandsFor (.workspaceFilesChanged files) inputs) :
    ∃ first later,
      inputs.filterMap RootSemanticWorkerMutationInput.files?
          = first :: later
        ∧ files
          = later.foldl joinWorkspaceInvalidations first := by
  have hFold :
      ∀ (rest : List RootSemanticWorkerMutationInput)
        (start : WorkspaceFilesChanged),
        (∀ input ∈ rest, input.isWorkspace = true) →
        rest.foldl joinMutations
            (.workspaceFilesChanged start)
          = .workspaceFilesChanged
            ((rest.filterMap
              RootSemanticWorkerMutationInput.files?).foldl
                joinWorkspaceInvalidations start) := by
    intro rest
    induction rest with
    | nil =>
      intro start _
      rfl
    | cons input rest ih =>
      intro start hKinds
      have hTail :
          ∀ other ∈ rest, other.isWorkspace = true :=
        fun other hMem =>
          hKinds other (List.mem_cons_of_mem _ hMem)
      cases input with
      | document mutation =>
        have hKind := hKinds _ List.mem_cons_self
        cases hKind
      | workspaceFilesChanged next =>
        exact ih _ hTail
  have hKinds := hStands.isWorkspace
  obtain ⟨first, later, hInputs, hInput, _⟩ := hStands
  subst hInputs
  have hHead := hKinds first List.mem_cons_self
  cases first with
  | document mutation => cases hHead
  | workspaceFilesChanged start =>
    refine ⟨start, _, rfl, ?_⟩
    rw [hFold] at hInput
    · cases hInput
      rfl
    · intro input hMem
      exact hKinds input (List.mem_cons_of_mem _ hMem)

/-
  An invalidation reports the net effects exactly when no
  file has come back from a deletion after its creation.
-/
theorem reports_iff
    {files : WorkspaceFilesChanged}
    {calls : List WorkspaceFilesChanged}
    (hCalls :
      inputs.filterMap RootSemanticWorkerMutationInput.files?
        = calls)
    (hStands :
      StandsFor (.workspaceFilesChanged files) inputs)
    (hOnce : ListsOnce calls) :
    Reports files calls
      ↔ ∀ uri, ¬ Resurrected (fileEvents uri calls) := by
  obtain ⟨first, later, hSplit, hFiles⟩ := hStands.files
  rw [hCalls] at hSplit
  have hNodup :=
    hOnce first (by rw [hSplit]; exact List.mem_cons_self)
  obtain ⟨hKeys, hGet⟩ := (joined_files first later).2 hNodup
  rw [← hFiles, ← hSplit] at hGet
  rw [← hFiles] at hKeys
  have hSame :
      Reports files calls
        ↔ ∀ uri,
          mergedEffect none (fileEvents uri calls)
            = netEffect (fileEvents uri calls) := by
    constructor
    · intro hReports uri
      apply Option.ext
      intro kind
      rw [← hGet, ← hReports uri kind,
        mem_iff_getFileChange hKeys]
    · intro hEffects uri kind
      rw [mem_iff_getFileChange hKeys, hGet, hEffects]
  rw [hSame]
  apply forall_congr'
  intro uri
  exact mergedEffect_eq_netEffect_iff _

----------
-- Coalescing
----------

/- The invalidations that share a promise. -/
def workspaceCalls
    (promise : Nat)
    (log : List Observation) :
    List WorkspaceFilesChanged :=
  (callsOf promise (acceptedCalls log)).filterMap
    RootSemanticWorkerMutationInput.files?

/-
  What the wire keeps of the accepted calls: revisions
  without a gap, the document table, the order of calls of
  different kinds, and what the invalidations say.
-/
structure Coalesced
    (log : List Observation) : Prop where
  revisions :
    (sentMutations log).map (fun sent => sent.2.revision)
      = List.range' 1 (sentMutations log).length
  carried :
    ∀ call ∈ acceptedCalls log,
      call.1 ∈ acknowledgedPromises log →
      ∃ sent ∈ sentMutations log,
        sent.1 = call.1
          ∧ sent.2.input.isWorkspace = call.2.isWorkspace
  table :
    (∀ call ∈ acceptedCalls log,
      call.1 ∈ acknowledgedPromises log) →
    applyDocuments noDocuments (sentInputs log)
      = applyDocuments noDocuments (acceptedInputs log)
  order :
    (acceptedCalls log).Pairwise fun earlier later =>
      earlier.2.isWorkspace ≠ later.2.isWorkspace →
      ∀ first ∈ sentMutations log,
      ∀ second ∈ sentMutations log,
        first.1 = earlier.1 →
        second.1 = later.1 →
        first.2.revision < second.2.revision
  flags :
    ∀ sent ∈ sentMutations log,
    ∀ files,
      sent.2.input = .workspaceFilesChanged files →
      JoinsFlags files (workspaceCalls sent.1 log)
  effects :
    ∀ sent ∈ sentMutations log,
    ∀ files,
      sent.2.input = .workspaceFilesChanged files →
      ListsOnce (workspaceCalls sent.1 log) →
      Reports files (workspaceCalls sent.1 log)

/-
  The calls that share an invalidation on the wire do not
  bring back a file that they created and deleted.
-/
def NoneResurrected
    (log : List Observation) :
    Prop :=
  ∀ sent ∈ sentMutations log,
    sent.2.input.isWorkspace = true →
    ListsOnce (workspaceCalls sent.1 log) →
    ∀ uri,
      ¬ Resurrected
        (fileEvents uri (workspaceCalls sent.1 log))

/- Promises and revisions grow together on the wire. -/
theorem revision_lt
    {sent : List (Nat × SemanticWorkerMutation)}
    {start : Nat}
    (hPromises : (sent.map Prod.fst).Pairwise (· < ·))
    (hRevisions :
      sent.map (fun entry => entry.2.revision)
        = List.range' start sent.length)
    {first second : Nat × SemanticWorkerMutation}
    (hFirst : first ∈ sent)
    (hSecond : second ∈ sent)
    (hLt : first.1 < second.1) :
    first.2.revision < second.2.revision := by
  induction sent generalizing start with
  | nil => cases hFirst
  | cons entry sent ih =>
    rw [List.map_cons, List.pairwise_cons] at hPromises
    rw [List.length_cons, List.range'_succ, List.map_cons,
      List.cons_eq_cons] at hRevisions
    have hLater :
        ∀ other ∈ sent,
          entry.2.revision < other.2.revision := by
      intro other hMem
      have hIn :
          other.2.revision
            ∈ List.range' (start + 1) sent.length := by
        rw [← hRevisions.2]
        exact
          List.mem_map_of_mem
            (f := fun entry => entry.2.revision) hMem
      have hBound := (List.mem_range'_1.mp hIn).1
      omega
    rcases List.mem_cons.mp hFirst with hHead | hTail
    · rcases List.mem_cons.mp hSecond with hSame | hBehind
      · rw [hHead, hSame] at hLt
        exact absurd hLt (Nat.lt_irrefl _)
      · rw [hHead]
        exact hLater second hBehind
    · rcases List.mem_cons.mp hSecond with hHead | hBehind
      · have hGt :=
          hPromises.1 first.1 (List.mem_map_of_mem hTail)
        rw [hHead] at hLt
        exact absurd hLt (Nat.lt_asymm hGt)
      · exact ih hPromises.2 hRevisions.2 hTail hBehind

theorem mem_callsOf
    {call : AcceptedCall}
    {calls : List AcceptedCall}
    (hMem : call ∈ calls) :
    call.2 ∈ callsOf call.1 calls := by
  apply List.mem_map_of_mem
  exact List.mem_filter.mpr ⟨hMem, decide_eq_true rfl⟩

namespace Supervisor

variable {supervisor : Supervisor}

/- What is sent stands for its calls, and says so. -/
theorem OrderInv.reports_iff
    (hInv : supervisor.OrderInv)
    {sent : Nat × SemanticWorkerMutation}
    (hSent : sent ∈ sentMutations supervisor.log)
    {files : WorkspaceFilesChanged}
    (hInput : sent.2.input = .workspaceFilesChanged files)
    (hOnce :
      ListsOnce (workspaceCalls sent.1 supervisor.log)) :
    Reports files (workspaceCalls sent.1 supervisor.log)
      ↔ ∀ uri,
        ¬ Resurrected
          (fileEvents uri
            (workspaceCalls sent.1 supervisor.log)) := by
  have hStands := hInv.sentStands sent hSent
  rw [hInput] at hStands
  exact Semantic.reports_iff rfl hStands hOnce

theorem table_of_acknowledged
    (hPlaced : supervisor.Placed)
    (hInv : supervisor.OrderInv)
    (hTable : supervisor.TableInv)
    (hDone :
      ∀ call ∈ acceptedCalls supervisor.log,
        call.1 ∈ acknowledgedPromises supervisor.log) :
    applyDocuments noDocuments (sentInputs supervisor.log)
      = applyDocuments noDocuments
        (acceptedInputs supervisor.log) := by
  rcases hTable with hLost | hEq
  · obtain ⟨call, hMem, hPromise⟩ := hLost
    exact
      absurd hPromise
        (not_lost_of_acknowledged hPlaced (hDone call hMem))
  · cases hQueue : supervisor.pendingMutations with
    | nil =>
      simp only [issuedInputs, hQueue, List.map_nil,
        List.append_nil] at hEq
      exact hEq
    | cons record records =>
      exfalso
      have hMem : record ∈ supervisor.pendingMutations := by
        rw [hQueue]
        exact List.mem_cons_self
      obtain ⟨call, hCall, hPromise⟩ := hInv.exists_call hMem
      apply not_pending_of_acknowledged hPlaced (hDone call hCall)
      rw [hPromise]
      exact List.mem_map_of_mem hMem

/- Calls of different kinds keep their order on the wire. -/
theorem OrderInv.order
    (hInv : supervisor.OrderInv) :
    (acceptedCalls supervisor.log).Pairwise
      fun earlier later =>
        earlier.2.isWorkspace ≠ later.2.isWorkspace →
        ∀ first ∈ sentMutations supervisor.log,
        ∀ second ∈ sentMutations supervisor.log,
          first.1 = earlier.1 →
          second.1 = later.1 →
          first.2.revision < second.2.revision := by
  apply hInv.barrier.imp
  intro earlier later hBarrier hKinds first hFirst second
    hSecond hEarlier hLater
  have hLt := hBarrier hKinds
  rw [← hEarlier, ← hLater] at hLt
  exact
    revision_lt (List.pairwise_append.mp hInv.sorted).1
      hInv.revisions hFirst hSecond hLt

theorem carried_of_acknowledged
    (hInv : supervisor.OrderInv)
    (hCarried : supervisor.CarriedInv)
    {call : AcceptedCall}
    (hCall : call ∈ acceptedCalls supervisor.log)
    (hDone :
      call.1 ∈ acknowledgedPromises supervisor.log) :
    ∃ sent ∈ sentMutations supervisor.log,
      sent.1 = call.1
        ∧ sent.2.input.isWorkspace = call.2.isWorkspace := by
  obtain ⟨sent, hSent, hPromise⟩ :=
    List.mem_map.mp (hCarried.acknowledged _ hDone)
  refine ⟨sent, hSent, hPromise, ?_⟩
  have hKinds := (hInv.sentStands sent hSent).isWorkspace
  symm
  apply hKinds
  rw [hPromise]
  exact mem_callsOf hCall

theorem OrderInv.joinsFlags
    (hInv : supervisor.OrderInv)
    {sent : Nat × SemanticWorkerMutation}
    (hSent : sent ∈ sentMutations supervisor.log)
    {files : WorkspaceFilesChanged}
    (hInput :
      sent.2.input = .workspaceFilesChanged files) :
    JoinsFlags files
      (workspaceCalls sent.1 supervisor.log) := by
  have hStands := hInv.sentStands sent hSent
  rw [hInput] at hStands
  obtain ⟨first, later, hCalls, hFiles⟩ := hStands.files
  unfold workspaceCalls
  rw [hCalls, hFiles]
  exact (joined_files first later).1

end Supervisor

/-
  In every run the wire mutations keep the meaning of the
  accepted calls exactly when no file that the calls of one
  invalidation create and delete comes back.
-/
theorem coalesced_iff
    (options : SupervisorOptions)
    (events : List SupervisorEvent) :
    Coalesced (supervisorRun options events).log
      ↔ NoneResurrected (supervisorRun options events).log := by
  have hPlaced := Supervisor.placed_run options events
  have hInv := Supervisor.orderInv_run options events
  constructor
  · intro hCoalesced sent hSent hWorkspace hOnce
    cases hInput : sent.2.input with
    | document mutation =>
        rw [hInput] at hWorkspace
        cases hWorkspace
    | workspaceFilesChanged files =>
        have hReports :=
          hCoalesced.effects sent hSent files hInput hOnce
        exact
          (hInv.reports_iff hSent hInput hOnce).mp hReports
  · intro hNone
    constructor
    · exact hInv.revisions
    · intro call hCall hDone
      exact
        Supervisor.carried_of_acknowledged hInv
          (Supervisor.carriedInv_run options events)
          hCall hDone
    · exact
        Supervisor.table_of_acknowledged hPlaced hInv
          (Supervisor.tableInv_run options events)
    · exact hInv.order
    · intro sent hSent files hInput
      exact hInv.joinsFlags hSent hInput
    · intro sent hSent files hInput hOnce
      apply (hInv.reports_iff hSent hInput hOnce).mpr
      exact hNone sent hSent (by rw [hInput]; rfl) hOnce

----------
-- A File That Comes Back
----------

/- A protocol with no checks of URIs and arguments. -/
def openProtocol : WorkerProtocol :=
  { isCanonicalSemanticWorkerFileUri := fun _ => true
    isUriWithinRoot := fun _ _ => true
    decodesArguments := fun _ => true
    inputBytes := fun _ => 0
    decodesValue := fun _ _ _ => true }

def rootOptions : SupervisorOptions :=
  { protocol := openProtocol
    rootUri := "file:///root"
    epoch := 1
    sendThrows := fun _ => false }

/- A change of one file under the root. -/
def buttonFile
    (kind : FileChangeKind) :
    WorkspaceFilesChanged :=
  { rootUri := "file:///root"
    rootDirty := true
    resourceDirty := false
    resourceChanged := false
    changes := [⟨"file:///root/button.ets", kind⟩] }

/-
  While a document is being opened, a file is created,
  deleted and created again.
-/
def fileComesBack : List SupervisorEvent :=
  [.mutate
      (.document ⟨.opened, "file:///root/page.ets", 1, []⟩),
    .mutate (.workspaceFilesChanged (buttonFile .created)),
    .mutate (.workspaceFilesChanged (buttonFile .deleted)),
    .mutate (.workspaceFilesChanged (buttonFile .created)),
    .message (.ack ⟨1, 1⟩)]

/- The new file goes out as a changed one. -/
theorem not_coalesced_fileComesBack :
    ¬ ∀ options events,
      Coalesced (supervisorRun options events).log := by
  intro hAll
  have hSent :
      (1, ⟨1, 2,
          .workspaceFilesChanged (buttonFile .changed)⟩)
        ∈ sentMutations
          (supervisorRun rootOptions fileComesBack).log := by
    decide +kernel
  have hCalls :
      workspaceCalls 1
          (supervisorRun rootOptions fileComesBack).log
        = [buttonFile .created, buttonFile .deleted,
          buttonFile .created] := by
    decide +kernel
  have hReports :=
    (hAll rootOptions fileComesBack).effects _ hSent _ rfl
  rw [hCalls] at hReports
  have hOnce :
      ListsOnce
        [buttonFile .created, buttonFile .deleted,
          buttonFile .created] := by
    unfold ListsOnce
    decide
  have hCreated :=
    (hReports hOnce "file:///root/button.ets"
      .created).mpr rfl
  exact absurd hCreated (by decide)

end Semantic

end ArktsServer
