import ArktsServer.Semantic.SupervisorSettlement
import ArktsServer.Semantic.WorkerRuntime

/-
  What the worker is sent for the accepted mutations: each
  record stands for the calls that it took up, in an order
  that keeps invalidations and document mutations apart.

  Key definitions include:
    * `Semantic.callsOf`
    * `Semantic.StandsFor`
    * `Semantic.Supervisor.OrderInv`

  Correctness is proven by:
    * `Semantic.Supervisor.OrderInv.pushMutation`
    * `Semantic.Supervisor.OrderInv.joinMutation`
    * `Semantic.Supervisor.OrderInv.mutationSent`
-/

namespace ArktsServer

namespace Semantic

----------
-- Calls and Commands
----------

/- An accepted call: its promise, and its input. -/
abbrev AcceptedCall := Nat × RootSemanticWorkerMutationInput

def Observation.accepted? : Observation → Option AcceptedCall
| .accepted promise input => some (promise, input)
| _ => none

def Observation.mutation? :
    Observation → Option (Nat × SemanticWorkerMutation)
| .sent promise (.mutation mutation) => some (promise, mutation)
| _ => none

def Observation.acknowledged? : Observation → Option Nat
| .settled promise .acknowledged => some promise
| _ => none

/- The accepted calls of `mutate`, in order. -/
def acceptedCalls
    (log : List Observation) :
    List AcceptedCall :=
  log.filterMap Observation.accepted?

/- The mutations on the wire, with their promises. -/
def sentMutations
    (log : List Observation) :
    List (Nat × SemanticWorkerMutation) :=
  log.filterMap Observation.mutation?

def acknowledgedPromises
    (log : List Observation) :
    List Nat :=
  log.filterMap Observation.acknowledged?

/- The inputs of the calls that share a promise. -/
def callsOf
    (promise : Nat)
    (calls : List AcceptedCall) :
    List RootSemanticWorkerMutationInput :=
  (calls.filter (fun call => call.1 = promise)).map Prod.snd

theorem acceptedCalls_append
    (log more : List Observation) :
    acceptedCalls (log ++ more)
      = acceptedCalls log ++ acceptedCalls more :=
  List.filterMap_append

theorem sentMutations_append
    (log more : List Observation) :
    sentMutations (log ++ more)
      = sentMutations log ++ sentMutations more :=
  List.filterMap_append

theorem acknowledgedPromises_append
    (log more : List Observation) :
    acknowledgedPromises (log ++ more)
      = acknowledgedPromises log
        ++ acknowledgedPromises more :=
  List.filterMap_append

theorem callsOf_append
    (promise : Nat)
    (calls more : List AcceptedCall) :
    callsOf promise (calls ++ more)
      = callsOf promise calls ++ callsOf promise more := by
  unfold callsOf
  rw [List.filter_append, List.map_append]

theorem callsOf_singleton
    (promise other : Nat)
    (input : RootSemanticWorkerMutationInput) :
    callsOf promise [(other, input)]
      = if other = promise then [input] else [] := by
  unfold callsOf
  by_cases hEq : other = promise <;> simp [hEq]

variable {log : List Observation}

/- An accepted call is an issued promise. -/
theorem accepted_issued
    {call : AcceptedCall}
    (hMem : call ∈ acceptedCalls log) :
    call.1 ∈ issuedPromises log := by
  obtain ⟨observation, hObserved, hEq⟩ :=
    List.mem_filterMap.mp hMem
  apply List.mem_filterMap.mpr
  refine ⟨observation, hObserved, ?_⟩
  cases observation with
  | accepted promise input =>
    cases hEq
    rfl
  | requested => cases hEq
  | settled => cases hEq
  | sent => cases hEq
  | stopped => cases hEq

variable {promise : Nat}

theorem mem_acknowledged
    (hMem : promise ∈ acknowledgedPromises log) :
    .settled promise .acknowledged ∈ log := by
  obtain ⟨observation, hObserved, hEq⟩ :=
    List.mem_filterMap.mp hMem
  cases observation with
  | settled other settlement =>
    cases settlement with
    | acknowledged =>
      cases hEq
      exact hObserved
    | fulfilled => cases hEq
    | rejected => cases hEq
  | accepted => cases hEq
  | requested => cases hEq
  | sent => cases hEq
  | stopped => cases hEq

/- An acknowledged promise is a settled one. -/
theorem acknowledged_settled
    (hMem : promise ∈ acknowledgedPromises log) :
    promise ∈ settledPromises log :=
  List.mem_filterMap.mpr ⟨_, mem_acknowledged hMem, rfl⟩

def RootSemanticWorkerMutationInput.isWorkspace :
    RootSemanticWorkerMutationInput → Bool
| .workspaceFilesChanged _ => true
| .document _ => false

----------
-- Joined Inputs
----------

/-
  A record stands for calls: its input is what the first one
  becomes as the others join it.
-/
def StandsFor
    (input : RootSemanticWorkerMutationInput)
    (calls : List RootSemanticWorkerMutationInput) :
    Prop :=
  ∃ first later,
    calls = first :: later
      ∧ input = later.foldl joinMutations first
      ∧ ∀ call ∈ later, call.isWorkspace = first.isWorkspace

theorem StandsFor.one
    (input : RootSemanticWorkerMutationInput) :
    StandsFor input [input] := by
  refine ⟨input, [], rfl, rfl, ?_⟩
  intro call hMem
  cases hMem

theorem isWorkspace_join
    {previous next : RootSemanticWorkerMutationInput}
    (hKind : next.isWorkspace = previous.isWorkspace) :
    (joinMutations previous next).isWorkspace
      = previous.isWorkspace := by
  cases previous <;> cases next <;> first
    | rfl
    | cases hKind

variable {input : RootSemanticWorkerMutationInput}
variable {calls : List RootSemanticWorkerMutationInput}

theorem StandsFor.isWorkspace
    (hStands : StandsFor input calls) :
    ∀ call ∈ calls, call.isWorkspace = input.isWorkspace := by
  obtain ⟨first, later, hCalls, hInput, hKinds⟩ := hStands
  have hFold :
      ∀ (rest : List RootSemanticWorkerMutationInput)
        (start : RootSemanticWorkerMutationInput),
        (∀ call ∈ rest, call.isWorkspace = start.isWorkspace) →
        (rest.foldl joinMutations start).isWorkspace
          = start.isWorkspace := by
    intro rest
    induction rest with
    | nil =>
      intro start _
      rfl
    | cons next rest ih =>
      intro start hRest
      have hNext := hRest next List.mem_cons_self
      have hJoin := isWorkspace_join hNext
      rw [List.foldl_cons, ih, hJoin]
      intro call hMem
      rw [hJoin]
      exact hRest call (List.mem_cons_of_mem _ hMem)
  intro call hMem
  rw [hInput, hFold later first hKinds]
  rw [hCalls] at hMem
  rcases List.mem_cons.mp hMem with hHead | hTail
  · rw [hHead]
  · exact hKinds call hTail

/- A further call joins what a record stands for. -/
theorem StandsFor.join
    {input next : RootSemanticWorkerMutationInput}
    (hStands : StandsFor input calls)
    (hKind : next.isWorkspace = input.isWorkspace) :
    StandsFor (joinMutations input next)
      (calls ++ [next]) := by
  have hSame := hStands.isWorkspace
  obtain ⟨first, later, hCalls, hInput, hKinds⟩ := hStands
  refine ⟨first, later ++ [next], ?_, ?_, ?_⟩
  · rw [hCalls, List.cons_append]
  · rw [List.foldl_append, ← hInput]
    rfl
  · intro call hMem
    rcases List.mem_append.mp hMem with hOld | hNew
    · exact hKinds call hOld
    · rw [List.mem_singleton] at hNew
      rw [hNew, hKind]
      exact
        (hSame first (by rw [hCalls]; exact
          List.mem_cons_self)).symm

----------
-- Coalescing
----------

/-
  Where a document mutation joins: behind the record only
  document records of other URIs are queued.
-/
structure DocumentJoin
    (pending : List MutationRecord)
    (record : MutationRecord)
    (mutation : DocumentMutation) : Prop where
  split :
    ∃ earlier later,
      pending = earlier ++ record :: later
        ∧ ∀ other ∈ later,
          ∃ document,
            other.input = .document document
              ∧ other.documentKey ≠ some mutation.uri
  key : record.documentKey = some mutation.uri
  lives :
    ∃ previous,
      record.input = .document previous
        ∧ previous.kind ≠ .closed
        ∧ mutation.kind ≠ .closed

variable {pending : List MutationRecord}

theorem findDocument_join
    {record : MutationRecord}
    {mutation : DocumentMutation}
    (hFind :
      findCoalescingMutation pending (.document mutation)
        = some record) :
    DocumentJoin pending record mutation := by
  have hScan :
      ∀ reversed : List MutationRecord,
        findDocumentMutation mutation reversed = some record →
        DocumentJoin reversed.reverse record mutation := by
    intro reversed
    induction reversed with
    | nil =>
      intro hNone
      cases hNone
    | cons head earlier ih =>
      intro hSome
      unfold findDocumentMutation at hSome
      split at hSome
      · cases hSome
      · rename_i previous hInput
        split at hSome
        · rename_i hKey
          split at hSome
          · cases hSome
          · rename_i hKinds
            rw [not_or] at hKinds
            cases hSome
            refine ⟨⟨earlier.reverse, [], ?_, ?_⟩, hKey,
              ⟨previous, hInput, hKinds⟩⟩
            · rw [List.reverse_cons]
            · intro other hMem
              cases hMem
        · rename_i hKey
          obtain ⟨⟨before, later, hSplit, hLater⟩, hRecord,
            hOpen⟩ := ih hSome
          refine ⟨⟨before, later ++ [head], ?_, ?_⟩,
            hRecord, hOpen⟩
          · rw [List.reverse_cons, hSplit,
              List.append_assoc, List.cons_append]
          · intro other hMem
            rcases List.mem_append.mp hMem with hOld | hNew
            · exact hLater other hOld
            · rw [List.mem_singleton] at hNew
              subst hNew
              exact ⟨previous, hInput, hKey⟩
  have hJoin := hScan pending.reverse hFind
  rw [List.reverse_reverse] at hJoin
  exact hJoin

/- A workspace mutation joins the tail of the queue. -/
theorem findWorkspace_join
    {record : MutationRecord}
    {files : WorkspaceFilesChanged}
    (hFind :
      findCoalescingMutation pending
        (.workspaceFilesChanged files) = some record) :
    (∃ earlier, pending = earlier ++ [record])
      ∧ ∃ previous,
        record.input = .workspaceFilesChanged previous := by
  simp only [findCoalescingMutation,
    findWorkspaceMutation] at hFind
  split at hFind
  · cases hFind
  · rename_i tail hTail
    split at hFind
    · rename_i previous hInput
      cases hFind
      exact ⟨List.getLast?_eq_some_iff.mp hTail, previous, hInput⟩
    · cases hFind

/- The record and the mutation are of one kind. -/
theorem findCoalescing_kind
    {record : MutationRecord}
    (hFind :
      findCoalescingMutation pending input = some record) :
    input.isWorkspace = record.input.isWorkspace := by
  cases input with
  | document mutation =>
    obtain ⟨previous, hInput, _⟩ :=
      (findDocument_join hFind).lives
    rw [hInput]
    rfl
  | workspaceFilesChanged files =>
    obtain ⟨previous, hInput⟩ := (findWorkspace_join hFind).2
    rw [hInput]
    rfl

namespace Supervisor

variable {supervisor first second : Supervisor}

----------
-- Order
----------

def sentMutationPromises
    (supervisor : Supervisor) :
    List Nat :=
  (sentMutations supervisor.log).map Prod.fst

/- One, while a mutation is active. -/
def mutationsInFlight
    (supervisor : Supervisor) :
    Nat :=
  match supervisor.active with
  | some (.mutation _) => 1
  | _ => 0

/-
  The records were made in the order of their promises, sent
  in that order, and stand for the calls with their promise.
  A call whose record has left the queue is older than all
  that is queued.
-/
structure OrderInv
    (supervisor : Supervisor) : Prop where
  keys :
    ∀ record ∈ supervisor.pendingMutations,
      record.documentKey = record.input.documentKey
  sorted :
    (supervisor.sentMutationPromises
        ++ supervisor.pendingMutationPromises).Pairwise
      (· < ·)
  below :
    ∀ promise ∈ supervisor.sentMutationPromises,
      promise < supervisor.nextPromise
  stands :
    ∀ record ∈ supervisor.pendingMutations,
      StandsFor record.input
        (callsOf record.promise (acceptedCalls supervisor.log))
  sentStands :
    ∀ sent ∈ sentMutations supervisor.log,
      StandsFor sent.2.input
        (callsOf sent.1 (acceptedCalls supervisor.log))
  calls :
    ∀ call ∈ acceptedCalls supervisor.log,
      (∃ record ∈ supervisor.pendingMutations,
          record.promise = call.1
            ∧ record.input.isWorkspace = call.2.isWorkspace)
        ∨ ∀ record ∈ supervisor.pendingMutations,
          call.1 < record.promise
  barrier :
    (acceptedCalls supervisor.log).Pairwise
      fun earlier later =>
        earlier.2.isWorkspace ≠ later.2.isWorkspace →
          earlier.1 < later.1
  revisions :
    (sentMutations supervisor.log).map
        (fun sent => sent.2.revision)
      = List.range' 1 (sentMutations supervisor.log).length
  inFlight :
    supervisor.disposed = false →
    (sentMutations supervisor.log).length
      = supervisor.appliedRevision
        + supervisor.mutationsInFlight
  wires :
    supervisor.disposed = false →
    ∀ record,
      supervisor.active = some (.mutation record) →
      ∃ wire,
        record.wire = some wire
          ∧ wire.revision = supervisor.appliedRevision + 1

/- A move that accepts no call and sends no mutation. -/
theorem OrderInv.of_quiet
    (hInv : first.OrderInv)
    (hPending :
      second.pendingMutations = first.pendingMutations
        ∨ second.pendingMutations = [])
    (hCalls :
      acceptedCalls second.log = acceptedCalls first.log)
    (hSent :
      sentMutations second.log = sentMutations first.log)
    (hNext : first.nextPromise ≤ second.nextPromise)
    (hLive :
      second.disposed = false →
      first.disposed = false
        ∧ second.appliedRevision + second.mutationsInFlight
          = first.appliedRevision + first.mutationsInFlight
        ∧ ∀ record,
          second.active = some (.mutation record) →
          first.active = some (.mutation record)
            ∧ second.appliedRevision
              = first.appliedRevision) :
    second.OrderInv := by
  have hSentPromises :
      second.sentMutationPromises
        = first.sentMutationPromises := by
    simp only [sentMutationPromises, hSent]
  have hSubset :
      ∀ record ∈ second.pendingMutations,
        record ∈ first.pendingMutations := by
    intro record hMem
    rcases hPending with hSame | hEmpty
    · rw [← hSame]
      exact hMem
    · rw [hEmpty] at hMem
      cases hMem
  constructor
  · intro record hMem
    exact hInv.keys record (hSubset record hMem)
  · rw [hSentPromises]
    rcases hPending with hSame | hEmpty
    · simp only [pendingMutationPromises, hSame]
      exact hInv.sorted
    · simp only [pendingMutationPromises, hEmpty,
        List.map_nil, List.append_nil]
      exact (List.pairwise_append.mp hInv.sorted).1
  · rw [hSentPromises]
    intro promise hMem
    exact Nat.lt_of_lt_of_le (hInv.below promise hMem) hNext
  · rw [hCalls]
    intro record hMem
    exact hInv.stands record (hSubset record hMem)
  · rw [hSent, hCalls]
    exact hInv.sentStands
  · rw [hCalls]
    intro call hMem
    rcases hPending with hSame | hEmpty
    · rw [hSame]
      exact hInv.calls call hMem
    · right
      rw [hEmpty]
      intro record hNone
      cases hNone
  · rw [hCalls]
    exact hInv.barrier
  · rw [hSent]
    exact hInv.revisions
  · intro hDisposed
    obtain ⟨hFirst, hCount, _⟩ := hLive hDisposed
    rw [hSent, hInv.inFlight hFirst, hCount]
  · intro hDisposed record hActive
    obtain ⟨hFirst, _, hSame⟩ := hLive hDisposed
    obtain ⟨hBefore, hApplied⟩ := hSame record hActive
    rw [hApplied]
    exact hInv.wires hFirst record hBefore

/- The queue and the calls that a new call finds. -/
theorem OrderInv.call_lt
    (hPlaced : supervisor.Placed)
    {call : AcceptedCall}
    (hMem : call ∈ acceptedCalls supervisor.log) :
    call.1 < supervisor.nextPromise :=
  hPlaced.issued _ (accepted_issued hMem)

theorem OrderInv.pending_lt
    (hPlaced : supervisor.Placed)
    {record : MutationRecord}
    (hMem : record ∈ supervisor.pendingMutations) :
    record.promise < supervisor.nextPromise := by
  apply hPlaced.lt_of_place
  have hCount :
      0 < supervisor.pendingMutationPromises.count
        record.promise :=
    List.count_pos_iff.mpr (List.mem_map_of_mem hMem)
  unfold Supervisor.places
  omega

theorem callsOf_fresh
    {calls : List AcceptedCall}
    (hFresh : ∀ call ∈ calls, call.1 < promise) :
    callsOf promise calls = [] := by
  unfold callsOf
  rw [List.map_eq_nil_iff, List.filter_eq_nil_iff]
  intro call hMem hEq
  have hLt := hFresh call hMem
  rw [of_decide_eq_true hEq] at hLt
  exact Nat.lt_irrefl _ hLt

/- A call of another promise changes nothing. -/
theorem callsOf_foreign
    {promise other : Nat}
    (hNe : promise ≠ other)
    (calls : List AcceptedCall)
    (snapshot : RootSemanticWorkerMutationInput) :
    callsOf promise (calls ++ [(other, snapshot)])
      = callsOf promise calls := by
  rw [callsOf_append, callsOf_singleton,
    if_neg (Ne.symm hNe), List.append_nil]

theorem acceptedCalls_rejections
    (code : SemanticWorkerErrorCode)
    (promises : List Nat) :
    acceptedCalls (rejections code promises) = []
      ∧ sentMutations (rejections code promises) = [] := by
  induction promises with
  | nil => exact ⟨rfl, rfl⟩
  | cons promise promises ih => exact ih

/- A new generation accepts and sends nothing. -/
theorem nextGeneration_log
    (supervisor : Supervisor) :
    acceptedCalls supervisor.nextGeneration.log
        = acceptedCalls supervisor.log
      ∧ sentMutations supervisor.nextGeneration.log
        = sentMutations supervisor.log := by
  have hLog :
      supervisor.nextGeneration.log
        = supervisor.log
          ++ rejections .contentModified
            supervisor.pendingRequestPromises := rfl
  obtain ⟨hCalls, hSent⟩ :=
    acceptedCalls_rejections .contentModified
      supervisor.pendingRequestPromises
  rw [hLog, acceptedCalls_append, sentMutations_append,
    hCalls, hSent, List.append_nil, List.append_nil]
  exact ⟨rfl, rfl⟩

theorem OrderInv.nextGeneration
    (hInv : supervisor.OrderInv) :
    supervisor.nextGeneration.OrderInv := by
  obtain ⟨hCalls, hSent⟩ := supervisor.nextGeneration_log
  refine
    hInv.of_quiet (Or.inl rfl) hCalls hSent (Nat.le_refl _) ?_
  intro hLive
  exact ⟨hLive, rfl, fun _ hActive => ⟨hActive, rfl⟩⟩

theorem OrderInv.pushMutation
    (hInv : supervisor.OrderInv)
    (hPlaced : supervisor.Placed)
    (snapshot : RootSemanticWorkerMutationInput) :
    (supervisor.pushMutation snapshot).OrderInv := by
  have hCalls :
      acceptedCalls (supervisor.pushMutation snapshot).log
        = acceptedCalls supervisor.log
          ++ [(supervisor.nextPromise, snapshot)] :=
    acceptedCalls_append _ _
  have hSent :
      sentMutations (supervisor.pushMutation snapshot).log
        = sentMutations supervisor.log := by
    have hAppend :=
      sentMutations_append supervisor.log
        [.accepted supervisor.nextPromise snapshot]
    exact hAppend.trans (List.append_nil _)
  have hQueue :
      (supervisor.pushMutation snapshot).pendingMutations
        = supervisor.pendingMutations
          ++ [{ promise := supervisor.nextPromise
                input := snapshot
                documentKey := snapshot.documentKey
                textBytes := mutationTextBytes snapshot }] := rfl
  have hSentPromises :
      (supervisor.pushMutation snapshot).sentMutationPromises
        = supervisor.sentMutationPromises := by
    simp only [sentMutationPromises, hSent]
  have hPromises :
      (supervisor.pushMutation
          snapshot).pendingMutationPromises
        = supervisor.pendingMutationPromises
          ++ [supervisor.nextPromise] := by
    simp [pendingMutationPromises, hQueue]
  have hFresh :
      ∀ call ∈ acceptedCalls supervisor.log,
        call.1 < supervisor.nextPromise :=
    fun _ hMem => OrderInv.call_lt hPlaced hMem
  constructor
  · rw [hQueue]
    intro record hMem
    rcases List.mem_append.mp hMem with hBefore | hNew
    · exact hInv.keys record hBefore
    · rw [List.mem_singleton] at hNew
      rw [hNew]
  · rw [hSentPromises, hPromises, ← List.append_assoc,
      List.pairwise_append]
    refine ⟨hInv.sorted, List.pairwise_singleton _ _, ?_⟩
    intro promise hMem last hLast
    rw [List.mem_singleton] at hLast
    rw [hLast]
    rcases List.mem_append.mp hMem with hSentMem | hPendingMem
    · exact hInv.below promise hSentMem
    · obtain ⟨record, hRecord, hEq⟩ :=
        List.mem_map.mp hPendingMem
      rw [← hEq]
      exact OrderInv.pending_lt hPlaced hRecord
  · rw [hSentPromises]
    intro promise hMem
    exact Nat.lt_succ_of_lt (hInv.below promise hMem)
  · rw [hQueue, hCalls]
    intro record hMem
    rcases List.mem_append.mp hMem with hBefore | hNew
    · have hLt := OrderInv.pending_lt hPlaced hBefore
      rw [callsOf_foreign (Nat.ne_of_lt hLt)]
      exact hInv.stands record hBefore
    · rw [List.mem_singleton] at hNew
      rw [hNew, callsOf_append, callsOf_fresh hFresh,
        callsOf_singleton, if_pos rfl]
      exact StandsFor.one snapshot
  · rw [hSent, hCalls]
    intro sent hMem
    have hLt := hInv.below sent.1 (List.mem_map_of_mem hMem)
    rw [callsOf_foreign (Nat.ne_of_lt hLt)]
    exact hInv.sentStands sent hMem
  · rw [hCalls, hQueue]
    intro call hMem
    rcases List.mem_append.mp hMem with hBefore | hNew
    · rcases hInv.calls call hBefore with hHeld | hGone
      · left
        obtain ⟨record, hRecord, hSame⟩ := hHeld
        exact ⟨record, List.mem_append_left _ hRecord, hSame⟩
      · right
        intro record hRecord
        rcases List.mem_append.mp hRecord with
          hQueued | hLast
        · exact hGone record hQueued
        · rw [List.mem_singleton] at hLast
          rw [hLast]
          exact hFresh call hBefore
    · left
      rw [List.mem_singleton] at hNew
      rw [hNew]
      exact
        ⟨_, List.mem_append_right _ (List.mem_singleton_self _),
          rfl, rfl⟩
  · rw [hCalls, List.pairwise_append]
    refine ⟨hInv.barrier, List.pairwise_singleton _ _, ?_⟩
    intro call hMem last hLast _
    rw [List.mem_singleton] at hLast
    rw [hLast]
    exact hFresh call hMem
  · rw [hSent]
    exact hInv.revisions
  · rw [hSent]
    exact hInv.inFlight
  · exact hInv.wires

----------
-- Joins
----------

/- Behind the record only records of its kind are queued. -/
theorem findCoalescing_split
    {record : MutationRecord}
    (hFind :
      findCoalescingMutation pending input = some record) :
    ∃ earlier later,
      pending = earlier ++ record :: later
        ∧ ∀ other ∈ later,
          other.input.isWorkspace
            = record.input.isWorkspace := by
  cases input with
  | document mutation =>
    have hJoin := findDocument_join hFind
    obtain ⟨earlier, later, hSplit, hLater⟩ := hJoin.split
    obtain ⟨previous, hInput, _⟩ := hJoin.lives
    refine ⟨earlier, later, hSplit, ?_⟩
    intro other hMem
    obtain ⟨document, hDocument, _⟩ := hLater other hMem
    rw [hDocument, hInput]
    rfl
  | workspaceFilesChanged files =>
    obtain ⟨⟨earlier, hSplit⟩, _⟩ := findWorkspace_join hFind
    refine ⟨earlier, [], hSplit, ?_⟩
    intro other hMem
    cases hMem

/- The joined record keeps its document. -/
theorem documentKey_join
    {record : MutationRecord}
    (hFind :
      findCoalescingMutation pending input = some record)
    (hKey : record.documentKey = record.input.documentKey) :
    record.documentKey
      = (joinMutations record.input input).documentKey := by
  cases input with
  | document mutation =>
    have hJoin := findDocument_join hFind
    obtain ⟨previous, hInput, _⟩ := hJoin.lives
    rw [hJoin.key, hInput]
    simp only [joinMutations, joinDocumentMutations]
    split <;> rfl
  | workspaceFilesChanged files =>
    obtain ⟨previous, hInput⟩ := (findWorkspace_join hFind).2
    rw [hKey, hInput]
    rfl

/- In the queue a promise names its record. -/
theorem eq_of_promise
    (hPlaced : supervisor.Placed)
    {record other : MutationRecord}
    (hRecord : record ∈ supervisor.pendingMutations)
    (hOther : other ∈ supervisor.pendingMutations)
    (hEq : record.promise = other.promise) :
    record = other :=
  List.inj_on_of_nodup_map hPlaced.nodup_pending
    hRecord hOther hEq

/- A record after the join is an old one, or the joined. -/
theorem takeUp_cases
    (hPlaced : supervisor.Placed)
    {existing : MutationRecord}
    (hMem : existing ∈ supervisor.pendingMutations)
    {joined : RootSemanticWorkerMutationInput}
    {record : MutationRecord}
    (hRecord : record ∈ supervisor.pendingMutations) :
    (record = existing
        ∧ takeUp existing.promise joined record
          = { existing with
              input := joined
              textBytes := mutationTextBytes joined })
      ∨ (record.promise ≠ existing.promise
        ∧ takeUp existing.promise joined record = record) := by
  by_cases hEq : record.promise = existing.promise
  · left
    have hSame := eq_of_promise hPlaced hRecord hMem hEq
    subst hSame
    refine ⟨rfl, ?_⟩
    unfold takeUp
    rw [if_pos rfl]
  · right
    refine ⟨hEq, ?_⟩
    unfold takeUp
    rw [if_neg hEq]

/-
  What is queued behind the record is of its kind, so calls
  of the other kind were accepted for an earlier one.
-/
theorem OrderInv.other_kind_before
    (hInv : supervisor.OrderInv)
    {existing : MutationRecord}
    {earlier later : List MutationRecord}
    (hSplit :
      supervisor.pendingMutations
        = earlier ++ existing :: later)
    (hLater :
      ∀ other ∈ later,
        other.input.isWorkspace = existing.input.isWorkspace)
    {call : Nat × RootSemanticWorkerMutationInput}
    (hCall : call ∈ acceptedCalls supervisor.log)
    (hDiffer :
      call.2.isWorkspace ≠ existing.input.isWorkspace) :
    call.1 < existing.promise := by
  rcases hInv.calls call hCall with hHeld | hGone
  · obtain ⟨record, hRecord, hPromise, hSame⟩ := hHeld
    have hPending := (List.pairwise_append.mp hInv.sorted).2.1
    simp only [pendingMutationPromises, hSplit,
      List.map_append, List.map_cons] at hPending
    rw [hSplit] at hRecord
    rcases List.mem_append.mp hRecord with hFront | hBack
    · rw [← hPromise]
      exact
        (List.pairwise_append.mp hPending).2.2
          record.promise (List.mem_map_of_mem hFront)
          existing.promise List.mem_cons_self
    · exfalso
      apply hDiffer
      rcases List.mem_cons.mp hBack with hHere | hBehind
      · rw [← hSame, hHere]
      · rw [← hSame, hLater record hBehind]
  · refine hGone existing ?_
    rw [hSplit]
    exact List.mem_append_right _ List.mem_cons_self

theorem OrderInv.joinMutation
    (hInv : supervisor.OrderInv)
    (hPlaced : supervisor.Placed)
    {existing : MutationRecord}
    {snapshot : RootSemanticWorkerMutationInput}
    (hFind :
      findCoalescingMutation supervisor.pendingMutations
        snapshot = some existing)
    {joined : RootSemanticWorkerMutationInput}
    (hJoin : joinMutations existing.input snapshot = joined)
    {next : Supervisor}
    (hNext :
      next =
        supervisor.joinMutation existing snapshot joined) :
    next.OrderInv := by
  have hMem := findCoalescing_mem hFind
  have hKind := findCoalescing_kind hFind
  obtain ⟨earlier, later, hSplit, hLater⟩ :=
    findCoalescing_split hFind
  have hCalls :
      acceptedCalls next.log
        = acceptedCalls supervisor.log
          ++ [(existing.promise, snapshot)] := by
    rw [hNext]
    exact acceptedCalls_append _ _
  have hSent :
      sentMutations next.log = sentMutations supervisor.log := by
    rw [hNext]
    have hAppend :=
      sentMutations_append supervisor.log
        [.accepted existing.promise snapshot]
    exact hAppend.trans (List.append_nil _)
  have hQueue :
      next.pendingMutations
        = supervisor.pendingMutations.map
          (takeUp existing.promise joined) := by
    rw [hNext]
    rfl
  have hSentPromises :
      next.sentMutationPromises
        = supervisor.sentMutationPromises := by
    simp only [sentMutationPromises, hSent]
  have hTaken := fun record =>
    @takeUp_cases _ hPlaced existing hMem joined record
  have hExistingMem :
      existing.promise ∈ supervisor.pendingMutationPromises :=
    List.mem_map_of_mem hMem
  have hPairwise := List.pairwise_append.mp hInv.sorted
  subst hNext hJoin
  constructor
  · rw [hQueue]
    intro record hRecord
    obtain ⟨old, hOld, hEq⟩ := List.mem_map.mp hRecord
    rw [← hEq]
    rcases hTaken old hOld with hJoined | hKept
    · rw [hJoined.2]
      exact documentKey_join hFind (hInv.keys existing hMem)
    · rw [hKept.2]
      exact hInv.keys old hOld
  · rw [hSentPromises, joinMutation_promises]
    exact hInv.sorted
  · rw [hSentPromises]
    exact hInv.below
  · rw [hQueue, hCalls]
    intro record hRecord
    obtain ⟨old, hOld, hEq⟩ := List.mem_map.mp hRecord
    rw [← hEq]
    rcases hTaken old hOld with hJoined | hKept
    · rw [hJoined.2, callsOf_append, callsOf_singleton,
        if_pos rfl]
      exact (hInv.stands existing hMem).join hKind
    · rw [hKept.2, callsOf_foreign hKept.1]
      exact hInv.stands old hOld
  · rw [hSent, hCalls]
    intro sent hSentMem
    have hLt :=
      hPairwise.2.2 sent.1 (List.mem_map_of_mem hSentMem)
        existing.promise hExistingMem
    rw [callsOf_foreign (Nat.ne_of_lt hLt)]
    exact hInv.sentStands sent hSentMem
  · rw [hCalls, hQueue]
    intro call hCall
    rcases List.mem_append.mp hCall with hBefore | hNew
    · rcases hInv.calls call hBefore with hHeld | hGone
      · left
        obtain ⟨record, hRecord, hPromise, hSame⟩ := hHeld
        refine ⟨_, List.mem_map_of_mem hRecord, ?_, ?_⟩
        · rw [takeUp_promise]
          exact hPromise
        · rcases hTaken record hRecord with hJoined | hKept
          · rw [hJoined.2]
            rw [hJoined.1] at hSame
            exact (isWorkspace_join hKind).trans hSame
          · rw [hKept.2]
            exact hSame
      · right
        intro record hRecord
        obtain ⟨old, hOld, hEq⟩ := List.mem_map.mp hRecord
        rw [← hEq, takeUp_promise]
        exact hGone old hOld
    · left
      rw [List.mem_singleton] at hNew
      rw [hNew]
      refine ⟨_, List.mem_map_of_mem hMem, ?_, ?_⟩
      · exact takeUp_promise _ _ _
      · rcases hTaken existing hMem with hJoined | hKept
        · rw [hJoined.2, hKind]
          exact isWorkspace_join hKind
        · exact absurd rfl hKept.1
  · rw [hCalls, List.pairwise_append]
    refine ⟨hInv.barrier, List.pairwise_singleton _ _, ?_⟩
    intro call hCall last hLast hDiffer
    rw [List.mem_singleton] at hLast
    rw [hLast] at hDiffer ⊢
    refine hInv.other_kind_before hSplit hLater hCall ?_
    rw [← hKind]
    exact hDiffer
  · rw [hSent]
    exact hInv.revisions
  · rw [hSent]
    exact hInv.inFlight
  · exact hInv.wires

----------
-- Sends
----------

/- The head of the queue goes out under the next revision. -/
theorem OrderInv.mutationSent
    (hInv : supervisor.OrderInv)
    (hPlaced : supervisor.Placed)
    (hLive : supervisor.disposed = false)
    (hIdle : supervisor.active = none)
    {record : MutationRecord}
    {records : List MutationRecord}
    (hQueue : supervisor.pendingMutations = record :: records)
    {epoch : Nat}
    {wire : SemanticWorkerMutation}
    (hWire :
      wire =
        ⟨epoch, supervisor.appliedRevision + 1, record.input⟩)
    {next : Supervisor}
    (hNext :
      next =
        ((supervisor.shiftMutation record
          records).activateMutation record
            (some wire)).delivered record.promise
          (.mutation wire)) :
    next.OrderInv := by
  have hHead : record ∈ supervisor.pendingMutations := by
    rw [hQueue]
    exact List.mem_cons_self
  have hRest :
      ∀ other ∈ records,
        other ∈ supervisor.pendingMutations := by
    intro other hMem
    rw [hQueue]
    exact List.mem_cons_of_mem _ hMem
  have hCalls :
      acceptedCalls next.log = acceptedCalls supervisor.log := by
    rw [hNext]
    exact (acceptedCalls_append _ _).trans (List.append_nil _)
  have hSent :
      sentMutations next.log
        = sentMutations supervisor.log
          ++ [(record.promise, wire)] := by
    rw [hNext]
    exact sentMutations_append _ _
  subst hNext hWire
  have hCount := hInv.inFlight hLive
  have hNone : supervisor.mutationsInFlight = 0 := by
    simp [mutationsInFlight, hIdle]
  have hSorted := hInv.sorted
  simp only [pendingMutationPromises, hQueue,
    List.map_cons] at hSorted
  constructor
  · intro other hMem
    exact hInv.keys other (hRest other hMem)
  · simp only [sentMutationPromises, hSent, List.map_append,
      List.map_cons, List.map_nil, List.append_assoc,
      List.cons_append, List.nil_append]
    exact hSorted
  · simp only [sentMutationPromises, hSent, List.map_append,
      List.map_cons, List.map_nil]
    intro promise hMem
    rcases List.mem_append.mp hMem with hOld | hNew
    · exact hInv.below promise hOld
    · rw [List.mem_singleton] at hNew
      rw [hNew]
      exact OrderInv.pending_lt hPlaced hHead
  · rw [hCalls]
    intro other hMem
    exact hInv.stands other (hRest other hMem)
  · rw [hSent, hCalls]
    intro sent hMem
    rcases List.mem_append.mp hMem with hOld | hNew
    · exact hInv.sentStands sent hOld
    · rw [List.mem_singleton] at hNew
      rw [hNew]
      exact hInv.stands record hHead
  · rw [hCalls]
    intro call hMem
    have hBehind :
        ∀ other ∈ records, record.promise < other.promise := by
      intro other hOther
      have hTail := (List.pairwise_append.mp hSorted).2.1
      exact
        (List.pairwise_cons.mp hTail).1 other.promise
          (List.mem_map_of_mem hOther)
    rcases hInv.calls call hMem with hHeld | hGone
    · obtain ⟨holder, hHolder, hPromise, hSame⟩ := hHeld
      rw [hQueue] at hHolder
      rcases List.mem_cons.mp hHolder with hHere | hThere
      · right
        intro other hOther
        rw [← hPromise, hHere]
        exact hBehind other hOther
      · left
        exact ⟨holder, hThere, hPromise, hSame⟩
    · right
      intro other hOther
      exact hGone other (hRest other hOther)
  · rw [hCalls]
    exact hInv.barrier
  · rw [hSent, List.map_append, hInv.revisions,
      List.length_append, List.length_singleton,
      List.range'_1_concat]
    simp only [List.map_cons, List.map_nil]
    have hRevision :
        supervisor.appliedRevision + 1
          = 1 + (sentMutations supervisor.log).length := by
      omega
    rw [hRevision]
  · intro _
    rw [hSent, List.length_append, List.length_singleton,
      hCount, hNone]
    rfl
  · intro _ other hActive
    have hOther := hActive
    simp only [delivered, activateMutation, observe,
      Option.some.injEq, CommandRecord.mutation.injEq]
      at hOther
    rw [← hOther]
    exact ⟨_, rfl, rfl⟩

end Supervisor

end Semantic

end ArktsServer
