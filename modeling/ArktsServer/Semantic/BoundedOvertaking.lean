import ArktsServer.Lib.Tally
import ArktsServer.Semantic.RequestSelection

/-
  The queue of pending reads over whole runs, with the marker
  of the bypassed head as the pump threads it.  Requests of a
  class keep their order, no request waits for more than two
  takes for each one ahead of it, and the accounts are exact.

  Key definitions include:
    * `Accounts`
    * `ReadsOp`, `ReadsRun`
    * `waitingBound`

  Correctness is proven by:
    * `accounts_run`, `inOrder_run`
    * `waiting_run`
    * `overtaking_bounded`
-/

----------
-- Accounts
----------

namespace ArktsServer

namespace Semantic

/- What the accounts of the queued records are. -/
structure Accounts
    (protocol : WorkerProtocol)
    (reads : PendingReads) : Prop where
  distinct : (reads.records.map RequestRecord.promise).Nodup
  sources :
    Tally.Tallies (fun record => record.input.uri)
      reads.records reads.sources
  weights :
    ∀ record ∈ reads.records,
      reads.weights.lookup record.promise =
        some (protocol.inputBytes record.input)
  bytes :
    reads.bytes =
      Tally.total
        (fun record => protocol.inputBytes record.input)
        reads.records
  fewSources : reads.sources.length ≤ PendingReads.maxSources
  fewBytes : reads.bytes ≤ PendingReads.maxInputBytes

variable {protocol : WorkerProtocol}

theorem accounts_empty : Accounts protocol {} := by
  refine
    ⟨List.nodup_nil, Tally.tallies_nil, ?_, rfl,
      Nat.zero_le _, Nat.zero_le _⟩
  intro record hRecord
  cases hRecord

variable {record : RequestRecord}

theorem Accounts.add
    {reads added : PendingReads}
    (hAccounts : Accounts protocol reads)
    (hFresh :
      ∀ other ∈ reads.records,
        other.promise ≠ record.promise)
    (hAdd : PendingReads.add protocol reads record = some added) :
    Accounts protocol added := by
  simp only [PendingReads.add] at hAdd
  split at hAdd
  · cases hAdd
  · rename_i hRoom
    rcases not_or.mp hRoom with ⟨hSources, hBytes⟩
    injection hAdd with hAdded
    subst hAdded
    refine ⟨?_, ?_, ?_, ?_, ?_, Nat.not_lt.mp hBytes⟩
    · change ((reads.records ++ [record]).map _).Nodup
      rw [List.map_append, List.map_singleton]
      refine
        List.nodup_append.mpr
          ⟨hAccounts.distinct, List.nodup_singleton _, ?_⟩
      intro promise hPromise other hOther
      rcases List.mem_map.mp hPromise with
        ⟨queued, hQueued, hSame⟩
      rw [List.mem_singleton.mp hOther, ← hSame]
      exact hFresh queued hQueued
    · exact hAccounts.sources.add record
    · intro other hOther
      change List.lookup _ (_ :: reads.weights) = _
      rcases List.mem_append.mp hOther with hQueued | hNew
      · have hNe : (other.promise == record.promise) = false :=
          beq_eq_false_iff_ne.mpr (hFresh other hQueued)
        rw [List.lookup_cons, hNe]
        exact hAccounts.weights other hQueued
      · rw [List.mem_singleton.mp hNew, List.lookup_cons,
          beq_self_eq_true]
    · change reads.bytes + _ = Tally.total _ (_ ++ [record])
      rw [Tally.total_append, hAccounts.bytes]
      rfl
    · have hLength :=
        hAccounts.sources.length_set record.input.uri
          ((reads.sources.lookup record.input.uri).getD 0 + 1)
      have hCount := hAccounts.sources.getD record.input.uri
      change (Tally.set _ _ reads.sources).length ≤ _
      rw [hLength]
      have hFew := hAccounts.fewSources
      by_cases hNone :
          Tally.tally (fun item : RequestRecord =>
            item.input.uri) reads.records record.input.uri = 0
      · rw [if_pos hNone]
        rw [hNone] at hCount
        have hLess :=
          Nat.not_le.mp (fun hFull => hSources ⟨hCount, hFull⟩)
        exact hLess
      · rw [if_neg hNone]
        exact hFew

variable {reads : PendingReads}

/- A record that leaves takes its share of the accounts. -/
theorem Accounts.release
    {rest : List RequestRecord}
    (hAccounts : Accounts protocol reads)
    (hLeaves : (record :: rest).Perm reads.records) :
    Accounts protocol
      ({ reads with records := rest }.release record) := by
  have hQueued : record ∈ reads.records :=
    hLeaves.mem_iff.mp List.mem_cons_self
  have hWeight := hAccounts.weights record hQueued
  have hDistinct :
      ((record :: rest).map RequestRecord.promise).Nodup :=
    (hLeaves.map RequestRecord.promise).nodup_iff.mpr
      hAccounts.distinct
  rw [List.map_cons, List.nodup_cons] at hDistinct
  have hTotal :=
    @Tally.total_perm _
      (fun item : RequestRecord =>
        protocol.inputBytes item.input) _ _ hLeaves
  have hBytes := hAccounts.bytes
  rw [← hTotal, Tally.total] at hBytes
  unfold PendingReads.release
  simp only [hWeight]
  refine
    ⟨hDistinct.2, hAccounts.sources.remove hLeaves, ?_, ?_, ?_,
      ?_⟩
  · intro other hOther
    have hNe : other.promise ≠ record.promise := by
      intro hSame
      rw [← hSame] at hDistinct
      exact hDistinct.1 (List.mem_map_of_mem hOther)
    change (Tally.delete _ reads.weights).lookup _ = _
    rw [Tally.lookup_delete, if_neg hNe]
    exact
      hAccounts.weights other
        (hLeaves.mem_iff.mp (List.mem_cons_of_mem _ hOther))
  · simp only
    rw [hBytes, Nat.add_sub_cancel_left]
  · simp only
    split
    · exact
        Nat.le_trans (Tally.length_delete_le _ _)
          hAccounts.fewSources
    · have hSome :
          Tally.tally (fun item : RequestRecord =>
            item.input.uri) reads.records
              record.input.uri ≠ 0 := by
        refine Nat.pos_iff_ne_zero.mp ?_
        refine List.countP_pos_iff.mpr ⟨record, hQueued, ?_⟩
        exact decide_eq_true rfl
      have hLength :=
        hAccounts.sources.length_set record.input.uri
          ((reads.sources.lookup record.input.uri).getD 0 - 1)
      rw [if_neg hSome, Nat.add_zero] at hLength
      change (Tally.set _ _ reads.sources).length ≤ _
      rw [hLength]
      exact hAccounts.fewSources
  · exact Nat.le_trans (Nat.sub_le _ _) hAccounts.fewBytes

----------
-- Runs
----------

def PendingReads.drain
    (reads : PendingReads) :
    List RequestRecord × PendingReads :=
  (reads.records, {})

/-
  The operations of the supervisor on its queue.  A request
  that is added is a record of its own; a take is one of the
  pump, told whether a reference is detached.
-/
inductive ReadsOp where
| add
    (input : RootSemanticWorkerRequestInput)
    (stateGeneration : Nat)
| remove (record : RequestRecord)
| take (detachedReference : Bool)
| drain
deriving DecidableEq

/-
  The queue with the marker of the pump, the next record, and
  the records that were admitted and that were taken so far.
-/
structure ReadsRun where
  reads : PendingReads := {}
  bypassedDiagnostic : Option RequestRecord := none
  next : Nat := 0
  arrived : List RequestRecord := []
  taken : List RequestRecord := []

namespace ReadsRun

def add
    (protocol : WorkerProtocol)
    (run : ReadsRun)
    (input : RootSemanticWorkerRequestInput)
    (stateGeneration : Nat) :
    ReadsRun :=
  let record : RequestRecord :=
    { promise := run.next
      input := input
      stateGeneration := stateGeneration }
  match run.reads.add protocol record with
  | none => { run with next := run.next + 1 }
  | some reads =>
      { run with
        reads := reads
        next := run.next + 1
        arrived := run.arrived ++ [record] }

def remove
    (run : ReadsRun)
    (record : RequestRecord) :
    ReadsRun :=
  match run.reads.remove record with
  | none => run
  | some reads => { run with reads := reads }

/- `#pump`, which stores the marker of the selection. -/
def take
    (run : ReadsRun)
    (detachedReference : Bool) :
    ReadsRun :=
  let selection :=
    run.reads.take detachedReference run.bypassedDiagnostic
  { run with
    reads := selection.2.2
    bypassedDiagnostic := selection.2.1
    taken := run.taken ++ selection.1.toList }

def step
    (protocol : WorkerProtocol)
    (run : ReadsRun) :
    ReadsOp → ReadsRun
| .add input stateGeneration =>
    run.add protocol input stateGeneration
| .remove record => run.remove record
| .take detachedReference => run.take detachedReference
| .drain => { run with reads := run.reads.drain.2 }

def steps
    (protocol : WorkerProtocol)
    (run : ReadsRun)
    (ops : List ReadsOp) :
    ReadsRun :=
  ops.foldl (step protocol) run

end ReadsRun

variable {detached : Bool}
variable {bypassed : Option RequestRecord}

theorem take_of_none
    (hRequest :
      (takeNextSemanticWorkerRequest reads.records detached
        bypassed).request = none) :
    reads.take detached bypassed =
      (none,
        (takeNextSemanticWorkerRequest reads.records detached
          bypassed).bypassedDiagnostic, reads) := by
  simp only [PendingReads.take, hRequest]

theorem take_of_some
    (hRequest :
      (takeNextSemanticWorkerRequest reads.records detached
        bypassed).request = some record) :
    reads.take detached bypassed =
      (some record,
        (takeNextSemanticWorkerRequest reads.records detached
          bypassed).bypassedDiagnostic,
        { reads with
          records :=
            (takeNextSemanticWorkerRequest reads.records
              detached bypassed).rest }.release record) := by
  simp only [PendingReads.take, hRequest]

/- How a take leaves the queue. -/
theorem take_cases
    (reads : PendingReads)
    (detached : Bool)
    (bypassed : Option RequestRecord) :
    ((reads.take detached bypassed).1 = none ∧
        (reads.take detached bypassed).2.2 = reads ∧
        (reads.records = [] ∨ detached = true) ∧
        (reads.take detached bypassed).2.1 =
          (takeNextSemanticWorkerRequest reads.records
            detached bypassed).bypassedDiagnostic) ∨
      ∃ record before after,
        (reads.take detached bypassed).1 = some record ∧
          (reads.take detached bypassed).2.2 =
            { reads with records := before ++ after }.release
              record ∧
          TakenFrom reads.records detached bypassed record
            before after
            (reads.take detached bypassed).2.1 := by
  cases hRequest :
      (takeNextSemanticWorkerRequest reads.records detached
        bypassed).request with
  | none =>
    rw [take_of_none hRequest]
    refine Or.inl ⟨rfl, rfl, ?_, rfl⟩
    cases hRecords : reads.records with
    | nil => exact Or.inl rfl
    | cons oldest later =>
      cases detached with
      | true => exact Or.inr rfl
      | false =>
        rw [hRecords] at hRequest
        rcases @takeNext_attached oldest later bypassed
          with ⟨before, record, after, marker, hTake, _⟩
        rw [hTake] at hRequest
        cases hRequest
  | some record =>
    rcases takeNext_split hRequest with
      ⟨before, after, hRest, hFrom⟩
    rw [take_of_some hRequest, hRest]
    exact Or.inr ⟨record, before, after, rfl, rfl, hFrom⟩

----------
-- Order of Arrival
----------

/- Each class leaves the queue in the order of its arrivals. -/
structure InOrder
    (run : ReadsRun) : Prop where
  fresh : ∀ record ∈ run.arrived, record.promise < run.next
  distinct : (run.arrived.map RequestRecord.promise).Nodup
  order :
    ∀ lane,
      ((run.taken ++ run.reads.records).filter
        (fun record => record.lane = lane)).Sublist
        run.arrived

variable {run : ReadsRun}

theorem InOrder.arrived
    (hOrder : InOrder run)
    (hRecord : record ∈ run.taken ++ run.reads.records) :
    record ∈ run.arrived :=
  (hOrder.order record.lane).subset
    (List.mem_filter.mpr ⟨hRecord, decide_eq_true rfl⟩)

theorem InOrder.queued_fresh
    (hOrder : InOrder run)
    (hRecord : record ∈ run.reads.records) :
    record.promise < run.next :=
  hOrder.fresh record
    (hOrder.arrived (List.mem_append_right _ hRecord))

/- Taking from behind other classes keeps the order. -/
theorem filter_taken
    {taken before after : List RequestRecord}
    (lane : RequestClass)
    (hOrdered :
      ∀ other ∈ before, other.lane ≠ record.lane) :
    ((taken ++ [record]) ++ (before ++ after)).filter
        (fun item => item.lane = lane) =
      (taken ++ (before ++ record :: after)).filter
        (fun item => item.lane = lane) := by
  have hParts :
      ([record] ++ before).filter
          (fun item => item.lane = lane) =
        (before ++ [record]).filter
          (fun item => item.lane = lane) := by
    rw [List.filter_append, List.filter_append]
    by_cases hLane : record.lane = lane
    · have hNone :
          before.filter (fun item => item.lane = lane) = [] := by
        refine List.filter_eq_nil_iff.mpr ?_
        intro other hOther hSame
        apply hOrdered other hOther
        rw [of_decide_eq_true hSame, hLane]
      rw [hNone]
      exact (List.append_nil _)
    · have hNone :
          [record].filter (fun item => item.lane = lane) = [] :=
        List.filter_cons_of_neg
          (fun hSame => hLane (of_decide_eq_true hSame))
      rw [hNone]
      exact (List.append_nil _).symm
  calc
    ((taken ++ [record]) ++ (before ++ after)).filter
          (fun item => item.lane = lane) =
        taken.filter (fun item => item.lane = lane)
          ++ (([record] ++ before).filter
              (fun item => item.lane = lane)
            ++ after.filter
              (fun item => item.lane = lane)) := by
      simp only [List.filter_append, List.append_assoc]
    _ = (taken ++ (before ++ record :: after)).filter
          (fun item => item.lane = lane) := by
      rw [hParts]
      simp only [← List.filter_append, List.append_assoc,
        List.singleton_append]

theorem inOrder_shrink
    (hOrder : InOrder run)
    (hRecords : reads.records.Sublist run.reads.records) :
    InOrder { run with reads := reads } := by
  refine ⟨hOrder.fresh, hOrder.distinct, fun lane => ?_⟩
  refine List.Sublist.trans ?_ (hOrder.order lane)
  exact ((List.Sublist.refl run.taken).append hRecords).filter _

theorem inOrder_add
    {input : RootSemanticWorkerRequestInput}
    {stateGeneration : Nat}
    (hOrder : InOrder run) :
    InOrder (run.add protocol input stateGeneration) := by
  unfold ReadsRun.add
  simp only
  cases hAdd :
      run.reads.add protocol
        { promise := run.next
          input := input
          stateGeneration := stateGeneration } with
  | none =>
    exact
      ⟨fun record hRecord =>
          Nat.lt_succ_of_lt (hOrder.fresh record hRecord),
        hOrder.distinct, hOrder.order⟩
  | some reads =>
    refine ⟨?_, ?_, fun lane => ?_⟩
    · intro record hRecord
      rcases List.mem_append.mp hRecord with hOld | hNew
      · exact Nat.lt_succ_of_lt (hOrder.fresh record hOld)
      · rw [List.mem_singleton.mp hNew]
        exact Nat.lt_succ_self run.next
    · rw [List.map_append, List.map_singleton]
      refine
        List.nodup_append.mpr
          ⟨hOrder.distinct, List.nodup_singleton _, ?_⟩
      intro promise hPromise other hOther
      rcases List.mem_map.mp hPromise with
        ⟨record, hRecord, hSame⟩
      rw [List.mem_singleton.mp hOther, ← hSame]
      exact Nat.ne_of_lt (hOrder.fresh record hRecord)
    · simp only
      rw [PendingReads.add_records hAdd,
        ← List.append_assoc, List.filter_append]
      exact (hOrder.order lane).append List.filter_sublist

theorem inOrder_take
    (hOrder : InOrder run) :
    InOrder (run.take detached) := by
  rcases take_cases run.reads detached
      run.bypassedDiagnostic with
    ⟨hNone, hReads, _⟩ |
      ⟨record, before, after, hSome, hReads, hFrom⟩
  · refine ⟨hOrder.fresh, hOrder.distinct, fun lane => ?_⟩
    unfold ReadsRun.take
    simp only
    rw [hNone, hReads, Option.toList_none, List.append_nil]
    exact hOrder.order lane
  · refine ⟨hOrder.fresh, hOrder.distinct, fun lane => ?_⟩
    unfold ReadsRun.take
    simp only
    rw [hSome, hReads, PendingReads.release_records,
      Option.toList_some, filter_taken lane hFrom.ordered,
      ← hFrom.split]
    exact hOrder.order lane

theorem remove_records
    {reads removed : PendingReads}
    (hRemove : reads.remove record = some removed) :
    removed.records = reads.records.erase record := by
  unfold PendingReads.remove at hRemove
  split at hRemove
  · injection hRemove with hRemoved
    rw [← hRemoved, PendingReads.release_records]
  · cases hRemove

theorem inOrder_step
    (op : ReadsOp)
    (hOrder : InOrder run) :
    InOrder (run.step protocol op) := by
  cases op with
  | add input stateGeneration => exact inOrder_add hOrder
  | remove record =>
    unfold ReadsRun.step ReadsRun.remove
    simp only
    cases hRemove : run.reads.remove record with
    | none => exact hOrder
    | some reads =>
      refine inOrder_shrink hOrder ?_
      rw [remove_records hRemove]
      exact List.erase_sublist
  | take detached => exact inOrder_take hOrder
  | drain => exact inOrder_shrink hOrder (List.nil_sublist _)

theorem inOrder_run
    (run : ReadsRun)
    (ops : List ReadsOp)
    (hOrder : InOrder run) :
    InOrder (run.steps protocol ops) := by
  induction ops generalizing run with
  | nil => exact hOrder
  | cons op ops ih =>
    exact ih (run.step protocol op) (inOrder_step op hOrder)

theorem accounts_step
    (op : ReadsOp)
    (hOrder : InOrder run)
    (hAccounts : Accounts protocol run.reads) :
    Accounts protocol (run.step protocol op).reads := by
  cases op with
  | add input stateGeneration =>
    unfold ReadsRun.step ReadsRun.add
    simp only
    cases hAdd :
        run.reads.add protocol
          { promise := run.next
            input := input
            stateGeneration := stateGeneration } with
    | none => exact hAccounts
    | some reads =>
      refine hAccounts.add ?_ hAdd
      intro other hOther
      exact Nat.ne_of_lt (hOrder.queued_fresh hOther)
  | remove record =>
    unfold ReadsRun.step ReadsRun.remove
    simp only
    cases hRemove : run.reads.remove record with
    | none => exact hAccounts
    | some reads =>
      unfold PendingReads.remove at hRemove
      split at hRemove
      · rename_i hQueued
        injection hRemove with hRemoved
        rw [← hRemoved]
        exact
          hAccounts.release (List.perm_cons_erase hQueued).symm
      · cases hRemove
  | take detached =>
    unfold ReadsRun.step ReadsRun.take
    simp only
    rcases take_cases run.reads detached
        run.bypassedDiagnostic with
      ⟨_, hReads, _⟩ | ⟨record, before, after, _, hReads, hFrom⟩
    · rw [hReads]
      exact hAccounts
    · rw [hReads]
      refine hAccounts.release ?_
      rw [hFrom.split]
      exact List.perm_middle.symm
  | drain => exact accounts_empty

theorem accounts_run
    (run : ReadsRun)
    (ops : List ReadsOp)
    (hOrder : InOrder run)
    (hAccounts : Accounts protocol run.reads) :
    Accounts protocol (run.steps protocol ops).reads := by
  induction ops generalizing run with
  | nil => exact hAccounts
  | cons op ops ih =>
    exact
      ih (run.step protocol op) (inOrder_step op hOrder)
        (accounts_step op hOrder hAccounts)

----------
-- Waiting
----------

def headBypassed
    (records : List RequestRecord)
    (bypassed : Option RequestRecord) :
    Bool :=
  records.head?.any fun oldest => isBypassed oldest bypassed

variable (target : RequestRecord)

/-
  The takes a queued request can still see: two for each one
  ahead of it and for itself, less the bypass that the head
  has spent.
-/
def waitingBound
    (records : List RequestRecord)
    (bypassed : Option RequestRecord) :
    Nat :=
  2 * records.idxOf target
    + if headBypassed records bypassed then 1 else 2

theorem waitingBound_le
    (records : List RequestRecord)
    (bypassed : Option RequestRecord) :
    waitingBound target records bypassed ≤
      2 * (records.idxOf target + 1) := by
  unfold waitingBound
  split <;> omega

theorem le_waitingBound
    (records : List RequestRecord)
    (bypassed : Option RequestRecord) :
    2 * records.idxOf target + 1 ≤
      waitingBound target records bypassed := by
  unfold waitingBound
  split <;> omega

/- Whatever becomes of the marker, one ahead that leaves pays. -/
theorem waiting_ahead
    {target record : RequestRecord}
    {before after : List RequestRecord}
    (hOther : record ≠ target)
    (hBehind : target ∉ before)
    (bypassed marker : Option RequestRecord) :
    waitingBound target (before ++ after) marker + 1 ≤
      waitingBound target (before ++ record :: after)
        bypassed := by
  have hLater :
      (before ++ record :: after).idxOf target =
        (before ++ after).idxOf target + 1 := by
    rw [List.idxOf_append_of_notMem hBehind,
      List.idxOf_append_of_notMem hBehind,
      List.idxOf_cons_ne after hOther]
    rfl
  have hNow := waitingBound_le target (before ++ after) marker
  have hThen :=
    le_waitingBound target (before ++ record :: after) bypassed
  omega

/- What comes behind a request does not delay it. -/
theorem waiting_front
    {target : RequestRecord}
    {before : List RequestRecord}
    (hFront : target ∈ before)
    (behind : List RequestRecord)
    (bypassed : Option RequestRecord) :
    waitingBound target (before ++ behind) bypassed =
      waitingBound target before bypassed := by
  unfold waitingBound headBypassed
  rw [List.idxOf_append_of_mem hFront]
  cases before with
  | nil => cases hFront
  | cons oldest later => rfl

variable {later : List RequestRecord}

/- The marker of a head that stays is not lost. -/
theorem headBypassed_kept
    {oldest : RequestRecord}
    {bypassed : Option RequestRecord} :
    headBypassed (oldest :: later)
        (if isBypassed oldest bypassed then
          bypassed
        else
          none) =
      headBypassed (oldest :: later) bypassed := by
  unfold headBypassed
  simp only [List.head?_cons, Option.any_some]
  by_cases hMarked : isBypassed oldest bypassed = true
  · rw [if_pos hMarked]
  · rw [if_neg hMarked]
    exact (Bool.eq_false_iff.mpr hMarked).symm

theorem waiting_kept
    {target oldest : RequestRecord}
    {bypassed : Option RequestRecord} :
    waitingBound target (oldest :: later)
        (if isBypassed oldest bypassed then
          bypassed
        else
          none) =
      waitingBound target (oldest :: later) bypassed := by
  unfold waitingBound
  rw [headBypassed_kept]

/- A take serves the request or brings it nearer. -/
theorem waiting_take
    {target : RequestRecord}
    (detached : Bool)
    (hQueued : target ∈ run.reads.records) :
    target ∈ (run.reads.take detached
          run.bypassedDiagnostic).1.toList ∨
      (target ∈ (run.take detached).reads.records ∧
        waitingBound target (run.take detached).reads.records
              (run.take detached).bypassedDiagnostic
            + (if detached then 0 else 1) ≤
          waitingBound target run.reads.records
            run.bypassedDiagnostic) := by
  unfold ReadsRun.take
  simp only
  rcases take_cases run.reads detached
      run.bypassedDiagnostic with
    ⟨_, hReads, hWhy, hMarker⟩ |
      ⟨record, before, after, hSome, hReads, hFrom⟩
  · right
    rw [hReads]
    refine ⟨hQueued, ?_⟩
    rcases hWhy with hEmpty | hDetached
    · rw [hEmpty] at hQueued
      cases hQueued
    · subst hDetached
      rw [hMarker]
      cases hRecords : run.reads.records with
      | nil =>
        rw [hRecords] at hQueued
        cases hQueued
      | cons oldest later =>
        exact Nat.le_of_eq waiting_kept
  · rw [hSome, hReads, PendingReads.release_records]
    by_cases hSame : record = target
    · subst hSame
      exact Or.inl (List.mem_singleton.mpr rfl)
    · right
      rw [hFrom.split] at hQueued
      have hRest : target ∈ before ++ after := by
        rcases List.mem_append.mp hQueued with hFront | hBack
        · exact List.mem_append_left _ hFront
        · rcases List.mem_cons.mp hBack with hHere | hAfter
          · exact absurd hHere.symm hSame
          · exact List.mem_append_right _ hAfter
      refine ⟨hRest, ?_⟩
      by_cases hFront : target ∈ before
      · rw [hFrom.split, waiting_front hFront,
          waiting_front hFront]
        cases detached with
        | true =>
          rcases hFrom.kept rfl with
            ⟨oldest, later, hPending, hMarker⟩
          rw [hMarker]
          cases before with
          | nil => cases hFront
          | cons first before =>
            rw [hFrom.split] at hPending
            injection hPending with hFirst hLater
            subst hFirst
            exact Nat.le_of_eq waiting_kept
        | false =>
          rcases hFrom.head rfl with
            ⟨hNil, _⟩ | ⟨oldest, rest, hBefore, hMarker, hFree⟩
          · rw [hNil] at hFront
            cases hFront
          · have hMarked :
                isBypassed oldest (some oldest) = true :=
              decide_eq_true rfl
            rw [hMarker, hBefore]
            unfold waitingBound headBypassed
            simp only [List.head?_cons, Option.any_some,
              hFree, hMarked, ↓reduceIte,
              Bool.false_eq_true]
            exact Nat.le_refl _
      · rw [hFrom.split]
        have hAhead :=
          @waiting_ahead _ _ _ after hSame hFront
            run.bypassedDiagnostic
            (run.reads.take detached run.bypassedDiagnostic).2.1
        cases detached with
        | true => exact Nat.le_of_succ_le hAhead
        | false => exact hAhead

theorem waiting_remove
    {target record : RequestRecord}
    (hQueued : target ∈ run.reads.records)
    (hOther : record ≠ target) :
    target ∈ (run.remove record).reads.records ∧
      waitingBound target (run.remove record).reads.records
          (run.remove record).bypassedDiagnostic ≤
        waitingBound target run.reads.records
          run.bypassedDiagnostic := by
  unfold ReadsRun.remove
  cases hRemove : run.reads.remove record with
  | none => exact ⟨hQueued, Nat.le_refl _⟩
  | some reads =>
    simp only
    rw [remove_records hRemove]
    have hMem : record ∈ run.reads.records :=
      (PendingReads.remove_perm hRemove).mem_iff.mp
        List.mem_cons_self
    rcases List.exists_erase_eq hMem with
      ⟨before, after, _, hSplit, hErased⟩
    refine
      ⟨(List.mem_erase_of_ne (Ne.symm hOther)).mpr hQueued, ?_⟩
    rw [hErased, hSplit]
    by_cases hFront : target ∈ before
    · exact
        Nat.le_of_eq
          ((waiting_front hFront _ _).trans
            (waiting_front hFront _ _).symm)
    · exact
        Nat.le_of_succ_le (waiting_ahead hOther hFront _ _)

theorem waiting_add
    {run : ReadsRun}
    {target : RequestRecord}
    {input : RootSemanticWorkerRequestInput}
    {stateGeneration : Nat}
    (hQueued : target ∈ run.reads.records) :
    target ∈
        (run.add protocol input
          stateGeneration).reads.records ∧
      waitingBound target
          (run.add protocol input
            stateGeneration).reads.records
          (run.add protocol input
            stateGeneration).bypassedDiagnostic =
        waitingBound target run.reads.records
          run.bypassedDiagnostic := by
  unfold ReadsRun.add
  simp only
  cases hAdd :
      run.reads.add protocol
        { promise := run.next
          input := input
          stateGeneration := stateGeneration } with
  | none => exact ⟨hQueued, rfl⟩
  | some reads =>
    simp only
    rw [PendingReads.add_records hAdd]
    exact
      ⟨List.mem_append_left _ hQueued, waiting_front hQueued _ _⟩

/- The takes of a run with no reference detached. -/
def attachedTakes : List ReadsOp → Nat
| [] => 0
| op :: ops =>
    (if op = .take false then 1 else 0) + attachedTakes ops

/- An operation that cancels a request. -/
def ReadsOp.cancels
    (op : ReadsOp) :
    Prop :=
  op = .remove target ∨ op = .drain

theorem taken_grows
    (run : ReadsRun)
    (op : ReadsOp) :
    ∃ later,
      (run.step protocol op).taken = run.taken ++ later := by
  cases op with
  | add input stateGeneration =>
    refine ⟨[], ?_⟩
    unfold ReadsRun.step ReadsRun.add
    simp only
    split <;> exact (List.append_nil _).symm
  | remove record =>
    refine ⟨[], ?_⟩
    unfold ReadsRun.step ReadsRun.remove
    simp only
    split <;> exact (List.append_nil _).symm
  | take detached => exact ⟨_, rfl⟩
  | drain => exact ⟨[], (List.append_nil _).symm⟩

theorem taken_grows_run
    (run : ReadsRun)
    (ops : List ReadsOp) :
    ∃ later,
      (run.steps protocol ops).taken =
        run.taken ++ later := by
  induction ops generalizing run with
  | nil => exact ⟨[], (List.append_nil _).symm⟩
  | cons op ops ih =>
    rcases ih (run.step protocol op) with ⟨more, hMore⟩
    rcases @taken_grows protocol run op with ⟨later, hLater⟩
    refine ⟨later ++ more, ?_⟩
    rw [← List.append_assoc, ← hLater]
    exact hMore

/-
  A queued request that nobody cancels is served, or it is
  nearer by every take.
-/
theorem waiting_run
    (run : ReadsRun)
    (ops : List ReadsOp)
    {target : RequestRecord}
    (hQueued : target ∈ run.reads.records)
    (hKept : ∀ op ∈ ops, ¬ op.cancels target) :
    (∃ later,
        (run.steps protocol ops).taken =
            run.taken ++ later ∧
          target ∈ later) ∨
      (target ∈ (run.steps protocol ops).reads.records ∧
        waitingBound target
              (run.steps protocol ops).reads.records
              (run.steps protocol ops).bypassedDiagnostic
            + attachedTakes ops ≤
          waitingBound target run.reads.records
            run.bypassedDiagnostic) := by
  induction ops generalizing run with
  | nil => exact Or.inr ⟨hQueued, Nat.le_refl _⟩
  | cons op ops ih =>
    rw [List.forall_mem_cons] at hKept
    have hStep :
        (∃ later,
            (run.step protocol op).taken =
                run.taken ++ later ∧
              target ∈ later) ∨
          (target ∈ (run.step protocol op).reads.records ∧
            waitingBound target
                  (run.step protocol op).reads.records
                  (run.step protocol op).bypassedDiagnostic
                + (if op = .take false then 1 else 0) ≤
              waitingBound target run.reads.records
                run.bypassedDiagnostic) := by
      cases op with
      | add input stateGeneration =>
        rcases @waiting_add protocol run target input
            stateGeneration hQueued with ⟨hStays, hSame⟩
        exact Or.inr ⟨hStays, Nat.le_of_eq hSame⟩
      | remove record =>
        have hOther : record ≠ target := fun hSame =>
          hKept.1 (Or.inl (congrArg ReadsOp.remove hSame))
        exact Or.inr (waiting_remove hQueued hOther)
      | take detached =>
        rcases waiting_take detached hQueued with
          hServed | ⟨hStays, hLess⟩
        · exact Or.inl ⟨_, rfl, hServed⟩
        · refine Or.inr ⟨hStays, ?_⟩
          cases detached with
          | true => exact hLess
          | false => exact hLess
      | drain => exact absurd (Or.inr rfl) hKept.1
    rcases hStep with
      ⟨later, hTaken, hServed⟩ | ⟨hStays, hLess⟩
    · rcases @taken_grows_run protocol
          (run.step protocol op) ops with ⟨more, hMore⟩
      refine
        Or.inl ⟨later ++ more, ?_, List.mem_append_left _ hServed⟩
      rw [← List.append_assoc, ← hTaken]
      exact hMore
    · rcases ih (run.step protocol op) hStays hKept.2 with
        ⟨more, hMore, hServed⟩ | ⟨hEnd, hBound⟩
      · rcases @taken_grows protocol run op with
          ⟨later, hLater⟩
        refine
          Or.inl
            ⟨later ++ more, ?_, List.mem_append_right _ hServed⟩
        rw [← List.append_assoc, ← hLater]
        exact hMore
      · refine Or.inr ⟨hEnd, ?_⟩
        unfold attachedTakes
        have hBoth := Nat.add_le_add_right hBound
          (if op = .take false then 1 else 0)
        refine Nat.le_trans ?_ hLess
        refine Nat.le_trans (Nat.le_of_eq ?_) hBoth
        rw [Nat.add_assoc, Nat.add_comm (attachedTakes ops)]
        rfl

----------
-- Bounded Overtaking
----------

theorem lane_ne_global
    (hPriority : 0 ≤ record.priority) :
    record.lane ≠ .global := by
  intro hLane
  unfold RequestRecord.lane at hLane
  unfold RequestRecord.priority at hPriority
  rw [hLane] at hPriority
  exact absurd hPriority (by decide)

theorem lane_ne_diagnostic
    (hPriority : 0 < record.priority) :
    record.lane ≠ .diagnostic := by
  intro hLane
  unfold RequestRecord.lane at hLane
  unfold RequestRecord.priority at hPriority
  rw [hLane] at hPriority
  exact absurd hPriority (by decide)

/-
  What holds of the queue at any time.  The requests of a
  class leave in the order of their arrival; without a
  detached reference no global is overtaken and a request
  with `k` ahead of it is served by the next `2 * (k + 1)`
  takes unless it is cancelled; with one, globals and
  diagnostics wait.  The accounts are those of the queue.
-/
structure BoundedOvertaking
    (protocol : WorkerProtocol)
    (run : ReadsRun) : Prop where
  arrivals : (run.arrived.map RequestRecord.promise).Nodup
  order :
    ∀ lane,
      ((run.taken ++ run.reads.records).filter
        (fun record => record.lane = lane)).Sublist
        run.arrived
  globals :
    ∀ record,
      (run.reads.take false run.bypassedDiagnostic).1 =
          some record →
        ∃ before after,
          run.reads.records = before ++ record :: after ∧
            ∀ other ∈ before, other.lane ≠ .global
  detached :
    ∀ record,
      (run.reads.take true run.bypassedDiagnostic).1 =
          some record →
        record.lane ≠ .global ∧ record.lane ≠ .diagnostic
  served :
    ∀ (ahead behind : List RequestRecord)
      (target : RequestRecord)
      (more : List ReadsOp),
      run.reads.records = ahead ++ target :: behind →
        (∀ op ∈ more, ¬ op.cancels target) →
        2 * (ahead.length + 1) ≤ attachedTakes more →
          ∃ later,
            (run.steps protocol more).taken =
                run.taken ++ later ∧
              target ∈ later
  sources :
    ∀ source,
      (run.reads.sources.lookup source).getD 0 =
        run.reads.records.countP
          fun record => record.input.uri = source
  bytes :
    run.reads.bytes =
      Tally.total
        (fun record => protocol.inputBytes record.input)
        run.reads.records
  fewSources : run.reads.sources.length ≤ 64
  fewBytes : run.reads.bytes ≤ PendingReads.maxInputBytes

theorem inOrder_empty : InOrder {} := by
  refine ⟨?_, List.nodup_nil, fun lane => List.nil_sublist []⟩
  intro record hRecord
  cases hRecord

theorem idxOf_split
    {ahead behind : List RequestRecord}
    {target : RequestRecord}
    (hDistinct :
      ((ahead ++ target :: behind).map
        RequestRecord.promise).Nodup) :
    (ahead ++ target :: behind).idxOf target =
      ahead.length := by
  have hNodup := List.Nodup.of_map _ hDistinct
  have hAhead : target ∉ ahead := fun hMem =>
    (List.disjoint_of_nodup_append hNodup) hMem List.mem_cons_self
  rw [List.idxOf_append_of_notMem hAhead,
    List.idxOf_cons_self, Nat.add_zero]

theorem overtaking_bounded
    (protocol : WorkerProtocol)
    (ops : List ReadsOp) :
    BoundedOvertaking protocol
      (ReadsRun.steps protocol {} ops) := by
  have hOrder : InOrder (ReadsRun.steps protocol {} ops) :=
    inOrder_run {} ops inOrder_empty
  have hAccounts :
      Accounts protocol
        (ReadsRun.steps protocol {} ops).reads :=
    accounts_run {} ops inOrder_empty accounts_empty
  generalize ReadsRun.steps protocol {} ops = run at *
  refine
    { arrivals := hOrder.distinct
      order := hOrder.order
      globals := ?_
      detached := ?_
      served := ?_
      sources := hAccounts.sources.getD
      bytes := hAccounts.bytes
      fewSources := hAccounts.fewSources
      fewBytes := hAccounts.fewBytes }
  · intro record hTaken
    rcases take_cases run.reads false
        run.bypassedDiagnostic with
      ⟨hNone, _⟩ |
        ⟨found, before, after, hSome, _, hFrom⟩
    · rw [hNone] at hTaken
      cases hTaken
    · rw [hSome] at hTaken
      injection hTaken with hSame
      subst hSame
      refine ⟨before, after, hFrom.split, ?_⟩
      intro other hOther
      exact lane_ne_global (hFrom.notGlobal rfl other hOther)
  · intro record hTaken
    rcases take_cases run.reads true
        run.bypassedDiagnostic with
      ⟨hNone, _⟩ |
        ⟨found, before, after, hSome, _, hFrom⟩
    · rw [hNone] at hTaken
      cases hTaken
    · rw [hSome] at hTaken
      injection hTaken with hSame
      subst hSame
      have hHigh := hFrom.interactive rfl
      exact
        ⟨lane_ne_global (Int.le_of_lt hHigh),
          lane_ne_diagnostic hHigh⟩
  · intro ahead behind target more hSplit hKept hTakes
    have hQueued : target ∈ run.reads.records := by
      rw [hSplit]
      exact List.mem_append_right _ List.mem_cons_self
    have hIndex :
        run.reads.records.idxOf target = ahead.length := by
      have hDistinct := hAccounts.distinct
      rw [hSplit] at hDistinct ⊢
      exact idxOf_split hDistinct
    rcases @waiting_run protocol run more target hQueued
        hKept with
      hServed | ⟨_, hBound⟩
    · exact hServed
    · have hStart :=
        waitingBound_le target run.reads.records
          run.bypassedDiagnostic
      have hEnd :=
        le_waitingBound target
          (run.steps protocol more).reads.records
          (run.steps protocol more).bypassedDiagnostic
      rw [hIndex] at hStart
      omega

end Semantic

end ArktsServer
