import Mathlib
import ArktsServer.Lib.Transition

/-
  The streaming producer of a catalog build: jobs go round
  the slots of the workers, over channels for one job and
  one output, and the outputs are collected in the same
  round.  What is collected besides the counters is left out.

  Key definitions include:
    * `parse`, `workerStep`
    * `Producer`, `Producer.step`
    * `Producer.Moves`, `Producer.weight`

  Correctness is proven by:
    * `stream_ordered`
    * `stream_bounded`, `stream_progresses`
-/

----------
-- Workers
----------

namespace ArktsServer

namespace Stream

open Transition

variable {Document : Type}

/- `expected` tells if a stamp of the source is expected. -/
structure Job where
  uri : String
  expected : Bool

inductive Outcome (Document : Type) where
| parsed (document : Document)
| rejected
| skipped
| changed

structure Output (Document : Type) where
  uri : String
  outcome : Outcome Document

/- What a parser finds at the path of its job. -/
inductive Reading (Document : Type) where
| unreadable
| tooLarge
| policySkipped
| text (same : Bool) (document : Option Document)

def parse
    (job : Job)
    (reading : Reading Document) : Output Document where
  uri := job.uri
  outcome :=
    match reading with
    | .unreadable =>
        if job.expected then .changed else .rejected
    | .tooLarge | .policySkipped =>
        if job.expected then .changed else .skipped
    | .text same document =>
        if job.expected && !same then
          .changed
        else
          match document with
          | some document => .parsed document
          | none => .rejected

inductive Worker (Document : Type) where
| waiting
| holding (job : Job)
| sending (output : Output Document)
| stopped
| panicked

def Worker.isGone : Worker Document → Bool
| .stopped | .panicked => true
| _ => false

/- The two channels of a worker hold one message each. -/
structure Slot (Document : Type) where
  jobs : Option Job
  worker : Worker Document
  result : Option (Output Document)

inductive Action (Document : Type) where
| take
| stop
| panic
| parse (reading : Reading Document)
| send

/-
  A worker that holds a job may stop: the build is cancelled
  or a gate of the tests does not open.  No step is a worker
  that blocks.
-/
def workerStep
    (isOpen : Bool)
    (slot : Slot Document)
    (action : Action Document) : Option (Slot Document) :=
  match action, slot.worker with
  | .take, .waiting =>
      match slot.jobs with
      | some job =>
          some { slot with jobs := none, worker := .holding job }
      | none =>
          if isOpen then none
          else some { slot with worker := .stopped }
  | .stop, .holding _ => some { slot with worker := .stopped }
  | .panic, .holding _ => some { slot with worker := .panicked }
  | .parse reading, .holding job =>
      some { slot with worker := .sending (parse job reading) }
  | .send, .sending output =>
      if isOpen then
        if slot.result.isSome then none
        else
          some
            { slot with
              result := some output, worker := .waiting }
      else
        some { slot with worker := .stopped }
  | _, _ => none

----------
-- Producer
----------

inductive Item (Document : Type) where
| document (document : Document)
| rejected (uri : String)
| complete
| error (message : String)

def Output.item (output : Output Document) :
    Option (Item Document) :=
  match output.outcome with
  | .parsed document => some (.document document)
  | .rejected => some (.rejected output.uri)
  | .skipped | .changed => none

/-
  `isOpen` tells that the ends of the channels are not
  dropped, `began` that the activation has begun; `received`
  are the outputs so far and `items` what was yielded.
-/
structure Producer (Document : Type) where
  pending : List Job
  slots : List (Slot Document)
  remaining : Nat
  ordinal : Nat
  finished : Bool
  isOpen : Bool
  cancelled : Bool
  began : Bool
  indexed : Nat
  rejected : Nat
  policySkipped : Nat
  received : List (Output Document)
  items : List (Item Document)

namespace Producer

/- Every worker that is spawned gets a job. -/
def new
    (workers : Nat)
    (manifest : List Job) : Producer Document where
  pending := manifest.drop workers
  slots :=
    (manifest.take workers).map fun job =>
      ⟨some job, .waiting, none⟩
  remaining := manifest.length
  ordinal := 0
  finished := false
  isOpen := true
  cancelled := false
  began := false
  indexed := 0
  rejected := 0
  policySkipped := 0
  received := []
  items := []

variable (state : Producer Document)

def fail (message : String) : Producer Document :=
  { state with
    finished := true
    items := state.items ++ [.error message] }

/- A send to a worker that is gone fails. -/
def dispatch (index : Nat) : Option (Producer Document) :=
  match state.pending, state.slots[index]? with
  | [], _ => some state
  | _, none => none
  | job :: pending, some slot =>
      if slot.worker.isGone then
        none
      else
        some
          { state with
            pending
            slots :=
              state.slots.set index
                { slot with jobs := some job } }

def record (output : Output Document) : Producer Document :=
  let told :=
    { state with items := state.items ++ output.item.toList }
  match output.outcome with
  | .parsed _ => { told with indexed := state.indexed + 1 }
  | .rejected => { told with rejected := state.rejected + 1 }
  | .skipped =>
      { told with policySkipped := state.policySkipped + 1 }
  | .changed =>
      told.fail <|
        "workspace source changed between hash scan and " ++
          "parsing; rebuild required"

/- An output is taken out of the channel of its slot. -/
def collect
    (index : Nat)
    (slot : Slot Document)
    (output : Output Document) : Producer Document :=
  { state with
    slots := state.slots.set index { slot with result := none }
    ordinal := state.ordinal + 1
    remaining := state.remaining - 1
    received := state.received ++ [output] }

def receive : Option (Producer Document) := do
  let index := state.ordinal % state.slots.length
  let slot ← state.slots[index]?
  let output ← slot.result
  let taken := state.collect index slot output
  if state.cancelled then
    some (taken.record output)
  else
    match taken.dispatch index with
    | some next => some (next.record output)
    | none =>
        some
          (taken.fail
            "catalog parser stopped before accepting work")

/- `begin_activation`, with the answer of its test gate. -/
def activate (gate : Except String Bool) : Producer Document :=
  let cancelled := "catalog stream cancelled before activation"
  if state.cancelled then
    state.fail cancelled
  else
    match gate with
    | .error message => state.fail message
    | .ok false => state.fail cancelled
    | .ok true =>
        { state with
          began := true
          finished := true
          items := state.items ++ [.complete] }

inductive Event (Document : Type) where
| cancel
| worker (index : Nat) (action : Action Document)
| receive
| observeCancel
| observeGone
| close
| joined (gate : Except String Bool)
| drop

def isRunning : Bool :=
  state.isOpen && !state.finished

/- A step of a worker, the producer or another thread. -/
def step : Event Document → Option (Producer Document)
| .cancel => some { state with cancelled := true }
| .worker index action => do
    let slot ← state.slots[index]?
    let next ← workerStep state.isOpen slot action
    some { state with slots := state.slots.set index next }
| .receive =>
    if state.isRunning ∧ state.remaining ≠ 0 then
      state.receive
    else
      none
| .observeCancel =>
    if state.isRunning ∧ state.remaining ≠ 0 ∧
        state.cancelled then
      some (state.fail "catalog stream cancelled")
    else
      none
| .observeGone =>
    if state.isRunning ∧ state.remaining ≠ 0 ∧
        (state.slots[state.ordinal % state.slots.length]?).any
          (fun slot => slot.worker.isGone && slot.result.isNone)
    then
      some
        (state.fail
          "catalog parser disconnected before completion")
    else
      none
| .close =>
    if state.isRunning ∧ state.remaining = 0 then
      some { state with isOpen := false }
    else
      none
| .joined gate =>
    if state.finished = false ∧ state.isOpen = false ∧
        state.slots.all (·.worker.isGone) then
      if state.slots.any (fun slot =>
          slot.worker matches .panicked) then
        some (state.fail "catalog parser panicked")
      else
        some (state.activate gate)
    else
      none
| .drop => some { state with isOpen := false, finished := true }

def Next (state next : Producer Document) : Prop :=
  ∃ event, state.step event = some next

----------
-- Moves
----------

/- The slot whose turn it is has an output. -/
def Takes
    (slot : Slot Document)
    (output : Output Document) : Prop :=
  state.isRunning = true ∧ state.remaining ≠ 0 ∧
    state.slots[state.ordinal % state.slots.length]?
        = some slot ∧
      slot.result = some output

/- The output is taken, and the slot may have a new job. -/
def taken
    (slot : Slot Document)
    (output : Output Document)
    (jobs : Option Job)
    (pending : List Job) : Producer Document :=
  { state with
    pending
    slots :=
      state.slots.set (state.ordinal % state.slots.length)
        { slot with jobs, result := none }
    ordinal := state.ordinal + 1
    remaining := state.remaining - 1
    received := state.received ++ [output] }

/- The job that a slot has after its output was taken. -/
inductive Hands
    (slot : Slot Document) : Option Job → List Job → Prop
| none
    (hNone : state.cancelled = true ∨ state.pending = []) :
    Hands slot slot.jobs state.pending
| next
    {job : Job}
    {pending : List Job}
    (hLive : state.cancelled = false)
    (hPending : state.pending = job :: pending)
    (hHere : slot.worker.isGone = false) :
    Hands slot (some job) pending

/- What a step can do. -/
inductive Moves :
    Event Document → Producer Document → Prop
| cancel : Moves .cancel { state with cancelled := true }
| work
    {index : Nat}
    {action : Action Document}
    {slot moved : Slot Document}
    (hSlot : state.slots[index]? = some slot)
    (hMoved : workerStep state.isOpen slot action = some moved) :
    Moves (.worker index action)
      { state with slots := state.slots.set index moved }
| receive
    {slot : Slot Document}
    {output : Output Document}
    {jobs : Option Job}
    {pending : List Job}
    (hTakes : state.Takes slot output)
    (hHands : state.Hands slot jobs pending) :
    Moves .receive
      ((state.taken slot output jobs pending).record output)
| refuse
    {slot : Slot Document}
    {output : Output Document}
    (message : String)
    (hTakes : state.Takes slot output)
    (hGone : slot.worker.isGone = true) :
    Moves .receive
      ((state.taken slot output slot.jobs state.pending).fail
        message)
| fail
    (event : Event Document)
    (message : String)
    (hFinished : state.finished = false) :
    Moves event (state.fail message)
| close
    (hRunning : state.isRunning = true)
    (hNone : state.remaining = 0) :
    Moves .close { state with isOpen := false }
| complete
    (gate : Except String Bool)
    (hLive : state.cancelled = false)
    (hFinished : state.finished = false)
    (hClosed : state.isOpen = false)
    (hStopped : ∀ slot ∈ state.slots, slot.worker = .stopped) :
    Moves (.joined gate)
      { state with
        began := true
        finished := true
        items := state.items ++ [.complete] }
| drop :
    Moves .drop { state with isOpen := false, finished := true }

variable {state}
variable {next : Producer Document}

theorem receive_moves
    (hRunning : state.isRunning = true)
    (hMore : state.remaining ≠ 0)
    (hReceive : state.receive = some next) :
    state.Moves .receive next := by
  unfold Producer.receive at hReceive
  simp only [Option.bind_eq_bind, Option.bind_eq_some_iff]
    at hReceive
  rcases hReceive with ⟨slot, hSlot, output, hOutput, hNext⟩
  have hTakes : state.Takes slot output :=
    ⟨hRunning, hMore, hSlot, hOutput⟩
  have hIndex := (List.getElem?_eq_some_iff.mp hSlot).1
  split at hNext
  · rename_i hCancelled
    cases hNext
    exact .receive hTakes (.none (.inl hCancelled))
  · rename_i hLive
    rw [Bool.not_eq_true] at hLive
    unfold dispatch collect at hNext
    simp only [List.getElem?_set_self hIndex, List.set_set]
      at hNext
    cases hRest : state.pending with
    | nil =>
      rw [hRest] at hNext
      cases hNext
      exact hRest ▸ .receive hTakes (.none (.inr hRest))
    | cons job pending =>
      rw [hRest] at hNext
      cases hGone : slot.worker.isGone with
      | true =>
        simp only [hGone, if_true] at hNext
        cases hNext
        exact hRest ▸ .refuse _ hTakes hGone
      | false =>
        simp only [hGone, Bool.false_eq_true, if_false] at hNext
        cases hNext
        exact .receive hTakes (.next hLive hRest hGone)

theorem step_moves
    {event : Event Document}
    (hStep : state.step event = some next) :
    state.Moves event next := by
  have hRunning :
      state.isRunning = true → state.finished = false := by
    unfold isRunning
    simp
  cases event with
  | cancel | drop =>
    cases hStep
    constructor
  | worker index action =>
    simp only [step, Option.bind_eq_bind,
      Option.bind_eq_some_iff] at hStep
    rcases hStep with ⟨slot, hSlot, moved, hMoved, hNext⟩
    cases hNext
    exact .work hSlot hMoved
  | receive =>
    simp only [step, Option.ite_none_right_eq_some] at hStep
    exact receive_moves hStep.1.1 hStep.1.2 hStep.2
  | observeCancel | observeGone =>
    simp only [step, Option.ite_none_right_eq_some] at hStep
    rcases hStep with ⟨hGuard, hNext⟩
    cases hNext
    exact .fail _ _ (hRunning hGuard.1)
  | close =>
    simp only [step, Option.ite_none_right_eq_some] at hStep
    rcases hStep with ⟨hGuard, hNext⟩
    cases hNext
    exact .close hGuard.1 hGuard.2
  | joined gate =>
    simp only [step, Option.ite_none_right_eq_some] at hStep
    rcases hStep with ⟨⟨hFinished, hClosed, hGone⟩, hNext⟩
    unfold activate at hNext
    split at hNext
    · cases hNext
      exact .fail _ _ hFinished
    · rename_i hCalm
      split at hNext
      · cases hNext
        exact .fail _ _ hFinished
      · rename_i hLive
        split at hNext <;> cases hNext
        · exact .fail _ _ hFinished
        · exact .fail _ _ hFinished
        · refine
            .complete _ (Bool.not_eq_true _ |>.mp hLive)
              hFinished hClosed ?_
          intro slot hSlot
          have hOver := List.all_eq_true.mp hGone slot hSlot
          cases hWorker : slot.worker
          case stopped => rfl
          case panicked =>
            refine absurd (List.any_eq_true.mpr ?_) hCalm
            exact ⟨slot, hSlot, by simp [hWorker]⟩
          all_goals simp [hWorker, Worker.isGone] at hOver

/- A record is told and counted. -/
theorem record_frame
    (state : Producer Document)
    (output : Output Document) :
    ∃ finished items indexed rejected policySkipped,
      state.record output =
        { state with
          finished, items, indexed, rejected, policySkipped } := by
  unfold record
  cases output.outcome <;> exact ⟨_, _, _, _, _, rfl⟩

----------
-- Slots
----------

end Producer

namespace Slot

variable {slot next : Slot Document}
variable {action : Action Document}
variable {job : Job}

/- Nothing is on its way through the slot. -/
inductive IsIdle : Slot Document → Prop
| waiting : IsIdle ⟨none, .waiting, none⟩
| gone
    (worker : Worker Document)
    (hGone : worker.isGone = true) :
    IsIdle ⟨none, worker, none⟩

/- One job is on its way, or its worker has lost it. -/
inductive Carries (job : Job) : Slot Document → Prop
| queued : Carries job ⟨some job, .waiting, none⟩
| held : Carries job ⟨none, .holding job, none⟩
| read
    (reading : Reading Document) :
    Carries job ⟨none, .sending (parse job reading), none⟩
| done
    (reading : Reading Document) :
    Carries job ⟨none, .waiting, some (parse job reading)⟩
| lost
    (worker : Worker Document)
    (hGone : worker.isGone = true) :
    Carries job ⟨none, worker, none⟩

variable {isOpen : Bool}

/- A worker that is gone takes no step. -/
theorem step_of_gone
    (hGone : slot.worker.isGone = true) :
    workerStep isOpen slot action = none := by
  rcases slot with ⟨jobs, worker, result⟩
  cases worker <;> cases action <;> first | rfl | cases hGone

theorem IsIdle.step
    (hIdle : slot.IsIdle) :
    workerStep true slot action = none := by
  cases hIdle with
  | waiting => cases action <;> rfl
  | gone worker hGone => exact step_of_gone hGone

theorem Carries.step
    (hCarries : slot.Carries job)
    (hStep : workerStep true slot action = some next) :
    next.Carries job := by
  cases hCarries with
  | queued =>
    cases action <;> cases hStep
    exact .held
  | held =>
    cases action <;> cases hStep
    · exact .lost _ rfl
    · exact .lost _ rfl
    · exact .read _
  | read reading =>
    cases action <;> cases hStep
    exact .done reading
  | done reading => cases action <;> cases hStep
  | lost worker hGone =>
    rw [step_of_gone hGone] at hStep
    cases hStep

/- The steps that are left for what is in a slot. -/
def weight (slot : Slot Document) : Nat :=
  (if slot.jobs.isSome then 4 else 0) +
    (match slot.worker with
      | .waiting => 1
      | .holding _ => 4
      | .sending _ => 3
      | .stopped | .panicked => 0) +
    if slot.result.isSome then 1 else 0

/- Without a producer, no worker blocks. -/
theorem step_without_producer
    (hHere : slot.worker.isGone = false) :
    ∃ action next,
      workerStep false slot action = some next := by
  rcases slot with ⟨jobs, worker, result⟩
  cases worker with
  | waiting => cases jobs <;> exact ⟨.take, _, rfl⟩
  | holding job => exact ⟨.stop, _, rfl⟩
  | sending output => exact ⟨.send, _, rfl⟩
  | stopped => cases hHere
  | panicked => cases hHere

theorem weight_decreases
    (hStep : workerStep isOpen slot action = some next) :
    next.weight < slot.weight := by
  rcases slot with ⟨jobs, worker, result⟩
  cases worker <;> cases action <;> cases jobs <;>
    cases isOpen <;> cases result <;> cases hStep <;>
    simp [weight]

end Slot

----------
-- Lockstep
----------

/-
  The first jobs are dispatched, in their order; each slot
  has at most the one whose turn is next there.
-/
structure Lockstep
    (manifest pending : List Job)
    (slots : List (Slot Document))
    (ordinal : Nat)
    (cancelled : Bool)
    (dispatched : Nat) : Prop where
  pending : pending = manifest.drop dispatched
  bounded : dispatched ≤ ordinal + slots.length
  full :
    cancelled = false →
      manifest.length ≤ dispatched ∨
        dispatched = ordinal + slots.length
  carried :
    ∀ index slot, ordinal ≤ index →
      index < ordinal + slots.length →
      slots[index % slots.length]? = some slot →
        (∀ job, index < dispatched →
            manifest[index]? = some job → slot.Carries job) ∧
          (dispatched ≤ index → slot.IsIdle)

section Lockstep

variable {manifest pending : List Job}
variable {slots : List (Slot Document)}
variable {ordinal dispatched index : Nat}
variable {cancelled : Bool}
variable {slot next : Slot Document}

/- Slots in one round are different. -/
theorem mod_ne
    {first second size : Nat}
    (hLt : first < second)
    (hNear : second < first + size) :
    second % size ≠ first % size := by
  intro hSame
  have hDvd : size ∣ second - first :=
    Nat.dvd_of_mod_eq_zero (Nat.sub_mod_eq_zero_of_mod_eq hSame)
  have hLe := Nat.le_of_dvd (by omega) hDvd
  omega

theorem Lockstep.worker
    (hLock :
      Lockstep manifest pending slots ordinal cancelled
        dispatched)
    {action : Action Document}
    (hSlot : slots[index]? = some slot)
    (hStep : workerStep true slot action = some next) :
    Lockstep manifest pending (slots.set index next) ordinal
      cancelled dispatched := by
  have hIndex := (List.getElem?_eq_some_iff.mp hSlot).1
  refine ⟨hLock.pending, ?_, ?_, ?_⟩
  · simpa using hLock.bounded
  · simpa using hLock.full
  · intro place found hFrom hTo hFound
    rw [List.length_set] at hTo hFound
    rw [List.getElem?_set] at hFound
    split at hFound
    · rename_i hSame
      cases hFound
      have hOld :=
        hLock.carried place slot hFrom hTo (hSame ▸ hSlot)
      refine ⟨?_, ?_⟩
      · intro job hLt hJob
        exact (hOld.1 job hLt hJob).step hStep
      · intro hLe
        rw [(hOld.2 hLe).step] at hStep
        cases hStep
    · exact hLock.carried place found hFrom hTo hFound

/-
  The output that is received is the one of the next job;
  its worker waits, with nothing in its channels.
-/
theorem Lockstep.output
    (hLock :
      Lockstep manifest pending slots ordinal cancelled
        dispatched)
    {output : Output Document}
    (hSlot : slots[ordinal % slots.length]? = some slot)
    (hOutput : slot.result = some output)
    (hMore : ordinal < manifest.length) :
    slot.jobs = none ∧ slot.worker = .waiting ∧
      (manifest[ordinal]?).map Job.uri = some output.uri := by
  have hSlots : 0 < slots.length :=
    Nat.zero_lt_of_lt (List.getElem?_eq_some_iff.mp hSlot).1
  have hJob := List.getElem?_eq_getElem hMore
  rcases hLock.carried ordinal slot (Nat.le_refl _) (by omega)
      hSlot with ⟨hCarries, hIdle⟩
  rcases Nat.lt_or_ge ordinal dispatched with hLt | hLe
  · rw [hJob]
    cases hCarries _ hLt hJob with
    | done reading =>
      cases hOutput
      exact ⟨rfl, rfl, rfl⟩
    | queued => cases hOutput
    | held => cases hOutput
    | read => cases hOutput
    | lost => cases hOutput
  · cases hIdle hLe <;> cases hOutput

/- The slot of the output becomes the last of the round. -/
theorem Lockstep.received
    (hLock :
      Lockstep manifest pending slots ordinal cancelled
        dispatched)
    (hSlots : 0 < slots.length)
    {later : Nat}
    {rest : List Job}
    (hRest : rest = manifest.drop later)
    (hLater : later = dispatched ∨
      later = ordinal + slots.length + 1 ∧
        dispatched = ordinal + slots.length)
    (hFull :
      cancelled = false →
        manifest.length ≤ later ∨
          later = ordinal + slots.length + 1)
    (hCarries :
      ∀ job, ordinal + slots.length < later →
        manifest[ordinal + slots.length]? = some job →
          next.Carries job)
    (hIdle :
      later ≤ ordinal + slots.length → next.IsIdle) :
    Lockstep manifest rest
      (slots.set (ordinal % slots.length) next) (ordinal + 1)
      cancelled later := by
  have hBounded := hLock.bounded
  refine ⟨hRest, ?_, ?_, ?_⟩
  · rw [List.length_set]
    omega
  · rw [List.length_set]
    intro hNot
    have hDone := hFull hNot
    omega
  · intro place found hFrom hTo hFound
    rw [List.length_set] at hTo hFound
    rw [List.getElem?_set] at hFound
    rcases Nat.lt_or_ge place (ordinal + slots.length) with
      hOld | hNew
    · rw [if_neg (mod_ne hFrom hOld).symm] at hFound
      have hKept :=
        hLock.carried place found (by omega) hOld hFound
      refine ⟨?_, ?_⟩
      · intro job hLt
        exact hKept.1 job (by omega)
      · intro hLe
        exact hKept.2 (by omega)
    · have hPlace : place = ordinal + slots.length := by
        omega
      subst hPlace
      rw [Nat.add_mod_right, if_pos rfl,
        if_pos (Nat.mod_lt _ hSlots)] at hFound
      cases hFound
      exact ⟨hCarries, hIdle⟩

end Lockstep

----------
-- Yielded Items
----------

namespace Producer

variable {manifest : List Job}
variable {state next : Producer Document}
variable {output : Output Document}

/- Whether no source has changed so far. -/
def Clean (state : Producer Document) : Prop :=
  ∀ output ∈ state.received, output.outcome ≠ .changed

/- What is yielded, until an error or the completion. -/
inductive Shape (state : Producer Document) : Prop
| going
    (hItems :
      state.items = state.received.filterMap Output.item)
    (hClean : state.Clean)
| failed
    (message : String)
    (hFinished : state.finished = true)
    (hItems :
      state.items =
        state.received.filterMap Output.item
          ++ [.error message])
| completed
    (hFinished : state.finished = true)
    (hItems :
      state.items =
        state.received.filterMap Output.item ++ [.complete])
    (hClean : state.Clean)
    (hRemaining : state.remaining = 0)
    (hBegan : state.began = true)
    (hStopped : ∀ slot ∈ state.slots, slot.worker = .stopped)

/- The counters count the outputs received. -/
structure Counts (state : Producer Document) : Prop where
  indexed :
    state.indexed =
      state.received.countP fun output =>
        output.outcome matches .parsed _
  rejected :
    state.rejected =
      state.received.countP fun output =>
        output.outcome matches .rejected
  policySkipped :
    state.policySkipped =
      state.received.countP fun output =>
        output.outcome matches .skipped

structure Inv
    (manifest : List Job)
    (state : Producer Document) : Prop where
  total : state.ordinal + state.remaining = manifest.length
  ordered :
    state.received.map Output.uri =
      (manifest.take state.ordinal).map Job.uri
  counts : state.Counts
  shape : state.Shape
  closed :
    state.isOpen = false → state.finished = false →
      state.remaining = 0
  lockstep :
    state.isOpen = true → state.finished = false →
      ∃ dispatched,
        Lockstep manifest state.pending state.slots
          state.ordinal state.cancelled dispatched

theorem Shape.of_running
    (hShape : state.Shape)
    (hFinished : state.finished = false) :
    state.items = state.received.filterMap Output.item ∧
      state.Clean := by
  cases hShape with
  | going hItems hClean => exact ⟨hItems, hClean⟩
  | failed _ hDone => cases hFinished.symm.trans hDone
  | completed hDone => cases hFinished.symm.trans hDone

/- A step that tells nothing keeps what was told. -/
theorem Shape.kept
    (hShape : state.Shape)
    (hItems : next.items = state.items)
    (hReceived : next.received = state.received)
    (hFinished :
      state.finished = true →
        next.finished = true ∧
          next.remaining = state.remaining ∧
          next.began = state.began ∧
          ((∀ slot ∈ state.slots, slot.worker = .stopped) →
            ∀ slot ∈ next.slots, slot.worker = .stopped)) :
    next.Shape := by
  have hClean : state.Clean → next.Clean := by
    unfold Clean
    rw [hReceived]
    exact id
  cases hShape with
  | going hOld hAll =>
    exact .going (hItems.trans (hReceived ▸ hOld)) (hClean hAll)
  | failed message hDone hOld =>
    exact
      .failed message (hFinished hDone).1
        (hItems.trans (hReceived ▸ hOld))
  | completed hDone hOld hAll hNone hBegan hStopped =>
    rcases hFinished hDone with ⟨hDone, hSame, hKept, hSlots⟩
    exact
      .completed hDone (hItems.trans (hReceived ▸ hOld))
        (hClean hAll) (hSame.trans hNone)
        (hKept.trans hBegan) (hSlots hStopped)

theorem Inv.fail
    (hInv : state.Inv manifest)
    (hFinished : state.finished = false)
    (message : String) :
    (state.fail message).Inv manifest :=
  { hInv with
    counts := { hInv.counts with }
    shape :=
      .failed message rfl <| by
        change state.items ++ _ = _
        rw [(hInv.shape.of_running hFinished).1]
        rfl
    closed := fun _ hNot => by cases hNot
    lockstep := fun _ hNot => by cases hNot }

/- An output that was just received is told. -/
theorem record_told
    {rest : List (Output Document)}
    (hReceived : state.received = rest ++ [output])
    (hItems : state.items = rest.filterMap Output.item)
    (hClean : ∀ output ∈ rest, output.outcome ≠ .changed)
    (hCounts : Counts { state with received := rest }) :
    (state.record output).Shape ∧
      (state.record output).Counts := by
  rcases hCounts with ⟨hIndexed, hRejected, hSkipped⟩
  have hTold :
      state.items ++ output.item.toList =
        state.received.filterMap Output.item := by
    rw [hReceived, hItems, List.filterMap_append]
    cases hItem : output.item <;> simp [hItem]
  have hAll :
      output.outcome ≠ .changed → state.Clean := by
    intro hNot other hOther
    rw [hReceived] at hOther
    rcases List.mem_append.mp hOther with hOld | hNew
    · exact hClean other hOld
    · exact List.mem_singleton.mp hNew ▸ hNot
  simp only at hIndexed hRejected hSkipped
  unfold record
  cases hOutcome : output.outcome <;> refine ⟨?_, ⟨?_, ?_, ?_⟩⟩
  all_goals
    first
    | exact .going hTold (hAll (by rw [hOutcome]; simp))
    | exact .failed _ rfl (congrArg (· ++ _) hTold)
    | simp [fail, hReceived, hOutcome, hIndexed, hRejected,
        hSkipped]

theorem Inv.new
    (workers : Nat)
    (manifest : List Job) :
    (Producer.new workers manifest : Producer Document).Inv
      manifest where
  total := Nat.zero_add _
  ordered := rfl
  counts := ⟨rfl, rfl, rfl⟩
  shape := .going rfl fun _ hOutput => by cases hOutput
  closed := fun hNot => by cases hNot
  lockstep := by
    intro _ _
    have hLength :
        (Producer.new workers manifest : Producer Document).slots.length
          = min workers manifest.length := by
      simp [Producer.new]
    refine ⟨min workers manifest.length, ?_, ?_, ?_, ?_⟩
    · change manifest.drop workers = _
      rcases Nat.le_total workers manifest.length with
        hLe | hLe
      · rw [Nat.min_eq_left hLe]
      · rw [Nat.min_eq_right hLe, List.drop_length,
          List.drop_eq_nil_of_le hLe]
    · rw [hLength]
      omega
    · intro _
      rw [hLength]
      exact .inr (Nat.zero_add _).symm
    · intro index slot _ hTo hSlot
      rw [hLength] at hTo hSlot
      change index < 0 + _ at hTo
      rw [Nat.mod_eq_of_lt (by omega)] at hSlot
      simp only [Producer.new, List.getElem?_map,
        List.getElem?_take] at hSlot
      rw [if_pos (by omega), Option.map_eq_some_iff] at hSlot
      rcases hSlot with ⟨found, hFound, rfl⟩
      refine ⟨?_, fun hLe => by omega⟩
      intro job _ hJob
      cases hFound.symm.trans hJob
      exact .queued

variable {slot : Slot Document}

/- A received output is recorded, and a round goes on. -/
theorem Inv.recorded
    (hInv : state.Inv manifest)
    {jobs : Option Job}
    {pending : List Job}
    (hTakes : state.Takes slot output)
    (hUri :
      (manifest[state.ordinal]?).map Job.uri
        = some output.uri)
    (hLock :
      ∃ dispatched,
        Lockstep manifest pending
          (state.taken slot output jobs pending).slots
          (state.ordinal + 1) state.cancelled dispatched) :
    ((state.taken slot output jobs pending).record output).Inv
      manifest := by
  rcases hTakes with ⟨hRunning, hMore, _, _⟩
  rw [isRunning, Bool.and_eq_true, Bool.not_eq_true'] at hRunning
  have hTotal := hInv.total
  rcases hInv.shape.of_running hRunning.2 with
    ⟨hItems, hClean⟩
  rcases
      @record_told _ (state.taken slot output jobs pending)
        output state.received rfl hItems hClean
        { hInv.counts with }
    with ⟨hShape, hCounts⟩
  rcases record_frame (state.taken slot output jobs pending)
      output with
    ⟨finished, items, indexed, rejected, skipped, hFrame⟩
  rw [hFrame] at hShape hCounts ⊢
  refine
    ⟨?_, ?_, hCounts, hShape, fun hNot => ?_, fun _ _ => hLock⟩
  · simp only [taken]
    omega
  · rw [Option.map_eq_some_iff] at hUri
    rcases hUri with ⟨job, hJob, hSame⟩
    simp only [taken, List.map_append, hInv.ordered,
      List.take_add_one, hJob, Option.toList_some,
      List.map_cons, List.map_nil, hSame]
  · cases hNot.symm.trans hRunning.1

/- The lockstep, and the slot whose output is taken. -/
theorem Inv.takes
    (hInv : state.Inv manifest)
    (hTakes : state.Takes slot output) :
    ∃ dispatched,
      Lockstep manifest state.pending state.slots
          state.ordinal state.cancelled dispatched ∧
        0 < state.slots.length ∧
        slot.jobs = none ∧ slot.worker = .waiting ∧
        (manifest[state.ordinal]?).map Job.uri
          = some output.uri := by
  rcases hTakes with ⟨hRunning, hMore, hSlot, hOutput⟩
  rw [isRunning, Bool.and_eq_true, Bool.not_eq_true'] at hRunning
  have hTotal := hInv.total
  rcases hInv.lockstep hRunning.1 hRunning.2 with
    ⟨dispatched, hLock⟩
  exact
    ⟨dispatched, hLock,
      Nat.zero_lt_of_lt (List.getElem?_eq_some_iff.mp hSlot).1,
      hLock.output hSlot hOutput (by omega)⟩

theorem Inv.receive
    (hInv : state.Inv manifest)
    {jobs : Option Job}
    {pending : List Job}
    (hTakes : state.Takes slot output)
    (hHands : state.Hands slot jobs pending) :
    ((state.taken slot output jobs pending).record output).Inv
      manifest := by
  rcases hInv.takes hTakes with
    ⟨dispatched, hLock, hSlots, hJobs, hWaiting, hUri⟩
  have hBounded := hLock.bounded
  have hPending := hLock.pending
  refine hInv.recorded hTakes hUri ?_
  unfold taken
  rw [hWaiting]
  cases hHands with
  | none hNone =>
    rw [hJobs]
    refine
      ⟨dispatched,
        hLock.received hSlots hPending (.inl rfl) ?_
          (fun _ hLt => by omega) fun _ => .waiting⟩
    intro hLive
    rcases hNone with hCancelled | hNil
    · cases hCancelled.symm.trans hLive
    · exact
        .inl (List.drop_eq_nil_iff.mp (hPending.symm.trans hNil))
  | @next job _ hLive hRest =>
    rw [hRest] at hPending
    have hShort : dispatched < manifest.length := by
      by_contra hLong
      rw [List.drop_eq_nil_of_le (by omega)] at hPending
      cases hPending
    have hTurn := (hLock.full hLive).resolve_left (by omega)
    have hDrop := List.drop_eq_getElem_cons hShort
    rw [← hPending] at hDrop
    injection hDrop with hJob hLater
    refine
      ⟨dispatched + 1,
        hLock.received hSlots hLater (.inr ⟨by omega, hTurn⟩)
          (fun _ => .inr (by omega)) ?_
          fun hLe => by omega⟩
    intro found _ hFound
    rw [← hTurn, List.getElem?_eq_getElem hShort, ← hJob]
      at hFound
    cases hFound
    exact .queued

theorem Inv.step
    (hInv : state.Inv manifest)
    (hNext : Next state next) :
    next.Inv manifest := by
  rcases hNext with ⟨event, hStep⟩
  cases step_moves hStep with
  | cancel =>
    refine
      { hInv with
        counts := { hInv.counts with }
        shape := ?_
        lockstep := ?_ }
    · exact
        hInv.shape.kept rfl rfl fun hDone => ⟨hDone, rfl, rfl, id⟩
    · intro hOpen hFinished
      rcases hInv.lockstep hOpen hFinished with
        ⟨dispatched, hLock⟩
      exact
        ⟨dispatched,
          { hLock with full := fun hNot => by cases hNot }⟩
  | @work _ _ slot _ hSlot hMoved =>
    refine
      { hInv with
        counts := { hInv.counts with }
        shape := ?_
        lockstep := ?_ }
    · refine
        hInv.shape.kept rfl rfl
          fun hDone => ⟨hDone, rfl, rfl, fun hStopped => ?_⟩
      have hStop := hStopped slot (List.mem_of_getElem? hSlot)
      rw [Slot.step_of_gone (by rw [hStop]; rfl)] at hMoved
      cases hMoved
    · intro hOpen hFinished
      have hOpen : state.isOpen = true := hOpen
      rcases hInv.lockstep hOpen hFinished with
        ⟨dispatched, hLock⟩
      rw [hOpen] at hMoved
      exact ⟨dispatched, hLock.worker hSlot hMoved⟩
  | receive hTakes hHands => exact hInv.receive hTakes hHands
  | refuse _ hTakes hGone =>
    rcases hInv.takes hTakes with ⟨_, _, _, _, hWaiting, _⟩
    rw [hWaiting] at hGone
    cases hGone
  | fail _ message hFinished => exact hInv.fail hFinished message
  | close _ hNone =>
    exact
      { hInv with
        counts := { hInv.counts with }
        shape :=
          hInv.shape.kept rfl rfl
            fun hDone => ⟨hDone, rfl, rfl, id⟩
        closed := fun _ _ => hNone
        lockstep := fun hNot => by cases hNot }
  | complete _ _ hFinished hClosed hStopped =>
    rcases hInv.shape.of_running hFinished with
      ⟨hItems, hClean⟩
    exact
      { hInv with
        counts := { hInv.counts with }
        shape :=
          .completed rfl
            (congrArg (· ++ [Item.complete]) hItems)
            hClean (hInv.closed hClosed hFinished) rfl hStopped
        closed := fun _ hNot => by cases hNot
        lockstep := fun _ hNot => by cases hNot }
  | drop =>
    refine
      { hInv with
        counts := { hInv.counts with }
        shape := ?_
        closed := fun _ hNot => by cases hNot
        lockstep := fun hNot => by cases hNot }
    exact hInv.shape.kept rfl rfl fun _ => ⟨rfl, rfl, rfl, id⟩

/- Every output but a changed one is counted once. -/
theorem Counts.total
    (hCounts : state.Counts)
    (hClean : state.Clean) :
    state.indexed + state.rejected + state.policySkipped =
      state.received.length := by
  rw [hCounts.indexed, hCounts.rejected, hCounts.policySkipped]
  unfold Clean at hClean
  generalize state.received = outputs at hClean ⊢
  induction outputs with
  | nil => rfl
  | cons output outputs ih =>
    have hRest := ih fun other hOther =>
      hClean other (List.mem_cons_of_mem _ hOther)
    have hNot := hClean output List.mem_cons_self
    simp only [List.countP_cons, List.length_cons]
    cases hOutcome : output.outcome
    case changed => exact absurd hOutcome hNot
    all_goals
      simp
      omega

theorem Shape.complete
    (hShape : state.Shape)
    (hComplete : Item.complete ∈ state.items) :
    state.Clean ∧ state.remaining = 0 ∧ state.began = true ∧
      ∀ slot ∈ state.slots, slot.worker = .stopped := by
  have hNone :
      Item.complete ∉ state.received.filterMap Output.item := by
    intro hMem
    rcases List.mem_filterMap.mp hMem with ⟨output, _, hItem⟩
    unfold Output.item at hItem
    split at hItem <;> cases hItem
  cases hShape with
  | going hItems => exact absurd (hItems ▸ hComplete) hNone
  | failed message _ hItems =>
    rw [hItems, List.mem_append, List.mem_singleton] at hComplete
    rcases hComplete with hMem | hError
    · exact absurd hMem hNone
    · cases hError
  | completed _ _ hClean hRemaining hBegan hStopped =>
    exact ⟨hClean, hRemaining, hBegan, hStopped⟩

/- After a cancellation, no activation begins. -/
theorem cancelled_step
    (hCancelled :
      state.cancelled = true ∧ state.began = false)
    (hNext : Next state next) :
    next.cancelled = true ∧ next.began = false := by
  rcases hNext with ⟨event, hStep⟩
  cases step_moves hStep with
  | cancel => exact ⟨rfl, hCancelled.2⟩
  | @receive slot output jobs pending =>
    rcases record_frame (state.taken slot output jobs pending)
        output with ⟨_, _, _, _, _, hFrame⟩
    rw [hFrame]
    exact hCancelled
  | complete _ hLive => cases hLive.symm.trans hCancelled.1
  | work | refuse | fail | close | drop => exact hCancelled

end Producer

variable {workers : Nat}
variable {manifest : List Job}

/-
  The producer in any interleaving with its workers: items
  come in the order of the jobs and end with one error or
  the completion; a dispatch finds its channel empty, and
  workers without a producer come to their end.
-/
theorem stream_ordered
    {state : Producer Document}
    (hReach :
      Reachable Producer.Next (.new workers manifest) state) :
    state.received.map Output.uri =
        (manifest.take state.ordinal).map Job.uri ∧
    state.Shape ∧ state.Counts ∧
    (Item.complete ∈ state.items →
      state.ordinal = manifest.length ∧
        state.began = true ∧
        (∀ slot ∈ state.slots, slot.worker = .stopped) ∧
        state.indexed + state.rejected + state.policySkipped =
          state.received.length) ∧
    (state.isRunning = true → state.remaining ≠ 0 →
      ∀ slot output,
        state.slots[state.ordinal % state.slots.length]?
            = some slot →
          slot.result = some output →
            slot.jobs = none ∧ slot.worker = .waiting) ∧
    (∀ slot : Slot Document, slot.worker.isGone = false →
      ∃ action next,
        workerStep false slot action = some next) ∧
    (∀ (slot next : Slot Document) action,
      workerStep false slot action = some next →
        next.weight < slot.weight) ∧
    (state.cancelled = true → state.began = false →
      ∀ later, Reachable Producer.Next state later →
        Item.complete ∉ later.items) := by
  have hInv : state.Inv manifest :=
    hReach.invariant (Producer.Inv.new workers manifest)
      fun _ _ hInv hNext => hInv.step hNext
  have hTotal := hInv.total
  refine
    ⟨hInv.ordered, hInv.shape, hInv.counts, ?_, ?_,
      fun slot hHere => Slot.step_without_producer hHere,
      fun slot next action hStep => Slot.weight_decreases hStep,
      ?_⟩
  · intro hComplete
    rcases hInv.shape.complete hComplete with
      ⟨hClean, hRemaining, hBegan, hStopped⟩
    exact
      ⟨by omega, hBegan, hStopped, hInv.counts.total hClean⟩
  · intro hRunning hMore slot output hSlot hOutput
    rcases hInv.takes ⟨hRunning, hMore, hSlot, hOutput⟩ with
      ⟨_, _, _, hJobs, hWaiting, _⟩
    exact ⟨hJobs, hWaiting⟩
  · intro hCancelled hBegan later hLater hComplete
    have hKept :
        later.Inv manifest ∧
          later.cancelled = true ∧ later.began = false := by
      clear hComplete
      induction hLater with
      | refl => exact ⟨hInv, hCancelled, hBegan⟩
      | step _ hNext ih =>
        exact
          ⟨ih.1.step hNext,
            Producer.cancelled_step ih.2 hNext⟩
    have hBegun := (hKept.1.shape.complete hComplete).2.2.1
    cases hBegun.symm.trans hKept.2.2

/- The steps of a schedule, as far as it can be followed. -/
def Producer.follow
    (state : Producer Document) :
    List (Producer.Event Document) → Option (Producer Document)
| [] => some state
| event :: events => do (← state.step event).follow events

/- A schedule ends in a state that can be reached. -/
theorem Producer.reachable_of_follow
    {start state final : Producer Document}
    {events : List (Producer.Event Document)}
    (hReach : Reachable Producer.Next start state)
    (hRun : state.follow events = some final) :
    Reachable Producer.Next start final := by
  induction events generalizing state with
  | nil =>
    cases hRun
    exact hReach
  | cons event events ih =>
    rcases Option.bind_eq_some_iff.mp hRun with
      ⟨next, hStep, hRest⟩
    exact ih (hReach.step ⟨event, hStep⟩) hRest

def threeJobs : List Job :=
  [⟨"a", false⟩, ⟨"b", false⟩, ⟨"c", true⟩]

/- Two slots; the second job is done before the first. -/
def threeJobsSchedule : List (Producer.Event Unit) :=
  [.worker 0 .take, .worker 1 .take,
    .worker 1 (.parse .unreadable), .worker 1 .send,
    .worker 0 (.parse (.text true (some ()))),
    .worker 0 .send, .receive, .receive, .worker 0 .take,
    .worker 0 (.parse (.text true none)), .worker 0 .send,
    .receive, .close, .worker 0 .take, .worker 1 .take,
    .joined (.ok true)]

theorem stream_ordered_sample :
    ∃ state : Producer Unit,
      Reachable Producer.Next (.new 2 threeJobs) state ∧
        state.received.map Output.uri = ["a", "b", "c"] ∧
        Item.complete ∈ state.items ∧
        state.indexed + state.rejected + state.policySkipped =
          state.received.length := by
  have hReach :=
    @Producer.reachable_of_follow Unit (.new 2 threeJobs) _ _
      threeJobsSchedule .refl rfl
  have hComplete :=
    List.mem_append_right
      [Item.document (), .rejected "b", .rejected "c"]
      (List.mem_singleton_self (Item.complete : Item Unit))
  have hOrdered := stream_ordered hReach
  exact
    ⟨_, hReach, hOrdered.1, hComplete,
      (hOrdered.2.2.2.1 hComplete).2.2.2⟩

----------
-- Completion
----------

theorem weight_set
    {slots : List (Slot Document)}
    {index : Nat}
    {slot : Slot Document}
    (hSlot : slots[index]? = some slot)
    (next : Slot Document) :
    ((slots.set index next).map Slot.weight).sum + slot.weight =
      (slots.map Slot.weight).sum + next.weight := by
  induction slots generalizing index with
  | nil => cases hSlot
  | cons head slots ih =>
    cases index with
    | zero =>
      cases hSlot
      simp only [List.set_cons_zero, List.map_cons, List.sum_cons]
      omega
    | succ index =>
      have hRest := ih hSlot
      simp only [List.set_cons_succ, List.map_cons, List.sum_cons]
      omega

namespace Producer

variable {state next : Producer Document}

def weight (state : Producer Document) : Nat :=
  4 * state.pending.length +
    (state.slots.map Slot.weight).sum +
    if state.finished then 0 else if state.isOpen then 2 else 1

theorem weight_fail
    (message : String) :
    (state.fail message).weight ≤ state.weight := by
  simp [weight, fail]

theorem weight_finished
    (hFinished : state.finished = false)
    (hPending : next.pending = state.pending)
    (hSlots : next.slots = state.slots)
    (hNext : next.finished = true) :
    next.weight < state.weight := by
  unfold weight
  rw [hPending, hSlots, hFinished, hNext]
  cases state.isOpen <;> simp

/- A job on its way weighs no more than a pending one. -/
theorem weight_taken
    {slot : Slot Document}
    {output : Output Document}
    {jobs : Option Job}
    {pending : List Job}
    (hTakes : state.Takes slot output)
    (hJobs :
      4 * pending.length + (if jobs.isSome then 4 else 0) ≤
        4 * state.pending.length +
          if slot.jobs.isSome then 4 else 0) :
    (state.taken slot output jobs pending).weight
      < state.weight := by
  rcases hTakes with ⟨_, _, hSlot, hOutput⟩
  have hSum := weight_set hSlot { slot with jobs, result := none }
  refine Nat.add_lt_add_right ?_ _
  change
    4 * pending.length +
        ((state.slots.set _ _).map Slot.weight).sum < _
  simp only [Slot.weight, hOutput, Option.isSome_some,
    Option.isSome_none, Bool.false_eq_true, if_true, if_false]
    at hSum ⊢
  omega

/- The steps of the build itself. -/
def Event.isOwn : Event Document → Bool
| .cancel | .drop => false
| _ => true

theorem weight_decreases
    {event : Event Document}
    (hOwn : event.isOwn = true)
    (hStep : state.step event = some next) :
    next.weight < state.weight := by
  cases step_moves hStep with
  | cancel | drop => cases hOwn
  | @work _ _ _ moved hSlot hMoved =>
    refine Nat.add_lt_add_right (Nat.add_lt_add_left ?_ _) _
    have hSum := weight_set hSlot moved
    have hLess := Slot.weight_decreases hMoved
    change ((state.slots.set _ _).map Slot.weight).sum < _
    omega
  | @receive slot output jobs pending hTakes hHands =>
    refine
      Nat.lt_of_le_of_lt ?_
        (@weight_taken _ _ slot output jobs pending hTakes ?_)
    · unfold record
      split
      · exact Nat.le_refl _
      · exact Nat.le_refl _
      · exact Nat.le_refl _
      · exact weight_fail _
    · cases hHands with
      | none => exact Nat.le_refl _
      | next _ hPending =>
        rw [hPending, List.length_cons, Option.isSome_some,
          if_pos rfl]
        omega
  | refuse message hTakes =>
    exact
      Nat.lt_of_le_of_lt (weight_fail message)
        (weight_taken hTakes (Nat.le_refl _))
  | fail _ _ hFinished =>
    exact weight_finished hFinished rfl rfl rfl
  | complete _ _ hFinished =>
    exact weight_finished hFinished rfl rfl rfl
  | close hRunning =>
    rw [isRunning, Bool.and_eq_true, Bool.not_eq_true']
      at hRunning
    simp [weight, hRunning]

theorem slots_length
    (hNext : Next state next) :
    next.slots.length = state.slots.length := by
  rcases hNext with ⟨event, hStep⟩
  cases step_moves hStep with
  | work => exact List.length_set
  | @receive slot output jobs pending =>
    rcases record_frame (state.taken slot output jobs pending)
        output with ⟨_, _, _, _, _, hFrame⟩
    rw [hFrame]
    exact List.length_set
  | refuse => exact List.length_set
  | cancel | fail | close | complete | drop => rfl

theorem worker_step
    {index : Nat}
    {slot : Slot Document}
    (action : Action Document)
    (hSlot : state.slots[index]? = some slot)
    (hMoves :
      (workerStep state.isOpen slot action).isSome = true) :
    ∃ event : Event Document,
      event.isOwn = true ∧
        (state.step event).isSome = true := by
  rcases Option.isSome_iff_exists.mp hMoves with
    ⟨moved, hMoved⟩
  exact ⟨.worker index action, rfl, by simp [step, hSlot, hMoved]⟩

end Producer

/-
  In every schedule the build takes at most five steps for
  each job, and two to end.
-/
theorem stream_bounded
    {events : List (Producer.Event Document)}
    {final : Producer Document}
    (hRun :
      (Producer.new workers manifest).follow events
        = some final) :
    events.countP Producer.Event.isOwn ≤
      5 * manifest.length + 2 := by
  have hStart :
      (Producer.new workers manifest : Producer Document).weight
        ≤ 5 * manifest.length + 2 := by
    have hSlots :
        (((manifest.take workers).map fun job =>
            (⟨some job, .waiting, none⟩ : Slot Document)).map
              Slot.weight).sum =
          min workers manifest.length * 5 := by
      rw [List.map_map]
      change ((manifest.take workers).map fun _ => 5).sum = _
      rw [List.map_const', List.sum_replicate_nat,
        List.length_take]
    simp only [Producer.weight, Producer.new,
      List.length_drop, hSlots, Bool.false_eq_true, if_true,
      if_false]
    omega
  refine Nat.le_trans ?_ hStart
  generalize Producer.new workers manifest = state at hRun
  clear hStart
  induction events generalizing state with
  | nil => exact Nat.zero_le _
  | cons event events ih =>
    rcases Option.bind_eq_some_iff.mp hRun with
      ⟨next, hStep, hRest⟩
    have hLater := ih next hRest
    cases hOwn : event.isOwn with
    | true =>
      have hLess := Producer.weight_decreases hOwn hStep
      rw [List.countP_cons_of_pos hOwn]
      omega
    | false =>
      rw [List.countP_cons_of_neg (by simp [hOwn])]
      refine Nat.le_trans hLater ?_
      cases event
      case cancel | drop =>
        cases hStep
        simp [Producer.weight]
      all_goals cases hOwn

/- Until the build is finished, it or a worker can go on. -/
theorem stream_progresses
    {state : Producer Document}
    (hWorkers : 0 < workers)
    (hReach :
      Reachable Producer.Next (.new workers manifest) state)
    (hFinished : state.finished = false) :
    ∃ event : Producer.Event Document,
      event.isOwn = true ∧
        (state.step event).isSome = true := by
  have hInv : state.Inv manifest :=
    hReach.invariant (Producer.Inv.new workers manifest)
      fun _ _ hInv hNext => hInv.step hNext
  have hLength :
      state.slots.length = min workers manifest.length := by
    clear hInv hFinished
    induction hReach with
    | refl => simp [Producer.new]
    | step _ hNext ih =>
      exact (Producer.slots_length hNext).trans ih
  have hTotal := hInv.total
  cases hOpen : state.isOpen with
  | false =>
    by_cases hGone : state.slots.all (·.worker.isGone) = true
    · refine ⟨.joined (.ok true), rfl, ?_⟩
      simp only [Producer.step, hFinished, hOpen, hGone,
        and_self, if_true]
      split <;> rfl
    · rw [List.all_eq_true] at hGone
      push Not at hGone
      rcases hGone with ⟨slot, hSlot, hHere⟩
      rw [ne_eq, Bool.not_eq_true] at hHere
      rcases List.mem_iff_getElem?.mp hSlot with
        ⟨index, hIndex⟩
      rcases Slot.step_without_producer hHere with
        ⟨action, next, hNext⟩
      refine Producer.worker_step action hIndex ?_
      rw [hOpen, hNext]
      rfl
  | true =>
    have hRunning : state.isRunning = true := by
      rw [Producer.isRunning, hOpen, hFinished]
      rfl
    by_cases hNone : state.remaining = 0
    · exact ⟨.close, rfl, by simp [Producer.step, *]⟩
    · rcases hInv.lockstep hOpen hFinished with
        ⟨dispatched, hLock⟩
      cases hCancelled : state.cancelled with
      | true =>
        exact ⟨.observeCancel, rfl, by simp [Producer.step, *]⟩
      | false =>
        -- the slot whose turn it is carries a job
        have hFull := hLock.full hCancelled
        have hSlots : 0 < state.slots.length := by omega
        have hIndex := Nat.mod_lt state.ordinal hSlots
        have hSlot := List.getElem?_eq_getElem hIndex
        have hMore : state.ordinal < manifest.length := by
          omega
        have hCarries :=
          (hLock.carried state.ordinal _ (Nat.le_refl _)
            (by omega) hSlot).1 _ (by omega)
              (List.getElem?_eq_getElem hMore)
        generalize state.slots[state.ordinal % _] = slot
          at hSlot hCarries
        cases hCarries with
        | queued =>
          exact Producer.worker_step .take hSlot rfl
        | held =>
          exact Producer.worker_step .stop hSlot rfl
        | read reading =>
          refine Producer.worker_step .send hSlot ?_
          rw [hOpen]
          rfl
        | done reading =>
          refine ⟨.receive, rfl, ?_⟩
          simp only [Producer.step, hRunning, hNone, ne_eq,
            not_false_eq_true, and_self, if_true,
            Producer.receive, hSlot, Option.bind_eq_bind,
            Option.bind_some, hCancelled, Bool.false_eq_true,
            if_false]
          split <;> rfl
        | lost worker hGone =>
          refine ⟨.observeGone, rfl, ?_⟩
          simp [Producer.step, hRunning, hNone, hSlot, hGone]

/- The schedule of one job takes as many steps as it may. -/
theorem stream_bounded_sample :
    [Producer.Event.worker 0 .take,
        .worker 0 (.parse (.text true (some ()))),
        .worker 0 .send, .receive, .close, .worker 0 .take,
        .joined (.ok true)].countP Producer.Event.isOwn ≤
      5 * [(⟨"a", false⟩ : Job)].length + 2 :=
  @stream_bounded _ 4 [⟨"a", false⟩] _ _ rfl

/- A worker has panicked and the build is cancelled. -/
theorem stream_progresses_sample :
    ∃ state : Producer Unit,
      (Producer.new 2 threeJobs).follow
          [.worker 0 .take, .worker 0 .panic, .cancel] =
          some state ∧
        ∃ event : Producer.Event Unit,
          event.isOwn = true ∧
            (state.step event).isSome = true :=
  ⟨_, rfl,
    stream_progresses (by decide)
      (@Producer.reachable_of_follow _ (.new 2 threeJobs) _ _
        [.worker 0 .take, .worker 0 .panic, .cancel] .refl rfl)
      rfl⟩

end Stream

end ArktsServer
