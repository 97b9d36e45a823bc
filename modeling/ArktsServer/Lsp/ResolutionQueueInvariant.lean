import ArktsServer.Lsp.CompletionResolutionQueue

/-
  The invariant of the detail queues.  A job that waits or
  has its turn is in the queue of its workspace, the queue of
  a workspace lasts as long as a job has its turn, and what
  waits came later than what had its turn.

  Key definitions include:
    * `Stage.place`, `live`
    * `At`, `Placed`, `Mapped`, `InOrder`
    * `Invariant`

  Correctness is proven by:
    * `placed_update`, `mapped_set`
    * `finished_invariant`, `start_invariant`
    * `next_invariant`
-/

namespace ArktsServer

namespace Resolutions

open CompletionResolutionQueue

section Safety

variable {Workspace Reason Value : Type}
  [DecidableEq Workspace]

----------
-- Places
----------

inductive Place where
| waiting
| turn
| gone
deriving DecidableEq

def Stage.place : Stage Reason Value → Place
| .waiting => .waiting
| .starting => .turn
| .executing => .turn
| .answered _ => .turn
| .settled => .turn
| .finished => .gone

/- Jobs that `execute` may still be called for. -/
def Stage.unexecuted : Stage Reason Value → Bool
| .waiting => true
| .starting => true
| .executing => false
| .answered _ => false
| .settled => false
| .finished => false

/- How often the promise has been settled. -/
def Stage.settlements : Stage Reason Value → Nat
| .waiting => 0
| .starting => 0
| .executing => 0
| .answered _ => 0
| .settled => 1
| .finished => 1

/- The jobs that are counted. -/
def live
    (job : PendingResolution Workspace Reason Value) : Bool :=
  job.stage.place != .gone

----------
-- Lists of Jobs
----------

variable {Item : Type}
variable {items : List Item}

theorem get_set
    {id : Nat}
    {old : Item}
    (hOld : items[id]? = some old)
    (item : Item)
    (other : Nat) :
    (items.set id item)[other]? =
      if other = id then some item else items[other]? := by
  rw [List.getElem?_set]
  have hLess := (List.getElem?_eq_some_iff.mp hOld).1
  by_cases hSame : other = id
  · subst hSame
    rw [if_pos rfl, if_pos hLess, if_pos rfl]
  · rw [if_neg (Ne.symm hSame), if_neg hSame]

theorem get_append
    {item found : Item}
    {id : Nat} :
    (items ++ [item])[id]? = some found ↔
      items[id]? = some found ∨
        id = items.length ∧ item = found := by
  rcases Nat.lt_trichotomy id items.length with
    hLess | hSame | hMore
  · rw [List.getElem?_append_left hLess]
    constructor
    · exact Or.inl
    · rintro (hFound | ⟨hNever, _⟩)
      · exact hFound
      · omega
  · subst hSame
    rw [List.getElem?_append_right (Nat.le_refl _), Nat.sub_self]
    have hNone : items[items.length]? = none :=
      List.getElem?_eq_none (Nat.le_refl _)
    rw [hNone]
    simp
  · have hNone : items[id]? = none :=
      List.getElem?_eq_none (Nat.le_of_lt hMore)
    have hNone' : (items ++ [item])[id]? = none := by
      rw [List.getElem?_eq_none_iff, List.length_append,
        List.length_singleton]
      omega
    rw [hNone, hNone']
    simp only [reduceCtorEq, false_or, false_iff, not_and]
    omega

/- One item of a list is replaced. -/
theorem countP_replace
    {id : Nat}
    {old : Item}
    (hOld : items[id]? = some old)
    (item : Item)
    (keeps : Item → Bool) :
    ((items.set id item).countP keeps : Int) =
      items.countP keeps
        - (if keeps old then 1 else 0)
        + (if keeps item then 1 else 0) := by
  rcases List.getElem?_eq_some_iff.mp hOld with ⟨hLess, hGet⟩
  rw [List.countP_set hLess, hGet]
  have hPositive : keeps old = true →
      0 < items.countP keeps :=
    fun hKeeps =>
      List.countP_pos_iff.mpr
        ⟨old, List.mem_of_getElem? hOld, hKeeps⟩
  by_cases hKeeps : keeps old = true
  · have hLeft := hPositive hKeeps
    simp only [hKeeps, ↓reduceIte]
    split
    · omega
    · omega
  · simp only [hKeeps, Bool.false_eq_true, ↓reduceIte]
    split
    · omega
    · omega

----------
-- The Invariant
----------

/- The job waits in the queue, or has its turn there. -/
def At
    (jobs : List (PendingResolution Workspace Reason Value))
    (place : Place)
    (queue : QueueId)
    (id : JobId) : Prop :=
  ∃ job,
    jobs[id]? = some job ∧
      job.queue = queue ∧
      job.stage.place = place

/- `except` names a queue whose turn is to be given next. -/
structure Placed
    (except : Option QueueId)
    (jobs : List (PendingResolution Workspace Reason Value))
    (id : QueueId)
    (queue : WorkspaceQueue) : Prop where
  waits :
    ∀ job, job ∈ queue.waiting ↔ At jobs .waiting id job
  active :
    ∀ job, queue.active = some job ↔ At jobs .turn id job
  ordered : queue.waiting.Pairwise (· < ·)
  first :
    ∀ job,
      queue.active = some job →
        ∀ later ∈ queue.waiting, job < later
  busy :
    queue.waiting ≠ [] →
      queue.active = none → except = some id

structure Mapped
    (except : Option QueueId)
    (workspaces : OrderedMap Workspace QueueId)
    (nextQueue : QueueId)
    (queues : QueueId → WorkspaceQueue)
    (jobs : List (PendingResolution Workspace Reason Value)) :
    Prop where
  found :
    ∀ (id : JobId)
      (job : PendingResolution Workspace Reason Value),
      jobs[id]? = some job →
        job.stage.place ≠ .gone →
          workspaces.get job.workspaceId = some job.queue
  alone :
    ∀ workspace other queue,
      workspaces.get workspace = some queue →
        workspaces.get other = some queue → workspace = other
  busy :
    ∀ workspace queue,
      workspaces.get workspace = some queue →
        (queues queue).active = none → except = some queue
  known :
    ∀ workspace queue,
      workspaces.get workspace = some queue →
        queue < nextQueue

/- Jobs of a workspace are executed as they came. -/
structure InOrder
    (executed : List JobId)
    (jobs : List (PendingResolution Workspace Reason Value)) :
    Prop where
  known : ∀ done ∈ executed, done < jobs.length
  sorted :
    executed.Pairwise fun (first second : JobId) =>
      ∀ job other,
        jobs[first]? = some job →
          jobs[second]? = some other →
            job.workspaceId = other.workspaceId →
              first < second
  later :
    ∀ done ∈ executed,
      ∀ (id : JobId)
        (job other :
          PendingResolution Workspace Reason Value),
        jobs[done]? = some job →
          jobs[id]? = some other →
            job.workspaceId = other.workspaceId →
              other.stage.unexecuted = true → done < id

structure Invariant
    (except : Option QueueId)
    (state :
      CompletionResolutionQueue Workspace Reason Value) :
    Prop where
  placed :
    ∀ queue,
      Placed except state.jobs queue (state.queues queue)
  mapped :
    Mapped except state.workspaces state.nextQueue
      state.queues state.jobs
  inOrder : InOrder state.executed state.jobs
  counted : state.pending = state.jobs.countP live
  bounded : state.pending ≤ maxCompletionResolutions
  settled :
    ∀ job ∈ state.jobs,
      job.settlements.length = job.stage.settlements

----------
-- Changes of a Job
----------

/- What a step does to one job and its queue. -/
structure Changed
    (old job : PendingResolution Workspace Reason Value) :
    Prop where
  workspaceId : job.workspaceId = old.workspaceId
  queue : job.queue = old.queue
  unexecuted :
    job.stage.unexecuted = true →
      old.stage.unexecuted = true
  settlements :
    job.settlements.length = job.stage.settlements

variable {old job : PendingResolution Workspace Reason Value}
variable {jobs : List (PendingResolution Workspace Reason Value)}
variable {id : JobId}

omit [DecidableEq Workspace] in
theorem inOrder_set
    {executed : List JobId}
    (hOrder : InOrder executed jobs)
    (hOld : jobs[id]? = some old)
    (hChanged : Changed old job) :
    InOrder executed (jobs.set id job) := by
  have hBack : ∀ (other : JobId)
      (found : PendingResolution Workspace Reason Value),
      (jobs.set id job)[other]? = some found →
        ∃ before,
          jobs[other]? = some before ∧
            before.workspaceId = found.workspaceId ∧
            (found.stage.unexecuted = true →
              before.stage.unexecuted = true) := by
    intro other found hFound
    rw [get_set hOld] at hFound
    split at hFound
    · rename_i hSame
      rw [hSame, ← Option.some.inj hFound]
      exact
        ⟨old, hOld, hChanged.workspaceId.symm,
          hChanged.unexecuted⟩
    · exact ⟨found, hFound, rfl, fun hNow => hNow⟩
  refine ⟨?_, ?_, ?_⟩
  · intro done hDone
    rw [List.length_set]
    exact hOrder.known done hDone
  · refine hOrder.sorted.imp ?_
    intro first second hLess found other hFound hOther hSame
    rcases hBack first found hFound with
      ⟨before, hBefore, hWorkspace, _⟩
    rcases hBack second other hOther with
      ⟨before', hBefore', hWorkspace', _⟩
    refine hLess before before' hBefore hBefore' ?_
    rw [hWorkspace, hWorkspace', hSame]
  · intro done hDone later found other hFound hOther hSame
      hUnexecuted
    rcases hBack done found hFound with
      ⟨before, hBefore, hWorkspace, _⟩
    rcases hBack later other hOther with
      ⟨before', hBefore', hWorkspace', hStage⟩
    refine
      hOrder.later done hDone later before before' hBefore
        hBefore' ?_ (hStage hUnexecuted)
    rw [hWorkspace, hWorkspace', hSame]

omit [DecidableEq Workspace] in
theorem settled_set
    (hSettled :
      ∀ job ∈ jobs,
        job.settlements.length = job.stage.settlements)
    (hChanged : Changed old job) :
    ∀ found ∈ jobs.set id job,
      found.settlements.length = found.stage.settlements := by
  intro found hFound
  rcases List.mem_or_eq_of_mem_set hFound with hThere | rfl
  · exact hSettled found hThere
  · exact hChanged.settlements

variable {state : CompletionResolutionQueue Workspace Reason Value}

----------
-- Places of Jobs
----------

variable {place : Place} {queue : QueueId} {other : JobId}

omit [DecidableEq Workspace] in
theorem at_iff
    (hOld : jobs[id]? = some old) :
    At jobs place queue id ↔
      old.queue = queue ∧ old.stage.place = place := by
  unfold At
  rw [hOld]
  simp only [Option.some.injEq, exists_eq_left']

omit [DecidableEq Workspace] in
theorem at_set
    (hOld : jobs[id]? = some old) :
    At (jobs.set id job) place queue other ↔
      if other = id then
        job.queue = queue ∧ job.stage.place = place
      else
        At jobs place queue other := by
  unfold At
  rw [get_set hOld]
  split
  · simp only [Option.some.injEq, exists_eq_left']
  · rfl

omit [DecidableEq Workspace] in
theorem at_append :
    At (jobs ++ [job]) place queue id ↔
      At jobs place queue id ∨
        id = jobs.length ∧
          job.queue = queue ∧ job.stage.place = place := by
  constructor
  · rintro ⟨found, hFound, hThere⟩
    rcases get_append.mp hFound with hBefore | ⟨hNew, rfl⟩
    · exact Or.inl ⟨found, hBefore, hThere⟩
    · exact Or.inr ⟨hNew, hThere⟩
  · rintro (⟨found, hFound, hThere⟩ | ⟨hNew, hThere⟩)
    · exact ⟨found, get_append.mpr (Or.inl hFound), hThere⟩
    · exact ⟨job, get_append.mpr (Or.inr ⟨hNew, rfl⟩), hThere⟩

omit [DecidableEq Workspace] in
theorem At.lt_length
    (hThere : At jobs place queue id) :
    id < jobs.length := by
  rcases hThere with ⟨job, hJob, _⟩
  exact (List.getElem?_eq_some_iff.mp hJob).1

variable {except next : Option QueueId}
variable {after : List (PendingResolution Workspace Reason Value)}
variable {workspaceQueue : WorkspaceQueue}

omit [DecidableEq Workspace] in
/- A queue stays right while its jobs stay in their places. -/
theorem Placed.congr
    (hPlaced : Placed except jobs queue workspaceQueue)
    (hAt :
      ∀ place, place ≠ .gone → ∀ id,
        At after place queue id ↔ At jobs place queue id)
    (hNext : except = some queue → next = some queue) :
    Placed next after queue workspaceQueue where
  waits id :=
    (hPlaced.waits id).trans (hAt .waiting (by decide) id).symm
  active id :=
    (hPlaced.active id).trans (hAt .turn (by decide) id).symm
  ordered := hPlaced.ordered
  first := hPlaced.first
  busy hWaits hNone := hNext (hPlaced.busy hWaits hNone)

omit [DecidableEq Workspace] in
/- Only one queue and its jobs change. -/
theorem placed_update
    {queues : QueueId → WorkspaceQueue}
    {changed : WorkspaceQueue}
    (hPlaced :
      ∀ which, Placed except jobs which (queues which))
    (hOwn : Placed next after queue changed)
    (hAt :
      ∀ which, which ≠ queue →
        ∀ place, place ≠ .gone → ∀ id,
          At after place which id ↔ At jobs place which id)
    (hNext :
      ∀ which, which ≠ queue →
        except = some which → next = some which)
    (which : QueueId) :
    Placed next after which
      (Function.update queues queue changed which) := by
  by_cases hSame : which = queue
  · subst hSame
    rw [Function.update_self]
    exact hOwn
  · rw [Function.update_of_ne hSame]
    exact
      (hPlaced which).congr (hAt which hSame) (hNext which hSame)

omit [DecidableEq Workspace] in
/- The jobs of the other queues are elsewhere. -/
theorem at_set_other
    (hOld : jobs[id]? = some old)
    (hQueue : job.queue = old.queue)
    (hOther : queue ≠ old.queue) :
    At (jobs.set id job) place queue other ↔
      At jobs place queue other := by
  rw [at_set hOld]
  split
  · rename_i hSame
    rw [hSame, at_iff hOld, hQueue]
    exact
      iff_of_false (fun hThere => hOther hThere.1.symm)
        (fun hThere => hOther hThere.1.symm)
  · rfl

----------
-- Entries
----------

/- A job that is live is found under its workspace. -/
theorem mapped_set
    {workspaces : OrderedMap Workspace QueueId}
    {nextQueue : QueueId}
    {queues changed : QueueId → WorkspaceQueue}
    (hMapped :
      Mapped except workspaces nextQueue queues jobs)
    (hOld : jobs[id]? = some old)
    (hWorkspace : job.workspaceId = old.workspaceId)
    (hQueue : job.queue = old.queue)
    (hLive :
      job.stage.place ≠ .gone → old.stage.place ≠ .gone)
    (hBusy :
      ∀ which,
        (changed which).active = none →
          (except = some which ∨
              (queues which).active ≠ none) →
            next = some which) :
    Mapped next workspaces nextQueue changed
      (jobs.set id job) where
  found other found hFound hThere := by
    rw [get_set hOld] at hFound
    split at hFound
    · rw [← Option.some.inj hFound] at hThere ⊢
      rw [hWorkspace, hQueue]
      exact hMapped.found id old hOld (hLive hThere)
    · exact hMapped.found other found hFound hThere
  alone := hMapped.alone
  busy workspace which hThere hNone := by
    refine hBusy which hNone ?_
    by_cases hActive : (queues which).active = none
    · exact Or.inl (hMapped.busy workspace which hThere hActive)
    · exact Or.inr hActive
  known := hMapped.known

/- A job moves on where it is. -/
theorem setJob_invariant
    (hState : Invariant except state)
    (hOld : state.jobs[id]? = some old)
    (hChanged : Changed old job)
    (hPlace : job.stage.place = old.stage.place) :
    Invariant except (state.setJob id job) := by
  have hAt : ∀ (place : Place) (queue : QueueId)
      (other : JobId),
      At (state.jobs.set id job) place queue other ↔
        At state.jobs place queue other := by
    intro place queue other
    rw [at_set hOld]
    split
    · rename_i hSame
      rw [hSame, at_iff hOld, hChanged.queue, hPlace]
    · rfl
  refine
    ⟨?_, ?_, inOrder_set hState.inOrder hOld hChanged, ?_,
      hState.bounded, settled_set hState.settled hChanged⟩
  · exact fun queue =>
      (hState.placed queue).congr
        (fun place _ => hAt place queue) (fun hSame => hSame)
  · refine
      mapped_set hState.mapped hOld hChanged.workspaceId
        hChanged.queue (fun hLive => hPlace ▸ hLive) ?_
    rintro which hNone (hExcept | hActive)
    · exact hExcept
    · exact absurd hNone hActive
  · change state.pending =
      ((state.jobs.set id job).countP live : Int)
    have hLive : live job = live old := by
      unfold live
      rw [hPlace]
    rw [countP_replace hOld, hLive, hState.counted]
    split
    · omega
    · omega

----------
-- Leaving
----------

/- What is left of a queue without a job. -/
def WorkspaceQueue.without
    (queue : WorkspaceQueue)
    (id : JobId) : WorkspaceQueue where
  active :=
    if queue.active = some id then none else queue.active
  waiting := queue.waiting.erase id

omit [DecidableEq Workspace] in
theorem Placed.nodup
    (hPlaced : Placed except jobs queue workspaceQueue) :
    workspaceQueue.waiting.Nodup :=
  hPlaced.ordered.imp fun hLess => Nat.ne_of_lt hLess

omit [DecidableEq Workspace] in
theorem Placed.without
    (hPlaced : Placed none jobs queue workspaceQueue)
    (hOld : jobs[id]? = some old)
    (hGone : job.stage.place = .gone) :
    Placed (some queue) (jobs.set id job) queue
      (workspaceQueue.without id) := by
  have hAt : ∀ (place : Place) (other : JobId),
      place ≠ .gone →
        (At (jobs.set id job) place queue other ↔
          other ≠ id ∧ At jobs place queue other) := by
    intro place other hPlace
    rw [at_set hOld]
    split
    · rename_i hSame
      refine iff_of_false ?_ (fun hNever => hNever.1 hSame)
      rintro ⟨_, hThere⟩
      exact hPlace (hThere.symm.trans hGone)
    · rename_i hSame
      exact ⟨fun hThere => ⟨hSame, hThere⟩, And.right⟩
  refine ⟨?_, ?_, hPlaced.ordered.erase id, ?_, fun _ _ => rfl⟩
  · intro other
    rw [hAt .waiting other (by decide), ← hPlaced.waits]
    exact hPlaced.nodup.mem_erase_iff
  · intro other
    rw [hAt .turn other (by decide), ← hPlaced.active]
    unfold WorkspaceQueue.without
    simp only
    split
    · rename_i hActive
      rw [hActive]
      simp only [reduceCtorEq, Option.some.injEq, false_iff,
        not_and]
      exact fun hNe hSame => hNe hSame.symm
    · rename_i hActive
      refine ⟨fun hThere => ⟨?_, hThere⟩, And.right⟩
      rintro rfl
      exact hActive hThere
  · intro other hActive later hLater
    unfold WorkspaceQueue.without at hActive hLater
    simp only at hActive hLater
    split at hActive
    · cases hActive
    · exact
        hPlaced.first other hActive later
          (List.mem_of_mem_erase hLater)

omit [DecidableEq Workspace] in
theorem live_of_place
    {job : PendingResolution Workspace Reason Value}
    (hPlace : job.stage.place ≠ .gone) :
    live job = true := by
  unfold live
  rw [bne_iff_ne]
  exact hPlace

/- A job leaves with its promise settled. -/
theorem finished_invariant
    (hState : Invariant none state)
    (hOld : state.jobs[id]? = some old)
    (hLive : old.stage.place ≠ .gone)
    (hWorkspace : job.workspaceId = old.workspaceId)
    (hQueue : job.queue = old.queue)
    (hSettled : job.settlements.length = 1) :
    Invariant (some old.queue)
      ((state.setQueue old.queue
        ((state.queues old.queue).without id)
      ).finished id job) := by
  have hChanged :
      Changed old
        { job with listening := false, stage := .finished } := by
    refine ⟨hWorkspace, hQueue, ?_, hSettled⟩
    intro hNever
    cases hNever
  refine
    ⟨?_, ?_, inOrder_set hState.inOrder hOld hChanged, ?_, ?_,
      settled_set hState.settled hChanged⟩
  · refine
      placed_update hState.placed
        ((hState.placed old.queue).without hOld rfl) ?_
        (fun _ _ hNever => by cases hNever)
    intro which hOther place _ other
    exact at_set_other hOld hQueue hOther
  · refine
      mapped_set hState.mapped hOld hWorkspace hQueue
        (fun _ => hLive) ?_
    rintro which hNone (hNever | hActive)
    · cases hNever
    · by_contra hOther
      have hNe : which ≠ old.queue :=
        fun hSame => hOther (congrArg some hSame.symm)
      change (Function.update state.queues old.queue _
        which).active = none at hNone
      rw [Function.update_of_ne hNe] at hNone
      exact hActive hNone
  · change state.pending - 1 =
      ((state.jobs.set id _).countP live : Int)
    rw [countP_replace hOld, live_of_place hLive, hState.counted]
    have hGone :
        live
            { job with
              listening := false, stage := .finished } =
          false := rfl
    rw [hGone]
    simp only [↓reduceIte, Bool.false_eq_true, Int.add_zero]
  · have hBound := hState.bounded
    change state.pending - 1 ≤ maxCompletionResolutions
    omega

----------
-- Turns
----------

omit [DecidableEq Workspace] in
theorem Stage.waiting_of_place
    {stage : Stage Reason Value}
    (hPlace : stage.place = .waiting) :
    stage = .waiting := by
  cases stage with
  | waiting => rfl
  | starting => cases hPlace
  | executing => cases hPlace
  | answered _ => cases hPlace
  | settled => cases hPlace
  | finished => cases hPlace

variable {first : JobId} {waiting : List JobId}

omit [DecidableEq Workspace] in
/- The first that waits has its turn. -/
theorem Placed.start
    (hPlaced : Placed except jobs queue ⟨none, first :: waiting⟩)
    (hOld : jobs[first]? = some old)
    (hQueue : job.queue = queue)
    (hTurn : job.stage.place = .turn) :
    Placed none (jobs.set first job) queue
      ⟨some first, waiting⟩ := by
  have hSorted := List.pairwise_cons.mp hPlaced.ordered
  refine ⟨?_, ?_, hSorted.2, ?_, fun _ hNever => by cases hNever⟩
  · intro other
    rw [at_set hOld]
    by_cases hSame : other = first
    · rw [if_pos hSame, hSame, hTurn]
      refine iff_of_false ?_ (fun hNever => by cases hNever.2)
      exact fun hNever =>
        Nat.lt_irrefl _ (hSorted.1 first hNever)
    · rw [if_neg hSame, ← hPlaced.waits, List.mem_cons]
      exact (or_iff_right hSame).symm
  · intro other
    rw [at_set hOld]
    by_cases hSame : other = first
    · rw [if_pos hSame, hSame]
      exact iff_of_true rfl ⟨hQueue, hTurn⟩
    · rw [if_neg hSame, ← hPlaced.active]
      simp only [Option.some.injEq, reduceCtorEq, iff_false]
      exact Ne.symm hSame
  · intro other hActive later hLater
    rw [← Option.some.inj hActive]
    exact hSorted.1 later hLater

omit [DecidableEq Workspace] in
theorem start_eq
    (hOld : state.jobs[first]? = some old)
    (hQueue : old.queue = queue) :
    (state.setQueue queue
      { state.queues queue with waiting := waiting }
    ).start first =
      (state.setQueue queue ⟨some first, waiting⟩).setJob
        first { old with stage := .starting } := by
  unfold start setQueue setJob
  simp only [hOld, hQueue, Function.update_self,
    Function.update_idem]

theorem start_invariant
    (hState : Invariant (some queue) state)
    (hActive : (state.queues queue).active = none)
    (hWaiting : (state.queues queue).waiting = first :: waiting) :
    Invariant none
      ((state.setQueue queue
        { state.queues queue with waiting := waiting }
      ).start first) := by
  have hPlaced := hState.placed queue
  have hThis :
      state.queues queue = ⟨none, first :: waiting⟩ := by
    rw [← hActive, ← hWaiting]
  rw [hThis] at hPlaced
  rcases (hPlaced.waits first).mp List.mem_cons_self with
    ⟨old, hOld, rfl, hPlace⟩
  have hStage := Stage.waiting_of_place hPlace
  have hLive : old.stage.place ≠ .gone := by
    rw [hPlace]
    decide
  have hChanged : Changed old { old with stage := .starting } := by
    refine ⟨rfl, rfl, ?_, ?_⟩
    · rw [hStage]
      exact fun _ => rfl
    · have hNone := hState.settled old (List.mem_of_getElem? hOld)
      rw [hStage] at hNone
      exact hNone
  rw [start_eq hOld rfl]
  refine
    ⟨?_, ?_, inOrder_set hState.inOrder hOld hChanged, ?_,
      hState.bounded, settled_set hState.settled hChanged⟩
  · refine
      placed_update hState.placed (hPlaced.start hOld rfl rfl)
        ?_ ?_
    · intro which hOther place _ other
      exact at_set_other hOld rfl hOther
    · intro which hOther hSame
      exact absurd (Option.some.inj hSame).symm hOther
  · refine
      mapped_set hState.mapped hOld rfl rfl (fun _ => hLive) ?_
    intro which hNone hBefore
    change (Function.update state.queues old.queue _
      which).active = none at hNone
    rw [Function.update_apply] at hNone
    split at hNone
    · cases hNone
    · rename_i hOther
      rcases hBefore with hSame | hTurn
      · exact absurd (Option.some.inj hSame).symm hOther
      · exact absurd hNone hTurn
  · change state.pending =
      ((state.jobs.set first _).countP live : Int)
    have hAfter :
        live { old with stage := .starting } = true := rfl
    rw [countP_replace hOld, live_of_place hLive, hAfter,
      hState.counted]
    simp only [↓reduceIte]
    omega

theorem served_invariant
    (hState : Invariant (some queue) state)
    (hActive : (state.queues queue).active ≠ none) :
    Invariant none state where
  placed which := by
    refine { hState.placed which with busy := ?_ }
    intro hWaits hNone
    have hSame := (hState.placed which).busy hWaits hNone
    rw [← Option.some.inj hSame] at hNone
    exact absurd hNone hActive
  mapped := by
    refine { hState.mapped with busy := ?_ }
    intro workspace which hFirst hNone
    have hSame := hState.mapped.busy workspace which hFirst hNone
    rw [← Option.some.inj hSame] at hNone
    exact absurd hNone hActive
  inOrder := hState.inOrder
  counted := hState.counted
  bounded := hState.bounded
  settled := hState.settled

variable {workspaceId : Workspace}

/- A queue without jobs is forgotten. -/
theorem drop_invariant
    (hState : Invariant (some queue) state)
    (hThere :
      state.workspaces.get workspaceId = some queue)
    (hWaiting : (state.queues queue).waiting = [])
    (hActive : (state.queues queue).active = none) :
    Invariant none
      { state with
        workspaces := state.workspaces.delete workspaceId } := by
  have hMapped := hState.mapped
  have hKept : ∀ workspace which,
      (state.workspaces.delete workspaceId).get workspace =
          some which →
        workspace ≠ workspaceId ∧
          state.workspaces.get workspace = some which := by
    intro workspace which hFirst
    rw [OrderedMap.get_delete] at hFirst
    split at hFirst
    · cases hFirst
    · rename_i hOther
      exact ⟨hOther, hFirst⟩
  refine
    ⟨?_, ⟨?_, ?_, ?_, ?_⟩, hState.inOrder, hState.counted,
      hState.bounded, hState.settled⟩
  · intro which
    refine { hState.placed which with busy := ?_ }
    intro hWaits hNone
    have hSame := (hState.placed which).busy hWaits hNone
    rw [← Option.some.inj hSame] at hWaits
    exact absurd hWaiting hWaits
  · intro id job hJob hLive
    have hFound := hMapped.found id job hJob hLive
    rw [OrderedMap.get_delete]
    split
    · rename_i hSame
      rw [hSame, hThere] at hFound
      have hQueue := Option.some.inj hFound
      cases hPlace : job.stage.place with
      | waiting =>
        have hMem :=
          ((hState.placed queue).waits id).mpr
            ⟨job, hJob, hQueue.symm, hPlace⟩
        rw [hWaiting] at hMem
        cases hMem
      | turn =>
        have hTurn :=
          ((hState.placed queue).active id).mpr
            ⟨job, hJob, hQueue.symm, hPlace⟩
        rw [hActive] at hTurn
        cases hTurn
      | gone => exact absurd hPlace hLive
    · exact hFound
  · intro workspace other which hFirst hSecond
    exact
      hMapped.alone _ _ _ (hKept workspace which hFirst).2
        (hKept other which hSecond).2
  · intro workspace which hFirst hNone
    rcases hKept workspace which hFirst with ⟨hOther, hBefore⟩
    have hSame := hMapped.busy workspace which hBefore hNone
    rw [← Option.some.inj hSame] at hBefore
    exact absurd (hMapped.alone _ _ _ hBefore hThere) hOther
  · intro workspace which hFirst
    exact
      hMapped.known workspace which
        (hKept workspace which hFirst).2

/- A queue whose turn was open is served or dropped. -/
theorem next_invariant
    (hState : Invariant (some queue) state)
    (hThere :
      state.workspaces.get workspaceId = some queue)
    (hClosed :
      state.closed = true →
        (state.queues queue).active = none →
          (state.queues queue).waiting = []) :
    Invariant none (state.next workspaceId queue) := by
  unfold next
  simp only [hThere, ↓reduceIte]
  split
  · rename_i hActive
    exact
      served_invariant hState
        (Option.isSome_iff_ne_none.mp hActive)
  · rename_i hActive
    rw [Bool.not_eq_true, Option.isSome_eq_false_iff,
      Option.isNone_iff_eq_none] at hActive
    split
    · rename_i hNow
      have hWaiting := hClosed hNow hActive
      rw [hWaiting]
      exact drop_invariant hState hThere hWaiting hActive
    · split
      · rename_i first waiting hWaiting
        exact start_invariant hState hActive hWaiting
      · rename_i hWaiting
        exact drop_invariant hState hThere hWaiting hActive

end Safety

end Resolutions

end ArktsServer
