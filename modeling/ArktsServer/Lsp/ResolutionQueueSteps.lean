import ArktsServer.Lsp.ResolutionQueueInvariant

/-
  Every step of the detail queues keeps their invariant, and
  a queue that is closed stays empty.

  Key definitions include:
    * `cancelAll`, `Cleared`

  Correctness is proven by:
    * `cancel_invariant`, `clear_invariant`
    * `run_invariant`, `microtask_invariant`
    * `step_invariant`
-/

namespace ArktsServer

namespace Resolutions

open CompletionResolutionQueue

section Safety

variable {Workspace Reason Value : Type}
  [DecidableEq Workspace]
variable {old job : PendingResolution Workspace Reason Value}
variable {jobs : List (PendingResolution Workspace Reason Value)}
variable {id : JobId}
variable {state : CompletionResolutionQueue Workspace Reason Value}
variable {place : Place} {queue : QueueId} {other : JobId}
variable {except next : Option QueueId}
variable {workspaceId : Workspace}

----------
-- Cancelling
----------

/-
  While a job waits another one has its turn, so that nothing
  else happens.
-/
theorem cancel_eq
    (hState : Invariant none state)
    (hOld : state.jobs[id]? = some old)
    (reason : Settlement Reason Value) :
    state.cancel id reason =
      if old.stage.place = .waiting then
        (state.setQueue old.queue
          ((state.queues old.queue).without id)).finished id
          { old with
            settlements := old.settlements ++ [reason] }
      else
        state := by
  have hPlaced := hState.placed
  have hContains :
      (state.queues old.queue).waiting.contains id = true ↔
        old.stage.place = .waiting := by
    rw [List.contains_iff_mem, (hPlaced old.queue).waits id]
    constructor
    · rintro ⟨found, hFound, _, hPlace⟩
      rw [hOld] at hFound
      rw [Option.some.inj hFound]
      exact hPlace
    · exact fun hPlace => ⟨old, hOld, rfl, hPlace⟩
  unfold cancel
  simp only [hOld, hContains]
  split
  · rename_i hPlace
    have hMem :=
      ((hPlaced old.queue).waits id).mpr ⟨old, hOld, rfl, hPlace⟩
    have hBusy : (state.queues old.queue).active ≠ none := by
      intro hNone
      cases (hPlaced old.queue).busy
        (List.ne_nil_of_mem hMem) hNone
    have hOther : (state.queues old.queue).active ≠ some id := by
      intro hActive
      exact
        Nat.lt_irrefl _
          ((hPlaced old.queue).first id hActive id hMem)
    have hSome :
        (state.queues old.queue).active.isSome = true :=
      Option.isSome_iff_ne_none.mpr hBusy
    unfold next finished setQueue setJob WorkspaceQueue.without
    simp only [Function.update_self, hSome, ↓reduceIte, hOther]
  · rfl

theorem cancel_invariant
    (hState : Invariant none state)
    (id : JobId)
    (reason : Settlement Reason Value) :
    Invariant none (state.cancel id reason) := by
  cases hOld : state.jobs[id]? with
  | none =>
    unfold cancel
    rw [hOld]
    exact hState
  | some old =>
    rw [cancel_eq hState hOld]
    split
    · rename_i hPlace
      have hLive : old.stage.place ≠ .gone := by
        rw [hPlace]
        exact fun hNever => by cases hNever
      have hNone := hState.settled old (List.mem_of_getElem? hOld)
      rw [Stage.waiting_of_place hPlace] at hNone
      have hSettled :
          (old.settlements ++ [reason]).length = 1 := by
        rw [List.length_append, hNone]
        rfl
      have hMem :=
        ((hState.placed old.queue).waits id).mpr
          ⟨old, hOld, rfl, hPlace⟩
      refine
        served_invariant
          (finished_invariant hState hOld hLive rfl rfl
            hSettled) ?_
      intro hNone
      change
        (Function.update state.queues old.queue
          ((state.queues old.queue).without id)
            old.queue).active = none
        at hNone
      rw [Function.update_self] at hNone
      unfold WorkspaceQueue.without at hNone
      simp only at hNone
      split at hNone
      · rename_i hActive
        exact
          Nat.lt_irrefl _
            ((hState.placed old.queue).first id hActive id hMem)
      · cases (hState.placed old.queue).busy
          (List.ne_nil_of_mem hMem) hNone
    · exact hState

/- Cancelling leaves no job behind that waits. -/
theorem cancel_place
    (hState : Invariant none state)
    (id : JobId)
    (reason : Settlement Reason Value)
    (queue : QueueId) :
    ((state.cancel id reason).queues queue).waiting =
        (state.queues queue).waiting.erase id ∧
      (state.cancel id reason).workspaces =
        state.workspaces ∧
      (state.cancel id reason).closed = state.closed := by
  have hErase : id ∉ (state.queues queue).waiting →
      (state.queues queue).waiting =
        (state.queues queue).waiting.erase id :=
    fun hNot => (List.erase_of_not_mem hNot).symm
  cases hOld : state.jobs[id]? with
  | none =>
    have hNot : id ∉ (state.queues queue).waiting := by
      intro hMem
      rcases ((hState.placed queue).waits id).mp hMem with
        ⟨job, hJob, _⟩
      rw [hOld] at hJob
      cases hJob
    unfold cancel
    rw [hOld]
    exact ⟨hErase hNot, rfl, rfl⟩
  | some old =>
    rw [cancel_eq hState hOld]
    have hWhere : id ∈ (state.queues queue).waiting →
        queue = old.queue ∧ old.stage.place = .waiting := by
      intro hMem
      rcases ((hState.placed queue).waits id).mp hMem with
        ⟨job, hJob, hQueue, hPlace⟩
      rw [hOld] at hJob
      rw [Option.some.inj hJob]
      exact ⟨hQueue.symm, hPlace⟩
    split
    · refine ⟨?_, rfl, rfl⟩
      change
        (Function.update state.queues old.queue
          ((state.queues old.queue).without id) queue).waiting = _
      rw [Function.update_apply]
      split
      · rename_i hSame
        rw [hSame]
        rfl
      · rename_i hOther
        exact hErase fun hMem => hOther (hWhere hMem).1
    · rename_i hPlace
      exact ⟨hErase fun hMem => hPlace (hWhere hMem).2, rfl, rfl⟩

----------
-- Clearing
----------

def cancelAll
    (state : CompletionResolutionQueue Workspace Reason Value)
    (waiting : List JobId) :
    CompletionResolutionQueue Workspace Reason Value :=
  waiting.foldl
    (fun state job => state.cancel job .queueClosed) state

/- Jobs that are cancelled wait no more. -/
theorem cancelAll_spec
    (hState : Invariant none state)
    (waiting : List JobId) :
    Invariant none (cancelAll state waiting) ∧
      (cancelAll state waiting).workspaces =
        state.workspaces ∧
      (cancelAll state waiting).closed = state.closed ∧
      ∀ queue,
        (∀ id ∈ ((cancelAll state waiting).queues
            queue).waiting,
          id ∈ (state.queues queue).waiting) ∧
        ∀ id ∈ waiting,
          id ∉ ((cancelAll state waiting).queues
            queue).waiting := by
  induction waiting generalizing state with
  | nil =>
    refine ⟨hState, rfl, rfl, ?_⟩
    intro queue
    exact
      ⟨fun _ hThere => hThere, fun _ hNever => by
        cases hNever⟩
  | cons first waiting ih =>
    have hNext := cancel_invariant hState first .queueClosed
    rcases ih hNext with ⟨hInv, hMap, hClosed, hRest⟩
    have hPlaces := cancel_place hState first .queueClosed
    refine
      ⟨hInv, hMap.trans (hPlaces 0).2.1,
        hClosed.trans (hPlaces 0).2.2, ?_⟩
    intro queue
    have hSub : ∀ id ∈
        ((cancelAll (state.cancel first .queueClosed)
          waiting).queues queue).waiting,
        id ≠ first ∧ id ∈ (state.queues queue).waiting := by
      intro id hId
      have hThere := (hRest queue).1 id hId
      rw [(hPlaces queue).1,
        (hState.placed queue).nodup.mem_erase_iff] at hThere
      exact hThere
    refine ⟨fun id hId => (hSub id hId).2, ?_⟩
    intro id hId hThere
    rcases List.mem_cons.mp hId with hSame | hLater
    · exact (hSub id hThere).1 hSame
    · exact (hRest queue).2 id hLater hThere

/- Queues that are cleared are empty. -/
theorem cancelQueues_spec
    (hState : Invariant none state)
    (queues : List QueueId) :
    let after :=
      queues.foldl
        (fun state id =>
          cancelAll state (state.queues id).waiting)
        state
    Invariant none after ∧
      after.workspaces = state.workspaces ∧
      after.closed = state.closed ∧
      ∀ queue,
        (∀ id ∈ (after.queues queue).waiting,
          id ∈ (state.queues queue).waiting) ∧
        (queue ∈ queues → (after.queues queue).waiting = []) := by
  induction queues generalizing state with
  | nil =>
    refine ⟨hState, rfl, rfl, ?_⟩
    intro queue
    exact
      ⟨fun _ hThere => hThere, fun hNever => by
        cases hNever⟩
  | cons first queues ih =>
    rcases cancelAll_spec hState
        (state.queues first).waiting with
      ⟨hInv, hMap, hClosed, hGone⟩
    rcases ih hInv with ⟨hInv', hMap', hClosed', hGone'⟩
    refine ⟨hInv', hMap'.trans hMap, hClosed'.trans hClosed, ?_⟩
    intro queue
    refine ⟨?_, ?_⟩
    · intro id hId
      exact (hGone queue).1 id ((hGone' queue).1 id hId)
    · intro hQueue
      rcases List.mem_cons.mp hQueue with hSame | hLater
      · rw [List.eq_nil_iff_forall_not_mem]
        intro id hId
        have hThere := (hGone' queue).1 id hId
        have hWaited := (hGone queue).1 id hThere
        rw [hSame] at hThere hWaited
        exact (hGone first).2 id hWaited hThere
      · exact (hGone' queue).2 hLater

/- What holds between cancellations holds of a clearing. -/
theorem clear_relates
    {R :
      CompletionResolutionQueue Workspace Reason Value →
        CompletionResolutionQueue Workspace Reason Value →
          Prop}
    (hRefl : ∀ state, R state state)
    (hTrans :
      ∀ first second third,
        R first second → R second third → R first third)
    (hCancel :
      ∀ state id,
        Invariant none state →
          R state (state.cancel id .queueClosed))
    (hState : Invariant none state) :
    R { state with closed := true } state.clear := by
  have hAll : ∀ (waiting : List JobId)
      (before : CompletionResolutionQueue Workspace Reason Value),
      Invariant none before →
        R before (cancelAll before waiting) := by
    intro waiting
    induction waiting with
    | nil => exact fun before _ => hRefl before
    | cons first waiting ih =>
      intro before hBefore
      exact
        hTrans _ _ _ (hCancel before first hBefore)
          (ih _ (cancel_invariant hBefore first .queueClosed))
  have hFold : ∀ (queues : List QueueId)
      (before : CompletionResolutionQueue Workspace Reason Value),
      Invariant none before →
        R before
          (queues.foldl
            (fun state id =>
              cancelAll state (state.queues id).waiting)
            before) := by
    intro queues
    induction queues with
    | nil => exact fun before _ => hRefl before
    | cons first queues ih =>
      intro before hBefore
      exact
        hTrans _ _ _ (hAll _ before hBefore)
          (ih _
            (cancelAll_spec hBefore
              (before.queues first).waiting).1)
  exact
    hFold state.workspaces.values { state with closed := true }
      { hState with }

theorem clear_invariant
    (hState : Invariant none state) :
    Invariant none state.clear ∧
      state.clear.workspaces = state.workspaces ∧
      state.clear.closed = true ∧
      ∀ queue, (state.clear.queues queue).waiting = [] := by
  have hClosing :
      Invariant none { state with closed := true } :=
        { hState with }
  rcases cancelQueues_spec hClosing
      state.workspaces.values with
    ⟨hInv, hMap, hClosed, hGone⟩
  refine ⟨hInv, hMap, hClosed, ?_⟩
  intro queue
  rw [List.eq_nil_iff_forall_not_mem]
  intro id hId
  have hThere := (hGone queue).1 id hId
  rcases ((hState.placed queue).waits id).mp hThere with
    ⟨job, hJob, hQueue, hPlace⟩
  have hFound :=
    hState.mapped.found id job hJob (by
      rw [hPlace]
      exact fun hNever => by cases hNever)
  have hValue : queue ∈ state.workspaces.values := by
    have hEntry := OrderedMap.get_eq_some_iff.mp hFound
    rw [hQueue] at hEntry
    exact List.mem_map.mpr ⟨_, hEntry, rfl⟩
  have hEmpty := (hGone queue).2 hValue
  rw [List.eq_nil_iff_forall_not_mem] at hEmpty
  exact hEmpty id hId

----------
-- Admission
----------

variable {workspaceQueue : WorkspaceQueue}

omit [DecidableEq Workspace] in
/- A queue that is open may have its turn given. -/
theorem Placed.opened
    (hPlaced : Placed none jobs queue workspaceQueue) :
    Placed next jobs queue workspaceQueue :=
  hPlaced.congr (fun _ _ _ => Iff.rfl)
    (fun hNever => by cases hNever)

variable {workspaces : OrderedMap Workspace QueueId}
variable {nextQueue : QueueId}
variable {queues : QueueId → WorkspaceQueue}

/- The jobs that are live are in queues that are known. -/
theorem Mapped.not_at
    (hMapped :
      Mapped except workspaces nextQueue queues jobs)
    (hPlace : place ≠ .gone) :
    ¬ At jobs place nextQueue id := by
  rintro ⟨job, hJob, hQueue, rfl⟩
  have hLess :=
    hMapped.known _ _ (hMapped.found id job hJob hPlace)
  exact absurd hQueue (Nat.ne_of_lt hLess)

/- A workspace gets a queue of its own. -/
theorem Mapped.created
    (hMapped : Mapped none workspaces nextQueue queues jobs)
    (hGet : workspaces.get workspaceId = none) :
    Mapped (some nextQueue)
      (workspaces.set workspaceId nextQueue) (nextQueue + 1)
      (Function.update queues nextQueue {}) jobs := by
  have hLess : ∀ workspace which,
      workspaces.get workspace = some which → which ≠ nextQueue :=
    fun workspace which hThere =>
      Nat.ne_of_lt (hMapped.known workspace which hThere)
  refine ⟨?_, ?_, ?_, ?_⟩
  · intro id job hJob hLive
    have hFound := hMapped.found id job hJob hLive
    rw [OrderedMap.get_set]
    split
    · rename_i hSame
      rw [hSame, hGet] at hFound
      cases hFound
    · exact hFound
  · intro workspace other which hFirst hSecond
    rw [OrderedMap.get_set] at hFirst hSecond
    split at hFirst
    · rename_i hSame
      rw [← Option.some.inj hFirst] at hSecond
      split at hSecond
      · rename_i hSame'
        rw [hSame, hSame']
      · exact absurd rfl (hLess other _ hSecond)
    · split at hSecond
      · rw [← Option.some.inj hSecond] at hFirst
        exact absurd rfl (hLess workspace _ hFirst)
      · exact hMapped.alone _ _ _ hFirst hSecond
  · intro workspace which hFirst hNone
    rw [OrderedMap.get_set] at hFirst
    split at hFirst
    · exact hFirst
    · rw [Function.update_of_ne
        (hLess workspace which hFirst)] at hNone
      cases hMapped.busy workspace which hFirst hNone
  · intro workspace which hFirst
    rw [OrderedMap.get_set] at hFirst
    split at hFirst
    · rw [← Option.some.inj hFirst]
      exact Nat.lt_succ_self _
    · exact
        Nat.lt_succ_of_lt (hMapped.known workspace which hFirst)

theorem queueOf_invariant
    (hState : Invariant none state)
    (workspaceId : Workspace) :
    Invariant (some (state.queueOf workspaceId).2)
        (state.queueOf workspaceId).1 ∧
      (state.queueOf workspaceId).1.workspaces.get
          workspaceId = some (state.queueOf workspaceId).2 := by
  unfold queueOf
  cases hGet : state.workspaces.get workspaceId with
  | some queue =>
    refine
      ⟨{ hState with
          placed := fun which => (hState.placed which).opened
          mapped := { hState.mapped with busy := ?_ } },
        hGet⟩
    intro workspace which hFirst hNone
    cases hState.mapped.busy workspace which hFirst hNone
  | none =>
    have hEmpty : ∀ (place : Place) (id : JobId),
        place ≠ .gone →
          ¬ At state.jobs place state.nextQueue id :=
      fun _ _ => hState.mapped.not_at
    refine
      ⟨⟨?_, hState.mapped.created hGet, hState.inOrder,
        hState.counted, hState.bounded, hState.settled⟩,
        (OrderedMap.get_set ..).trans (if_pos rfl)⟩
    refine
      placed_update hState.placed
        ⟨?_, ?_, List.Pairwise.nil, ?_, fun _ _ => rfl⟩
        (fun _ _ _ _ _ => Iff.rfl)
        (fun _ _ hNever => by cases hNever)
    · exact fun id =>
        iff_of_false List.not_mem_nil
          (hEmpty .waiting id (by decide))
    · refine fun id => iff_of_false ?_ (hEmpty .turn id (by decide))
      exact fun hNever => by cases hNever
    · exact fun _ hNever => by cases hNever

omit [DecidableEq Workspace] in
/- A new job waits behind all others. -/
theorem Placed.push
    (hPlaced : Placed (some queue) jobs queue workspaceQueue)
    (hQueue : job.queue = queue)
    (hPlace : job.stage.place = .waiting) :
    Placed (some queue) (jobs ++ [job]) queue
      { workspaceQueue with
        waiting := workspaceQueue.waiting ++ [jobs.length] } := by
  have hWaits : ∀ id ∈ workspaceQueue.waiting,
      id < jobs.length :=
    fun id hMem => ((hPlaced.waits id).mp hMem).lt_length
  refine ⟨?_, ?_, ?_, ?_, fun _ _ => rfl⟩
  · intro id
    rw [at_append, List.mem_append, List.mem_singleton,
      hPlaced.waits]
    simp only [hQueue, hPlace, and_true]
  · intro id
    rw [at_append, ← hPlaced.active, hPlace]
    simp only [reduceCtorEq, and_false, or_false]
  · refine
      List.pairwise_append.mpr
        ⟨hPlaced.ordered, List.pairwise_singleton _ _, ?_⟩
    intro id hId later hLater
    rw [List.mem_singleton.mp hLater]
    exact hWaits id hId
  · intro id hTurn later hLater
    rcases List.mem_append.mp hLater with hOld | hNew
    · exact hPlaced.first id hTurn later hOld
    · rw [List.mem_singleton.mp hNew]
      exact ((hPlaced.active id).mp hTurn).lt_length

omit [DecidableEq Workspace] in
/- What was executed came before a new job. -/
theorem inOrder_append
    {executed : List JobId}
    (hOrder : InOrder executed jobs)
    (job : PendingResolution Workspace Reason Value) :
    InOrder executed (jobs ++ [job]) := by
  have hBack : ∀ done ∈ executed,
      ∀ (found : PendingResolution Workspace Reason Value),
        (jobs ++ [job])[done]? = some found →
          jobs[done]? = some found := by
    intro done hDone found hFound
    rcases get_append.mp hFound with hOld | ⟨hNew, _⟩
    · exact hOld
    · exact absurd hNew (Nat.ne_of_lt (hOrder.known done hDone))
  refine ⟨?_, ?_, ?_⟩
  · intro done hDone
    rw [List.length_append]
    exact Nat.lt_add_right _ (hOrder.known done hDone)
  · refine hOrder.sorted.imp_of_mem ?_
    intro first second hFirst hSecond hSorted job other hJob
      hOther
    exact
      hSorted job other (hBack first hFirst job hJob)
        (hBack second hSecond other hOther)
  · intro done hDone id job other hJob hOther hSame hStage
    rcases get_append.mp hOther with hOld | ⟨hNew, _⟩
    · exact
        hOrder.later done hDone id job other
          (hBack done hDone job hJob) hOld hSame hStage
    · rw [hNew]
      exact hOrder.known done hDone

theorem push_invariant
    (hState : Invariant (some queue) state)
    (hThere :
      state.workspaces.get workspaceId = some queue)
    (hRoom : state.pending < maxCompletionResolutions)
    (signal : SignalId) :
    Invariant (some queue)
      { state.setQueue queue
          { state.queues queue with
            waiting :=
              (state.queues queue).waiting
                ++ [state.jobs.length] } with
        pending := state.pending + 1
        jobs :=
          state.jobs
            ++ [{ workspaceId := workspaceId
                  queue := queue
                  signal := signal }] } := by
  have hMapped := hState.mapped
  refine
    ⟨?_, ⟨?_, hMapped.alone, ?_, hMapped.known⟩,
      inOrder_append hState.inOrder _, ?_, ?_, ?_⟩
  · refine
      placed_update hState.placed
        ((hState.placed queue).push rfl rfl) ?_
        (fun _ _ hSame => hSame)
    intro which hOther place _ id
    rw [at_append]
    exact or_iff_left fun hNever => hOther hNever.2.1.symm
  · intro id job hJob hLive
    rcases get_append.mp hJob with hOld | ⟨_, rfl⟩
    · exact hMapped.found id job hOld hLive
    · exact hThere
  · intro workspace which hFirst hNone
    unfold setQueue at hNone
    simp only [Function.update_apply] at hNone
    split at hNone
    · rename_i hSame
      rw [hSame]
    · exact hMapped.busy workspace which hFirst hNone
  · change state.pending + 1 = _
    rw [List.countP_append, hState.counted]
    rfl
  · change state.pending + 1 ≤ maxCompletionResolutions
    omega
  · exact
      List.forall_mem_append.mpr
        ⟨hState.settled, List.forall_mem_singleton.mpr rfl⟩

theorem run_invariant
    (hState : Invariant none state)
    (workspaceId : Workspace)
    (signal : SignalId) :
    Invariant none (state.run workspaceId signal) := by
  have hRefuse : ∀ reason,
      Invariant none (state.refuse reason) :=
    fun _ =>
      { hState with }
  unfold run
  split
  · exact hRefuse _
  · split
    · exact hRefuse _
    · rename_i hOpen
      split
      · exact hRefuse _
      · rename_i hRoom
        rcases queueOf_invariant hState workspaceId with
          ⟨hFound, hThere⟩
        have hPending :
            (state.queueOf workspaceId).1.pending =
                state.pending ∧
              (state.queueOf workspaceId).1.closed =
                state.closed := by
          unfold queueOf
          split
          · exact ⟨rfl, rfl⟩
          · exact ⟨rfl, rfl⟩
        have hLess :
            (state.queueOf workspaceId).1.pending <
              maxCompletionResolutions := by
          rw [hPending.1]
          exact Int.not_le.mp hRoom
        refine
          next_invariant
            (push_invariant hFound hThere hLess signal)
            hThere ?_
        intro hNever
        change (state.queueOf workspaceId).1.closed = true
          at hNever
        rw [hPending.2] at hNever
        exact absurd hNever hOpen

----------
-- Microtasks
----------

omit [DecidableEq Workspace] in
theorem Stage.place_of_unexecuted
    {stage : Stage Reason Value}
    (hStage : stage.unexecuted = true) :
    stage.place ≠ .gone := by
  cases stage with
  | waiting => exact fun hNever => by cases hNever
  | starting => exact fun hNever => by cases hNever
  | executing => cases hStage
  | answered _ => cases hStage
  | settled => cases hStage
  | finished => cases hStage

/- Who is to be executed came later than who has its turn. -/
theorem turn_first
    {later : JobId}
    (hState : Invariant none state)
    (hOld : state.jobs[id]? = some old)
    (hTurn : old.stage.place = .turn)
    (hOther : state.jobs[later]? = some job)
    (hNe : later ≠ id)
    (hSame : old.workspaceId = job.workspaceId)
    (hUnexecuted : job.stage.unexecuted = true) :
    id < later := by
  have hLive := Stage.place_of_unexecuted hUnexecuted
  have hActive :=
    ((hState.placed old.queue).active id).mpr
      ⟨old, hOld, rfl, hTurn⟩
  have hFound :=
    hState.mapped.found id old hOld (by
      rw [hTurn]
      decide)
  have hFound' := hState.mapped.found later job hOther hLive
  rw [← hSame, hFound] at hFound'
  have hQueue := Option.some.inj hFound'
  cases hPlace : job.stage.place with
  | waiting =>
    refine (hState.placed old.queue).first id hActive later ?_
    exact
      ((hState.placed old.queue).waits later).mpr
        ⟨job, hOther, hQueue.symm, hPlace⟩
  | turn =>
    have hActive' :=
      ((hState.placed old.queue).active later).mpr
        ⟨job, hOther, hQueue.symm, hPlace⟩
    rw [hActive] at hActive'
    exact absurd (Option.some.inj hActive').symm hNe
  | gone => exact absurd hPlace hLive

/- The job that has its turn is executed. -/
theorem execute_inOrder
    (hState : Invariant none state)
    (hOld : state.jobs[id]? = some old)
    (hStage : old.stage = .starting) :
    InOrder (state.executed ++ [id])
      (state.jobs.set id { old with stage := .executing }) := by
  have hChanged :
      Changed old { old with stage := .executing } := by
    refine ⟨rfl, rfl, (fun hNever => by cases hNever), ?_⟩
    have hNone := hState.settled old (List.mem_of_getElem? hOld)
    rw [hStage] at hNone
    exact hNone
  have hOrder := inOrder_set hState.inOrder hOld hChanged
  have hTurn : old.stage.place = .turn := by
    rw [hStage]
    rfl
  refine ⟨?_, ?_, ?_⟩
  · intro done hDone
    rcases List.mem_append.mp hDone with hBefore | hNow
    · exact hOrder.known done hBefore
    · rw [List.mem_singleton.mp hNow, List.length_set]
      exact (List.getElem?_eq_some_iff.mp hOld).1
  · refine
      List.pairwise_append.mpr
        ⟨hOrder.sorted, List.pairwise_singleton _ _, ?_⟩
    intro done hDone now hNow job other hJob hOther hSame
    rw [List.mem_singleton.mp hNow] at hOther ⊢
    rw [get_set hOld, if_pos rfl] at hOther
    rw [← Option.some.inj hOther] at hSame
    rw [get_set hOld] at hJob
    split at hJob
    · rename_i hThis
      refine
        absurd
          (hState.inOrder.later done hDone id old old
            (hThis ▸ hOld) hOld rfl ?_) ?_
      · rw [hStage]
        rfl
      · rw [hThis]
        exact Nat.lt_irrefl _
    · refine
        hState.inOrder.later done hDone id job old hJob hOld
          hSame ?_
      rw [hStage]
      rfl
  · intro done hDone later job other hJob hOther hSame
      hUnexecuted
    rcases List.mem_append.mp hDone with hBefore | hNow
    · exact
        hOrder.later done hBefore later job other hJob hOther
          hSame hUnexecuted
    · rw [List.mem_singleton.mp hNow] at hJob ⊢
      rw [get_set hOld, if_pos rfl] at hJob
      rw [get_set hOld] at hOther
      split at hOther
      · rw [← Option.some.inj hOther] at hUnexecuted
        cases hUnexecuted
      · rename_i hNe
        refine
          turn_first hState hOld hTurn hOther hNe ?_ hUnexecuted
        rw [← hSame, ← Option.some.inj hJob]

omit [DecidableEq Workspace] in
/- The job that has its turn does not wait. -/
theorem without_active
    (hPlaced : Placed except jobs queue workspaceQueue)
    (hTurn : workspaceQueue.active = some id) :
    workspaceQueue.without id =
      { workspaceQueue with active := none } := by
  have hNot : id ∉ workspaceQueue.waiting :=
    fun hMem => Nat.lt_irrefl _ (hPlaced.first id hTurn id hMem)
  unfold WorkspaceQueue.without
  rw [if_pos hTurn, List.erase_of_not_mem hNot]

theorem microtask_invariant
    (hState : Invariant none state)
    (hClosed :
      state.closed = true →
        ∀ queue, (state.queues queue).waiting = [])
    (id : JobId) :
    Invariant none (state.microtask id) := by
  unfold microtask
  cases hOld : state.jobs[id]? with
  | none => exact hState
  | some old =>
    have hDone := hState.settled old (List.mem_of_getElem? hOld)
    simp only
    split
    · rename_i hStage
      rw [hStage] at hDone
      split
      · refine
          setJob_invariant hState hOld
            ⟨rfl, rfl, (fun hNever => by cases hNever), hDone⟩ ?_
        rw [hStage]
        rfl
      · have hMoved :
            Invariant none
              (state.setJob id
                { old with stage := .executing }) :=
          setJob_invariant hState hOld
            ⟨rfl, rfl, (fun hNever => by cases hNever), hDone⟩
            (by rw [hStage]; rfl)
        exact
          ⟨hMoved.placed, hMoved.mapped,
            execute_inOrder hState hOld hStage,
            hMoved.counted, hMoved.bounded, hMoved.settled⟩
    · rename_i settlement hStage
      rw [hStage] at hDone
      refine
        setJob_invariant hState hOld
          ⟨rfl, rfl, (fun hNever => by cases hNever), ?_⟩ ?_
      · rw [List.length_append, hDone]
        rfl
      · rw [hStage]
        rfl
    · rename_i hStage
      rw [hStage] at hDone
      have hTurn :
          (state.queues old.queue).active = some id :=
        ((hState.placed old.queue).active id).mpr
          ⟨old, hOld, rfl, by rw [hStage]; rfl⟩
      have hLive : old.stage.place ≠ .gone := by
        rw [hStage]
        exact fun hNever => by cases hNever
      have hLeft :=
        finished_invariant hState hOld hLive rfl rfl hDone
      rw [without_active (hState.placed _) hTurn] at hLeft
      refine next_invariant hLeft ?_ ?_
      · exact hState.mapped.found id old hOld hLive
      · intro hNow _
        change
          (Function.update state.queues old.queue
            { state.queues old.queue with active := none }
              old.queue).waiting = []
        rw [Function.update_self]
        exact hClosed hNow old.queue
    · exact hState
    · exact hState
    · exact hState

----------
-- Steps
----------

/- No job waits in a queue that is closed. -/
def Cleared
    (state : CompletionResolutionQueue Workspace Reason Value) :
    Prop :=
  state.closed = true →
    ∀ queue, (state.queues queue).waiting = []

theorem empty_invariant :
    Invariant none
        (CompletionResolutionQueue.empty :
          CompletionResolutionQueue Workspace Reason Value) ∧
      Cleared
        (CompletionResolutionQueue.empty :
          CompletionResolutionQueue Workspace Reason Value) := by
  have hBound : (0 : Int) ≤ maxCompletionResolutions := by
    decide
  refine
    ⟨⟨fun queue => ⟨?_, ?_, List.Pairwise.nil, ?_, ?_⟩,
      ⟨?_, ?_, ?_, ?_⟩, ⟨?_, List.Pairwise.nil, ?_⟩, rfl,
      hBound, ?_⟩, fun _ _ => rfl⟩
  · intro id
    refine iff_of_false (fun hNever => by cases hNever) ?_
    rintro ⟨job, hNever, _⟩
    cases hNever
  · intro id
    refine iff_of_false (fun hNever => by cases hNever) ?_
    rintro ⟨job, hNever, _⟩
    cases hNever
  · intro id hNever
    cases hNever
  · intro hNever
    exact absurd rfl hNever
  · intro id job hNever
    cases hNever
  · intro workspace other queue hNever
    cases hNever
  · intro workspace queue hNever
    cases hNever
  · intro workspace queue hNever
    cases hNever
  · intro done hNever
    cases hNever
  · intro done hNever
    cases hNever
  · intro job hNever
    cases hNever

/- A listener only forgets itself before it cancels. -/
theorem listener_invariant
    (hState : Invariant none state)
    (hOld : state.jobs[id]? = some old) :
    Invariant none
      (state.setJob id { old with listening := false }) :=
  setJob_invariant hState hOld
    ⟨rfl, rfl, fun hNow => hNow,
      hState.settled old (List.mem_of_getElem? hOld)⟩
    rfl

/- A closed queue serves nobody. -/
theorem next_closed
    (state : CompletionResolutionQueue Workspace Reason Value)
    (hClosed : state.closed = true)
    (workspaceId : Workspace)
    (queue : QueueId) :
    (state.next workspaceId queue).queues = state.queues ∧
      (state.next workspaceId queue).jobs = state.jobs ∧
      (state.next workspaceId queue).closed = true := by
  unfold next
  simp only [hClosed, ↓reduceIte]
  split
  · exact ⟨rfl, rfl, hClosed⟩
  · split
    · exact ⟨rfl, rfl, rfl⟩
    · exact ⟨rfl, rfl, hClosed⟩

omit [DecidableEq Workspace] in
theorem start_closed
    (state : CompletionResolutionQueue Workspace Reason Value)
    (id : JobId) :
    (state.start id).closed = state.closed := by
  unfold start
  split
  · rfl
  · rfl

/- Only `clear` closes. -/
theorem next_open
    (hOpen : state.closed = false)
    (workspaceId : Workspace)
    (queue : QueueId) :
    (state.next workspaceId queue).closed = false := by
  unfold next
  simp only
  split
  · exact hOpen
  · split
    · split
      · exact hOpen
      · exact hOpen
    · split
      · rw [start_closed]
        exact hOpen
      · split
        · exact hOpen
        · exact hOpen

theorem run_open
    (workspaceId : Workspace)
    (signal : SignalId)
    (hClosed :
      (state.run workspaceId signal).closed = true) :
    ∃ reason,
      state.closed = true ∧
        state.run workspaceId signal = state.refuse reason := by
  unfold run at hClosed ⊢
  split
  · rename_i reason hSignal
    rw [hSignal] at hClosed
    exact ⟨_, hClosed, rfl⟩
  · rename_i hSignal
    rw [hSignal] at hClosed
    simp only at hClosed
    split
    · rename_i hNow
      exact ⟨_, hNow, rfl⟩
    · rename_i hOpen
      rw [if_neg hOpen] at hClosed
      split
      · rename_i hFull
        rw [if_pos hFull] at hClosed
        exact ⟨_, hClosed, rfl⟩
      · rename_i hRoom
        rw [if_neg hRoom] at hClosed
        have hFound :
            (state.queueOf workspaceId).1.closed = false := by
          unfold queueOf
          split
          · exact Bool.not_eq_true _ ▸ hOpen
          · exact Bool.not_eq_true _ ▸ hOpen
        unfold enqueue at hClosed
        rw [next_open] at hClosed
        · cases hClosed
        · exact hFound

theorem microtask_cleared
    (hState : Cleared state)
    (id : JobId) :
    Cleared (state.microtask id) := by
  intro hClosed queue
  unfold microtask at hClosed ⊢
  cases hOld : state.jobs[id]? with
  | none =>
    rw [hOld] at hClosed
    exact hState hClosed queue
  | some old =>
    rw [hOld] at hClosed
    simp only at hClosed ⊢
    split
    · rename_i hStage
      rw [hStage] at hClosed
      simp only at hClosed
      split
      · rename_i hSignal
        rw [hSignal] at hClosed
        exact hState hClosed queue
      · rename_i hSignal
        rw [hSignal] at hClosed
        exact hState hClosed queue
    · rename_i hStage
      rw [hStage] at hClosed
      exact hState hClosed queue
    · rename_i hStage
      rw [hStage] at hClosed
      simp only at hClosed
      cases hNow : state.closed with
      | false =>
        rw [next_open] at hClosed
        · cases hClosed
        · exact hNow
      | true =>
        have hSame :=
          next_closed
            ((state.finished id old).setQueue old.queue
              { (state.finished id old).queues
                  old.queue with active := none })
            hNow old.workspaceId old.queue
        rw [hSame.1]
        change
          (Function.update state.queues old.queue
            { state.queues old.queue with
              active := none } queue).waiting = []
        rw [Function.update_apply]
        split
        · exact hState hNow old.queue
        · exact hState hNow queue
    · rename_i hStage
      rw [hStage] at hClosed
      exact hState hClosed queue
    · rename_i hStage
      rw [hStage] at hClosed
      exact hState hClosed queue
    · rename_i hStage
      rw [hStage] at hClosed
      exact hState hClosed queue

theorem result_invariant
    (hState : Invariant none state)
    (id : JobId)
    (settlement : Settlement Reason Value) :
    Invariant none (state.result id settlement) := by
  unfold result
  cases hOld : state.jobs[id]? with
  | none => exact hState
  | some old =>
    have hDone := hState.settled old (List.mem_of_getElem? hOld)
    simp only
    split
    · rename_i hStage
      rw [hStage] at hDone
      refine
        setJob_invariant hState hOld
          ⟨rfl, rfl, (fun hNever => by cases hNever), hDone⟩ ?_
      rw [hStage]
      rfl
    · exact hState
    · exact hState
    · exact hState
    · exact hState
    · exact hState

omit [DecidableEq Workspace] in
theorem result_queues
    (state : CompletionResolutionQueue Workspace Reason Value)
    (id : JobId)
    (settlement : Settlement Reason Value) :
    (state.result id settlement).queues = state.queues ∧
      (state.result id settlement).workspaces =
        state.workspaces ∧
      (state.result id settlement).closed = state.closed ∧
      (state.result id settlement).executed =
        state.executed := by
  unfold result
  split
  · exact ⟨rfl, rfl, rfl, rfl⟩
  · split
    · exact ⟨rfl, rfl, rfl, rfl⟩
    · exact ⟨rfl, rfl, rfl, rfl⟩
    · exact ⟨rfl, rfl, rfl, rfl⟩
    · exact ⟨rfl, rfl, rfl, rfl⟩
    · exact ⟨rfl, rfl, rfl, rfl⟩
    · exact ⟨rfl, rfl, rfl, rfl⟩

/- An abort changes nothing but the job and its queue. -/
theorem aborted_spec
    (hState : Invariant none state)
    (id : JobId) :
    Invariant none (state.aborted id) ∧
      (state.aborted id).workspaces = state.workspaces ∧
      (state.aborted id).closed = state.closed ∧
      ∀ queue,
        (state.queues queue).waiting = [] →
          ((state.aborted id).queues queue).waiting = [] := by
  unfold aborted
  cases hOld : state.jobs[id]? with
  | none => exact ⟨hState, rfl, rfl, fun _ hNone => hNone⟩
  | some old =>
    simp only
    cases hSignal : state.signals old.signal with
    | none => exact ⟨hState, rfl, rfl, fun _ hNone => hNone⟩
    | some reason =>
      simp only
      split
      · have hHeard := listener_invariant hState hOld
        have hPlace := cancel_place hHeard id (.rejected reason)
        refine
          ⟨cancel_invariant hHeard id (.rejected reason),
            (hPlace 0).2.1, (hPlace 0).2.2, ?_⟩
        intro queue hNone
        rw [(hPlace queue).1]
        change (state.queues queue).waiting.erase id = []
        rw [hNone]
        rfl
      · exact ⟨hState, rfl, rfl, fun _ hNone => hNone⟩

theorem step_invariant
    (state : CompletionResolutionQueue Workspace Reason Value)
    (event : Event Workspace Reason Value)
    (hState : Invariant none state ∧ Cleared state) :
    Invariant none (step state event) ∧
      Cleared (step state event) := by
  rcases hState with ⟨hInv, hCleared⟩
  cases event with
  | run workspaceId signal =>
    refine ⟨run_invariant hInv workspaceId signal, ?_⟩
    intro hClosed queue
    rcases run_open workspaceId signal hClosed with
      ⟨reason, hBefore, hRefused⟩
    change
      ((state.run workspaceId signal).queues queue).waiting = []
    rw [hRefused]
    exact hCleared hBefore queue
  | microtask id =>
    exact
      ⟨microtask_invariant hInv hCleared id,
        microtask_cleared hCleared id⟩
  | result id settlement =>
    rcases result_queues state id settlement with
      ⟨hQueues, _, hSame, _⟩
    refine ⟨result_invariant hInv id settlement, ?_⟩
    intro hClosed queue
    change
      ((state.result id settlement).queues queue).waiting = []
    rw [hQueues]
    exact hCleared (hSame ▸ hClosed) queue
  | abort signal reason =>
    exact ⟨{ hInv with }, hCleared⟩
  | listener id =>
    rcases aborted_spec hInv id with
      ⟨hNext, _, hSame, hNone⟩
    refine ⟨hNext, ?_⟩
    intro hClosed queue
    exact hNone queue (hCleared (hSame ▸ hClosed) queue)
  | clear =>
    rcases clear_invariant hInv with ⟨hNext, _, _, hNone⟩
    exact ⟨hNext, fun _ => hNone⟩

end Safety

end Resolutions

end ArktsServer
