import ArktsServer.Lsp.ResolutionQueueSteps

/-
  What the detail queues promise in every order of events,
  and where the count of jobs and the end of a job part.

  Key definitions include:
    * `Served`, `Moves`
    * `unsettled`, `handingOver`

  Correctness is proven by:
    * `step_moves`, `draining_step`
    * `resolution_queue_safe`
    * `not_resolution_queue_exact`
-/

namespace ArktsServer

namespace Resolutions

open CompletionResolutionQueue

section Moves

variable {Workspace Reason Value : Type}
  [DecidableEq Workspace]

----------
-- Forward
----------

def Stage.rank : Stage Reason Value → Nat
| .waiting => 0
| .starting => 1
| .executing => 2
| .answered _ => 3
| .settled => 4
| .finished => 5

/- A job goes on, and what it has settled stays. -/
structure Later
    (old job : PendingResolution Workspace Reason Value) :
    Prop where
  workspaceId : job.workspaceId = old.workspaceId
  settlements : old.settlements <+: job.settlements
  rank : old.stage.rank ≤ job.stage.rank

omit [DecidableEq Workspace] in
theorem Later.refl
    (job : PendingResolution Workspace Reason Value) :
    Later job job :=
  ⟨rfl, List.prefix_refl _, Nat.le_refl _⟩

omit [DecidableEq Workspace] in
theorem Later.trans
    {first second third :
      PendingResolution Workspace Reason Value}
    (hFirst : Later first second)
    (hSecond : Later second third) : Later first third :=
  ⟨hSecond.workspaceId.trans hFirst.workspaceId,
    hFirst.settlements.trans hSecond.settlements,
    Nat.le_trans hFirst.rank hSecond.rank⟩

def Forward
    (before after :
      List (PendingResolution Workspace Reason Value)) :
    Prop :=
  ∀ (id : JobId)
    (old : PendingResolution Workspace Reason Value),
    before[id]? = some old →
      ∃ job, after[id]? = some job ∧ Later old job

omit [DecidableEq Workspace] in
theorem Forward.refl
    (jobs : List (PendingResolution Workspace Reason Value)) :
    Forward jobs jobs :=
  fun _ old hOld => ⟨old, hOld, Later.refl old⟩

omit [DecidableEq Workspace] in
theorem Forward.trans
    {first second third :
      List (PendingResolution Workspace Reason Value)}
    (hFirst : Forward first second)
    (hSecond : Forward second third) : Forward first third := by
  intro id old hOld
  rcases hFirst id old hOld with ⟨middle, hMiddle, hLater⟩
  rcases hSecond id middle hMiddle with ⟨job, hJob, hLater'⟩
  exact ⟨job, hJob, hLater.trans hLater'⟩

variable {jobs : List (PendingResolution Workspace Reason Value)}
variable {old job : PendingResolution Workspace Reason Value}
variable {id : JobId}

omit [DecidableEq Workspace] in
theorem forward_set
    (hOld : jobs[id]? = some old)
    (hLater : Later old job) :
    Forward jobs (jobs.set id job) := by
  intro other found hFound
  rw [get_set hOld]
  split
  · rename_i hSame
    rw [hSame, hOld] at hFound
    rw [← Option.some.inj hFound]
    exact ⟨job, rfl, hLater⟩
  · exact ⟨found, hFound, Later.refl found⟩

omit [DecidableEq Workspace] in
theorem forward_append
    (jobs : List (PendingResolution Workspace Reason Value))
    (job : PendingResolution Workspace Reason Value) :
    Forward jobs (jobs ++ [job]) :=
  fun _ old hOld =>
    ⟨old, get_append.mpr (Or.inl hOld), Later.refl old⟩

omit [DecidableEq Workspace] in
theorem forward_start
    (state : CompletionResolutionQueue Workspace Reason Value)
    (hWaits :
      ∀ old, state.jobs[id]? = some old →
        old.stage = .waiting) :
    Forward state.jobs (state.start id).jobs ∧
      (state.start id).executed = state.executed ∧
      (state.start id).workspaces = state.workspaces := by
  unfold start
  split
  · exact ⟨Forward.refl _, rfl, rfl⟩
  · rename_i old hOld
    refine ⟨forward_set hOld ⟨rfl, List.prefix_refl _, ?_⟩,
      rfl, rfl⟩
    rw [hWaits old hOld]
    exact Nat.zero_le _

variable {state : CompletionResolutionQueue Workspace Reason Value}

/- What the next turn changes. -/
theorem next_moves
    {workspaceId : Workspace}
    {queue : QueueId}
    (hState : Invariant (some queue) state)
    (hThere :
      state.workspaces.get workspaceId = some queue) :
    Forward state.jobs (state.next workspaceId queue).jobs ∧
      (state.next workspaceId queue).executed =
        state.executed ∧
      ∀ workspace which,
        state.workspaces.get workspace = some which →
          (state.next workspaceId queue).workspaces.get
              workspace = some which ∨
            ((state.next workspaceId queue).queues which).active
                = none ∧
              ((state.next workspaceId queue).queues
                which).waiting = [] := by
  have hDrop :
      (state.queues queue).active = none →
        (state.queues queue).waiting = [] →
          ∀ workspace which,
            state.workspaces.get workspace = some which →
              (state.workspaces.delete workspaceId).get
                  workspace = some which ∨
                (state.queues which).active = none ∧
                  (state.queues which).waiting = [] := by
    intro hActive hWaiting workspace which hFound
    rw [OrderedMap.get_delete]
    split
    · rename_i hSame
      rw [hSame, hThere] at hFound
      rw [← Option.some.inj hFound]
      exact Or.inr ⟨hActive, hWaiting⟩
    · exact Or.inl hFound
  unfold next
  simp only [hThere, ↓reduceIte]
  split
  · exact ⟨Forward.refl _, rfl, fun _ _ hFound => Or.inl hFound⟩
  · rename_i hActive
    rw [Bool.not_eq_true, Option.isSome_eq_false_iff,
      Option.isNone_iff_eq_none] at hActive
    split
    · split
      · rename_i hWaiting
        exact
          ⟨Forward.refl _, rfl,
            hDrop hActive (List.isEmpty_iff.mp hWaiting)⟩
      · exact
          ⟨Forward.refl _, rfl, fun _ _ hFound => Or.inl hFound⟩
    · split
      · rename_i first waiting hWaiting
        have hMem : first ∈ (state.queues queue).waiting := by
          rw [hWaiting]
          exact List.mem_cons_self
        have hWaits : ∀ old,
            state.jobs[first]? = some old →
              old.stage = .waiting := by
          intro old hOld
          rcases ((hState.placed queue).waits first).mp hMem with
            ⟨job, hJob, _, hPlace⟩
          rw [hOld] at hJob
          rw [Option.some.inj hJob]
          exact Stage.waiting_of_place hPlace
        have hStart :=
          forward_start
            (state.setQueue queue
              { state.queues queue with
                waiting := waiting })
            hWaits
        refine ⟨hStart.1, hStart.2.1, ?_⟩
        intro workspace which hFound
        rw [hStart.2.2]
        exact Or.inl hFound
      · rename_i hWaiting
        exact ⟨Forward.refl _, rfl, hDrop hActive hWaiting⟩

theorem cancel_moves
    (hState : Invariant none state)
    (id : JobId)
    (reason : Settlement Reason Value) :
    Forward state.jobs (state.cancel id reason).jobs ∧
      (state.cancel id reason).executed = state.executed := by
  cases hOld : state.jobs[id]? with
  | none =>
    unfold cancel
    rw [hOld]
    exact ⟨Forward.refl _, rfl⟩
  | some old =>
    rw [cancel_eq hState hOld]
    split
    · rename_i hPlace
      refine
        ⟨forward_set hOld ⟨rfl, List.prefix_append _ _, ?_⟩, rfl⟩
      rw [Stage.waiting_of_place hPlace]
      exact Nat.zero_le _
    · exact ⟨Forward.refl _, rfl⟩

theorem clear_moves
    (hState : Invariant none state) :
    Forward state.jobs state.clear.jobs ∧
      state.clear.executed = state.executed :=
  clear_relates
    (R := fun before after =>
      Forward before.jobs after.jobs ∧
        after.executed = before.executed)
    (fun _ => ⟨Forward.refl _, rfl⟩)
    (fun _ _ _ hFirst hSecond =>
      ⟨hFirst.1.trans hSecond.1, hSecond.2.trans hFirst.2⟩)
    (fun _ id hBefore => cancel_moves hBefore id .queueClosed)
    hState

----------
-- What a Step Changes
----------

/- An event that is the next one of a job. -/
def Due
    (stage : Stage Reason Value)
    (id : JobId) : Event Workspace Reason Value → Prop
| .microtask other =>
    other = id ∧
      (stage = .starting ∨ stage = .settled ∨
        ∃ settlement, stage = .answered settlement)
| .result other _ => other = id ∧ stage = .executing
| .run _ _ => False
| .abort _ _ => False
| .listener _ => False
| .clear => False

structure Moves
    (before :
      CompletionResolutionQueue Workspace Reason Value)
    (event : Event Workspace Reason Value)
    (after :
      CompletionResolutionQueue Workspace Reason Value) :
    Prop where
  forward : Forward before.jobs after.jobs
  due :
    ∀ (id : JobId)
      (old : PendingResolution Workspace Reason Value),
      before.jobs[id]? = some old →
        Due old.stage id event →
          ∃ job,
            after.jobs[id]? = some job ∧
              old.stage.rank < job.stage.rank
  executed :
    after.executed = before.executed ∨
      ∃ id old,
        event = .microtask id ∧
          before.jobs[id]? = some old ∧
          old.stage = .starting ∧
          before.signals old.signal = none ∧
          after.executed = before.executed ++ [id]
  dropped :
    ∀ workspace queue,
      before.workspaces.get workspace = some queue →
        after.workspaces.get workspace = some queue ∨
          (after.queues queue).active = none ∧
            (after.queues queue).waiting = []

theorem run_moves
    (hState : Invariant none state)
    (workspaceId : Workspace)
    (signal : SignalId) :
    Forward state.jobs (state.run workspaceId signal).jobs ∧
      (state.run workspaceId signal).executed =
        state.executed ∧
      ∀ workspace which,
        state.workspaces.get workspace = some which →
          (state.run workspaceId signal).workspaces.get
              workspace = some which ∨
            ((state.run workspaceId signal).queues
                which).active = none ∧
              ((state.run workspaceId signal).queues
                which).waiting = [] := by
  have hRefuse : ∀ reason,
      Forward state.jobs (state.refuse reason).jobs ∧
        (state.refuse reason).executed = state.executed ∧
        ∀ workspace which,
          state.workspaces.get workspace = some which →
            (state.refuse reason).workspaces.get workspace =
                some which ∨
              ((state.refuse reason).queues which).active =
                  none ∧
                ((state.refuse reason).queues which).waiting =
                  [] :=
    fun _ =>
      ⟨Forward.refl _, rfl, fun _ _ hFound => Or.inl hFound⟩
  unfold run
  split
  · exact hRefuse _
  · split
    · exact hRefuse _
    · split
      · exact hRefuse _
      · rename_i hRoom
        rcases queueOf_invariant hState workspaceId with
          ⟨hFound, hThere⟩
        have hOwn :
            (state.queueOf workspaceId).1.jobs = state.jobs ∧
              (state.queueOf workspaceId).1.pending =
                state.pending ∧
              (state.queueOf workspaceId).1.executed =
                state.executed ∧
              ∀ workspace which,
                state.workspaces.get workspace = some which →
                  (state.queueOf workspaceId).1.workspaces.get
                    workspace = some which := by
          unfold queueOf
          split
          · exact ⟨rfl, rfl, rfl, fun _ _ hKept => hKept⟩
          · rename_i hNone
            refine ⟨rfl, rfl, rfl, ?_⟩
            intro workspace which hKept
            rw [OrderedMap.get_set]
            split
            · rename_i hSame
              rw [hSame, hNone] at hKept
              cases hKept
            · exact hKept
        have hLess :
            (state.queueOf workspaceId).1.pending <
              maxCompletionResolutions := by
          rw [hOwn.2.1]
          exact Int.not_le.mp hRoom
        rcases next_moves
            (push_invariant hFound hThere hLess signal)
            hThere with
          ⟨hForward, hExecuted, hDropped⟩
        refine ⟨?_, hExecuted.trans hOwn.2.2.1, ?_⟩
        · refine Forward.trans ?_ hForward
          rw [← hOwn.1]
          exact forward_append _ _
        · intro workspace which hKept
          exact
            hDropped workspace which
              (hOwn.2.2.2 workspace which hKept)

/- The turn of a job that is done goes on. -/
theorem handOver_moves
    (hState : Invariant none state)
    {old : PendingResolution Workspace Reason Value}
    (hOld : state.jobs[id]? = some old)
    (hStage : old.stage = .settled) :
    Forward
        (state.jobs.set id
          { old with listening := false, stage := .finished })
        (state.microtask id).jobs ∧
      (state.microtask id).executed = state.executed ∧
      ∀ workspace which,
        state.workspaces.get workspace = some which →
          (state.microtask id).workspaces.get workspace =
              some which ∨
            ((state.microtask id).queues which).active =
                none ∧
              ((state.microtask id).queues which).waiting =
                [] := by
  have hDone := hState.settled old (List.mem_of_getElem? hOld)
  rw [hStage] at hDone
  have hTurn : (state.queues old.queue).active = some id :=
    ((hState.placed old.queue).active id).mpr
      ⟨old, hOld, rfl, by rw [hStage]; rfl⟩
  have hLive : old.stage.place ≠ .gone := by
    rw [hStage]
    exact fun hNever => by cases hNever
  have hLeft := finished_invariant hState hOld hLive rfl rfl hDone
  rw [without_active (hState.placed _) hTurn] at hLeft
  unfold microtask
  simp only [hOld, hStage]
  exact next_moves hLeft (hState.mapped.found id old hOld hLive)

omit [DecidableEq Workspace] in
/- A job goes on where it is. -/
theorem due_set
    {jobs after :
      List (PendingResolution Workspace Reason Value)}
    (hOld : jobs[id]? = some old)
    (hRank : old.stage.rank < job.stage.rank)
    (hAfter : Forward (jobs.set id job) after)
    (other : JobId)
    (found : PendingResolution Workspace Reason Value)
    (hFound : jobs[other]? = some found)
    (hSame : other = id) :
    ∃ job,
      after[other]? = some job ∧
        found.stage.rank < job.stage.rank := by
  rw [hSame, hOld] at hFound
  have hJob : (jobs.set id job)[id]? = some job := by
    rw [get_set hOld, if_pos rfl]
  rcases hAfter id job hJob with ⟨last, hLast, hLater⟩
  rw [hSame, ← Option.some.inj hFound]
  exact ⟨last, hLast, Nat.lt_of_lt_of_le hRank hLater.rank⟩

/- The job of the event comes to a later stage. -/
theorem set_moves
    {after : CompletionResolutionQueue Workspace Reason Value}
    (hOld : state.jobs[id]? = some old)
    (hJobs : Forward (state.jobs.set id job) after.jobs)
    (hLess : old.stage.rank < job.stage.rank)
    (hWorkspace : job.workspaceId = old.workspaceId)
    (hSettlements : old.settlements <+: job.settlements)
    (hExecuted :
      after.executed = state.executed ∨
        old.stage = .starting ∧
          state.signals old.signal = none ∧
          after.executed = state.executed ++ [id])
    (hDropped :
      ∀ workspace queue,
        state.workspaces.get workspace = some queue →
          after.workspaces.get workspace = some queue ∨
            (after.queues queue).active = none ∧
              (after.queues queue).waiting = []) :
    Moves state (.microtask id) after where
  forward :=
    (forward_set hOld
      ⟨hWorkspace, hSettlements, Nat.le_of_lt hLess⟩).trans hJobs
  due other found hFound hDue :=
    due_set hOld hLess hJobs other found hFound hDue.1.symm
  executed :=
    hExecuted.imp_right fun hStarts =>
      ⟨id, old, rfl, hOld, hStarts⟩
  dropped := hDropped

theorem microtask_moves
    (hState : Invariant none state)
    (id : JobId) :
    Moves state (.microtask id) (state.microtask id) := by
  have hKept : ∀ workspace queue,
      state.workspaces.get workspace = some queue →
        state.workspaces.get workspace = some queue ∨
          (state.queues queue).active = none ∧
            (state.queues queue).waiting = [] :=
    fun _ _ hFound => Or.inl hFound
  cases hOld : state.jobs[id]? with
  | none =>
    have hSame : state.microtask id = state := by
      unfold microtask
      simp only [hOld]
    rw [hSame]
    refine ⟨Forward.refl _, ?_, Or.inl rfl, hKept⟩
    rintro other found hFound ⟨rfl, _⟩
    rw [hOld] at hFound
    cases hFound
  | some old =>
    have hRests : state.microtask id = state →
        (∀ found, state.jobs[id]? = some found →
          ¬ Due found.stage id
            (.microtask id : Event Workspace Reason Value)) →
        Moves state (.microtask id) (state.microtask id) := by
      intro hSame hNot
      rw [hSame]
      refine ⟨Forward.refl _, ?_, Or.inl rfl, hKept⟩
      rintro other found hFound ⟨rfl, hDue⟩
      exact absurd ⟨rfl, hDue⟩ (hNot found hFound)
    have hIdle : ∀ stage, old.stage = stage →
        ¬ Due stage id
          (.microtask id : Event Workspace Reason Value) →
        ∀ found, state.jobs[id]? = some found →
          ¬ Due found.stage id
            (.microtask id : Event Workspace Reason Value) := by
      intro stage hStage hNot found hFound
      rw [hOld] at hFound
      rw [← Option.some.inj hFound, hStage]
      exact hNot
    cases hStage : old.stage with
    | waiting =>
      refine hRests ?_ (hIdle _ hStage (by simp [Due]))
      unfold microtask
      simp only [hOld, hStage]
    | starting =>
      cases hSignal : state.signals old.signal with
      | some reason =>
        have hSame :
            state.microtask id =
              state.setJob id
                { old with
                  stage := .answered (.rejected reason) } := by
          unfold microtask
          simp only [hOld, hStage, hSignal]
        have hLess :
            old.stage.rank <
              Stage.rank
                (.answered (.rejected reason) :
                  Stage Reason Value) := by
          rw [hStage]
          simp [Stage.rank]
        rw [hSame]
        exact
          set_moves hOld (Forward.refl _) hLess rfl
            (List.prefix_refl _) (Or.inl rfl) hKept
      | none =>
        have hSame :
            state.microtask id =
              { state.setJob id
                  { old with stage := .executing } with
                executed := state.executed ++ [id] } := by
          unfold microtask
          simp only [hOld, hStage, hSignal]
        have hLess :
            old.stage.rank <
              Stage.rank (.executing : Stage Reason Value) := by
          rw [hStage]
          simp [Stage.rank]
        rw [hSame]
        exact
          set_moves hOld (Forward.refl _) hLess rfl
            (List.prefix_refl _)
            (Or.inr ⟨hStage, hSignal, rfl⟩) hKept
    | executing =>
      refine hRests ?_ (hIdle _ hStage (by simp [Due]))
      unfold microtask
      simp only [hOld, hStage]
    | answered settlement =>
      have hSame :
          state.microtask id =
            state.setJob id
              { old with
                stage := .settled
                settlements :=
                  old.settlements ++ [settlement] } := by
        unfold microtask
        simp only [hOld, hStage]
      have hLess :
          old.stage.rank <
            Stage.rank (.settled : Stage Reason Value) := by
        rw [hStage]
        exact Nat.lt_succ_self _
      rw [hSame]
      exact
        set_moves hOld (Forward.refl _) hLess rfl
          (List.prefix_append _ _) (Or.inl rfl) hKept
    | settled =>
      rcases handOver_moves hState hOld hStage with
        ⟨hForward, hExecuted, hDropped⟩
      have hLess :
          old.stage.rank <
            Stage.rank (.finished : Stage Reason Value) := by
        rw [hStage]
        simp [Stage.rank]
      exact
        set_moves hOld hForward hLess rfl (List.prefix_refl _)
          (Or.inl hExecuted) hDropped
    | finished =>
      refine hRests ?_ (hIdle _ hStage (by simp [Due]))
      unfold microtask
      simp only [hOld, hStage]

omit [DecidableEq Workspace] in
theorem result_moves
    (state : CompletionResolutionQueue Workspace Reason Value)
    (id : JobId)
    (settlement : Settlement Reason Value) :
    Forward state.jobs (state.result id settlement).jobs ∧
      ∀ old,
        state.jobs[id]? = some old →
          old.stage = .executing →
            ∃ job,
              (state.result id settlement).jobs[id]? =
                  some job ∧
                old.stage.rank < job.stage.rank := by
  unfold result
  cases hOld : state.jobs[id]? with
  | none =>
    refine ⟨Forward.refl _, ?_⟩
    intro old hNever
    cases hNever
  | some found =>
    have hOther : found.stage ≠ .executing →
        Forward state.jobs state.jobs ∧
          ∀ old,
            some found = some old →
              old.stage = .executing →
                ∃ job,
                  state.jobs[id]? = some job ∧
                    old.stage.rank < job.stage.rank := by
      intro hNot
      refine ⟨Forward.refl _, ?_⟩
      intro old hSame hNever
      rw [← Option.some.inj hSame] at hNever
      exact absurd hNever hNot
    simp only
    split
    · rename_i hStage
      have hLess :
          found.stage.rank <
            Stage.rank
              (.answered settlement : Stage Reason Value) := by
        rw [hStage]
        exact Nat.lt_succ_self _
      refine
        ⟨forward_set hOld
          ⟨rfl, List.prefix_refl _, Nat.le_of_lt hLess⟩, ?_⟩
      intro old hSame _
      exact
        due_set hOld hLess (Forward.refl _) id old
          (hOld.trans hSame) rfl
    all_goals
      rename_i hStage
      exact
        hOther (by
          rw [hStage]
          exact fun hNever => by cases hNever)

theorem aborted_moves
    (hState : Invariant none state)
    (id : JobId) :
    Forward state.jobs (state.aborted id).jobs ∧
      (state.aborted id).executed = state.executed := by
  unfold aborted
  cases hOld : state.jobs[id]? with
  | none => exact ⟨Forward.refl _, rfl⟩
  | some old =>
    simp only
    cases hSignal : state.signals old.signal with
    | none => exact ⟨Forward.refl _, rfl⟩
    | some reason =>
      simp only
      split
      · rcases cancel_moves (listener_invariant hState hOld)
            id (.rejected reason) with
          ⟨hForward, hExecuted⟩
        refine ⟨Forward.trans ?_ hForward, hExecuted⟩
        exact
          forward_set hOld
            ⟨rfl, List.prefix_refl _, Nat.le_refl _⟩
      · exact ⟨Forward.refl _, rfl⟩

theorem step_moves
    (hState : Invariant none state)
    (event : Event Workspace Reason Value) :
    Moves state event (step state event) := by
  have hKept : ∀ workspace queue,
      state.workspaces.get workspace = some queue →
        state.workspaces.get workspace = some queue ∨
          (state.queues queue).active = none ∧
            (state.queues queue).waiting = [] :=
    fun _ _ hFound => Or.inl hFound
  cases event with
  | run workspaceId signal =>
    rcases run_moves hState workspaceId signal with
      ⟨hForward, hExecuted, hDropped⟩
    exact
      ⟨hForward, fun _ _ _ hNever => hNever.elim,
        Or.inl hExecuted, hDropped⟩
  | microtask id => exact microtask_moves hState id
  | result id settlement =>
    rcases result_moves state id settlement with
      ⟨hForward, hDue⟩
    rcases result_queues state id settlement with
      ⟨hQueues, hMap, _, hExecuted⟩
    refine ⟨hForward, ?_, Or.inl hExecuted, ?_⟩
    · rintro other old hOld ⟨rfl, hStage⟩
      exact hDue old hOld hStage
    · intro workspace queue hFound
      refine Or.inl ?_
      change
        (state.result id settlement).workspaces.get
          workspace = some queue
      rw [hMap]
      exact hFound
  | abort signal reason =>
    exact
      ⟨Forward.refl _, fun _ _ _ hNever => hNever.elim,
        Or.inl rfl, hKept⟩
  | listener id =>
    rcases aborted_moves hState id with
      ⟨hForward, hExecuted⟩
    refine
      ⟨hForward, fun _ _ _ hNever => hNever.elim,
        Or.inl hExecuted, ?_⟩
    intro workspace queue hFound
    refine Or.inl ?_
    change
      (state.aborted id).workspaces.get workspace = some queue
    rw [(aborted_spec hState id).2.1]
    exact hFound
  | clear =>
    rcases clear_moves hState with ⟨hForward, hExecuted⟩
    refine
      ⟨hForward, fun _ _ _ hNever => hNever.elim,
        Or.inl hExecuted, ?_⟩
    intro workspace queue hFound
    refine Or.inl ?_
    change state.clear.workspaces.get workspace = some queue
    rw [(clear_invariant hState).2.1]
    exact hFound

----------
-- After Clearing
----------

/- No job gets its turn. -/
def NoStart
    (before after :
      List (PendingResolution Workspace Reason Value)) :
    Prop :=
  ∀ (id : JobId)
    (job : PendingResolution Workspace Reason Value),
    after[id]? = some job →
      job.stage = .starting →
        ∃ old, before[id]? = some old ∧ old.stage = .starting

omit [DecidableEq Workspace] in
theorem NoStart.refl
    (jobs : List (PendingResolution Workspace Reason Value)) :
    NoStart jobs jobs :=
  fun _ job hJob hStage => ⟨job, hJob, hStage⟩

omit [DecidableEq Workspace] in
theorem NoStart.trans
    {first second third :
      List (PendingResolution Workspace Reason Value)}
    (hFirst : NoStart first second)
    (hSecond : NoStart second third) :
    NoStart first third := by
  intro id job hJob hStage
  rcases hSecond id job hJob hStage with
    ⟨middle, hMiddle, hStarting⟩
  exact hFirst id middle hMiddle hStarting

omit [DecidableEq Workspace] in
theorem noStart_set
    (hOld : jobs[id]? = some old)
    (hStage :
      job.stage = .starting → old.stage = .starting) :
    NoStart jobs (jobs.set id job) := by
  intro other found hFound hStarting
  rw [get_set hOld] at hFound
  split at hFound
  · rename_i hSame
    rw [← Option.some.inj hFound] at hStarting
    rw [hSame]
    exact ⟨old, hOld, hStage hStarting⟩
  · exact ⟨found, hFound, hStarting⟩

theorem cancel_noStart
    (hState : Invariant none state)
    (id : JobId)
    (reason : Settlement Reason Value) :
    NoStart state.jobs (state.cancel id reason).jobs := by
  cases hOld : state.jobs[id]? with
  | none =>
    unfold cancel
    rw [hOld]
    exact NoStart.refl _
  | some old =>
    rw [cancel_eq hState hOld]
    split
    · exact noStart_set hOld fun hNever => by cases hNever
    · exact NoStart.refl _

theorem clear_noStart
    (hState : Invariant none state) :
    NoStart state.jobs state.clear.jobs :=
  clear_relates
    (R := fun before after => NoStart before.jobs after.jobs)
    (fun _ => NoStart.refl _)
    (fun _ _ _ hFirst hSecond => hFirst.trans hSecond)
    (fun _ id hBefore => cancel_noStart hBefore id .queueClosed)
    hState

theorem microtask_noStart
    (hClosed : state.closed = true)
    (id : JobId) :
    NoStart state.jobs (state.microtask id).jobs ∧
      (state.microtask id).closed = true := by
  unfold microtask
  cases hOld : state.jobs[id]? with
  | none => exact ⟨NoStart.refl _, hClosed⟩
  | some old =>
    simp only
    split
    · split
      · exact
          ⟨noStart_set hOld (fun hNever => by cases hNever),
            hClosed⟩
      · exact
          ⟨noStart_set hOld (fun hNever => by cases hNever),
            hClosed⟩
    · exact
        ⟨noStart_set hOld (fun hNever => by cases hNever),
          hClosed⟩
    · have hNext :=
        next_closed
          ((state.finished id old).setQueue old.queue
            { (state.finished id old).queues old.queue with
              active := none })
          hClosed old.workspaceId old.queue
      refine ⟨?_, hNext.2.2⟩
      rw [hNext.2.1]
      exact noStart_set hOld fun hNever => by cases hNever
    · exact ⟨NoStart.refl _, hClosed⟩
    · exact ⟨NoStart.refl _, hClosed⟩
    · exact ⟨NoStart.refl _, hClosed⟩

theorem step_noStart
    (hState : Invariant none state)
    (hClosed : state.closed = true)
    (event : Event Workspace Reason Value) :
    NoStart state.jobs (step state event).jobs ∧
      (step state event).closed = true := by
  cases event with
  | run workspaceId signal =>
    have hRefused : ∃ reason,
        state.run workspaceId signal = state.refuse reason := by
      unfold run
      split
      · exact ⟨_, rfl⟩
      · rw [if_pos hClosed]
        exact ⟨_, rfl⟩
    rcases hRefused with ⟨reason, hRefused⟩
    unfold step
    simp only [hRefused]
    exact ⟨NoStart.refl _, hClosed⟩
  | microtask id => exact microtask_noStart hClosed id
  | result id settlement =>
    refine ⟨?_, ?_⟩
    · change
        NoStart state.jobs (state.result id settlement).jobs
      unfold result
      cases hOld : state.jobs[id]? with
      | none => exact NoStart.refl _
      | some old =>
        simp only
        split
        · exact noStart_set hOld fun hNever => by cases hNever
        · exact NoStart.refl _
        · exact NoStart.refl _
        · exact NoStart.refl _
        · exact NoStart.refl _
        · exact NoStart.refl _
    · exact
        (result_queues state id settlement).2.2.1.trans hClosed
  | abort signal reason => exact ⟨NoStart.refl _, hClosed⟩
  | listener id =>
    refine ⟨?_, (aborted_spec hState id).2.2.1.trans hClosed⟩
    change NoStart state.jobs (state.aborted id).jobs
    unfold aborted
    cases hOld : state.jobs[id]? with
    | none => exact NoStart.refl _
    | some old =>
      simp only
      split
      · exact NoStart.refl _
      · split
        · have hHeard :
              NoStart state.jobs
                (state.setJob id
                  { old with listening := false }).jobs :=
            noStart_set hOld fun hSame => hSame
          exact
            hHeard.trans
              (cancel_noStart
                (listener_invariant hState hOld) id _)
        · exact NoStart.refl _
  | clear =>
    exact ⟨clear_noStart hState, (clear_invariant hState).2.2.1⟩

/- What may be executed once the queue has been cleared. -/
structure Draining
    (cleared state :
      CompletionResolutionQueue Workspace Reason Value) :
    Prop where
  invariant : Invariant none state ∧ Cleared state
  closed : state.closed = true
  starting : NoStart cleared.jobs state.jobs
  executed :
    ∀ id ∈ state.executed,
      id ∈ cleared.executed ∨
        ∃ job,
          cleared.jobs[id]? = some job ∧
            job.stage = .starting

theorem draining_step
    {cleared : CompletionResolutionQueue Workspace Reason Value}
    (state : CompletionResolutionQueue Workspace Reason Value)
    (event : Event Workspace Reason Value)
    (hState : Draining cleared state) :
    Draining cleared (step state event) := by
  rcases step_noStart hState.invariant.1 hState.closed event
    with ⟨hNoStart, hClosed⟩
  refine
    ⟨step_invariant state event hState.invariant, hClosed,
      hState.starting.trans hNoStart, ?_⟩
  intro id hId
  rcases (step_moves hState.invariant.1 event).executed with
    hSame | ⟨job, old, _, hOld, hStage, _, hMore⟩
  · rw [hSame] at hId
    exact hState.executed id hId
  · rw [hMore, List.mem_append, List.mem_singleton] at hId
    rcases hId with hBefore | hNow
    · exact hState.executed id hBefore
    · rw [hNow]
      exact Or.inr (hState.starting job old hOld hStage)

theorem draining_clear
    (hState : Invariant none state ∧ Cleared state) :
    Draining state (step state .clear) := by
  refine
    ⟨step_invariant state .clear hState,
      (clear_invariant hState.1).2.2.1, clear_noStart hState.1,
      ?_⟩
  intro id hId
  change id ∈ state.clear.executed at hId
  rw [(clear_moves hState.1).2] at hId
  exact Or.inl hId

----------
-- Service
----------

def unsettled
    (job : PendingResolution Workspace Reason Value) : Bool :=
  job.settlements.isEmpty

/- A job that is settled and still has its turn. -/
def handingOver
    (job : PendingResolution Workspace Reason Value) : Bool :=
  match job.stage with
  | .settled => true
  | .waiting => false
  | .starting => false
  | .executing => false
  | .answered _ => false
  | .finished => false

/- What holds in every state. -/
structure Served
    (state :
      CompletionResolutionQueue Workspace Reason Value) :
    Prop where
  alone :
    ∀ (first second : JobId)
      (job other :
        PendingResolution Workspace Reason Value),
      state.jobs[first]? = some job →
        state.jobs[second]? = some other →
          job.stage = .executing →
            other.stage = .executing →
              job.workspaceId = other.workspaceId →
                first = second
  arrival :
    state.executed.Pairwise fun (first second : JobId) =>
      ∀ job other,
        state.jobs[first]? = some job →
          state.jobs[second]? = some other →
            job.workspaceId = other.workspaceId →
              first < second
  counted :
    state.pending =
      state.jobs.countP unsettled
        + state.jobs.countP handingOver
  bounded : state.pending ≤ maxCompletionResolutions
  once : ∀ job ∈ state.jobs, job.settlements.length ≤ 1
  last :
    (∀ job ∈ state.jobs,
        ∀ (id : JobId) (event : Event Workspace Reason Value),
          ¬ Due job.stage id event) →
      (∀ job ∈ state.jobs, job.settlements.length = 1) ∧
        state.pending = 0
  kept :
    ∀ (id : JobId)
      (job : PendingResolution Workspace Reason Value),
      state.jobs[id]? = some job →
        id ∈ (state.queues job.queue).waiting ∨
            (state.queues job.queue).active = some id →
          state.workspaces.get job.workspaceId =
            some job.queue
  occupied :
    ∀ queue,
      (state.queues queue).waiting ≠ [] →
        (state.queues queue).active ≠ none

omit [DecidableEq Workspace] in
theorem count_unsettled
    (hSettled :
      ∀ job ∈ jobs,
        job.settlements.length = job.stage.settlements) :
    jobs.countP live =
      jobs.countP unsettled + jobs.countP handingOver := by
  induction jobs with
  | nil => rfl
  | cons job jobs ih =>
    rw [List.forall_mem_cons] at hSettled
    have hJob := hSettled.1
    rw [List.countP_cons, List.countP_cons, List.countP_cons,
      ih hSettled.2]
    have hEmpty :
        unsettled job = (job.stage.settlements == 0) := by
      unfold unsettled
      rw [← hJob, Bool.eq_iff_iff, List.isEmpty_iff,
        beq_iff_eq, List.length_eq_zero_iff]
    rw [hEmpty]
    unfold live handingOver
    cases job.stage with
    | waiting => simp [Stage.place, Stage.settlements]; omega
    | starting => simp [Stage.place, Stage.settlements]; omega
    | executing =>
      simp [Stage.place, Stage.settlements]
      omega
    | answered _ =>
      simp [Stage.place, Stage.settlements]
      omega
    | settled => simp [Stage.place, Stage.settlements]; omega
    | finished => simp [Stage.place, Stage.settlements]

theorem Invariant.served
    (hState : Invariant none state) : Served state := by
  have hTurn : ∀ (id : JobId)
      (job : PendingResolution Workspace Reason Value),
      state.jobs[id]? = some job →
        job.stage = .executing →
          (state.queues job.queue).active = some id ∧
            state.workspaces.get job.workspaceId =
              some job.queue := by
    intro id job hJob hStage
    refine ⟨?_, hState.mapped.found id job hJob ?_⟩
    · exact
        ((hState.placed job.queue).active id).mpr
          ⟨job, hJob, rfl, by rw [hStage]; rfl⟩
    · rw [hStage]
      exact fun hNever => by cases hNever
  refine ⟨?_, hState.inOrder.sorted, ?_, hState.bounded, ?_,
    ?_, ?_, ?_⟩
  · intro first second job other hJob hOther hStage hStage'
      hSame
    rcases hTurn first job hJob hStage with ⟨hActive, hMap⟩
    rcases hTurn second other hOther hStage' with
      ⟨hActive', hMap'⟩
    rw [hSame, hMap'] at hMap
    rw [Option.some.inj hMap, hActive] at hActive'
    exact Option.some.inj hActive'
  · rw [hState.counted, count_unsettled hState.settled]
    exact Int.natCast_add _ _
  · intro job hJob
    rw [hState.settled job hJob]
    cases job.stage with
    | waiting => exact Nat.zero_le _
    | starting => exact Nat.zero_le _
    | executing => exact Nat.zero_le _
    | answered _ => exact Nat.zero_le _
    | settled => exact Nat.le_refl _
    | finished => exact Nat.le_refl _
  · intro hQuiet
    have hNoTurn : ∀ job ∈ state.jobs,
        job.stage.place ≠ .turn := by
      intro job hJob hPlace
      have hNot := hQuiet job hJob
      cases hStage : job.stage with
      | waiting => rw [hStage] at hPlace; cases hPlace
      | starting =>
        rw [hStage] at hNot
        exact hNot 0 (.microtask 0) ⟨rfl, Or.inl rfl⟩
      | executing =>
        rw [hStage] at hNot
        exact hNot 0 (.result 0 .queueFull) ⟨rfl, rfl⟩
      | answered settlement =>
        rw [hStage] at hNot
        exact
          hNot 0 (.microtask 0)
            ⟨rfl, Or.inr (Or.inr ⟨settlement, rfl⟩)⟩
      | settled =>
        rw [hStage] at hNot
        exact hNot 0 (.microtask 0) ⟨rfl, Or.inr (Or.inl rfl)⟩
      | finished => rw [hStage] at hPlace; cases hPlace
    have hGone : ∀ job ∈ state.jobs,
        job.stage.place = .gone := by
      intro job hJob
      cases hPlace : job.stage.place with
      | gone => rfl
      | turn => exact absurd hPlace (hNoTurn job hJob)
      | waiting =>
        rcases List.getElem?_of_mem hJob with ⟨id, hId⟩
        have hMem :=
          ((hState.placed job.queue).waits id).mpr
            ⟨job, hId, rfl, hPlace⟩
        cases hActive : (state.queues job.queue).active with
        | none =>
          cases (hState.placed job.queue).busy
            (List.ne_nil_of_mem hMem) hActive
        | some active =>
          rcases ((hState.placed job.queue).active
              active).mp hActive with
            ⟨other, hOther, _, hOtherPlace⟩
          exact
            absurd hOtherPlace
              (hNoTurn other (List.mem_of_getElem? hOther))
    refine ⟨?_, ?_⟩
    · intro job hJob
      rw [hState.settled job hJob]
      have hPlace := hGone job hJob
      cases hStage : job.stage with
      | waiting => rw [hStage] at hPlace; cases hPlace
      | starting => rw [hStage] at hPlace; cases hPlace
      | executing => rw [hStage] at hPlace; cases hPlace
      | answered _ => rw [hStage] at hPlace; cases hPlace
      | settled => rw [hStage] at hPlace; cases hPlace
      | finished => rfl
    · rw [hState.counted]
      have hNone : state.jobs.countP live = 0 := by
        rw [List.countP_eq_zero]
        intro job hJob hLive
        unfold live at hLive
        rw [bne_iff_ne] at hLive
        exact hLive (hGone job hJob)
      rw [hNone]
      rfl
  · intro id job hJob hThere
    refine hState.mapped.found id job hJob ?_
    rcases hThere with hWaits | hActive
    · rcases ((hState.placed job.queue).waits id).mp hWaits with
        ⟨other, hOther, _, hPlace⟩
      rw [hJob] at hOther
      rw [Option.some.inj hOther, hPlace]
      exact fun hNever => by cases hNever
    · rcases ((hState.placed job.queue).active id).mp hActive
        with ⟨other, hOther, _, hPlace⟩
      rw [hJob] at hOther
      rw [Option.some.inj hOther, hPlace]
      exact fun hNever => by cases hNever
  · intro queue hWaits hNone
    cases (hState.placed queue).busy hWaits hNone

/-
  Whatever happens in whatever order, the jobs of a workspace
  run one by one, every promise is settled once, and after a
  clearing only jobs are executed that had their turn before.
-/
theorem resolution_queue_safe
    (events : List (Event Workspace Reason Value)) :
    Served (Transition.run step .empty events) ∧
      (∀ event,
        Moves
          (Transition.run step .empty events)
          event
          (step (Transition.run step .empty events) event)) ∧
      ∀ more,
        ∀ id ∈
          (Transition.run step .empty
            (events ++ .clear :: more)).executed,
          id ∈ (Transition.run step .empty events).executed ∨
            ∃ job,
              (Transition.run step .empty events).jobs[id]? =
                  some job ∧
                job.stage = .starting := by
  have hState :
      Invariant none (Transition.run step .empty events) ∧
        Cleared (Transition.run step .empty events) :=
    Transition.run_invariant step_invariant empty_invariant
      events
  refine
    ⟨hState.1.served, fun event => step_moves hState.1 event,
      ?_⟩
  intro more id hId
  rw [Transition.run_append, Transition.run_cons] at hId
  have hDraining :=
    @Transition.run_invariant _ _ step
      (Draining (Transition.run step .empty events))
      draining_step _ (draining_clear hState) more
  exact hDraining.executed id hId

end Moves

/-
  A settled job is counted until its turn is handed over, and
  a job whose turn has come is executed after a clearing.
-/
theorem not_resolution_queue_exact :
    let runs :=
      fun events : List (Event Nat Nat Nat) =>
        Transition.run step .empty events
    let settled :=
      runs
        [.run 0 0, .microtask 0, .result 0 (.resolved 1),
          .microtask 0]
    (settled.pending = 1 ∧
        settled.jobs.countP unsettled = 0) ∧
      (runs [.run 0 0]).executed = [] ∧
        (runs [.run 0 0, .clear, .microtask 0]).executed =
          [0] := by
  decide

end Resolutions

end ArktsServer
