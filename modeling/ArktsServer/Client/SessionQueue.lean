import ArktsServer.Client.RunSafety

/-
  The statuses between the sidecar and the client: what is
  written and not yet handled is in order, every status of
  it can be accepted, and the client is not ahead of it.

  Key definitions include:
    * `Client.Entry`, `Client.Queue`
    * `Client.Starting`, `Client.Started`
    * `Client.QueueInv`

  Correctness is proven by:
    * `Client.QueueInv.move`, `Client.QueueInv.write`
    * `Client.QueueInv.readResponse`
    * `Client.QueueInv.readEvent`
    * `Client.QueueInv.resumeCancel`
    * `Client.QueueInv.resumeStart`
-/

----------
-- Entries
----------

namespace ArktsServer

namespace Client

open Sidecar SharedCell

/- A status that the client has not handled. -/
inductive Entry where
| start (snapshot : Snapshot)
| cancel (cancelled : Bool) (snapshot : Snapshot)
| event (snapshot : Snapshot)

/- The response to a catalog request. -/
def responseJson
    (key : String)
    (flag : Bool)
    (generation : Nat)
    (snapshot : Snapshot) : Json :=
  .obj
    [(key, .bool flag), ("generation", .num generation),
      ("status", snapshot.status)]

namespace Entry

def snapshot : Entry → Snapshot
| start snapshot => snapshot
| cancel _ snapshot => snapshot
| event snapshot => snapshot

def line (generation : Nat) : Entry → Line
| start snapshot =>
    .response
      (.start
        (responseJson "accepted" true generation snapshot))
| cancel cancelled snapshot =>
    .response
      (.cancel
        (responseJson "cancelled" cancelled generation
          snapshot))
| event snapshot => .event snapshot.event

/- The continuation of a response, once it is read. -/
def continuation (generation : Nat) : Entry → Continuation
| start snapshot =>
    .start (responseJson "accepted" true generation snapshot)
| cancel cancelled snapshot =>
    .cancel
      (responseJson "cancelled" cancelled generation snapshot)
| event snapshot => .start snapshot.event

end Entry

----------
-- The Queue
----------

/- What the client sees of a session. -/
structure ClientSide where
  stdout : List Line
  continuations : List Continuation
  client : CatalogRun
  failure : Option String
  workspaceIdentity : String
  current : Snapshot
  ended : Prop

/-
  Where unhandled statuses wait: resolved responses, events
  that came before the start response, and unread lines.
-/
structure Queue where
  waiting : List Entry
  buffer : List Snapshot
  lines : List Entry

namespace Queue

def entries (queue : Queue) : List Entry :=
  queue.waiting ++ queue.buffer.map .event ++ queue.lines

/- The snapshots that the watchdog still compares. -/
def watched (queue : Queue) : List Snapshot :=
  (queue.waiting.map Entry.snapshot).filter
      (fun snapshot =>
        decide (snapshot.runtime.phase ≠ .cancelling)) ++
    queue.buffer ++ queue.lines.map Entry.snapshot

end Queue

/- The start response has not been handled. -/
structure Starting
    (client : CatalogRun)
    (queue : Queue) : Prop where
  generation : client.generation = none
  cancelStarted : client.cancelStarted = false
  settled : client.settled = false
  lastProgress : client.lastProgress = none
  order :
    (queue.waiting = [] ∧ queue.buffer = [] ∧
        ∃ (snapshot : Snapshot) (events : List Snapshot),
          queue.lines =
            .start snapshot :: events.map Entry.event) ∨
      ∃ (snapshot : Snapshot) (events : List Snapshot),
        queue.waiting = [.start snapshot] ∧
          queue.lines = events.map Entry.event

/- The start response has been handled. -/
structure Started
    (generation : Nat)
    (client : CatalogRun)
    (queue : Queue) : Prop where
  generation : client.generation = some generation
  buffer : queue.buffer = []
  waiting :
    ∀ entry ∈ queue.waiting,
      ∃ cancelled snapshot, entry = .cancel cancelled snapshot
  lines :
    ∀ entry ∈ queue.lines,
      ∀ snapshot, entry ≠ .start snapshot

structure QueueInv
    (generation : Nat)
    (side : ClientSide)
    (queue : Queue) : Prop where
  stdout :
    side.stdout = queue.lines.map (Entry.line generation)
  continuations :
    side.continuations =
      queue.waiting.map (Entry.continuation generation)
  buffered :
    side.client.bufferedEvents =
      queue.buffer.map Snapshot.event
  reportable :
    ∀ entry ∈ queue.entries,
      Reportable generation side.workspaceIdentity
        side.client.cancelStarted entry.snapshot
  order :
    (queue.entries.map Entry.snapshot ++
      [side.current]).Pairwise SnapshotLe
  flags :
    ∀ snapshot,
      Entry.cancel true snapshot ∈ queue.entries →
        snapshot.runtime.phase = .cancelling
  stage :
    Starting side.client queue ∨
      Started generation side.client queue
  follows :
    Follows side.client (queue.watched ++ [side.current])
  outcome : Outcome side.client
  ending :
    side.ended →
      side.client.settled = true ∨
        ∃ snapshot,
          Entry.event snapshot ∈ queue.entries ∧
            snapshot.terminal = true
  failure : side.failure = none

----------
-- Moving On
----------

section Moving

variable {snapshots : List Snapshot}
variable {before after : Snapshot}

theorem pairwise_move
    (hOrder : (snapshots ++ [before]).Pairwise SnapshotLe)
    (hLe : SnapshotLe before after) :
    (snapshots ++ [after]).Pairwise SnapshotLe := by
  rw [List.pairwise_append] at hOrder ⊢
  rcases hOrder with ⟨hFirst, _, hLast⟩
  refine ⟨hFirst, List.pairwise_singleton _ _, ?_⟩
  intro snapshot hSnapshot last hMem
  rw [List.mem_singleton.mp hMem]
  have hBefore :=
    hLast snapshot hSnapshot before (List.mem_singleton_self _)
  exact hBefore.trans hLe

theorem pairwise_repeat
    (hOrder : (snapshots ++ [after]).Pairwise SnapshotLe) :
    (snapshots ++ [after] ++ [after]).Pairwise
      SnapshotLe := by
  rw [List.pairwise_append]
  refine ⟨hOrder, List.pairwise_singleton _ _, ?_⟩
  intro snapshot hSnapshot last hMem
  rw [List.mem_singleton.mp hMem]
  rcases List.mem_append.mp hSnapshot with hOld | hNew
  · rw [List.pairwise_append] at hOrder
    exact
      hOrder.2.2 snapshot hOld after (List.mem_singleton_self _)
  · rw [List.mem_singleton.mp hNew]
    exact SnapshotLe.refl after

theorem Follows.move
    {run : CatalogRun}
    (hFollows : Follows run (snapshots ++ [before]))
    (hLe : SnapshotLe before after) :
    Follows run (snapshots ++ [after]) := by
  intro hOpen mark hMark
  rcases hFollows hOpen mark hMark with
    ⟨snapshot, hSnapshot, hLater⟩
  refine ⟨snapshot, hSnapshot, ?_⟩
  intro next hNext
  rcases List.mem_append.mp hNext with hOld | hNew
  · exact hLater next (List.mem_append_left _ hOld)
  · rw [List.mem_singleton.mp hNew]
    have hBefore :=
      hLater before
        (List.mem_append_right _ (List.mem_singleton_self _))
    exact hBefore.trans hLe

end Moving

namespace QueueInv

variable {generation : Nat}
variable {side : ClientSide}
variable {queue : Queue}

/- The sidecar moves on without writing. -/
theorem move
    (hInv : QueueInv generation side queue)
    {current : Snapshot}
    (hLe : SnapshotLe side.current current) :
    QueueInv generation { side with current } queue :=
  { hInv with
    order := pairwise_move hInv.order hLe
    follows := hInv.follows.move hLe }

/- The client's requests are no part of the queue. -/
theorem requests
    (hInv : QueueInv generation side queue)
    (cancelRequests : List Nat) :
    QueueInv generation
      { side with
        client := { side.client with cancelRequests } }
      queue :=
  { hInv with
    stage := by
      rcases hInv.stage with hStarting | hStarted
      · exact Or.inl { hStarting with }
      · exact Or.inr { hStarted with } }

/- The sidecar writes a line. -/
theorem write
    (hInv : QueueInv generation side queue)
    (entry : Entry)
    (ended : Prop)
    (hStage :
      (∃ snapshot, entry = .event snapshot) ∨
        (side.client.cancelStarted = true ∧
          ∃ cancelled snapshot,
            entry = .cancel cancelled snapshot))
    (hReportable :
      Reportable generation side.workspaceIdentity
        side.client.cancelStarted entry.snapshot)
    (hLe : SnapshotLe side.current entry.snapshot)
    (hFlag :
      ∀ snapshot,
        entry = .cancel true snapshot →
          snapshot.runtime.phase = .cancelling)
    (hOver :
      ended →
        side.ended ∨
          ∃ snapshot,
            entry = .event snapshot ∧
              snapshot.terminal = true) :
    QueueInv generation
      { side with
        stdout := side.stdout ++ [entry.line generation]
        current := entry.snapshot
        ended }
      { queue with lines := queue.lines ++ [entry] } := by
  have hEntries :
      Queue.entries
          { queue with lines := queue.lines ++ [entry] } =
        queue.entries ++ [entry] := by
    simp only [Queue.entries, List.append_assoc]
  have hWatched :
      Queue.watched
          { queue with lines := queue.lines ++ [entry] } =
        queue.watched ++ [entry.snapshot] := by
    simp only [Queue.watched, List.map_append,
      List.map_singleton, List.append_assoc]
  refine
    { hInv with
      stdout := ?_
      reportable := ?_
      order := ?_
      flags := ?_
      stage := ?_
      follows := ?_
      ending := ?_ }
  · simp only [hInv.stdout, List.map_append,
      List.map_singleton]
  · intro other hOther
    rw [hEntries] at hOther
    rcases List.mem_append.mp hOther with hOld | hNew
    · exact hInv.reportable other hOld
    · rw [List.mem_singleton.mp hNew]
      exact hReportable
  · rw [hEntries, List.map_append, List.map_singleton]
    exact pairwise_repeat (pairwise_move hInv.order hLe)
  · intro snapshot hMem
    rw [hEntries] at hMem
    rcases List.mem_append.mp hMem with hOld | hNew
    · exact hInv.flags snapshot hOld
    · exact hFlag snapshot (List.mem_singleton.mp hNew).symm
  · rcases hInv.stage with hStarting | hStarted
    · rcases hStage with ⟨snapshot, rfl⟩ | ⟨hCancel, _⟩
      · refine
          Or.inl
            ⟨hStarting.generation, hStarting.cancelStarted,
              hStarting.settled, hStarting.lastProgress, ?_⟩
        rcases hStarting.order with
          ⟨hWaiting, hBuffer, first, events, hLines⟩ |
          ⟨first, events, hWaiting, hLines⟩
        · refine
            Or.inl
              ⟨hWaiting, hBuffer, first, events ++ [snapshot], ?_⟩
          simp only [hLines, List.cons_append,
            List.map_append, List.map_singleton]
        · refine
            Or.inr ⟨first, events ++ [snapshot], hWaiting, ?_⟩
          simp only [hLines, List.map_append, List.map_singleton]
      · rw [hStarting.cancelStarted] at hCancel
        cases hCancel
    · refine
        Or.inr
          ⟨hStarted.generation, hStarted.buffer,
            hStarted.waiting, ?_⟩
      intro other hOther snapshot hEq
      rcases List.mem_append.mp hOther with hOld | hNew
      · exact hStarted.lines other hOld snapshot hEq
      · rw [List.mem_singleton.mp hNew] at hEq
        rcases hStage with
          ⟨_, rfl⟩ | ⟨_, _, _, rfl⟩
        · cases hEq
        · cases hEq
  · rw [hWatched]
    have hMoved := hInv.follows.move hLe
    apply hMoved.subset
    intro next hNext
    rcases List.mem_append.mp hNext with hOld | hNew
    · exact hOld
    · exact List.mem_append_right _ hNew
  · intro hNow
    rw [hEntries]
    rcases hOver hNow with hBefore | ⟨snapshot, hEvent, hEnds⟩
    · rcases hInv.ending hBefore with
        hSettled | ⟨snapshot, hMem, hEnds⟩
      · exact Or.inl hSettled
      · exact
          Or.inr ⟨snapshot, List.mem_append_left _ hMem, hEnds⟩
    · refine Or.inr ⟨snapshot, ?_, hEnds⟩
      rw [hEvent]
      exact List.mem_append_right _ (List.mem_singleton_self _)

----------
-- Reading
----------

/- A response moves from the lines to the continuations. -/
theorem readResponse
    (hInv : QueueInv generation side queue)
    {continuation : Continuation}
    {rest : List Line}
    (hStdout :
      side.stdout = .response continuation :: rest) :
    ∃ queue',
      QueueInv generation
        { side with
          stdout := rest
          continuations := side.continuations ++ [continuation] }
        queue' := by
  rcases queue with ⟨waiting, buffer, lines⟩
  cases lines with
  | nil =>
    have hNone := hInv.stdout
    rw [hStdout] at hNone
    cases hNone
  | cons entry lines =>
    have hLines := hInv.stdout
    simp only [List.map_cons] at hLines
    rw [hStdout] at hLines
    injection hLines with hEntry hRest
    have hBuffer : buffer = [] := by
      rcases hInv.stage with hStarting | hStarted
      · rcases hStarting.order with
          ⟨_, hNone, _⟩ | ⟨_, events, _, hEvents⟩
        · exact hNone
        · cases events with
          | nil => cases hEvents
          | cons event events =>
            cases hEvents
            cases hEntry
      · exact hStarted.buffer
    subst hBuffer
    have hContinuation :
        continuation = entry.continuation generation := by
      cases entry with
      | start snapshot =>
        cases hEntry
        rfl
      | cancel cancelled snapshot =>
        cases hEntry
        rfl
      | event snapshot => cases hEntry
    have hEntries :
        Queue.entries ⟨waiting ++ [entry], [], lines⟩ =
          Queue.entries ⟨waiting, [], entry :: lines⟩ := by
      simp [Queue.entries]
    refine ⟨⟨waiting ++ [entry], [], lines⟩, ?_⟩
    refine
      { hInv with
        stdout := hRest
        continuations := ?_
        reportable := ?_
        order := ?_
        flags := ?_
        stage := ?_
        follows := ?_
        ending := ?_ }
    · simp only [hInv.continuations, hContinuation,
        List.map_append, List.map_singleton]
    · rw [hEntries]
      exact hInv.reportable
    · rw [hEntries]
      exact hInv.order
    · rw [hEntries]
      exact hInv.flags
    · rcases hInv.stage with hStarting | hStarted
      · refine
          Or.inl
            ⟨hStarting.generation, hStarting.cancelStarted,
              hStarting.settled, hStarting.lastProgress, ?_⟩
        rcases hStarting.order with
          ⟨hWaiting, _, first, events, hEvents⟩ |
          ⟨first, events, _, hEvents⟩
        · cases hEvents
          cases hWaiting
          exact Or.inr ⟨first, events, rfl, rfl⟩
        · cases events with
          | nil => cases hEvents
          | cons event events =>
            cases hEvents
            cases hEntry
      · refine Or.inr ⟨hStarted.generation, rfl, ?_, ?_⟩
        · intro other hOther
          rcases List.mem_append.mp hOther with hOld | hNew
          · exact hStarted.waiting other hOld
          · rw [List.mem_singleton.mp hNew]
            have hNot := hStarted.lines entry List.mem_cons_self
            cases entry with
            | start snapshot =>
              exact absurd rfl (hNot snapshot)
            | cancel cancelled snapshot =>
              exact ⟨cancelled, snapshot, rfl⟩
            | event snapshot => cases hEntry
        · intro other hOther
          exact
            hStarted.lines other (List.mem_cons_of_mem _ hOther)
    · apply hInv.follows.subset
      intro next hNext
      simp only [Queue.watched, List.map_append,
        List.filter_append, List.map_cons, List.map_nil,
        List.mem_append, List.mem_cons, List.mem_filter,
        List.append_nil] at hNext ⊢
      tauto
    · rw [hEntries]
      exact hInv.ending

/- The reports that are outstanding are all cancelling. -/
theorem waiting_cancelling
    (hInv : QueueInv generation side queue)
    (hRefusal :
      side.continuations.any CatalogSession.isRefusal = false)
    (hStarted : Started generation side.client queue) :
    (queue.waiting.map Entry.snapshot).filter
        (fun snapshot =>
          decide (snapshot.runtime.phase ≠ .cancelling)) =
      [] := by
  rw [List.filter_eq_nil_iff]
  intro snapshot hSnapshot
  rcases List.mem_map.mp hSnapshot with
    ⟨entry, hEntry, rfl⟩
  rcases hStarted.waiting entry hEntry with
    ⟨cancelled, snapshot, rfl⟩
  have hAccepted : cancelled = true := by
    rw [hInv.continuations, List.any_map,
      List.any_eq_false] at hRefusal
    have hNot := hRefusal _ hEntry
    cases cancelled with
    | true => rfl
    | false => exact absurd rfl hNot
  subst hAccepted
  have hMem : Entry.cancel true snapshot ∈ queue.entries :=
    List.mem_append_left _ (List.mem_append_left _ hEntry)
  have hPhase := hInv.flags snapshot hMem
  simp only [Entry.snapshot, hPhase, ne_eq, not_true,
    decide_false, Bool.false_eq_true, not_false_eq_true]

variable {snapshot : Snapshot}
variable {waiting lines : List Entry}

/- An event that arrives before the start is handled waits. -/
theorem bufferEvent
    {buffer : List Snapshot}
    (hInv :
      QueueInv generation side
        ⟨waiting, buffer, .event snapshot :: lines⟩)
    (hStarting :
      Starting side.client
        ⟨waiting, buffer, .event snapshot :: lines⟩) :
    QueueInv generation
      { side with
        stdout := lines.map (Entry.line generation)
        client :=
          { side.client with
            bufferedEvents :=
              side.client.bufferedEvents ++ [snapshot.event] } }
      ⟨waiting, buffer ++ [snapshot], lines⟩ := by
  have hEntries :
      Queue.entries ⟨waiting, buffer ++ [snapshot], lines⟩ =
        Queue.entries
          ⟨waiting, buffer, .event snapshot :: lines⟩ := by
    simp [Queue.entries]
  have hWatched :
      Queue.watched ⟨waiting, buffer ++ [snapshot], lines⟩ =
        Queue.watched
          ⟨waiting, buffer, .event snapshot :: lines⟩ := by
    simp [Queue.watched, Entry.snapshot]
  refine
    { hInv with
      stdout := rfl
      buffered := ?_
      reportable := ?_
      order := ?_
      flags := ?_
      stage := ?_
      follows := ?_
      ending := ?_ }
  · simp only [hInv.buffered, List.map_append,
      List.map_singleton]
  · rw [hEntries]
    exact hInv.reportable
  · rw [hEntries]
    exact hInv.order
  · rw [hEntries]
    exact hInv.flags
  · refine
      Or.inl
        ⟨hStarting.generation, hStarting.cancelStarted,
          hStarting.settled, hStarting.lastProgress, ?_⟩
    rcases hStarting.order with
      ⟨_, _, first, events, hEvents⟩ |
      ⟨first, events, hWaiting, hEvents⟩
    · cases hEvents
    · cases events with
      | nil => cases hEvents
      | cons event events =>
        cases hEvents
        exact Or.inr ⟨first, events, hWaiting, rfl⟩
  · rw [hWatched]
    exact hInv.follows
  · rw [hEntries]
    exact hInv.ending

/- An event is noted when it is read. -/
theorem noteEvent
    (hInv :
      QueueInv generation side
        ⟨waiting, [], .event snapshot :: lines⟩)
    (hStarted :
      Started generation side.client
        ⟨waiting, [], .event snapshot :: lines⟩)
    (hConforming :
      snapshot.terminal = false →
        side.continuations.any CatalogSession.isRefusal =
          false) :
    side.client.acceptCatalogEvent side.workspaceIdentity
        snapshot.event =
        Except.ok (side.client.noted snapshot) ∧
      QueueInv generation
        { side with
          stdout := lines.map (Entry.line generation)
          client := side.client.noted snapshot }
        ⟨waiting, [], lines⟩ := by
  have hHead :
      Entry.event snapshot ∈
        Queue.entries ⟨waiting, [], .event snapshot :: lines⟩ :=
    List.mem_append_right _ List.mem_cons_self
  have hReportable :
      Reportable generation side.workspaceIdentity
        side.client.cancelStarted snapshot :=
    hInv.reportable _ hHead
  have hRest :
      ∀ entry ∈ Queue.entries ⟨waiting, [], lines⟩,
        entry ∈
          Queue.entries
            ⟨waiting, [], .event snapshot :: lines⟩ := by
    intro entry hEntry
    simp only [Queue.entries, List.map_nil, List.append_nil,
      List.mem_append, List.mem_cons] at hEntry ⊢
    tauto
  have hOrder := hInv.order
  simp only [Queue.entries, List.map_nil, List.append_nil,
    List.map_append, List.map_cons, List.append_assoc,
    List.cons_append, Entry.snapshot] at hOrder
  rw [List.pairwise_append] at hOrder
  rcases hOrder with ⟨hWaiting, hLines, hAcross⟩
  have hLater :
      ∀ next ∈ lines.map Entry.snapshot ++ [side.current],
        SnapshotLe snapshot next :=
    (List.pairwise_cons.mp hLines).1
  have hFollows :
      Follows side.client [snapshot] := by
    apply hInv.follows.subset
    intro next hNext
    rw [List.mem_singleton.mp hNext]
    simp [Queue.watched, Entry.snapshot]
  have hReport :=
    reportCatalogStatus_eq_noted hStarted.generation
      hReportable fun _ => hFollows
  refine ⟨?_, ?_⟩
  · rw [CatalogRun.acceptCatalogEvent]
    by_cases hSettled : side.client.settled = true
    · rw [if_pos hSettled,
        CatalogRun.noted_settled snapshot hSettled]
      rfl
    · rw [if_neg hSettled, eventIdentity_event hReportable,
        if_neg (not_not.mpr rfl), hStarted.generation]
      exact hReport
  · refine
      { hInv with
        stdout := rfl
        buffered := ?_
        reportable := ?_
        order := ?_
        flags := fun other hMem =>
          hInv.flags other (hRest _ hMem)
        stage := ?_
        follows := ?_
        outcome := hInv.outcome.noted snapshot
        ending := ?_ }
    · rw [CatalogRun.noted_bufferedEvents]
      exact hInv.buffered
    · intro entry hEntry
      dsimp only
      rw [CatalogRun.noted_cancelStarted]
      exact hInv.reportable entry (hRest entry hEntry)
    · simp only [Queue.entries, List.map_nil,
        List.append_nil, List.map_append, List.append_assoc]
      rw [List.pairwise_append]
      refine ⟨hWaiting, (List.pairwise_cons.mp hLines).2, ?_⟩
      intro first hFirst second hSecond
      exact
        hAcross first hFirst second
          (List.mem_cons_of_mem _ hSecond)
    · refine Or.inr ⟨?_, rfl, hStarted.waiting, ?_⟩
      · exact
          (CatalogRun.noted_generation snapshot).trans
            hStarted.generation
      · intro other hOther
        exact hStarted.lines other (List.mem_cons_of_mem _ hOther)
    · cases hEnds : snapshot.terminal with
      | true =>
        have hSettled :
            (side.client.noted snapshot).settled = true :=
          CatalogRun.noted_terminal hEnds
        intro hOpen
        rw [hSettled] at hOpen
        cases hOpen
      | false =>
        have hNone :=
          hInv.waiting_cancelling (hConforming hEnds) hStarted
        have hShort :
            Queue.watched ⟨waiting, [], lines⟩ =
              lines.map Entry.snapshot := by
          simp only [Queue.watched]
          rw [hNone]
          rfl
        rw [hShort]
        apply Follows.noted _ hLater
        apply hInv.follows.subset
        intro next hNext
        simp only [Queue.watched, List.mem_append,
          List.map_cons, List.mem_cons] at hNext ⊢
        tauto
    · intro hOver
      rcases hInv.ending hOver with
        hSettled | ⟨other, hOther, hEnds⟩
      · apply Or.inl
        rw [CatalogRun.noted_settled snapshot hSettled]
        exact hSettled
      · simp only [Queue.entries, List.map_nil,
          List.append_nil, List.mem_append,
          List.mem_cons, Entry.event.injEq] at hOther
        rcases hOther with hWaits | rfl | hLine
        · exact
            Or.inr
              ⟨other, List.mem_append_left _
                (List.mem_append_left _ hWaits), hEnds⟩
        · exact Or.inl (CatalogRun.noted_terminal hEnds)
        · exact
            Or.inr ⟨other, List.mem_append_right _ hLine, hEnds⟩

/- The client reads an event. -/
theorem readEvent
    (hInv : QueueInv generation side queue)
    {event : Json}
    {rest : List Line}
    (hStdout : side.stdout = .event event :: rest)
    (hConforming :
      CatalogSession.isTerminalEvent event = false →
        side.continuations.any CatalogSession.isRefusal =
          false) :
    ∃ client queue',
      side.client.acceptCatalogEvent side.workspaceIdentity
          event =
          Except.ok client ∧
        client.cancelStarted = side.client.cancelStarted ∧
        client.cancelRequests = side.client.cancelRequests ∧
        QueueInv generation
          { side with stdout := rest, client } queue' := by
  rcases queue with ⟨waiting, buffer, lines⟩
  cases lines with
  | nil =>
    have hNone := hInv.stdout
    rw [hStdout] at hNone
    cases hNone
  | cons entry lines =>
    have hLines := hInv.stdout
    simp only [List.map_cons] at hLines
    rw [hStdout] at hLines
    injection hLines with hEntry hRest
    subst hRest
    cases entry with
    | start snapshot => cases hEntry
    | cancel cancelled snapshot => cases hEntry
    | event snapshot =>
      cases hEntry
      rw [isTerminalEvent_event] at hConforming
      rcases hInv.stage with hStarting | hStarted
      · have hHead :
            Entry.event snapshot ∈
              Queue.entries
                ⟨waiting, buffer, .event snapshot :: lines⟩ :=
          List.mem_append_right _ List.mem_cons_self
        have hIdentity :=
          eventIdentity_event (hInv.reportable _ hHead)
        refine
          ⟨{ side.client with
              bufferedEvents :=
                side.client.bufferedEvents ++ [snapshot.event] },
            _, ?_, rfl, rfl, hInv.bufferEvent hStarting⟩
        have hOpen :
            ¬ side.client.settled = true := by
          rw [hStarting.settled]
          exact Bool.false_ne_true
        have hSame :
            CatalogRun.eventIdentity snapshot.event =
              some side.workspaceIdentity :=
          hIdentity
        rw [CatalogRun.acceptCatalogEvent, if_neg hOpen,
          hSame, if_neg (not_not.mpr rfl)]
        split
        · rfl
        · rename_i hSome
          rw [hStarting.generation] at hSome
          cases hSome
      · have hBuffer : buffer = [] := hStarted.buffer
        subst hBuffer
        rcases hInv.noteEvent hStarted hConforming with
          ⟨hAccept, hNext⟩
        exact
          ⟨_, _, hAccept,
            CatalogRun.noted_cancelStarted snapshot,
            CatalogRun.noted_cancelRequests snapshot,
            hNext⟩

----------
-- Aborting
----------

theorem cancelCatalog_eq (run : CatalogRun) :
    run.cancelCatalog = run ∨
      ∃ requested,
        run.generation = some requested ∧
          run.settled = false ∧
          run.cancelCatalog =
            { run with
              cancelStarted := true
              cancelRequests :=
                run.cancelRequests ++ [requested] } := by
  rw [CatalogRun.cancelCatalog]
  split
  · exact Or.inl rfl
  · rename_i requested hGeneration
    split
    · exact Or.inl rfl
    · rename_i hOpen
      have hSettled : run.settled = false := by
        cases hEq : run.settled with
        | false => rfl
        | true => exact absurd (Or.inl hEq) hOpen
      exact Or.inr ⟨requested, hGeneration, hSettled, rfl⟩

/- The client sends its cancel request. -/
theorem cancel
    (hInv : QueueInv generation side queue) :
    QueueInv generation
      { side with client := side.client.cancelCatalog }
      queue := by
  rcases cancelCatalog_eq side.client with
    hSame | ⟨requested, hGeneration, hOpen, hCancel⟩
  · rw [hSame]
    exact hInv
  · rw [hCancel]
    refine
      { hInv with
        reportable := fun entry hEntry =>
          (hInv.reportable entry hEntry).cancel
        stage := ?_ }
    rcases hInv.stage with hStarting | hStarted
    · rw [hStarting.generation] at hGeneration
      cases hGeneration
    · exact Or.inr { hStarted with }

theorem abortRequested
    (hInv : QueueInv generation side queue) :
    QueueInv generation
      { side with
        client := { side.client with abortRequested := true } }
      queue :=
  { hInv with
    stage := by
      rcases hInv.stage with hStarting | hStarted
      · exact Or.inl { hStarting with }
      · exact Or.inr { hStarted with } }

theorem abort
    (hInv : QueueInv generation side queue) :
    QueueInv generation
      { side with client := side.client.onAbort } queue := by
  rw [CatalogRun.onAbort]
  split
  · exact hInv
  · exact hInv.abortRequested.cancel

----------
-- Resuming
----------

/- The client handles the answer to its cancel request. -/
theorem resumeCancel
    {cancelled : Bool}
    (hInv :
      QueueInv generation side
        ⟨.cancel cancelled snapshot :: waiting, [], lines⟩)
    (hStarted :
      Started generation side.client
        ⟨.cancel cancelled snapshot :: waiting, [], lines⟩) :
    side.client.finishCancel
        (responseJson "cancelled" cancelled generation
          snapshot) =
        Except.ok (side.client.noted snapshot) ∧
      QueueInv generation
        { side with
          continuations :=
            waiting.map (Entry.continuation generation)
          client := side.client.noted snapshot }
        ⟨waiting, [], lines⟩ := by
  have hHead :
      Entry.cancel cancelled snapshot ∈
        Queue.entries
          ⟨.cancel cancelled snapshot :: waiting, [], lines⟩ :=
    List.mem_append_left _
      (List.mem_append_left _ List.mem_cons_self)
  have hReportable :
      Reportable generation side.workspaceIdentity
        side.client.cancelStarted snapshot :=
    hInv.reportable _ hHead
  have hEntries :
      Queue.entries
          ⟨.cancel cancelled snapshot :: waiting, [], lines⟩ =
        .cancel cancelled snapshot ::
          Queue.entries ⟨waiting, [], lines⟩ := by
    simp [Queue.entries]
  have hOrder := hInv.order
  rw [hEntries, List.map_cons, List.cons_append,
    List.pairwise_cons] at hOrder
  rcases hOrder with ⟨hFirst, hRest⟩
  have hFollows :
      snapshot.runtime.phase ≠ .cancelling →
        Follows side.client [snapshot] := by
    intro hPhase
    apply hInv.follows.subset
    intro next hNext
    rw [List.mem_singleton.mp hNext]
    simp [Queue.watched, Entry.snapshot, hPhase]
  have hReport :=
    reportCatalogStatus_eq_noted hStarted.generation
      hReportable hFollows
  have hSubset :
      ∀ next ∈
          Queue.watched ⟨waiting, [], lines⟩ ++ [side.current],
        next ∈
          (Queue.entries ⟨waiting, [], lines⟩).map
              Entry.snapshot ++ [side.current] := by
    intro next hNext
    simp only [Queue.watched, Queue.entries, List.map_nil,
      List.append_nil, List.mem_append, List.mem_filter,
      List.map_append] at hNext ⊢
    tauto
  refine ⟨?_, ?_⟩
  · have hRecord :
        asRecord
            (some
              (responseJson "cancelled" cancelled generation
                snapshot)) =
          Except.ok
            (responseJson "cancelled" cancelled generation
              snapshot) :=
      rfl
    have hFlag :
        (responseJson "cancelled" cancelled generation
            snapshot).field "cancelled" =
          some (.bool cancelled) :=
      rfl
    have hNumber :
        (responseJson "cancelled" cancelled generation
            snapshot).field "generation" =
          some (.num generation) :=
      rfl
    have hStatus :
        (responseJson "cancelled" cancelled generation
            snapshot).field "status" =
          some snapshot.status :=
      rfl
    simp only [CatalogRun.finishCancel, CatalogRun.check,
      hRecord, Except.mapError, bind, Except.bind, hFlag,
      hNumber, hStatus, hStarted.generation, if_true,
      hReport]
  · refine
      { hInv with
        continuations := rfl
        buffered := ?_
        reportable := ?_
        order := hRest
        flags := ?_
        stage := ?_
        follows := ?_
        outcome := hInv.outcome.noted snapshot
        ending := ?_ }
    · rw [CatalogRun.noted_bufferedEvents]
      exact hInv.buffered
    · intro entry hEntry
      dsimp only
      rw [CatalogRun.noted_cancelStarted]
      apply hInv.reportable entry
      rw [hEntries]
      exact List.mem_cons_of_mem _ hEntry
    · intro other hOther
      apply hInv.flags other
      rw [hEntries]
      exact List.mem_cons_of_mem _ hOther
    · refine Or.inr ⟨?_, rfl, ?_, hStarted.lines⟩
      · exact
          (CatalogRun.noted_generation snapshot).trans
            hStarted.generation
      · intro entry hEntry
        exact
          hStarted.waiting entry (List.mem_cons_of_mem _ hEntry)
    · apply Follows.noted
      · apply hInv.follows.subset
        intro next hNext
        simp only [Queue.watched, List.map_cons,
          List.mem_append, List.mem_filter,
          List.mem_cons] at hNext ⊢
        tauto
      · intro next hNext
        exact hFirst next (hSubset next hNext)
    · intro hOver
      rcases hInv.ending hOver with
        hSettled | ⟨other, hOther, hEnds⟩
      · apply Or.inl
        rw [CatalogRun.noted_settled snapshot hSettled]
        exact hSettled
      · rw [hEntries] at hOther
        rcases List.mem_cons.mp hOther with hEq | hMem
        · cases hEq
        · exact Or.inr ⟨other, hMem, hEnds⟩

theorem beginCatalog_eq
    {workspaceIdentity : String}
    {client : CatalogRun}
    {buffer later : List Snapshot}
    (hGeneration : generation ≤ maxSafeInteger)
    (hBuffered :
      client.bufferedEvents = buffer.map Snapshot.event)
    (hLast : client.lastProgress = none)
    (hReportable :
      ∀ other ∈ snapshot :: buffer,
        Reportable generation workspaceIdentity
          client.cancelStarted other)
    (hOrder :
      (snapshot :: (buffer ++ later)).Pairwise SnapshotLe) :
    let run := begunRun client generation snapshot buffer
    client.beginCatalog
        (responseJson "accepted" true generation snapshot) =
        Except.ok
          (if run.abortRequested ∧ run.settled = false then
            run.cancelCatalog
          else
            run) ∧
      Follows run later := by
  intro run
  rcases List.pairwise_cons.mp hOrder with ⟨hFirst, hRest⟩
  have hFresh (others : List Snapshot) :
      Follows (acceptedRun client generation) others := by
    intro _ mark hMark
    have hNone := hLast.symm.trans hMark
    cases hNone
  have hReport :
      CatalogRun.reportCatalogStatus
          (acceptedRun client generation)
          (some snapshot.status) =
        Except.ok
          ((acceptedRun client generation).noted snapshot) :=
    reportCatalogStatus_eq_noted rfl
      (hReportable snapshot List.mem_cons_self)
      fun _ => hFresh _
  have hOpened :
      Follows (openedRun client generation snapshot)
        (buffer ++ later) :=
    Follows.noted (hFresh _) hFirst
  have hStarted :
      (openedRun client generation snapshot).generation =
        some generation :=
    CatalogRun.noted_generation snapshot
  have hOthers :
      ∀ other ∈ buffer,
        Reportable generation workspaceIdentity
          (openedRun client generation snapshot).cancelStarted
          other := by
    intro other hOther
    have hSame :
        (openedRun client generation
            snapshot).cancelStarted =
          client.cancelStarted :=
      CatalogRun.noted_cancelStarted snapshot
    rw [hSame]
    exact hReportable other (List.mem_cons_of_mem _ hOther)
  have hApplied :=
    applyBufferedEvents_follows buffer hStarted hOthers
      hOpened hRest
  refine ⟨?_, hApplied.2⟩
  have hRecord :
      asRecord
          (some
            (responseJson "accepted" true generation snapshot)) =
        Except.ok
          (responseJson "accepted" true generation snapshot) :=
    rfl
  have hFlag :
      (responseJson "accepted" true generation
          snapshot).field "accepted" =
        some (.bool true) :=
    rfl
  have hNumber :
      isNonNegativeInteger
          ((responseJson "accepted" true generation
            snapshot).field "generation") =
        some generation :=
    isNonNegativeInteger_num hGeneration
  have hStatus :
      (responseJson "accepted" true generation
          snapshot).field "status" =
        some snapshot.status :=
    rfl
  have hEvents :
      ((acceptedRun client generation).noted
          snapshot).bufferedEvents =
        buffer.map Snapshot.event :=
    (CatalogRun.noted_bufferedEvents snapshot).trans hBuffered
  have hLoop :
      CatalogRun.applyBufferedEvents
          (buffer.map Snapshot.event)
          { (acceptedRun client generation).noted snapshot with
            bufferedEvents := [] } =
        Except.ok run :=
    hApplied.1
  simp only [acceptedRun] at hReport hEvents hLoop
  simp only [CatalogRun.beginCatalog, CatalogRun.check,
    hRecord, Except.mapError, bind, Except.bind, hFlag,
    hNumber, hStatus, hReport, hEvents, hLoop]
  split
  · rfl
  · rfl

/- The client handles the response to its start request. -/
theorem resumeStart
    {buffer events : List Snapshot}
    (hInv :
      QueueInv generation side
        ⟨[.start snapshot], buffer, events.map .event⟩)
    (hStarting :
      Starting side.client
        ⟨[.start snapshot], buffer, events.map .event⟩)
    (hGeneration : generation ≤ maxSafeInteger) :
    let run := begunRun side.client generation snapshot buffer
    side.client.beginCatalog
        (responseJson "accepted" true generation snapshot) =
        Except.ok
          (if run.abortRequested ∧ run.settled = false then
            run.cancelCatalog
          else
            run) ∧
      QueueInv generation
        { side with continuations := [], client := run }
        ⟨[], [], events.map .event⟩ := by
  intro run
  have hEntries :
      Queue.entries
          ⟨[.start snapshot], buffer, events.map .event⟩ =
        .start snapshot ::
          (buffer.map .event ++ events.map .event) := by
    simp [Queue.entries]
  have hReportable :
      ∀ other ∈ snapshot :: buffer,
        Reportable generation side.workspaceIdentity
          side.client.cancelStarted other := by
    intro other hOther
    have hAll := hInv.reportable
    rw [hEntries] at hAll
    rcases List.mem_cons.mp hOther with rfl | hMem
    · exact hAll _ List.mem_cons_self
    · apply hAll (.event other)
      apply List.mem_cons_of_mem
      apply List.mem_append_left
      exact List.mem_map_of_mem hMem
  have hSnapshots (others : List Snapshot) :
      (others.map Entry.event).map Entry.snapshot = others := by
    simp [Function.comp_def, Entry.snapshot]
  have hOrder := hInv.order
  rw [hEntries, List.map_cons, List.map_append, hSnapshots,
    hSnapshots, List.cons_append, List.append_assoc] at hOrder
  have hRest :=
    (List.pairwise_append.mp (List.pairwise_cons.mp hOrder).2).2.1
  have hBegin :=
    beginCatalog_eq hGeneration hInv.buffered
      hStarting.lastProgress hReportable hOrder
  have hCancel :
      run.cancelStarted = side.client.cancelStarted :=
    begunRun_cancelStarted _ _ _ _
  refine ⟨hBegin.1, ?_⟩
  refine
    { hInv with
      continuations := rfl
      buffered := ?_
      reportable := ?_
      order := ?_
      flags := ?_
      stage := ?_
      follows := ?_
      outcome := ?_
      ending := ?_ }
  · exact begunRun_bufferedEvents _ _ _ _
  · intro entry hEntry
    dsimp only
    rw [hCancel]
    apply hInv.reportable entry
    rw [hEntries]
    apply List.mem_cons_of_mem
    exact List.mem_append_right _ hEntry
  · simp only [Queue.entries, List.map_nil, List.nil_append]
    rw [hSnapshots]
    exact hRest
  · intro other hOther
    apply hInv.flags other
    rw [hEntries]
    apply List.mem_cons_of_mem
    exact List.mem_append_right _ hOther
  · refine Or.inr ⟨?_, rfl, ?_, ?_⟩
    · exact begunRun_generation _ _ _ _
    · intro entry hEntry
      cases hEntry
    · intro entry hEntry other hEq
      rcases List.mem_map.mp hEntry with ⟨_, _, rfl⟩
      cases hEq
  · simp only [Queue.watched, List.map_nil, List.filter_nil,
      List.nil_append]
    rw [hSnapshots]
    exact hBegin.2
  · apply Outcome.notedAll
    have hAccepted :
        Outcome (acceptedRun side.client generation) :=
      hInv.outcome
    exact hAccepted.noted snapshot
  · intro hOver
    rcases hInv.ending hOver with
      hSettled | ⟨other, hOther, hEnds⟩
    · rw [hStarting.settled] at hSettled
      cases hSettled
    · rw [hEntries] at hOther
      rcases List.mem_cons.mp hOther with hEq | hMem
      · cases hEq
      · rcases List.mem_append.mp hMem with hBuffer | hLine
        · rcases List.mem_map.mp hBuffer with
            ⟨same, hSame, hEq⟩
          cases hEq
          exact Or.inl (CatalogRun.notedAll_terminal hSame hEnds)
        · exact Or.inr ⟨other, hLine, hEnds⟩

end QueueInv

end Client

end ArktsServer
