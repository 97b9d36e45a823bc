import Mathlib.Order.Monotone.Basic
import ArktsServer.Lib.RateWindow
import ArktsServer.Semantic.FailureRecovery

/-
  The restart budget of the semantic worker: how many
  restarts a window of time and a stretch of unchanged input
  may hold, that recoveries do not overlap, and which steps
  restart a worker whose circuit is open.

  Key definitions include:
    * `Semantic.RestartBudget`
    * `Semantic.RestartsOpenCircuit`

  Correctness is proven by:
    * `Semantic.workerFailed_starts_iff`
    * `Semantic.failsWorker_starts_iff`
    * `Semantic.restartBudget_iff`
-/

namespace ArktsServer

namespace Semantic

open Transition RateWindow

----------
-- Readings of the Log
----------

namespace RecoveryRecord

def restart? : RecoveryRecord → Option Restart
| .restarted restart => some restart
| _ => none

/- A revision at which the circuit opened or was probed. -/
def barrier? : RecoveryRecord → Option Nat
| .opened revision => some revision
| .halfOpen revision => some revision
| _ => none

def probe? : RecoveryRecord → Option Nat
| .halfOpen revision => some revision
| _ => none

def isAutomatic : RecoveryRecord → Bool
| .restarted restart => restart.automatic
| _ => false

/- A `healthy` report on input newer than the last failure. -/
def isNewerHealthy : RecoveryRecord → Bool
| .healthy newerInput => newerInput
| _ => false

end RecoveryRecord

def restartTimes (log : List RecoveryRecord) : List Nat :=
  log.filterMap fun record => record.restart?.map (·.time)

def barriers (log : List RecoveryRecord) : List Nat :=
  log.filterMap (·.barrier?)

def probes (log : List RecoveryRecord) : List Nat :=
  log.filterMap (·.probe?)

/- Automatic restarts since the last newer healthy report. -/
def automaticSpent (log : List RecoveryRecord) : Nat :=
  spent RecoveryRecord.isAutomatic
    RecoveryRecord.isNewerHealthy log

section Append

variable (log : List RecoveryRecord) (record : RecoveryRecord)

@[simp] theorem restartTimes_snoc :
    restartTimes (log ++ [record]) =
      restartTimes log ++
        (record.restart?.map (·.time)).toList := by
  simp only [restartTimes, List.filterMap_append]
  cases record <;> rfl

@[simp] theorem barriers_snoc :
    barriers (log ++ [record]) =
      barriers log ++ record.barrier?.toList := by
  simp only [barriers, List.filterMap_append]
  cases record <;> rfl

@[simp] theorem probes_snoc :
    probes (log ++ [record]) =
      probes log ++ record.probe?.toList := by
  simp only [probes, List.filterMap_append]
  cases record <;> rfl

theorem automaticSpent_snoc :
    automaticSpent (log ++ [record]) =
      if record.isNewerHealthy = true then 0
      else if record.isAutomatic = true then
        automaticSpent log + 1
      else automaticSpent log :=
  spent_append_singleton ..

end Append

----------
-- The Property
----------

section Property

variable {Value : Type} (platform : Platform Value)

variable (supervision : Supervision Value)

/- The step starts a restart of the worker. -/
def StartsRestart
    (event : RecoveryEvent Value) : Prop :=
  (restartTimes supervision.log).length <
    (restartTimes
      (recoveryStep platform supervision event).log).length

/- A call of `admit(true)`, or its continuation. -/
def ExplicitWork : RecoveryEvent Value → Prop
| .admitRequest explicit => explicit = true
| .admitResumes _ => True
| _ => False

/-
  A restart of an open circuit is explicit work on input
  newer than every opening and every probe so far.
-/
def CircuitGuarded
    (event : RecoveryEvent Value) : Prop :=
  supervision.recovery.failure.isSome = true →
    StartsRestart platform supervision event →
      ExplicitWork event ∧
        ∀ revision ∈ barriers supervision.log,
          revision < supervision.recovery.inputRevision

structure RestartBudget
    (events : List (RecoveryEvent Value)) : Prop where
  window :
    Limited 3 Supervision.rateWindowMs
      (restartTimes (recoveryRun platform events).log)
  automatic :
    ∀ earlier stretch later,
      (recoveryRun platform events).log =
          earlier ++ stretch ++ later →
        (∀ record ∈ stretch,
          record.isNewerHealthy = false) →
        stretch.countP RecoveryRecord.isAutomatic ≤ 3
  single :
    ∀ before after,
      events = before ++ after →
        (recoveryRun platform before).tasks.length ≤ 1
  circuit :
    Admissible (recoveryStep platform)
      (CircuitGuarded platform) {} events
  oneProbe : (probes (recoveryRun platform events).log).Nodup
  identical :
    ∀ before after configuration value stored,
      events =
          before ++
            .inputChanged (some (configuration, value)) ::
              after →
        configuration ≠ "" →
        (recoveryRun platform before).recovery.configurations.lookup
            configuration = some stored →
        platform.isDeepStrictEqual stored value = true →
        (recoveryRun platform
            (before ++
              [.inputChanged
                (some (configuration, value))])).recovery.inputRevision =
          (recoveryRun platform before).recovery.inputRevision

/- `workerFailed`, or `mutationFailed` that leads to it. -/
def failsWorker : RecoveryEvent Value → Bool
| .workerFailed _ => true
| .mutationFailed error =>
    error = .supervisor .restartRequired
| _ => false

/-
  The circuit is open, nothing is being replaced, and the
  automatic budget is not used up when a worker fails.
-/
def RestartsOpenCircuit
    (event : RecoveryEvent Value) : Prop :=
  failsWorker event = true ∧
    supervision.recovery.failure.isSome = true ∧
    supervision.disposed = false ∧
    supervision.recovery.stopping = false ∧
    supervision.recovery.pending = none ∧
    supervision.activity = .idle ∧
    supervision.recovery.probing = false ∧
    (Supervision.expireRestarts platform
      supervision.recovery.restarts
      supervision.reads).1.length < 3 ∧
    supervision.recovery.automaticRestarts < 3

instance
    (supervision : Supervision Value)
    (event : RecoveryEvent Value) :
    Decidable
      (RestartsOpenCircuit platform supervision event) := by
  unfold RestartsOpenCircuit
  infer_instance

end Property

----------
-- What Operations Change
----------

section Frames

variable {Value : Type} (platform : Platform Value)
variable (supervision : Supervision Value)

/- `fail` leaves the restarts and the pending task alone. -/
theorem fail_frame (error : Thrown) :
    (supervision.fail error).recovery.restarts =
        supervision.recovery.restarts ∧
      (supervision.fail error).recovery.automaticRestarts =
        supervision.recovery.automaticRestarts ∧
      (supervision.fail error).recovery.pending =
        supervision.recovery.pending ∧
      (supervision.fail error).recovery.inputRevision =
        supervision.recovery.inputRevision ∧
      (supervision.fail error).reads = supervision.reads ∧
      (supervision.fail error).tasks = supervision.tasks ∧
      (supervision.fail error).activity =
        supervision.activity := by
  unfold Supervision.fail
  by_cases hFailure : supervision.recovery.failure.isNone
  · simp [hFailure]
  · simp [hFailure]

/- The first failure opens the circuit. -/
theorem fail_log (error : Thrown) :
    (supervision.fail error).log = supervision.log ∧
        (supervision.fail error).recovery.blockedRevision =
          supervision.recovery.blockedRevision ∨
      (supervision.fail error).log =
          supervision.log ++
            [.opened supervision.recovery.inputRevision] ∧
        (supervision.fail error).recovery.blockedRevision =
          supervision.recovery.inputRevision := by
  unfold Supervision.fail
  by_cases hFailure : supervision.recovery.failure.isNone
  · simp [hFailure]
  · simp [hFailure]

theorem recycleActive_iff :
    supervision.recycleActive = true ↔
      supervision.activity ≠ .idle := by
  simp [Supervision.recycleActive]

/- What a call of `recycle.recover` leaves in the log. -/
def recoverRecord (restart : Option Restart) :
    RecoveryRecord :=
  match restart with
  | some restart => .restarted restart
  | none => .retired

/- `recover` changes the recovery only by its new task. -/
theorem recover_recovery (restart : Option Restart) :
    ∃ pending,
      (supervision.recover restart).recovery =
        { supervision.recovery with pending := pending } := by
  unfold Supervision.recover
  by_cases hPending : supervision.recovery.pending.isSome
  · exact ⟨supervision.recovery.pending, by simp [hPending]⟩
  · refine ⟨some supervision.nextTask, ?_⟩
    by_cases hActive : supervision.recycleActive
    · simp [hPending, hActive]
    · simp [hPending, hActive]

theorem recover_reads (restart : Option Restart) :
    (supervision.recover restart).reads =
      supervision.reads := by
  unfold Supervision.recover
  by_cases hPending : supervision.recovery.pending.isSome
  · simp [hPending]
  · by_cases hActive : supervision.recycleActive
    · simp [hPending, hActive]
    · simp [hPending, hActive]

theorem recover_log (restart : Option Restart) :
    (supervision.recover restart).log = supervision.log ∨
      (supervision.recover restart).log =
        supervision.log ++ [recoverRecord restart] := by
  unfold Supervision.recover
  by_cases hPending : supervision.recovery.pending.isSome
  · simp [hPending]
  · by_cases hActive : supervision.recycleActive
    · simp [hPending, hActive]
    · right
      simp only [hPending, hActive]
      cases restart <;> rfl

/- An idle recycle starts the recovery at once. -/
theorem recover_log_idle
    (restart : Option Restart)
    (hPending : supervision.recovery.pending = none)
    (hIdle : supervision.activity = .idle) :
    (supervision.recover restart).log =
      supervision.log ++ [recoverRecord restart] := by
  have hActive : supervision.recycleActive = false := by
    simp [Supervision.recycleActive, hIdle]
  unfold Supervision.recover
  simp only [hPending, hActive]
  cases restart <;> rfl

@[simp] theorem noteFailure_log :
    (supervision.noteFailure platform).log =
      supervision.log :=
  rfl

@[simp] theorem noteFailure_pending :
    (supervision.noteFailure platform).recovery.pending =
      supervision.recovery.pending :=
  rfl

@[simp] theorem noteFailure_recycleActive :
    (supervision.noteFailure platform).recycleActive =
      supervision.recycleActive :=
  rfl

end Frames

----------
-- The Rate Window
----------

/-
  The kept restarts count every decided restart inside the
  window; not every decided restart is started.
-/
def WindowInv
    {Value : Type}
    (platform : Platform Value)
    (supervision : Supervision Value) : Prop :=
  ∃ counted,
    Tracks 3 Supervision.rateWindowMs
        (platform.now supervision.reads)
        counted supervision.recovery.restarts ∧
      (restartTimes supervision.log).Sublist counted

section Window

variable {Value : Type} {platform : Platform Value}
variable (hClock : Monotone platform.now)

include hClock in
theorem tracks_expireRestarts
    {counted restarts : List Nat}
    {reads : Nat}
    (hTracks :
      Tracks 3 Supervision.rateWindowMs
        (platform.now reads) counted restarts) :
    Tracks 3 Supervision.rateWindowMs
      (platform.now
        (Supervision.expireRestarts platform restarts
          reads).2)
      counted
      (Supervision.expireRestarts platform restarts
        reads).1 := by
  induction restarts generalizing reads with
  | nil => exact hTracks
  | cons restart restarts ih =>
    unfold Supervision.expireRestarts
    by_cases hOld :
        Supervision.rateWindowMs < platform.now reads - restart
    · rw [if_pos hOld]
      have hForgotten := hTracks.forget (by omega)
      exact ih (hForgotten.later (hClock (Nat.le_succ _)))
    · rw [if_neg hOld]
      exact hTracks.later (hClock (Nat.le_succ _))

variable {supervision : Supervision Value}

include hClock in
theorem windowInv_expireRateWindow
    (hInv : WindowInv platform supervision) :
    WindowInv platform
      (supervision.expireRateWindow platform) := by
  rcases hInv with ⟨counted, hTracks, hTimes⟩
  exact ⟨counted, tracks_expireRestarts hClock hTracks, hTimes⟩

/- A step that starts nothing and keeps the restarts. -/
theorem WindowInv.keep
    {supervision supervision' : Supervision Value}
    (hInv : WindowInv platform supervision)
    (hRestarts :
      supervision'.recovery.restarts =
        supervision.recovery.restarts)
    (hReads : supervision'.reads = supervision.reads)
    (hTimes :
      restartTimes supervision'.log =
        restartTimes supervision.log) :
    WindowInv platform supervision' := by
  unfold WindowInv
  rw [hRestarts, hReads, hTimes]
  exact hInv

theorem windowInv_fail
    (error : Thrown)
    (hInv : WindowInv platform supervision) :
    WindowInv platform (supervision.fail error) := by
  rcases fail_frame supervision error with
    ⟨hRestarts, _, _, _, hReads, _⟩
  refine hInv.keep hRestarts hReads ?_
  rcases fail_log supervision error with ⟨hLog, _⟩ | ⟨hLog, _⟩
  · rw [hLog]
  · rw [hLog, restartTimes_snoc]
    simp [RecoveryRecord.restart?]

/- A recovery without a restart. -/
theorem windowInv_retire
    (hInv : WindowInv platform supervision) :
    WindowInv platform (supervision.recover none) := by
  rcases recover_recovery supervision none with
    ⟨pending, hRecovery⟩
  refine hInv.keep (by rw [hRecovery])
    (recover_reads supervision none) ?_
  rcases recover_log supervision none with hLog | hLog
  · rw [hLog]
  · rw [hLog, restartTimes_snoc]
    simp [recoverRecord, RecoveryRecord.restart?]

include hClock in
/-
  A restart: its time is counted before the recovery that
  it starts is asked for.
-/
theorem windowInv_restart
    {supervision decided : Supervision Value}
    {restart : Restart}
    (hInv : WindowInv platform supervision)
    (hFree : supervision.recovery.restarts.length < 3)
    (hTime : restart.time = platform.now supervision.reads)
    (hReads : decided.reads = supervision.reads + 1)
    (hRestarts :
      decided.recovery.restarts =
        supervision.recovery.restarts ++ [restart.time])
    (hTimes :
      restartTimes decided.log =
        restartTimes supervision.log) :
    WindowInv platform (decided.recover (some restart)) := by
  rcases hInv with ⟨counted, hTracks, hSublist⟩
  rcases recover_recovery decided (some restart) with
    ⟨pending, hRecovery⟩
  have hStarted := hTracks.start hFree
  rw [← hTime] at hStarted
  refine ⟨counted ++ [restart.time], ?_, ?_⟩
  · rw [hRecovery, recover_reads, hReads, hRestarts]
    have hLater :
        restart.time ≤ platform.now (supervision.reads + 1) := by
      rw [hTime]
      exact hClock (Nat.le_succ _)
    exact hStarted.later hLater
  · rcases recover_log decided (some restart) with
      hLog | hLog
    · rw [hLog, hTimes]
      exact hSublist.trans (List.sublist_append_left ..)
    · rw [hLog, restartTimes_snoc, hTimes]
      exact hSublist.append (List.Sublist.refl _)

include hClock in
theorem windowInv_probe
    (hInv : WindowInv platform supervision) :
    WindowInv platform (supervision.probe platform) := by
  have hExpired := windowInv_expireRateWindow hClock hInv
  unfold Supervision.probe
  split
  · exact hInv
  · dsimp only
    split
    · exact hExpired
    · rename_i hOpen
      refine
        windowInv_restart hClock hExpired (by omega) rfl rfl
          rfl ?_
      simp [RecoveryRecord.restart?]

include hClock in
theorem windowInv_workerFailed
    (error : Thrown)
    (hInv : WindowInv platform supervision) :
    WindowInv platform
      (supervision.workerFailed platform error) := by
  have hNoted :
      WindowInv platform
        { supervision with
          recovery :=
            { supervision.recovery with
              failedInputRevision :=
                supervision.recovery.inputRevision } } :=
    hInv.keep rfl rfl rfl
  have hExpired := windowInv_expireRateWindow hClock hNoted
  unfold Supervision.workerFailed
  split
  · exact hInv
  · dsimp only
    split
    · exact windowInv_fail error hExpired
    · split
      · rename_i hBudget
        exact
          windowInv_restart hClock hExpired hBudget.2.1 rfl
            rfl rfl rfl
      · exact windowInv_retire (windowInv_fail error hExpired)

end Window

----------
-- The Automatic Allowance
----------

/-
  The attempt counter is reset only by a newer healthy
  report, so it bounds what the log has spent.
-/
structure AllowanceInv
    {Value : Type}
    (supervision : Supervision Value) : Prop where
  counted :
    automaticSpent supervision.log ≤
      supervision.recovery.automaticRestarts
  bounded : supervision.recovery.automaticRestarts ≤ 3
  within_ :
    RateWindow.Within RecoveryRecord.isAutomatic
      RecoveryRecord.isNewerHealthy 3 supervision.log

section Allowance

variable {Value : Type} {platform : Platform Value}
variable {supervision supervision' : Supervision Value}

theorem AllowanceInv.keep
    (hInv : AllowanceInv supervision)
    (hRestarts :
      supervision'.recovery.automaticRestarts =
        supervision.recovery.automaticRestarts)
    (hLog : supervision'.log = supervision.log) :
    AllowanceInv supervision' where
  counted := by
    rw [hLog, hRestarts]
    exact hInv.counted
  bounded := by
    rw [hRestarts]
    exact hInv.bounded
  within_ := by
    rw [hLog]
    exact hInv.within_

/- A record, and a counter that still bounds the log. -/
theorem AllowanceInv.snoc
    {record : RecoveryRecord}
    (hInv : AllowanceInv supervision)
    (hLog : supervision'.log = supervision.log ++ [record])
    (hCounted :
      automaticSpent (supervision.log ++ [record]) ≤
        supervision'.recovery.automaticRestarts)
    (hBounded :
      supervision'.recovery.automaticRestarts ≤ 3) :
    AllowanceInv supervision' where
  counted := by
    rw [hLog]
    exact hCounted
  bounded := hBounded
  within_ := by
    rw [hLog]
    exact hInv.within_.snoc (Nat.le_trans hCounted hBounded)

/- A record that neither spends nor restores. -/
theorem AllowanceInv.note
    {record : RecoveryRecord}
    (hInv : AllowanceInv supervision)
    (hRestarts :
      supervision'.recovery.automaticRestarts =
        supervision.recovery.automaticRestarts)
    (hLog : supervision'.log = supervision.log ++ [record])
    (hSpends : record.isAutomatic = false)
    (hRestores : record.isNewerHealthy = false) :
    AllowanceInv supervision' := by
  have hCounted := hInv.counted
  have hBounded := hInv.bounded
  refine hInv.snoc hLog ?_ ?_
  · rw [automaticSpent_snoc, hRestores, hSpends, hRestarts]
    exact hCounted
  · rw [hRestarts]
    exact hBounded

theorem allowanceInv_fail
    (error : Thrown)
    (hInv : AllowanceInv supervision) :
    AllowanceInv (supervision.fail error) := by
  rcases fail_frame supervision error with ⟨_, hRestarts, _⟩
  rcases fail_log supervision error with ⟨hLog, _⟩ | ⟨hLog, _⟩
  · exact hInv.keep hRestarts hLog
  · exact hInv.note hRestarts hLog rfl rfl

/- A recovery that is no automatic restart. -/
theorem allowanceInv_recover
    {restart : Option Restart}
    (hInv : AllowanceInv supervision)
    (hSpends : (recoverRecord restart).isAutomatic = false) :
    AllowanceInv (supervision.recover restart) := by
  rcases recover_recovery supervision restart with
    ⟨pending, hRecovery⟩
  have hRestarts :
      (supervision.recover restart).recovery.automaticRestarts =
        supervision.recovery.automaticRestarts := by
    rw [hRecovery]
  have hRestores :
      (recoverRecord restart).isNewerHealthy = false := by
    cases restart <;> rfl
  rcases recover_log supervision restart with hLog | hLog
  · exact hInv.keep hRestarts hLog
  · exact hInv.note hRestarts hLog hSpends hRestores

/- An automatic restart is counted before it starts. -/
theorem allowanceInv_restart
    {decided : Supervision Value}
    {restart : Restart}
    (hInv : AllowanceInv supervision)
    (hFree : supervision.recovery.automaticRestarts < 3)
    (hRestarts :
      decided.recovery.automaticRestarts =
        supervision.recovery.automaticRestarts + 1)
    (hLog : decided.log = supervision.log) :
    AllowanceInv (decided.recover (some restart)) := by
  have hCounted := hInv.counted
  rcases recover_recovery decided (some restart) with
    ⟨pending, hRecovery⟩
  have hCounter :
      (decided.recover
          (some restart)).recovery.automaticRestarts =
        supervision.recovery.automaticRestarts + 1 := by
    rw [hRecovery]
    exact hRestarts
  rcases recover_log decided (some restart) with
    hSame | hSnoc
  · rw [hLog] at hSame
    refine ⟨?_, ?_, ?_⟩
    · rw [hSame, hCounter]
      omega
    · rw [hCounter]
      omega
    · rw [hSame]
      exact hInv.within_
  · rw [hLog] at hSnoc
    refine hInv.snoc hSnoc ?_ ?_
    · have hRestores :
          (recoverRecord (some restart)).isNewerHealthy = false :=
        rfl
      rw [automaticSpent_snoc, hCounter, hRestores,
        if_neg Bool.false_ne_true]
      by_cases hSpends :
          (recoverRecord (some restart)).isAutomatic = true
      · rw [if_pos hSpends]
        omega
      · rw [if_neg hSpends]
        omega
    · rw [hCounter]
      omega

theorem allowanceInv_probe
    (hInv : AllowanceInv supervision) :
    AllowanceInv (supervision.probe platform) := by
  have hExpired :
      AllowanceInv (supervision.expireRateWindow platform) :=
    hInv.keep rfl rfl
  unfold Supervision.probe
  split
  · exact hInv
  · dsimp only
    split
    · exact hExpired
    · refine allowanceInv_recover ?_ rfl
      exact hExpired.note rfl rfl rfl rfl

theorem allowanceInv_workerFailed
    (error : Thrown)
    (hInv : AllowanceInv supervision) :
    AllowanceInv
      (supervision.workerFailed platform error) := by
  unfold Supervision.workerFailed
  split
  · exact hInv
  · dsimp only
    split
    · exact allowanceInv_fail error (hInv.keep rfl rfl)
    · split
      · rename_i hBudget
        exact allowanceInv_restart hInv hBudget.2.2 rfl rfl
      · refine allowanceInv_recover ?_ rfl
        exact allowanceInv_fail error (hInv.keep rfl rfl)

theorem allowanceInv_healthy
    (hInv : AllowanceInv supervision) :
    AllowanceInv supervision.healthy := by
  have hCounted := hInv.counted
  have hBounded := hInv.bounded
  unfold Supervision.healthy
  dsimp only
  generalize
    decide (supervision.recovery.failedInputRevision <
      supervision.recovery.inputRevision) = newerInput
  split
  · refine hInv.snoc rfl ?_ hBounded
    rw [automaticSpent_snoc]
    cases newerInput with
    | true => exact Nat.zero_le _
    | false => exact hCounted
  · refine hInv.snoc rfl ?_ ?_
    · rw [automaticSpent_snoc]
      cases newerInput with
      | true => exact Nat.zero_le _
      | false => exact hCounted
    · cases newerInput with
      | true => exact Nat.zero_le _
      | false => exact hBounded

end Allowance

----------
-- Input Revisions
----------

/- No probe or opening lies above the blocked revision. -/
structure RevisionInv
    {Value : Type}
    (supervision : Supervision Value) : Prop where
  blocked :
    supervision.recovery.blockedRevision ≤
      supervision.recovery.inputRevision
  passed :
    ∀ revision ∈ barriers supervision.log,
      revision ≤ supervision.recovery.blockedRevision
  ordered : (probes supervision.log).Pairwise (· < ·)

theorem probes_subset_barriers
    {log : List RecoveryRecord}
    {revision : Nat}
    (hProbe : revision ∈ probes log) :
    revision ∈ barriers log := by
  unfold probes at hProbe
  rcases List.mem_filterMap.mp hProbe with
    ⟨record, hRecord, hRevision⟩
  refine List.mem_filterMap.mpr ⟨record, hRecord, ?_⟩
  cases record with
  | halfOpen other => exact hRevision
  | opened other => cases hRevision
  | restarted restart => cases hRevision
  | retired => cases hRevision
  | healthy newerInput => cases hRevision

section Revisions

variable {Value : Type} {platform : Platform Value}
variable {supervision supervision' : Supervision Value}

/- No new barrier, and no smaller revision. -/
theorem RevisionInv.keep
    (hInv : RevisionInv supervision)
    (hBlocked :
      supervision'.recovery.blockedRevision =
        supervision.recovery.blockedRevision)
    (hInput :
      supervision.recovery.inputRevision ≤
        supervision'.recovery.inputRevision)
    (hBarriers :
      barriers supervision'.log = barriers supervision.log)
    (hProbes :
      probes supervision'.log = probes supervision.log) :
    RevisionInv supervision' where
  blocked := by
    rw [hBlocked]
    exact Nat.le_trans hInv.blocked hInput
  passed := by
    rw [hBarriers, hBlocked]
    exact hInv.passed
  ordered := by
    rw [hProbes]
    exact hInv.ordered

theorem revisionInv_fail
    (error : Thrown)
    (hInv : RevisionInv supervision) :
    RevisionInv (supervision.fail error) := by
  rcases fail_frame supervision error with
    ⟨_, _, _, hInput, _⟩
  rcases fail_log supervision error with
    ⟨hLog, hBlocked⟩ | ⟨hLog, hBlocked⟩
  · exact
      hInv.keep hBlocked (Nat.le_of_eq hInput.symm)
        (by rw [hLog]) (by rw [hLog])
  · refine ⟨?_, ?_, ?_⟩
    · rw [hBlocked, hInput]
    · intro revision hRevision
      rw [hLog, barriers_snoc] at hRevision
      rw [hBlocked]
      rcases List.mem_append.mp hRevision with
        hOld | hNew
      · exact
          Nat.le_trans (hInv.passed revision hOld) hInv.blocked
      · exact Nat.le_of_eq (List.mem_singleton.mp hNew)
    · rw [hLog, probes_snoc]
      simpa [RecoveryRecord.probe?] using hInv.ordered

theorem revisionInv_recover
    (restart : Option Restart)
    (hInv : RevisionInv supervision) :
    RevisionInv (supervision.recover restart) := by
  rcases recover_recovery supervision restart with
    ⟨pending, hRecovery⟩
  have hBarriers :
      barriers (supervision.recover restart).log =
        barriers supervision.log := by
    rcases recover_log supervision restart with hLog | hLog
    · rw [hLog]
    · rw [hLog, barriers_snoc]
      cases restart <;>
        simp [recoverRecord, RecoveryRecord.barrier?]
  have hProbes :
      probes (supervision.recover restart).log =
        probes supervision.log := by
    rcases recover_log supervision restart with hLog | hLog
    · rw [hLog]
    · rw [hLog, probes_snoc]
      cases restart <;>
        simp [recoverRecord, RecoveryRecord.probe?]
  exact
    hInv.keep (by rw [hRecovery])
      (by rw [hRecovery]) hBarriers hProbes

/- A probe raises the blocked revision to the input's. -/
theorem revisionInv_probe
    (hInv : RevisionInv supervision) :
    RevisionInv (supervision.probe platform) := by
  unfold Supervision.probe
  split
  · exact hInv
  · dsimp only
    split
    · exact hInv.keep rfl (Nat.le_refl _) rfl rfl
    · rename_i hOpen
      have hNewer :
          supervision.recovery.blockedRevision <
            supervision.recovery.inputRevision := by
        have hNot := not_or.mp hOpen
        exact Nat.lt_of_not_le hNot.1
      apply revisionInv_recover
      refine ⟨Nat.le_refl _, ?_, ?_⟩
      · intro revision hRevision
        simp only [barriers_snoc] at hRevision
        rcases List.mem_append.mp hRevision with
          hOld | hNew
        · exact
            Nat.le_trans (hInv.passed revision hOld)
              (Nat.le_of_lt hNewer)
        · exact Nat.le_of_eq (List.mem_singleton.mp hNew)
      · simp only [probes_snoc]
        refine List.pairwise_append.mpr
          ⟨hInv.ordered, List.pairwise_singleton .., ?_⟩
        intro revision hRevision last hLast
        have hPassed :=
          hInv.passed revision (probes_subset_barriers hRevision)
        rw [List.mem_singleton.mp hLast]
        exact Nat.lt_of_le_of_lt hPassed hNewer

theorem revisionInv_workerFailed
    (error : Thrown)
    (hInv : RevisionInv supervision) :
    RevisionInv
      (supervision.workerFailed platform error) := by
  unfold Supervision.workerFailed
  split
  · exact hInv
  · dsimp only
    split
    · apply revisionInv_fail
      exact hInv.keep rfl (Nat.le_refl _) rfl rfl
    · split
      · apply revisionInv_recover
        exact hInv.keep rfl (Nat.le_refl _) rfl rfl
      · apply revisionInv_recover
        apply revisionInv_fail
        exact hInv.keep rfl (Nat.le_refl _) rfl rfl

end Revisions

----------
-- One Recovery
----------

/- The tasks in flight are the pending one. -/
def SingleInv
    {Value : Type}
    (supervision : Supervision Value) : Prop :=
  supervision.tasks.map (·.id) =
    supervision.recovery.pending.toList

section Single

variable {Value : Type} {platform : Platform Value}
variable {supervision supervision' : Supervision Value}

theorem SingleInv.keep
    (hInv : SingleInv supervision)
    (hTasks :
      supervision'.tasks.map (·.id) =
        supervision.tasks.map (·.id))
    (hPending :
      supervision'.recovery.pending =
        supervision.recovery.pending) :
    SingleInv supervision' := by
  unfold SingleInv
  rw [hTasks, hPending]
  exact hInv

theorem singleInv_fail
    (error : Thrown)
    (hInv : SingleInv supervision) :
    SingleInv (supervision.fail error) := by
  rcases fail_frame supervision error with
    ⟨_, _, hPending, _, _, hTasks, _⟩
  exact hInv.keep (by rw [hTasks]) hPending

/- A new task only where there was none. -/
theorem singleInv_recover
    (restart : Option Restart)
    (hInv : SingleInv supervision) :
    SingleInv (supervision.recover restart) := by
  unfold Supervision.recover
  cases hPending : supervision.recovery.pending with
  | some task => simpa [hPending] using hInv
  | none =>
    have hNone : supervision.tasks = [] := by
      unfold SingleInv at hInv
      rw [hPending] at hInv
      exact List.map_eq_nil_iff.mp hInv
    by_cases hActive : supervision.recycleActive
    · simp [SingleInv, hActive, hNone]
    · simp [SingleInv, hActive, hNone]

theorem singleInv_probe
    (hInv : SingleInv supervision) :
    SingleInv (supervision.probe platform) := by
  unfold Supervision.probe
  split
  · exact hInv
  · dsimp only
    split
    · exact hInv.keep rfl rfl
    · apply singleInv_recover
      exact hInv.keep rfl rfl

theorem singleInv_workerFailed
    (error : Thrown)
    (hInv : SingleInv supervision) :
    SingleInv (supervision.workerFailed platform error) := by
  unfold Supervision.workerFailed
  split
  · exact hInv
  · dsimp only
    split
    · apply singleInv_fail
      exact hInv.keep rfl rfl
    · split
      · apply singleInv_recover
        exact hInv.keep rfl rfl
      · apply singleInv_recover
        apply singleInv_fail
        exact hInv.keep rfl rfl

theorem setPhase_ids
    (id : Nat)
    (phase : TaskPhase) :
    (supervision.setPhase id phase).tasks.map (·.id) =
      supervision.tasks.map (·.id) := by
  simp only [Supervision.setPhase, List.map_map]
  apply List.map_congr_left
  intro task _
  simp only [Function.comp_apply]
  by_cases hId : task.id = id
  · simp [hId]
  · simp [hId]

/- The task that finishes is the pending one. -/
theorem singleInv_recoveryFinished
    (id : Nat)
    (hInv : SingleInv supervision) :
    SingleInv (supervision.recoveryFinished id) := by
  unfold Supervision.recoveryFinished
  split
  · rename_i task hTask
    have hMember := List.mem_of_find?_eq_some hTask
    have hId := List.find?_some hTask
    simp only [decide_eq_true_eq] at hId
    have hPending :
        supervision.recovery.pending = some id := by
      have hMapped := List.mem_map_of_mem (f := (·.id)) hMember
      unfold SingleInv at hInv
      rw [hInv, Option.mem_toList] at hMapped
      rw [hMapped, hId]
    have hTasks : supervision.tasks.map (·.id) = [id] := by
      rw [hInv, hPending]
      rfl
    rcases List.map_eq_singleton_iff.mp hTasks with
      ⟨only, hOnly, hOnlyId⟩
    simp [SingleInv, hPending, hOnly, hOnlyId]
  · exact hInv

end Single

----------
-- Runs
----------

structure BudgetInv
    {Value : Type}
    (platform : Platform Value)
    (supervision : Supervision Value) : Prop where
  window : WindowInv platform supervision
  allowance : AllowanceInv supervision
  revisions : RevisionInv supervision
  single : SingleInv supervision

section Runs

variable {Value : Type} {platform : Platform Value}
variable {supervision supervision' : Supervision Value}

theorem budgetInv_start : BudgetInv platform {} where
  window := ⟨[], Tracks.nil .., by simp [restartTimes]⟩
  allowance := ⟨Nat.zero_le _, Nat.zero_le _, Within.nil _ _ _⟩
  revisions :=
    ⟨Nat.le_refl _, by simp [barriers], by simp [probes]⟩
  single := rfl

/- A step that starts nothing, fails nothing, logs nothing. -/
theorem BudgetInv.keep
    (hInv : BudgetInv platform supervision)
    (hReads : supervision'.reads = supervision.reads)
    (hLog : supervision'.log = supervision.log)
    (hTasks :
      supervision'.tasks.map (·.id) =
        supervision.tasks.map (·.id))
    (hRestarts :
      supervision'.recovery.restarts =
        supervision.recovery.restarts)
    (hAutomatic :
      supervision'.recovery.automaticRestarts =
        supervision.recovery.automaticRestarts)
    (hBlocked :
      supervision'.recovery.blockedRevision =
        supervision.recovery.blockedRevision)
    (hInput :
      supervision.recovery.inputRevision ≤
        supervision'.recovery.inputRevision)
    (hPending :
      supervision'.recovery.pending =
        supervision.recovery.pending) :
    BudgetInv platform supervision' where
  window := hInv.window.keep hRestarts hReads (by rw [hLog])
  allowance := hInv.allowance.keep hAutomatic hLog
  revisions :=
    hInv.revisions.keep hBlocked hInput (by rw [hLog])
      (by rw [hLog])
  single := hInv.single.keep hTasks hPending

theorem BudgetInv.fail
    (error : Thrown)
    (hInv : BudgetInv platform supervision) :
    BudgetInv platform (supervision.fail error) where
  window := windowInv_fail error hInv.window
  allowance := allowanceInv_fail error hInv.allowance
  revisions := revisionInv_fail error hInv.revisions
  single := singleInv_fail error hInv.single

theorem BudgetInv.setPhase
    (id : Nat)
    (phase : TaskPhase)
    (hInv : BudgetInv platform supervision) :
    BudgetInv platform (supervision.setPhase id phase) :=
  hInv.keep rfl rfl (setPhase_ids id phase) rfl rfl rfl
    (Nat.le_refl _) rfl

theorem BudgetInv.healthy
    (hInv : BudgetInv platform supervision) :
    BudgetInv platform supervision.healthy where
  window := by
    unfold Supervision.healthy
    dsimp only
    split
    · refine hInv.window.keep rfl rfl ?_
      simp [RecoveryRecord.restart?]
    · refine hInv.window.keep rfl rfl ?_
      simp [RecoveryRecord.restart?]
  allowance := allowanceInv_healthy hInv.allowance
  revisions := by
    unfold Supervision.healthy
    dsimp only
    split
    · refine hInv.revisions.keep rfl (Nat.le_refl _) ?_ ?_
      · simp [RecoveryRecord.barrier?]
      · simp [RecoveryRecord.probe?]
    · refine hInv.revisions.keep rfl (Nat.le_refl _) ?_ ?_
      · simp [RecoveryRecord.barrier?]
      · simp [RecoveryRecord.probe?]
  single := by
    unfold Supervision.healthy
    dsimp only
    split
    · exact hInv.single.keep rfl rfl
    · exact hInv.single.keep rfl rfl

theorem BudgetInv.recoveryFinished
    (id : Nat)
    (hInv : BudgetInv platform supervision) :
    BudgetInv platform (supervision.recoveryFinished id) where
  window := by
    unfold Supervision.recoveryFinished
    split
    · exact hInv.window.keep rfl rfl rfl
    · exact hInv.window
  allowance := by
    unfold Supervision.recoveryFinished
    split
    · exact hInv.allowance.keep rfl rfl
    · exact hInv.allowance
  revisions := by
    unfold Supervision.recoveryFinished
    split
    · exact hInv.revisions.keep rfl (Nat.le_refl _) rfl rfl
    · exact hInv.revisions
  single := singleInv_recoveryFinished id hInv.single

section Clock

variable (hClock : Monotone platform.now)

include hClock

theorem BudgetInv.probe
    (hInv : BudgetInv platform supervision) :
    BudgetInv platform (supervision.probe platform) where
  window := windowInv_probe hClock hInv.window
  allowance := allowanceInv_probe hInv.allowance
  revisions := revisionInv_probe hInv.revisions
  single := singleInv_probe hInv.single

theorem BudgetInv.workerFailed
    (error : Thrown)
    (hInv : BudgetInv platform supervision) :
    BudgetInv platform
      (supervision.workerFailed platform error) where
  window := windowInv_workerFailed hClock error hInv.window
  allowance := allowanceInv_workerFailed error hInv.allowance
  revisions := revisionInv_workerFailed error hInv.revisions
  single := singleInv_workerFailed error hInv.single

/- Every step keeps the budget. -/
theorem budgetInv_step
    (supervision : Supervision Value)
    (event : RecoveryEvent Value)
    (hInv : BudgetInv platform supervision) :
    BudgetInv platform
      (recoveryStep platform supervision event) := by
  have hSame {supervision' : Supervision Value}
      (hRecovery : supervision'.recovery = supervision.recovery)
      (hReads : supervision'.reads = supervision.reads)
      (hLog : supervision'.log = supervision.log)
      (hTasks : supervision'.tasks = supervision.tasks) :
      BudgetInv platform supervision' :=
    hInv.keep hReads hLog (by rw [hTasks])
      (by rw [hRecovery]) (by rw [hRecovery])
      (by rw [hRecovery]) (by rw [hRecovery])
      (by rw [hRecovery])
  cases event with
  | workerFailed error => exact hInv.workerFailed hClock error
  | mutationFailed error =>
    simp only [recoveryStep, Supervision.mutationFailed]
    split
    · exact hInv
    · split
      · exact hInv.workerFailed hClock error
      · exact hInv.fail error
  | failed error => exact hInv.fail error
  | healthy => exact hInv.healthy
  | inputChanged change =>
    simp only [recoveryStep, Supervision.inputChanged]
    repeat' split
    · exact
        hInv.keep rfl rfl rfl rfl rfl rfl (Nat.le_succ _) rfl
    · exact
        hInv.keep rfl rfl rfl rfl rfl rfl (Nat.le_succ _) rfl
    · exact hInv
    · exact
        hInv.keep rfl rfl rfl rfl rfl rfl (Nat.le_succ _) rfl
  | admitRequest explicit =>
    simp only [recoveryStep, Supervision.admitRequest]
    repeat' split
    · exact hInv
    · exact hInv
    · exact hSame rfl rfl rfl rfl
    · exact hInv.probe hClock
  | admitResumes task =>
    simp only [recoveryStep, Supervision.admitResumes]
    split
    · exact BudgetInv.probe hClock (hSame rfl rfl rfl rfl)
    · exact hInv
  | recycleSettles task error =>
    simp only [recoveryStep, Supervision.recycleSettles]
    repeat' split
    · exact
        (hInv.setPhase task _).keep rfl rfl rfl rfl rfl rfl
          (Nat.le_refl _) rfl
    · exact hInv.setPhase task _
    · exact hInv
    · exact hInv
  | recoveryCaught task =>
    simp only [recoveryStep, Supervision.recoveryCaught]
    repeat' split
    · exact BudgetInv.fail _ (hInv.setPhase task _)
    · exact hInv.setPhase task _
    · exact hInv
  | recoveryFinished task => exact hInv.recoveryFinished task
  | runStarts =>
    simp only [recoveryStep, Supervision.runStarts]
    split
    · exact hSame rfl rfl rfl rfl
    · exact hInv
  | runEnds =>
    simp only [recoveryStep, Supervision.runEnds]
    split
    · exact hSame rfl rfl rfl rfl
    · exact hInv
  | settle =>
    exact hInv.keep rfl rfl rfl rfl rfl rfl (Nat.le_refl _) rfl
  | dispose => exact hSame rfl rfl rfl rfl

theorem budgetInv_run (events : List (RecoveryEvent Value)) :
    BudgetInv platform (recoveryRun platform events) :=
  run_invariant (budgetInv_step hClock) budgetInv_start events

end Clock

end Runs

----------
-- Open Circuits
----------

section Circuit

variable {Value : Type} {platform : Platform Value}
variable (supervision : Supervision Value)

theorem restartTimes_fail (error : Thrown) :
    restartTimes (supervision.fail error).log =
      restartTimes supervision.log := by
  rcases fail_log supervision error with ⟨hLog, _⟩ | ⟨hLog, _⟩
  · rw [hLog]
  · rw [hLog, restartTimes_snoc]
    simp [RecoveryRecord.restart?]

theorem restartTimes_retire :
    restartTimes (supervision.recover none).log =
      restartTimes supervision.log := by
  rcases recover_log supervision none with hLog | hLog
  · rw [hLog]
  · rw [hLog, restartTimes_snoc]
    simp [recoverRecord, RecoveryRecord.restart?]

/- Only input newer than the blocked revision is probed. -/
theorem probe_newer
    (hStarts :
      (restartTimes supervision.log).length <
        (restartTimes (supervision.probe platform).log).length) :
    supervision.recovery.blockedRevision <
      supervision.recovery.inputRevision := by
  by_contra hOld
  have hBlocked :
      supervision.recovery.inputRevision ≤
        supervision.recovery.blockedRevision :=
    Nat.le_of_not_lt hOld
  have hSame : (supervision.probe platform).log = supervision.log := by
    unfold Supervision.probe
    split
    · rfl
    · dsimp only
      split
      · rfl
      · rename_i hNewer
        exact absurd (Or.inl hBlocked) hNewer
  rw [hSame] at hStarts
  exact Nat.lt_irrefl _ hStarts

/- When the failure of a worker restarts it. -/
def FailureRestarts
    (platform : Platform Value)
    (supervision : Supervision Value) : Prop :=
  supervision.disposed = false ∧
    supervision.recovery.stopping = false ∧
    supervision.recovery.pending = none ∧
    supervision.activity = .idle ∧
    supervision.recovery.probing = false ∧
    (Supervision.expireRestarts platform
      supervision.recovery.restarts
      supervision.reads).1.length < 3 ∧
    supervision.recovery.automaticRestarts < 3

theorem workerFailed_starts_iff (error : Thrown) :
    (restartTimes supervision.log).length <
        (restartTimes
          (supervision.workerFailed platform error).log).length ↔
      FailureRestarts platform supervision := by
  unfold Supervision.workerFailed FailureRestarts
  by_cases hStopped :
      supervision.disposed = true ∨
        supervision.recovery.stopping = true
  · rw [if_pos hStopped]
    rcases hStopped with hStopped | hStopped
    · simp [hStopped]
    · simp [hStopped]
  · rcases not_or.mp hStopped with ⟨hDisposed, hStopping⟩
    rw [if_neg hStopped]
    dsimp only
    split
    · rename_i hBusy
      rw [restartTimes_fail, noteFailure_log]
      rw [noteFailure_pending, noteFailure_recycleActive] at hBusy
      rcases hBusy with hPending | hActive
      · rcases Option.isSome_iff_exists.mp hPending with
          ⟨task, hTask⟩
        simp [hTask]
      · have hActivity :=
          (recycleActive_iff supervision).mp hActive
        simp [hActivity]
    · rename_i hBusy
      rcases not_or.mp hBusy with ⟨hPending, hActive⟩
      have hNone : supervision.recovery.pending = none := by
        simpa using hPending
      have hIdle : supervision.activity = .idle := by
        by_contra hOther
        exact hActive ((recycleActive_iff supervision).mpr hOther)
      split
      · rename_i hBudget
        constructor
        · intro _
          exact
            ⟨by simpa using hDisposed,
              by simpa using hStopping, hNone, hIdle, hBudget⟩
        · intro _
          rw [recover_log_idle, restartTimes_snoc,
            noteFailure_log]
          · simp [recoverRecord, RecoveryRecord.restart?]
          · exact hNone
          · exact hIdle
      · rename_i hBudget
        rw [restartTimes_retire, restartTimes_fail,
          noteFailure_log]
        constructor
        · intro hLess
          exact absurd hLess (Nat.lt_irrefl _)
        · rintro ⟨_, _, _, _, hFree⟩
          exact absurd hFree hBudget

/- Events that are neither failures nor explicit work. -/
theorem restartTimes_quiet
    (platform : Platform Value)
    (event : RecoveryEvent Value)
    (hFails : failsWorker event = false)
    (hExplicit : ¬ ExplicitWork event) :
    restartTimes
        (recoveryStep platform supervision event).log =
      restartTimes supervision.log := by
  cases event with
  | workerFailed error => cases hFails
  | mutationFailed error =>
    have hOther : error ≠ .supervisor .restartRequired := by
      simpa [failsWorker] using hFails
    simp only [recoveryStep, Supervision.mutationFailed,
      hOther, if_false]
    split
    · rfl
    · exact restartTimes_fail supervision error
  | failed error => exact restartTimes_fail supervision error
  | healthy =>
    simp only [recoveryStep, Supervision.healthy]
    split <;> simp [RecoveryRecord.restart?]
  | inputChanged change =>
    simp only [recoveryStep, Supervision.inputChanged]
    repeat' split
    all_goals rfl
  | admitRequest explicit =>
    have hIdle : explicit = false := by
      simpa [ExplicitWork] using hExplicit
    simp only [recoveryStep, Supervision.admitRequest, hIdle]
    split
    · rfl
    · simp
  | admitResumes task => exact absurd trivial hExplicit
  | recycleSettles task error =>
    simp only [recoveryStep, Supervision.recycleSettles]
    repeat' split
    all_goals rfl
  | recoveryCaught task =>
    simp only [recoveryStep, Supervision.recoveryCaught]
    repeat' split
    · exact restartTimes_fail _ _
    · rfl
    · rfl
  | recoveryFinished task =>
    simp only [recoveryStep, Supervision.recoveryFinished]
    split
    all_goals rfl
  | runStarts =>
    simp only [recoveryStep, Supervision.runStarts]
    split
    all_goals rfl
  | runEnds =>
    simp only [recoveryStep, Supervision.runEnds]
    split
    all_goals rfl
  | settle => rfl
  | dispose => rfl

variable (event : RecoveryEvent Value)

/- Explicit work that starts a restart is a probe. -/
theorem explicit_newer
    (hExplicit : ExplicitWork event)
    (hStarts : StartsRestart platform supervision event) :
    supervision.recovery.blockedRevision <
      supervision.recovery.inputRevision := by
  unfold StartsRestart at hStarts
  cases event with
  | admitRequest explicit =>
    simp only [recoveryStep, Supervision.admitRequest] at hStarts
    repeat' split at hStarts
    · exact absurd hStarts (Nat.lt_irrefl _)
    · exact absurd hStarts (Nat.lt_irrefl _)
    · exact absurd hStarts (Nat.lt_irrefl _)
    · exact probe_newer supervision hStarts
  | admitResumes task =>
    simp only [recoveryStep, Supervision.admitResumes] at hStarts
    split at hStarts
    · exact
        probe_newer
          { supervision with
            admissions := supervision.admissions.erase task }
          hStarts
    · exact absurd hStarts (Nat.lt_irrefl _)
  | _ => cases hExplicit

/- What the failure of a worker does to an open circuit. -/
theorem failsWorker_starts_iff
    (hFails : failsWorker event = true) :
    StartsRestart platform supervision event ↔
      FailureRestarts platform supervision := by
  unfold StartsRestart
  cases event with
  | workerFailed error =>
    exact workerFailed_starts_iff supervision error
  | mutationFailed error =>
    have hRestart : error = .supervisor .restartRequired := by
      simpa [failsWorker] using hFails
    simp only [recoveryStep, Supervision.mutationFailed,
      hRestart, if_true]
    split
    · rename_i hDisposed
      simp [FailureRestarts, hDisposed]
    · exact workerFailed_starts_iff supervision _
  | _ => cases hFails

theorem explicitWork_of_failsWorker
    (hFails : failsWorker event = true) :
    ¬ ExplicitWork event := by
  intro hExplicit
  cases event with
  | workerFailed error => exact hExplicit
  | mutationFailed error => exact hExplicit
  | _ => cases hFails

/- The step that breaks the guard is the one named. -/
theorem circuitGuarded_iff
    (hInv : RevisionInv supervision) :
    CircuitGuarded platform supervision event ↔
      ¬ RestartsOpenCircuit platform supervision event := by
  constructor
  · rintro hGuarded ⟨hFails, hOpen, hRestarts⟩
    have hStarts :=
      (failsWorker_starts_iff supervision event hFails).mpr
        hRestarts
    exact
      explicitWork_of_failsWorker event hFails
        (hGuarded hOpen hStarts).1
  · intro hCondition hOpen hStarts
    by_cases hFails : failsWorker event = true
    · have hRestarts :=
        (failsWorker_starts_iff supervision event hFails).mp
          hStarts
      exact absurd ⟨hFails, hOpen, hRestarts⟩ hCondition
    · have hExplicit : ExplicitWork event := by
        by_contra hOther
        have hSame :=
          restartTimes_quiet supervision platform event
            (by simpa using hFails) hOther
        unfold StartsRestart at hStarts
        rw [hSame] at hStarts
        exact Nat.lt_irrefl _ hStarts
      refine ⟨hExplicit, ?_⟩
      intro revision hRevision
      exact
        Nat.lt_of_le_of_lt (hInv.passed revision hRevision)
          (explicit_newer supervision event hExplicit hStarts)

end Circuit

----------
-- Main Result
----------

section Main

variable {Value : Type} {platform : Platform Value}

/- Two conditions that agree where the invariant holds. -/
theorem admissible_congr
    {State Event : Type}
    {step : State → Event → State}
    {First Second : State → Event → Prop}
    {Inv : State → Prop}
    (hStep : ∀ state event, Inv state → Inv (step state event))
    (hSame :
      ∀ state event,
        Inv state → (First state event ↔ Second state event))
    {state : State}
    (hState : Inv state)
    (events : List Event) :
    Admissible step First state events ↔
      Admissible step Second state events := by
  induction events generalizing state with
  | nil => exact Iff.rfl
  | cons event events ih =>
    exact
      and_congr (hSame state event hState)
        (ih (hStep state event hState))

/- Sending a known configuration again is no change. -/
theorem inputRevision_identical
    (supervision : Supervision Value)
    {configuration : String}
    {value stored : Value}
    (hName : configuration ≠ "")
    (hStored :
      supervision.recovery.configurations.lookup
          configuration = some stored)
    (hEqual :
      platform.isDeepStrictEqual stored value = true) :
    (supervision.inputChanged platform
        (some (configuration, value))).recovery.inputRevision =
      supervision.recovery.inputRevision := by
  simp only [Supervision.inputChanged, hName, hStored,
    Option.any_some, hEqual, if_false, if_true]

/-
  The budget holds of a run exactly when no worker failure
  restarts the worker behind an open circuit.
-/
theorem restartBudget_iff
    (hClock : Monotone platform.now)
    (events : List (RecoveryEvent Value)) :
    RestartBudget platform events ↔
      Admissible (recoveryStep platform)
        (fun supervision event =>
          ¬ RestartsOpenCircuit platform supervision event)
        {} events := by
  have hCircuit :
      Admissible (recoveryStep platform)
          (CircuitGuarded platform) {} events ↔
        Admissible (recoveryStep platform)
          (fun supervision event =>
            ¬ RestartsOpenCircuit platform supervision event)
          {} events := by
    apply
      admissible_congr (budgetInv_step hClock) _
        budgetInv_start
    intro supervision event hInv
    exact circuitGuarded_iff supervision event hInv.revisions
  constructor
  · intro hBudget
    exact hCircuit.mp hBudget.circuit
  · intro hAdmissible
    have hInv := budgetInv_run hClock events
    refine
      { window := ?_
        automatic := ?_
        single := ?_
        circuit := hCircuit.mpr hAdmissible
        oneProbe := ?_
        identical := ?_ }
    · rcases hInv.window with ⟨counted, hTracks, hTimes⟩
      exact hTracks.limited.sublist hTimes
    · intro earlier stretch later hLog hStretch
      have hWithin := hInv.allowance.within_
      rw [hLog] at hWithin
      exact hWithin.stretch hStretch
    · intro before after _
      have hSingle := (budgetInv_run hClock before).single
      have hLength := congrArg List.length hSingle
      rw [List.length_map] at hLength
      rw [hLength]
      cases (recoveryRun platform before).recovery.pending <;>
        simp
    · exact hInv.revisions.ordered.imp Nat.ne_of_lt
    · intro before after configuration value stored _ hName
        hStored hEqual
      unfold recoveryRun at hStored ⊢
      rw [run_append]
      exact
        inputRevision_identical _ hName hStored hEqual

end Main

----------
-- Two Runs
----------

instance
    {Value : Type}
    (event : RecoveryEvent Value) :
    Decidable (ExplicitWork event) := by
  unfold ExplicitWork
  cases event <;> infer_instance

instance
    {Value : Type}
    (platform : Platform Value)
    (supervision : Supervision Value)
    (event : RecoveryEvent Value) :
    Decidable (CircuitGuarded platform supervision event) := by
  unfold CircuitGuarded StartsRestart
  infer_instance

/- A clock that a minute passes between any two reads of. -/
def minutePlatform : Platform Nat where
  now reads := 60000 * reads
  isDeepStrictEqual first second := first = second

theorem minutePlatform_monotone : Monotone minutePlatform.now :=
  fun _ _ hLe => Nat.mul_le_mul_left 60000 hLe

/- The steps of a recovery that ends without an error. -/
def recovers (task : Nat) : List (RecoveryEvent Nat) :=
  [.recycleSettles task none, .recoveryCaught task,
    .recoveryFinished task]

/-
  Three automatic restarts, a fourth failure that opens the
  circuit, and a half-open probe after a new configuration
  that is sent twice.
-/
def probedRun : List (RecoveryEvent Nat) :=
  (.workerFailed .other :: recovers 0) ++
    (.workerFailed .other :: recovers 1) ++
      (.workerFailed .other :: recovers 2) ++
        (.workerFailed .other :: recovers 3) ++
          [.inputChanged (some ("sdk", 1)),
            .inputChanged (some ("sdk", 1)), .admitRequest true,
            .admitRequest true] ++
              recovers 4 ++ [.admitResumes 4, .healthy]

theorem restartBudget_probedRun :
    RestartBudget minutePlatform probedRun :=
  (restartBudget_iff minutePlatform_monotone probedRun).mpr
    (by decide +kernel)

/-
  A manual replacement fails after the old worker is gone
  and opens the circuit; the new worker then exits.
-/
def openCircuitRun : List (RecoveryEvent Nat) :=
  [.runStarts, .failed .other, .runEnds, .workerFailed .other]

theorem not_restartBudget_openCircuitRun :
    Monotone minutePlatform.now ∧
      ¬ RestartBudget minutePlatform openCircuitRun := by
  refine ⟨minutePlatform_monotone, ?_⟩
  intro hBudget
  have hGuarded :
      ¬ Admissible (recoveryStep minutePlatform)
        (CircuitGuarded minutePlatform) {} openCircuitRun := by
    decide +kernel
  exact hGuarded hBudget.circuit

end Semantic

end ArktsServer
