import Mathlib.Data.List.Induction
import Mathlib.Tactic.Common

/-
  Start budgets over a sliding window of time.

  A limiter keeps the times of its last starts, forgets a
  time once it is older than the window, and starts only
  while it keeps fewer times than the limit.  Whatever the
  clock does between the steps, no window of that width
  then holds more starts than the limit.

  A second kind of budget is spent by some entries of a log
  and restored by others.

  Main declarations:
    * `RateWindow.Limited`
    * `RateWindow.Tracks`
    * `RateWindow.Tracks.forget`
    * `RateWindow.Tracks.start`
    * `RateWindow.spent`
    * `RateWindow.countP_le_spent`
-/

namespace ArktsServer

namespace RateWindow

----------
-- Windows
----------

/- The starts from `opening` to the end of its window. -/
def within
    (width opening : Nat)
    (starts : List Nat) : List Nat :=
  starts.filter fun time =>
    opening ≤ time ∧ time ≤ opening + width

/- No window of the width holds more than `limit` starts. -/
def Limited
    (limit width : Nat)
    (starts : List Nat) : Prop :=
  ∀ opening, (within width opening starts).length ≤ limit

theorem within_append
    (width opening : Nat)
    (first second : List Nat) :
    within width opening (first ++ second) =
      within width opening first ++
        within width opening second :=
  List.filter_append ..

theorem within_eq_nil
    {width opening : Nat}
    {starts : List Nat}
    (hOutside : ∀ time ∈ starts, time < opening) :
    within width opening starts = [] := by
  unfold within
  rw [List.filter_eq_nil_iff]
  intro time hTime
  have hBefore := hOutside time hTime
  simp only [decide_eq_true_eq]
  omega

theorem within_length_le
    (width opening : Nat)
    (starts : List Nat) :
    (within width opening starts).length ≤ starts.length :=
  List.length_filter_le ..

/- What is started less often stays within the limit. -/
theorem Limited.sublist
    {limit width : Nat}
    {fewer starts : List Nat}
    (hLimited : Limited limit width starts)
    (hFewer : fewer.Sublist starts) :
    Limited limit width fewer := by
  intro opening
  have hWithin :
      (within width opening fewer).Sublist
        (within width opening starts) :=
    hFewer.filter _
  exact Nat.le_trans hWithin.length_le (hLimited opening)

----------
-- Kept Starts
----------

/-
  `kept` are the starts that a limiter still counts at the
  time `now`: what it has forgotten is older than the width.
-/
structure Tracks
    (limit width now : Nat)
    (starts kept : List Nat) : Prop where
  forgotten :
    ∃ expired,
      starts = expired ++ kept ∧
        ∀ time ∈ expired, time + width < now
  past : ∀ time ∈ starts, time ≤ now
  limited : Limited limit width starts

theorem Tracks.nil
    (limit width now : Nat) :
    Tracks limit width now [] [] where
  forgotten := ⟨[], rfl, by simp⟩
  past := by simp
  limited := by
    intro opening
    simp [within]

variable {starts kept : List Nat}

theorem Tracks.later
    {limit width now later : Nat}
    (hTracks : Tracks limit width now starts kept)
    (hLater : now ≤ later) :
    Tracks limit width later starts kept := by
  rcases hTracks.forgotten with ⟨expired, hStarts, hExpired⟩
  refine ⟨⟨expired, hStarts, ?_⟩, ?_, hTracks.limited⟩
  · intro time hTime
    have hOld := hExpired time hTime
    omega
  · intro time hTime
    exact Nat.le_trans (hTracks.past time hTime) hLater

/- Forgetting a start that is older than the window. -/
theorem Tracks.forget
    {limit width now time : Nat}
    (hTracks : Tracks limit width now starts (time :: kept))
    (hOld : time + width < now) :
    Tracks limit width now starts kept := by
  rcases hTracks.forgotten with ⟨expired, hStarts, hExpired⟩
  refine
    ⟨⟨expired ++ [time], by simp [hStarts], ?_⟩,
      hTracks.past, hTracks.limited⟩
  intro other hOther
  rcases List.mem_append.mp hOther with hOther | hOther
  · exact hExpired other hOther
  · rw [List.mem_singleton.mp hOther]
    exact hOld

/-
  A start below the limit.  A window that ends before `now`
  does not see it; one that reaches `now` opens after every
  forgotten start.
-/
theorem Tracks.start
    {limit width now : Nat}
    (hTracks : Tracks limit width now starts kept)
    (hFree : kept.length < limit) :
    Tracks limit width now
      (starts ++ [now]) (kept ++ [now]) := by
  rcases hTracks.forgotten with ⟨expired, hStarts, hExpired⟩
  refine ⟨⟨expired, by simp [hStarts], hExpired⟩, ?_, ?_⟩
  · intro time hTime
    rcases List.mem_append.mp hTime with hTime | hTime
    · exact hTracks.past time hTime
    · exact Nat.le_of_eq (List.mem_singleton.mp hTime)
  · intro opening
    rw [within_append]
    by_cases hSees : opening ≤ now ∧ now ≤ opening + width
    · have hNone : within width opening expired = [] := by
        apply within_eq_nil
        intro time hTime
        have hOld := hExpired time hTime
        omega
      have hKept := within_length_le width opening kept
      have hLast := within_length_le width opening [now]
      rw [hStarts, within_append, hNone]
      simp only [List.nil_append, List.length_append]
      simp only [List.length_singleton] at hLast
      omega
    · have hLast : within width opening [now] = [] := by
        simp [within, hSees]
      rw [hLast, List.append_nil]
      exact hTracks.limited opening

----------
-- Allowances
----------

section Allowance

variable {α : Type} (costs restores : α → Bool)

/- What a log has spent since it was last restored. -/
def spent (log : List α) : Nat :=
  log.foldl
    (fun count entry =>
      if restores entry then 0
      else if costs entry then count + 1
      else count)
    0

theorem spent_append_singleton
    (log : List α)
    (entry : α) :
    spent costs restores (log ++ [entry]) =
      if restores entry then 0
      else if costs entry then spent costs restores log + 1
      else spent costs restores log := by
  simp [spent, List.foldl_append]

/- A stretch without a restoring entry is still counted. -/
theorem countP_le_spent
    (earlier stretch : List α)
    (hStretch : ∀ entry ∈ stretch, restores entry = false) :
    stretch.countP costs ≤
      spent costs restores (earlier ++ stretch) := by
  induction stretch using List.reverseRecOn with
  | nil => simp
  | append_singleton stretch entry ih =>
    have hEntry : restores entry = false :=
      hStretch entry (by simp)
    have hBefore :
        stretch.countP costs ≤
          spent costs restores (earlier ++ stretch) := by
      apply ih
      intro other hOther
      exact hStretch other (by simp [hOther])
    rw [← List.append_assoc, spent_append_singleton,
      List.countP_append, List.countP_singleton]
    by_cases hCosts : costs entry = true
    · simp only [hEntry, hCosts, if_true]
      simp only [Bool.false_eq_true, if_false]
      omega
    · simp only [hEntry, hCosts]
      simp only [Bool.false_eq_true, if_false]
      omega

/- Every beginning of the log keeps within the allowance. -/
def Within
    (allowance : Nat)
    (log : List α) : Prop :=
  ∀ earlier,
    earlier <+: log →
      spent costs restores earlier ≤ allowance

theorem Within.nil (allowance : Nat) :
    Within costs restores allowance [] := by
  intro earlier hEarlier
  rw [List.prefix_nil.mp hEarlier]
  exact Nat.zero_le _

variable {costs restores}

theorem Within.snoc
    {allowance : Nat}
    {log : List α}
    {entry : α}
    (hLog : Within costs restores allowance log)
    (hEntry :
      spent costs restores (log ++ [entry]) ≤ allowance) :
    Within costs restores allowance (log ++ [entry]) := by
  intro earlier hEarlier
  rcases List.prefix_concat_iff.mp hEarlier with
    hAll | hBefore
  · rw [hAll]
    exact hEntry
  · exact hLog earlier hBefore

/- Between two restoring entries no more is spent. -/
theorem Within.stretch
    {allowance : Nat}
    {earlier stretch later : List α}
    (hLog :
      Within costs restores allowance
        (earlier ++ stretch ++ later))
    (hStretch : ∀ entry ∈ stretch, restores entry = false) :
    stretch.countP costs ≤ allowance :=
  Nat.le_trans
    (countP_le_spent costs restores earlier stretch hStretch)
    (hLog (earlier ++ stretch) (List.prefix_append ..))

end Allowance

end RateWindow

end ArktsServer
