import Mathlib.Data.List.Basic
import Mathlib.Data.List.Sort
import Mathlib.Order.Lattice
import Mathlib.Tactic.Common

/-
  Visiting a sorted list page by page.  A cursor is the last
  name of a page, and a run goes on with the names behind
  it; a cursor that is not accepted starts again.  A cycle
  visits every name once exactly when each page ends with an
  accepted name that its successor exceeds.

  Main declarations:
    * `Pagination.page`, `Pagination.next`
    * `Pagination.cursorAt`, `Pagination.visited`
    * `Pagination.Cycle`, `Pagination.Separated`
    * `Pagination.exists_cycle_iff`
-/

namespace ArktsServer

namespace Pagination

section Pages

variable {α : Type*} [LinearOrder α]
variable (names : List α) (limit : Nat) (bot : α)
variable (accept : α → Bool)

/- Where a run with this cursor goes on. -/
def resume (cursor : α) : α :=
  if accept cursor then cursor else bot

def pending (cursor : α) : List α :=
  names.filter fun name => resume bot accept cursor < name

def page (cursor : α) : List α :=
  (pending names bot accept cursor).take limit

/- The end of a page that is not the last one. -/
def next (cursor : α) : α :=
  if limit < (pending names bot accept cursor).length then
    ((pending names bot accept cursor)[limit - 1]?).getD bot
  else
    bot

def cursorAt : Nat → α
| 0 => bot
| run + 1 => next names limit bot accept (cursorAt run)

def pageAt (run : Nat) : List α :=
  page names limit bot accept
    (cursorAt names limit bot accept run)

def visited (runs : Nat) : List α :=
  (List.range runs).flatMap
    (pageAt names limit bot accept)

/- The first runs come back to the start and visit all. -/
structure Cycle (runs : Nat) : Prop where
  positive : 0 < runs
  ends : cursorAt names limit bot accept runs = bot
  inside :
    ∀ run, 0 < run → run < runs →
      cursorAt names limit bot accept run ≠ bot
  visits : visited names limit bot accept runs = names

/- Every page ends with an accepted and exceeded name. -/
def Separated : Prop :=
  ∀ pages, 0 < pages →
    ∀ left right,
      names[pages * limit - 1]? = some left →
      names[pages * limit]? = some right →
      accept left = true ∧ left < right

----------
-- Pages
----------

variable {names limit bot accept}

theorem visited_succ (runs : Nat) :
    visited names limit bot accept (runs + 1) =
      visited names limit bot accept runs
        ++ pageAt names limit bot accept runs := by
  unfold visited
  rw [List.range_succ, List.flatMap_append]
  simp

variable {count : Nat}

/- Behind a name that is exceeded, the rest is pending. -/
theorem filter_behind
    (hSorted : names.Pairwise (· ≤ ·))
    {left right : α}
    (hCount : 0 < count)
    (hLeft : names[count - 1]? = some left)
    (hRight : names[count]? = some right)
    (hLess : left < right) :
    names.filter (fun name => left < name) =
      names.drop count := by
  have hFront :
      ∀ name ∈ names.take count, ¬ left < name := by
    intro name hMem
    rcases List.mem_iff_getElem?.mp hMem with
      ⟨place, hPlace⟩
    rw [List.getElem?_take] at hPlace
    split at hPlace
    · next hBefore =>
      rw [not_lt]
      rw [List.getElem?_eq_some_iff] at hPlace hLeft
      rcases hPlace with ⟨hName, rfl⟩
      rcases hLeft with ⟨hLast, rfl⟩
      by_cases hSame : place = count - 1
      · subst hSame
        exact le_refl _
      · exact
          List.pairwise_iff_getElem.mp hSorted _ _ _ _ (by omega)
    · cases hPlace
  have hBack :
      ∀ name ∈ names.drop count, left < name := by
    intro name hMem
    rcases List.mem_iff_getElem?.mp hMem with
      ⟨place, hPlace⟩
    rw [List.getElem?_drop] at hPlace
    rw [List.getElem?_eq_some_iff] at hPlace hRight
    rcases hPlace with ⟨hName, rfl⟩
    rcases hRight with ⟨hFirst, rfl⟩
    refine lt_of_lt_of_le hLess ?_
    by_cases hSame : place = 0
    · subst hSame
      exact le_refl _
    · exact
        List.pairwise_iff_getElem.mp hSorted _ _ _ _ (by omega)
  conv =>
    lhs
    rw [← List.take_append_drop count names]
  rw [List.filter_append,
    List.filter_eq_nil_iff.mpr (by simpa using hFront),
    List.filter_eq_self.mpr (by simpa using hBack),
    List.nil_append]

theorem next_of_pending
    {cursor : α}
    (hPending :
      pending names bot accept cursor = names.drop count)
    (hLimit : 0 < limit)
    {left : α}
    (hLeft : names[count + limit - 1]? = some left)
    (hMore : count + limit < names.length) :
    next names limit bot accept cursor = left := by
  unfold next
  rw [hPending, List.length_drop, if_pos (by omega),
    List.getElem?_drop,
    show count + (limit - 1) = count + limit - 1 by omega,
    hLeft]
  rfl

----------
-- Separated Pages
----------

/- Before its last page, a cycle has visited whole pages. -/
theorem separated_pages
    (hSorted : names.Pairwise (· ≤ ·))
    (hBot : ∀ name ∈ names, bot < name)
    (hLimit : 0 < limit)
    (hSeparated : Separated names limit accept)
    (pages : Nat)
    (hPages : pages = 0 ∨ pages * limit < names.length) :
    pending names bot accept
        (cursorAt names limit bot accept pages)
      = names.drop (pages * limit) ∧
      visited names limit bot accept pages =
        names.take (pages * limit) ∧
      (0 < pages →
        cursorAt names limit bot accept pages ≠ bot) := by
  induction pages with
  | zero =>
    refine ⟨?_, ?_, fun hNone => absurd hNone (by omega)⟩
    · have hResume : resume bot accept bot = bot := by
        unfold resume
        split <;> rfl
      unfold pending cursorAt
      rw [hResume, Nat.zero_mul, List.drop_zero]
      exact List.filter_eq_self.mpr (by simpa using hBot)
    · rw [Nat.zero_mul, List.take_zero]
      rfl
  | succ pages ih =>
    rw [Nat.succ_mul] at hPages ⊢
    have hMore : pages * limit + limit < names.length := by
      omega
    rcases ih (Or.inr (by omega)) with
      ⟨hPending, hVisited, _⟩
    have hLeft :
        names[pages * limit + limit - 1]? =
          some (names[pages * limit + limit - 1]) :=
      List.getElem?_eq_getElem (by omega)
    have hRight :
        names[pages * limit + limit]? =
          some (names[pages * limit + limit]) :=
      List.getElem?_eq_getElem hMore
    have hNext :
        cursorAt names limit bot accept (pages + 1) =
          names[pages * limit + limit - 1] :=
      next_of_pending hPending hLimit hLeft hMore
    rcases
        hSeparated (pages + 1) (by omega) _ _
          (by rw [Nat.succ_mul]; exact hLeft)
          (by rw [Nat.succ_mul]; exact hRight) with
      ⟨hAccept, hLess⟩
    refine ⟨?_, ?_, ?_⟩
    · rw [hNext]
      unfold pending resume
      rw [hAccept, if_pos rfl]
      exact filter_behind hSorted (by omega) hLeft hRight hLess
    · rw [visited_succ, hVisited]
      unfold pageAt page
      rw [hPending, List.take_add]
    · intro _
      rw [hNext]
      exact ne_of_gt (hBot _ (List.getElem_mem _))

theorem cycle_of_separated
    (hSorted : names.Pairwise (· ≤ ·))
    (hBot : ∀ name ∈ names, bot < name)
    (hLimit : 0 < limit)
    (hSeparated : Separated names limit accept) :
    Cycle names limit bot accept
      ((names.length - 1) / limit + 1) := by
  have hPages := separated_pages hSorted hBot hLimit hSeparated
  generalize hLast : (names.length - 1) / limit = last
  have hDiv := Nat.div_add_mod (names.length - 1) limit
  have hMod := Nat.mod_lt (names.length - 1) hLimit
  rw [hLast, Nat.mul_comm] at hDiv
  have hSmall : last = 0 ∨ last * limit < names.length := by
    by_cases hZero : last = 0
    · exact Or.inl hZero
    · have hPositive : limit ≤ last * limit :=
        Nat.le_mul_of_pos_left _ (by omega)
      right
      omega
  rcases hPages last hSmall with ⟨hPending, hVisited, _⟩
  refine ⟨by omega, ?_, ?_, ?_⟩
  · show next names limit bot accept _ = bot
    unfold next
    rw [hPending, List.length_drop, if_neg (by omega)]
  · intro run hPositive hRun
    have hLe : run * limit ≤ last * limit :=
      Nat.mul_le_mul_right _ (by omega)
    rcases hSmall with hZero | hMore
    · omega
    · exact (hPages run (Or.inr (by omega))).2.2 hPositive
  · rw [visited_succ, hVisited]
    unfold pageAt page
    rw [hPending, ← List.take_add]
    exact List.take_of_length_le (by omega)

----------
-- Cycles
----------

/- After a cursor that is refused, the runs start again. -/
theorem cursorAt_refused
    {run : Nat}
    (hRefused :
      accept (cursorAt names limit bot accept run) = false)
    (later : Nat) :
    cursorAt names limit bot accept (run + (later + 1)) =
      cursorAt names limit bot accept (later + 1) := by
  induction later with
  | zero =>
    have hStart : resume bot accept bot = bot := by
      unfold resume
      split <;> rfl
    show next names limit bot accept _ =
      next names limit bot accept bot
    unfold next pending
    rw [show
        resume bot accept
            (cursorAt names limit bot accept run)
          = resume bot accept bot by
        rw [hStart]
        unfold resume
        rw [hRefused]
        rfl]
  | succ later ih =>
    show next names limit bot accept
        (cursorAt names limit bot accept (run + (later + 1)))
      = next names limit bot accept
        (cursorAt names limit bot accept (later + 1))
    rw [ih]

variable {runs : Nat}

/- No cursor of a cycle is refused. -/
theorem Cycle.accepted
    (hCycle : Cycle names limit bot accept runs)
    {run : Nat}
    (hPositive : 0 < run)
    (hRun : run < runs) :
    accept (cursorAt names limit bot accept run) = true := by
  by_contra hNot
  have hRefused :
      accept (cursorAt names limit bot accept run) = false :=
    Bool.eq_false_iff.mpr hNot
  have hNever :
      ∀ later, 0 < later →
        cursorAt names limit bot accept later ≠ bot := by
    intro later
    induction later using Nat.strong_induction_on with
    | _ later ih =>
      intro hLater
      by_cases hEarly : later ≤ run
      · exact hCycle.inside later hLater (by omega)
      · have hBack :=
          cursorAt_refused hRefused (later - run - 1)
        rw [show run + (later - run - 1 + 1) = later by
            omega,
          show later - run - 1 + 1 = later - run by omega]
          at hBack
        rw [hBack]
        exact ih (later - run) (by omega) (by omega)
  exact hNever runs hCycle.positive hCycle.ends

omit [LinearOrder α] in
theorem resume_accepted
    {cursor : α}
    (hAccept : accept cursor = true) :
    resume bot accept cursor = cursor := by
  unfold resume
  rw [if_pos hAccept]

variable {runs : Nat}

/- A page before the last one of a cycle is full. -/
theorem Cycle.full
    (hCycle : Cycle names limit bot accept runs)
    {run : Nat}
    (hRun : run + 1 < runs) :
    limit < (pending names bot accept
        (cursorAt names limit bot accept run)).length := by
  by_contra hNot
  apply hCycle.inside (run + 1) (by omega) hRun
  show next names limit bot accept _ = bot
  unfold next
  rw [if_neg hNot]

theorem Cycle.length_visited
    (hCycle : Cycle names limit bot accept runs)
    {run : Nat}
    (hRun : run < runs) :
    (visited names limit bot accept run).length =
      run * limit := by
  induction run with
  | zero => simp [visited]
  | succ run ih =>
    have hFull := hCycle.full hRun
    rw [visited_succ, List.length_append,
      ih (by omega), Nat.succ_mul]
    unfold pageAt page
    rw [List.length_take]
    omega

theorem visited_initial
    (run later : Nat) :
    visited names limit bot accept run <+:
      visited names limit bot accept (run + later) := by
  induction later with
  | zero => exact List.prefix_refl _
  | succ later ih =>
    refine ih.trans ?_
    rw [← Nat.add_assoc, visited_succ]
    exact List.prefix_append _ _

theorem Cycle.visited_eq
    (hCycle : Cycle names limit bot accept runs)
    {run : Nat}
    (hRun : run < runs) :
    visited names limit bot accept run =
      names.take (run * limit) := by
  have hPrefix :=
    @visited_initial α _ names limit bot accept run (runs - run)
  rw [Nat.add_sub_cancel' (Nat.le_of_lt hRun),
    hCycle.visits] at hPrefix
  rw [← hCycle.length_visited hRun]
  exact List.prefix_iff_eq_take.mp hPrefix

/- What a page of a cycle shows of the list. -/
theorem Cycle.pageAt_getElem
    (hCycle : Cycle names limit bot accept runs)
    {run : Nat}
    (hRun : run < runs)
    {place : Nat}
    (hPlace : place < limit)
    {name : α}
    (hName : names[run * limit + place]? = some name) :
    (pageAt names limit bot accept run)[place]? =
      some name := by
  have hVisited := hCycle.visited_eq hRun
  have hLength := hCycle.length_visited hRun
  have hNext := @visited_succ α _ names limit bot accept run
  have hBehind :
      (visited names limit bot accept
          (run + 1))[run * limit + place]?
        = (pageAt names limit bot accept run)[place]? := by
    rw [hNext, List.getElem?_append_right (by omega),
      hLength, Nat.add_sub_cancel_left]
  rw [← hBehind]
  by_cases hLast : run + 1 < runs
  · rw [hCycle.visited_eq hLast, Nat.succ_mul,
      List.getElem?_take, if_pos (by omega), hName]
  · rw [show run + 1 = runs by omega, hCycle.visits, hName]

theorem Cycle.length_le
    (hCycle : Cycle names limit bot accept runs) :
    names.length ≤ runs * limit := by
  rcases Nat.exists_eq_add_of_lt hCycle.positive with
    ⟨last, hLast⟩
  rw [Nat.zero_add] at hLast
  have hVisits := hCycle.visits
  have hLength :=
    @Cycle.length_visited α _ names limit bot accept runs
      hCycle last (by omega)
  rw [hLast, visited_succ] at hVisits
  rw [← hVisits, List.length_append, hLength, hLast, Nat.succ_mul]
  unfold pageAt page
  rw [List.length_take]
  omega

theorem separated_of_cycle
    (hLimit : 0 < limit)
    (hCycle : Cycle names limit bot accept runs) :
    Separated names limit accept := by
  intro pages hPages left right hLeft hRight
  have hShort : pages * limit < names.length :=
    (List.getElem?_eq_some_iff.mp hRight).1
  have hLe := hCycle.length_le
  have hRun : pages < runs := by
    by_contra hNot
    have hMul : runs * limit ≤ pages * limit :=
      Nat.mul_le_mul_right _ (by omega)
    omega
  -- The cursor of this page is the last name before it.
  have hCursor :
      cursorAt names limit bot accept pages = left := by
    rcases Nat.exists_eq_add_of_lt hPages with ⟨before, hBefore⟩
    rw [Nat.zero_add] at hBefore
    subst hBefore
    have hFull := hCycle.full hRun
    have hBeforeRun : before < runs := by omega
    have hPlace : limit - 1 < limit := by omega
    have hName :
        names[before * limit + (limit - 1)]? = some left := by
      rw [Nat.succ_mul] at hLeft
      rw [show before * limit + (limit - 1)
        = before * limit + limit - 1 by omega]
      exact hLeft
    have hLast := hCycle.pageAt_getElem hBeforeRun hPlace hName
    unfold pageAt page at hLast
    rw [List.getElem?_take, if_pos (by omega)] at hLast
    show next names limit bot accept _ = left
    unfold next
    rw [if_pos hFull, hLast]
    rfl
  have hAccept := hCycle.accepted hPages hRun
  refine ⟨hCursor ▸ hAccept, ?_⟩
  have hFirst :=
    hCycle.pageAt_getElem hRun hLimit
      (by rw [Nat.add_zero]; exact hRight)
  have hMem := List.mem_of_getElem? hFirst
  unfold pageAt page pending at hMem
  have hBehind :=
    (List.mem_filter.mp (List.mem_of_mem_take hMem)).2
  rw [resume_accepted hAccept, hCursor] at hBehind
  exact of_decide_eq_true hBehind

/- Cycles end and visit all exactly on separated pages. -/
theorem exists_cycle_iff
    (hSorted : names.Pairwise (· ≤ ·))
    (hBot : ∀ name ∈ names, bot < name)
    (hLimit : 0 < limit) :
    (∃ runs, Cycle names limit bot accept runs) ↔
      Separated names limit accept := by
  constructor
  · rintro ⟨runs, hCycle⟩
    exact separated_of_cycle hLimit hCycle
  · exact fun hSeparated =>
      ⟨_, cycle_of_separated hSorted hBot hLimit hSeparated⟩

end Pages

end Pagination

end ArktsServer
