import ArktsServer.Lib.RevisionSpans
import ArktsServer.Lib.Transition
import ArktsServer.Workspace.ContextReset
import Mathlib.Data.Nat.Basic

/-
  A compiler context that is kept has been told of every
  change since the view that it was last given: nothing was
  removed, no reset was asked for, and each changed path is
  in the delta that the context is synchronized with.

  Key definitions include:
    * `Workspace.marksAdvanced`
    * `Workspace.Trail`
    * `Workspace.TrailInv`
    * `Workspace.Consumption`
    * `Workspace.Consumption.Informed`

  Correctness is proven by:
    * `Workspace.trailInv_run`
    * `Workspace.Consumption.informed_of_kept`
-/

namespace ArktsServer

namespace Workspace

open Transition
open RevisionSpans

----------
-- One Root
----------

/- The operations on one root. -/
inductive RootOperation where
| advance (compatibleLexicalRoot : Option Path)
| reset
| mark (kind : MarkKind) (filePath : Path)
| take
deriving DecidableEq

/- The bounds of the marks. -/
structure MarkLimits where
  maxRemoved : Nat
  maxChanged : Nat

def MarkLimits.maximum
    (limits : MarkLimits) :
    MarkKind → Nat
| .removed => limits.maxRemoved
| .changed => limits.maxChanged

def rootStep
    (limits : MarkLimits)
    (changes : RootChanges) :
    RootOperation → RootChanges
| .advance compatible => changes.advance compatible
| .reset => changes.reset
| .mark kind filePath =>
    changes.mark filePath kind (limits.maximum kind)
| .take => changes.clear limits.maxChanged

def ContentOperation.onRoot
    (root : Path) :
    ContentOperation → Option RootOperation
| .advance other compatible =>
    if other = root then some (.advance compatible) else none
| .reset other => if other = root then some .reset else none
| .mark kind other filePath =>
    if other = root then some (.mark kind filePath) else none
| .take other => if other = root then some .take else none

def operationsOn
    (root : Path)
    (operations : List ContentOperation) :
    List RootOperation :=
  operations.filterMap (ContentOperation.onRoot root)

/- Each mark is followed by an advance before a `take`. -/
def marksAdvanced : Bool → List RootOperation → Bool
| pending, [] => !pending
| _, .advance _ :: operations => marksAdvanced false operations
| _, .mark _ _ :: operations => marksAdvanced true operations
| pending, .reset :: operations =>
    marksAdvanced pending operations
| pending, .take :: operations =>
    !pending && marksAdvanced pending operations

def ContentChanges.limits
    (changes : ContentChanges) :
    MarkLimits :=
  ⟨changes.maxRemoved, changes.maxChanged⟩

theorem root_setRoot
    (changes : ContentChanges)
    (root other : Path)
    (next : RootChanges) :
    (changes.setRoot other next).root root
      = if root = other then next else changes.root root := by
  unfold ContentChanges.root ContentChanges.setRoot
  by_cases hRoot : root = other
  · simp [hRoot]
  · simp [hRoot]

/- A step is a step of its root, and of no other. -/
theorem root_contentStep
    (changes : ContentChanges)
    (operation : ContentOperation)
    (root : Path) :
    (contentStep changes operation).limits = changes.limits
      ∧ (contentStep changes operation).root root
        = (operation.onRoot root).elim (changes.root root)
          (rootStep changes.limits (changes.root root)) := by
  have hOwn :
      ∀ (other : Path)
        (next : RootChanges)
        (step : RootOperation),
        (root = other →
          next
            = rootStep changes.limits
              (changes.root root) step) →
        (changes.setRoot other next).root root
          = (if other = root then some step else none).elim
            (changes.root root)
            (rootStep changes.limits (changes.root root)) := by
    intro other next step hNext
    rw [root_setRoot]
    by_cases hRoot : root = other
    · rw [if_pos hRoot, if_pos hRoot.symm, hNext hRoot]
      rfl
    · rw [if_neg hRoot, if_neg (Ne.symm hRoot)]
      rfl
  cases operation with
  | advance other compatible =>
    refine ⟨rfl, hOwn _ _ _ ?_⟩
    intro hRoot
    rw [hRoot]
    rfl
  | reset other =>
    refine ⟨rfl, hOwn _ _ _ ?_⟩
    intro hRoot
    rw [hRoot]
    rfl
  | mark kind other filePath =>
    cases kind with
    | removed =>
      refine ⟨rfl, hOwn _ _ _ ?_⟩
      intro hRoot
      rw [hRoot]
      rfl
    | changed =>
      refine ⟨rfl, hOwn _ _ _ ?_⟩
      intro hRoot
      rw [hRoot]
      rfl
  | take other =>
    simp only [contentStep, ContentChanges.take]
    cases hOther : changes.roots other with
    | some rootChanges =>
      refine ⟨rfl, hOwn _ _ _ ?_⟩
      intro hRoot
      simp only [rootStep, ContentChanges.root, hRoot, hOther]
      rfl
    | none =>
      refine ⟨rfl, ?_⟩
      by_cases hRoot : other = root
      · rw [hRoot] at hOther
        simp only [ContentOperation.onRoot, if_pos hRoot,
          ContentChanges.root, hOther]
        rfl
      · simp only [ContentOperation.onRoot,
          if_neg hRoot, Option.elim_none]

/- A run on all roots is a run on each of them. -/
theorem root_run
    (changes : ContentChanges)
    (operations : List ContentOperation)
    (root : Path) :
    (run contentStep changes operations).limits
        = changes.limits
      ∧ (run contentStep changes operations).root root
        = run (rootStep changes.limits) (changes.root root)
          (operationsOn root operations) := by
  induction operations generalizing changes with
  | nil => exact ⟨rfl, rfl⟩
  | cons operation operations ih =>
    obtain ⟨hLimits, hRoot⟩ :=
      root_contentStep changes operation root
    obtain ⟨hRest, hRun⟩ := ih (contentStep changes operation)
    rw [hLimits] at hRest
    refine ⟨hRest, ?_⟩
    rw [run_cons, hRun, hLimits, hRoot]
    unfold operationsOn
    rw [List.filterMap_cons]
    cases operation.onRoot root <;> rfl

----------
-- Trails
----------

/- A mark, under the revision that it was made in. -/
abbrev Mark := Nat × (MarkKind × Path)

/-
  What a run has marked, the revision of its last `take`,
  and whether a mark waits for an advance.
-/
structure Trail where
  marks : List Mark := []
  taken : Nat
  pending : Bool := false

def trailStep
    (changes : RootChanges)
    (trail : Trail) :
    RootOperation → Trail
| .advance _ => { trail with pending := false }
| .reset => trail
| .mark kind filePath =>
    { trail with
      marks :=
        trail.marks ++ [(changes.revision, (kind, filePath))]
      pending := true }
| .take => { trail with taken := changes.revision }

def trackedStep
    (limits : MarkLimits)
    (state : RootChanges × Trail)
    (operation : RootOperation) :
    RootChanges × Trail :=
  (rootStep limits state.1 operation,
    trailStep state.1 state.2 operation)

theorem trackedRun_fst
    (limits : MarkLimits)
    (state : RootChanges × Trail)
    (operations : List RootOperation) :
    (run (trackedStep limits) state operations).1
      = run (rootStep limits) state.1 operations := by
  induction operations generalizing state with
  | nil => rfl
  | cons operation operations ih => exact ih _

/- A delta says what has changed, and nothing is removed. -/
def WorkspaceContentDelta.span
    (delta : WorkspaceContentDelta) :
    Span Nat (MarkKind × Path) :=
  { first := delta.fromRevision
    next := delta.toRevision
    items :=
      delta.changedPaths.map
        (fun filePath => (.changed, filePath)) }

/-
  The deltas of the history cover the marks of their
  revisions, and the open window holds the later ones.
-/
structure TrailInv
    (state : RootChanges × Trail) : Prop where
  taken : state.2.taken ≤ state.1.revision
  early :
    ∀ mark ∈ state.2.marks,
      mark.1 ≤ state.1.revision
        ∧ (state.2.pending = false →
          mark.1 < state.1.revision)
  window :
    ∀ mark ∈ state.2.marks,
      state.2.taken ≤ mark.1 →
      state.1.resetRequested = true
        ∨ mark.2.2 ∈ state.1.paths mark.2.1
  closed :
    state.1.span = none →
    state.1.spanBlocked = true
      ∨ state.1.revision = state.2.taken
  opened :
    ∀ span,
      state.1.span = some span →
      span.fromRevision = state.2.taken
        ∧ span.toRevision = state.1.revision
  history :
    ∀ delta ∈ state.1.history,
      delta.toRevision ≤ state.2.taken
        ∧ delta.span.Covers state.2.marks

variable {limits : MarkLimits}
variable {state : RootChanges × Trail}

theorem TrailInv.advance
    (hInv : TrailInv state)
    (compatible : Option Path) :
    TrailInv
      (trackedStep limits state (.advance compatible)) := by
  have hRevision :
      (state.1.advance compatible).revision
        = state.1.revision + 1 := by
    unfold RootChanges.advance
    dsimp only
    split <;> rfl
  have hReset :
      (state.1.advance compatible).resetRequested
        = state.1.resetRequested := by
    unfold RootChanges.advance
    dsimp only
    split <;> rfl
  have hPaths :
      ∀ kind,
        (state.1.advance compatible).paths kind
          = state.1.paths kind := by
    intro kind
    unfold RootChanges.advance
    dsimp only
    split <;> cases kind <;> rfl
  constructor
  · simp only [trackedStep, rootStep, trailStep, hRevision]
    exact Nat.le_succ_of_le hInv.taken
  · intro mark hMem
    simp only [trackedStep, rootStep, hRevision]
    have hLe := (hInv.early mark hMem).1
    exact ⟨Nat.le_succ_of_le hLe, fun _ => Nat.lt_succ_of_le hLe⟩
  · intro mark hMem hTaken
    simp only [trackedStep, rootStep, hReset, hPaths]
    exact hInv.window mark hMem hTaken
  · simp only [trackedStep, rootStep, RootChanges.advance]
    split
    · exact fun _ => Or.inl rfl
    · intro hNone
      cases hNone
  · simp only [trackedStep, rootStep, RootChanges.advance]
    split
    · intro span hSpan
      cases hSpan
    · rename_i hContinued
      intro span hSpan
      cases hSpan
      refine ⟨?_, rfl⟩
      cases hBefore : state.1.span with
      | some before =>
        exact (hInv.opened before hBefore).1
      | none =>
        simp only [Option.map_none, Option.getD_none, trailStep]
        rcases hInv.closed hBefore with hBlocked | hSame
        · exfalso
          apply hContinued
          simp [RootChanges.breaksSpan, hBlocked]
        · exact hSame
  · simp only [trackedStep, rootStep, RootChanges.advance]
    split
    · intro delta hMem
      cases hMem
    · exact hInv.history

theorem TrailInv.reset
    (hInv : TrailInv state) :
    TrailInv (trackedStep limits state .reset) := by
  have hState :
      trackedStep limits state .reset
        = (state.1.reset, state.2) := rfl
  rw [hState]
  unfold RootChanges.reset
  split
  · exact hInv
  · refine
      ⟨hInv.taken, hInv.early, ?_, hInv.closed, hInv.opened, ?_⟩
    · exact fun _ _ _ => Or.inl rfl
    · intro delta hMem
      cases hMem

variable (changes : RootChanges)

/- What a mark can do to the changes of its root. -/
theorem mark_cases
    (filePath : Path)
    (kind : MarkKind)
    (maximum : Nat) :
    (changes.mark filePath kind maximum).resetRequested = true
        ∧ ((changes.mark filePath kind maximum).history
            = changes.history
          ∨ (changes.mark filePath kind maximum).history = [])
      ∨ filePath
          ∈ (changes.mark filePath kind maximum).paths kind
        ∧ (∀ other path,
          path ∈ changes.paths other →
          path
            ∈ (changes.mark filePath kind maximum).paths
              other)
        ∧ (changes.mark filePath kind maximum).history
          = changes.history
        ∧ changes.resetRequested = false := by
  unfold RootChanges.mark
  split
  · rename_i hReset
    exact Or.inl ⟨hReset, Or.inl rfl⟩
  · rename_i hGoing
    have hNoReset :
        changes.resetRequested = false :=
      eq_false_of_ne_true hGoing
    split
    · left
      unfold RootChanges.reset
      split
      · rename_i hReset
        cases kind <;>
        · simp only [RootChanges.setPaths] at hReset
          exact absurd hReset hGoing
      · exact ⟨rfl, Or.inr rfl⟩
    · split
      · rename_i hMem
        exact Or.inr ⟨hMem, fun _ _ hPath => hPath, rfl, hNoReset⟩
      · right
        refine ⟨?_, ?_, ?_, hNoReset⟩
        · cases kind <;>
            simp [RootChanges.setPaths, RootChanges.paths]
        · intro other path hPath
          cases kind <;> cases other <;>
            simp only [RootChanges.setPaths,
              RootChanges.paths, List.mem_append] at hPath ⊢ <;>
            first
              | exact Or.inl hPath
              | exact hPath
        · cases kind <;> rfl

/- A mark leaves the revision and the span alone. -/
theorem mark_fields
    (filePath : Path)
    (kind : MarkKind)
    (maximum : Nat) :
    (changes.mark filePath kind maximum).revision
        = changes.revision
      ∧ (changes.mark filePath kind maximum).span
        = changes.span
      ∧ (changes.mark filePath kind maximum).spanBlocked
        = changes.spanBlocked := by
  have hReset :
      ∀ other : RootChanges,
        other.reset.revision = other.revision
          ∧ other.reset.span = other.span
          ∧ other.reset.spanBlocked = other.spanBlocked := by
    intro other
    unfold RootChanges.reset
    split <;> exact ⟨rfl, rfl, rfl⟩
  have hSet :
      ∀ paths,
        (changes.setPaths kind paths).revision
            = changes.revision
          ∧ (changes.setPaths kind paths).span = changes.span
          ∧ (changes.setPaths kind paths).spanBlocked
            = changes.spanBlocked := by
    intro paths
    cases kind <;> exact ⟨rfl, rfl, rfl⟩
  unfold RootChanges.mark
  split
  · exact ⟨rfl, rfl, rfl⟩
  · split
    · obtain ⟨hRevision, hSpan, hBlocked⟩ :=
        hReset (changes.setPaths kind [])
      rw [hRevision, hSpan, hBlocked]
      exact hSet []
    · split
      · exact ⟨rfl, rfl, rfl⟩
      · exact hSet _

theorem TrailInv.mark
    (hInv : TrailInv state)
    (kind : MarkKind)
    (filePath : Path) :
    TrailInv
      (trackedStep limits state (.mark kind filePath)) := by
  obtain ⟨hRevision, hSpan, hBlocked⟩ :=
    mark_fields state.1 filePath kind (limits.maximum kind)
  have hCases :=
    mark_cases state.1 filePath kind (limits.maximum kind)
  constructor
  · simp only [trackedStep, rootStep, trailStep, hRevision]
    exact hInv.taken
  · intro mark hMem
    simp only [trackedStep, rootStep, trailStep, hRevision]
    refine ⟨?_, fun hFalse => by cases hFalse⟩
    rcases List.mem_append.mp hMem with hOld | hNew
    · exact (hInv.early mark hOld).1
    · rw [List.mem_singleton.mp hNew]
  · intro mark hMem hTaken
    simp only [trackedStep, rootStep]
    rcases hCases with hReset | ⟨hAdded, hKept, _, hGoing⟩
    · exact Or.inl hReset.1
    · right
      rcases List.mem_append.mp hMem with hOld | hNew
      · rcases hInv.window mark hOld hTaken with
          hReset | hHeld
        · rw [hGoing] at hReset
          cases hReset
        · exact hKept _ _ hHeld
      · rw [List.mem_singleton.mp hNew]
        exact hAdded
  · simp only [trackedStep, rootStep, trailStep, hRevision,
      hSpan, hBlocked]
    exact hInv.closed
  · simp only [trackedStep, rootStep, trailStep, hRevision,
      hSpan]
    exact hInv.opened
  · have hHistory :
        ∀ delta
          ∈ (state.1.mark filePath kind
            (limits.maximum kind)).history,
          delta ∈ state.1.history := by
      intro delta hMem
      rcases hCases with ⟨_, hSame | hNone⟩ | ⟨_, _, hSame, _⟩
      · rw [hSame] at hMem
        exact hMem
      · rw [hNone] at hMem
        cases hMem
      · rw [hSame] at hMem
        exact hMem
    intro delta hMem
    obtain ⟨hTo, hCovers⟩ :=
      hInv.history delta (hHistory delta hMem)
    refine ⟨hTo, hCovers.append ?_⟩
    intro mark hNew
    rw [List.mem_singleton.mp hNew]
    exact Nat.le_trans hTo hInv.taken

/- With no mark waiting, the delta covers its revisions. -/
theorem TrailInv.delta
    (hInv : TrailInv state)
    {delta : WorkspaceContentDelta}
    (hDelta : state.1.contentDelta = some delta) :
    delta.fromRevision = state.2.taken
      ∧ delta.toRevision = state.1.revision
      ∧ delta.span.Covers state.2.marks := by
  unfold RootChanges.contentDelta at hDelta
  split at hDelta
  · cases hDelta
  · rename_i span hSpan
    split at hDelta
    · rename_i hClean
      rw [Bool.and_eq_true] at hClean
      cases hDelta
      obtain ⟨hFrom, hTo⟩ := hInv.opened span hSpan
      refine ⟨hFrom, hTo, ?_⟩
      intro mark hMem hFirst _
      have hTaken : state.2.taken ≤ mark.1 :=
        Nat.le_trans (Nat.le_of_eq hFrom.symm) hFirst
      obtain ⟨revision, kind, filePath⟩ := mark
      rcases hInv.window _ hMem hTaken with hReset | hHeld
      · rw [hReset] at hClean
        cases hClean.1
      · cases kind with
        | removed =>
          have hEmpty := List.isEmpty_iff.mp hClean.2
          simp only [RootChanges.paths, hEmpty] at hHeld
          cases hHeld
        | changed => exact List.mem_map_of_mem hHeld
    · cases hDelta

theorem trimHistory_suffix
    (maxChanged : Nat)
    (history : List WorkspaceContentDelta) :
    ∀ delta ∈ RootChanges.trimHistory maxChanged history,
      delta ∈ history := by
  induction history with
  | nil => exact fun _ hMem => hMem
  | cons oldest history ih =>
    intro delta hMem
    unfold RootChanges.trimHistory at hMem
    split at hMem
    · exact List.mem_cons_of_mem _ (ih delta hMem)
    · exact hMem

/- The history holds old deltas and the new one. -/
theorem mem_nextHistory
    {maxChanged : Nat}
    {history : List WorkspaceContentDelta}
    {delta other : WorkspaceContentDelta}
    (hMem :
      other
        ∈ RootChanges.nextHistory maxChanged history delta) :
    other ∈ history ∨ other = delta := by
  have hKept := trimHistory_suffix _ _ other hMem
  rcases List.mem_append.mp hKept with hOld | hNew
  · left
    split at hOld
    · exact hOld
    · split at hOld
      · cases hOld
      · exact hOld
  · exact Or.inr (List.mem_singleton.mp hNew)

theorem TrailInv.take
    (hInv : TrailInv state)
    (hPending : state.2.pending = false) :
    TrailInv (trackedStep limits state .take) := by
  have hBefore :
      ∀ mark ∈ state.2.marks,
        mark.1 < state.1.revision :=
    fun mark hMem => (hInv.early mark hMem).2 hPending
  constructor
  · exact Nat.le_refl _
  · intro mark hMem
    exact
      ⟨Nat.le_of_lt (hBefore mark hMem),
        fun _ => hBefore mark hMem⟩
  · intro mark hMem hTaken
    exact absurd (hBefore mark hMem) (Nat.not_lt_of_ge hTaken)
  · exact fun _ => Or.inr rfl
  · intro span hSpan
    cases hSpan
  · intro delta hMem
    simp only [trackedStep, rootStep, RootChanges.clear] at hMem
    have hOld :
        delta ∈ state.1.history →
        delta.toRevision ≤ state.1.revision
          ∧ delta.span.Covers state.2.marks := by
      intro hHistory
      obtain ⟨hTo, hCovers⟩ := hInv.history delta hHistory
      exact ⟨Nat.le_trans hTo hInv.taken, hCovers⟩
    split at hMem
    · exact hOld hMem
    · rename_i taken hTaken
      rcases mem_nextHistory hMem with hHistory | hNew
      · exact hOld hHistory
      · obtain ⟨_, hTo, hCovers⟩ := hInv.delta hTaken
        rw [hNew]
        exact ⟨Nat.le_of_eq hTo, hCovers⟩

/- A run that advances its marks keeps the trail. -/
theorem trailInv_run
    {operations : List RootOperation}
    (hMarks :
      marksAdvanced state.2.pending operations = true)
    (hInv : TrailInv state) :
    TrailInv (run (trackedStep limits) state operations)
      ∧ (run (trackedStep limits) state operations).2.pending
        = false := by
  induction operations generalizing state with
  | nil =>
    refine ⟨hInv, ?_⟩
    simpa [marksAdvanced] using hMarks
  | cons operation operations ih =>
    cases operation with
    | advance compatible => exact ih hMarks (hInv.advance _)
    | reset => exact ih hMarks hInv.reset
    | mark kind filePath => exact ih hMarks (hInv.mark _ _)
    | take =>
      simp only [marksAdvanced, Bool.and_eq_true,
        Bool.not_eq_true'] at hMarks
      exact ih hMarks.2 (hInv.take hMarks.1)

variable {kind : MarkKind}
variable {filePath : Path}

/- Every mark of a run is on its trail. -/
theorem mem_trail
    {operations : List RootOperation}
    (hMem : .mark kind filePath ∈ operations) :
    ∃ revision,
      state.1.revision ≤ revision
        ∧ (revision, (kind, filePath))
          ∈ (run (trackedStep limits) state
            operations).2.marks := by
  have hGrows :
      ∀ (rest : List RootOperation)
        (start : RootChanges × Trail)
        (mark : Mark),
        mark ∈ start.2.marks →
        mark ∈ (run (trackedStep limits) start rest).2.marks :=
    by
      intro rest
      induction rest with
      | nil => exact fun _ _ hMark => hMark
      | cons operation rest ih =>
        intro start mark hMark
        apply ih
        cases operation with
        | mark => exact List.mem_append_left _ hMark
        | advance => exact hMark
        | reset => exact hMark
        | take => exact hMark
  have hRises :
      ∀ (changes : RootChanges) (operation : RootOperation),
        changes.revision
          ≤ (rootStep limits changes operation).revision := by
    intro changes operation
    cases operation with
    | advance compatible =>
      simp only [rootStep, RootChanges.advance]
      split <;> exact Nat.le_succ _
    | reset =>
      simp only [rootStep, RootChanges.reset]
      split <;> exact Nat.le_refl _
    | mark kind filePath =>
      have hSame :=
        (mark_fields changes filePath kind
          (limits.maximum kind)).1
      exact Nat.le_of_eq hSame.symm
    | take => exact Nat.le_refl _
  induction operations generalizing state with
  | nil => cases hMem
  | cons operation operations ih =>
    rcases List.mem_cons.mp hMem with hHere | hBehind
    · subst hHere
      refine ⟨state.1.revision, Nat.le_refl _, ?_⟩
      exact
        hGrows operations
          (trackedStep limits state (.mark kind filePath)) _
          (List.mem_append_right _ (List.mem_singleton_self _))
    · obtain ⟨revision, hLe, hMark⟩ :=
        @ih (trackedStep limits state operation) hBehind
      exact
        ⟨revision,
          Nat.le_trans (hRises state.1 operation) hLe, hMark⟩

----------
-- Epochs
----------

/- The epoch is raised from one root's changes to others. -/
structure Raised
    (changes next : RootChanges) : Prop where
  le : changes.resetEpoch ≤ next.resetEpoch
  asked :
    next.resetRequested = true →
    changes.resetRequested = true
      ∨ changes.resetEpoch < next.resetEpoch

theorem Raised.same
    {changes next : RootChanges}
    (hEpoch : next.resetEpoch = changes.resetEpoch)
    (hAsked : next.resetRequested = changes.resetRequested) :
    Raised changes next := by
  refine ⟨Nat.le_of_eq hEpoch.symm, ?_⟩
  intro hNext
  rw [hAsked] at hNext
  exact Or.inl hNext

theorem raised_reset
    (changes : RootChanges) :
    Raised changes changes.reset := by
  unfold RootChanges.reset
  split
  · exact Raised.same rfl rfl
  · exact ⟨Nat.le_succ _, fun _ => Or.inr (Nat.lt_succ_self _)⟩

theorem raised_mark
    (filePath : Path)
    (kind : MarkKind)
    (maximum : Nat) :
    Raised changes (changes.mark filePath kind maximum) := by
  unfold RootChanges.mark
  split
  · exact Raised.same rfl rfl
  · split
    · have hRaised := raised_reset (changes.setPaths kind [])
      cases kind with
      | removed => exact ⟨hRaised.le, hRaised.asked⟩
      | changed => exact ⟨hRaised.le, hRaised.asked⟩
    · split
      · exact Raised.same rfl rfl
      · cases kind with
        | removed => exact Raised.same rfl rfl
        | changed => exact Raised.same rfl rfl

theorem raised_step
    (operation : RootOperation) :
    Raised changes (rootStep limits changes operation) := by
  cases operation with
  | advance compatible =>
    simp only [rootStep, RootChanges.advance]
    split
    · exact Raised.same rfl rfl
    · exact Raised.same rfl rfl
  | reset => exact raised_reset changes
  | mark kind filePath => exact raised_mark changes _ _ _
  | take =>
    exact ⟨Nat.le_refl _, fun hAsked => by cases hAsked⟩

theorem epoch_le_run
    (operations : List RootOperation) :
    changes.resetEpoch
      ≤ (run (rootStep limits) changes
        operations).resetEpoch := by
  have hStep :
      ∀ (next : RootChanges) (operation : RootOperation),
        changes.resetEpoch ≤ next.resetEpoch →
        changes.resetEpoch
          ≤ (rootStep limits next operation).resetEpoch := by
    intro next operation hLe
    exact Nat.le_trans hLe (raised_step next operation).le
  exact run_invariant hStep (Nat.le_refl _) operations

variable {changes : RootChanges}

/- What has been asked for since has raised the epoch. -/
theorem raised_run
    (hClear : changes.resetRequested = false)
    (operations : List RootOperation)
    (hAsked :
      (run (rootStep limits) changes
        operations).resetRequested = true) :
    changes.resetEpoch
      < (run (rootStep limits) changes
        operations).resetEpoch := by
  induction operations using List.reverseRecOn with
  | nil =>
    rw [run_nil, hClear] at hAsked
    cases hAsked
  | append_singleton operations operation ih =>
    rw [run_append] at hAsked ⊢
    have hStep :
        Raised (run (rootStep limits) changes operations)
          (rootStep limits
            (run (rootStep limits) changes operations)
            operation) :=
      raised_step _ operation
    rcases hStep.asked hAsked with hBefore | hLt
    · exact Nat.lt_of_lt_of_le (ih hBefore) hStep.le
    · exact
        Nat.lt_of_le_of_lt (epoch_le_run changes operations) hLt

/- With the epoch unchanged no reset has been asked for. -/
theorem never_asked
    (hClear : changes.resetRequested = false)
    {sofar rest : List RootOperation}
    (hSame :
      (run (rootStep limits) changes
        (sofar ++ rest)).resetEpoch = changes.resetEpoch) :
    (run (rootStep limits) changes sofar).resetRequested
      = false := by
  apply eq_false_of_ne_true
  intro hAsked
  have hLt := raised_run hClear sofar hAsked
  rw [run_append] at hSame
  have hLe :
      (run (rootStep limits) changes sofar).resetEpoch
        ≤ (run (rootStep limits)
          (run (rootStep limits) changes sofar)
          rest).resetEpoch :=
    epoch_le_run _ rest
  rw [hSame] at hLe
  exact absurd hLt (Nat.not_lt_of_ge hLe)

----------
-- Replay
----------

theorem mem_addPaths
    {paths added : List Path}
    {path : Path} :
    path ∈ addPaths paths added
      ↔ path ∈ paths ∨ path ∈ added := by
  induction added generalizing paths with
  | nil => simp [addPaths]
  | cons first added ih =>
    have hNext :
        addPaths paths (first :: added)
          = addPaths
            (if first ∈ paths then paths else paths ++ [first])
            added := rfl
    rw [hNext, ih, List.mem_cons]
    by_cases hFirst : first ∈ paths
    · rw [if_pos hFirst]
      constructor
      · exact fun h => h.imp_right Or.inr
      · rintro (hOld | rfl | hNew)
        · exact Or.inl hOld
        · exact Or.inl hFirst
        · exact Or.inr hNew
    · rw [if_neg hFirst, List.mem_append,
        List.mem_singleton, or_assoc]

variable {host : PathHost}

/- What the loop has replayed is a chain. -/
theorem replayed_chain
    {view : SemanticWorkspaceView}
    {cursor target : Nat}
    {changed result : List Path}
    {deltas : List WorkspaceContentDelta}
    (hReplay :
      replayDeltas host view cursor changed deltas
        = some (target, result)) :
    (∀ path ∈ changed, path ∈ result)
      ∧ ∃ used : List WorkspaceContentDelta,
        (∀ delta ∈ used, delta ∈ deltas)
          ∧ Chain cursor target
            (used.map WorkspaceContentDelta.span)
          ∧ ∀ delta ∈ used,
            ∀ path ∈ delta.changedPaths,
              host.resolve path ∈ result := by
  induction deltas generalizing cursor changed with
  | nil =>
    cases hReplay
    refine ⟨fun _ hPath => hPath, [], ?_, rfl, ?_⟩
    · intro delta hMem
      cases hMem
    · intro delta hMem
      cases hMem
  | cons delta deltas ih =>
    simp only [replayDeltas] at hReplay
    split at hReplay
    · cases hReplay
    · rename_i hLinked
      have hFrom : delta.fromRevision = cursor := by
        by_contra hBroken
        exact hLinked (Or.inr (Or.inl hBroken))
      have hAdded :
          ∀ path ∈ delta.changedPaths,
            host.resolve path
              ∈ addPaths changed
                (delta.changedPaths.map host.resolve) := by
        intro path hPath
        exact
          mem_addPaths.mpr (Or.inr (List.mem_map_of_mem hPath))
      split at hReplay
      · cases hReplay
        refine
          ⟨fun _ hPath => mem_addPaths.mpr (Or.inl hPath),
            [delta], ?_, ⟨hFrom, rfl⟩, ?_⟩
        · intro other hOther
          rw [List.mem_singleton.mp hOther]
          exact List.mem_cons_self
        · intro other hOther
          rw [List.mem_singleton.mp hOther]
          exact hAdded
      · obtain ⟨hKept, used, hUsed, hChain, hDelivered⟩ :=
          ih hReplay
        refine
          ⟨fun path hPath =>
              hKept path (mem_addPaths.mpr (Or.inl hPath)),
            delta :: used, ?_, ⟨hFrom, hChain⟩, ?_⟩
        · intro other hOther
          rcases List.mem_cons.mp hOther with hFirst | hRest
          · rw [hFirst]
            exact List.mem_cons_self
          · exact List.mem_cons_of_mem _ (hUsed other hRest)
        · intro other hOther
          rcases List.mem_cons.mp hOther with hFirst | hRest
          · rw [hFirst]
            intro path hPath
            exact hKept _ (hAdded path hPath)
          · exact hDelivered other hRest

/- The delivery adds documents and nothing else. -/
theorem withChangedDiskDocuments_fields
    (host : PathHost)
    (view : SemanticWorkspaceView)
    (access : Option ProjectFileAccessPort) :
    ∃ (documents : List WorkspaceDocument)
      (inputs : List ChangedDiskInput),
      withChangedDiskDocuments host view access
        = { view with
            documents := documents
            changedDiskInputs := inputs } := by
  unfold withChangedDiskDocuments
  split
  · dsimp only
    split
    · exact ⟨_, _, rfl⟩
    · split
      · exact ⟨_, _, rfl⟩
      · exact ⟨_, _, rfl⟩
  · exact ⟨_, _, rfl⟩

/- The history is replayed as a whole or not at all. -/
theorem synchronized_cases
    (host : PathHost)
    (view : SemanticWorkspaceView)
    (revision : Nat)
    (access : Option ProjectFileAccessPort)
    (compilerInputs : Option (List Path)) :
    synchronizeContextDelta host view (some revision) access
        compilerInputs = view
      ∨ ∃ (changed : List Path)
          (documents : List WorkspaceDocument)
          (inputs : List ChangedDiskInput),
        replayDeltas host view revision []
            (historyFrom revision view.contentDeltas)
          = some (view.contentRevision, changed)
        ∧ synchronizeContextDelta host view (some revision)
            access compilerInputs
          = { replayedView host view compilerInputs revision
                changed with
              documents := documents
              changedDiskInputs := inputs } := by
  unfold synchronizeContextDelta
  dsimp only
  split
  · exact Or.inl rfl
  · split
    · exact Or.inl rfl
    · rename_i delta deltas hHistory
      split
      · exact Or.inl rfl
      · rename_i cursor changed hReplay
        split
        · exact Or.inl rfl
        · rename_i hReached
          right
          obtain ⟨documents, inputs, hFields⟩ :=
            withChangedDiskDocuments_fields host
              (replayedView host view compilerInputs revision
                changed)
              access
          refine ⟨changed, documents, inputs, ?_, hFields⟩
          rw [hHistory, hReplay, not_not.mp hReached]

/- A context is kept for one of two reasons. -/
theorem kept_cases
    {view : SemanticWorkspaceView}
    {previous : AppliedContextIdentity}
    (hKept :
      typeContextResetReason host view (some previous) true
        = none) :
    previous.resetEpoch = view.typeEngineResetEpoch
      ∧ (previous.appliedContentRevision
          = view.contentRevision
        ∨ ∃ delta,
          view.contentDelta = some delta
            ∧ delta.fromRevision
              = previous.appliedContentRevision
            ∧ delta.toRevision = view.contentRevision) := by
  unfold typeContextResetReason at hKept
  dsimp only at hKept
  split at hKept
  · cases hKept
  · split at hKept
    · cases hKept
    · split at hKept
      · cases hKept
      · rename_i hEpoch
        refine ⟨not_not.mp hEpoch, ?_⟩
        split at hKept
        · cases hKept
        · rename_i hRevision
          by_cases hSame :
              previous.appliedContentRevision
                = view.contentRevision
          · exact Or.inl hSame
          · right
            have hComplete :
                hasCompleteDiskDelta host view
                  previous.appliedContentRevision = true := by
              by_contra hPart
              apply hRevision
              refine ⟨hSame, ?_⟩
              rw [eq_false_of_ne_true hPart]
              rfl
            unfold hasCompleteDiskDelta at hComplete
            dsimp only at hComplete
            split at hComplete
            · rename_i delta paths hDelta _
              simp only [Bool.and_eq_true,
                decide_eq_true_eq] at hComplete
              exact
                ⟨delta, hDelta, hComplete.1.1.1.1.1.2,
                  hComplete.1.1.1.1.2⟩
            · cases hComplete

----------
-- Consumption
----------

/-
  A context that was given the view of one `take` and is
  asked with the view of a later one.  Other consumers have
  taken between the two what they wanted.
-/
structure Consumption where
  limits : MarkLimits
  root : Path
  earlier : List ContentOperation
  later : List ContentOperation
  ownerId : Path
  capture : StoreCapture
  semanticRootPaths : Option (List Path)
  access : Option ProjectFileAccessPort
  compilerInputs : Option (List Path)

namespace Consumption

def start
    (consumption : Consumption) :
    ContentChanges :=
  { maxRemoved := consumption.limits.maxRemoved
    maxChanged := consumption.limits.maxChanged }

/- What the context was given, and what that has left. -/
def applied
    (consumption : Consumption) :
    TakenChanges × ContentChanges :=
  (run contentStep consumption.start
    consumption.earlier).take consumption.root

/- The changes after some of the later operations. -/
def after
    (consumption : Consumption)
    (sofar : List ContentOperation) :
    ContentChanges :=
  run contentStep consumption.applied.2 sofar

def current
    (consumption : Consumption) :
    TakenChanges × ContentChanges :=
  (consumption.after consumption.later).take consumption.root

def view
    (consumption : Consumption) :
    SemanticWorkspaceView :=
  { createSemanticWorkspaceView consumption.capture
      consumption.current.1
      (consumption.current.2.history consumption.root) with
    semanticRootPaths := consumption.semanticRootPaths }

def identity
    (consumption : Consumption) :
    AppliedContextIdentity :=
  { ownerId := consumption.ownerId
    resetEpoch := consumption.applied.1.typeEngineResetEpoch
    appliedContentRevision :=
      consumption.applied.1.contentRevision }

def synchronized
    (consumption : Consumption)
    (host : PathHost) :
    SemanticWorkspaceView :=
  synchronizeContextDelta host consumption.view
    (some consumption.identity.appliedContentRevision)
    consumption.access consumption.compilerInputs

/- What happens on the root up to the later view. -/
def operations
    (consumption : Consumption) :
    List RootOperation :=
  operationsOn consumption.root
    (consumption.earlier
      ++ .take consumption.root :: consumption.later)

/- The path is in the delta, or in the replayed paths. -/
def Delivered
    (consumption : Consumption)
    (host : PathHost)
    (filePath : Path) :
    Prop :=
  match (consumption.synchronized host).contentChangedPaths with
  | some paths => host.resolve filePath ∈ paths
  | none =>
      ∃ delta,
        (consumption.synchronized host).contentDelta
            = some delta
          ∧ filePath ∈ delta.changedPaths

/- The context misses nothing of what it has not seen. -/
structure Informed
    (consumption : Consumption)
    (host : PathHost) : Prop where
  removed :
    ∀ filePath,
      .mark .removed consumption.root filePath
        ∉ consumption.later
  reset :
    ∀ sofar rest,
      consumption.later = sofar ++ rest →
      (consumption.after sofar).hasReset consumption.root
        = false
  changed :
    ∀ filePath,
      .mark .changed consumption.root filePath
        ∈ consumption.later →
      consumption.Delivered host filePath

/- What a `take` returns and leaves for its root. -/
theorem take_root
    (changes : ContentChanges)
    (root : Path) :
    (changes.take root).1 = (changes.root root).taken
      ∧ (changes.take root).2.root root
        = (changes.root root).clear changes.maxChanged := by
  unfold ContentChanges.take ContentChanges.root
  cases hRoot : changes.roots root with
  | none => exact ⟨rfl, by rw [hRoot]; rfl⟩
  | some rootChanges =>
    refine ⟨rfl, ?_⟩
    simp [ContentChanges.setRoot]

theorem history_root
    (changes : ContentChanges)
    (root : Path) :
    changes.history root = (changes.root root).history := by
  unfold ContentChanges.history ContentChanges.root
  cases changes.roots root <;> rfl

theorem hasReset_root
    (changes : ContentChanges)
    (root : Path) :
    changes.hasReset root
      = (changes.root root).resetRequested := by
  unfold ContentChanges.hasReset ContentChanges.root
  cases changes.roots root <;> rfl

theorem operationsOn_append
    (root : Path)
    (first second : List ContentOperation) :
    operationsOn root (first ++ second)
      = operationsOn root first ++ operationsOn root second :=
  List.filterMap_append

variable (consumption : Consumption)

/- The tracked root where the context was last applied. -/
def appliedState : RootChanges × Trail :=
  run (trackedStep consumption.limits) ({}, { taken := 0 })
    (operationsOn consumption.root
      (consumption.earlier ++ [.take consumption.root]))

/- The tracked root that the later view is taken from. -/
def laterState : RootChanges × Trail :=
  run (trackedStep consumption.limits)
    consumption.appliedState
    (operationsOn consumption.root consumption.later)

theorem applied_changes :
    consumption.applied.2.limits = consumption.limits
      ∧ consumption.applied.2.root consumption.root
        = consumption.appliedState.1 := by
  have hApplied :
      consumption.applied.2
        = run contentStep consumption.start
          (consumption.earlier ++ [.take consumption.root]) := by
    rw [run_append]
    rfl
  obtain ⟨hLimits, hRoot⟩ :=
    root_run consumption.start
      (consumption.earlier ++ [.take consumption.root])
      consumption.root
  rw [hApplied]
  refine ⟨hLimits, ?_⟩
  rw [hRoot, appliedState, trackedRun_fst]
  rfl

theorem after_changes
    (sofar : List ContentOperation) :
    (consumption.after sofar).limits = consumption.limits
      ∧ (consumption.after sofar).root consumption.root
        = run (rootStep consumption.limits)
          consumption.appliedState.1
          (operationsOn consumption.root sofar) := by
  obtain ⟨hLimits, hRoot⟩ := consumption.applied_changes
  obtain ⟨hAfter, hRun⟩ :=
    root_run consumption.applied.2 sofar consumption.root
  rw [hLimits] at hAfter hRun
  rw [hRoot] at hRun
  exact ⟨hAfter, hRun⟩

theorem identity_applied :
    consumption.identity.appliedContentRevision
        = consumption.appliedState.1.revision
      ∧ consumption.identity.resetEpoch
        = consumption.appliedState.1.resetEpoch
      ∧ consumption.appliedState.1.resetRequested
        = false := by
  rw [← consumption.applied_changes.2]
  obtain ⟨hTaken, hLeft⟩ :=
    take_root
      (run contentStep consumption.start consumption.earlier)
      consumption.root
  unfold identity applied
  rw [hTaken, hLeft]
  exact ⟨rfl, rfl, rfl⟩

/- What the later view says of its root. -/
theorem view_changes :
    consumption.view.contentRevision
        = consumption.laterState.1.revision
      ∧ consumption.view.typeEngineResetEpoch
        = consumption.laterState.1.resetEpoch
      ∧ consumption.view.contentDelta
        = consumption.laterState.1.contentDelta
      ∧ consumption.view.contentDeltas
        = (consumption.laterState.1.clear
          consumption.limits.maxChanged).history := by
  obtain ⟨hLimits, hRoot⟩ :=
    consumption.after_changes consumption.later
  rw [← trackedRun_fst] at hRoot
  obtain ⟨hTaken, hLeft⟩ :=
    take_root (consumption.after consumption.later)
      consumption.root
  rw [hRoot] at hTaken hLeft
  have hMaximum :
      (consumption.after consumption.later).maxChanged
        = consumption.limits.maxChanged :=
    congrArg MarkLimits.maxChanged hLimits
  rw [hMaximum] at hLeft
  unfold view current
  rw [history_root, hTaken, hLeft]
  exact ⟨rfl, rfl, rfl, rfl⟩

theorem laterState_run :
    consumption.laterState
      = run (trackedStep consumption.limits)
        ({}, { taken := 0 }) consumption.operations := by
  unfold laterState appliedState operations
  rw [← run_append, ← operationsOn_append, List.append_assoc]
  rfl

variable {consumption}

theorem trailInv_later
    (hMarks :
      marksAdvanced false consumption.operations = true) :
    TrailInv consumption.laterState
      ∧ consumption.laterState.2.pending = false := by
  have hStart :
      TrailInv (({}, { taken := 0 }) : RootChanges × Trail) := by
    constructor
    · exact Nat.le_refl _
    · intro mark hMem
      cases hMem
    · intro mark hMem
      cases hMem
    · exact fun _ => Or.inr rfl
    · intro span hSpan
      cases hSpan
    · intro delta hMem
      cases hMem
  rw [laterState_run]
  exact trailInv_run hMarks hStart

/- A later mark is between the two views. -/
theorem mark_between
    (hMarks :
      marksAdvanced false consumption.operations = true)
    (hMem :
      .mark kind consumption.root filePath
        ∈ consumption.later) :
    ∃ revision,
      consumption.identity.appliedContentRevision ≤ revision
        ∧ revision < consumption.view.contentRevision
        ∧ (revision, (kind, filePath))
          ∈ consumption.laterState.2.marks := by
  have hOn :
      .mark kind filePath
        ∈ operationsOn consumption.root consumption.later :=
    List.mem_filterMap.mpr
      ⟨_, hMem, by simp [ContentOperation.onRoot]⟩
  have hTrail :
      ∃ revision,
        consumption.appliedState.1.revision ≤ revision
          ∧ (revision, (kind, filePath))
            ∈ consumption.laterState.2.marks :=
    mem_trail hOn
  obtain ⟨revision, hLe, hMark⟩ := hTrail
  obtain ⟨hInv, hPending⟩ := trailInv_later hMarks
  refine ⟨revision, ?_, ?_, hMark⟩
  · rw [consumption.identity_applied.1]
    exact hLe
  · rw [consumption.view_changes.1]
    exact (hInv.early _ hMark).2 hPending

/- The deltas of the later view cover all marks. -/
theorem deltas_cover
    (hMarks :
      marksAdvanced false consumption.operations = true)
    {delta : WorkspaceContentDelta}
    (hDelta :
      consumption.view.contentDelta = some delta
        ∨ delta ∈ consumption.view.contentDeltas) :
    delta.span.Covers consumption.laterState.2.marks := by
  obtain ⟨hInv, hPending⟩ := trailInv_later hMarks
  obtain ⟨_, _, hNow, hHistory⟩ := consumption.view_changes
  rcases hDelta with hOwn | hMem
  · rw [hNow] at hOwn
    exact (hInv.delta hOwn).2.2
  · rw [hHistory] at hMem
    have hTaken :
        TrailInv
          (trackedStep consumption.limits
            consumption.laterState .take) :=
      hInv.take hPending
    exact (hTaken.history delta hMem).2

/- A covered item says that a path has changed. -/
theorem mem_span
    {delta : WorkspaceContentDelta}
    (hMem : (kind, filePath) ∈ delta.span.items) :
    kind = .changed ∧ filePath ∈ delta.changedPaths := by
  obtain ⟨path, hPath, hEq⟩ := List.mem_map.mp hMem
  cases hEq
  exact ⟨rfl, hPath⟩

/- A kept context is told of every mark, and none removes. -/
theorem told_of_kept
    (hMarks :
      marksAdvanced false consumption.operations = true)
    (hKept :
      typeContextResetReason host
          (consumption.synchronized host)
          (some consumption.identity) true
        = none)
    (hMem :
      .mark kind consumption.root filePath
        ∈ consumption.later) :
    kind = .changed ∧ consumption.Delivered host filePath := by
  obtain ⟨revision, hFrom, hTo, hMark⟩ := mark_between hMarks hMem
  obtain ⟨_, hRevision⟩ := kept_cases hKept
  rcases synchronized_cases host consumption.view
      consumption.identity.appliedContentRevision
      consumption.access consumption.compilerInputs with
    hView | ⟨changed, documents, inputs, hReplay, hReplayed⟩
  · have hSynced :
        consumption.synchronized host = consumption.view :=
      hView
    unfold Delivered
    rw [hSynced] at hRevision ⊢
    rcases hRevision with hSame | ⟨delta, hDelta, hFirst, hNext⟩
    · rw [hSame] at hFrom
      exact absurd hTo (Nat.not_lt_of_ge hFrom)
    · rw [← hFirst] at hFrom
      rw [← hNext] at hTo
      obtain ⟨hKind, hPath⟩ :=
        mem_span
          (deltas_cover hMarks (Or.inl hDelta) _ hMark hFrom hTo)
      exact ⟨hKind, delta, hDelta, hPath⟩
  · have hSynced :
        (consumption.synchronized host).contentChangedPaths
          = some changed := by
      unfold synchronized
      rw [hReplayed]
      rfl
    obtain ⟨_, used, hUsed, hChain, hDelivered⟩ :=
      replayed_chain hReplay
    have hCovers :
        ∀ span ∈ used.map WorkspaceContentDelta.span,
          span.Covers consumption.laterState.2.marks := by
      intro span hSpan
      obtain ⟨delta, hDelta, rfl⟩ := List.mem_map.mp hSpan
      apply deltas_cover hMarks
      exact
        Or.inr
          ((List.dropWhile_sublist _).subset (hUsed delta hDelta))
    obtain ⟨span, hSpan, hItem⟩ :=
      hChain.covers hCovers hMark hFrom hTo
    obtain ⟨delta, hDelta, rfl⟩ := List.mem_map.mp hSpan
    obtain ⟨hKind, hPath⟩ := mem_span hItem
    refine ⟨hKind, ?_⟩
    unfold Delivered
    rw [hSynced]
    exact hDelivered delta hDelta filePath hPath

/-
  A context that is kept has been told of everything since
  its last view, whoever has taken the notifications.
-/
theorem informed_of_kept
    (consumption : Consumption)
    (host : PathHost)
    (hMarks :
      marksAdvanced false consumption.operations = true)
    (hKept :
      typeContextResetReason host
          (consumption.synchronized host)
          (some consumption.identity) true
        = none) :
    consumption.Informed host := by
  constructor
  · intro filePath hMem
    cases (told_of_kept hMarks hKept hMem).1
  · intro sofar rest hLater
    obtain ⟨_, hEpoch, hClear⟩ := consumption.identity_applied
    obtain ⟨hKeptEpoch, _⟩ := kept_cases hKept
    have hView :
        (consumption.synchronized host).typeEngineResetEpoch
          = consumption.view.typeEngineResetEpoch := by
      rcases synchronized_cases host consumption.view
          consumption.identity.appliedContentRevision
          consumption.access consumption.compilerInputs with
        hView | ⟨changed, documents, inputs, _, hReplayed⟩
      · unfold synchronized
        rw [hView]
      · unfold synchronized
        rw [hReplayed]
        rfl
    rw [hView, consumption.view_changes.2.1, hEpoch,
      laterState, trackedRun_fst, hLater,
      operationsOn_append] at hKeptEpoch
    rw [hasReset_root, (consumption.after_changes sofar).2]
    exact never_asked hClear hKeptEpoch.symm
  · intro filePath hMem
    exact (told_of_kept hMarks hKept hMem).2

/- A host that knows two files of one root. -/
def twoFileHost : PathHost :=
  { resolve := id
    relativeParts := fun root file =>
      if root = "/w" && file = "/w/a.ets" then ["a.ets"]
      else if root = "/w" && file = "/w/b.ets" then ["b.ets"]
      else []
    isAbsolute := fun _ _ => false
    canonicalSourcePath := id
    canonicalSourcePathAgain := id
    isWorkspacePhysicalAlias := fun _ _ _ _ => false
    byteLength := String.utf8ByteSize
    sha256 := id }

/- The first change is taken by another consumer. -/
def takenInBetween : Consumption :=
  { limits := ⟨512, 512⟩
    root := "/w"
    earlier := [.advance "/w" (some "/w")]
    later :=
      [.mark .changed "/w" "/w/a.ets",
        .advance "/w" (some "/w"),
        .take "/w",
        .mark .changed "/w" "/w/b.ets",
        .advance "/w" (some "/w")]
    ownerId := "/w"
    capture :=
      { rootPath := "/w"
        canonicalRoot := "/w"
        overlayPaths := []
        documents :=
          [⟨"/w/a.ets", "export class A {}"⟩,
            ⟨"/w/b.ets", "export class B {}"⟩]
        projectMembership := none
        removedPaths := [] }
    semanticRootPaths := none
    access := none
    compilerInputs := none }

theorem informed_of_kept_takenInBetween :
    takenInBetween.Informed twoFileHost :=
  informed_of_kept takenInBetween twoFileHost
    (by decide) (by decide +kernel)

end Consumption

end Workspace

end ArktsServer
