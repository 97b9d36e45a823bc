import Mathlib.Order.Lattice
import Mathlib.Data.List.Basic

/-
  Spans of a revision counter.  A span says which items were
  marked from its first revision up to its next one; a chain
  of spans says what was marked from one revision to
  another.

  Main declarations:
    * `RevisionSpans.Span.Covers`
    * `RevisionSpans.Chain`
    * `RevisionSpans.Chain.covers`
-/

namespace ArktsServer

namespace RevisionSpans

variable {Time Item : Type}

/- The items marked in a half-open interval. -/
structure Span
    (Time Item : Type) where
  first : Time
  next : Time
  items : List Item

section Order

variable [LinearOrder Time]

/- No mark of the interval is missing. -/
def Span.Covers
    (span : Span Time Item)
    (marks : List (Time × Item)) :
    Prop :=
  ∀ mark ∈ marks,
    span.first ≤ mark.1 →
    mark.1 < span.next →
    mark.2 ∈ span.items

/- Spans that follow on each other, from start to end. -/
def Chain
    (start target : Time) :
    List (Span Time Item) → Prop
| [] => start = target
| span :: spans =>
    span.first = start
      ∧ Chain span.next target spans

/- A later mark is no business of the span. -/
theorem Span.Covers.append
    {span : Span Time Item}
    {marks more : List (Time × Item)}
    (hCovers : span.Covers marks)
    (hLater : ∀ mark ∈ more, span.next ≤ mark.1) :
    span.Covers (marks ++ more) := by
  intro mark hMem hFirst hNext
  rcases List.mem_append.mp hMem with hOld | hNew
  · exact hCovers mark hOld hFirst hNext
  · exact absurd hNext (not_lt_of_ge (hLater mark hNew))

/- A chain of covering spans covers from start to end. -/
theorem Chain.covers
    {start target : Time}
    {spans : List (Span Time Item)}
    {marks : List (Time × Item)}
    (hChain : Chain start target spans)
    (hCovers : ∀ span ∈ spans, span.Covers marks)
    {mark : Time × Item}
    (hMem : mark ∈ marks)
    (hStart : start ≤ mark.1)
    (hTarget : mark.1 < target) :
    ∃ span ∈ spans, mark.2 ∈ span.items := by
  induction spans generalizing start with
  | nil =>
    have hEq : start = target := hChain
    rw [hEq] at hStart
    exact absurd hTarget (not_lt_of_ge hStart)
  | cons span spans ih =>
    obtain ⟨hFirst, hRest⟩ := hChain
    rcases lt_or_ge mark.1 span.next with hIn | hBehind
    · rw [← hFirst] at hStart
      exact
        ⟨span, List.mem_cons_self,
          hCovers span List.mem_cons_self mark hMem hStart hIn⟩
    · obtain ⟨other, hOther, hItem⟩ :=
        ih hRest
          (fun other hOther =>
            hCovers other (List.mem_cons_of_mem _ hOther))
          hBehind
      exact ⟨other, List.mem_cons_of_mem _ hOther, hItem⟩

end Order

end RevisionSpans

end ArktsServer
