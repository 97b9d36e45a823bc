import Mathlib.Data.List.Basic
import Mathlib.Data.List.Count
import Mathlib.Data.List.Nodup
import Mathlib.Data.Prod.Lex

/-
  The names that a table reaches from some seeds, found with
  a stack of pending names.  A name without an entry is
  skipped, or the search fails.

  Main declarations:
    * `Worklist.lookup`, `Worklist.visitAll`
    * `Worklist.Frontier`
    * `Worklist.visitAll_spec`
    * `Worklist.visitAll_lenient`
-/

namespace ArktsServer

namespace Worklist

variable {α : Type} [DecidableEq α]

variable (table : List (α × List α))

/- The entry of a name, the last one of several. -/
def lookup
    (name : α) : Option (List α) :=
  (table.reverse.find? (fun entry => entry.1 = name)).map
    Prod.snd

variable {name : α}

theorem exists_entry
    {table : List (α × List α)}
    {next : List α}
    (hFound : lookup table name = some next) :
    (name, next) ∈ table := by
  unfold lookup at hFound
  cases hEntry :
      table.reverse.find? (fun entry => entry.1 = name) with
  | none =>
    rw [hEntry] at hFound
    cases hFound
  | some entry =>
    rw [hEntry] at hFound
    injection hFound with hNext
    have hName : entry.1 = name := by
      simpa using List.find?_some hEntry
    rw [← hName, ← hNext]
    exact List.mem_reverse.mp (List.mem_of_find?_eq_some hEntry)

def unvisited
    (visited : List α) : Nat :=
  table.countP fun entry => entry.1 ∉ visited

theorem unvisited_lt
    {table : List (α × List α)}
    {visited next : List α}
    (hNew : name ∉ visited)
    (hFound : lookup table name = some next) :
    unvisited table (visited ++ [name]) <
      unvisited table visited := by
  have hEntry := exists_entry hFound
  clear hFound
  unfold unvisited
  induction table with
  | nil => cases hEntry
  | cons entry table ih =>
    have hLe :
        table.countP
            (fun other => other.1 ∉ visited ++ [name]) ≤
          table.countP (fun other => other.1 ∉ visited) := by
      refine List.countP_mono_left ?_
      intro other _ hOther
      simp only [List.mem_append, not_or,
        decide_eq_true_eq] at hOther ⊢
      exact hOther.1
    rw [List.countP_cons, List.countP_cons]
    rcases List.mem_cons.mp hEntry with hHere | hLater
    · have hKept :
          decide (entry.1 ∉ visited ++ [name]) = false := by
        rw [← hHere]
        simp
      have hGone : decide (entry.1 ∉ visited) = true := by
        rw [← hHere]
        exact decide_eq_true hNew
      simp only [hKept, hGone, Bool.false_eq_true, ↓reduceIte]
      omega
    · have hLess := ih hLater
      by_cases hIn : entry.1 ∈ visited
      · simp [hIn]
        simpa using hLess
      · have hGone : decide (entry.1 ∉ visited) = true :=
          decide_eq_true hIn
        simp only [hGone, ↓reduceIte]
        split <;> omega

/- The names found, in the order of their visits. -/
def visitAll
    (table : List (α × List α))
    (strict : Bool)
    (pending visited : List α) : Option (List α) :=
  match pending with
  | [] => some visited
  | name :: rest =>
      if name ∈ visited then
        visitAll table strict rest visited
      else
        match _hFound : lookup table name with
        | none =>
            if strict then
              none
            else
              visitAll table strict rest visited
        | some next =>
            visitAll table strict (next.reverse ++ rest)
              (visited ++ [name])
termination_by (unvisited table visited, pending.length)
decreasing_by
  · exact Prod.Lex.right _ (Nat.lt_succ_self _)
  · exact Prod.Lex.right _ (Nat.lt_succ_self _)
  · exact Prod.Lex.left _ _ (unvisited_lt ‹_› _hFound)

/- What is still to do is on the stack. -/
def Frontier
    (pending visited : List α) : Prop :=
  ∀ name ∈ visited, ∀ next, lookup table name = some next →
    ∀ other ∈ next, (lookup table other).isSome →
      other ∈ visited ∨ other ∈ pending

theorem visitAll_spec
    {table : List (α × List α)}
    {strict : Bool}
    {pending visited result : List α}
    (hExplored :
      visitAll table strict pending visited = some result)
    (hFrontier : Frontier table pending visited) :
    (∀ name ∈ visited, name ∈ result) ∧
      (∀ name ∈ pending, (lookup table name).isSome →
        name ∈ result) ∧
      Frontier table [] result := by
  induction pending, visited using visitAll.induct table strict
    with
  | case1 visited =>
    unfold visitAll at hExplored
    injection hExplored with hSame
    rw [← hSame]
    refine ⟨fun _ hName => hName, ?_, hFrontier⟩
    intro name hName
    cases hName
  | case2 visited name rest hVisited ih =>
    rw [visitAll, if_pos hVisited] at hExplored
    have hRest : Frontier table rest visited := by
      intro first hFirst next hNext other hOther hKnown
      rcases hFrontier first hFirst next hNext other hOther
          hKnown with hDone | hPending
      · exact Or.inl hDone
      · rcases List.mem_cons.mp hPending with rfl | hLater
        · exact Or.inl hVisited
        · exact Or.inr hLater
    rcases ih hExplored hRest with
      ⟨hKept, hPending, hClosed⟩
    refine ⟨hKept, ?_, hClosed⟩
    intro other hOther hKnown
    rcases List.mem_cons.mp hOther with rfl | hLater
    · exact hKept _ hVisited
    · exact hPending other hLater hKnown
  | case3 visited name rest hNew hNone hStrict =>
    rw [visitAll, if_neg hNew] at hExplored
    split at hExplored
    · rw [if_pos hStrict] at hExplored
      cases hExplored
    · rename_i next hSome
      rw [hNone] at hSome
      cases hSome
  | case4 visited name rest hNew hNone hLenient ih =>
    rw [visitAll, if_neg hNew] at hExplored
    split at hExplored
    · rw [if_neg hLenient] at hExplored
      have hRest : Frontier table rest visited := by
        intro first hFirst next hNext other hOther hKnown
        rcases hFrontier first hFirst next hNext other hOther
            hKnown with hDone | hPending
        · exact Or.inl hDone
        · rcases List.mem_cons.mp hPending with rfl | hLater
          · rw [hNone] at hKnown
            cases hKnown
          · exact Or.inr hLater
      rcases ih hExplored hRest with
        ⟨hKept, hPending, hClosed⟩
      refine ⟨hKept, ?_, hClosed⟩
      intro other hOther hKnown
      rcases List.mem_cons.mp hOther with rfl | hLater
      · rw [hNone] at hKnown
        cases hKnown
      · exact hPending other hLater hKnown
    · rename_i next hSome
      rw [hNone] at hSome
      cases hSome
  | case5 visited name rest hNew found hFound ih =>
    rw [visitAll, if_neg hNew] at hExplored
    split at hExplored
    · rename_i hNone
      rw [hFound] at hNone
      cases hNone
    · rename_i next hSome
      rw [hFound] at hSome
      injection hSome with hSame
      subst hSame
      have hRest :
          Frontier table (found.reverse ++ rest)
            (visited ++ [name]) := by
        intro first hFirst next hNext other hOther hKnown
        rcases List.mem_append.mp hFirst with hOld | hHere
        · rcases hFrontier first hOld next hNext other hOther
              hKnown with hDone | hPending
          · exact Or.inl (List.mem_append_left _ hDone)
          · rcases List.mem_cons.mp hPending with rfl | hLater
            · exact
                Or.inl (List.mem_append_right _
                  List.mem_cons_self)
            · exact Or.inr (List.mem_append_right _ hLater)
        · rw [List.mem_singleton.mp hHere, hFound] at hNext
          injection hNext with hSame
          subst hSame
          exact
            Or.inr (List.mem_append_left _
              (List.mem_reverse.mpr hOther))
      rcases ih hExplored hRest with
        ⟨hKept, hPending, hClosed⟩
      refine
        ⟨fun other hOther =>
            hKept other (List.mem_append_left _ hOther),
          ?_, hClosed⟩
      intro other hOther hKnown
      rcases List.mem_cons.mp hOther with rfl | hLater
      · exact
          hKept _ (List.mem_append_right _ List.mem_cons_self)
      · exact
          hPending other (List.mem_append_right _ hLater) hKnown

/- A lenient search finds something. -/
theorem visitAll_lenient
    (pending visited : List α) :
    ∃ result,
      visitAll table false pending visited = some result := by
  induction pending, visited using
      visitAll.induct table false with
  | case1 visited =>
    refine ⟨visited, ?_⟩
    unfold visitAll
    rfl
  | case2 visited name rest hVisited ih =>
    rw [visitAll, if_pos hVisited]
    exact ih
  | case3 visited name rest hNew hNone hStrict =>
    cases hStrict
  | case4 visited name rest hNew hNone hLenient ih =>
    rw [visitAll, if_neg hNew]
    split
    · exact ih
    · rename_i next hSome
      rw [hNone] at hSome
      cases hSome
  | case5 visited name rest hNew found hFound ih =>
    rw [visitAll, if_neg hNew]
    split
    · rename_i hNone
      rw [hFound] at hNone
      cases hNone
    · rename_i next hSome
      rw [hFound] at hSome
      injection hSome with hSame
      subst hSame
      exact ih

end Worklist

end ArktsServer
