import ArktsServer.Lib.OrderedSet
import Mathlib.Logic.Relation

/-
  Connected components of an undirected graph that is given
  by a list of pairs, and two ways to compute them that stop
  once the component is larger than a bound: sweeping over
  the pairs until nothing is added, and a worklist of items
  whose neighbors are still to be looked at.

  Both are fuelled; enough fuel is known from the bound, or
  from the number of items that can be reached.

  Main declarations:
    * `Components.Linked`, `Components.Component`
    * `Components.Computes`
    * `Components.settle`, `Components.settle_computes`
    * `Components.explore`, `Components.explore_computes`
    * `Components.Computes.agree`
-/

----------
-- Components
----------

namespace ArktsServer

namespace Components

variable {α : Type}

/- The pair stands in the list, one way or the other. -/
def Linked
    (edges : List (α × α))
    (left right : α) : Prop :=
  (left, right) ∈ edges ∨ (right, left) ∈ edges

/- What is connected to one of the seeds. -/
def Component
    (edges : List (α × α))
    (seeds : List α)
    (item : α) : Prop :=
  ∃ seed ∈ seeds,
    Relation.ReflTransGen (Linked edges) seed item

/- More items than the bound have the property. -/
def Exceeds
    (bound : Nat)
    (P : α → Prop) : Prop :=
  ∃ items : List α,
    items.Nodup ∧ bound < items.length ∧
      ∀ item ∈ items, P item

variable {edges : List (α × α)}
variable {seeds : List α}
variable {item : α}

theorem Component.seed
    (hItem : item ∈ seeds) :
    Component edges seeds item :=
  ⟨item, hItem, Relation.ReflTransGen.refl⟩

theorem Component.link
    {left right : α}
    (hLeft : Component edges seeds left)
    (hLink : Linked edges left right) :
    Component edges seeds right := by
  rcases hLeft with ⟨seed, hSeed, hPath⟩
  exact ⟨seed, hSeed, hPath.tail hLink⟩

variable {P : α → Prop}

/- A closed set with the seeds holds the component. -/
theorem Component.mem_of_closed
    (hSeeds : ∀ seed ∈ seeds, P seed)
    (hClosed :
      ∀ left right,
        P left → Linked edges left right → P right)
    (hItem : Component edges seeds item) :
    P item := by
  rcases hItem with ⟨seed, hSeed, hPath⟩
  induction hPath with
  | refl => exact hSeeds seed hSeed
  | tail _ hLink ih => exact hClosed _ _ ih hLink

variable {edges edges' : List (α × α)}

theorem linked_congr
    (hEdges : ∀ edge, edge ∈ edges ↔ edge ∈ edges')
    {left right : α} :
    Linked edges left right ↔ Linked edges' left right := by
  unfold Linked
  rw [hEdges, hEdges]

/- A component does not depend on the order of the lists. -/
theorem component_congr
    {seeds seeds' : List α}
    (hEdges : ∀ edge, edge ∈ edges ↔ edge ∈ edges')
    (hSeeds : ∀ seed, seed ∈ seeds ↔ seed ∈ seeds')
    {item : α} :
    Component edges seeds item ↔
      Component edges' seeds' item := by
  constructor
  · refine Component.mem_of_closed ?_ ?_
    · exact fun seed hSeed =>
        Component.seed ((hSeeds seed).mp hSeed)
    · exact fun _ _ hLeft hLink =>
        hLeft.link ((linked_congr hEdges).mp hLink)
  · refine Component.mem_of_closed ?_ ?_
    · exact fun seed hSeed =>
        Component.seed ((hSeeds seed).mpr hSeed)
    · exact fun _ _ hLeft hLink =>
        hLeft.link ((linked_congr hEdges).mpr hLink)

variable [LinearOrder α]

/-
  What a bounded computation of a component returns: the
  component, or nothing if it is too large.
-/
structure Computes
    (edges : List (α × α))
    (seeds : List α)
    (bound : Nat)
    (result : Option (OrderedSet α)) : Prop where
  some_iff :
    ∀ names, result = some names →
      ∀ item, item ∈ names ↔ Component edges seeds item
  none_iff :
    result = none ↔ Exceeds bound (Component edges seeds)

variable {names : OrderedSet α}
variable {bound : Nat}

/- A set with the component's items shows that it is large. -/
theorem exceeds_of_set
    (hLarge : bound < names.length)
    (hMem : ∀ item, item ∈ names → P item) :
    Exceeds bound P :=
  ⟨names.toList, names.nodup, hLarge, hMem⟩

theorem not_exceeds_of_set
    (hSmall : names.length ≤ bound)
    (hMem : ∀ item, P item → item ∈ names) :
    ¬ Exceeds bound P := by
  rintro ⟨items, hNodup, hLarge, hItems⟩
  have hLe : items.length ≤ names.length :=
    (hNodup.subperm fun item hItem =>
      hMem item (hItems item hItem)).length_le
  omega

/- A set of the component that is complete unless large. -/
theorem computes_of_set
    (hSound :
      ∀ item, item ∈ names → Component edges seeds item)
    (hComplete :
      bound < names.length ∨
        ∀ item, Component edges seeds item → item ∈ names) :
    Computes edges seeds bound
      (if bound < names.length then none else some names) := by
  by_cases hLarge : bound < names.length
  · rw [if_pos hLarge]
    refine ⟨?_, ?_⟩
    · intro _ hSome
      cases hSome
    · exact
        ⟨fun _ => exceeds_of_set hLarge hSound, fun _ => rfl⟩
  · rw [if_neg hLarge]
    have hAll := hComplete.resolve_left hLarge
    constructor
    · intro other hSome
      cases hSome
      exact fun item => ⟨hSound item, hAll item⟩
    · constructor
      · intro hNone
        cases hNone
      · intro hExceeds
        exact
          absurd hExceeds
            (not_exceeds_of_set (Nat.le_of_not_lt hLarge) hAll)

/- Two computations of one component agree. -/
theorem Computes.agree
    {seeds seeds' : List α}
    {first second : Option (OrderedSet α)}
    (hFirst : Computes edges seeds bound first)
    (hSecond : Computes edges' seeds' bound second)
    (hEdges : ∀ edge, edge ∈ edges ↔ edge ∈ edges')
    (hSeeds : ∀ seed, seed ∈ seeds ↔ seed ∈ seeds') :
    first = second := by
  have hSame :
      ∀ item,
        Component edges seeds item ↔
          Component edges' seeds' item :=
    fun _ => component_congr hEdges hSeeds
  have hExceeds :
      Exceeds bound (Component edges seeds) ↔
        Exceeds bound (Component edges' seeds') := by
    unfold Exceeds
    simp only [hSame]
  have hNone : first = none ↔ second = none := by
    rw [hFirst.none_iff, hSecond.none_iff, hExceeds]
  cases hLeft : first with
  | none =>
    rw [hNone.mp hLeft]
  | some names =>
    cases hRight : second with
    | none =>
      rw [hLeft] at hNone
      cases hNone.mpr hRight
    | some others =>
      congr 1
      apply OrderedSet.ext_of_mem
      intro item
      rw [hFirst.some_iff names hLeft,
        hSecond.some_iff others hRight, hSame]

----------
-- Sweeps
----------

/- Add the other end of a pair that touches the set. -/
def visit
    (names : OrderedSet α)
    (edge : α × α) : OrderedSet α :=
  let names :=
    if edge.1 ∈ names then names.insert edge.2 else names
  if edge.2 ∈ names then names.insert edge.1 else names

/- One pass over the pairs, given up above the bound. -/
def pass
    (bound : Nat) :
    List (α × α) → OrderedSet α → Option (OrderedSet α)
| [], names => some names
| edge :: edges, names =>
    let next := visit names edge
    if bound < next.length then
      none
    else
      pass bound edges next

/- Passes until one adds nothing. -/
def settle
    (bound : Nat)
    (edges : List (α × α)) :
    Nat → OrderedSet α → Option (OrderedSet α)
| 0, names => some names
| fuel + 1, names =>
    match pass bound edges names with
    | none => none
    | some next =>
        if next.length = names.length then
          some next
        else
          settle bound edges fuel next

variable {edge : α × α}

theorem mem_visit
    {item : α} :
    item ∈ visit names edge ↔
      item ∈ names ∨
        edge.1 ∈ names ∧ item = edge.2 ∨
          edge.2 ∈ names ∧ item = edge.1 := by
  unfold visit
  by_cases hFirst : edge.1 ∈ names
  · by_cases hSecond : edge.2 ∈ names
    · simp [hFirst, hSecond]
      tauto
    · simp [hFirst, hSecond]
      constructor
      · rintro (rfl | rfl | hMem)
        · exact Or.inl hFirst
        · exact Or.inr rfl
        · exact Or.inl hMem
      · rintro (hMem | rfl)
        · exact Or.inr (Or.inr hMem)
        · exact Or.inr (Or.inl rfl)
  · by_cases hSecond : edge.2 ∈ names
    · simp [hFirst, hSecond]
      tauto
    · simp [hFirst, hSecond]

theorem visit_linked
    (hEdge : edge ∈ edges)
    (hSound :
      ∀ item, item ∈ names → Component edges seeds item) :
    ∀ item, item ∈ visit names edge →
      Component edges seeds item := by
  intro item hItem
  rcases mem_visit.mp hItem with
    hOld | ⟨hMem, rfl⟩ | ⟨hMem, rfl⟩
  · exact hSound item hOld
  · exact (hSound _ hMem).link (Or.inl hEdge)
  · exact (hSound _ hMem).link (Or.inr hEdge)

/- A pass that ends only adds, and looks at every pair. -/
theorem pass_some
    {names next : OrderedSet α}
    (hPass : pass bound edges names = some next) :
    (∀ item, item ∈ names → item ∈ next) ∧
      (edges = [] ∨ next.length ≤ bound) ∧
        ∀ edge ∈ edges,
          ∀ item, item ∈ visit names edge → item ∈ next := by
  induction edges generalizing names with
  | nil =>
    cases hPass
    exact ⟨fun _ hItem => hItem, Or.inl rfl, by simp⟩
  | cons edge edges ih =>
    unfold pass at hPass
    by_cases hLarge : bound < (visit names edge).length
    · simp [hLarge] at hPass
    · simp only [hLarge, if_false] at hPass
      rcases ih hPass with ⟨hAdds, hBound, hEdges⟩
      refine ⟨?_, Or.inr ?_, ?_⟩
      · intro item hItem
        exact hAdds item (mem_visit.mpr (Or.inl hItem))
      · rcases hBound with hNil | hLe
        · subst hNil
          cases hPass
          exact Nat.le_of_not_lt hLarge
        · exact hLe
      · intro other hOther item hItem
        rcases List.mem_cons.mp hOther with rfl | hRest
        · exact hAdds item hItem
        · apply hEdges other hRest item
          rcases mem_visit.mp hItem with
            hOld | ⟨hMem, hEq⟩ | ⟨hMem, hEq⟩
          · exact
              mem_visit.mpr (Or.inl (mem_visit.mpr (Or.inl hOld)))
          · exact
              mem_visit.mpr
                (Or.inr (Or.inl
                  ⟨mem_visit.mpr (Or.inl hMem), hEq⟩))
          · exact
              mem_visit.mpr
                (Or.inr (Or.inr
                  ⟨mem_visit.mpr (Or.inl hMem), hEq⟩))

theorem pass_sound
    {edges rest : List (α × α)}
    (hRest : ∀ edge ∈ rest, edge ∈ edges)
    (hSound :
      ∀ item, item ∈ names → Component edges seeds item) :
    (∀ next, pass bound rest names = some next →
      ∀ item, item ∈ next → Component edges seeds item) ∧
      (pass bound rest names = none →
        Exceeds bound (Component edges seeds)) := by
  induction rest generalizing names with
  | nil =>
    constructor
    · intro next hPass
      cases hPass
      exact hSound
    · intro hPass
      cases hPass
  | cons edge rest ih =>
    have hVisit :=
      visit_linked (hRest edge List.mem_cons_self) hSound
    unfold pass
    by_cases hLarge : bound < (visit names edge).length
    · simp only [hLarge, if_true]
      constructor
      · intro next hPass
        cases hPass
      · exact fun _ => exceeds_of_set hLarge hVisit
    · simp only [hLarge, if_false]
      exact
        ih
          (fun other hOther =>
            hRest other (List.mem_cons_of_mem _ hOther))
          hVisit

/- A pass that keeps the length has found a closed set. -/
theorem closed_of_pass
    {names next : OrderedSet α}
    (hPass : pass bound edges names = some next)
    (hLength : next.length = names.length)
    {left right : α}
    (hLeft : left ∈ next)
    (hLink : Linked edges left right) :
    right ∈ next := by
  rcases pass_some hPass with ⟨hAdds, _, hEdges⟩
  have hSame : ∀ item, item ∈ next → item ∈ names := by
    intro item hItem
    by_contra hOut
    have hLt := OrderedSet.length_lt_of_subset hAdds hItem hOut
    omega
  have hNames := hSame left hLeft
  rcases hLink with hEdge | hEdge
  · exact
      hEdges _ hEdge right
        (mem_visit.mpr (Or.inr (Or.inl ⟨hNames, rfl⟩)))
  · exact
      hEdges _ hEdge right
        (mem_visit.mpr (Or.inr (Or.inr ⟨hNames, rfl⟩)))

/-
  With more fuel than the set can still grow, the passes
  compute the component.
-/
theorem settle_computes
    {bound fuel : Nat}
    (hSeeds : ∀ seed ∈ seeds, seed ∈ names)
    (hSound :
      ∀ item, item ∈ names → Component edges seeds item)
    (hSmall : names.length ≤ bound)
    (hFuel : bound < fuel + names.length) :
    Computes edges seeds bound
      (settle bound edges fuel names) := by
  induction fuel generalizing names with
  | zero => omega
  | succ fuel ih =>
    unfold settle
    have hPasses :
        (∀ next, pass bound edges names = some next →
          ∀ item, item ∈ next →
            Component edges seeds item) ∧
          (pass bound edges names = none →
            Exceeds bound (Component edges seeds)) :=
      pass_sound (fun _ hEdge => hEdge) hSound
    rcases hPasses with
      ⟨hNext, hNone⟩
    cases hPass : pass bound edges names with
    | none =>
      refine ⟨?_, ?_⟩
      · intro _ hSome
        cases hSome
      · exact ⟨fun _ => hNone hPass, fun _ => rfl⟩
    | some next =>
      rcases pass_some hPass with ⟨hAdds, hBound, _⟩
      have hNextSmall : next.length ≤ bound := by
        rcases hBound with hNil | hLe
        · subst hNil
          cases hPass
          exact hSmall
        · exact hLe
      have hNextSeeds : ∀ seed ∈ seeds, seed ∈ next :=
        fun seed hSeed => hAdds seed (hSeeds seed hSeed)
      by_cases hLength : next.length = names.length
      · simp only [hLength, if_true]
        have hComputes :
            Computes edges seeds bound
              (if bound < next.length then none else some next) :=
          computes_of_set (hNext next hPass)
            (Or.inr fun item hItem =>
              hItem.mem_of_closed hNextSeeds
                fun _ _ hLeft hLink =>
                  closed_of_pass hPass hLength hLeft hLink)
        rw [if_neg (Nat.not_lt_of_ge hNextSmall)] at hComputes
        exact hComputes
      · simp only [hLength, if_false]
        have hLe := OrderedSet.length_le_of_subset hAdds
        exact
          ih hNextSeeds (hNext next hPass) hNextSmall (by omega)

----------
-- Worklists
----------

/- What has been found, and what is still to be looked at. -/
structure Worklist (α : Type) [LinearOrder α] where
  names : OrderedSet α
  pending : List α

/- A stack takes the newest item next, a queue the oldest. -/
inductive Discipline where
| stack
| queue
deriving DecidableEq

variable {β : Type}

def Discipline.push
    (discipline : Discipline)
    (item : β)
    (pending : List β) : List β :=
  match discipline with
  | .stack => item :: pending
  | .queue => pending ++ [item]

variable {discipline : Discipline}

theorem Discipline.mem_push
    {item other : β}
    {pending : List β} :
    other ∈ discipline.push item pending ↔
      other = item ∨ other ∈ pending := by
  cases discipline with
  | stack => exact List.mem_cons
  | queue =>
    simp only [Discipline.push, List.mem_append,
      List.mem_singleton]
    tauto

theorem Discipline.length_push
    {item : β}
    {pending : List β} :
    (discipline.push item pending).length
      = pending.length + 1 := by
  cases discipline <;> simp [Discipline.push]

variable (discipline : Discipline) (limit : Option Nat)

/-
  The neighbors of one item.  The answer says whether the
  work was given up above the limit.
-/
def absorb :
    List α → Worklist α → Worklist α × Bool
| [], work => (work, false)
| neighbor :: neighbors, work =>
    if neighbor ∈ work.names then
      absorb neighbors work
    else
      let next : Worklist α :=
        ⟨work.names.insert neighbor,
          discipline.push neighbor work.pending⟩
      if limit.any (· < next.names.length) then
        (next, true)
      else
        absorb neighbors next

def explore
    (neighborsOf : α → List α) :
    Nat → Worklist α → OrderedSet α
| 0, work => work.names
| fuel + 1, work =>
    match work.pending with
    | [] => work.names
    | item :: pending =>
        match absorb discipline limit (neighborsOf item)
            ⟨work.names, pending⟩ with
        | (next, true) => next.names
        | (next, false) =>
            explore neighborsOf fuel next

/- The items of a list that are not in a set. -/
def missing
    (nodes : List α)
    (names : OrderedSet α) : Nat :=
  (nodes.filter (· ∉ names)).length

theorem missing_insert
    {nodes : List α}
    (hItem : item ∈ nodes)
    (hNew : item ∉ names) :
    missing nodes (names.insert item) + 1
      ≤ missing nodes names := by
  unfold missing
  have hSub :
      (nodes.filter (· ∉ names.insert item)).Sublist
        (nodes.filter (· ∉ names)) := by
    apply List.monotone_filter_right
    intro other hOther
    simp only [decide_eq_true_eq, OrderedSet.mem_insert,
      not_or] at hOther ⊢
    exact hOther.2
  have hLt :
      (nodes.filter (· ∉ names.insert item)).length
        ≠ (nodes.filter (· ∉ names)).length := by
    intro hEq
    have hSame := hSub.eq_of_length hEq
    have hIn : item ∈ nodes.filter (· ∉ names) :=
      List.mem_filter.mpr ⟨hItem, by simpa using hNew⟩
    rw [← hSame] at hIn
    have hOut := (List.mem_filter.mp hIn).2
    simp at hOut
  have hLe := hSub.length_le
  omega

/- What the neighbors of one item do to a worklist. -/
structure Absorbed
    (nodes neighbors : List α)
    (work : Worklist α)
    (result : Worklist α × Bool) : Prop where
  names :
    ∀ item, item ∈ result.1.names →
      item ∈ work.names ∨ item ∈ neighbors
  keeps :
    ∀ item, item ∈ work.names → item ∈ result.1.names
  pending :
    ∀ item, item ∈ work.pending → item ∈ result.1.pending
  pushed :
    ∀ item, item ∈ result.1.pending →
      item ∈ work.pending ∨ item ∈ result.1.names
  fresh :
    ∀ item, item ∈ result.1.names →
      item ∈ work.names ∨ item ∈ result.1.pending
  givenUp :
    result.2 = true →
      ∃ bound, limit = some bound ∧
        bound < result.1.names.length
  all :
    result.2 = false →
      ∀ item ∈ neighbors, item ∈ result.1.names
  measure :
    missing nodes result.1.names
        + result.1.pending.length
      ≤ missing nodes work.names + work.pending.length

theorem absorb_absorbed
    {nodes neighbors : List α}
    (hNodes : ∀ item ∈ neighbors, item ∈ nodes)
    (work : Worklist α) :
    Absorbed limit nodes neighbors work
      (absorb discipline limit neighbors work) := by
  induction neighbors generalizing work with
  | nil =>
    constructor
    · exact fun _ hItem => Or.inl hItem
    · exact fun _ hItem => hItem
    · exact fun _ hItem => hItem
    · exact fun _ hItem => Or.inl hItem
    · exact fun _ hItem => Or.inl hItem
    · intro hFalse
      cases hFalse
    · intro _ item hItem
      cases hItem
    · exact Nat.le_refl _
  | cons neighbor neighbors ih =>
    have hTail : ∀ item ∈ neighbors, item ∈ nodes :=
      fun item hItem =>
        hNodes item (List.mem_cons_of_mem _ hItem)
    unfold absorb
    by_cases hOld : neighbor ∈ work.names
    · rw [if_pos hOld]
      have hRest := ih hTail work
      refine
        ⟨?_, hRest.keeps, hRest.pending, hRest.pushed,
          hRest.fresh, hRest.givenUp, ?_, hRest.measure⟩
      · intro item hItem
        exact
          (hRest.names item hItem).imp_right
            (List.mem_cons_of_mem _)
      · intro hDone item hItem
        rcases List.mem_cons.mp hItem with rfl | hMem
        · exact hRest.keeps item hOld
        · exact hRest.all hDone item hMem
    · rw [if_neg hOld]
      have hMissing :=
        missing_insert (hNodes neighbor List.mem_cons_self) hOld
      have hMeasure :
          missing nodes (work.names.insert neighbor)
              + (discipline.push neighbor
                work.pending).length
            ≤ missing nodes work.names
              + work.pending.length := by
        rw [Discipline.length_push]
        omega
      by_cases hStop :
          limit.any
            (· < (work.names.insert neighbor).length) = true
      · simp only [hStop, if_true]
        constructor
        · intro item hItem
          rcases OrderedSet.mem_insert.mp hItem with
            rfl | hMem
          · exact Or.inr List.mem_cons_self
          · exact Or.inl hMem
        · exact fun item hItem =>
            OrderedSet.mem_insert.mpr (Or.inr hItem)
        · exact fun item hItem =>
            Discipline.mem_push.mpr (Or.inr hItem)
        · intro item hItem
          rcases Discipline.mem_push.mp hItem with rfl | hMem
          · exact
              Or.inr (OrderedSet.mem_insert.mpr (Or.inl rfl))
          · exact Or.inl hMem
        · intro item hItem
          rcases OrderedSet.mem_insert.mp hItem with
            rfl | hMem
          · exact Or.inr (Discipline.mem_push.mpr (Or.inl rfl))
          · exact Or.inl hMem
        · intro _
          cases hLimit : limit with
          | none =>
            rw [hLimit] at hStop
            cases hStop
          | some bound =>
            rw [hLimit] at hStop
            exact ⟨bound, rfl, of_decide_eq_true hStop⟩
        · intro hFalse
          cases hFalse
        · exact hMeasure
      · simp only [hStop]
        have hRest :=
          ih hTail
            ⟨work.names.insert neighbor,
              discipline.push neighbor work.pending⟩
        have hNeighbor :=
          hRest.keeps neighbor
            (OrderedSet.mem_insert.mpr (Or.inl rfl))
        constructor
        · intro item hItem
          rcases hRest.names item hItem with hMem | hMem
          · rcases OrderedSet.mem_insert.mp hMem with
              rfl | hIn
            · exact Or.inr List.mem_cons_self
            · exact Or.inl hIn
          · exact Or.inr (List.mem_cons_of_mem _ hMem)
        · exact fun item hItem =>
            hRest.keeps item
              (OrderedSet.mem_insert.mpr (Or.inr hItem))
        · exact fun item hItem =>
            hRest.pending item
              (Discipline.mem_push.mpr (Or.inr hItem))
        · intro item hItem
          rcases hRest.pushed item hItem with hMem | hMem
          · rcases Discipline.mem_push.mp hMem with
              rfl | hIn
            · exact Or.inr hNeighbor
            · exact Or.inl hIn
          · exact Or.inr hMem
        · intro item hItem
          rcases hRest.fresh item hItem with hMem | hMem
          · rcases OrderedSet.mem_insert.mp hMem with
              rfl | hIn
            · exact
                Or.inr
                  (hRest.pending item
                    (Discipline.mem_push.mpr (Or.inl rfl)))
            · exact Or.inl hIn
          · exact Or.inr hMem
        · exact hRest.givenUp
        · intro hDone item hItem
          rcases List.mem_cons.mp hItem with rfl | hMem
          · exact hNeighbor
          · exact hRest.all hDone item hMem
        · exact Nat.le_trans hRest.measure hMeasure

/-
  Every item that is found belongs to the component, and the
  neighbors of those that are not pending have been found.
-/
structure Explores
    (edges : List (α × α))
    (seeds : List α)
    (work : Worklist α) : Prop where
  starts : ∀ seed ∈ seeds, seed ∈ work.names
  sound :
    ∀ item, item ∈ work.names → Component edges seeds item
  pending :
    ∀ item, item ∈ work.pending → item ∈ work.names
  closed :
    ∀ left right,
      left ∈ work.names → left ∉ work.pending →
        Linked edges left right → right ∈ work.names

/- The neighbors are read off the pairs. -/
structure Neighbors
    (edges : List (α × α))
    (nodes : List α)
    (neighborsOf : α → List α) : Prop where
  mem :
    ∀ left right,
      right ∈ neighborsOf left ↔ Linked edges left right
  bounded :
    ∀ left right, right ∈ neighborsOf left → right ∈ nodes

variable {discipline limit}

/-
  With fuel for every item that may turn up, a worklist ends
  with the component, or above its limit.
-/
theorem explore_spec
    {edges : List (α × α)}
    {seeds nodes : List α}
    {neighborsOf : α → List α}
    (hNeighbors : Neighbors edges nodes neighborsOf)
    {fuel : Nat}
    {work : Worklist α}
    (hWork : Explores edges seeds work)
    (hFuel :
      missing nodes work.names + work.pending.length
        < fuel) :
    (∀ item,
      item ∈ explore discipline limit neighborsOf fuel work →
        Component edges seeds item) ∧
      ((∃ bound, limit = some bound ∧
        bound
          < (explore discipline limit neighborsOf fuel
            work).length) ∨
        ∀ item, Component edges seeds item →
          item
            ∈ explore discipline limit neighborsOf fuel
              work) := by
  induction fuel generalizing work with
  | zero => omega
  | succ fuel ih =>
    unfold explore
    cases hPending : work.pending with
    | nil =>
      refine ⟨hWork.sound, Or.inr ?_⟩
      intro item hItem
      refine hItem.mem_of_closed hWork.starts ?_
      intro left right hLeft hLink
      refine hWork.closed left right hLeft ?_ hLink
      rw [hPending]
      exact List.not_mem_nil
    | cons head pending =>
      have hHead : head ∈ work.names :=
        hWork.pending head
          (by rw [hPending]; exact List.mem_cons_self)
      have hAbsorbed :=
        absorb_absorbed discipline limit
          (hNeighbors.bounded head)
          (⟨work.names, pending⟩ : Worklist α)
      have hSound :
          ∀ item,
            item
              ∈ (absorb discipline limit
                (neighborsOf head)
                ⟨work.names, pending⟩).1.names →
            Component edges seeds item := by
        intro item hItem
        rcases hAbsorbed.names item hItem with hOld | hNew
        · exact hWork.sound item hOld
        · exact
            (hWork.sound head hHead).link
              ((hNeighbors.mem head item).mp hNew)
      dsimp only
      cases hResult :
          absorb discipline limit (neighborsOf head)
            ⟨work.names, pending⟩ with
      | mk next stopped =>
        rw [hResult] at hAbsorbed hSound
        cases stopped with
        | true =>
          exact ⟨hSound, Or.inl (hAbsorbed.givenUp rfl)⟩
        | false =>
          apply ih
          · constructor
            · intro seed hSeed
              exact hAbsorbed.keeps seed (hWork.starts seed hSeed)
            · exact hSound
            · intro item hItem
              rcases hAbsorbed.pushed item hItem with
                hOld | hNew
              · refine
                  hAbsorbed.keeps item (hWork.pending item ?_)
                rw [hPending]
                exact List.mem_cons_of_mem _ hOld
              · exact hNew
            · intro left right hLeft hDone hLink
              by_cases hSame : left = head
              · subst hSame
                exact
                  hAbsorbed.all rfl right
                    ((hNeighbors.mem left right).mpr hLink)
              · rcases hAbsorbed.fresh left hLeft with
                  hOld | hNew
                · refine
                    hAbsorbed.keeps right
                      (hWork.closed left right hOld ?_ hLink)
                  rw [hPending]
                  intro hMem
                  rcases List.mem_cons.mp hMem with
                    hEq | hRest
                  · exact hSame hEq
                  · exact hDone (hAbsorbed.pending left hRest)
                · exact absurd hNew hDone
          · have hMeasure := hAbsorbed.measure
            rw [hPending] at hFuel
            simp only [List.length_cons] at hFuel
            dsimp only at hMeasure
            omega

/- A worklist that starts with the seeds. -/
def Worklist.start
    (seeds : List α) : Worklist α :=
  ⟨OrderedSet.ofList seeds, seeds⟩

theorem explores_start
    (edges : List (α × α))
    (seeds : List α) :
    Explores edges seeds (Worklist.start seeds) where
  starts _ hSeed := OrderedSet.mem_ofList.mpr hSeed
  sound _ hItem := Component.seed (OrderedSet.mem_ofList.mp hItem)
  pending _ hItem := OrderedSet.mem_ofList.mpr hItem
  closed _ _ hLeft hDone _ :=
    absurd (OrderedSet.mem_ofList.mp hLeft) hDone

/- A worklist without a limit, or with the bound as one. -/
theorem explore_computes
    {seeds nodes : List α}
    {neighborsOf : α → List α}
    (hLimit : ∀ other, limit = some other → other = bound)
    (hNeighbors : Neighbors edges nodes neighborsOf) :
    Computes edges seeds bound
      (let names :=
        explore discipline limit neighborsOf
          (nodes.length + seeds.length + 1)
          (Worklist.start seeds)
      if bound < names.length then none else some names) := by
  have hFuel :
      missing nodes (Worklist.start seeds).names
          + (Worklist.start seeds).pending.length
        < nodes.length + seeds.length + 1 := by
    have hLe :
        missing nodes (Worklist.start seeds).names
          ≤ nodes.length :=
      List.length_filter_le _ _
    have hSame :
        (Worklist.start seeds).pending.length
          = seeds.length := rfl
    omega
  have hExplored :=
    @explore_spec _ _ discipline limit edges seeds nodes
      neighborsOf hNeighbors _ _
      (explores_start edges seeds) hFuel
  rcases hExplored with ⟨hSound, hComplete⟩
  refine computes_of_set hSound ?_
  rcases hComplete with ⟨other, hOther, hLarge⟩ | hAll
  · rw [hLimit other hOther] at hLarge
    exact Or.inl hLarge
  · exact Or.inr hAll

end Components

end ArktsServer
