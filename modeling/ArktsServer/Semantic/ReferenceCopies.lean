import ArktsServer.Semantic.ReferenceResultCache

/-
  Copies of arrays of references: a copy reads like its
  original, it is made of new objects, and nothing that was
  there changes.

  Key definitions include:
    * `Agrees`, `Kept`
    * `Grown`, `Cloned`

  Correctness is proven by:
    * `readReferences_agrees`
    * `cloneReferences_spec`
-/

namespace ArktsServer

namespace ReferenceCache

open JsonText

----------
-- Heaps
----------

namespace Heap

variable {heap : Heap}

variable {address : Address}

theorem lt_next
    {cell : Cell}
    (hCell : heap.get address = some cell) :
    address < heap.next :=
  (List.getElem?_eq_some_iff.mp hCell).1

/- The new cell stands at the end, the others stay. -/
theorem get_alloc
    (heap : Heap)
    (cell : Cell)
    (address : Address) :
    (heap.alloc cell).1.get address =
      if address = heap.next then some cell
      else heap.get address := by
  change (heap.cells ++ [cell])[address]? = _
  rw [List.getElem?_append]
  split
  · rename_i hOld
    have hNe : address ≠ heap.next := Nat.ne_of_lt hOld
    rw [if_neg hNe]
    rfl
  · rename_i hNew
    by_cases hLast : address = heap.next
    · rw [if_pos hLast, hLast]
      change [cell][heap.cells.length - heap.cells.length]? = _
      rw [Nat.sub_self]
      rfl
    · rw [if_neg hLast]
      have hPast : heap.cells.length < address :=
        Nat.lt_of_le_of_ne (Nat.le_of_not_lt hNew) (Ne.symm hLast)
      change _ = heap.cells[address]?
      rw [List.getElem?_eq_none (by simp; omega),
        List.getElem?_eq_none (Nat.le_of_lt hPast)]

theorem next_alloc (heap : Heap) (cell : Cell) :
    (heap.alloc cell).1.next = heap.next + 1 := by
  change (heap.cells ++ [cell]).length = _
  rw [List.length_append]
  rfl

/- A write is seen at its own address only. -/
theorem get_write
    {address other : Address}
    {cell : Cell}
    (hOther : other ≠ address) :
    (heap.write address cell).get other = heap.get other := by
  change (heap.cells.set address cell)[other]? = _
  rw [List.getElem?_set_ne (Ne.symm hOther)]
  rfl

theorem next_write
    (heap : Heap)
    (address : Address)
    (cell : Cell) :
    (heap.write address cell).next = heap.next :=
  List.length_set

/- What was written is there, or there was nothing. -/
theorem get_write_self
    {cell found : Cell}
    (hFound :
      (heap.write address cell).get address = some found) :
    found = cell := by
  change (heap.cells.set address cell)[address]? = _ at hFound
  rw [List.getElem?_set_self'] at hFound
  rcases Option.map_eq_some_iff.mp hFound with ⟨_, _, hSame⟩
  exact hSame.symm

/- Each view of a heap names the cell that it reads. -/
theorem position_eq_some
    {position : TextPosition} :
    heap.position address = some position ↔
      heap.get address = some (.position position) := by
  unfold Heap.position
  split
  · rename_i found hFound
    rw [hFound]
    simp
  · rename_i hOther
    constructor
    · intro hNone
      cases hNone
    · intro hFound
      exact absurd hFound (hOther _)

theorem range_eq_some
    {address start stop : Address} :
    heap.range address = some (start, stop) ↔
      heap.get address = some (.range start stop) := by
  unfold Heap.range
  split
  · rename_i first last hFound
    rw [hFound]
    simp
  · rename_i hOther
    constructor
    · intro hNone
      cases hNone
    · intro hFound
      exact absurd hFound (hOther _ _)

theorem reference_eq_some
    {address extent : Address}
    {uri : Units} :
    heap.reference address = some (uri, extent) ↔
      heap.get address = some (.reference uri extent) := by
  unfold Heap.reference
  split
  · rename_i first last hFound
    rw [hFound]
    simp
  · rename_i hOther
    constructor
    · intro hNone
      cases hNone
    · intro hFound
      exact absurd hFound (hOther _ _)

theorem array_eq_some
    {items : List Address} :
    heap.array address = some items ↔
      heap.get address = some (.array items) := by
  unfold Heap.array
  split
  · rename_i found hFound
    rw [hFound]
    simp
  · rename_i hOther
    constructor
    · intro hNone
      cases hNone
    · intro hFound
      exact absurd hFound (hOther _)

end Heap

variable {address : Address}
variable {heap : Heap}

/- A reference is a tree of four cells. -/
theorem readReference_eq_some
    {reference : SemanticReference} :
    readReference heap address = some reference ↔
      ∃ extent start stop,
        heap.get address =
            some (.reference reference.uri extent) ∧
          heap.get extent = some (.range start stop) ∧
          heap.get start =
            some (.position reference.range.start) ∧
          heap.get stop =
            some (.position reference.range.stop) := by
  unfold readReference
  constructor
  · intro hRead
    rcases Option.bind_eq_some_iff.mp hRead with
      ⟨⟨uri, extent⟩, hReference, hRest⟩
    rcases Option.bind_eq_some_iff.mp hRest with
      ⟨⟨start, stop⟩, hRange, hMore⟩
    rcases Option.bind_eq_some_iff.mp hMore with
      ⟨first, hFirst, hLast⟩
    rcases Option.bind_eq_some_iff.mp hLast with
      ⟨last, hStop, hSame⟩
    injection hSame with hSame
    subst hSame
    exact
      ⟨extent, start, stop,
        Heap.reference_eq_some.mp hReference,
        Heap.range_eq_some.mp hRange,
        Heap.position_eq_some.mp hFirst,
        Heap.position_eq_some.mp hStop⟩
  · rintro ⟨extent, start, stop, hReference, hRange, hStart,
      hStop⟩
    rw [Heap.reference_eq_some.mpr hReference]
    simp only [Option.bind_eq_bind, Option.bind_some]
    rw [Heap.range_eq_some.mpr hRange]
    simp only [Option.bind_some]
    rw [Heap.position_eq_some.mpr hStart,
      Heap.position_eq_some.mpr hStop]
    rfl

variable {items : List Address}

/- An array is read item by item. -/
theorem readItems_cons
    {item : Address}
    {references : List SemanticReference} :
    readItems heap (item :: items) = some references ↔
      ∃ first rest,
        references = first :: rest ∧
          readReference heap item = some first ∧
          readItems heap items = some rest := by
  rw [readItems]
  constructor
  · intro hRead
    rcases Option.bind_eq_some_iff.mp hRead with
      ⟨first, hFirst, hMore⟩
    rcases Option.bind_eq_some_iff.mp hMore with
      ⟨rest, hRest, hSame⟩
    injection hSame with hSame
    exact ⟨first, rest, hSame.symm, hFirst, hRest⟩
  · rintro ⟨first, rest, rfl, hFirst, hRest⟩
    rw [hFirst, hRest]
    rfl

theorem readReferences_eq_some
    {references : List SemanticReference} :
    readReferences heap address = some references ↔
      ∃ items,
        heap.get address = some (.array items) ∧
          readItems heap items = some references := by
  unfold readReferences
  constructor
  · intro hRead
    rcases Option.bind_eq_some_iff.mp hRead with
      ⟨items, hArray, hItems⟩
    exact ⟨items, Heap.array_eq_some.mp hArray, hItems⟩
  · rintro ⟨items, hArray, hItems⟩
    rw [Heap.array_eq_some.mpr hArray]
    exact hItems

/- A closed region that is in the other heap, too. -/
structure Agrees
    (region : Address → Prop)
    (heap other : Heap) : Prop where
  same :
    ∀ address cell,
      region address → heap.get address = some cell →
        other.get address = some cell
  closed :
    ∀ address cell,
      region address → heap.get address = some cell →
        ∀ child ∈ cell.children, region child

variable {other : Heap}
variable {region : Address → Prop}

/- A region that is closed is read alike in both heaps. -/
theorem readReference_agrees
    (hAgrees : Agrees region heap other)
    {reference : SemanticReference}
    (hRegion : region address)
    (hRead : readReference heap address = some reference) :
    readReference other address = some reference := by
  rw [readReference_eq_some] at hRead ⊢
  rcases hRead with
    ⟨extent, start, stop, hReference, hRange, hStart, hStop⟩
  have hExtent : region extent :=
    hAgrees.closed _ _ hRegion hReference extent
      List.mem_cons_self
  have hEnds := hAgrees.closed _ _ hExtent hRange
  refine
    ⟨extent, start, stop,
      hAgrees.same _ _ hRegion hReference,
      hAgrees.same _ _ hExtent hRange,
      hAgrees.same _ _ (hEnds start List.mem_cons_self) hStart,
      hAgrees.same _ _ (hEnds stop ?_) hStop⟩
  exact List.mem_cons_of_mem _ List.mem_cons_self

variable {references : List SemanticReference}

theorem readItems_agrees
    (hAgrees : Agrees region heap other)
    (hRegion : ∀ item ∈ items, region item)
    (hRead : readItems heap items = some references) :
    readItems other items = some references := by
  induction items generalizing references with
  | nil => exact hRead
  | cons item items ih =>
    rw [List.forall_mem_cons] at hRegion
    rw [readItems_cons] at hRead ⊢
    rcases hRead with ⟨first, rest, rfl, hFirst, hRest⟩
    exact
      ⟨first, rest, rfl,
        readReference_agrees hAgrees hRegion.1 hFirst,
        ih hRegion.2 hRest⟩

theorem readReferences_agrees
    (hAgrees : Agrees region heap other)
    (hRegion : region address)
    (hRead : readReferences heap address = some references) :
    readReferences other address = some references := by
  rw [readReferences_eq_some] at hRead ⊢
  rcases hRead with ⟨items, hArray, hItems⟩
  exact
    ⟨items, hAgrees.same _ _ hRegion hArray,
      readItems_agrees hAgrees
        (hAgrees.closed _ _ hRegion hArray) hItems⟩

----------
-- Copies
----------

/- Whatever is in a heap is in the other heap, too. -/
def Kept (heap other : Heap) : Prop :=
  ∀ address cell,
    heap.get address = some cell →
      other.get address = some cell

theorem Kept.trans
    {first second third : Heap}
    (hFirst : Kept first second)
    (hSecond : Kept second third) :
    Kept first third :=
  fun address cell hCell =>
    hSecond address cell (hFirst address cell hCell)

theorem Kept.agrees
    (hKept : Kept heap other) :
    Agrees (fun _ => True) heap other :=
  ⟨fun address cell _ => hKept address cell,
    fun _ _ _ _ _ _ => trivial⟩

/- An allocation changes nothing that was there. -/
theorem kept_alloc (heap : Heap) (cell : Cell) :
    Kept heap (heap.alloc cell).1 := by
  intro address found hFound
  rw [Heap.get_alloc, if_neg (Nat.ne_of_lt (Heap.lt_next hFound))]
  exact hFound

/- A heap that has grown: new objects refer to new ones. -/
structure Grown (base heap : Heap) : Prop where
  kept : Kept base heap
  next : base.next ≤ heap.next
  fresh :
    ∀ address cell,
      base.next ≤ address → heap.get address = some cell →
        ∀ child ∈ cell.children,
          base.next ≤ child ∧ child < heap.next

theorem Grown.refl (heap : Heap) : Grown heap heap := by
  refine ⟨fun _ _ hCell => hCell, Nat.le_refl _, ?_⟩
  intro address cell hNew hCell
  exact absurd (Heap.lt_next hCell) (Nat.not_lt_of_le hNew)

/- A copy is new and all that was there is still there. -/
structure Cloned
    (base heap after : Heap)
    (copy : Address) : Prop where
  grown : Grown base after
  kept : Kept heap after
  new : base.next ≤ copy
  allocated : copy < after.next

variable {base heap : Heap}

theorem cloned_alloc
    {cell : Cell}
    (hGrown : Grown base heap)
    (hChildren :
      ∀ child ∈ cell.children,
        base.next ≤ child ∧ child < heap.next) :
    Cloned base heap (heap.alloc cell).1
      (heap.alloc cell).2 := by
  have hNext := Heap.next_alloc heap cell
  refine
    ⟨⟨hGrown.kept.trans (kept_alloc heap cell), ?_, ?_⟩,
      kept_alloc heap cell, hGrown.next, ?_⟩
  · rw [hNext]
    exact Nat.le_succ_of_le hGrown.next
  · intro address found hNew hFound child hChild
    rw [Heap.get_alloc] at hFound
    rw [hNext]
    split at hFound
    · injection hFound with hSame
      subst hSame
      have hBoth := hChildren child hChild
      exact ⟨hBoth.1, Nat.lt_succ_of_lt hBoth.2⟩
    · have hBoth :=
        hGrown.fresh address found hNew hFound child hChild
      exact ⟨hBoth.1, Nat.lt_succ_of_lt hBoth.2⟩
  · rw [hNext]
    exact Nat.lt_succ_self _

theorem get_alloc_self (heap : Heap) (cell : Cell) :
    (heap.alloc cell).1.get (heap.alloc cell).2 = some cell := by
  rw [Heap.get_alloc]
  exact if_pos rfl

theorem clonePosition_spec
    {position : TextPosition}
    (hGrown : Grown base heap)
    (hPosition :
      heap.get address = some (.position position)) :
    ∃ after copy,
      clonePosition heap address = some (after, copy) ∧
        Cloned base heap after copy ∧
        after.get copy = some (.position position) := by
  refine
    ⟨_, _, ?_,
      @cloned_alloc _ _ (.position position) hGrown ?_,
      get_alloc_self heap _⟩
  · unfold clonePosition
    rw [Heap.position_eq_some.mpr hPosition]
    rfl
  · intro child hChild
    cases hChild

/- The copy of a reference is a tree of new cells. -/
theorem cloneReference_spec
    {reference : SemanticReference}
    (hGrown : Grown base heap)
    (hRead : readReference heap address = some reference) :
    ∃ after copy,
      cloneReference heap address = some (after, copy) ∧
        Cloned base heap after copy ∧
        readReference after copy = some reference := by
  rcases readReference_eq_some.mp hRead with
    ⟨extent, start, stop, hReference, hRange, hStart, hStop⟩
  rcases clonePosition_spec hGrown hStart with
    ⟨first, newStart, hFirst, hStartCloned, hNewStart⟩
  rcases
      clonePosition_spec hStartCloned.grown
        (hStartCloned.kept _ _ hStop)
    with ⟨second, newStop, hSecond, hStopCloned, hNewStop⟩
  have hRangeCloned :=
    @cloned_alloc base second (.range newStart newStop)
      hStopCloned.grown (by
        intro child hChild
        rcases List.mem_cons.mp hChild with rfl | hLast
        · exact
            ⟨hStartCloned.new,
              Heap.lt_next (hStopCloned.kept _ _ hNewStart)⟩
        · rw [List.mem_singleton.mp hLast]
          exact ⟨hStopCloned.new, hStopCloned.allocated⟩)
  have hCloned :=
    @cloned_alloc base
      (second.alloc (.range newStart newStop)).1
      (.reference reference.uri
        (second.alloc (.range newStart newStop)).2)
      hRangeCloned.grown (by
        intro child hChild
        rw [List.mem_singleton.mp hChild]
        exact ⟨hRangeCloned.new, hRangeCloned.allocated⟩)
  refine
    ⟨_, _, ?_,
      ⟨hCloned.grown, ?_, hCloned.new, hCloned.allocated⟩, ?_⟩
  · unfold cloneReference
    rw [Heap.reference_eq_some.mpr hReference]
    simp only [Option.bind_eq_bind, Option.bind_some]
    rw [Heap.range_eq_some.mpr hRange]
    simp only [Option.bind_some]
    rw [hFirst]
    simp only [Option.bind_some]
    rw [hSecond]
    rfl
  · exact
      ((hStartCloned.kept.trans hStopCloned.kept).trans
        hRangeCloned.kept).trans hCloned.kept
  · refine
      readReference_eq_some.mpr
        ⟨_, newStart, newStop, get_alloc_self _ _,
          hCloned.kept _ _ (get_alloc_self second _), ?_, ?_⟩
    · exact
        hCloned.kept _ _
          (hRangeCloned.kept _ _ (hStopCloned.kept _ _ hNewStart))
    · exact hCloned.kept _ _ (hRangeCloned.kept _ _ hNewStop)

/- By induction on the items, each copied behind the last. -/
theorem cloneItems_spec
    (hGrown : Grown base heap)
    (hRead : readItems heap items = some references) :
    ∃ after copies,
      cloneItems heap items = some (after, copies) ∧
        Grown base after ∧ Kept heap after ∧
        (∀ copy ∈ copies,
          base.next ≤ copy ∧ copy < after.next) ∧
        readItems after copies = some references := by
  induction items generalizing heap references with
  | nil =>
    refine
      ⟨heap, [], rfl, hGrown, fun _ _ hCell => hCell, ?_, hRead⟩
    intro copy hCopy
    cases hCopy
  | cons item items ih =>
    rcases readItems_cons.mp hRead with
      ⟨first, rest, rfl, hFirst, hRest⟩
    rcases cloneReference_spec hGrown hFirst with
      ⟨middle, copy, hCopy, hCloned, hCopied⟩
    have hStill :=
      readItems_agrees hCloned.kept.agrees
        (fun _ _ => trivial) hRest
    rcases ih hCloned.grown hStill with
      ⟨after, copies, hCopies, hAfter, hKept, hNew, hAll⟩
    refine
      ⟨after, copy :: copies, ?_, hAfter,
        hCloned.kept.trans hKept, ?_, ?_⟩
    · rw [cloneItems, hCopy]
      simp only [Option.bind_eq_bind, Option.bind_some]
      rw [hCopies]
      rfl
    · refine List.forall_mem_cons.mpr ⟨⟨hCloned.new, ?_⟩, hNew⟩
      rcases readReference_eq_some.mp hCopied with
        ⟨_, _, _, hThere, _⟩
      exact Heap.lt_next (hKept _ _ hThere)
    · exact
        readItems_cons.mpr
          ⟨first, rest, rfl,
            readReference_agrees hKept.agrees trivial hCopied,
            hAll⟩

/- A copy reads like the original and shares nothing. -/
theorem cloneReferences_spec
    (hRead : readReferences heap address = some references) :
    ∃ after copy,
      cloneReferences heap address = some (after, copy) ∧
        Cloned heap heap after copy ∧
        readReferences after copy = some references := by
  rcases readReferences_eq_some.mp hRead with
    ⟨items, hArray, hItems⟩
  rcases cloneItems_spec (Grown.refl heap) hItems with
    ⟨middle, copies, hCopies, hGrown, hKept, hNew, hAll⟩
  have hCloned :=
    @cloned_alloc heap middle (.array copies) hGrown hNew
  refine
    ⟨_, _, ?_,
      ⟨hCloned.grown, hKept.trans hCloned.kept, hCloned.new,
        hCloned.allocated⟩, ?_⟩
  · unfold cloneReferences
    rw [Heap.array_eq_some.mpr hArray]
    simp only [Option.bind_eq_bind, Option.bind_some]
    rw [hCopies]
    rfl
  · exact
      readReferences_eq_some.mpr
        ⟨copies, get_alloc_self _ _,
          readItems_agrees hCloned.kept.agrees
            (fun _ _ => trivial) hAll⟩

end ReferenceCache

end ArktsServer
