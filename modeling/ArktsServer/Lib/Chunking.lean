import Mathlib.Data.List.Basic
import Mathlib.Tactic.Common

/-
  Loops that hand a list to a fallible operation piece by
  piece: in consecutive chunks, or through a buffer that is
  flushed whenever it is full.  How the list is cut does not
  matter to an operation that is additive, and a relation
  that composes over consecutive pieces holds of the whole
  loop.

  Main declarations:
    * `bind_eq_ok`, `pure_eq_ok`
    * `Additive`, `additive_foldlM`, `additive_map`,
      `additive_zipIdx`
    * `ChunkSize`, `ChunkSize.greedy`, `chunkLoop`
    * `buffered`, `flushRest`
    * `chunkLoop_of_additive`, `buffered_of_additive`
    * `Compositional`, `chunkLoop_spec`, `chunkLoop_total`
-/

----------
-- Fallible Steps
----------

namespace ArktsServer

namespace Chunking

variable {α β σ ε : Type}

/- A sequence succeeds when each of its steps does. -/
theorem bind_eq_ok
    {first : Except ε α}
    {next : α → Except ε β}
    {result : β} :
    (first >>= next) = Except.ok result ↔
      ∃ value,
        first = Except.ok value ∧
          next value = Except.ok result := by
  cases first with
  | error failure =>
    constructor
    · intro hBind
      cases hBind
    · rintro ⟨value, hFirst, _⟩
      cases hFirst
  | ok value =>
    constructor
    · exact fun hBind => ⟨value, rfl, hBind⟩
    · rintro ⟨other, hFirst, hNext⟩
      injection hFirst with hValue
      rw [hValue]
      exact hNext

theorem pure_eq_ok
    {value result : α} :
    (pure value : Except ε α) = Except.ok result ↔
      value = result := by
  constructor
  · intro hPure
    injection hPure
  · intro hValue
    rw [hValue]
    rfl

----------
-- Additive Operations
----------

/-
  Processing a list is processing its parts in order, each
  at its own offset.
-/
structure Additive
    (process : Nat → List α → σ → Except ε σ) : Prop where
  nil :
    ∀ offset state,
      process offset [] state = Except.ok state
  append :
    ∀ offset first second state,
      process offset (first ++ second) state =
        process offset first state >>=
          process (offset + first.length) second

theorem additive_foldlM
    (step : σ → α → Except ε σ) :
    Additive fun _ items state =>
      items.foldlM step state where
  nil := fun _ _ => rfl
  append := fun _ _ _ _ => List.foldlM_append

variable {process : List β → σ → Except ε σ}

/- Process what the items become. -/
theorem additive_map
    (hProcess : Additive fun _ => process)
    (item : α → β) :
    Additive fun _ items => process (items.map item) where
  nil := fun offset state => hProcess.nil offset state
  append := by
    intro offset first second state
    rw [List.map_append]
    exact hProcess.append offset _ _ state

/- Number the items, then process what they become. -/
theorem additive_zipIdx
    (hProcess : Additive fun _ => process)
    (item : α × Nat → β) :
    Additive fun offset items =>
      process ((items.zipIdx offset).map item) where
  nil := fun offset state => hProcess.nil offset state
  append := by
    intro offset first second state
    rw [List.zipIdx_append, List.map_append]
    exact hProcess.append offset _ _ state

----------
-- Chunks
----------

/-
  How many items the next chunk takes; never none while
  items remain.
-/
structure ChunkSize (α : Type) where
  size : List α → Nat
  pos : ∀ item rest, 0 < size (item :: rest)

/- Chunks of one size. -/
def ChunkSize.const
    (count : Nat)
    (hCount : 0 < count) : ChunkSize α where
  size := fun _ => count
  pos := fun _ _ => hCount

variable {load : Type}

/-
  Take items while there is room: never more than `maxItems`,
  and beyond the first none that would overfill the chunk.
-/
def greedyTaken
    (maxItems : Nat)
    (overfills : load → α → Bool)
    (add : load → α → load) :
    Nat → load → List α → Nat
| taken, _, [] => taken
| taken, current, item :: rest =>
    if taken < maxItems then
      if 0 < taken && overfills current item then
        taken
      else
        greedyTaken maxItems overfills add (taken + 1)
          (add current item) rest
    else
      taken

theorem le_greedyTaken
    (maxItems : Nat)
    (overfills : load → α → Bool)
    (add : load → α → load)
    (taken : Nat)
    (current : load)
    (items : List α) :
    taken ≤
      greedyTaken maxItems overfills add taken current
        items := by
  induction items generalizing taken current with
  | nil => exact Nat.le_refl taken
  | cons item rest ih =>
    unfold greedyTaken
    split
    · split
      · exact Nat.le_refl taken
      · have hMore := ih (taken + 1) (add current item)
        omega
    · exact Nat.le_refl taken

def ChunkSize.greedy
    (maxItems : Nat)
    (hItems : 0 < maxItems)
    (overfills : load → α → Bool)
    (add : load → α → load)
    (start : load) : ChunkSize α where
  size := greedyTaken maxItems overfills add 0 start
  pos := by
    intro item rest
    have hFirst :
        greedyTaken maxItems overfills add 0 start
            (item :: rest) =
          greedyTaken maxItems overfills add 1
            (add start item) rest := by
      rw [greedyTaken, if_pos hItems]
      rfl
    have hMore :=
      le_greedyTaken maxItems overfills add 1
        (add start item) rest
    rw [hFirst]
    omega

/- Process consecutive chunks, each with its offset. -/
def chunkLoop
    (chunk : ChunkSize α)
    (process : Nat → List α → σ → Except ε σ) :
    Nat → List α → σ → Except ε σ
| _, [], state => Except.ok state
| offset, item :: rest, state =>
    let taken :=
      (item :: rest).take (chunk.size (item :: rest))
    process offset taken state >>= fun state' =>
      chunkLoop chunk process (offset + taken.length)
        ((item :: rest).drop (chunk.size (item :: rest)))
        state'
termination_by _ items _ => items.length
decreasing_by
  have hPos := chunk.pos item rest
  simp only [List.length_drop, List.length_cons]
  omega

@[simp] theorem chunkLoop_nil
    (chunk : ChunkSize α)
    (process : Nat → List α → σ → Except ε σ)
    (offset : Nat)
    (state : σ) :
    chunkLoop chunk process offset [] state =
      Except.ok state := by
  rw [chunkLoop]

theorem chunkLoop_cons
    (chunk : ChunkSize α)
    (process : Nat → List α → σ → Except ε σ)
    (offset : Nat)
    (item : α)
    (rest : List α)
    (state : σ) :
    chunkLoop chunk process offset (item :: rest) state =
      process offset
          ((item :: rest).take
            (chunk.size (item :: rest))) state >>=
        fun state' =>
          chunkLoop chunk process
            (offset +
              ((item :: rest).take
                (chunk.size (item :: rest))).length)
            ((item :: rest).drop
              (chunk.size (item :: rest))) state' := by
  rw [chunkLoop]

/-
  Induction over the rounds of a chunk loop: a property of
  the remaining items follows from that of the items after
  the next chunk.
-/
theorem chunk_induction
    (chunk : ChunkSize α)
    {P : List α → Prop}
    (hNil : P [])
    (hChunk :
      ∀ item rest,
        P ((item :: rest).drop
            (chunk.size (item :: rest))) →
          P (item :: rest))
    (items : List α) :
    P items := by
  induction hLength : items.length using
    Nat.strongRecOn generalizing items with
  | ind length ih =>
    cases items with
    | nil => exact hNil
    | cons item rest =>
      refine hChunk item rest (ih _ ?_ _ rfl)
      have hPos := chunk.pos item rest
      simp only [List.length_drop]
      simp only [List.length_cons] at hLength ⊢
      omega

variable {process : Nat → List α → σ → Except ε σ}

/- An additive operation does not notice the chunks. -/
theorem chunkLoop_of_additive
    (hProcess : Additive process)
    (chunk : ChunkSize α)
    (offset : Nat)
    (items : List α)
    (state : σ) :
    chunkLoop chunk process offset items state =
      process offset items state := by
  induction items using chunk_induction chunk generalizing
    offset state with
  | hNil => rw [chunkLoop_nil, hProcess.nil]
  | hChunk item rest ih =>
    rw [chunkLoop_cons]
    have hSplit :=
      hProcess.append offset
        ((item :: rest).take (chunk.size (item :: rest)))
        ((item :: rest).drop (chunk.size (item :: rest)))
        state
    rw [List.take_append_drop] at hSplit
    rw [hSplit]
    exact bind_congr fun state' => ih _ state'

----------
-- Relations over Chunks
----------

/- A relation between the states around a piece. -/
structure Compositional
    (Spec : Nat → List α → σ → σ → Prop) : Prop where
  nil : ∀ offset state, Spec offset [] state state
  append :
    ∀ {offset first second state state' state''},
      Spec offset first state state' →
        Spec (offset + first.length) second state' state'' →
        Spec offset (first ++ second) state state''

variable {offset : Nat}
variable {items : List α}

theorem chunkLoop_spec
    {Spec : Nat → List α → σ → σ → Prop}
    (hSpec : Compositional Spec)
    (chunk : ChunkSize α)
    (hProcess :
      ∀ offset piece state state',
        process offset piece state = Except.ok state' →
          Spec offset piece state state')
    {state state' : σ}
    (hLoop :
      chunkLoop chunk process offset items state =
        Except.ok state') :
    Spec offset items state state' := by
  induction items using chunk_induction chunk generalizing
    offset state with
  | hNil =>
    rw [chunkLoop_nil] at hLoop
    injection hLoop with hState
    rw [← hState]
    exact hSpec.nil offset state
  | hChunk item rest ih =>
    rw [chunkLoop_cons] at hLoop
    rcases bind_eq_ok.mp hLoop with ⟨middle, hStep, hRest⟩
    have hWhole :=
      hSpec.append (hProcess _ _ _ _ hStep) (ih hRest)
    rwa [List.take_append_drop] at hWhole

theorem chunkLoop_total
    (Ready : Nat → List α → σ → Prop)
    (chunk : ChunkSize α)
    (hProcess :
      ∀ offset first second state,
        Ready offset (first ++ second) state →
          ∃ state',
            process offset first state =
                Except.ok state' ∧
              Ready (offset + first.length) second state')
    {state : σ}
    (hReady : Ready offset items state) :
    ∃ state',
      chunkLoop chunk process offset items state =
        Except.ok state' := by
  induction items using chunk_induction chunk generalizing
    offset state with
  | hNil => exact ⟨state, chunkLoop_nil ..⟩
  | hChunk item rest ih =>
    have hParts :
        Ready offset
          ((item :: rest).take
              (chunk.size (item :: rest)) ++
            (item :: rest).drop
              (chunk.size (item :: rest))) state := by
      rw [List.take_append_drop]
      exact hReady
    rcases hProcess _ _ _ _ hParts with
      ⟨middle, hStep, hRest⟩
    rcases ih hRest with ⟨last, hLast⟩
    refine ⟨last, ?_⟩
    rw [chunkLoop_cons, hStep]
    exact hLast

----------
-- Buffers
----------

/-
  Push items into a buffer, flushing it when it holds
  `capacity` items.  What is left over stays pending.
-/
def buffered
    (capacity : Nat)
    (flush : List α → σ → Except ε σ) :
    List α → List α → σ → Except ε (List α × σ)
| pending, [], state => Except.ok (pending, state)
| pending, item :: items, state =>
    if pending.length + 1 = capacity then
      flush (pending ++ [item]) state >>=
        buffered capacity flush [] items
    else
      buffered capacity flush (pending ++ [item]) items state

/- Flush what is left over, if anything is. -/
def flushRest
    (flush : List α → σ → Except ε σ)
    (rest : List α × σ) : Except ε σ :=
  if rest.1.isEmpty then
    Except.ok rest.2
  else
    flush rest.1 rest.2

variable {flush : List α → σ → Except ε σ}

theorem flushRest_eq
    (hFlush : Additive fun _ => flush)
    (rest : List α × σ) :
    flushRest flush rest = flush rest.1 rest.2 := by
  unfold flushRest
  split
  · rename_i hEmpty
    rw [List.isEmpty_iff.mp hEmpty]
    exact (hFlush.nil 0 rest.2).symm
  · rfl

theorem flush_of_buffered
    (hFlush : Additive fun _ => flush)
    {capacity : Nat}
    {pending items pending' : List α}
    {state state' : σ}
    (hBuffered :
      buffered capacity flush pending items state =
        Except.ok (pending', state')) :
    flush (pending ++ items) state = flush pending' state' := by
  induction items generalizing pending state with
  | nil =>
    rw [buffered] at hBuffered
    injection hBuffered with hPair
    injection hPair with hPending hState
    rw [List.append_nil, hPending, hState]
  | cons item items ih =>
    have hAssoc :
        pending ++ item :: items =
          (pending ++ [item]) ++ items := by
      simp
    rw [buffered] at hBuffered
    rw [hAssoc]
    split at hBuffered
    · rcases bind_eq_ok.mp hBuffered with
        ⟨middle, hFull, hRest⟩
      rw [hFlush.append 0 (pending ++ [item]) items state, hFull]
      have hItems := ih hRest
      rw [List.nil_append] at hItems
      exact hItems
    · exact ih hBuffered

/- Flushing the rest writes every item once and in order. -/
theorem buffered_of_additive
    (hFlush : Additive fun _ => flush)
    (capacity : Nat)
    (pending items : List α)
    (state : σ) :
    (buffered capacity flush pending items state >>=
        flushRest flush) =
      flush (pending ++ items) state := by
  induction items generalizing pending state with
  | nil =>
    rw [buffered, List.append_nil]
    exact flushRest_eq hFlush (pending, state)
  | cons item items ih =>
    have hAssoc :
        pending ++ item :: items =
          (pending ++ [item]) ++ items := by
      simp
    rw [buffered, hAssoc]
    split
    · rw [hFlush.append 0 (pending ++ [item]) items state]
      cases flush (pending ++ [item]) state with
      | error failure => rfl
      | ok state' =>
        have hRest := ih [] state'
        rw [List.nil_append] at hRest
        exact hRest
    · exact ih (pending ++ [item]) state

end Chunking

end ArktsServer
