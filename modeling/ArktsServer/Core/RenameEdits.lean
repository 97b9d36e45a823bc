import ArktsServer.Core.TypeScriptRenameQuery
import ArktsServer.Lib.SortedChains

/-
  When the published edits of a rename are disjoint.  A sort
  that keeps the edits of a file together lets neighbours tell
  for all edits; where other paths collate alike, the edits of
  another file may come between two that overlap.

  Key definitions include:
    * `Meets`, `Inside`, `Located`
    * `Clash`, `Disjoint`
    * `Neighbours`, `Interleaved`

  Correctness is proven by:
    * `collectEdits_located`, `publishEdits_eq`
    * `rename_edits_disjoint_iff`
-/

namespace ArktsServer

namespace RenameQuery

open UnixPath References ReferenceQuery

----------
-- Contracts
----------

section Contracts

variable {α β : Type}

/- What a query returns, if it has no edits as its result. -/
def Meets (query : Query α) (after : α → Prop) : Prop :=
  ∀ work,
    (∀ value last,
      query work = .ok (value, last) → after value) ∧
      ∀ edits,
        query work ≠ .error (.finished (.complete edits))

theorem bind_eq
    (query : Query α)
    (rest : α → Query β)
    (work : Work) :
    (query >>= rest) work =
      match query work with
      | .ok (value, last) => rest value last
      | .error stop => .error stop := by
  change Except.bind (query work) _ = _
  cases query work with
  | ok result => rfl
  | error stop => rfl

variable {after : α → Prop}

theorem meets_pure
    {value : α}
    (hAfter : after value) :
    Meets (pure value) after := by
  intro work
  refine ⟨?_, fun edits hNever => by cases hNever⟩
  intro other last hSame
  cases hSame
  exact hAfter

theorem meets_ask
    (answer : Nat → α) :
    Meets (ask answer) fun value =>
      ∃ call, answer call = value := by
  intro work
  refine ⟨?_, fun edits hNever => by cases hNever⟩
  intro other last hSame
  cases hSame
  exact ⟨work.clock, rfl⟩

theorem meets_bind
    {query : Query α}
    {rest : α → Query β}
    {middle : α → Prop}
    {after : β → Prop}
    (hQuery : Meets query middle)
    (hRest : ∀ value, middle value → Meets (rest value) after) :
    Meets (query >>= rest) after := by
  intro work
  rw [bind_eq]
  rcases hQuery work with ⟨hMiddle, hNever⟩
  cases hRun : query work with
  | ok result =>
    exact hRest result.1 (hMiddle _ result.2 hRun) result.2
  | error stop =>
    refine ⟨(fun _ _ hOk => by cases hOk), ?_⟩
    intro edits hSame
    rw [hRun] at hNever
    exact
      hNever edits
        (congrArg Except.error (Except.error.inj hSame))

theorem meets_throw
    {stop : Stop}
    (hStop : ∀ edits, stop ≠ .finished (.complete edits)) :
    Meets (throw stop) after := by
  intro work
  refine ⟨(fun _ _ hNever => by cases hNever), ?_⟩
  intro edits hSame
  exact hStop edits (Except.error.inj hSame)

variable (port : RenameQueryPort)

theorem meets_boundary :
    Meets (boundary port) fun _ => True := by
  intro work
  refine ⟨fun _ _ _ => trivial, ?_⟩
  unfold boundary
  split
  · exact fun edits hNever => by cases hNever
  · exact fun edits hNever => by cases hNever

theorem meets_item :
    Meets (item port) fun _ => True := by
  intro work
  refine ⟨fun _ _ _ => trivial, ?_⟩
  unfold item
  split
  · exact fun edits hNever => by cases hNever
  · exact (meets_boundary port work).2

theorem meets_times
    {action : Query Unit}
    (hAction : Meets action fun _ => True)
    (count : Nat) :
    Meets (times action count) fun _ => True := by
  induction count with
  | zero => exact meets_pure trivial
  | succ count ih => exact meets_bind hAction fun _ _ => ih

theorem meets_finishWork
    {result : SemanticRenameQueryResult}
    (hResult : ∀ edits, result ≠ .complete edits) :
    Meets (finishWork port result) after := by
  refine meets_bind (meets_boundary port) fun _ _ => ?_
  refine meets_throw fun edits hSame => hResult edits ?_
  exact Stop.finished.inj hSame

theorem meets_checkInputs :
    Meets (checkInputs port) fun _ => True := by
  refine meets_bind (meets_ask _) fun current _ => ?_
  refine
    meets_bind
      (meets_times (meets_boundary port) current.1)
      fun _ _ => ?_
  split
  · exact meets_pure trivial
  · exact meets_throw fun edits hNever => by cases hNever

theorem meets_finish
    {result : SemanticRenameQueryResult}
    (hResult : ∀ edits, result ≠ .complete edits) :
    Meets (finish port result) after :=
  meets_bind (meets_checkInputs port) fun _ _ =>
    meets_finishWork port hResult

theorem meets_checkMembership :
    Meets (checkMembership port) fun _ => True := by
  refine meets_bind (meets_ask _) fun failure _ => ?_
  split
  · exact meets_finish port fun edits hNever => by cases hNever
  · exact meets_pure trivial

theorem meets_startMembership :
    Meets (startMembership port) fun _ => True := by
  refine meets_bind (meets_ask _) fun failure _ => ?_
  split
  · exact
      meets_finishWork port fun edits hNever => by cases hNever
  · exact meets_pure trivial

end Contracts

----------
-- Places
----------

/- A range from one offset of a text to a later one. -/
def Inside
    (text : CodeText)
    (range : SemanticTextRange) : Prop :=
  ∃ start stop : Nat,
    start < stop ∧ stop ≤ text.length ∧
      (range.startLine, range.startColumn) =
        (offsetToLineColumn text start).place ∧
      (range.endLine, range.endColumn) =
        (offsetToLineColumn text stop).place

theorem inside_of_exact
    {text : CodeText}
    {span : TextSpan}
    {range : SemanticTextRange}
    (hRange :
      exactSourceRange (viewOfText text) span = some range) :
    Inside text range := by
  unfold exactSourceRange viewOfText at hRange
  simp only at hRange
  split at hRange
  · cases hRange
  · rename_i hBounds
    split at hRange
    · cases hRange
    · simp only [Bool.or_eq_true, Bool.not_eq_true',
        decide_eq_true_eq, not_or] at hBounds
      have hSame := Option.some.inj hRange
      refine
        ⟨boundedOffset text span.start,
          boundedOffset text (span.start + span.length), ?_, ?_,
          ?_, ?_⟩
      · unfold boundedOffset
        omega
      · unfold boundedOffset
        omega
      · rw [← hSame]
        rfl
      · rw [← hSame]
        rfl

/- What the loop keeps. -/
structure Kept
    (port : RenameQueryPort)
    (collected : Collected) : Prop where
  views :
    ∀ path view,
      collected.sourceViews.get path = some view →
        ∃ call text,
          port.sourceView call path = some text ∧
            view = viewOfText text
  placed :
    ∀ edit ∈ collected.edits,
      ∃ text,
        collected.sourceViews.get edit.path =
            some (viewOfText text) ∧
          Inside text edit.range
  keys :
    collected.edits.map (fun edit =>
        semanticLocationKey edit.path edit.range) =
      collected.seen
  distinct : collected.seen.Nodup

/- The edits of a file are places of one text of it. -/
structure Located
    (port : RenameQueryPort)
    (edits : List Edit) : Prop where
  placed :
    ∃ textOf : FilePath → CodeText,
      ∀ edit ∈ edits,
        (∃ call,
          port.sourceView call edit.path =
            some (textOf edit.path)) ∧
          Inside (textOf edit.path) edit.range
  distinct :
    edits.Pairwise fun first second =>
      first.path = second.path → first.range ≠ second.range

theorem Kept.located
    {port : RenameQueryPort}
    {collected : Collected}
    (hKept : Kept port collected) :
    Located port collected.edits := by
  refine
    ⟨⟨fun path =>
        ((collected.sourceViews.get path).map
          (·.content)).getD [], ?_⟩, ?_⟩
  · intro edit hEdit
    rcases hKept.placed edit hEdit with ⟨text, hView, hInside⟩
    rcases hKept.views _ _ hView with
      ⟨call, other, hCall, hSame⟩
    have hText : text = other :=
      congrArg ReferenceSourceView.content hSame
    simp only [hView]
    exact ⟨⟨call, hText ▸ hCall⟩, hInside⟩
  · have hKeys := hKept.distinct
    rw [← hKept.keys] at hKeys
    refine (List.pairwise_map.mp hKeys).imp ?_
    intro first second hKey hPath hRange
    exact hKey (by rw [hPath, hRange])

theorem visitLocation_kept
    (port : RenameQueryPort)
    (newName : CodeText)
    {collected : Collected}
    (hKept : Kept port collected)
    (location : RenameLocation) :
    Meets (visitLocation port newName collected location)
      (Kept port) := by
  have hOver : ∀ (α : Type) (reason : FailureReason)
      (after : α → Prop),
      Meets (finish port (.incomplete reason)) after :=
    fun _ _ _ =>
      meets_finish port fun edits hNever => by cases hNever
  unfold visitLocation
  refine meets_bind (meets_item port) fun _ _ => ?_
  split
  · exact hOver _ _ _
  · have hView :
        Meets
          (viewOf port (resolve port.cwd location.fileName)
            collected)
          fun found =>
            Kept port found.1 ∧
              ∃ text,
                found.2 = viewOfText text ∧
                  found.1.sourceViews.get
                      (resolve port.cwd location.fileName) =
                    some found.2 := by
      unfold viewOf
      split
      · rename_i view hGet
        rcases hKept.views _ _ hGet with ⟨_, text, _, hText⟩
        exact meets_pure ⟨hKept, text, hText, hGet⟩
      · rename_i hNone
        refine meets_bind (meets_ask _) fun answer hAnswer => ?_
        rcases hAnswer with ⟨call, hCall⟩
        split
        · exact hOver _ _ _
        · rename_i text
          refine meets_pure ⟨⟨?_, ?_, hKept.keys,
            hKept.distinct⟩, text, rfl, ?_⟩
          · intro path view hGet
            rw [OrderedMap.get_set] at hGet
            split at hGet
            · rename_i hSame
              rw [hSame]
              exact
                ⟨call, text, hCall, (Option.some.inj hGet).symm⟩
            · exact hKept.views path view hGet
          · intro edit hEdit
            rcases hKept.placed edit hEdit with
              ⟨other, hGet, hInside⟩
            refine ⟨other, ?_, hInside⟩
            rw [OrderedMap.get_set]
            split
            · rename_i hSame
              rw [hSame, hNone] at hGet
              cases hGet
            · exact hGet
          · rw [OrderedMap.get_set, if_pos rfl]
    refine meets_bind hView fun found hFound => ?_
    rcases hFound with ⟨hNext, text, hText, hGet⟩
    rcases found with ⟨next, view⟩
    simp only at hNext hText hGet ⊢
    split
    · exact hOver _ _ _
    · rename_i range hRange
      split
      · exact meets_pure hNext
      · rename_i hNew
        refine meets_bind (meets_ask _) fun _ _ => ?_
        rw [hText] at hRange hGet
        refine meets_pure ⟨hNext.views, ?_, ?_, ?_⟩
        · intro edit hEdit
          rcases List.mem_append.mp hEdit with hOld | hLast
          · exact hNext.placed edit hOld
          · rw [List.mem_singleton.mp hLast]
            exact ⟨text, hGet, inside_of_exact hRange⟩
        · simp only [List.map_append, List.map_cons,
            List.map_nil, hNext.keys]
        · refine
            List.nodup_append.mpr
              ⟨hNext.distinct, List.nodup_singleton _, ?_⟩
          intro key hKey other hOther
          rw [List.mem_singleton.mp hOther]
          rintro rfl
          exact hNew (List.contains_iff_mem.mpr hKey)

theorem collectEdits_located
    (port : RenameQueryPort)
    (position : DocumentPosition)
    (newName : CodeText) :
    Meets (collectEdits port position newName)
      (Located port) := by
  have hLoop : ∀ (locations : List RenameLocation)
      (collected : Collected),
      Kept port collected →
        Meets
          (locations.foldlM (visitLocation port newName)
            collected)
          (Kept port) := by
    intro locations
    induction locations with
    | nil => exact fun _ hKept => meets_pure hKept
    | cons location locations ih =>
      intro collected hKept
      rw [List.foldlM_cons]
      exact
        meets_bind
          (visitLocation_kept port newName hKept location)
          fun next hNext => ih next hNext
  have hOver : ∀ (α : Type)
      (result : SemanticRenameQueryResult) (after : α → Prop),
      (∀ edits, result ≠ .complete edits) →
        Meets (finish port result) after :=
    fun _ _ _ hResult => meets_finish port hResult
  unfold collectEdits
  refine meets_bind (meets_boundary port) fun _ _ => ?_
  refine meets_bind (meets_startMembership port) fun _ _ => ?_
  refine meets_bind (meets_ask _) fun _ _ => ?_
  split
  · exact
      meets_finishWork port fun edits hNever => by cases hNever
  · split
    · exact
        meets_finishWork port fun edits hNever => by cases hNever
    · refine meets_bind (meets_boundary port) fun _ _ => ?_
      refine meets_bind (meets_ask _) fun _ _ => ?_
      refine meets_bind (meets_boundary port) fun _ _ => ?_
      refine meets_bind (meets_checkMembership port) fun _ _ => ?_
      split
      · exact hOver _ _ _ fun edits hNever => by cases hNever
      · refine meets_bind (meets_boundary port) fun _ _ => ?_
        refine meets_bind (meets_ask _) fun _ _ => ?_
        refine meets_bind (meets_boundary port) fun _ _ => ?_
        refine meets_bind (meets_checkMembership port) fun _ _ => ?_
        split
        · exact hOver _ _ _ fun edits hNever => by cases hNever
        · refine meets_bind (meets_boundary port) fun _ _ => ?_
          refine meets_bind (meets_ask _) fun _ _ => ?_
          refine meets_bind (meets_boundary port) fun _ _ => ?_
          refine
            meets_bind (meets_checkMembership port) fun _ _ => ?_
          split
          · exact hOver _ _ _ fun edits hNever => by cases hNever
          · refine
              meets_bind (hLoop _ _ ⟨?_, ?_, rfl, ?_⟩)
                fun collected hKept => ?_
            · intro path view hNever
              cases hNever
            · exact fun _ hNever => absurd hNever List.not_mem_nil
            · exact List.nodup_nil
            · exact meets_pure hKept.located

----------
-- The Order of Edits
----------

section Order

variable {Collation : Type} [LinearOrder Collation]
variable (collate : FilePath → Collation)

/- Path, start and end. -/
def editKey
    (edit : Edit) :
    Collation ×ₗ Nat ×ₗ Nat ×ₗ Nat ×ₗ Nat :=
  toLex
    (collate edit.path,
      toLex
        (edit.range.startLine,
          toLex
            (edit.range.startColumn,
              toLex
                (edit.range.endLine, edit.range.endColumn))))

theorem compareTextEdits_cases (left right : Edit) :
    editKey collate left < editKey collate right ∧
        compareTextEdits collate left right < 0 ∨
      editKey collate left = editKey collate right ∧
        compareTextEdits collate left right = 0 ∨
      editKey collate right < editKey collate left ∧
        0 < compareTextEdits collate left right := by
  unfold compareTextEdits localeCompare editKey
  simp only [Prod.Lex.toLex_lt_toLex, toLex_inj, Prod.mk.injEq]
  rcases lt_trichotomy (collate left.path)
      (collate right.path) with hLess | hSame | hMore
  · simp [hLess]
  · simp only [hSame, lt_self_iff_false, ↓reduceIte,
      ne_eq, not_true_eq_false, false_or, true_and]
    split
    · omega
    · split
      · omega
      · split
        · omega
        · omega
  · simp [hMore, lt_asymm hMore, ne_of_gt hMore]

theorem compareTextEdits_le_iff {left right : Edit} :
    compareTextEdits collate left right ≤ 0 ↔
      editKey collate left ≤ editKey collate right := by
  rcases compareTextEdits_cases collate left right with
    ⟨hKey, hCompare⟩ | ⟨hKey, hCompare⟩ | ⟨hKey, hCompare⟩
  · exact iff_of_true (Int.le_of_lt hCompare) hKey.le
  · exact iff_of_true hCompare.le hKey.le
  · exact
      iff_of_false (Int.not_le.mpr hCompare) (not_le.mpr hKey)

/- The order of the sort: equal edits stay as they were. -/
def Before (left right : Edit × Nat) : Prop :=
  compareTextEdits collate left.1 right.1 < 0 ∨
    compareTextEdits collate left.1 right.1 = 0 ∧
      left.2 < right.2

theorem before_iff {left right : Edit × Nat} :
    Before collate left right ↔
      toLex (editKey collate left.1, left.2) <
        toLex (editKey collate right.1, right.2) := by
  unfold Before
  rw [Prod.Lex.toLex_lt_toLex]
  rcases compareTextEdits_cases collate left.1 right.1 with
    ⟨hKey, hCompare⟩ | ⟨hKey, hCompare⟩ | ⟨hKey, hCompare⟩
  · exact iff_of_true (Or.inl hCompare) (Or.inl hKey)
  · simp only [hKey, hCompare, lt_self_iff_false, true_and,
      false_or]
  · refine iff_of_false ?_ ?_
    · omega
    · rintro (hNever | ⟨hNever, _⟩)
      · exact lt_asymm hKey hNever
      · exact ne_of_gt hKey hNever

/- Two edits of one file that overlap. -/
def Overlaps (first second : SemanticTextRange) : Prop :=
  TextPlaces.Later (first.startLine, first.startColumn)
      (second.endLine, second.endColumn) ∧
    TextPlaces.Later (second.startLine, second.startColumn)
      (first.endLine, first.endColumn)

def Clash (first second : Edit) : Prop :=
  first.path = second.path ∧
    Overlaps first.range second.range

/-
  Two edits of one file overlap, but none that are neighbours
  in the order of the sort.
-/
def Interleaved (edits : List Edit) : Prop :=
  (∃ first ∈ edits.zipIdx, ∃ second ∈ edits.zipIdx,
      Before collate first second ∧
        Clash first.1 second.1) ∧
    ∀ first ∈ edits.zipIdx, ∀ second ∈ edits.zipIdx,
      Before collate first second →
        (∀ other ∈ edits.zipIdx,
          ¬ (Before collate first other ∧
            Before collate other second)) →
        ¬ Clash first.1 second.1

theorem stableSort_before (edits : List Edit) :
    (SortedChains.stableSort
        (fun left right =>
          compareTextEdits collate left right ≤ 0)
        edits).Pairwise (Before collate) := by
  have hSorted :=
    @SortedChains.stableSort_sorted Edit
      (fun left right =>
        compareTextEdits collate left right ≤ 0) _
      (by
        intro left right
        rw [compareTextEdits_le_iff, compareTextEdits_le_iff]
        exact le_total _ _)
      (by
        intro first second third hFirst hSecond
        rw [compareTextEdits_le_iff] at hFirst hSecond ⊢
        exact hFirst.trans hSecond)
      edits
  refine hSorted.imp ?_
  rintro left right ⟨⟨hLe, hBack⟩, hNe⟩
  change compareTextEdits collate right.1 left.1 ≤ 0 → _ at hBack
  rw [before_iff, Prod.Lex.toLex_lt_toLex]
  rw [compareTextEdits_le_iff] at hLe hBack
  rcases lt_or_eq_of_le hLe with hLess | hSame
  · exact Or.inl hLess
  · have hIndex := hBack hSame.ge
    exact Or.inr ⟨hSame, by omega⟩

theorem mem_stableSort {edits : List Edit} {entry : Edit × Nat} :
    entry ∈ SortedChains.stableSort
        (fun left right =>
          compareTextEdits collate left right ≤ 0) edits ↔
      entry ∈ edits.zipIdx :=
  List.mem_insertionSort _

----------
-- Neighbours
----------

/- What the comparison of two neighbours finds. -/
def Apart (previous current : Edit) : Prop :=
  previous.path = current.path →
    ¬ (current.range.startLine < previous.range.endLine ∨
      current.range.startLine = previous.range.endLine ∧
        current.range.startColumn < previous.range.endColumn)

/- A range with something in it. -/
def Nonempty (range : SemanticTextRange) : Prop :=
  TextPlaces.Later (range.startLine, range.startColumn)
    (range.endLine, range.endColumn)

theorem Inside.nonempty
    {text : CodeText}
    {range : SemanticTextRange}
    (hInside : Inside text range) : Nonempty range := by
  rcases hInside with
    ⟨start, stop, hLess, hBound, hStart, hStop⟩
  unfold Nonempty
  rw [hStart, hStop]
  exact offsetToLineColumn_later hLess hBound

theorem apart_iff
    {first second : Edit}
    (hNonempty : Nonempty second.range)
    (hOrder :
      editKey collate first ≤ editKey collate second) :
    Apart first second ↔ ¬ Clash first second := by
  unfold Apart Clash
  rw [not_and]
  refine imp_congr_right fun hPath => not_congr ?_
  unfold editKey at hOrder
  simp only [hPath, Prod.Lex.toLex_le_toLex,
    lt_self_iff_false, true_and, false_or] at hOrder
  unfold Overlaps Nonempty TextPlaces.Later at *
  simp only at hNonempty ⊢
  omega

variable (port : RenameQueryPort)

variable {edits : List Edit}

theorem hasOverlappingEdits_apart
    (hApart : edits.IsChain Apart) :
    hasOverlappingEdits port edits =
      (do
        times (item port) (edits.length - 1)
        pure false) := by
  induction edits with
  | nil => rfl
  | cons previous edits ih =>
    cases edits with
    | nil => rfl
    | cons current edits =>
      rw [List.isChain_cons_cons] at hApart
      have hRest := ih hApart.2
      unfold hasOverlappingEdits
      have hTimes :
          times (item port)
              ((previous :: current :: edits).length - 1) =
            (do
              item port
              times (item port)
                ((current :: edits).length - 1)) := rfl
      rw [hTimes, bind_assoc]
      refine bind_congr fun _ => ?_
      split
      · exact hRest
      · rename_i hPath
        rw [if_neg (hApart.1 (not_not.mp hPath))]
        exact hRest

theorem hasOverlappingEdits_meets
    (hApart : ¬ edits.IsChain Apart) :
    Meets (hasOverlappingEdits port edits) (· = true) := by
  induction edits with
  | nil => exact absurd List.isChain_nil hApart
  | cons previous edits ih =>
    cases edits with
    | nil => exact absurd (List.isChain_singleton _) hApart
    | cons current edits =>
      rw [List.isChain_cons_cons, not_and_or] at hApart
      unfold hasOverlappingEdits
      refine meets_bind (meets_item port) fun _ _ => ?_
      split
      · rename_i hPath
        refine ih (hApart.resolve_left ?_)
        exact fun hNot => hNot fun hSame => absurd hSame hPath
      · split
        · exact meets_pure rfl
        · rename_i hAfter
          refine ih (hApart.resolve_left ?_)
          exact fun hNot => hNot fun _ => hAfter

----------
-- Publishing
----------

variable (comparisons : List Edit → Nat)

/- All checks of the publication but the one for overlaps. -/
def passChecks
    (edits : List Edit) : Query Unit := do
  boundary port
  times (item port) (comparisons edits)
  boundary port
  times (item port) (edits.length - 1)
  checkMembership port
  checkInputs port
  boundary port

theorem publishEdits_eq
    (hApart : (sortEdits collate edits).IsChain Apart) :
    publishEdits port collate comparisons edits =
      (do
        passChecks port comparisons edits
        throw
          (.finished (.complete (sortEdits collate edits)))) := by
  have hLength : (sortEdits collate edits).length = edits.length :=
    List.length_insertionSort _ _
  unfold publishEdits passChecks finish finishWork
  simp only [hasOverlappingEdits_apart port hApart, hLength,
    bind_assoc, pure_bind, Bool.false_eq_true, ↓reduceIte]

theorem publishEdits_meets
    (hApart : ¬ (sortEdits collate edits).IsChain Apart) :
    Meets (publishEdits port collate comparisons edits)
      fun _ => True := by
  have hItem := meets_item port
  unfold publishEdits
  refine meets_bind (meets_boundary port) fun _ _ => ?_
  refine meets_bind (meets_times hItem _) fun _ _ => ?_
  refine meets_bind (meets_boundary port) fun _ _ => ?_
  refine
    meets_bind (hasOverlappingEdits_meets port hApart)
      fun found hFound => ?_
  rw [if_pos hFound]
  exact meets_finish port fun edits hNever => by cases hNever

theorem passChecks_meets
    (edits : List Edit) :
    Meets (passChecks port comparisons edits)
      fun _ => True := by
  have hItem := meets_item port
  unfold passChecks
  refine meets_bind (meets_boundary port) fun _ _ => ?_
  refine meets_bind (meets_times hItem _) fun _ _ => ?_
  refine meets_bind (meets_boundary port) fun _ _ => ?_
  refine meets_bind (meets_times hItem _) fun _ _ => ?_
  refine meets_bind (meets_checkMembership port) fun _ _ => ?_
  refine meets_bind (meets_checkInputs port) fun _ _ => ?_
  exact meets_boundary port

/-
  The edits that the locations give, where no check but the
  one for overlaps ends the query.
-/
def Collects
    (position : DocumentPosition)
    (newName : CodeText)
    (edits : List Edit) : Prop :=
  ∃ middle last,
    collectEdits port position newName ⟨0, 0⟩ =
        .ok (edits, middle) ∧
      passChecks port comparisons edits middle =
        .ok ((), last)

theorem queryTypeScriptRename_complete_iff
    {comparisons : List Edit → Nat}
    {position : DocumentPosition}
    {newName : CodeText}
    {result : List Edit} :
    queryTypeScriptRename port collate comparisons position
        newName = some (.complete result) ↔
      ∃ edits,
        Collects port comparisons position newName edits ∧
          (sortEdits collate edits).IsChain Apart ∧
          result = sortEdits collate edits := by
  have hCollect :=
    collectEdits_located port position newName ⟨0, 0⟩
  unfold queryTypeScriptRename Collects
  simp only [bind_eq]
  cases hRun : collectEdits port position newName ⟨0, 0⟩ with
  | error stop =>
    constructor
    · intro hSame
      cases stop with
      | thrown => cases hSame
      | finished found =>
        have hFound := Option.some.inj hSame
        rw [hRun, hFound] at hCollect
        exact absurd rfl (hCollect.2 result)
    · rintro ⟨_, ⟨_, _, hNever, _⟩, _⟩
      cases hNever
  | ok found =>
    rcases found with ⟨edits, middle⟩
    simp only [Except.ok.injEq, Prod.mk.injEq]
    by_cases hApart : (sortEdits collate edits).IsChain Apart
    · rw [publishEdits_eq collate port comparisons hApart,
        bind_eq]
      have hPass := passChecks_meets port comparisons edits middle
      cases hChecks :
          passChecks port comparisons edits middle with
      | error stop =>
        rw [hChecks] at hPass
        constructor
        · intro hSame
          cases stop with
          | thrown => cases hSame
          | finished found =>
            have hFound := Option.some.inj hSame
            rw [hFound] at hPass
            exact absurd rfl (hPass.2 result)
        · rintro ⟨other, ⟨other', last, ⟨rfl, rfl⟩, hOk⟩, _⟩
          rw [hChecks] at hOk
          cases hOk
      | ok checked =>
        constructor
        · intro hSame
          have hFound := Option.some.inj hSame
          exact
            ⟨edits,
              ⟨middle, checked.2, ⟨rfl, rfl⟩, hChecks⟩,
              hApart,
              (SemanticRenameQueryResult.complete.inj
                hFound).symm⟩
        · rintro
            ⟨other, ⟨other', last, ⟨rfl, rfl⟩, _⟩, _, rfl⟩
          rfl
    · have hPublish :=
        publishEdits_meets collate port comparisons hApart middle
      constructor
      · intro hSame
        cases hEnd :
            publishEdits port collate comparisons edits
              middle with
        | ok value =>
          rw [hEnd] at hSame
          cases hSame
        | error stop =>
          rw [hEnd] at hSame hPublish
          cases stop with
          | thrown => cases hSame
          | finished found =>
            have hFound := Option.some.inj hSame
            rw [hFound] at hPublish
            exact absurd rfl (hPublish.2 result)
      · rintro ⟨other, ⟨other', last, ⟨rfl, rfl⟩, _⟩, hNever, _⟩
        exact absurd hNever hApart

----------
-- Disjoint Edits
----------

/-
  No two edits overlap or have one range, and every range is
  one of a text of its file.
-/
structure Disjoint (edits : List Edit) : Prop where
  apart :
    edits.Pairwise fun first second =>
      ¬ Clash first second ∧
        (first.path = second.path →
          first.range ≠ second.range)
  inside :
    ∃ textOf : FilePath → CodeText,
      ∀ edit ∈ edits,
        (∃ call,
          port.sourceView call edit.path =
            some (textOf edit.path)) ∧
          Inside (textOf edit.path) edit.range

omit [LinearOrder Collation] in
theorem clash_symm {first second : Edit}
    (hClash : Clash first second) : Clash second first :=
  ⟨hClash.1.symm, hClash.2.2, hClash.2.1⟩

/- No clash among neighbours, in the list and in the sort. -/
theorem sorted_apart_iff
    (hNonempty : ∀ edit ∈ edits, Nonempty edit.range) :
    (sortEdits collate edits).IsChain Apart ↔
      ∀ first ∈ edits.zipIdx, ∀ second ∈ edits.zipIdx,
        Before collate first second →
          (∀ other ∈ edits.zipIdx,
            ¬ (Before collate first other ∧
              Before collate other second)) →
          ¬ Clash first.1 second.1 := by
  have hSorted := stableSort_before collate edits
  have hChain :=
    @SortedChains.isChain_iff _ (Before collate)
      (fun first second => Apart first.1 second.1)
      (fun entry hNever =>
        lt_irrefl _ ((before_iff collate).mp hNever))
      (fun first second third hFirst hSecond => by
        rw [before_iff] at hFirst hSecond ⊢
        exact hFirst.trans hSecond)
      _ hSorted
  unfold sortEdits
  rw [← SortedChains.map_insertionSort, List.isChain_map, hChain]
  simp only [mem_stableSort]
  refine forall₂_congr fun first _ => ?_
  refine forall₂_congr fun second hSecond => ?_
  refine imp_congr_right fun hBefore => ?_
  refine imp_congr_right fun _ => ?_
  refine apart_iff collate (hNonempty second.1 ?_) ?_
  · exact List.fst_mem_of_mem_zipIdx hSecond
  · rw [before_iff, Prod.Lex.toLex_lt_toLex] at hBefore
    rcases hBefore with hLess | ⟨hSame, _⟩
    · exact hLess.le
    · exact hSame.le

/- Some two edits of the list clash. -/
theorem exists_clash_iff (edits : List Edit) :
    (∃ first ∈ edits.zipIdx, ∃ second ∈ edits.zipIdx,
        Before collate first second ∧
          Clash first.1 second.1) ↔
      ¬ (sortEdits collate edits).Pairwise fun first second =>
        ¬ Clash first second := by
  have hSorted := stableSort_before collate edits
  unfold sortEdits
  rw [← SortedChains.map_insertionSort, List.pairwise_map]
  constructor
  · rintro ⟨first, hFirst, second, hSecond, hBefore, hClash⟩
      hApart
    rw [← mem_stableSort collate] at hFirst hSecond
    have hSymm :
        Std.Symm fun left right : Edit × Nat =>
          ¬ Clash left.1 right.1 :=
      ⟨fun _ _ hNot hClash => hNot (clash_symm hClash)⟩
    refine hApart.forall hFirst hSecond ?_ hClash
    rintro rfl
    exact lt_irrefl _ ((before_iff collate).mp hBefore)
  · intro hNot
    by_contra hNone
    refine hNot (hSorted.imp_of_mem ?_)
    intro first second hFirst hSecond hBefore hClash
    rw [mem_stableSort] at hFirst hSecond
    exact hNone ⟨first, hFirst, second, hSecond, hBefore, hClash⟩

/- Where paths collate apart, neighbours tell for all. -/
theorem apart_of_grouped
    (hNonempty : ∀ edit ∈ edits, Nonempty edit.range)
    (hGrouped :
      ∀ first ∈ edits, ∀ second ∈ edits,
        collate first.path = collate second.path →
          first.path = second.path)
    (hApart : (sortEdits collate edits).IsChain Apart) :
    (sortEdits collate edits).Pairwise fun first second =>
      ¬ Clash first second := by
  let after : Edit → Edit → Prop := fun first second =>
    (collate first.path < collate second.path ∨
      first.path = second.path ∧
        ¬ TextPlaces.Later
          (second.range.startLine, second.range.startColumn)
          (first.range.endLine, first.range.endColumn)) ∧
      Nonempty second.range
  have hSorted := stableSort_before collate edits
  have hMem : ∀ edit ∈ sortEdits collate edits,
      edit ∈ edits := fun edit hEdit =>
    (List.mem_insertionSort _).mp hEdit
  have hKeys :
      (sortEdits collate edits).Pairwise fun first second =>
        editKey collate first ≤ editKey collate second := by
    unfold sortEdits
    rw [← SortedChains.map_insertionSort, List.pairwise_map]
    refine hSorted.imp ?_
    intro first second hBefore
    rw [before_iff, Prod.Lex.toLex_lt_toLex] at hBefore
    rcases hBefore with hLess | ⟨hSame, _⟩
    · exact hLess.le
    · exact hSame.le
  have hTrans : IsTrans Edit after := by
    refine ⟨?_⟩
    rintro first second third ⟨hFirst, hSome⟩ ⟨hSecond, hSome'⟩
    refine ⟨?_, hSome'⟩
    rcases hFirst with hLess | ⟨hPath, hLater⟩
    · rcases hSecond with hLess' | ⟨hPath', _⟩
      · exact Or.inl (hLess.trans hLess')
      · exact Or.inl (hPath' ▸ hLess)
    · rcases hSecond with hLess' | ⟨hPath', hLater'⟩
      · exact Or.inl (hPath ▸ hLess')
      · refine Or.inr ⟨hPath.trans hPath', ?_⟩
        unfold Nonempty TextPlaces.Later at *
        simp only at *
        omega
  have hAfter :
      (sortEdits collate edits).IsChain after := by
    rw [List.isChain_iff_getElem] at hApart ⊢
    intro index hIndex
    have hKey :=
      List.pairwise_iff_getElem.mp hKeys index (index + 1)
        (by omega) hIndex (Nat.lt_succ_self _)
    have hNext := hApart index hIndex
    have hLess : index < (sortEdits collate edits).length := by
      omega
    have hFirst := hMem _ (List.getElem_mem hLess)
    have hSecond := hMem _ (List.getElem_mem hIndex)
    refine ⟨?_, hNonempty _ hSecond⟩
    unfold editKey at hKey
    rw [Prod.Lex.toLex_le_toLex] at hKey
    rcases hKey with hLess | ⟨hSame, _⟩
    · exact Or.inl hLess
    · have hPath := hGrouped _ hFirst _ hSecond hSame
      exact Or.inr ⟨hPath, hNext hPath⟩
  refine (List.isChain_iff_pairwise.mp hAfter).imp ?_
  rintro first second ⟨hOrder, _⟩ ⟨hPath, _, hOverlap⟩
  rcases hOrder with hLess | ⟨_, hLater⟩
  · rw [hPath] at hLess
    exact lt_irrefl _ hLess
  · exact hLater hOverlap

/-
  Every complete result of a rename is a list of disjoint
  edits if and only if the edits that are collected are not
  interleaved, and they are not where the paths collate
  apart.
-/
theorem rename_edits_disjoint_iff
    (comparisons : List Edit → Nat)
    (position : DocumentPosition)
    (newName : CodeText) :
    ((∀ result,
        queryTypeScriptRename port collate comparisons
            position newName = some (.complete result) →
          Disjoint port result) ↔
      ∀ edits,
        Collects port comparisons position newName edits →
          ¬ Interleaved collate edits) ∧
      ∀ edits,
        Collects port comparisons position newName edits →
          (∀ first ∈ edits, ∀ second ∈ edits,
            collate first.path = collate second.path →
              first.path = second.path) →
            ¬ Interleaved collate edits := by
  have hLocated : ∀ edits,
      Collects port comparisons position newName edits →
        Located port edits := by
    rintro edits ⟨middle, last, hRun, _⟩
    exact
      (collectEdits_located port position newName
        ⟨0, 0⟩).1 edits middle hRun
  have hNonempty : ∀ edits,
      Located port edits →
        ∀ edit ∈ edits, Nonempty edit.range := by
    rintro edits ⟨⟨textOf, hPlaced⟩, _⟩ edit hEdit
    exact (hPlaced edit hEdit).2.nonempty
  refine ⟨⟨?_, ?_⟩, ?_⟩
  · rintro hAll edits hCollects ⟨hSome, hNone⟩
    have hFrom := hLocated edits hCollects
    have hApart :=
      (sorted_apart_iff collate
        (hNonempty edits hFrom)).mpr hNone
    have hResult :=
      (queryTypeScriptRename_complete_iff collate port).mpr
        ⟨edits, hCollects, hApart, rfl⟩
    refine (exists_clash_iff collate edits).mp hSome ?_
    exact (hAll _ hResult).apart.imp And.left
  · intro hNever result hResult
    rcases (queryTypeScriptRename_complete_iff collate
        port).mp hResult with
      ⟨edits, hCollects, hApart, rfl⟩
    have hFrom := hLocated edits hCollects
    have hClashes :
        (sortEdits collate edits).Pairwise fun first second =>
          ¬ Clash first second := by
      by_contra hSome
      refine hNever edits hCollects ⟨?_, ?_⟩
      · exact (exists_clash_iff collate edits).mpr hSome
      · exact
          (sorted_apart_iff collate
            (hNonempty edits hFrom)).mp hApart
    have hPerm :
        (sortEdits collate edits).Perm edits :=
      List.perm_insertionSort _ _
    refine ⟨hClashes.and ?_, ?_⟩
    · exact
        hPerm.symm.pairwise hFrom.distinct
          fun hNe hPath hRange => hNe hPath.symm hRange.symm
    · rcases hFrom.placed with ⟨textOf, hPlaced⟩
      exact
        ⟨textOf, fun edit hEdit =>
          hPlaced edit (hPerm.mem_iff.mp hEdit)⟩
  · rintro edits hCollects hGrouped ⟨hSome, hNone⟩
    have hInside := hNonempty edits (hLocated edits hCollects)
    refine (exists_clash_iff collate edits).mp hSome ?_
    exact
      apart_of_grouped collate hInside hGrouped
        ((sorted_apart_iff collate hInside).mpr hNone)

end Order

----------
-- Interleaved Edits
----------

/- Two names that are written alike, composed or not. -/
def composed : FilePath := ['/', 'w', '/', 'é']

def decomposed : FilePath := ['/', 'w', '/', 'e', '\u0301']

/- Whether a name has the accent, which is how they collate. -/
def accents (path : FilePath) : Nat :=
  path.countP fun char => char == 'é' || char == '\u0301'

def accentedPort : RenameQueryPort where
  cwd := ['/', 'w']
  rootPath := ['/', 'w']
  checkpointFails := fun _ => false
  isIdentifierText := fun _ => true
  querySource := fun _ _ => some ([97, 97, 97, 97], some 1)
  sourceView := fun _ _ => some [97, 97, 97, 97]
  membershipFailure := fun _ => none
  inputsAreCurrent := fun _ => (0, true)
  getRenameInfo := fun _ _ _ => ⟨true, 0⟩
  preflightRenameConflict := fun _ _ _ _ => .none
  findRenameLocations := fun _ _ _ =>
    some
      [⟨composed, ⟨0, 3⟩, none, none⟩,
        ⟨decomposed, ⟨1, 1⟩, none, none⟩,
        ⟨composed, ⟨2, 2⟩, none, none⟩]

/- The edits of the first file overlap, but not neighbours. -/
theorem not_rename_edits_disjoint :
    ¬ ∀ result,
      queryTypeScriptRename accentedPort accents List.length
          ⟨composed, 1, 1, none⟩ [98] = some (.complete result) →
        Disjoint accentedPort result := by
  intro hAll
  have hRun :
      queryTypeScriptRename accentedPort accents List.length
          ⟨composed, 1, 1, none⟩ [98] =
        some
          (.complete
            [⟨composed, ⟨1, 1, 1, 4⟩, [98], some 1⟩,
              ⟨decomposed, ⟨1, 2, 1, 3⟩, [98], some 1⟩,
              ⟨composed, ⟨1, 3, 1, 5⟩, [98], some 1⟩]) := by
    decide +kernel
  have hApart := (hAll _ hRun).apart
  rw [List.pairwise_cons] at hApart
  refine
    (hApart.1 _ (List.mem_cons_of_mem _ List.mem_cons_self)).1
      ⟨rfl, ?_, ?_⟩
  · exact Or.inr ⟨rfl, by decide⟩
  · exact Or.inr ⟨rfl, by decide⟩

end RenameQuery

end ArktsServer
