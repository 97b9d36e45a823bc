import ArktsServer.Core.TokenPlaces
import ArktsServer.Lib.TextOrder
import ArktsServer.Lib.TextPlaces

/-
  Positions in the editor and in the index: the client tells
  an offset into the UTF-16 units of a text by a line and a
  column, both from one, and the index tells a byte offset
  by two 32-bit numbers from zero.

  Key definitions include:
    * `utf16`, `createLineStartIndex`
    * `offsetToLineColumn`, `lineColumnToOffset`
    * `exactSourceOffset`
    * `Fits`, `PositionsAgree`, `EditorPositions`

  Correctness is proven by:
    * `offsetToLineColumn_cut`
    * `exactSourceOffset_iff`
    * `positions_agree`
-/

namespace ArktsServer

open TextPlaces

----------
-- UTF-16
----------

/- One code unit, or a surrogate pair. -/
def utf16Units (char : Char) : List UInt16 :=
  if char.toNat < 0x10000 then
    [UInt16.ofNat char.toNat]
  else
    [UInt16.ofNat (0xd800 + (char.toNat - 0x10000) / 0x400),
      UInt16.ofNat (0xdc00 + (char.toNat - 0x10000) % 0x400)]

def utf16 (chars : List Char) : List UInt16 :=
  chars.flatMap utf16Units

----------
-- Editor Positions
----------

def newlineUnit : UInt16 := 10

/- Line and column, both from one. -/
structure LineColumn where
  line : Nat
  column : Nat
deriving DecidableEq

def createLineStartIndex
    (content : List UInt16) : List Nat :=
  lineStarts newlineUnit content

def boundedOffset
    (content : List UInt16)
    (offset : Int) : Nat :=
  (max 0 (min offset content.length)).toNat

def offsetToLineColumn
    (content : List UInt16)
    (offset : Int) : LineColumn :=
  let starts := createLineStartIndex content
  let bounded := boundedOffset content offset
  let low := bisect starts bounded 0 starts.length
  ⟨low + 1, bounded - (starts[low]?).getD 0 + 1⟩

/- `content.indexOf("\n", offset)`. -/
def indexOfNewline
    (content : List UInt16)
    (offset : Nat) : Option Nat :=
  ((content.drop offset).findIdx?
    (· == newlineUnit)).map (offset + ·)

/- Skip lines, or find that no newline is left. -/
def skipLines
    (content : List UInt16) :
    Nat → Nat → Option Nat
| 0, offset => some offset
| lines + 1, offset =>
    if offset < content.length then
      match indexOfNewline content offset with
      | none => none
      | some newline => skipLines content lines (newline + 1)
    else
      some offset

/- Positions outside of a line are moved to the nearest. -/
def lineColumnToOffset
    (content : List UInt16)
    (line column : Int) : Nat :=
  match skipLines content (max 1 line - 1).toNat 0 with
  | none => content.length
  | some offset =>
      min (offset + (max 0 (column - 1)).toNat) content.length

/- `Number.isSafeInteger`: below two to the 53rd. -/
def isSafeInteger (value : Int) : Bool :=
  decide
    (-9007199254740991 ≤ value ∧ value ≤ 9007199254740991)

/- Only positions that are not moved. -/
def exactSourceOffset
    (content : List UInt16)
    (line column : Int) : Option Nat :=
  if !isSafeInteger line || !isSafeInteger column ||
      decide (line < 1) || decide (column < 1) then
    none
  else
    let offset := lineColumnToOffset content line column
    let resolved := offsetToLineColumn content offset
    if (resolved.line : Int) = line ∧
        (resolved.column : Int) = column then
      some offset
    else
      none

----------
-- Agreement
----------

/- The position that the protocol counts from zero. -/
def LineColumn.zeroBased (place : LineColumn) : Position :=
  ⟨place.line - 1, place.column - 1⟩

def LineColumn.place (place : LineColumn) : Nat × Nat :=
  (place.line, place.column)

/- No line and no column of the text exceeds a bound. -/
def Fits
    (bound : Nat)
    (content : List UInt16) : Prop :=
  ∀ offset : Nat, offset ≤ content.length →
    (offsetToLineColumn content offset).line ≤ bound ∧
      (offsetToLineColumn content offset).column ≤ bound

/- The lines and columns that 32 bits tell from zero. -/
def indexBound : Nat := 2 ^ 32

/- The largest safe integer. -/
def editorBound : Nat := 2 ^ 53 - 1

/- The editor tells the offsets of a text apart, in order. -/
structure EditorPositions
    (content : List UInt16) : Prop where
  later :
    ∀ first second : Nat,
      first < second → second ≤ content.length →
        Later (offsetToLineColumn content first).place
          (offsetToLineColumn content second).place
  injective :
    ∀ first second : Nat,
      first ≤ content.length → second ≤ content.length →
        offsetToLineColumn content first =
          offsetToLineColumn content second →
        first = second
  exact_ :
    ∀ line column offset,
      exactSourceOffset content line column = some offset ↔
        offset ≤ content.length ∧
          ((offsetToLineColumn content offset).line : Int)
            = line ∧
          ((offsetToLineColumn content offset).column : Int)
            = column

/- The index and the editor mean the same characters. -/
structure PositionsAgree (text : List Char) : Prop where
  agree :
    ∀ before after, text = before ++ after →
      (LineIndex.new text).position (byteLengthOf before) =
        (offsetToLineColumn (utf16 text)
          (utf16 before).length).zeroBased
  later :
    ∀ first second,
      Boundary text first → Boundary text second →
        first < second →
        ((LineIndex.new text).position first).before
            ((LineIndex.new text).position second)
          = true
  injective :
    ∀ first second,
      Boundary text first → Boundary text second →
        (LineIndex.new text).position first =
          (LineIndex.new text).position second →
        first = second

----------
-- Editor Offsets
----------

variable {content : List UInt16}
variable {offset : Nat}

theorem boundedOffset_of_le
    (hOffset : offset ≤ content.length) :
    boundedOffset content offset = offset := by
  unfold boundedOffset
  omega

/- A place is told by the cut of what is before it. -/
theorem offsetToLineColumn_cut
    {front earlier line : List UInt16}
    (hCut : Cut newlineUnit front earlier line)
    (after : List UInt16) :
    offsetToLineColumn (front ++ after) front.length =
      ⟨front.count newlineUnit + 1, line.length + 1⟩ := by
  have hBounded :
      boundedOffset (front ++ after) front.length =
        front.length :=
    boundedOffset_of_le (by rw [List.length_append]; omega)
  have hLength : front.length = earlier.length + line.length := by
    rw [hCut.split, List.length_append]
  unfold offsetToLineColumn createLineStartIndex
  rw [hBounded]
  dsimp only
  rw [bisect_starts hCut after, (lineStarts_cut hCut after).2]
  simp only [Option.getD_some]
  congr 1
  omega

theorem offsetToLineColumn_take
    (content : List UInt16)
    (hOffset : offset ≤ content.length) :
    ∃ earlier line,
      Cut newlineUnit (content.take offset) earlier line ∧
        offsetToLineColumn content offset =
          ⟨(content.take offset).count newlineUnit + 1,
            line.length + 1⟩ := by
  rcases exists_cut newlineUnit (content.take offset) with
    ⟨earlier, line, hCut⟩
  refine ⟨earlier, line, hCut, ?_⟩
  have hPlace := offsetToLineColumn_cut hCut (content.drop offset)
  rw [List.take_append_drop, List.length_take,
    Nat.min_eq_left hOffset] at hPlace
  exact hPlace

theorem offsetToLineColumn_later
    {first second : Nat}
    (hLess : first < second)
    (hSecond : second ≤ content.length) :
    Later (offsetToLineColumn content first).place
      (offsetToLineColumn content second).place := by
  rcases
      offsetToLineColumn_take content
        (Nat.le_of_lt (Nat.lt_of_lt_of_le hLess hSecond)) with
    ⟨earlier, line, hCut, hPlace⟩
  rcases offsetToLineColumn_take content hSecond with
    ⟨earlier', line', hCut', hPlace'⟩
  have hSplit :
      content.take second =
        content.take first
          ++ (content.drop first).take (second - first) := by
    rw [← List.take_add, Nat.add_sub_cancel' (Nat.le_of_lt hLess)]
  have hMore :
      (content.drop first).take (second - first) ≠ [] := by
    apply List.ne_nil_of_length_pos
    rw [List.length_take, List.length_drop]
    omega
  rw [hSplit] at hCut' hPlace'
  have hLater := later_of_append hMore hCut hCut'
  rw [hPlace, hPlace']
  unfold Later at hLater ⊢
  unfold LineColumn.place
  dsimp only at hLater ⊢
  omega

theorem offsetToLineColumn_injective
    {first second : Nat}
    (hFirst : first ≤ content.length)
    (hSecond : second ≤ content.length)
    (hSame :
      offsetToLineColumn content first =
        offsetToLineColumn content second) :
    first = second := by
  rcases Nat.lt_trichotomy first second with
    hLess | hEq | hMore
  · have hLater := offsetToLineColumn_later hLess hSecond
    rw [hSame] at hLater
    exact absurd hLater (Later.irrefl _)
  · exact hEq
  · have hLater := offsetToLineColumn_later hMore hFirst
    rw [hSame] at hLater
    exact absurd hLater (Later.irrefl _)

----------
-- Exact Offsets
----------

/- Skipping the lines of a cut ends where its line starts. -/
theorem skipLines_cut
    {content front earlier rest : List UInt16}
    (hContent : content = front ++ (earlier ++ rest))
    (hEarlier :
      earlier = [] ∨
        ∃ before, earlier = before ++ [newlineUnit]) :
    skipLines content (earlier.count newlineUnit)
        front.length
      = some (front.length + earlier.length) := by
  generalize hLines : earlier.count newlineUnit = lines
  induction lines generalizing front earlier with
  | zero =>
    rcases hEarlier with rfl | ⟨before, rfl⟩
    · rfl
    · rw [List.count_append] at hLines
      simp at hLines
  | succ lines ih =>
    have hMem : newlineUnit ∈ earlier :=
      List.count_pos_iff.mp (by omega)
    rcases List.eq_append_cons_of_mem hMem with
      ⟨line, later, rfl, hLine⟩
    have hDrop :
        content.drop front.length =
          line ++ newlineUnit :: (later ++ rest) := by
      rw [hContent, List.drop_left, List.append_assoc,
        List.cons_append]
    have hFind :
        indexOfNewline content front.length =
          some (front.length + line.length) := by
      unfold indexOfNewline
      rw [hDrop, List.findIdx?_append,
        List.findIdx?_eq_none_iff.mpr (by
          intro unit hUnit
          rw [beq_eq_false_iff_ne]
          rintro rfl
          exact hLine hUnit)]
      simp [List.findIdx?_cons]
    have hShort : front.length < content.length := by
      rw [hContent]
      simp
    have hLater :
        later = [] ∨
          ∃ before, later = before ++ [newlineUnit] := by
      rcases List.eq_nil_or_concat' later with
        hNil | ⟨init, last, rfl⟩
      · exact Or.inl hNil
      · right
        rcases hEarlier with hNil | ⟨before, hBefore⟩
        · simp at hNil
        · rw [← List.cons_append, ← List.append_assoc]
            at hBefore
          have hLast := List.append_inj_right' hBefore rfl
          exact ⟨init, by rw [hLast]⟩
    have hCount : later.count newlineUnit = lines := by
      rw [List.count_append, List.count_cons_self,
        List.count_eq_zero.mpr hLine] at hLines
      omega
    have hRest :=
      @ih (front ++ (line ++ [newlineUnit])) later
        (by rw [hContent]; simp) hLater hCount
    rw [skipLines, if_pos hShort, hFind]
    dsimp only
    rw [List.length_append, List.length_append,
      List.length_singleton, ← Nat.add_assoc] at hRest
    rw [hRest]
    simp only [List.length_append, List.length_cons]
    congr 1
    omega

/- The inverse finds the offset of a position. -/
theorem lineColumnToOffset_take
    (hOffset : offset ≤ content.length) :
    lineColumnToOffset content
        (offsetToLineColumn content offset).line
        (offsetToLineColumn content offset).column
      = offset := by
  rcases offsetToLineColumn_take content hOffset with
    ⟨earlier, line, hCut, hPlace⟩
  have hContent :
      content = [] ++ (earlier ++ (line ++ content.drop offset)) := by
    rw [List.nil_append, ← List.append_assoc, ← hCut.split,
      List.take_append_drop]
  have hSkip := skipLines_cut hContent hCut.earlier
  rw [← hCut.count_eq, List.length_nil, Nat.zero_add] at hSkip
  have hLength : earlier.length + line.length = offset := by
    have hSplit := congrArg List.length hCut.split
    rw [List.length_append, List.length_take,
      Nat.min_eq_left hOffset] at hSplit
    exact hSplit.symm
  rw [hPlace]
  unfold lineColumnToOffset
  dsimp only
  rw [show
      (max 1 (((content.take offset).count newlineUnit + 1
          : Nat) : Int) - 1).toNat
        = (content.take offset).count newlineUnit by omega,
    hSkip]
  dsimp only
  omega

theorem lineColumnToOffset_le
    (content : List UInt16)
    (line column : Int) :
    lineColumnToOffset content line column
      ≤ content.length := by
  unfold lineColumnToOffset
  split
  · exact Nat.le_refl _
  · exact Nat.min_le_right _ _

/- An offset is found exactly for its own position. -/
theorem exactSourceOffset_iff
    (hFits : Fits editorBound content)
    (line column : Int)
    (offset : Nat) :
    exactSourceOffset content line column = some offset ↔
      offset ≤ content.length ∧
        ((offsetToLineColumn content offset).line : Int)
          = line ∧
        ((offsetToLineColumn content offset).column : Int)
          = column := by
  unfold exactSourceOffset
  constructor
  · intro hExact
    split at hExact
    · cases hExact
    · dsimp only at hExact
      split at hExact
      · next hSame =>
        cases hExact
        exact ⟨lineColumnToOffset_le content line column, hSame⟩
      · cases hExact
  · rintro ⟨hOffset, rfl, rfl⟩
    have hSmall := hFits offset hOffset
    have hBound : editorBound = 2 ^ 53 - 1 := rfl
    have hLine : 1 ≤ (offsetToLineColumn content offset).line :=
      Nat.succ_pos _
    have hColumn :
        1 ≤ (offsetToLineColumn content offset).column :=
      Nat.succ_pos _
    rw [if_neg, lineColumnToOffset_take hOffset]
    · exact if_pos ⟨rfl, rfl⟩
    · unfold isSafeInteger
      simp only [Bool.or_eq_true, Bool.not_eq_true',
        decide_eq_false_iff_not, decide_eq_true_eq]
      omega

theorem editorPositions_of_fits
    (hFits : Fits editorBound content) :
    EditorPositions content where
  later _ _ hLess hSecond :=
    offsetToLineColumn_later hLess hSecond
  injective _ _ hFirst hSecond hSame :=
    offsetToLineColumn_injective hFirst hSecond hSame
  exact_ := exactSourceOffset_iff hFits

----------
-- Both Sides
----------

theorem utf16_append
    (left right : List Char) :
    utf16 (left ++ right) = utf16 left ++ utf16 right :=
  List.flatMap_append

theorem newline_mem_utf16Units (char : Char) :
    newlineUnit ∈ utf16Units char ↔ char = '\n' := by
  have hBound := TextOrder.toNat_lt char
  unfold utf16Units newlineUnit
  constructor
  · intro hMem
    split at hMem
    · next hLow =>
      rw [List.mem_singleton, ← UInt16.toNat_inj,
        UInt16.toNat_ofNat'] at hMem
      rw [← Char.toNat_inj]
      change 10 = _ at hMem
      change _ = 10
      omega
    · next hHigh =>
      simp only [List.mem_cons, List.not_mem_nil, or_false,
        ← UInt16.toNat_inj, UInt16.toNat_ofNat'] at hMem
      have hTen : (10 : UInt16).toNat = 10 := rfl
      rw [hTen] at hMem
      omega
  · rintro rfl
    decide

theorem length_utf16 (chars : List Char) :
    (utf16 chars).length = LineIndex.utf16Length chars := by
  unfold utf16 LineIndex.utf16Length
  induction chars with
  | nil => rfl
  | cons char chars ih =>
    rw [List.flatMap_cons, List.length_append, ih,
      List.foldr_cons]
    unfold utf16Units
    split <;> rfl

theorem newline_not_mem_utf16
    {line : List Char}
    (hLine : '\n' ∉ line) :
    newlineUnit ∉ utf16 line := by
  intro hMem
  rcases List.mem_flatMap.mp hMem with ⟨char, hChar, hUnit⟩
  have hNewline := (newline_mem_utf16Units char).mp hUnit
  exact hLine (hNewline ▸ hChar)

theorem count_utf16 (chars : List Char) :
    (utf16 chars).count newlineUnit = chars.count '\n' := by
  induction chars with
  | nil => rfl
  | cons char chars ih =>
    show (utf16Units char ++ utf16 chars).count newlineUnit = _
    rw [List.count_append, ih]
    by_cases hChar : char = '\n'
    · subst hChar
      rw [List.count_cons_self, Nat.add_comm]
      rfl
    · rw [List.count_cons_of_ne hChar,
        List.count_eq_zero.mpr
          (fun hMem =>
            hChar ((newline_mem_utf16Units char).mp hMem)),
        Nat.zero_add]

/- The last line of a text is that of its code units. -/
theorem cut_utf16
    {chars earlier line : List Char}
    (hLine : LineIndex.LastLine chars earlier line) :
    Cut newlineUnit (utf16 chars) (utf16 earlier)
      (utf16 line) where
  split := by rw [hLine.split, utf16_append]
  line := newline_not_mem_utf16 hLine.line
  earlier := by
    rcases hLine.earlier with rfl | ⟨rest, rfl⟩
    · exact Or.inl rfl
    · refine Or.inr ⟨utf16 rest, ?_⟩
      rw [utf16_append]
      rfl

/- Up to 32 bits, both sides tell a place alike. -/
theorem position_eq_zeroBased
    (before after : List Char) :
    (LineIndex.new (before ++ after)).position
        (byteLengthOf before)
      = ⟨((offsetToLineColumn (utf16 (before ++ after))
            (utf16 before).length).line - 1) % 2 ^ 32,
          ((offsetToLineColumn (utf16 (before ++ after))
            (utf16 before).length).column - 1) % 2 ^ 32⟩ := by
  rcases exists_cut '\n' before with
    ⟨earlier, line, hLine⟩
  have hPlace :=
    offsetToLineColumn_cut (cut_utf16 hLine) (utf16 after)
  rw [← utf16_append] at hPlace
  rw [LineIndex.position_eq hLine, hPlace, count_utf16,
    length_utf16]
  rfl

theorem position_agrees
    {before after : List Char}
    (hFits : Fits indexBound (utf16 (before ++ after))) :
    (LineIndex.new (before ++ after)).position
        (byteLengthOf before)
      = (offsetToLineColumn (utf16 (before ++ after))
          (utf16 before).length).zeroBased := by
  have hSmall :=
    hFits (utf16 before).length
      (by rw [utf16_append, List.length_append]; omega)
  have hBound : indexBound = 2 ^ 32 := rfl
  have hLine :
      1 ≤ (offsetToLineColumn (utf16 (before ++ after))
        (utf16 before).length).line :=
    Nat.succ_pos _
  have hColumn :
      1 ≤ (offsetToLineColumn (utf16 (before ++ after))
        (utf16 before).length).column :=
    Nat.succ_pos _
  rw [position_eq_zeroBased]
  unfold LineColumn.zeroBased
  rw [Nat.mod_eq_of_lt (by omega), Nat.mod_eq_of_lt (by omega)]

/- Bytes and code units of beginnings grow together. -/
theorem utf16_lt_of_bytes
    {text before rest longer after : List Char}
    (hText : text = before ++ rest)
    (hLonger : text = longer ++ after)
    (hLess : byteLengthOf before < byteLengthOf longer) :
    (utf16 before).length < (utf16 longer).length := by
  rcases List.append_eq_append_iff.mp
      (hText.symm.trans hLonger) with
    ⟨more, hMore, _⟩ | ⟨more, hMore, _⟩
  · have hSome : more ≠ [] := by
      rintro rfl
      rw [hMore, List.append_nil] at hLess
      exact Nat.lt_irrefl _ hLess
    rw [hMore, length_utf16, length_utf16,
      LineIndex.utf16Length_append]
    have hPositive := LineIndex.utf16Length_pos hSome
    omega
  · rw [hMore, byteLengthOf_append] at hLess
    omega

theorem positionsAgree_of_fits
    {text : List Char}
    (hFits : Fits indexBound (utf16 text)) :
    PositionsAgree text := by
  have hLater :
      ∀ first second,
        Boundary text first → Boundary text second →
          first < second →
          ((LineIndex.new text).position first).before
              ((LineIndex.new text).position second)
            = true := by
    rintro first second ⟨before, rest, hText, rfl⟩
      ⟨longer, after, hLonger, rfl⟩ hLess
    have hUnits := utf16_lt_of_bytes hText hLonger hLess
    have hFirst := @position_agrees before rest (hText ▸ hFits)
    have hSecond :=
      @position_agrees longer after (hLonger ▸ hFits)
    rw [← hText] at hFirst
    rw [← hLonger] at hSecond
    have hPlaces :=
      @offsetToLineColumn_later (utf16 text) _ _ hUnits
        (by
          rw [hLonger, utf16_append, List.length_append]
          omega)
    have hPositive :
        ∀ offset : Int,
          1 ≤ (offsetToLineColumn (utf16 text) offset).line ∧
            1 ≤ (offsetToLineColumn (utf16 text)
              offset).column :=
      fun _ => ⟨Nat.succ_pos _, Nat.succ_pos _⟩
    have hOne := hPositive (utf16 before).length
    have hTwo := hPositive (utf16 longer).length
    rw [hFirst, hSecond]
    unfold Position.before LineColumn.zeroBased
    unfold Later LineColumn.place at hPlaces
    dsimp only at hPlaces ⊢
    rw [decide_eq_true_eq]
    omega
  constructor
  · rintro before after rfl
    exact position_agrees hFits
  · exact hLater
  · intro first second hFirst hSecond hSame
    rcases Nat.lt_trichotomy first second with
      hLess | hEq | hMore
    · have hBefore := hLater _ _ hFirst hSecond hLess
      rw [hSame, Position.before_irrefl] at hBefore
      cases hBefore
    · exact hEq
    · have hBefore := hLater _ _ hSecond hFirst hMore
      rw [hSame, Position.before_irrefl] at hBefore
      cases hBefore

/-
  Where no line and no column exceeds 32 bits, the index and
  the editor tell every place alike and tell places apart.
  In the editor a position is resolved exactly when it is
  that of a place, up to safe integers.
-/
theorem positions_agree :
    (∀ text : List Char,
      Fits indexBound (utf16 text) → PositionsAgree text) ∧
      ∀ content : List UInt16,
        Fits editorBound content →
          EditorPositions content :=
  ⟨fun _ hFits => positionsAgree_of_fits hFits,
    fun _ hFits => editorPositions_of_fits hFits⟩

/- A text with fewer code units than the bound fits. -/
theorem fits_of_length
    {bound : Nat}
    (hLength : content.length < bound) :
    Fits bound content := by
  intro offset hOffset
  rcases offsetToLineColumn_take content hOffset with
    ⟨earlier, line, hCut, hPlace⟩
  have hCount :=
    @List.count_le_length _ _ newlineUnit (content.take offset)
  have hLine := congrArg List.length hCut.split
  rw [List.length_append] at hLine
  rw [List.length_take] at hLine hCount
  rw [hPlace]
  dsimp only
  omega

theorem positions_agree_astral :
    PositionsAgree "a\r\n😀b".toList ∧
      EditorPositions (utf16 "a\r\n😀b".toList) :=
  ⟨positions_agree.1 _ (fits_of_length (by decide)),
    positions_agree.2 _ (fits_of_length (by decide))⟩

/- Behind 2^32 newlines, the index is at its origin again. -/
theorem positions_wrap :
    ¬ PositionsAgree (List.replicate (2 ^ 32) '\n') := by
  generalize hSize : 2 ^ 32 = size
  intro hAgree
  have hEnd :=
    hAgree.agree (List.replicate size '\n') [] (by simp)
  have hWrapped :=
    position_eq_zeroBased (List.replicate size '\n') []
  rw [List.append_nil] at hWrapped
  rcases exists_cut '\n' (List.replicate size '\n') with
    ⟨earlier, line, hLine⟩
  have hPlace := offsetToLineColumn_cut (cut_utf16 hLine) []
  rw [List.append_nil, count_utf16,
    List.count_replicate_self] at hPlace
  rw [hWrapped, hPlace] at hEnd
  have hLines := congrArg Position.line hEnd
  unfold LineColumn.zeroBased at hLines
  dsimp only at hLines
  rw [Nat.add_sub_cancel, ← hSize, Nat.mod_self] at hLines
  cases hLines

end ArktsServer
