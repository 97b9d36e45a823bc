import ArktsServer.Core.Tokenizer
import ArktsServer.Lib.TextPlaces

/-
  Where tokens stand: each is a piece of its source, they
  follow each other, and a later place of the source has a
  later position, as long as lines and columns fit into 32
  bits.

  Key definitions include:
    * `Boundary`
    * `Token.PlacedIn`, `TokensPlaced`

  Correctness is proven by:
    * `position_before_of_lt`
    * `tokenizeWithStatus_placed`
-/

namespace ArktsServer

----------
-- Bytes
----------

@[simp] theorem byteLengthOf_nil : byteLengthOf [] = 0 :=
  rfl

@[simp] theorem byteLengthOf_cons
    (char : Char)
    (chars : List Char) :
    byteLengthOf (char :: chars) =
      char.utf8Size + byteLengthOf chars :=
  rfl

@[simp] theorem byteLengthOf_append
    (left right : List Char) :
    byteLengthOf (left ++ right) =
      byteLengthOf left + byteLengthOf right := by
  induction left with
  | nil => simp
  | cons char chars ih =>
    rw [List.cons_append, byteLengthOf_cons, ih,
      byteLengthOf_cons, Nat.add_assoc]

theorem byteLengthOf_pos
    {chars : List Char}
    (hChars : chars ≠ []) :
    0 < byteLengthOf chars := by
  cases chars with
  | nil => exact absurd rfl hChars
  | cons char chars =>
    have hSize := Char.utf8Size_pos char
    rw [byteLengthOf_cons]
    omega

theorem dropBytes_append
    (left right : List Char) :
    dropBytes (byteLengthOf left) (left ++ right) = right := by
  induction left with
  | nil => cases right <;> rfl
  | cons char chars ih =>
    have hSize := Char.utf8Size_pos char
    rw [byteLengthOf_cons]
    cases hTotal : char.utf8Size + byteLengthOf chars with
    | zero => omega
    | succ offset =>
      rw [List.cons_append, dropBytes]
      have hRest :
          offset + 1 - char.utf8Size = byteLengthOf chars := by
        omega
      rw [hRest]
      exact ih

theorem takeBytes_append
    (left right : List Char) :
    takeBytes (byteLengthOf left) (left ++ right) = left := by
  induction left with
  | nil => cases right <;> rfl
  | cons char chars ih =>
    have hSize := Char.utf8Size_pos char
    rw [byteLengthOf_cons]
    cases hTotal : char.utf8Size + byteLengthOf chars with
    | zero => omega
    | succ offset =>
      rw [List.cons_append, takeBytes]
      have hRest :
          offset + 1 - char.utf8Size = byteLengthOf chars := by
        omega
      rw [hRest, ih]

/- The slice between two places is what stands there. -/
theorem sliceBytes_append
    (before text after : List Char) :
    sliceBytes (before ++ (text ++ after))
        (byteLengthOf before) (byteLengthOf (before ++ text))
      = text := by
  unfold sliceBytes
  rw [dropBytes_append, byteLengthOf_append,
    Nat.add_sub_cancel_left, takeBytes_append]

----------
-- Lines
----------

namespace LineIndex

theorem newlineOffsets_append
    (offset : Nat)
    (left right : List Char) :
    newlineOffsets offset (left ++ right) =
      newlineOffsets offset left ++
        newlineOffsets (offset + byteLengthOf left) right := by
  induction left generalizing offset with
  | nil => simp [newlineOffsets]
  | cons char chars ih =>
    rw [List.cons_append, newlineOffsets, newlineOffsets,
      byteLengthOf_cons, ← Nat.add_assoc]
    split
    · rw [ih, List.cons_append]
    · exact ih _

variable {chars : List Char}

/- Each newline ends inside of the text. -/
theorem newlineOffsets_bounds
    {offset place : Nat}
    (hPlace : place ∈ newlineOffsets offset chars) :
    offset < place ∧ place ≤ offset + byteLengthOf chars := by
  induction chars generalizing offset with
  | nil => cases hPlace
  | cons char chars ih =>
    have hSize := Char.utf8Size_pos char
    rw [newlineOffsets] at hPlace
    rw [byteLengthOf_cons]
    split at hPlace
    · rcases List.mem_cons.mp hPlace with hHere | hLater
      · omega
      · have hRest := ih hLater
        omega
    · have hRest := ih hPlace
      omega

theorem length_newlineOffsets
    (offset : Nat)
    (chars : List Char) :
    (newlineOffsets offset chars).length =
      chars.count '\n' := by
  induction chars generalizing offset with
  | nil => rfl
  | cons char chars ih =>
    rw [newlineOffsets]
    split
    · rename_i hNewline
      rw [List.length_cons, ih, hNewline, List.count_cons_self]
    · rename_i hNewline
      rw [ih, List.count_cons_of_ne hNewline]

theorem length_newlineOffsets_le
    (offset : Nat)
    (chars : List Char) :
    (newlineOffsets offset chars).length ≤
      byteLengthOf chars := by
  induction chars generalizing offset with
  | nil => exact Nat.le_refl 0
  | cons char chars ih =>
    have hSize := Char.utf8Size_pos char
    have hRest := ih (offset + char.utf8Size)
    rw [newlineOffsets, byteLengthOf_cons]
    split
    · rw [List.length_cons]
      omega
    · omega

theorem newlineOffsets_eq_nil
    {offset : Nat}
    (hChars : '\n' ∉ chars) :
    newlineOffsets offset chars = [] := by
  apply List.eq_nil_of_length_eq_zero
  rw [length_newlineOffsets]
  exact List.count_eq_zero.mpr hChars

/- The text up to a place, cut behind its last newline. -/
abbrev LastLine (chars earlier line : List Char) : Prop :=
  TextPlaces.Cut '\n' chars earlier line

theorem utf16Length_append
    (left right : List Char) :
    utf16Length (left ++ right) =
      utf16Length left + utf16Length right := by
  unfold utf16Length
  induction left with
  | nil => simp
  | cons char chars ih =>
    simp only [List.cons_append, List.foldr_cons, ih]
    omega

/- A character has no more code units than bytes. -/
theorem codeUnits_bounds (char : Char) :
    0 < (if char.toNat < 0x10000 then 1 else 2) ∧
      (if char.toNat < 0x10000 then 1 else 2)
        ≤ char.utf8Size := by
  have hSize := Char.utf8Size_pos char
  split
  · omega
  · rename_i hHigh
    refine ⟨by omega, ?_⟩
    have hFour : char.utf8Size = 4 := by
      unfold Char.utf8Size
      have hAbove :
          ∀ bound : UInt32,
            bound.toNat < 0x10000 → ¬ char.val ≤ bound := by
        intro bound hBound hLe
        have hValue : char.toNat ≤ bound.toNat := hLe
        omega
      rw [if_neg (hAbove _ (by decide)),
        if_neg (hAbove _ (by decide)),
        if_neg (hAbove _ (by decide))]
    omega

theorem utf16Length_le
    (chars : List Char) :
    utf16Length chars ≤ byteLengthOf chars := by
  unfold utf16Length
  induction chars with
  | nil => exact Nat.le_refl 0
  | cons char chars ih =>
    have hBounds := codeUnits_bounds char
    rw [List.foldr_cons, byteLengthOf_cons]
    omega

theorem utf16Length_pos
    (hChars : chars ≠ []) :
    0 < utf16Length chars := by
  cases chars with
  | nil => exact absurd rfl hChars
  | cons char chars =>
    have hBounds := codeUnits_bounds char
    unfold utf16Length
    rw [List.foldr_cons]
    omega

theorem utf16Length_ascii
    (hAscii : chars.all (fun char => char.toNat < 128) = true) :
    byteLengthOf chars = utf16Length chars := by
  unfold utf16Length
  induction chars with
  | nil => rfl
  | cons char chars ih =>
    rw [List.all_cons, Bool.and_eq_true,
      decide_eq_true_eq] at hAscii
    have hOne : char.utf8Size = 1 := by
      unfold Char.utf8Size
      rw [if_pos]
      have hValue : char.val.toNat = char.toNat := rfl
      change char.val.toNat ≤ 0x7F
      omega
    rw [byteLengthOf_cons, List.foldr_cons, hOne,
      ih hAscii.2, if_pos (by omega)]

/- What a place in the text is told as. -/
theorem position_eq
    {before after earlier line : List Char}
    (hLine : LastLine before earlier line) :
    (LineIndex.new (before ++ after)).position
        (byteLengthOf before)
      = ⟨before.count '\n' % 2 ^ 32,
          utf16Length line % 2 ^ 32⟩ := by
  have hStarts :
      (LineIndex.new (before ++ after)).lineStarts
        = (0 :: newlineOffsets 0 before) ++
            newlineOffsets (byteLengthOf before) after := by
    unfold LineIndex.new
    simp only [newlineOffsets_append, Nat.zero_add,
      List.cons_append]
  have hBefore :
      ∀ start ∈ 0 :: newlineOffsets 0 before,
        decide (start ≤ byteLengthOf before) = true := by
    intro start hStart
    rcases List.mem_cons.mp hStart with hZero | hStart
    · exact decide_eq_true (hZero ▸ Nat.zero_le _)
    · have hBounds := newlineOffsets_bounds hStart
      exact decide_eq_true (by omega)
  have hAfter :
      (newlineOffsets (byteLengthOf before) after).takeWhile
          (· ≤ byteLengthOf before)
        = [] := by
    cases hOffsets :
        newlineOffsets (byteLengthOf before) after with
    | nil => rfl
    | cons start starts =>
      have hMem :
          start ∈ newlineOffsets (byteLengthOf before) after := by
        rw [hOffsets]
        exact List.mem_cons_self
      have hBounds := newlineOffsets_bounds hMem
      rw [List.takeWhile_cons_of_neg]
      intro hLe
      have hStart := of_decide_eq_true hLe
      omega
  have hCount :
      ((LineIndex.new (before ++ after)).lineStarts.takeWhile
          (· ≤ byteLengthOf before)).length - 1
        = before.count '\n' := by
    rw [hStarts, List.takeWhile_append_of_pos hBefore, hAfter,
      List.append_nil, List.length_cons,
      length_newlineOffsets, Nat.add_sub_cancel]
  have hStart :
      ((LineIndex.new (before ++ after)).lineStarts[
          before.count '\n']?).getD 0
        = byteLengthOf earlier := by
    rw [hStarts]
    rcases hLine.earlier with rfl | ⟨rest, rfl⟩
    · have hNone : before.count '\n' = 0 := by
        rw [hLine.split, List.nil_append]
        exact List.count_eq_zero.mpr hLine.line
      rw [hNone]
      rfl
    · have hOffsets :
          newlineOffsets 0 before
            = newlineOffsets 0 rest ++
                [byteLengthOf (rest ++ ['\n'])] := by
        rw [hLine.split, newlineOffsets_append,
          newlineOffsets_append,
          newlineOffsets_eq_nil hLine.line, List.append_nil]
        simp [newlineOffsets]
      have hIndex :
          before.count '\n'
            = (newlineOffsets 0 rest).length + 1 := by
        rw [← length_newlineOffsets 0 before, hOffsets,
          List.length_append, List.length_singleton]
      rw [hIndex, hOffsets, List.cons_append,
        List.getElem?_cons_succ, List.append_assoc,
        List.getElem?_append_right (Nat.le_refl _),
        Nat.sub_self]
      rfl
  have hLeading :
      sliceBytes (LineIndex.new (before ++ after)).text
          (byteLengthOf earlier) (byteLengthOf before)
        = line := by
    unfold LineIndex.new
    simp only [hLine.split, List.append_assoc]
    exact sliceBytes_append earlier line after
  unfold position
  simp only [hCount, hStart, hLeading]
  split
  · rename_i hAscii
    rw [utf16Length_ascii hAscii]
  · rfl

/- A place behind another one has a later position. -/
theorem position_before_append
    {before text after : List Char}
    (hText : text ≠ [])
    (hBytes :
      byteLengthOf (before ++ (text ++ after)) < 2 ^ 32) :
    ((LineIndex.new (before ++ (text ++ after))).position
        (byteLengthOf before)).before
      ((LineIndex.new (before ++ (text ++ after))).position
        (byteLengthOf (before ++ text)))
      = true := by
  have hSecond :
      ∀ earlier line,
        LastLine (before ++ text) earlier line →
        (LineIndex.new (before ++ (text ++ after))).position
            (byteLengthOf (before ++ text))
          = ⟨(before ++ text).count '\n' % 2 ^ 32,
              utf16Length line % 2 ^ 32⟩ := by
    intro earlier line hLine
    rw [← List.append_assoc]
    exact position_eq hLine
  have hCount :
      ∀ piece : List Char,
        piece.count '\n' ≤ byteLengthOf piece := by
    intro piece
    rw [← length_newlineOffsets 0 piece]
    exact length_newlineOffsets_le 0 piece
  simp only [byteLengthOf_append] at hBytes
  have hFirstCount := hCount before
  have hTextCount := hCount text
  rcases TextPlaces.exists_cut '\n' before with
    ⟨earlier, line, hLine⟩
  have hLineBytes : byteLengthOf line ≤ byteLengthOf before := by
    rw [hLine.split, byteLengthOf_append]
    omega
  have hLineUnits := utf16Length_le line
  by_cases hNewline : '\n' ∈ text
  · rcases TextPlaces.exists_cut '\n' (before ++ text) with
      ⟨earlier', line', hLine'⟩
    have hMore := List.count_pos_iff.mpr hNewline
    rw [position_eq hLine, hSecond _ _ hLine']
    unfold Position.before
    simp only [List.count_append]
    rw [Nat.mod_eq_of_lt (by omega), Nat.mod_eq_of_lt (by omega)]
    exact decide_eq_true (.inl (by omega))
  · have hLonger :
        LastLine (before ++ text) earlier (line ++ text) :=
      hLine.extend hNewline
    have hNone := List.count_eq_zero.mpr hNewline
    have hTextUnits := utf16Length_le text
    have hMore := utf16Length_pos hText
    rw [position_eq hLine, hSecond _ _ hLonger]
    unfold Position.before
    simp only [List.count_append, hNone, Nat.add_zero,
      utf16Length_append]
    refine decide_eq_true (.inr ⟨trivial, ?_⟩)
    rw [Nat.mod_eq_of_lt (by omega), Nat.mod_eq_of_lt (by omega)]
    omega

end LineIndex

----------
-- Boundaries
----------

/- A byte offset between two characters of a source. -/
def Boundary (source : List Char) (offset : Nat) : Prop :=
  ∃ before after,
    source = before ++ after ∧ byteLengthOf before = offset

variable {source : List Char}
variable {first second : Nat}

/- Places in order have positions in order. -/
theorem position_before_of_lt
    (hFirst : Boundary source first)
    (hSecond : Boundary source second)
    (hLt : first < second)
    (hBytes : byteLengthOf source < 2 ^ 32) :
    ((LineIndex.new source).position first).before
        ((LineIndex.new source).position second)
      = true := by
  rcases hFirst with ⟨before, rest, hSource, rfl⟩
  rcases hSecond with ⟨longer, after, hLonger, rfl⟩
  rcases List.append_eq_append_iff.mp
      (hSource.symm.trans hLonger) with
    ⟨text, hText, hRest⟩ | ⟨text, hText, _⟩
  · have hSome : text ≠ [] := by
      rintro rfl
      rw [hText, List.append_nil] at hLt
      exact Nat.lt_irrefl _ hLt
    rw [hRest] at hSource
    rw [hSource, hText]
    rw [hSource] at hBytes
    exact LineIndex.position_before_append hSome hBytes
  · rw [hText, byteLengthOf_append] at hLt
    omega

theorem Position.before_irrefl (position : Position) :
    position.before position = false := by
  unfold Position.before
  simp

theorem Position.before_asymm
    {first second : Position}
    (hBefore : first.before second = true) :
    second.before first = false := by
  unfold Position.before at hBefore ⊢
  rw [decide_eq_true_eq] at hBefore
  rw [decide_eq_false_iff_not]
  omega

theorem position_not_before
    (hFirst : Boundary source first)
    (hSecond : Boundary source second)
    (hLe : first ≤ second)
    (hBytes : byteLengthOf source < 2 ^ 32) :
    ((LineIndex.new source).position second).before
        ((LineIndex.new source).position first)
      = false := by
  rcases Nat.lt_or_eq_of_le hLe with hLt | rfl
  · exact
      Position.before_asymm
        (position_before_of_lt hFirst hSecond hLt hBytes)
  · exact Position.before_irrefl _

----------
-- Tokens
----------

/- A token is a piece of its source; only a string is empty. -/
structure Token.PlacedIn
    (token : Token)
    (source : List Char) : Prop where
  start : Boundary source token.start
  stop : Boundary source token.stop
  le : token.start ≤ token.stop
  lt :
    token.kind ≠ .stringLiteral → token.start < token.stop
  text : token.kind ≠ .stringLiteral → token.text ≠ ""

/- The tokens of a scan that starts at an offset. -/
structure TokensPlaced
    (source : List Char)
    (offset : Nat)
    (tokens : List Token) : Prop where
  placed : ∀ token ∈ tokens, token.PlacedIn source
  behind : ∀ token ∈ tokens, offset ≤ token.start
  ordered :
    tokens.Pairwise fun left right => left.stop ≤ right.start

section Scanner

variable {unicode : Unicode}

/- What a lexeme keeps is a part of what it consumes. -/
structure Lexeme.Fits
    (lexeme : Lexeme) : Prop where
  token :
    ∀ kind start stop,
      lexeme.token = some (kind, start, stop) →
        start ≤ stop ∧ stop ≤ lexeme.width ∧
          (kind ≠ .stringLiteral → start = 0 ∧ 0 < stop)

variable {chars : List Char}

theorem quotedLength_pos
    {quote : Char}
    {escaped : Bool}
    {length : Nat}
    (hLength :
      quotedLength quote escaped chars = some length) :
    0 < length := by
  cases chars with
  | nil => cases hLength
  | cons char chars =>
    have hMap :
        ∀ answer : Option Nat,
          answer.map (· + 1) = some length → 0 < length := by
      intro answer hAnswer
      cases answer with
      | none => cases hAnswer
      | some found =>
        have hSucc : found + 1 = length := Option.some.inj hAnswer
        omega
    cases escaped with
    | true => exact hMap _ hLength
    | false =>
      unfold quotedLength at hLength
      split at hLength
      · exact hMap _ hLength
      · split at hLength
        · injection hLength with hOne
          omega
        · exact hMap _ hLength

/- The lexemes that start with a visible character. -/
inductive VisibleLexeme
    (unicode : Unicode)
    (char : Char)
    (chars : List Char) : Lexeme → Prop
| quoted
    {length : Nat}
    {uncertain : Bool}
    (hQuote : ['\'', '"', '\x60'].contains char = true)
    (hLength : quotedLength char false chars = some length) :
    VisibleLexeme unicode char chars
      ⟨length + 1,
        if char = '\x60' then none
        else some (.stringLiteral, 1, length),
        false, uncertain⟩
| number
    {uncertain : Bool}
    (hDigit : char.isDigit = true) :
    VisibleLexeme unicode char chars
      ⟨numberLength (char :: chars), none, false, uncertain⟩
| regex
    {length : Nat}
    {uncertain : Bool}
    (hLength :
      regexLength unicode false false chars = some length) :
    VisibleLexeme unicode char chars
      ⟨length + 1, none, false, uncertain⟩
| whole
    {width : Nat}
    {kind : TokenKind}
    {regexAllowed uncertain : Bool}
    (hWidth : 0 < width)
    (hKind : kind ≠ .stringLiteral) :
    VisibleLexeme unicode char chars
      ⟨width, some (kind, 0, width), regexAllowed, uncertain⟩

variable {char : Char}
variable {lexeme : Lexeme}

theorem visibleLexeme_cases
    {regexAllowed : Bool}
    (hLexeme :
      visibleLexeme unicode regexAllowed char chars
        = some lexeme) :
    VisibleLexeme unicode char chars lexeme := by
  unfold visibleLexeme at hLexeme
  simp only at hLexeme
  split at hLexeme
  · rename_i hQuote
    rcases Option.bind_eq_some_iff.mp hLexeme with
      ⟨length, hLength, hLexeme⟩
    cases hLexeme
    exact .quoted hQuote hLength
  · split at hLexeme
    · rename_i hDigit
      cases hLexeme
      exact .number hDigit
    · split at hLexeme
      · cases hLexeme
        exact .whole (by omega) (by decide)
      · split at hLexeme
        · rcases Option.bind_eq_some_iff.mp hLexeme with
            ⟨length, hLength, hLexeme⟩
          cases hLexeme
          exact .regex hLength
        · split at hLexeme
          · cases hLexeme
            exact .whole Nat.two_pos (by decide)
          · split at hLexeme
            · cases hLexeme
              exact .whole Nat.two_pos (by decide)
            · cases hLexeme
              exact .whole Nat.one_pos (by decide)

/- Only a visible character starts a token. -/
theorem nextLexeme_token
    {regexAllowed : Bool}
    {place : TokenKind × Nat × Nat}
    (hLexeme :
      nextLexeme unicode regexAllowed char chars
        = some lexeme)
    (hToken : lexeme.token = some place) :
    unicode.isWhitespace char = false ∧
      VisibleLexeme unicode char chars lexeme := by
  unfold nextLexeme at hLexeme
  simp only at hLexeme
  split at hLexeme
  · cases hLexeme
    cases hToken
  · split at hLexeme
    · rcases Option.bind_eq_some_iff.mp hLexeme with
        ⟨length, _, hLexeme⟩
      cases hLexeme
      cases hToken
    · split at hLexeme
      · cases hLexeme
        cases hToken
      · rename_i hSpace
        exact
          ⟨Bool.not_eq_true _ ▸ hSpace,
            visibleLexeme_cases hLexeme⟩

theorem nextLexeme_fits
    {regexAllowed : Bool}
    (hLexeme :
      nextLexeme unicode regexAllowed char chars
        = some lexeme) :
    lexeme.Fits := by
  constructor
  intro kind start stop hToken
  cases (nextLexeme_token hLexeme hToken).2 with
  | quoted hQuote hLength =>
    have hPos := quotedLength_pos hLength
    simp only at hToken
    split at hToken
    · cases hToken
    · cases hToken
      exact ⟨by omega, Nat.le_succ _, fun hNot => absurd rfl hNot⟩
  | number => cases hToken
  | regex => cases hToken
  | whole hWidth hKind =>
    cases hToken
    exact ⟨Nat.zero_le _, Nat.le_refl _, fun _ => ⟨rfl, hWidth⟩⟩

/- The token of a lexeme stands inside of the lexeme. -/
theorem lexemeToken_placed
    {before rest : List Char}
    (hRest : rest ≠ [])
    {width start stop : Nat}
    {kind : TokenKind}
    (hStart : start ≤ stop)
    (hStop : stop ≤ width)
    (hKind :
      kind ≠ .stringLiteral → start = 0 ∧ 0 < stop) :
    (lexemeToken (byteLengthOf before) rest
        (kind, start, stop)).PlacedIn (before ++ rest) ∧
      byteLengthOf before ≤
        (lexemeToken (byteLengthOf before) rest
          (kind, start, stop)).start ∧
      (lexemeToken (byteLengthOf before) rest
          (kind, start, stop)).stop ≤
        byteLengthOf before +
          byteLengthOf (rest.take width) := by
  have hTake :
      rest.take stop =
        rest.take start ++
          (rest.drop start).take (stop - start) := by
    rw [← List.take_add, Nat.add_sub_cancel' hStart]
  have hWidth :
      rest.take width =
        rest.take stop ++
          (rest.drop stop).take (width - stop) := by
    rw [← List.take_add, Nat.add_sub_cancel' hStop]
  have hBytes := congrArg byteLengthOf hTake
  have hAll := congrArg byteLengthOf hWidth
  rw [byteLengthOf_append] at hBytes hAll
  have hText :
      kind ≠ .stringLiteral →
        (rest.drop start).take (stop - start) ≠ [] := by
    intro hOther hNil
    rcases hKind hOther with ⟨rfl, hPos⟩
    rcases List.take_eq_nil_iff.mp hNil with hZero | hEmpty
    · omega
    · exact hRest hEmpty
  refine ⟨⟨?_, ?_, ?_, ?_, ?_⟩, ?_, ?_⟩
  · exact
      ⟨before ++ rest.take start, rest.drop start, by simp,
        by simp [lexemeToken]⟩
  · refine
      ⟨before ++ rest.take stop, rest.drop stop, by simp, ?_⟩
    unfold lexemeToken
    simp only [byteLengthOf_append]
    omega
  · unfold lexemeToken
    simp only
    omega
  · intro hOther
    have hPos := byteLengthOf_pos (hText hOther)
    unfold lexemeToken
    simp only
    omega
  · intro hOther hEmpty
    unfold lexemeToken at hEmpty
    simp only at hEmpty
    exact hText hOther (String.ofList_inj.mp hEmpty)
  · unfold lexemeToken
    simp only
    omega
  · unfold lexemeToken
    simp only
    omega

variable {tokens : List Token}

theorem TokensPlaced.later
    (hTokens : TokensPlaced source second tokens)
    (hLe : first ≤ second) :
    TokensPlaced source first tokens :=
  ⟨hTokens.placed,
    fun token hToken =>
      Nat.le_trans hLe (hTokens.behind token hToken),
    hTokens.ordered⟩

theorem TokensPlaced.cons
    {token : Token}
    (hTokens : TokensPlaced source second tokens)
    (hToken : token.PlacedIn source)
    (hStart : first ≤ token.start)
    (hStop : token.stop ≤ second) :
    TokensPlaced source first (token :: tokens) where
  placed := List.forall_mem_cons.mpr ⟨hToken, hTokens.placed⟩
  behind := by
    refine List.forall_mem_cons.mpr ⟨hStart, ?_⟩
    intro other hOther
    have hBehind := hTokens.behind other hOther
    have hLe := hToken.le
    omega
  ordered :=
    List.pairwise_cons.mpr
      ⟨fun other hOther =>
        Nat.le_trans hStop (hTokens.behind other hOther),
        hTokens.ordered⟩

theorem tokensPlaced_nil
    (source : List Char)
    (offset : Nat) :
    TokensPlaced source offset [] :=
  ⟨fun _ hToken => absurd hToken List.not_mem_nil,
    fun _ hToken => absurd hToken List.not_mem_nil,
    List.Pairwise.nil⟩

/- What the scan of a suffix finds. -/
theorem scanLoop_placed
    {fuel : Nat}
    {before rest : List Char}
    {regexAllowed : Bool}
    {scanned : Tokenization}
    (hScan :
      scanLoop unicode fuel (byteLengthOf before)
          regexAllowed rest
        = some scanned) :
    TokensPlaced (before ++ rest) (byteLengthOf before)
      scanned.tokens := by
  induction fuel generalizing before rest regexAllowed
      scanned with
  | zero =>
    cases rest with
    | nil =>
      cases hScan
      exact tokensPlaced_nil _ _
    | cons char chars => cases hScan
  | succ fuel ih =>
    cases rest with
    | nil =>
      cases hScan
      exact tokensPlaced_nil _ _
    | cons char chars =>
      unfold scanLoop at hScan
      cases hLexeme :
          nextLexeme unicode regexAllowed char chars with
      | none =>
        rw [hLexeme] at hScan
        cases hScan
      | some lexeme =>
        rw [hLexeme] at hScan
        cases hRest :
            scanLoop unicode fuel
              (byteLengthOf before +
                byteLengthOf ((char :: chars).take lexeme.width))
              lexeme.regexAllowed
              ((char :: chars).drop lexeme.width) with
        | none =>
          simp [hRest] at hScan
        | some remaining =>
          simp only [hRest, Option.bind_eq_bind,
            Option.bind_some, Option.some.injEq]
            at hScan
          subst hScan
          rw [← byteLengthOf_append] at hRest
          have hLater := ih hRest
          rw [List.append_assoc, List.take_append_drop] at hLater
          have hLe :
              byteLengthOf before ≤
                byteLengthOf
                  (before ++
                    (char :: chars).take lexeme.width) := by
            rw [byteLengthOf_append]
            exact Nat.le_add_right _ _
          have hFits := nextLexeme_fits hLexeme
          cases hToken : lexeme.token with
          | none => exact hLater.later hLe
          | some place =>
            rcases place with ⟨kind, start, stop⟩
            rcases hFits.token kind start stop
                hToken with
              ⟨hStart, hStop, hKind⟩
            have hPlaced :=
              @lexemeToken_placed before
                (char :: chars)
                (List.cons_ne_nil _ _) _ _ _ _
                hStart hStop hKind
            rw [← byteLengthOf_append] at hPlaced
            exact hLater.cons hPlaced.1 hPlaced.2.1 hPlaced.2.2

/- The tokens of a document. -/
theorem tokenizeWithStatus_placed
    {scanned : Tokenization}
    (hScan :
      tokenizeWithStatus unicode source = some scanned) :
    TokensPlaced source 0 scanned.tokens :=
  @scanLoop_placed unicode _ [] _ _ _ hScan

end Scanner

/- Tokens further on stand behind. -/
theorem TokensPlaced.stop_le_start
    {offset : Nat}
    {tokens : List Token}
    (hTokens : TokensPlaced source offset tokens)
    {left right : Nat}
    {first second : Token}
    (hFirst : tokens[left]? = some first)
    (hSecond : tokens[right]? = some second)
    (hLt : left < right) :
    first.stop ≤ second.start := by
  rcases List.getElem?_eq_some_iff.mp hFirst with
    ⟨hLeft, rfl⟩
  rcases List.getElem?_eq_some_iff.mp hSecond with
    ⟨hRight, rfl⟩
  exact
    List.pairwise_iff_getElem.mp hTokens.ordered left right
      hLeft hRight hLt

end ArktsServer
