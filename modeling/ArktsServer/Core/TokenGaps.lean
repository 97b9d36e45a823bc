import ArktsServer.Core.ClassHeritage
import ArktsServer.Core.LexemeContext

/-
  What stands between two tokens, and what the heritage
  parser makes of it.  The gaps of a source are read off the
  pieces of its scan; the trivia in front of a comment are
  left behind in the same way whatever follows them.

  Key definitions include:
    * `pieceGaps`, `pendingAfter`
    * `gapAt`
    * `Neutral`

  Correctness is proven by:
    * `gapAt_eq`
    * `pending_neutral`
-/

----------
-- Gaps
----------

namespace ArktsServer

open Scanning

/-
  What stands in front of each token.  The pending text has
  been left behind since the last token.
-/
def pieceGaps : List Char → List Piece → List (List Char)
| _, [] => []
| pending, piece :: pieces =>
    match piece.2.token with
    | none => pieceGaps (pending ++ piece.1) pieces
    | some place =>
        (pending ++ piece.1.take place.2.1)
          :: pieceGaps (piece.1.drop place.2.2) pieces

/- The pending text behind pieces. -/
def pendingAfter : List Char → List Piece → List Char
| pending, [] => pending
| pending, piece :: pieces =>
    match piece.2.token with
    | none => pendingAfter (pending ++ piece.1) pieces
    | some place =>
        pendingAfter (piece.1.drop place.2.2) pieces

/- The slices in front of each token. -/
def tokenSlices
    (source : List Char) :
    Nat → List Token → List (List Char)
| _, [] => []
| previous, token :: tokens =>
    sliceBytes source previous token.start
      :: tokenSlices source token.stop tokens

/- What stands between a token and the next one. -/
def gapAt
    (source : List Char)
    (tokens : List Token)
    (left : Nat) : Option (List Char) :=
  (tokens[left]?).bind fun first =>
    (tokens[left + 1]?).map fun second =>
      sliceBytes source first.stop second.start

/- The places of tokens are in order. -/
def PiecesFit (pieces : List Piece) : Prop :=
  ∀ piece ∈ pieces, ∀ place,
    piece.2.token = some place → place.2.1 ≤ place.2.2

theorem pieceGaps_append
    (pending : List Char)
    (first second : List Piece) :
    pieceGaps pending (first ++ second) =
      pieceGaps pending first
        ++ pieceGaps (pendingAfter pending first) second := by
  induction first generalizing pending with
  | nil => rfl
  | cons piece first ih =>
    rw [List.cons_append, pieceGaps, pieceGaps, pendingAfter]
    cases piece.2.token with
    | none => exact ih _
    | some place =>
      simp only [ih, List.cons_append]

/- Texts that a test cannot tell apart lead to such gaps. -/
theorem pieceGaps_congr
    {α : Type}
    {test : List Char → α}
    {pending other : List Char}
    (hSame :
      ∀ gap, test (pending ++ gap) = test (other ++ gap))
    (pieces : List Piece) :
    (pieceGaps pending pieces).map test =
      (pieceGaps other pieces).map test := by
  induction pieces generalizing pending other with
  | nil => rfl
  | cons piece pieces ih =>
    rw [pieceGaps, pieceGaps]
    cases piece.2.token with
    | none =>
      refine ih fun gap => ?_
      rw [List.append_assoc, List.append_assoc]
      exact hSame _
    | some place =>
      simp only [List.map_cons, hSame]

/- The text of a piece around its token. -/
theorem take_text_drop
    {text : List Char}
    {start stop : Nat}
    (hPlace : start ≤ stop) :
    text =
      text.take start
        ++ ((text.drop start).take (stop - start)
          ++ text.drop stop) := by
  have hDrop :
      (text.drop start).drop (stop - start) = text.drop stop := by
    rw [List.drop_drop, Nat.add_sub_cancel' hPlace]
  rw [← hDrop, List.take_append_drop, List.take_append_drop]

theorem tokenSlices_eq
    {pieces : List Piece}
    (hFit : PiecesFit pieces)
    (before pending rest : List Char) :
    tokenSlices
        (before ++ (pending ++ (textOf pieces ++ rest)))
        (byteLengthOf before)
        (pieceTokens (byteLengthOf (before ++ pending))
          pieces) =
      pieceGaps pending pieces := by
  induction pieces generalizing before pending with
  | nil => rfl
  | cons piece pieces ih =>
    have hLater : PiecesFit pieces :=
      fun other hMem => hFit other (List.mem_cons_of_mem _ hMem)
    rw [pieceTokens, pieceGaps, textOf_cons,
      ← byteLengthOf_append]
    cases hToken : piece.2.token with
    | none =>
      have hRest := ih hLater before (pending ++ piece.1)
      simp only [List.append_assoc] at hRest
      simp only [Option.map_none, Option.toList_none,
        List.nil_append, List.append_assoc]
      exact hRest
    | some place =>
      have hPlace :=
        hFit piece (List.mem_cons_self ..) place hToken
      rcases piece with ⟨taken, mark⟩
      have hSplit := @take_text_drop taken _ _ hPlace
      generalize hPreface : taken.take place.2.1 = preface
        at hSplit
      generalize hText :
        (taken.drop place.2.1).take
          (place.2.2 - place.2.1) = text at hSplit
      generalize hTail : taken.drop place.2.2 = tail at hSplit
      have hToken :
          lexemeToken (byteLengthOf (before ++ pending))
              taken place =
            ⟨String.ofList text, place.1,
              byteLengthOf (before ++ (pending ++ preface)),
              byteLengthOf
                (before ++ (pending ++ (preface ++ text)))⟩ := by
        unfold lexemeToken
        simp only [hPreface, hText, byteLengthOf_append,
          Nat.add_assoc]
      have hHead :=
        sliceBytes_append before (pending ++ preface)
          (text ++ (tail ++ (textOf pieces ++ rest)))
      have hRest :=
        ih hLater (before ++ (pending ++ (preface ++ text))) tail
      simp only [List.append_assoc] at hHead hRest
      simp only [Option.map_some, Option.toList_some,
        List.singleton_append, tokenSlices, hToken, hTail,
        hPreface]
      rw [hSplit]
      simp only [List.append_assoc, hHead, hRest]

theorem gapAt_eq
    (source : List Char)
    (previous : Nat)
    (tokens : List Token)
    (left : Nat) :
    gapAt source tokens left =
      (tokenSlices source previous tokens)[left + 1]? := by
  induction tokens generalizing previous left with
  | nil => rfl
  | cons token tokens ih =>
    rw [tokenSlices, List.getElem?_cons_succ]
    cases left with
    | zero =>
      cases tokens with
      | nil => rfl
      | cons next tokens => rfl
    | succ left =>
      rw [← ih token.stop left]
      rfl

----------
-- Trivia
----------

section Trivia

variable {unicode : Unicode}

variable {source : List Char}

/- The loop over trivia does not run out of its fuel. -/
theorem triviaLoop_enough
    {fuel more : Nat}
    (hFuel : source.length ≤ fuel)
    (hMore : source.length ≤ more) :
    triviaLoop unicode fuel source =
      triviaLoop unicode more source := by
  induction fuel generalizing more source with
  | zero =>
    cases List.eq_nil_of_length_eq_zero (Nat.le_zero.mp hFuel)
    unfold triviaLoop
    rfl
  | succ fuel ih =>
    have hShort :=
      (List.dropWhile_suffix
        (l := source) unicode.isWhitespace).length_le
    unfold triviaLoop
    cases hSkip : source.dropWhile unicode.isWhitespace with
    | nil => rfl
    | cons char chars =>
      rw [hSkip, List.length_cons] at hShort
      cases more with
      | zero => omega
      | succ more =>
        simp only
        split
        · rename_i hLine
          have hLess :
              ((char :: chars).dropWhile
                  (· ≠ '\n')).length ≤ chars.length := by
            have hTwo := lineComment_width hLine
            have hAll :=
              congrArg List.length
                (@List.takeWhile_append_dropWhile _
                  (fun letter => decide (letter ≠ '\n'))
                  (char :: chars))
            rw [List.length_append, List.length_cons] at hAll
            omega
          exact ih (by omega) (by omega)
        · split
          · cases findPattern ['*', '/'] (char :: chars) with
            | none => rfl
            | some length =>
              have hLess :=
                List.length_drop
                  (l := char :: chars) (i := length + 2)
              rw [List.length_cons] at hLess
              exact ih (by omega) (by omega)
          · rfl

theorem triviaLoop_isTrivia
    {fuel : Nat}
    (hFuel : source.length ≤ fuel) :
    triviaLoop unicode fuel source = isTrivia unicode source :=
  triviaLoop_enough hFuel (Nat.le_refl _)

variable {char : Char}

theorem isTrivia_space
    (hSpace : unicode.isWhitespace char = true)
    (chars : List Char) :
    isTrivia unicode (char :: chars) =
      isTrivia unicode chars := by
  have hSkip :
      (char :: chars).dropWhile unicode.isWhitespace =
        chars.dropWhile unicode.isWhitespace := by
    rw [List.dropWhile_cons, if_pos hSpace]
  have hLoop :
      triviaLoop unicode (char :: chars).length
          (char :: chars) =
        triviaLoop unicode (char :: chars).length chars := by
    unfold triviaLoop
    rw [hSkip]
  exact hLoop.trans (triviaLoop_isTrivia (Nat.le_succ _))

theorem eq_of_pair
    {first second : Char}
    (hPair : [first, second].isPrefixOf source = true) :
    ∃ chars, source = first :: second :: chars := by
  rcases source with _ | ⟨char, _ | ⟨next, chars⟩⟩
  · cases hPair
  · simp at hPair
  · simp only [List.isPrefixOf, Bool.and_eq_true, beq_iff_eq]
      at hPair
    rcases hPair with ⟨rfl, rfl, _⟩
    exact ⟨chars, rfl⟩

theorem isTrivia_line
    (hSlash : unicode.isWhitespace '/' = false)
    (hLine : ['/', '/'].isPrefixOf source = true) :
    isTrivia unicode source =
      isTrivia unicode (source.dropWhile (· ≠ '\n')) := by
  rcases eq_of_pair hLine with ⟨chars, rfl⟩
  have hLess :
      (('/' :: '/' :: chars).dropWhile (· ≠ '\n')).length
        ≤ chars.length := by
    rw [List.dropWhile_cons_of_pos (by decide),
      List.dropWhile_cons_of_pos (by decide)]
    exact (List.dropWhile_suffix _).length_le
  rw [← triviaLoop_isTrivia
    (hLess.trans (Nat.le_succ chars.length))]
  conv => lhs; unfold isTrivia triviaLoop
  simp only [List.dropWhile_cons, hSlash, List.length_cons,
    List.isPrefixOf, beq_self_eq_true, Bool.and_self,
    Bool.false_eq_true, if_false, if_true]

variable {length : Nat}

theorem isTrivia_block
    (hSlash : unicode.isWhitespace '/' = false)
    (hBlock : ['/', '*'].isPrefixOf source = true)
    (hFind : findPattern ['*', '/'] source = some length) :
    isTrivia unicode source =
      isTrivia unicode (source.drop (length + 2)) := by
  rcases eq_of_pair hBlock with ⟨chars, rfl⟩
  have hLess :
      (('/' :: '*' :: chars).drop (length + 2)).length
        ≤ chars.length + 1 := by
    rw [List.length_drop, List.length_cons, List.length_cons]
    omega
  have hLine :
      ['/', '/'].isPrefixOf ('/' :: '*' :: chars) = false :=
    rfl
  rw [← triviaLoop_isTrivia hLess]
  conv => lhs; unfold isTrivia triviaLoop
  simp only [List.dropWhile_cons, hSlash, List.length_cons,
    hLine, hBlock, hFind, Bool.false_eq_true, if_false,
    if_true]

variable {chars : List Char}

/- What no comment opens with is no trivia. -/
theorem isTrivia_visible
    (hSpace : unicode.isWhitespace char = false)
    (hLine :
      ['/', '/'].isPrefixOf (char :: chars) = false)
    (hBlock :
      ['/', '*'].isPrefixOf (char :: chars) = false) :
    isTrivia unicode (char :: chars) = false := by
  unfold isTrivia triviaLoop
  simp only [List.dropWhile_cons, List.length_cons, hSpace,
    hLine, hBlock, Bool.false_eq_true, if_false]

----------
-- Pending Text
----------

/- What follows the text alone decides whether it is trivia. -/
def Neutral
    (unicode : Unicode)
    (pending : List Char) : Prop :=
  ∀ first second,
    isTrivia unicode first = isTrivia unicode second →
      isTrivia unicode (pending ++ first) =
        isTrivia unicode (pending ++ second)

theorem neutral_nil : Neutral unicode [] :=
  fun _ _ hSame => hSame

theorem neutral_of_eq
    {taken later : List Char}
    (hTaken :
      ∀ rest,
        isTrivia unicode (taken ++ (later ++ rest)) =
          isTrivia unicode (later ++ rest))
    (hLater : Neutral unicode later) :
    Neutral unicode (taken ++ later) := by
  intro first second hSame
  rw [List.append_assoc, List.append_assoc, hTaken, hTaken]
  exact hLater first second hSame

theorem neutral_of_visible
    {taken : List Char}
    (hTaken :
      ∀ rest, isTrivia unicode (taken ++ rest) = false)
    (later : List Char) :
    Neutral unicode (taken ++ later) := by
  intro first second _
  rw [List.append_assoc, List.append_assoc, hTaken, hTaken]

theorem findPattern_le
    {pattern chars : List Char}
    (hFind : findPattern pattern chars = some length) :
    length + pattern.length ≤ chars.length := by
  induction chars generalizing length with
  | nil =>
    unfold findPattern at hFind
    split at hFind
    · rename_i hNil
      cases hFind
      rw [hNil]
      exact Nat.le_refl 0
    · cases hFind
  | cons char chars ih =>
    unfold findPattern at hFind
    split at hFind
    · rename_i hPrefix
      cases hFind
      have hLength :=
        (List.isPrefixOf_iff_prefix.mp hPrefix).length_le
      omega
    · cases hTail : findPattern pattern chars with
      | none =>
        rw [hTail] at hFind
        cases hFind
      | some found =>
        rw [hTail] at hFind
        have hSucc : found + 1 = length := Option.some.inj hFind
        have hShort := ih hTail
        rw [List.length_cons]
        omega

variable {regexAllowed : Bool}
variable {lexeme : Lexeme}

/- A slash that opens no comment opens more than itself. -/
theorem visibleLexeme_tokenless
    (hLexeme : VisibleLexeme unicode char chars lexeme)
    (hToken : lexeme.token = none) :
    char ≠ '/' ∨
      2 ≤ ((char :: chars).take lexeme.width).length := by
  cases hLexeme with
  | quoted hQuote =>
    left
    rintro rfl
    exact absurd hQuote (by decide)
  | number hDigit =>
    left
    rintro rfl
    exact absurd hDigit (by decide)
  | regex hLength =>
    right
    have hPos := regexLength_pos hLength
    have hSome : chars ≠ [] := by
      rintro rfl
      cases hLength
    have hChars := List.length_pos_iff.mpr hSome
    rw [List.length_take, List.length_cons]
    exact
      Nat.le_min.mpr
        ⟨Nat.succ_le_succ hPos, Nat.succ_le_succ hChars⟩
  | whole => cases hToken

theorem head_dropWhile
    {test : Char → Bool}
    {source chars : List Char}
    (hRest : source.dropWhile test = char :: chars) :
    test char = false := by
  induction source with
  | nil => cases hRest
  | cons head source ih =>
    rw [List.dropWhile_cons] at hRest
    split at hRest
    · exact ih hRest
    · rename_i hTest
      cases hRest
      exact Bool.not_eq_true _ ▸ hTest

/- A line comment ends where its line does. -/
theorem neutral_of_line
    {source later rest : List Char}
    (hSlash : unicode.isWhitespace '/' = false)
    (hLine : ['/', '/'].isPrefixOf source = true)
    (hSource :
      source.dropWhile (· ≠ '\n') = later ++ '/' :: rest)
    (hLater : Neutral unicode later) :
    Neutral unicode
      (source.takeWhile (· ≠ '\n') ++ later) := by
  have hNewline : ∃ more, later = '\n' :: more := by
    cases later with
    | nil => exact absurd (head_dropWhile hSource) (by decide)
    | cons char more =>
      have hChar := head_dropWhile hSource
      rw [decide_eq_false_iff_not, not_not] at hChar
      exact ⟨more, by rw [hChar]⟩
  rcases hNewline with ⟨more, rfl⟩
  refine neutral_of_eq (fun tail => ?_) hLater
  have hPrefix :
      ['/', '/'].isPrefixOf
          (source.takeWhile (· ≠ '\n')
            ++ ('\n' :: more ++ tail)) = true := by
    rcases eq_of_pair hLine with ⟨chars, rfl⟩
    rw [List.takeWhile_cons_of_pos (by decide),
      List.takeWhile_cons_of_pos (by decide)]
    rfl
  have hAll :
      ∀ char ∈ source.takeWhile (· ≠ '\n'),
        decide (char ≠ '\n') = true :=
    List.all_eq_true.mp List.all_takeWhile
  rw [isTrivia_line hSlash hPrefix,
    List.dropWhile_append_of_pos hAll]
  rfl

/- A block comment ends where it is closed. -/
theorem neutral_of_block
    {source later : List Char}
    (hSlash : unicode.isWhitespace '/' = false)
    (hBlock : ['/', '*'].isPrefixOf source = true)
    (hFind : findPattern ['*', '/'] source = some length)
    (hLater : Neutral unicode later) :
    Neutral unicode (source.take (length + 2) ++ later) := by
  have hLength : (source.take (length + 2)).length = length + 2 :=
    List.length_take_of_le (findPattern_le hFind)
  have hSplit := List.take_append_drop (length + 2) source
  refine neutral_of_eq (fun tail => ?_) hLater
  have hPrefix :
      ['/', '*'].isPrefixOf
          (source.take (length + 2) ++ (later ++ tail))
        = true := by
    rw [← hSplit] at hBlock
    rw [← hBlock]
    exact
      isPrefixOf_exchange (by
        rw [hLength]
        exact Nat.le_add_left 2 length)
  have hFound :
      findPattern ['*', '/']
          (source.take (length + 2) ++ (later ++ tail))
        = some length := by
    rw [← hSplit] at hFind
    refine findPattern_exchange hFind ?_
    rw [hLength]
    exact Nat.le_refl _
  rw [isTrivia_block hSlash hPrefix hFound,
    List.drop_left' hLength]

theorem visible_append
    {width : Nat}
    (hWidth : 0 < width)
    (hSpace : unicode.isWhitespace char = false)
    (hLine : ['/', '/'].isPrefixOf (char :: chars) = false)
    (hBlock : ['/', '*'].isPrefixOf (char :: chars) = false)
    (hOpens :
      char ≠ '/' ∨
        2 ≤ ((char :: chars).take width).length)
    (rest : List Char) :
    isTrivia unicode ((char :: chars).take width ++ rest)
      = false := by
  have hTake :
      (char :: chars).take width =
        char :: chars.take (width - 1) := by
    cases width with
    | zero => exact absurd hWidth (Nat.lt_irrefl 0)
    | succ width => rfl
  have hPair :
      ∀ next,
        ['/', next].isPrefixOf (char :: chars) = false →
          ['/', next].isPrefixOf
            ((char :: chars).take width ++ rest) = false := by
    intro next hNone
    rcases hOpens with hOther | hLong
    · rw [hTake]
      have hHead : ('/' == char) = false :=
        beq_eq_false_iff_ne.mpr (Ne.symm hOther)
      simp only [List.cons_append, List.isPrefixOf, hHead,
        Bool.false_and]
    · rw [← hNone]
      conv => rhs; rw [← List.take_append_drop width (char :: chars)]
      exact isPrefixOf_exchange hLong
  have hLeft := hPair '/' hLine
  have hRight := hPair '*' hBlock
  rw [hTake] at hLeft hRight ⊢
  exact isTrivia_visible hSpace hLeft hRight

/- A piece without a token, in front of neutral text. -/
theorem neutral_of_tokenless
    {chars later rest : List Char}
    (hSlash : unicode.isWhitespace '/' = false)
    (hLexeme :
      nextLexeme unicode regexAllowed char chars
        = some lexeme)
    (hToken : lexeme.token = none)
    (hSource :
      (char :: chars).drop lexeme.width =
        later ++ '/' :: rest)
    (hLater : Neutral unicode later) :
    Neutral unicode
      ((char :: chars).take lexeme.width ++ later) := by
  have hWidth := nextLexeme_width hLexeme
  unfold nextLexeme at hLexeme
  simp only at hLexeme
  split at hLexeme
  · rename_i hLine
    cases hLexeme
    have hAll :=
      @List.takeWhile_append_dropWhile _
        (fun letter => decide (letter ≠ '\n')) (char :: chars)
    have hTake :
        (char :: chars).take
            ((char :: chars).takeWhile (· ≠ '\n')).length =
          (char :: chars).takeWhile (· ≠ '\n') := by
      conv => lhs; arg 2; rw [← hAll]
      exact List.take_left
    have hDrop :
        (char :: chars).drop
            ((char :: chars).takeWhile (· ≠ '\n')).length =
          (char :: chars).dropWhile (· ≠ '\n') := by
      conv => lhs; arg 2; rw [← hAll]
      exact List.drop_left
    rw [hDrop] at hSource
    rw [hTake]
    exact neutral_of_line hSlash hLine hSource hLater
  · rename_i hLine
    split at hLexeme
    · rename_i hBlock
      cases hFind : findPattern ['*', '/'] (char :: chars) with
      | none =>
        rw [hFind] at hLexeme
        cases hLexeme
      | some length =>
        rw [hFind] at hLexeme
        cases hLexeme
        exact neutral_of_block hSlash hBlock hFind hLater
    · rename_i hBlock
      split at hLexeme
      · rename_i hSpace
        cases hLexeme
        refine neutral_of_eq (fun rest => ?_) hLater
        exact isTrivia_space hSpace (later ++ rest)
      · rename_i hSpace
        exact
          neutral_of_visible
            (visible_append hWidth (Bool.not_eq_true _ ▸ hSpace)
              (Bool.not_eq_true _ ▸ hLine)
              (Bool.not_eq_true _ ▸ hBlock)
              (visibleLexeme_tokenless
                (visibleLexeme_cases hLexeme) hToken)) later

/- A quoted string ends with its quote. -/
theorem quotedLength_close
    {quote : Char}
    {escaped : Bool}
    (hLength :
      quotedLength quote escaped chars = some length) :
    ∃ body,
      chars.take length = body ++ [quote] ∧
        body.length + 1 = length := by
  induction chars generalizing escaped length with
  | nil => cases hLength
  | cons char chars ih =>
    have hMore :
        ∀ escaped,
          (quotedLength quote escaped chars).map (· + 1)
              = some length →
            ∃ body,
              (char :: chars).take length
                  = body ++ [quote] ∧
                body.length + 1 = length := by
      intro escaped hMap
      cases hTail : quotedLength quote escaped chars with
      | none =>
        rw [hTail] at hMap
        cases hMap
      | some found =>
        rw [hTail] at hMap
        cases hMap
        rcases ih hTail with ⟨body, hBody, hCount⟩
        refine ⟨char :: body, ?_, congrArg (· + 1) hCount⟩
        rw [List.take_succ_cons, hBody, List.cons_append]
    cases escaped with
    | true => exact hMore false hLength
    | false =>
      unfold quotedLength at hLength
      split at hLength
      · exact hMore true hLength
      · split at hLength
        · rename_i hQuote
          cases hLength
          exact ⟨[], by rw [hQuote]; rfl, rfl⟩
        · exact hMore false hLength

/- Behind a token, its piece has at most a closing quote. -/
theorem visibleLexeme_tail
    {place : TokenKind × Nat × Nat}
    (hLexeme : VisibleLexeme unicode char chars lexeme)
    (hToken : lexeme.token = some place) :
    ((char :: chars).take lexeme.width).drop place.2.2 = [] ∨
      char ≠ '/' ∧
        ((char :: chars).take lexeme.width).drop place.2.2
          = [char] := by
  cases hLexeme with
  | quoted hQuote hLength =>
    right
    simp only at hToken
    split at hToken
    · cases hToken
    · cases hToken
      refine ⟨?_, ?_⟩
      · rintro rfl
        exact absurd hQuote (by decide)
      · rcases quotedLength_close hLength with
          ⟨body, hBody, hCount⟩
        have hCons : (char :: body).length = _ := hCount
        rw [List.take_succ_cons, hBody, ← List.cons_append]
        exact List.drop_left' hCons
  | number => cases hToken
  | regex => cases hToken
  | whole =>
    cases hToken
    exact .inl (List.drop_eq_nil_of_le (List.length_take_le _ _))

/- What a piece with a token leaves behind is neutral. -/
theorem neutral_of_token
    {chars later : List Char}
    {place : TokenKind × Nat × Nat}
    (hLexeme :
      nextLexeme unicode regexAllowed char chars
        = some lexeme)
    (hToken : lexeme.token = some place)
    (hLater : Neutral unicode later) :
    Neutral unicode
      (((char :: chars).take lexeme.width).drop place.2.2
        ++ later) := by
  rcases nextLexeme_token hLexeme hToken with
    ⟨hSpace, hVisible⟩
  rcases visibleLexeme_tail hVisible hToken with
    hNil | ⟨hOther, hQuote⟩
  · rw [hNil]
    exact hLater
  · rw [hQuote]
    have hHead : ('/' == char) = false :=
      beq_eq_false_iff_ne.mpr (Ne.symm hOther)
    refine neutral_of_visible (fun rest => ?_) later
    refine isTrivia_visible hSpace ?_ ?_
    · simp only [List.isPrefixOf, hHead, Bool.false_and]
    · simp only [List.isPrefixOf, hHead, Bool.false_and]

/-
  Where a scan arrives at a slash, the text pending since
  the last token is neutral.  The induction is on the scan:
  until a token is met, all the text is pending.
-/
theorem pending_neutral
    {regexAllowed last : Bool}
    {input rest : List Char}
    {pieces : List Piece}
    (hSlash : unicode.isWhitespace '/' = false)
    (hScan :
      Scan (findLexeme unicode) regexAllowed input pieces last
        ('/' :: rest)) :
    Neutral unicode (pendingAfter [] pieces) := by
  suffices hPending :
      (∀ pending,
          pendingAfter pending pieces =
            pending ++ textOf pieces) ∧
          Neutral unicode (textOf pieces) ∨
        (∀ pending,
          pendingAfter pending pieces = pendingAfter [] pieces) ∧
          Neutral unicode (pendingAfter [] pieces) by
    rcases hPending with ⟨hAll, hNeutral⟩ | ⟨_, hNeutral⟩
    · rw [hAll, List.nil_append]
      exact hNeutral
    · exact hNeutral
  generalize hRest : '/' :: rest = final at hScan
  induction hScan with
  | done state final =>
    exact
      Or.inl
        ⟨fun pending => (List.append_nil pending).symm,
          neutral_nil⟩
  | @step state last char chars final found pieces hFind hScan
      ih =>
      subst hRest
      rcases findLexeme_eq_some_iff.mp hFind with
        ⟨lexeme, hLexeme, rfl⟩
      have hSource := hScan.text
      cases hToken : lexeme.token with
      | none =>
        have hStep :
            ∀ pending,
              pendingAfter pending
                  (((char :: chars).take lexeme.width,
                    ⟨lexeme.token, lexeme.uncertain⟩) :: pieces) =
                pendingAfter
                  (pending ++ (char :: chars).take lexeme.width)
                  pieces := by
          intro pending
          rw [pendingAfter, hToken]
        rw [hToken] at hStep
        rcases ih rfl with
          ⟨hAll, hNeutral⟩ | ⟨hAll, hNeutral⟩
        · left
          refine ⟨fun pending => ?_, ?_⟩
          · rw [hStep, hAll, textOf_cons, List.append_assoc]
          · rw [textOf_cons]
            exact
              neutral_of_tokenless hSlash hLexeme hToken
                hSource hNeutral
        · right
          refine ⟨fun pending => ?_, ?_⟩
          · rw [hStep, hStep, hAll, hAll ([] ++ _)]
          · rw [hStep, hAll]
            exact hNeutral
      | some place =>
        have hStep :
            ∀ pending,
              pendingAfter pending
                  (((char :: chars).take lexeme.width,
                    ⟨lexeme.token, lexeme.uncertain⟩) :: pieces) =
                pendingAfter
                  (((char :: chars).take lexeme.width).drop
                    place.2.2) pieces := by
          intro pending
          rw [pendingAfter, hToken]
        rw [hToken] at hStep
        right
        rcases ih rfl with
          ⟨hAll, hNeutral⟩ | ⟨hAll, hNeutral⟩
        · refine ⟨fun pending => ?_, ?_⟩
          · rw [hStep, hStep]
          · rw [hStep, hAll]
            exact neutral_of_token hLexeme hToken hNeutral
        · refine ⟨fun pending => ?_, ?_⟩
          · rw [hStep, hStep]
          · rw [hStep, hAll]
            exact hNeutral

end Trivia

end ArktsServer
