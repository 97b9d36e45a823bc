import ArktsServer.Core.TokenPlaces
import ArktsServer.Lib.Scanning

/-
  The scan of the index as a run over pieces, and what a
  lexeme depends on.  A lexeme that ends in front of a block
  comment is found in front of a space, too.

  Key definitions include:
    * `findLexeme`
    * `pieceTokens`

  Correctness is proven by:
    * `findLexeme_advances`
    * `scanLoop_eq`
    * `findLexeme_contextFree`
-/

----------
-- Pieces
----------

namespace ArktsServer

open Scanning

/- The token of a piece, and whether it is uncertain. -/
structure PieceMark where
  token : Option (TokenKind × Nat × Nat)
  uncertain : Bool

abbrev Piece := List Char × PieceMark

section Scanner

variable (unicode : Unicode)

/- What the scanner finds, as a piece to be taken. -/
def findLexeme
    (regexAllowed : Bool)
    (char : Char)
    (chars : List Char) : Option (Found Bool PieceMark) :=
  (nextLexeme unicode regexAllowed char chars).map
    fun lexeme =>
      ⟨lexeme.width, lexeme.regexAllowed,
        ⟨lexeme.token, lexeme.uncertain⟩⟩

/- The tokens of pieces that start at an offset. -/
def pieceTokens : Nat → List Piece → List Token
| _, [] => []
| offset, piece :: pieces =>
    (piece.2.token.map (lexemeToken offset piece.1)).toList
      ++ pieceTokens (offset + byteLengthOf piece.1) pieces

def tokenizationOf
    (offset : Nat)
    (pieces : List Piece) : Tokenization where
  tokens := pieceTokens offset pieces
  uncertain := pieces.any fun piece => piece.2.uncertain

variable {unicode : Unicode}

variable {regexAllowed : Bool}

theorem findLexeme_eq_some_iff
    {char : Char}
    {chars : List Char}
    {found : Found Bool PieceMark} :
    findLexeme unicode regexAllowed char chars = some found ↔
      ∃ lexeme,
        nextLexeme unicode regexAllowed char chars
            = some lexeme ∧
          found =
            ⟨lexeme.width, lexeme.regexAllowed,
              ⟨lexeme.token, lexeme.uncertain⟩⟩ := by
  unfold findLexeme
  rw [Option.map_eq_some_iff]
  exact exists_congr fun lexeme => and_congr_right fun _ => eq_comm

variable {lexeme : Lexeme}

theorem visibleLexeme_width
    {char : Char}
    {chars : List Char}
    (hLexeme : VisibleLexeme unicode char chars lexeme) :
    0 < lexeme.width := by
  cases hLexeme with
  | quoted => exact Nat.succ_pos _
  | number hDigit =>
    have hFirst :
        (char.isAlphanum || char == '.' || char == '_')
          = true := by
      unfold Char.isAlphanum
      rw [hDigit, Bool.or_true]
      rfl
    unfold numberLength
    simp only [List.takeWhile_cons, hFirst, if_true,
      List.length_cons]
    exact Nat.succ_pos _
  | regex => exact Nat.succ_pos _
  | whole hWidth => exact hWidth

variable {rest : List Char}

theorem lineComment_width
    (hComment : ['/', '/'].isPrefixOf rest = true) :
    2 ≤ (rest.takeWhile (· ≠ '\n')).length := by
  rcases rest with _ | ⟨first, _ | ⟨second, chars⟩⟩
  · cases hComment
  · simp at hComment
  · simp only [List.isPrefixOf, Bool.and_eq_true, beq_iff_eq]
      at hComment
    rcases hComment with ⟨rfl, rfl, _⟩
    rw [List.takeWhile_cons_of_pos (by decide),
      List.takeWhile_cons_of_pos (by decide)]
    exact Nat.le_add_left 2 _

theorem nextLexeme_width
    {char : Char}
    {chars : List Char}
    (hLexeme :
      nextLexeme unicode regexAllowed char chars
        = some lexeme) :
    0 < lexeme.width := by
  unfold nextLexeme at hLexeme
  simp only at hLexeme
  split at hLexeme
  · rename_i hComment
    cases hLexeme
    exact
      Nat.lt_of_lt_of_le Nat.two_pos (lineComment_width hComment)
  · split at hLexeme
    · cases hFind : findPattern ['*', '/'] (char :: chars) with
      | none =>
        rw [hFind] at hLexeme
        cases hLexeme
      | some length =>
        rw [hFind] at hLexeme
        cases hLexeme
        exact Nat.succ_pos _
    · split at hLexeme
      · cases hLexeme
        exact Nat.one_pos
      · exact visibleLexeme_width (visibleLexeme_cases hLexeme)

theorem findLexeme_advances :
    Advances (findLexeme unicode) := by
  intro regexAllowed char chars found hFind
  rcases findLexeme_eq_some_iff.mp hFind with
    ⟨lexeme, hLexeme, rfl⟩
  exact nextLexeme_width hLexeme

/- A token is told by what its piece takes. -/
theorem lexemeToken_take
    {offset width : Nat}
    {place : TokenKind × Nat × Nat}
    (hStart : place.2.1 ≤ place.2.2)
    (hStop : place.2.2 ≤ width) :
    lexemeToken offset (rest.take width) place =
      lexemeToken offset rest place := by
  have hPreface :
      (rest.take width).take place.2.1 = rest.take place.2.1 := by
    rw [List.take_take, Nat.min_eq_left (by omega)]
  have hText :
      ((rest.take width).drop place.2.1).take
          (place.2.2 - place.2.1) =
        (rest.drop place.2.1).take (place.2.2 - place.2.1) := by
    rw [List.drop_take, List.take_take,
      Nat.min_eq_left (by omega)]
  unfold lexemeToken
  simp only [hPreface, hText]

/- The scanner's loop is the scan over its pieces. -/
theorem scanLoop_eq
    (fuel offset : Nat)
    (regexAllowed : Bool)
    (chars : List Char) :
    scanLoop unicode fuel offset regexAllowed chars =
      (scan (findLexeme unicode) fuel regexAllowed chars).map
        (tokenizationOf offset) := by
  induction fuel generalizing offset regexAllowed chars with
  | zero => cases chars <;> rfl
  | succ fuel ih =>
    cases chars with
    | nil => rfl
    | cons char chars =>
      rw [scanLoop, scan]
      cases hLexeme :
          nextLexeme unicode regexAllowed char chars with
      | none =>
        have hFind :
            findLexeme unicode regexAllowed char chars
              = none := by
          unfold findLexeme
          rw [hLexeme]
          rfl
        rw [hFind]
        rfl
      | some lexeme =>
        have hFind :
            findLexeme unicode regexAllowed char chars =
              some
                ⟨lexeme.width, lexeme.regexAllowed,
                  ⟨lexeme.token, lexeme.uncertain⟩⟩ := by
          unfold findLexeme
          rw [hLexeme]
          rfl
        have hFits := nextLexeme_fits hLexeme
        have hToken :
            lexeme.token.map
                (lexemeToken offset
                  ((char :: chars).take lexeme.width)) =
              lexeme.token.map
                (lexemeToken offset (char :: chars)) := by
          cases hPlace : lexeme.token with
          | none => rfl
          | some place =>
            rcases place with ⟨kind, start, stop⟩
            rcases hFits.token _ _ _ hPlace with
              ⟨hStart, hStop, _⟩
            rw [Option.map_some, Option.map_some,
              lexemeToken_take hStart hStop]
        rw [hFind]
        simp only [Option.bind_eq_bind, Option.bind_some, ih]
        cases scan (findLexeme unicode) fuel
            lexeme.regexAllowed
            ((char :: chars).drop lexeme.width) with
        | none => rfl
        | some pieces =>
          simp only [Option.map_some,
            Option.bind_some, tokenizationOf,
            pieceTokens, List.any_cons, hToken]

theorem tokenizeWithStatus_eq
    (source : List Char) :
    tokenizeWithStatus unicode source =
      (scan (findLexeme unicode) source.length true source).map
        (tokenizationOf 0) :=
  scanLoop_eq source.length 0 true source

----------
-- What Follows
----------

section Context

variable {taken rest other : List Char}
variable {pattern : List Char}

/- A prefix is told by as many characters as it has. -/
theorem isPrefixOf_exchange
    (hLength : pattern.length ≤ taken.length) :
    pattern.isPrefixOf (taken ++ rest) =
      pattern.isPrefixOf (taken ++ other) := by
  induction pattern generalizing taken with
  | nil => rfl
  | cons head pattern ih =>
    cases taken with
    | nil =>
      rw [List.length_cons, List.length_nil] at hLength
      omega
    | cons char taken =>
      rw [List.length_cons, List.length_cons] at hLength
      rw [List.cons_append, List.cons_append,
        List.isPrefixOf, List.isPrefixOf,
        ih (Nat.le_of_succ_le_succ hLength)]

theorem takeWhile_stop
    {test : Char → Bool}
    {char : Char}
    {chars : List Char}
    (hStop : test char = false) :
    (taken ++ char :: chars).takeWhile test =
      taken.takeWhile test := by
  induction taken with
  | nil =>
    rw [List.nil_append, List.takeWhile_cons, hStop]
    rfl
  | cons head taken ih =>
    rw [List.cons_append, List.takeWhile_cons,
      List.takeWhile_cons, ih]

variable {length : Nat}

theorem findPattern_exchange
    (hFind :
      findPattern pattern (taken ++ rest) = some length)
    (hLength : length + pattern.length ≤ taken.length) :
    findPattern pattern (taken ++ other) = some length := by
  induction taken generalizing length with
  | nil =>
    rw [List.length_nil] at hLength
    have hNil : pattern = [] :=
      List.eq_nil_of_length_eq_zero (by omega)
    have hZero : length = 0 := by omega
    subst hNil hZero
    cases other <;> rfl
  | cons char taken ih =>
    rw [List.cons_append, findPattern] at hFind ⊢
    have hSame :
        pattern.isPrefixOf (char :: (taken ++ rest)) =
          pattern.isPrefixOf (char :: (taken ++ other)) :=
      @isPrefixOf_exchange (char :: taken) rest other pattern
        (by omega)
    rw [← hSame]
    split at hFind
    · rename_i hPrefix
      rw [if_pos hPrefix]
      exact hFind
    · rename_i hPrefix
      rw [if_neg hPrefix]
      cases hTail : findPattern pattern (taken ++ rest) with
      | none =>
        rw [hTail] at hFind
        cases hFind
      | some found =>
        rw [hTail] at hFind
        have hSucc : found + 1 = length := Option.some.inj hFind
        rw [List.length_cons] at hLength
        rw [ih hTail (by omega), Option.map_some, hSucc]

theorem quotedLength_exchange
    {quote : Char}
    {escaped : Bool}
    (hQuoted :
      quotedLength quote escaped (taken ++ rest)
        = some length)
    (hLength : length ≤ taken.length) :
    quotedLength quote escaped (taken ++ other)
      = some length := by
  induction taken generalizing escaped length with
  | nil =>
    have hPos := quotedLength_pos hQuoted
    rw [List.length_nil] at hLength
    omega
  | cons char taken ih =>
    have hMore :
        ∀ escaped,
          (quotedLength quote escaped (taken ++ rest)).map
              (· + 1) = some length →
            (quotedLength quote escaped (taken ++ other)).map
              (· + 1) = some length := by
      intro escaped hMap
      cases hTail :
          quotedLength quote escaped (taken ++ rest) with
      | none =>
        rw [hTail] at hMap
        cases hMap
      | some found =>
        rw [hTail] at hMap
        cases hMap
        rw [List.length_cons] at hLength
        rw [ih hTail (Nat.le_of_succ_le_succ hLength)]
        rfl
    rw [List.cons_append] at hQuoted ⊢
    cases escaped with
    | true => exact hMore false hQuoted
    | false =>
      unfold quotedLength at hQuoted ⊢
      split at hQuoted
      · rename_i hEscape
        rw [if_pos hEscape]
        exact hMore true hQuoted
      · rename_i hEscape
        rw [if_neg hEscape]
        split at hQuoted
        · rename_i hClose
          rw [if_pos hClose]
          exact hQuoted
        · rename_i hClose
          rw [if_neg hClose]
          exact hMore false hQuoted

/- A line comment is told by its line. -/
theorem commentIsUncertain_exchange
    (hLine : '\n' ∈ taken) :
    commentIsUncertain (taken ++ rest) =
      commentIsUncertain (taken ++ other) := by
  induction taken with
  | nil => cases hLine
  | cons char taken ih =>
    rw [List.cons_append, List.cons_append]
    unfold commentIsUncertain
    by_cases hNewline : char = '\n'
    · rw [if_pos hNewline, if_pos hNewline]
    · rw [if_neg hNewline, if_neg hNewline]
      have hLater : '\n' ∈ taken := by
        rcases List.mem_cons.mp hLine with hHere | hLater
        · exact absurd hHere.symm hNewline
        · exact hLater
      have hHead :
          (taken ++ rest).head? = (taken ++ other).head? := by
        cases taken with
        | nil => cases hLater
        | cons next taken => rfl
      rw [ih hLater, hHead]

theorem takeWhile_line_exchange
    (hLine : '\n' ∈ taken) :
    (taken ++ rest).takeWhile (· ≠ '\n') =
      (taken ++ other).takeWhile (· ≠ '\n') := by
  induction taken with
  | nil => cases hLine
  | cons char taken ih =>
    rw [List.cons_append, List.cons_append,
      List.takeWhile_cons, List.takeWhile_cons]
    by_cases hNewline : char = '\n'
    · rw [hNewline]
      rfl
    · have hLater : '\n' ∈ taken := by
        rcases List.mem_cons.mp hLine with hHere | hLater
        · exact absurd hHere.symm hNewline
        · exact hLater
      rw [ih hLater]

/- A line comment that stops has found a newline. -/
theorem newline_mem
    {char : Char}
    {chars : List Char}
    (hChar : char ≠ '\n')
    (hWidth :
      ((taken ++ char :: chars).takeWhile (· ≠ '\n')).length
        ≤ taken.length) :
    '\n' ∈ taken := by
  by_contra hNone
  have hAll :
      ∀ letter ∈ taken, decide (letter ≠ '\n') = true := by
    intro letter hLetter
    refine decide_eq_true ?_
    rintro rfl
    exact hNone hLetter
  rw [List.takeWhile_append_of_pos hAll, List.length_append,
    List.takeWhile_cons] at hWidth
  simp only [decide_eq_true hChar, if_true, List.length_cons]
    at hWidth
  omega

variable {escaped inCharacterClass : Bool}

theorem regexLength_pos
    {chars : List Char}
    (hRegex :
      regexLength unicode escaped inCharacterClass chars
        = some length) :
    0 < length := by
  cases chars with
  | nil => cases hRegex
  | cons char chars =>
    have hMap :
        ∀ answer : Option Nat,
          answer.map (· + 1) = some length → 0 < length := by
      intro answer hAnswer
      cases answer with
      | none => cases hAnswer
      | some found =>
        have hSucc : found + 1 = length := Option.some.inj hAnswer
        omega
    unfold regexLength at hRegex
    split at hRegex
    · cases hRegex
    · split at hRegex
      · exact hMap _ hRegex
      · split at hRegex
        · exact hMap _ hRegex
        · split at hRegex
          · exact hMap _ hRegex
          · split at hRegex
            · exact hMap _ hRegex
            · split at hRegex
              · cases hRegex
                exact Nat.succ_pos _
              · exact hMap _ hRegex

/- The regular expression and the flags behind it. -/
theorem regexLength_exchange
    {first second : Char}
    (hFirst : isIdentifierContinue unicode first = false)
    (hSecond : isIdentifierContinue unicode second = false)
    (hRegex :
      regexLength unicode escaped inCharacterClass
        (taken ++ first :: rest) = some length)
    (hLength : length ≤ taken.length) :
    regexLength unicode escaped inCharacterClass
      (taken ++ second :: other) = some length := by
  induction taken generalizing escaped inCharacterClass
    length with
  | nil =>
    have hPos := regexLength_pos hRegex
    rw [List.length_nil] at hLength
    omega
  | cons char taken ih =>
    have hMore :
        ∀ escaped inCharacterClass,
          (regexLength unicode escaped inCharacterClass
              (taken ++ first :: rest)).map (· + 1)
                = some length →
            (regexLength unicode escaped inCharacterClass
              (taken ++ second :: other)).map (· + 1)
                = some length := by
      intro escaped inCharacterClass hMap
      cases hTail :
          regexLength unicode escaped inCharacterClass
            (taken ++ first :: rest) with
      | none =>
        rw [hTail] at hMap
        cases hMap
      | some found =>
        rw [hTail] at hMap
        cases hMap
        rw [List.length_cons] at hLength
        rw [ih hTail (Nat.le_of_succ_le_succ hLength)]
        rfl
    rw [List.cons_append] at hRegex ⊢
    unfold regexLength at hRegex ⊢
    by_cases hLine : isLineTerminator char = true
    · rw [if_pos hLine] at hRegex
      cases hRegex
    · rw [if_neg hLine] at hRegex ⊢
      by_cases hEscaped : escaped = true
      · rw [if_pos hEscaped] at hRegex ⊢
        exact hMore _ _ hRegex
      · rw [if_neg hEscaped] at hRegex ⊢
        by_cases hEscape : char = '\\'
        · rw [if_pos hEscape] at hRegex ⊢
          exact hMore _ _ hRegex
        · rw [if_neg hEscape] at hRegex ⊢
          by_cases hOpen : char = '['
          · rw [if_pos hOpen] at hRegex ⊢
            exact hMore _ _ hRegex
          · rw [if_neg hOpen] at hRegex ⊢
            by_cases hClose : char = ']'
            · rw [if_pos hClose] at hRegex ⊢
              exact hMore _ _ hRegex
            · rw [if_neg hClose] at hRegex ⊢
              by_cases hEnd :
                  char = '/' ∧ inCharacterClass = false
              · rw [if_pos hEnd] at hRegex ⊢
                rw [takeWhile_stop hFirst] at hRegex
                rw [takeWhile_stop hSecond]
                exact hRegex
              · rw [if_neg hEnd] at hRegex ⊢
                exact hMore _ _ hRegex

end Context

/-
  The starts of the two rests: neither goes on with a name,
  a number or an operator.
-/
structure Separates
    (unicode : Unicode)
    (char : Char) : Prop where
  identifier : isIdentifierContinue unicode char = false
  number :
    (char.isAlphanum || char == '.' || char == '_') = false
  operator : char ∉ ['+', '-', '>', '=', '.', '*']

variable {taken rest other : List Char}

theorem pair_exchange
    {first second head char next : Char}
    (hFirst : first ≠ next)
    (hSecond : second ≠ next) :
    [head, next].isPrefixOf (char :: (taken ++ first :: rest))
      =
    [head, next].isPrefixOf
      (char :: (taken ++ second :: other)) := by
  cases taken with
  | nil =>
    have hNone :
        ∀ letter, letter ≠ next → (next == letter) = false :=
      fun letter hLetter =>
        beq_eq_false_iff_ne.mpr fun hSame =>
          hLetter hSame.symm
    simp only [List.nil_append, List.isPrefixOf,
      hNone first hFirst, hNone second hSecond,
      Bool.false_and, Bool.and_false]
  | cons letter taken =>
    exact
      @isPrefixOf_exchange (char :: letter :: taken)
        (first :: rest) (second :: other) [head, next]
        (by simp)

theorem visibleLexeme_exchange
    {first second char : Char}
    (hFirst : Separates unicode first)
    (hSecond : Separates unicode second)
    (hLexeme :
      visibleLexeme unicode regexAllowed char
        (taken ++ first :: rest) = some lexeme)
    (hWidth : lexeme.width ≤ taken.length + 1) :
    visibleLexeme unicode regexAllowed char
      (taken ++ second :: other) = some lexeme := by
  have hPair :
      ∀ head next, next ∈ ['+', '-', '>', '=', '.'] →
        [head, next].isPrefixOf
            (char :: (taken ++ first :: rest)) =
          [head, next].isPrefixOf
            (char :: (taken ++ second :: other)) := by
    intro head next hNext
    have hOperator :
        next ∈ ['+', '-', '>', '=', '.', '*'] :=
      List.mem_append_left ['*'] hNext
    refine pair_exchange ?_ ?_
    · rintro rfl
      exact hFirst.operator hOperator
    · rintro rfl
      exact hSecond.operator hOperator
  unfold visibleLexeme at hLexeme ⊢
  simp only at hLexeme ⊢
  split at hLexeme
  · rename_i hQuote
    rw [if_pos hQuote]
    unfold quotedLexeme at hLexeme ⊢
    cases hLength :
        quotedLength char false (taken ++ first :: rest) with
    | none =>
      rw [hLength] at hLexeme
      cases hLexeme
    | some length =>
      rw [hLength] at hLexeme
      injection hLexeme with hLexeme
      subst hLexeme
      have hShort : length ≤ taken.length :=
        Nat.le_of_succ_le_succ hWidth
      rw [quotedLength_exchange hLength hShort]
      rfl
  · rename_i hQuote
    rw [if_neg hQuote]
    split at hLexeme
    · rename_i hDigit
      rw [if_pos hDigit]
      have hSame :
          numberLength (char :: (taken ++ first :: rest)) =
            numberLength
              (char :: (taken ++ second :: other)) := by
        unfold numberLength
        have hStop :
            ∀ letter chars,
              (letter.isAlphanum || letter == '.'
                  || letter == '_') = false →
                ((char :: taken) ++ letter :: chars).takeWhile
                    (fun char =>
                      char.isAlphanum || char == '.'
                        || char == '_') =
                  (char :: taken).takeWhile
                    (fun char =>
                      char.isAlphanum || char == '.'
                        || char == '_') :=
          fun letter chars hLetter => takeWhile_stop hLetter
        have hLeft := hStop first rest hFirst.number
        have hRight := hStop second other hSecond.number
        rw [List.cons_append] at hLeft hRight
        rw [hLeft, hRight]
      rw [← hSame]
      exact hLexeme
    · rename_i hDigit
      rw [if_neg hDigit]
      split at hLexeme
      · rename_i hName
        rw [if_pos hName]
        have hLeft :=
          @takeWhile_stop taken
            (isIdentifierContinue unicode) first rest
            hFirst.identifier
        have hRight :=
          @takeWhile_stop taken
            (isIdentifierContinue unicode) second other
            hSecond.identifier
        rw [hLeft] at hLexeme
        rw [hRight]
        have hShort :
            1 + (taken.takeWhile
                (isIdentifierContinue unicode)).length
              ≤ (char :: taken).length := by
          have hTaken :=
            (List.takeWhile_sublist
              (isIdentifierContinue unicode)
              (l := taken)).length_le
          rw [List.length_cons]
          omega
        have hTake :
            ∀ chars : List Char,
              (char :: (taken ++ chars)).take
                  (1 + (taken.takeWhile
                    (isIdentifierContinue unicode)).length) =
                (char :: taken).take
                  (1 + (taken.takeWhile
                    (isIdentifierContinue unicode)).length) :=
          fun chars => by
            rw [← List.cons_append,
              List.take_append_of_le_length hShort]
        rw [hTake] at hLexeme
        rw [hTake]
        exact hLexeme
      · rename_i hName
        rw [if_neg hName]
        split at hLexeme
        · rename_i hRegex
          rw [if_pos hRegex]
          cases hLength :
              regexLength unicode false false
                (taken ++ first :: rest) with
          | none =>
            rw [hLength] at hLexeme
            cases hLexeme
          | some length =>
            rw [hLength] at hLexeme
            injection hLexeme with hLexeme
            subst hLexeme
            have hShort : length ≤ taken.length :=
              Nat.le_of_succ_le_succ hWidth
            rw [regexLength_exchange hFirst.identifier
              hSecond.identifier hLength hShort]
            rfl
        · rename_i hRegex
          rw [if_neg hRegex, ← hPair '+' '+' (by simp),
            ← hPair '-' '-' (by simp),
            ← hPair '=' '>' (by simp)]
          unfold punctuationAllowsRegexAfter at hLexeme ⊢
          rw [← hPair '!' '=' (by simp),
            ← hPair '?' '.' (by simp)]
          exact hLexeme

/-
  A lexeme in front of a block comment is found in front of
  a character that separates, too.
-/
theorem nextLexeme_exchange
    {second char : Char}
    (hSlash : Separates unicode '/')
    (hSecond : Separates unicode second)
    (hNot : second ≠ '/')
    (hLexeme :
      nextLexeme unicode regexAllowed char
        (taken ++ '/' :: rest) = some lexeme)
    (hWidth : lexeme.width ≤ taken.length + 1) :
    nextLexeme unicode regexAllowed char
      (taken ++ second :: other) = some lexeme := by
  have hStar :
      ['/', '*'].isPrefixOf (char :: (taken ++ '/' :: rest)) =
        ['/', '*'].isPrefixOf
          (char :: (taken ++ second :: other)) := by
    refine pair_exchange (by decide) ?_
    rintro rfl
    exact hSecond.operator (by decide)
  unfold nextLexeme at hLexeme ⊢
  simp only at hLexeme ⊢
  by_cases hLine :
      ['/', '/'].isPrefixOf (char :: (taken ++ '/' :: rest))
        = true
  · rw [if_pos hLine] at hLexeme
    injection hLexeme with hLexeme
    subst hLexeme
    have hMem : '\n' ∈ char :: taken :=
      @newline_mem (char :: taken) '/' rest (by decide) hWidth
    have hLong : 2 ≤ (char :: taken).length := by
      have hTwo := lineComment_width hLine
      simp only at hWidth
      rw [List.length_cons]
      omega
    have hSame :=
      @isPrefixOf_exchange (char :: taken) ('/' :: rest)
        (second :: other) ['/', '/'] hLong
    have hUncertain :=
      @commentIsUncertain_exchange (char :: taken)
        ('/' :: rest) (second :: other) hMem
    have hTake :=
      @takeWhile_line_exchange (char :: taken)
        ('/' :: rest) (second :: other) hMem
    simp only [List.cons_append] at hSame hUncertain hTake
    rw [if_pos (hSame ▸ hLine), ← hUncertain, ← hTake]
  · rw [if_neg hLine] at hLexeme
    have hNone :
        ¬ ['/', '/'].isPrefixOf
          (char :: (taken ++ second :: other)) = true := by
      cases taken with
      | nil =>
        simp only [List.nil_append, List.isPrefixOf,
          Bool.and_eq_true, beq_iff_eq, not_and]
        exact fun _ hSame => absurd hSame.symm hNot
      | cons letter taken =>
        have hSame :=
          @isPrefixOf_exchange (char :: letter :: taken)
            ('/' :: rest) (second :: other) ['/', '/']
            (by simp)
        simp only [List.cons_append] at hSame hLine ⊢
        exact hSame ▸ hLine
    rw [if_neg hNone, ← hStar]
    by_cases hBlock :
        ['/', '*'].isPrefixOf (char :: (taken ++ '/' :: rest))
          = true
    · rw [if_pos hBlock] at hLexeme ⊢
      cases hFind :
          findPattern ['*', '/']
            (char :: (taken ++ '/' :: rest)) with
      | none =>
        rw [hFind] at hLexeme
        cases hLexeme
      | some length =>
        rw [hFind] at hLexeme
        injection hLexeme with hLexeme
        subst hLexeme
        have hFound :=
          @findPattern_exchange (char :: taken) ('/' :: rest)
            (second :: other) ['*', '/'] length hFind hWidth
        rw [List.cons_append] at hFound
        rw [hFound]
        rfl
    · rw [if_neg hBlock] at hLexeme ⊢
      by_cases hSpace : unicode.isWhitespace char = true
      · rw [if_pos hSpace] at hLexeme ⊢
        exact hLexeme
      · rw [if_neg hSpace] at hLexeme ⊢
        exact visibleLexeme_exchange hSlash hSecond hLexeme hWidth

theorem findLexeme_contextFree
    {rest other : List Char}
    {second : Char}
    (hSlash : Separates unicode '/')
    (hSecond : Separates unicode second)
    (hNot : second ≠ '/') :
    ContextFree (findLexeme unicode) ('/' :: rest)
      (second :: other) := by
  intro regexAllowed char taken found hFind hWidth
  rcases findLexeme_eq_some_iff.mp hFind with
    ⟨lexeme, hLexeme, rfl⟩
  exact
    findLexeme_eq_some_iff.mpr
      ⟨lexeme,
        nextLexeme_exchange hSlash hSecond hNot hLexeme hWidth,
        rfl⟩

end Scanner

end ArktsServer
