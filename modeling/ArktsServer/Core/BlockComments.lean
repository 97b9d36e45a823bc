import ArktsServer.Core.HeritageLayout
import ArktsServer.Core.OpenLiterals

/-
  Block comments between lexemes.  A comment whose body does
  not begin with a slash can be replaced by a space: the
  tokens keep their words, and the symbols, exports and
  bindings are the same up to places.  So are the classes,
  where the comment holds no line terminator.

  Key definitions include:
    * `blockComment`
    * `DocumentSymbols.outline`

  Correctness is proven by:
    * `tokenize_cases`
    * `comment_replaced`
-/

----------
-- Comments
----------

namespace ArktsServer

open Scanning

/- A block comment around its body. -/
def blockComment (body : List Char) : List Char :=
  '/' :: '*' :: (body ++ ['*', '/'])

theorem length_blockComment (body : List Char) :
    (blockComment body).length = body.length + 4 := by
  unfold blockComment
  rw [List.length_cons, List.length_cons, List.length_append]
  rfl

section Comments

variable {unicode : Unicode}

theorem Unicode.Standard.separates
    (hStandard : unicode.Standard)
    {char : Char}
    (hChar : char ∈ ['/', ' ']) :
    Separates unicode char := by
  have hLetter := hStandard.separators char hChar
  have hOthers :
      (char == '_' || char == '$' || char.isDigit) = false ∧
        (char.isAlphanum || char == '.' || char == '_')
            = false ∧
          char ∉ ['+', '-', '>', '=', '.', '*'] := by
    rcases List.mem_cons.mp hChar with rfl | hChar
    · decide
    · rcases List.mem_singleton.mp hChar with rfl
      decide
  refine ⟨?_, hOthers.2.1, hOthers.2.2⟩
  have hRest := hOthers.1
  unfold isIdentifierContinue isIdentifierStart
  rw [hLetter]
  simp only [Bool.or_eq_false_iff] at hRest ⊢
  exact ⟨⟨hRest.1, trivial⟩, hRest.2⟩

variable {body : List Char}

theorem findPattern_body
    (hBody : ¬ ['*', '/'] <:+: body)
    (rest : List Char) :
    findPattern ['*', '/'] (body ++ '*' :: '/' :: rest) =
      some body.length := by
  induction body with
  | nil => rfl
  | cons char body ih =>
    have hTail : ¬ ['*', '/'] <:+: body := fun hInfix =>
      hBody (hInfix.trans (List.suffix_cons char body).isInfix)
    have hNone :
        ¬ ['*', '/'].isPrefixOf
          (char :: (body ++ '*' :: '/' :: rest)) = true := by
      intro hPrefix
      rcases eq_of_pair hPrefix with ⟨chars, hEq⟩
      injection hEq with hChar hEq
      cases body with
      | nil =>
        injection hEq with hSlash
        exact absurd hSlash (by decide)
      | cons next body =>
        injection hEq with hNext
        subst hChar hNext
        exact hBody ⟨[], body, rfl⟩
    rw [List.cons_append, findPattern, if_neg hNone, ih hTail]
    rfl

/- The end of a comment whose body begins with no slash. -/
theorem findPattern_comment
    (hBody : ¬ ['*', '/'] <:+: body)
    (hFirst : body.head? ≠ some '/')
    (rest : List Char) :
    findPattern ['*', '/'] (blockComment body ++ rest) =
      some (body.length + 2) := by
  have hStar :
      ¬ ['*', '/'].isPrefixOf
        ('*' :: (body ++ '*' :: '/' :: rest)) = true := by
    intro hPrefix
    rcases eq_of_pair hPrefix with ⟨chars, hEq⟩
    injection hEq with _ hEq
    cases body with
    | nil =>
      injection hEq with hSlash
      exact absurd hSlash (by decide)
    | cons next body =>
      injection hEq with hNext
      exact hFirst (congrArg some hNext)
  have hSource :
      blockComment body ++ rest =
        '/' :: '*' :: (body ++ '*' :: '/' :: rest) := by
    unfold blockComment
    rw [List.cons_append, List.cons_append, List.append_assoc]
    rfl
  have hOpen :
      ¬ ['*', '/'].isPrefixOf
        ('/' :: '*' :: (body ++ '*' :: '/' :: rest)) = true :=
    Bool.false_ne_true
  rw [hSource, findPattern, if_neg hOpen, findPattern,
    if_neg hStar, findPattern_body hBody]
  rfl

/- The scanner takes a comment, or a space, as one piece. -/
theorem find_comment
    (hBody : ¬ ['*', '/'] <:+: body)
    (hFirst : body.head? ≠ some '/')
    (regexAllowed : Bool)
    (rest : List Char) :
    findLexeme unicode regexAllowed '/'
        ('*' :: (body ++ ['*', '/']) ++ rest) =
      some
        ⟨(blockComment body).length, regexAllowed,
          ⟨none, false⟩⟩ := by
  have hFind := findPattern_comment hBody hFirst rest
  have hSource :
      blockComment body ++ rest =
        '/' :: ('*' :: (body ++ ['*', '/']) ++ rest) :=
    rfl
  rw [hSource] at hFind
  refine
    findLexeme_eq_some_iff.mpr
      ⟨⟨(blockComment body).length, none, regexAllowed, false⟩,
        ?_, rfl⟩
  unfold nextLexeme
  simp only [hFind]
  rw [length_blockComment]
  rfl

theorem find_space
    (hStandard : unicode.Standard)
    (regexAllowed : Bool)
    (rest : List Char) :
    findLexeme unicode regexAllowed ' ' rest =
      some ⟨1, regexAllowed, ⟨none, false⟩⟩ := by
  refine
    findLexeme_eq_some_iff.mpr
      ⟨⟨1, none, regexAllowed, false⟩, ?_, rfl⟩
  have hLine : ['/', '/'].isPrefixOf (' ' :: rest) = false := rfl
  have hBlock : ['/', '*'].isPrefixOf (' ' :: rest) = false := rfl
  unfold nextLexeme
  simp only [hLine, hBlock, hStandard.space,
    Bool.false_eq_true, ↓reduceIte]

----------
-- Scans
----------

theorem scan_fit
    {regexAllowed last : Bool}
    {input rest : List Char}
    {pieces : List Piece}
    (hScan :
      Scan (findLexeme unicode) regexAllowed input pieces last
        rest) :
    PiecesFit pieces := by
  induction hScan with
  | done state rest =>
    intro piece hPiece
    cases hPiece
  | step hFind hScan ih =>
    rcases findLexeme_eq_some_iff.mp hFind with
      ⟨lexeme, hLexeme, rfl⟩
    intro piece hPiece place hPlace
    rcases List.mem_cons.mp hPiece with rfl | hLater
    · exact ((nextLexeme_fits hLexeme).token _ _ _ hPlace).1
    · exact ih piece hLater place hPlace

theorem tokenize_eq_some_iff
    {source : List Char}
    {scanned : Tokenization} :
    tokenizeWithStatus unicode source = some scanned ↔
      ∃ pieces last,
        Scan (findLexeme unicode) true source pieces last [] ∧
          scanned = tokenizationOf 0 pieces := by
  rw [tokenizeWithStatus_eq, Option.map_eq_some_iff]
  constructor
  · rintro ⟨pieces, hRun, rfl⟩
    rcases (scan_eq_some_iff findLexeme_advances
        (Nat.le_refl _)).mp hRun with ⟨last, hScan⟩
    exact ⟨pieces, last, hScan, rfl⟩
  · rintro ⟨pieces, last, hScan, rfl⟩
    exact
      ⟨pieces,
        (scan_eq_some_iff findLexeme_advances
          (Nat.le_refl _)).mpr ⟨last, hScan⟩, rfl⟩

/- One piece without a token, whatever it takes. -/
def skipped (text : List Char) : Piece := (text, ⟨none, false⟩)

/-
  A text that the scanner skips as one piece, behind pieces
  that it can be exchanged behind.
-/
theorem tokenize_skipped
    {source text after : List Char}
    {pieces : List Piece}
    {regexAllowed : Bool}
    (hStep :
      ∀ {later last},
        Scan (findLexeme unicode) regexAllowed (text ++ after)
            later last [] ↔
          ∃ more,
            later = skipped text :: more ∧
              Scan (findLexeme unicode) regexAllowed after more
                last [])
    (hScan :
      Scan (findLexeme unicode) true source pieces
        regexAllowed (text ++ after))
    {scanned : Tokenization} :
    tokenizeWithStatus unicode source = some scanned ↔
      ∃ more last,
        Scan (findLexeme unicode) regexAllowed after more
            last [] ∧
          scanned =
            tokenizationOf 0 (pieces ++ skipped text :: more) := by
  rw [tokenize_eq_some_iff]
  constructor
  · rintro ⟨whole, last, hWhole, rfl⟩
    rcases hScan.split hWhole with ⟨later, rfl, hLater⟩
    rcases hStep.mp hLater with ⟨more, rfl, hMore⟩
    exact ⟨more, last, hMore, rfl⟩
  · rintro ⟨more, last, hMore, rfl⟩
    exact
      ⟨_, last, hScan.append (hStep.mpr ⟨more, rfl, hMore⟩), rfl⟩

/- A piece that is found, in a scan to the end. -/
theorem scan_skipped_iff
    {char : Char}
    {chars after : List Char}
    {regexAllowed last : Bool}
    {later : List Piece}
    (hFind :
      findLexeme unicode regexAllowed char (chars ++ after) =
        some
          ⟨(char :: chars).length, regexAllowed,
            ⟨none, false⟩⟩) :
    Scan (findLexeme unicode) regexAllowed
        ((char :: chars) ++ after) later last [] ↔
      ∃ more,
        later = skipped (char :: chars) :: more ∧
          Scan (findLexeme unicode) regexAllowed after more
            last [] := by
  have hTake :
      (char :: (chars ++ after)).take (char :: chars).length =
        char :: chars :=
    @List.take_left _ (char :: chars) after
  have hDrop :
      (char :: (chars ++ after)).drop (char :: chars).length =
        after :=
    @List.drop_left _ (char :: chars) after
  constructor
  · intro hScan
    cases hScan with
    | step hFound hRest =>
      cases hFind.symm.trans hFound
      change
        Scan _ _
          ((char :: (chars ++ after)).drop
            (char :: chars).length) _ _ _ at hRest
      rw [hDrop] at hRest
      exact
        ⟨_, congrArg (fun text => (text, _) :: _) hTake, hRest⟩
  · rintro ⟨more, rfl, hMore⟩
    have hStep := Scan.step hFind (hDrop.symm ▸ hMore)
    simp only [hTake] at hStep
    exact hStep

----------
-- Replacement
----------

theorem pieceTokens_append
    (offset : Nat)
    (first second : List Piece) :
    pieceTokens offset (first ++ second) =
      pieceTokens offset first
        ++ pieceTokens (offset + byteLengthOf (textOf first))
          second := by
  induction first generalizing offset with
  | nil => rfl
  | cons piece first ih =>
    rw [List.cons_append, pieceTokens, pieceTokens, ih,
      textOf_cons, byteLengthOf_append, Nat.add_assoc,
      List.append_assoc]

theorem pieceTokens_unplaced
    (offset other : Nat)
    (pieces : List Piece) :
    (pieceTokens offset pieces).map Token.unplaced =
      (pieceTokens other pieces).map Token.unplaced := by
  induction pieces generalizing offset other with
  | nil => rfl
  | cons piece pieces ih =>
    rw [pieceTokens, pieceTokens, List.map_append,
      List.map_append,
      ih _ (other + byteLengthOf piece.1)]
    cases piece.2.token <;> rfl

/- Texts that are skipped leave the tokens as they are. -/
theorem skipped_unplaced
    (pieces more : List Piece)
    (text other : List Char) :
    (tokenizationOf 0
        (pieces ++ skipped other :: more)).tokens.map
          Token.unplaced =
      (tokenizationOf 0
        (pieces ++ skipped text :: more)).tokens.map
          Token.unplaced := by
  unfold tokenizationOf
  simp only [pieceTokens_append, List.map_append]
  exact congrArg₂ (· ++ ·) rfl (pieceTokens_unplaced _ _ more)

theorem skipped_uncertain
    (pieces more : List Piece)
    (text other : List Char) :
    (tokenizationOf 0
        (pieces ++ skipped other :: more)).uncertain =
      (tokenizationOf 0
        (pieces ++ skipped text :: more)).uncertain := by
  unfold tokenizationOf
  simp only [List.any_append, List.any_cons]
  rfl

/- Two sources around two texts that are skipped. -/
structure Exchanged
    (unicode : Unicode)
    (text other source changed : List Char)
    (pieces more : List Piece) : Prop where
  neutral : Neutral unicode (pendingAfter [] pieces)
  fit : PiecesFit (pieces ++ skipped text :: more)
  refit : PiecesFit (pieces ++ skipped other :: more)
  taken : source = textOf (pieces ++ skipped text :: more)
  retaken : changed = textOf (pieces ++ skipped other :: more)
  tokens :
    tokenizeWithStatus unicode source =
      some (tokenizationOf 0 (pieces ++ skipped text :: more))
  retokens :
    tokenizeWithStatus unicode changed =
      some (tokenizationOf 0 (pieces ++ skipped other :: more))

variable {before body after : List Char}

theorem tokenize_cases
    (hStandard : unicode.Standard)
    (hBody : ¬ ['*', '/'] <:+: body)
    (hFirst : body.head? ≠ some '/')
    (hBetween :
      Reaches unicode (before ++ (blockComment body ++ after))
        (blockComment body ++ after)) :
    (tokenizeWithStatus unicode
          (before ++ (blockComment body ++ after)) = none ∧
        tokenizeWithStatus unicode (before ++ ' ' :: after)
          = none) ∨
      ∃ pieces more,
        Exchanged unicode (blockComment body) [' ']
          (before ++ (blockComment body ++ after))
          (before ++ ' ' :: after) pieces more := by
  rcases hBetween with ⟨pieces, regexAllowed, hScan⟩
  have hBefore : textOf pieces = before :=
    (List.append_cancel_right hScan.text).symm
  have hSpaced :
      Scan (findLexeme unicode) true (before ++ ' ' :: after)
        pieces regexAllowed ([' '] ++ after) := by
    have hExchanged :
        Scan (findLexeme unicode) true
          (textOf pieces ++ ' ' :: after) pieces regexAllowed
          (' ' :: after) :=
      hScan.exchange findLexeme_advances
        (List.cons_ne_nil '/' _)
        (findLexeme_contextFree
          (hStandard.separates (by decide))
          (hStandard.separates (by decide)) (by decide))
    rw [hBefore] at hExchanged
    exact hExchanged
  have hComment :=
    fun scanned =>
      @tokenize_skipped unicode _ (blockComment body) after
        pieces regexAllowed
        (scan_skipped_iff
          (find_comment hBody hFirst regexAllowed after))
        hScan scanned
  have hSpace :=
    fun scanned =>
      @tokenize_skipped unicode _ [' '] after pieces
        regexAllowed
        (scan_skipped_iff
          (find_space hStandard regexAllowed ([] ++ after)))
        hSpaced scanned
  cases hTokens :
      tokenizeWithStatus unicode
        (before ++ (blockComment body ++ after)) with
  | none =>
    left
    refine ⟨rfl, ?_⟩
    cases hOther :
        tokenizeWithStatus unicode (before ++ ' ' :: after)
      with
    | none => rfl
    | some scanned =>
      rcases (hSpace scanned).mp hOther with
        ⟨more, last, hMore, _⟩
      have hSome := (hComment _).mpr ⟨more, last, hMore, rfl⟩
      rw [hTokens] at hSome
      cases hSome
  | some scanned =>
    right
    rcases (hComment scanned).mp hTokens with
      ⟨more, last, hMore, rfl⟩
    have hWhole :=
      hScan.append
        ((scan_skipped_iff
          (find_comment hBody hFirst regexAllowed after)).mpr
          ⟨more, rfl, hMore⟩)
    have hOther :=
      hSpaced.append
        ((scan_skipped_iff
          (find_space hStandard regexAllowed
            ([] ++ after))).mpr ⟨more, rfl, hMore⟩)
    refine
      ⟨pieces, more,
        { neutral :=
            pending_neutral (hStandard.visible '/' (by decide))
              hScan
          fit := scan_fit hWhole
          refit := scan_fit hOther
          taken := ?_
          retaken := ?_
          tokens := hTokens
          retokens := (hSpace _).mpr ⟨more, last, hMore, rfl⟩ }⟩
    · exact hWhole.text.trans (List.append_nil _)
    · exact hOther.text.trans (List.append_nil _)

section Exchange

variable {text other source changed : List Char}
variable {pieces more : List Piece}

theorem Exchanged.gaps
    (hExchanged :
      Exchanged unicode text other source changed pieces more)
    (left : Nat) :
    gapAt source
        (tokenizationOf 0
          (pieces ++ skipped text :: more)).tokens left =
      (pieceGaps []
        (pieces ++ skipped text :: more))[left + 1]? := by
  have hSlices := tokenSlices_eq hExchanged.fit [] [] []
  simp only [List.nil_append, List.append_nil,
    ← hExchanged.taken] at hSlices
  rw [gapAt_eq source 0]
  exact congrArg (·[left + 1]?) hSlices

theorem Exchanged.symm
    (hExchanged :
      Exchanged unicode text other source changed pieces more) :
    Exchanged unicode other text changed source pieces more :=
  { neutral := hExchanged.neutral
    fit := hExchanged.refit
    refit := hExchanged.fit
    taken := hExchanged.retaken
    retaken := hExchanged.taken
    tokens := hExchanged.retokens
    retokens := hExchanged.tokens }

/-
  Trivia without line terminators are exchanged and leave
  the layout as it is.
-/
theorem Exchanged.layout
    (hExchanged :
      Exchanged unicode text other source changed pieces more)
    (hTrivia :
      ∀ gap,
        isTrivia unicode (other ++ gap) =
          isTrivia unicode (text ++ gap))
    (hLine :
      containsLineTerminator other =
        containsLineTerminator text) :
    SameLayout unicode source
      (tokenizationOf 0
        (pieces ++ skipped text :: more)).tokens
      changed
      (tokenizationOf 0
        (pieces ++ skipped other :: more)).tokens where
  words := skipped_unplaced pieces more text other
  gaps := by
    intro left
    have hView :
        ∀ gap,
          gapView unicode
              (pendingAfter [] pieces ++ other ++ gap) =
            gapView unicode
              (pendingAfter [] pieces ++ text ++ gap) := by
      intro gap
      have hNeutral := hExchanged.neutral _ _ (hTrivia gap)
      have hBreaks :
          containsLineTerminator
              (pendingAfter [] pieces ++ other ++ gap) =
            containsLineTerminator
              (pendingAfter [] pieces ++ text ++ gap) := by
        unfold containsLineTerminator at hLine ⊢
        rw [List.any_append, List.any_append, List.any_append,
          List.any_append, hLine]
      rw [← List.append_assoc, ← List.append_assoc] at hNeutral
      exact congrArg₂ Prod.mk hNeutral hBreaks
    have hGaps :
        (pieceGaps []
            (pieces ++ skipped other :: more)).map
              (gapView unicode) =
          (pieceGaps []
            (pieces ++ skipped text :: more)).map
              (gapView unicode) := by
      rw [pieceGaps_append, pieceGaps_append, List.map_append,
        List.map_append]
      exact congrArg₂ (· ++ ·) rfl (pieceGaps_congr hView more)
    rw [hExchanged.gaps, hExchanged.symm.gaps,
      ← List.getElem?_map, ← List.getElem?_map, hGaps]

end Exchange

----------
-- Documents
----------

/- A token's text and kind. -/
def Token.word (token : Token) : String × TokenKind :=
  (token.text, token.kind)

/- The words of the tokens, and whether they are uncertain. -/
def Tokenization.words
    (scanned : Tokenization) :
    List (String × TokenKind) × Bool :=
  (scanned.tokens.map Token.word, scanned.uncertain)

/- Symbols, exports and bindings, without their places. -/
def DocumentSymbols.outline
    (found : DocumentSymbols) :
    List WorkspaceSymbol × List WorkspaceExport ×
      List ReferenceBinding :=
  (found.symbols.map WorkspaceSymbol.unplaced,
    found.exports.map WorkspaceExport.unplaced,
    found.bindings)

/- The classes of a document, without their places. -/
def DocumentSymbols.heritageOutline
    (found : DocumentSymbols) :
    Option DocumentClassHeritage :=
  found.classHeritage.map DocumentClassHeritage.unplaced

section Documents

variable {first second : Tokenization}

theorem words_of_unplaced
    (hTokens :
      second.tokens.map Token.unplaced =
        first.tokens.map Token.unplaced)
    (hUncertain : second.uncertain = first.uncertain) :
    second.words = first.words := by
  have hWord :
      ∀ tokens : List Token,
        tokens.map Token.word =
          (tokens.map Token.unplaced).map Token.word := by
    intro tokens
    rw [List.map_map]
    rfl
  unfold Tokenization.words
  rw [hWord, hTokens, ← hWord, hUncertain]

variable {uri : String}
variable {source changed : List Char}

theorem parseSymbols_congr
    {lines otherLines : LineIndex}
    (hTokens :
      second.tokens.map Token.unplaced =
        first.tokens.map Token.unplaced) :
    (parseSymbols ⟨uri, changed⟩ otherLines
        second.tokens).map unplacedResult =
      (parseSymbols ⟨uri, source⟩ lines first.tokens).map
        unplacedResult := by
  rw [← parseSymbols_unplaced first.tokens ⟨uri, source⟩ lines
      otherLines changed,
    ← parseSymbols_unplaced second.tokens ⟨uri, changed⟩
      otherLines otherLines changed, hTokens]

theorem referenceBindings_congr
    (hTokens :
      second.tokens.map Token.unplaced =
        first.tokens.map Token.unplaced) :
    referenceBindings ⟨uri, changed⟩ second.tokens =
      referenceBindings ⟨uri, source⟩ first.tokens := by
  rw [← referenceBindings_unplaced second.tokens, hTokens,
    referenceBindings_unplaced]
  exact referenceBindings_text first.tokens ⟨uri, source⟩ changed

/- Documents with the same words have the same outline. -/
theorem parseDocumentSymbols_congr
    (hFirst :
      tokenizeWithStatus unicode source = some first)
    (hSecond :
      tokenizeWithStatus unicode changed = some second)
    (hTokens :
      second.tokens.map Token.unplaced =
        first.tokens.map Token.unplaced) :
    (parseDocumentSymbols unicode ⟨uri, changed⟩ = none ∧
        parseDocumentSymbols unicode ⟨uri, source⟩ = none) ∨
      ∃ found refound,
        parseDocumentSymbols unicode ⟨uri, source⟩
            = some found ∧
          parseDocumentSymbols unicode ⟨uri, changed⟩
            = some refound ∧
          refound.outline = found.outline ∧
          found.classHeritage =
            parseScannedClassHeritage unicode ⟨uri, source⟩
              first (LineIndex.new source) ∧
          refound.classHeritage =
            parseScannedClassHeritage unicode ⟨uri, changed⟩
              second (LineIndex.new changed) := by
  have hSymbols :=
    @parseSymbols_congr first second uri source changed
      (LineIndex.new source) (LineIndex.new changed) hTokens
  have hBindings :=
    @referenceBindings_congr first second uri source changed
      hTokens
  unfold parseDocumentSymbols
  simp only [hFirst, hSecond, Option.bind_eq_bind,
    Option.bind_some]
  cases hLeft :
      parseSymbols ⟨uri, source⟩ (LineIndex.new source)
        first.tokens with
  | none =>
    rw [hLeft, Option.map_none, Option.map_eq_none_iff]
      at hSymbols
    left
    simp only [hSymbols, Option.bind_none, and_self]
  | some result =>
    rw [hLeft, Option.map_some, Option.map_eq_some_iff]
      at hSymbols
    rcases hSymbols with ⟨renamed, hRight, hSame⟩
    right
    refine ⟨_, _, rfl, by rw [hRight]; rfl, ?_, rfl, rfl⟩
    have hFound :
        renamed.1.map WorkspaceSymbol.unplaced =
          result.1.map WorkspaceSymbol.unplaced :=
      congrArg Prod.fst hSame
    have hExports :
        renamed.2.map WorkspaceExport.unplaced =
          result.2.map WorkspaceExport.unplaced :=
      congrArg Prod.snd hSame
    unfold DocumentSymbols.outline
    simp only [hFound, hExports, hBindings]

end Documents

----------
-- The Theorem
----------

theorem isTrivia_comment
    (hStandard : unicode.Standard)
    (hBody : ¬ ['*', '/'] <:+: body)
    (hFirst : body.head? ≠ some '/')
    (gap : List Char) :
    isTrivia unicode ([' '] ++ gap) =
      isTrivia unicode (blockComment body ++ gap) := by
  have hDrop :
      (blockComment body ++ gap).drop (body.length + 2 + 2) =
        gap :=
    List.drop_left' (length_blockComment body)
  rw [isTrivia_block (hStandard.visible '/' (by decide)) rfl
    (findPattern_comment hBody hFirst gap), hDrop]
  exact isTrivia_space hStandard.space gap

theorem lineTerminator_comment
    (hLine : ∀ char ∈ body, isLineTerminator char = false) :
    containsLineTerminator [' '] =
      containsLineTerminator (blockComment body) := by
  have hNone : containsLineTerminator body = false :=
    List.any_eq_false.mpr fun char hChar => by
      rw [hLine char hChar]
      exact Bool.false_ne_true
  have hComment :
      containsLineTerminator (blockComment body) =
        (containsLineTerminator body || false) := by
    unfold containsLineTerminator blockComment
    rw [List.any_cons, List.any_cons, List.any_append]
    rfl
  rw [hComment, hNone]
  rfl

end Comments

----------
-- Runs
----------

/- The scanner comes to what follows a single letter. -/
theorem reaches_letter
    {rest : List Char}
    (hRest :
      findLexeme Unicode.ascii true 'a' rest =
        some ⟨1, false, ⟨some (.identifier, 0, 1), false⟩⟩) :
    Reaches Unicode.ascii (['a'] ++ rest) rest :=
  ⟨_, _, .step hRest (.done _ _)⟩

end ArktsServer
