import ArktsServer.Core.TokenGaps

/-
  The spans of tokens.  A token fills its piece of the source
  up to the quotes around it, so the spans follow each other
  even where a parser steps over the quotes.

  Key definitions include:
    * `Token.SpansIn`, `Token.Precedes`
    * `TokensSpan`

  Correctness is proven by:
    * `tokenizeWithStatus_spans`
    * `tokenizeWithStatus_fuel`
    * `tokenizeWithStatus_stops`
-/

----------
-- Spans
----------

namespace ArktsServer

open Scanning

/- A token and its quotes are stretches of their source. -/
structure Token.SpansIn
    (token : Token)
    (source : List Char) : Prop where
  quote : quoteWidth token ≤ token.start
  opening : Boundary source (token.start - quoteWidth token)
  closing : Boundary source (token.stop + quoteWidth token)
  text :
    token.text =
      String.ofList (sliceBytes source token.start token.stop)

/- A token ends, with its quote, in front of another one. -/
def Token.Precedes (left right : Token) : Prop :=
  left.stop + quoteWidth left ≤
    right.start - quoteWidth right

/- The tokens of a scan that starts at an offset. -/
structure TokensSpan
    (source : List Char)
    (offset : Nat)
    (tokens : List Token) : Prop where
  spans : ∀ token ∈ tokens, token.SpansIn source
  behind :
    ∀ token ∈ tokens,
      offset ≤ token.start - quoteWidth token
  ordered : tokens.Pairwise Token.Precedes

/- Tokens further on stand behind, with their quotes. -/
theorem TokensSpan.precedes
    {source : List Char}
    {offset : Nat}
    {tokens : List Token}
    (hTokens : TokensSpan source offset tokens)
    {left right : Nat}
    {first second : Token}
    (hFirst : tokens[left]? = some first)
    (hSecond : tokens[right]? = some second)
    (hLt : left < right) :
    first.Precedes second := by
  rcases List.getElem?_eq_some_iff.mp hFirst with
    ⟨hLeft, rfl⟩
  rcases List.getElem?_eq_some_iff.mp hSecond with
    ⟨hRight, rfl⟩
  exact
    List.pairwise_iff_getElem.mp hTokens.ordered left right
      hLeft hRight hLt

/- Only a string can be empty, and it has its quotes. -/
theorem Token.Precedes.starts
    {source : List Char}
    {left right : Token}
    (hBefore : left.Precedes right)
    (hLeft : left.PlacedIn source) :
    left.start < right.start ∧ left.stop ≤ right.start := by
  have hLe := hLeft.le
  unfold Token.Precedes at hBefore
  by_cases hKind : left.kind = .stringLiteral
  · have hWidth : quoteWidth left = 1 := if_pos hKind
    omega
  · have hLt := hLeft.lt hKind
    omega

section Scanner

variable {unicode : Unicode}
variable {regexAllowed : Bool}
variable {char : Char}
variable {chars : List Char}
variable {lexeme : Lexeme}
variable {place : TokenKind × Nat × Nat}

/- The bytes of the quotes around a token. -/
def kindWidth (kind : TokenKind) : Nat :=
  if kind = .stringLiteral then 1 else 0

/- A piece is its token and the quotes around it. -/
def Quoted
    (taken : List Char)
    (place : TokenKind × Nat × Nat) : Prop :=
  byteLengthOf (taken.take place.2.1) = kindWidth place.1 ∧
    byteLengthOf (taken.drop place.2.2) = kindWidth place.1

theorem nextLexeme_quoted
    (hLexeme :
      nextLexeme unicode regexAllowed char chars
        = some lexeme)
    (hToken : lexeme.token = some place) :
    Quoted ((char :: chars).take lexeme.width) place := by
  cases (nextLexeme_token hLexeme hToken).2 with
  | quoted hQuote hLength =>
    simp only at hToken
    split at hToken
    · cases hToken
    · rename_i hTemplate
      cases hToken
      have hSize : char.utf8Size = 1 := by
        simp only [List.contains_eq_mem, List.mem_cons,
          List.not_mem_nil, or_false, decide_eq_true_eq]
          at hQuote
        rcases hQuote with rfl | rfl | rfl
        · decide
        · decide
        · exact absurd rfl hTemplate
      rcases quotedLength_close hLength with
        ⟨body, hBody, hCount⟩
      have hCons : (char :: body).length = _ := hCount
      have hTail :
          ((char :: body) ++ [char]).drop _ = [char] :=
        List.drop_left' hCons
      rw [List.cons_append] at hTail
      unfold Quoted
      rw [List.take_succ_cons, hBody, hTail]
      simp [kindWidth, hSize]
  | number => cases hToken
  | regex => cases hToken
  | whole hWidth hKind =>
    cases hToken
    unfold Quoted
    rw [List.drop_eq_nil_of_le (List.length_take_le _ _)]
    simp [kindWidth, hKind]

/- The token of a piece, between its quotes. -/
theorem lexemeToken_spans
    {taken : List Char}
    (hQuoted : Quoted taken place)
    (hPlace : place.2.1 ≤ place.2.2)
    (before rest : List Char) :
    (lexemeToken (byteLengthOf before) taken place).SpansIn
        (before ++ (taken ++ rest)) ∧
      (lexemeToken (byteLengthOf before) taken place).start
          - quoteWidth
            (lexemeToken (byteLengthOf before) taken place)
        = byteLengthOf before ∧
      (lexemeToken (byteLengthOf before) taken place).stop
          + quoteWidth
            (lexemeToken (byteLengthOf before) taken place)
        = byteLengthOf (before ++ taken) := by
  have hSplit := @take_text_drop taken _ _ hPlace
  rcases hQuoted with ⟨hOpening, hClosing⟩
  generalize hPreface : taken.take place.2.1 = preface
    at hSplit hOpening
  generalize hText :
    (taken.drop place.2.1).take (place.2.2 - place.2.1) = text
    at hSplit
  generalize hTail : taken.drop place.2.2 = tail
    at hSplit hClosing
  have hToken :
      lexemeToken (byteLengthOf before) taken place =
        ⟨String.ofList text, place.1,
          byteLengthOf (before ++ preface),
          byteLengthOf ((before ++ preface) ++ text)⟩ := by
    unfold lexemeToken
    simp only [hPreface, hText, byteLengthOf_append]
  have hWidth :
      ∀ start stop,
        quoteWidth
            ⟨String.ofList text, place.1, start, stop⟩
          = kindWidth place.1 :=
    fun _ _ => rfl
  have hStart :
      byteLengthOf (before ++ preface) - kindWidth place.1
        = byteLengthOf before := by
    rw [byteLengthOf_append, hOpening, Nat.add_sub_cancel]
  have hStop :
      byteLengthOf ((before ++ preface) ++ text)
          + kindWidth place.1
        = byteLengthOf (before ++ taken) := by
    rw [hSplit, ← hClosing]
    simp only [byteLengthOf_append, Nat.add_assoc]
  rw [hToken]
  refine ⟨⟨?_, ?_, ?_, ?_⟩, ?_, ?_⟩
  · rw [hWidth, byteLengthOf_append, hOpening]
    exact Nat.le_add_left _ _
  · rw [hWidth, hStart]
    exact ⟨before, taken ++ rest, rfl, rfl⟩
  · rw [hWidth, hStop]
    exact
      ⟨before ++ taken, rest, (List.append_assoc ..).symm, rfl⟩
  · have hSlice :=
      sliceBytes_append (before ++ preface) text (tail ++ rest)
    simp only [List.append_assoc] at hSlice
    rw [hSplit]
    simp only [List.append_assoc]
    rw [hSlice]
  · rw [hWidth]
    exact hStart
  · rw [hWidth]
    exact hStop

/-
  The induction is on the scan: the token of a piece ends
  where the piece does, and the later ones stand behind it.
-/
theorem scan_spans
    {last : Bool}
    {input rest : List Char}
    {pieces : List Piece}
    (hScan :
      Scan (findLexeme unicode) regexAllowed input pieces last
        rest)
    (before : List Char) :
    TokensSpan (before ++ input) (byteLengthOf before)
      (pieceTokens (byteLengthOf before) pieces) := by
  induction hScan generalizing before with
  | done state final =>
    exact
      ⟨fun _ hToken => absurd hToken List.not_mem_nil,
        fun _ hToken => absurd hToken List.not_mem_nil,
        List.Pairwise.nil⟩
  | @step state last char chars final found pieces hFind hScan
      ih =>
      rcases findLexeme_eq_some_iff.mp hFind with
        ⟨lexeme, hLexeme, rfl⟩
      have hLater :=
        ih (before ++ (char :: chars).take lexeme.width)
      rw [List.append_assoc, List.take_append_drop] at hLater
      have hWider :
          byteLengthOf before ≤
            byteLengthOf
              (before ++ (char :: chars).take lexeme.width) := by
        rw [byteLengthOf_append]
        exact Nat.le_add_right _ _
      have hBehind :
          ∀ token ∈
              pieceTokens
                (byteLengthOf
                  (before ++ (char :: chars).take lexeme.width))
                pieces,
            byteLengthOf before ≤
              token.start - quoteWidth token :=
        fun token hToken =>
          Nat.le_trans hWider (hLater.behind token hToken)
      rw [pieceTokens, ← byteLengthOf_append]
      cases hToken : lexeme.token with
      | none => exact ⟨hLater.spans, hBehind, hLater.ordered⟩
      | some place =>
        have hPlace :=
          ((nextLexeme_fits hLexeme).token _ _ _ hToken).1
        have hSpan :=
          lexemeToken_spans (nextLexeme_quoted hLexeme hToken)
            hPlace before
            ((char :: chars).drop lexeme.width)
        rw [List.take_append_drop] at hSpan
        rcases hSpan with ⟨hSpans, hStart, hStop⟩
        refine ⟨?_, ?_, ?_⟩
        · exact List.forall_mem_cons.mpr ⟨hSpans, hLater.spans⟩
        · exact
            List.forall_mem_cons.mpr
              ⟨Nat.le_of_eq hStart.symm, hBehind⟩
        · refine List.pairwise_cons.mpr ⟨?_, hLater.ordered⟩
          intro other hOther
          exact
            Nat.le_trans (Nat.le_of_eq hStop)
              (hLater.behind other hOther)

----------
-- Tokens of a Source
----------

variable {source : List Char}

theorem tokenizeWithStatus_spans
    {scanned : Tokenization}
    (hScan :
      tokenizeWithStatus unicode source = some scanned) :
    TokensSpan source 0 scanned.tokens := by
  rw [tokenizeWithStatus_eq, Option.map_eq_some_iff] at hScan
  rcases hScan with ⟨pieces, hPieces, rfl⟩
  rcases (scan_eq_some_iff findLexeme_advances
      (Nat.le_refl _)).mp hPieces with ⟨last, hScan⟩
  exact scan_spans hScan []

/- Every run of the loop with enough fuel is the same. -/
theorem tokenizeWithStatus_fuel
    {fuel : Nat}
    (hFuel : source.length ≤ fuel) :
    scanLoop unicode fuel 0 true source =
      tokenizeWithStatus unicode source := by
  rw [scanLoop_eq, tokenizeWithStatus_eq]
  refine congrArg _ (Option.ext fun pieces => ?_)
  rw [scan_eq_some_iff findLexeme_advances hFuel,
    scan_eq_some_iff findLexeme_advances (Nat.le_refl _)]

/- The scanner fails only at a place that starts no lexeme. -/
theorem tokenizeWithStatus_stops :
    tokenizeWithStatus unicode source = none ↔
      ∃ pieces stopped letter letters,
        Scan (findLexeme unicode) true source pieces stopped
            (letter :: letters) ∧
          nextLexeme unicode stopped letter letters = none := by
  rw [tokenizeWithStatus_eq, Option.map_eq_none_iff,
    scan_eq_none_iff findLexeme_advances (Nat.le_refl _)]
  simp only [findLexeme, Option.map_eq_none_iff]

end Scanner

end ArktsServer
