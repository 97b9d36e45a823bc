import Mathlib.Data.List.Zip
import ArktsServer.Core.ParsedDocuments
import ArktsServer.Core.TokenSpans

/-
  The heritage parser and the module header parser with
  slices that panic off the character boundaries.  A panic
  is `none`; on the tokens of a source there is none, and
  the parsers return what the total ones do.

  Key definitions include:
    * `sliceChecked`
    * `heritageStepChecked`
    * `moduleBindingsStepChecked`

  Correctness is proven by:
    * `token_slices_safe`
-/

----------
-- Slices
----------

namespace ArktsServer

/- `str::is_char_boundary`. -/
def isCharBoundary : Nat → List Char → Bool
| 0, _ => true
| _ + 1, [] => false
| offset + 1, char :: chars =>
    decide (char.utf8Size ≤ offset + 1) &&
      isCharBoundary (offset + 1 - char.utf8Size) chars
termination_by structural _ chars => chars

theorem isCharBoundary_iff
    {offset : Nat}
    {source : List Char} :
    isCharBoundary offset source = true ↔
      Boundary source offset := by
  induction source generalizing offset with
  | nil =>
    cases offset with
    | zero => exact ⟨fun _ => ⟨[], [], rfl, rfl⟩, fun _ => rfl⟩
    | succ offset =>
      constructor
      · intro hFalse
        cases hFalse
      · rintro ⟨before, after, hSource, hBytes⟩
        cases (List.append_eq_nil_iff.mp hSource.symm).1
        cases hBytes
  | cons char chars ih =>
    have hSize := Char.utf8Size_pos char
    cases offset with
    | zero =>
      exact ⟨fun _ => ⟨[], _, rfl, rfl⟩, fun _ => rfl⟩
    | succ offset =>
      unfold isCharBoundary
      rw [Bool.and_eq_true, decide_eq_true_eq, ih]
      constructor
      · rintro ⟨hLe, before, after, hSource, hBytes⟩
        refine ⟨char :: before, after, ?_, ?_⟩
        · rw [hSource, List.cons_append]
        · rw [byteLengthOf_cons]
          omega
      · rintro ⟨before, after, hSource, hBytes⟩
        cases before with
        | nil => cases hBytes
        | cons head before =>
          rw [List.cons_append] at hSource
          injection hSource with hHead hTail
          subst hHead
          rw [byteLengthOf_cons] at hBytes
          exact ⟨by omega, before, after, hTail, by omega⟩

/- `&source[start..stop]`, or a panic. -/
def sliceChecked
    (source : List Char)
    (start stop : Nat) : Option (List Char) :=
  if start ≤ stop ∧ isCharBoundary start source = true ∧
      isCharBoundary stop source = true then
    some (sliceBytes source start stop)
  else
    none

/- `&source[start..]`, or a panic. -/
def sliceFromChecked
    (source : List Char)
    (start : Nat) : Option (List Char) :=
  if isCharBoundary start source = true then
    some (dropBytes start source)
  else
    none

/- `&source[..stop]`, or a panic. -/
def sliceToChecked
    (source : List Char)
    (stop : Nat) : Option (List Char) :=
  if isCharBoundary stop source = true then
    some (takeBytes stop source)
  else
    none

/- A subtraction of `usize`, or a panic. -/
def subChecked (left right : Nat) : Option Nat :=
  if right ≤ left then some (left - right) else none

theorem sliceChecked_eq
    {source : List Char}
    {start stop : Nat}
    (hLe : start ≤ stop)
    (hStart : Boundary source start)
    (hStop : Boundary source stop) :
    sliceChecked source start stop =
      some (sliceBytes source start stop) :=
  if_pos
    ⟨hLe, isCharBoundary_iff.mpr hStart,
      isCharBoundary_iff.mpr hStop⟩

/- A fold whose steps may panic or fail. -/
def foldChecked
    {State Entry : Type}
    (step : State → Entry → Option (Option State)) :
    State → List Entry → Option (Option State)
| state, [] => some (some state)
| state, entry :: entries => do
    match ← step state entry with
    | none => some none
    | some state => foldChecked step state entries

theorem foldChecked_eq
    {State Entry : Type}
    {step : State → Entry → Option (Option State)}
    {total : State → Entry → Option State}
    {entries : List Entry}
    (hStep :
      ∀ state, ∀ entry ∈ entries,
        step state entry = some (total state entry))
    (state : State) :
    foldChecked step state entries =
      some (entries.foldlM total state) := by
  induction entries generalizing state with
  | nil => rfl
  | cons entry entries ih =>
    have hLater := ih fun state other hOther =>
      hStep state other (List.mem_cons_of_mem _ hOther)
    rw [foldChecked, hStep state entry List.mem_cons_self,
      List.foldlM_cons]
    cases total state entry with
    | none => rfl
    | some next => exact hLater next

----------
-- Heritage
----------

section Parsers

variable (unicode : Unicode)
variable (source : List Char)
variable (tokens : List Token)

def gapIsTriviaChecked (left : Nat) : Option Bool := do
  let first ← tokens[left]?
  let second ← tokens[left + 1]?
  let gap ← sliceChecked source first.stop second.start
  some (isTrivia unicode gap)

def gapsAreTriviaChecked (start stop : Nat) : Option Bool :=
  (List.range' start (stop - start)).allM
    (gapIsTriviaChecked unicode source tokens)

def isDeclarationBoundaryChecked : Nat → Option Bool
| 0 => some true
| previousIndex + 1 => do
    let previous ← tokens[previousIndex]?
    if isIdentifierToken previous &&
        ["new", "typeof", "void", "await", "yield",
          "instanceof", "in", "delete", "throw", "else",
          "do"].contains previous.text then
      some false
    else if previous.kind = .punctuation ∧
        [";", "\x7d"].contains previous.text then
      some true
    else do
      let token ← tokens[previousIndex + 1]?
      let gap ← sliceChecked source previous.stop token.start
      some
        (containsLineTerminator gap &&
          (decide (previous.kind ≠ .punctuation) ||
            [")", "]", "++", "--"].contains previous.text))

/- A class header before its gaps are looked at. -/
def classHeaderShape
    (index : Nat) : Option (ClassHeader × Token) := do
  let name ← identifierAt tokens (index + 1)
  if ["extends", "implements"].contains name.text then
    none
  else
    let next ← tokens[index + 2]?
    let header ←
      if next.text = "extends" then do
        let base ← identifierAt tokens (index + 3)
        some
          (⟨name, some base, index + 4, some (index + 2)⟩ :
            ClassHeader)
      else
        some ⟨name, none, index + 2, none⟩
    let opener ← tokens[header.body]?
    some (header, opener)

def classHeaderChecked
    (index : Nat) : Option (Option ClassHeader) :=
  match classHeaderShape tokens index with
  | none => some none
  | some (header, opener) => do
      let trivia ←
        gapsAreTriviaChecked unicode source tokens index
          header.body
      if opener.kind = .punctuation ∧ opener.text = "\x7b" ∧
          trivia = true then
        some (some header)
      else
        some none

/- Whether a class with a header is on the top level. -/
def classPlacedChecked
    (delimiters : DelimiterStructure)
    (index : Nat) : Option Bool := do
  let start := declarationStart tokens index
  let trivia ←
    gapsAreTriviaChecked unicode source tokens start index
  if delimiters.depths[index]? ≠ some 0 ∨ trivia = false then
    some false
  else
    isDeclarationBoundaryChecked source tokens start

/- A class that is placed is recorded as by the parser. -/
def heritageStepChecked
    (document : Document)
    (delimiters : DelimiterStructure)
    (lines : LineIndex)
    (state : HeritageState)
    (entry : Token × Nat) : Option (Option HeritageState) :=
  if entry.1.kind ≠ .identifier ∨ entry.1.text ≠ "class" then
    some (some state)
  else do
    let header ←
      classHeaderChecked unicode document.text tokens entry.2
    let placed ←
      if header.isSome then
        classPlacedChecked unicode document.text tokens
          delimiters entry.2
      else
        some false
    if placed then
      some
        (heritageStep unicode document tokens delimiters lines
          state entry)
    else
      some (some { state with lexicallyComplete := false })

----------
-- Module Headers
----------

def namedHeaderTailChecked
    (start cursor : Nat) : Option Bool :=
  match tokens[cursor]?,
      (tokens[cursor + 1]?).filter
        (fun token => decide (token.kind = .stringLiteral))
    with
  | some fromToken, some literal =>
      if fromToken.text ≠ "from" ∨
          containsAny literal.text ['\\'] ∨
          literal.start = 0 then
        some false
      else do
        let trivia ←
          gapsAreTriviaChecked unicode source tokens start
            cursor
        if trivia = false then
          some false
        else
          let before ←
            sliceChecked source fromToken.stop
              (literal.start - 1)
          if isTrivia unicode before = false then
            some false
          else
            match tokens[cursor + 2]? with
            | none =>
                (sliceFromChecked source
                  (literal.stop + 1)).map (isTrivia unicode)
            | some next => do
                let tailEnd ←
                  subChecked next.start (quoteWidth next)
                let gap ←
                  sliceChecked source (literal.stop + 1)
                    tailEnd
                some
                  (isTrivia unicode gap &&
                    (decide (next.kind = .punctuation ∧
                        next.text = ";") ||
                      containsLineTerminator gap))
  | _, _ => some false

def namedHeaderChecked (start : Nat) : Option Bool :=
  if textAt tokens (start + 1) ≠ some "\x7b" ∨
      textAt tokens (start + 2) = some "\x7d" then
    some false
  else
    match namedHeaderClose tokens tokens.length
        (start + 2) with
    | none => some false
    | some close =>
        namedHeaderTailChecked unicode source tokens start
          (close + 1)

def statementBoundaryChecked : Nat → Option Bool
| 0 => do
    let token ← tokens[0]?
    let gap ← sliceToChecked source token.start
    some (isTrivia unicode gap)
| previousIndex + 1 => do
    let previous ← tokens[previousIndex]?
    let token ← tokens[previousIndex + 1]?
    let gap ←
      sliceChecked source
        (previous.stop + quoteWidth previous) token.start
    some
      (isTrivia unicode gap &&
        (decide (previous.kind = .punctuation) &&
            [";", "\x7d"].contains previous.text ||
          decide (previous.kind = .stringLiteral) &&
            containsLineTerminator gap))

def moduleStatementSupportedChecked
    (depths : Depths)
    (token : Token)
    (index : Nat) : Option Bool :=
  if depths.parenthesis ≠ 0 ∨ depths.bracket ≠ 0 then
    some false
  else do
    let boundary ←
      statementBoundaryChecked unicode source tokens index
    if boundary = false then
      some false
    else if token.text = "export" ∧
        ((tokens[index + 1]?).any fun next =>
          decide (next.kind ≠ .stringLiteral) &&
            ["\x7b", "class", "abstract", "declare"].contains
              next.text) = false then
      some false
    else if token.text = "import" ∨
        textAt tokens (index + 1) = some "\x7b" then
      namedHeaderChecked unicode source tokens index
    else
      some true

def moduleBindingsStepChecked
    (depths : Depths)
    (entry : Token × Nat) : Option (Option Depths) :=
  if entry.1.kind = .stringLiteral then
    some (some depths)
  else if depths.brace = 0 ∧
      unrepresentedDeclarations.contains entry.1.text then
    some none
  else if depths.brace = 0 ∧
      ["import", "export"].contains entry.1.text then do
    let supported ←
      moduleStatementSupportedChecked unicode source tokens
        depths entry.1 entry.2
    if supported then
      some (some (depths.after entry.1.text))
    else
      some none
  else
    some (some (depths.after entry.1.text))

----------
-- No Panic
----------

variable {unicode source tokens}
variable (hPlaced : TokensPlaced source 0 tokens)

include hPlaced

/- The slice between the ends of two neighbours. -/
theorem gapChecked_eq
    {left : Nat}
    {first second : Token}
    (hFirst : tokens[left]? = some first)
    (hSecond : tokens[left + 1]? = some second) :
    sliceChecked source first.stop second.start =
      some (sliceBytes source first.stop second.start) :=
  sliceChecked_eq
    (hPlaced.stop_le_start hFirst hSecond (Nat.lt_succ_self _))
    (hPlaced.placed _ (List.mem_of_getElem? hFirst)).stop
    (hPlaced.placed _ (List.mem_of_getElem? hSecond)).start

theorem gapIsTriviaChecked_eq
    {left : Nat}
    (hLeft : left + 1 < tokens.length) :
    gapIsTriviaChecked unicode source tokens left =
      some (gapIsTrivia unicode source tokens left) := by
  have hFirst :=
    List.getElem?_eq_getElem (Nat.lt_of_succ_lt hLeft)
  have hSecond := List.getElem?_eq_getElem hLeft
  unfold gapIsTriviaChecked gapIsTrivia
  simp only [hFirst, hSecond, Option.bind_eq_bind,
    Option.bind_some,
    gapChecked_eq hPlaced hFirst hSecond]

theorem gapsAreTriviaChecked_eq
    {start stop : Nat}
    (hStop : stop < tokens.length) :
    gapsAreTriviaChecked unicode source tokens start stop =
      some (gapsAreTrivia unicode source tokens start stop) := by
  unfold gapsAreTriviaChecked gapsAreTrivia
  have hAll :
      ∀ left ∈ List.range' start (stop - start),
        gapIsTriviaChecked unicode source tokens left =
          some (gapIsTrivia unicode source tokens left) := by
    intro left hLeft
    have hRange := List.mem_range'_1.mp hLeft
    exact gapIsTriviaChecked_eq hPlaced (by omega)
  generalize List.range' start (stop - start) = places at hAll
  induction places with
  | nil => rfl
  | cons left places ih =>
    have hLater := ih fun other hOther =>
      hAll other (List.mem_cons_of_mem _ hOther)
    rw [List.allM, hAll left List.mem_cons_self, List.all_cons]
    cases gapIsTrivia unicode source tokens left with
    | false => rfl
    | true => exact hLater

theorem isDeclarationBoundaryChecked_eq
    {start : Nat}
    (hStart : start < tokens.length) :
    isDeclarationBoundaryChecked source tokens start =
      some (isDeclarationBoundary source tokens start) := by
  cases start with
  | zero => rfl
  | succ previousIndex =>
    have hFirst :=
      List.getElem?_eq_getElem (Nat.lt_of_succ_lt hStart)
    have hSecond := List.getElem?_eq_getElem hStart
    unfold isDeclarationBoundaryChecked isDeclarationBoundary
    simp only [hFirst, hSecond, Option.bind_eq_bind,
      Option.bind_some,
      gapChecked_eq hPlaced hFirst hSecond]
    split
    · rfl
    · split <;> rfl

omit hPlaced in
theorem classHeader_eq
    (index : Nat) :
    classHeader unicode source tokens index =
      (classHeaderShape tokens index).bind fun shape =>
        if shape.2.kind = .punctuation ∧
            shape.2.text = "\x7b" ∧
            gapsAreTrivia unicode source tokens index
              shape.1.body then
          some shape.1
        else
          none := by
  unfold classHeader classHeaderShape
  cases identifierAt tokens (index + 1) with
  | none => rfl
  | some name =>
    simp only [Option.bind_eq_bind, Option.bind_some]
    split
    · rfl
    · cases tokens[index + 2]? with
      | none => rfl
      | some next =>
        simp only [Option.bind_some]
        split
        · cases identifierAt tokens (index + 3) with
          | none => rfl
          | some base =>
            simp only [Option.bind_some]
            cases tokens[index + 4]? <;> rfl
        · rfl

variable {index : Nat}

omit hPlaced in
theorem classHeaderShape_opener
    {header : ClassHeader}
    {opener : Token}
    (hShape :
      classHeaderShape tokens index = some (header, opener)) :
    header.body < tokens.length := by
  unfold classHeaderShape at hShape
  simp only [Option.bind_eq_bind, Option.bind_eq_some_iff]
    at hShape
  rcases hShape with ⟨name, _, hShape⟩
  split at hShape
  · cases hShape
  · rcases Option.bind_eq_some_iff.mp hShape with
      ⟨next, _, hShape⟩
    split at hShape
    all_goals
      simp only [Option.bind_eq_some_iff, Option.bind_some,
        Option.some.injEq] at hShape
      grind

theorem classHeaderChecked_eq
    (index : Nat) :
    classHeaderChecked unicode source tokens index =
      some (classHeader unicode source tokens index) := by
  rw [classHeader_eq]
  unfold classHeaderChecked
  cases hShape : classHeaderShape tokens index with
  | none => rfl
  | some shape =>
    rcases shape with ⟨header, opener⟩
    simp only [Option.bind_eq_bind, Option.bind_some,
      gapsAreTriviaChecked_eq hPlaced
        (classHeaderShape_opener hShape)]
    split <;> rfl

theorem classPlacedChecked_eq
    (delimiters : DelimiterStructure)
    (hIndex : index < tokens.length) :
    classPlacedChecked unicode source tokens delimiters index =
      some
        (decide
          ¬ (delimiters.depths[index]? ≠ some 0 ∨
            gapsAreTrivia unicode source tokens
              (declarationStart tokens index) index = false ∨
            isDeclarationBoundary source tokens
              (declarationStart tokens index) = false)) := by
  have hStart :=
    Nat.lt_of_le_of_lt (declarationStart_le tokens index) hIndex
  unfold classPlacedChecked
  simp only [Option.bind_eq_bind,
    gapsAreTriviaChecked_eq hPlaced hIndex,
    Option.bind_some,
    isDeclarationBoundaryChecked_eq hPlaced hStart]
  split
  · rename_i hOut
    rw [decide_eq_false]
    exact fun hNone =>
      hNone (hOut.elim .inl fun hGap => .inr (.inl hGap))
  · rename_i hIn
    cases hBoundary :
        isDeclarationBoundary source tokens
          (declarationStart tokens index) with
    | false =>
      rw [decide_eq_false]
      exact fun hNone => hNone (.inr (.inr rfl))
    | true =>
      rw [decide_eq_true]
      rintro (hDepth | hGap | hFalse)
      · exact hIn (.inl hDepth)
      · exact hIn (.inr hGap)
      · cases hFalse

theorem heritageStepChecked_eq
    {document : Document}
    (hText : document.text = source)
    (delimiters : DelimiterStructure)
    (lines : LineIndex)
    (state : HeritageState)
    {entry : Token × Nat}
    (hEntry : entry ∈ tokens.zipIdx) :
    heritageStepChecked unicode tokens document delimiters
        lines state entry =
      some
        (heritageStep unicode document tokens delimiters lines
          state entry) := by
  subst hText
  rcases entry with ⟨token, index⟩
  have hIndex :=
    (List.getElem?_eq_some_iff.mp
      (List.mem_zipIdx_iff_getElem?.mp hEntry)).1
  unfold heritageStepChecked
  simp only [classHeaderChecked_eq hPlaced,
    classPlacedChecked_eq hPlaced delimiters hIndex,
    Option.bind_eq_bind, Option.bind_some]
  split
  · rename_i hOther
    unfold heritageStep
    simp only [if_pos hOther]
  · rename_i hClass
    unfold heritageStep
    simp only [if_neg hClass]
    cases classHeader unicode document.text tokens index with
    | none => rfl
    | some header =>
      simp only [Option.isSome_some, if_true]
      split
      · rfl
      · rename_i hPlace
        rw [decide_eq_true_eq, Classical.not_not] at hPlace
        rw [if_pos hPlace]

variable (hSpan : TokensSpan source 0 tokens)

include hSpan

theorem namedHeaderTailChecked_eq
    (start cursor : Nat) :
    namedHeaderTailChecked unicode source tokens start cursor =
      some
        (namedHeaderTail unicode source tokens start
          cursor) := by
  unfold namedHeaderTailChecked namedHeaderTail
  cases hFrom : tokens[cursor]? with
  | none => rfl
  | some fromToken =>
    cases hLiteral :
        (tokens[cursor + 1]?).filter
          (fun token => decide (token.kind = .stringLiteral))
      with
    | none => rfl
    | some literal =>
      rw [Option.filter_eq_some_iff, decide_eq_true_eq]
        at hLiteral
      rcases hLiteral with ⟨hLiteral, hKind⟩
      have hWidth : quoteWidth literal = 1 := if_pos hKind
      have hCursor := (List.getElem?_eq_some_iff.mp hFrom).1
      have hSpans := hSpan.spans _ (List.mem_of_getElem? hLiteral)
      have hStop := hPlaced.placed _ (List.mem_of_getElem? hFrom)
      have hBefore :=
        hSpan.precedes hFrom hLiteral (Nat.lt_succ_self _)
      unfold Token.Precedes at hBefore
      have hOpening := hSpans.opening
      have hClosing := hSpans.closing
      rw [hWidth] at hBefore hOpening hClosing
      simp only [Option.bind_eq_bind,
        gapsAreTriviaChecked_eq hPlaced hCursor,
        Option.bind_some,
        sliceChecked_eq
          (Nat.le_trans (Nat.le_add_right _ _) hBefore)
          hStop.stop hOpening]
      split
      · rfl
      · cases gapsAreTrivia unicode source tokens start
            cursor with
        | false => rfl
        | true =>
          cases isTrivia unicode
              (sliceBytes source fromToken.stop
                (literal.start - 1)) with
          | false => rfl
          | true =>
            cases hNext : tokens[cursor + 2]? with
            | none =>
              simp only [sliceFromChecked,
                isCharBoundary_iff.mpr hClosing,
                if_true, Option.map_some]
              rfl
            | some next =>
              have hNextSpans :=
                hSpan.spans _ (List.mem_of_getElem? hNext)
              have hLater :=
                hSpan.precedes hLiteral hNext (Nat.lt_succ_self _)
              unfold Token.Precedes at hLater
              rw [hWidth] at hLater
              simp only [subChecked,
                hNextSpans.quote, if_true,
                Option.bind_some,
                sliceChecked_eq hLater hClosing
                  hNextSpans.opening]
              rfl

theorem namedHeaderChecked_eq
    (start : Nat) :
    namedHeaderChecked unicode source tokens start =
      some (namedHeader unicode source tokens start) := by
  unfold namedHeaderChecked namedHeader
  split
  · rfl
  · cases namedHeaderClose tokens tokens.length
        (start + 2) with
    | none => rfl
    | some close =>
      exact namedHeaderTailChecked_eq hPlaced hSpan start _

theorem statementBoundaryChecked_eq
    {token : Token}
    (hToken : tokens[index]? = some token)
    (hKind : token.kind ≠ .stringLiteral) :
    statementBoundaryChecked unicode source tokens index =
      some (statementBoundary unicode source tokens index) := by
  have hWidth : quoteWidth token = 0 := if_neg hKind
  have hStart :=
    (hPlaced.placed _ (List.mem_of_getElem? hToken)).start
  cases index with
  | zero =>
    unfold statementBoundaryChecked statementBoundary
    simp only [hToken, Option.bind_eq_bind,
      Option.bind_some, sliceToChecked,
      isCharBoundary_iff.mpr hStart, if_true]
  | succ previousIndex =>
    have hIndex :=
      Nat.lt_of_succ_lt (List.getElem?_eq_some_iff.mp hToken).1
    have hPrevious := List.getElem?_eq_getElem hIndex
    have hBefore :=
      hSpan.precedes hPrevious hToken (Nat.lt_succ_self _)
    have hClosing :=
      (hSpan.spans _ (List.mem_of_getElem? hPrevious)).closing
    unfold Token.Precedes at hBefore
    rw [hWidth, Nat.sub_zero] at hBefore
    unfold statementBoundaryChecked statementBoundary
    simp only [hToken, hPrevious, Option.bind_eq_bind,
      Option.bind_some,
      sliceChecked_eq hBefore hClosing hStart]

theorem moduleStatementSupportedChecked_eq
    (depths : Depths)
    {token : Token}
    (hToken : tokens[index]? = some token)
    (hKind : token.kind ≠ .stringLiteral) :
    moduleStatementSupportedChecked unicode source tokens
        depths token index =
      some
        (moduleStatementSupported unicode source tokens depths
          token index) := by
  unfold moduleStatementSupportedChecked moduleStatementSupported
  simp only [
    statementBoundaryChecked_eq hPlaced hSpan hToken hKind,
    namedHeaderChecked_eq hPlaced hSpan, Option.bind_eq_bind,
    Option.bind_some]
  grind

theorem moduleBindingsStepChecked_eq
    (depths : Depths)
    {entry : Token × Nat}
    (hEntry : entry ∈ tokens.zipIdx) :
    moduleBindingsStepChecked unicode source tokens depths
        entry =
      some
        (moduleBindingsStep unicode source tokens depths
          entry) := by
  rcases entry with ⟨token, index⟩
  have hToken := List.mem_zipIdx_iff_getElem?.mp hEntry
  unfold moduleBindingsStepChecked moduleBindingsStep
  by_cases hKind : token.kind = .stringLiteral
  · simp only [if_pos hKind]
  · simp only [if_neg hKind,
      moduleStatementSupportedChecked_eq hPlaced hSpan depths
        hToken hKind, Option.bind_eq_bind, Option.bind_some]
    grind

end Parsers

----------
-- Token Spans
----------

/-
  The scanner ends on every source; its tokens are slices of
  the source in order, and neither parser of the tokens
  panics.
-/
theorem token_slices_safe
    (unicode : Unicode)
    (document : Document) :
    (∀ fuel, document.text.length ≤ fuel →
      scanLoop unicode fuel 0 true document.text =
        tokenizeWithStatus unicode document.text) ∧
    (tokenizeWithStatus unicode document.text = none ↔
      ∃ pieces stopped char chars,
        Scanning.Scan (findLexeme unicode) true document.text
            pieces stopped (char :: chars) ∧
          nextLexeme unicode stopped char chars = none) ∧
    ∀ scanned,
      tokenizeWithStatus unicode document.text = some scanned →
        (∀ token ∈ scanned.tokens,
          token.start ≤ token.stop ∧
          Boundary document.text token.start ∧
          Boundary document.text token.stop ∧
          token.text =
            String.ofList
              (sliceBytes document.text token.start
                token.stop)) ∧
        (scanned.tokens.Pairwise fun left right =>
          left.start < right.start ∧
            left.stop ≤ right.start) ∧
        (∀ delimiters lines state,
          foldChecked
              (heritageStepChecked unicode scanned.tokens
                document delimiters lines) state
              scanned.tokens.zipIdx =
            some
              (scanned.tokens.zipIdx.foldlM
                (heritageStep unicode document scanned.tokens
                  delimiters lines) state)) ∧
        ∀ depths,
          foldChecked
              (moduleBindingsStepChecked unicode document.text
                scanned.tokens) depths scanned.tokens.zipIdx =
            some
              (scanned.tokens.zipIdx.foldlM
                (moduleBindingsStep unicode document.text
                  scanned.tokens) depths) := by
  refine
    ⟨fun fuel hFuel => tokenizeWithStatus_fuel hFuel,
      tokenizeWithStatus_stops, ?_⟩
  intro scanned hScan
  have hSpan := tokenizeWithStatus_spans hScan
  have hPlaced := tokenizeWithStatus_placed hScan
  refine ⟨?_, ?_, ?_, ?_⟩
  · intro token hToken
    have hPlace := hPlaced.placed token hToken
    exact
      ⟨hPlace.le, hPlace.start, hPlace.stop,
        (hSpan.spans token hToken).text⟩
  · refine
      hSpan.ordered.imp_of_mem fun hLeft _ hBefore => ?_
    exact hBefore.starts (hPlaced.placed _ hLeft)
  · intro delimiters lines state
    exact
      foldChecked_eq
        (fun state _ hEntry =>
          heritageStepChecked_eq hPlaced rfl delimiters
            lines state hEntry)
        state
  · intro depths
    exact
      foldChecked_eq
        (fun depths _ hEntry =>
          moduleBindingsStepChecked_eq hPlaced hSpan depths
            hEntry)
        depths

/- A header whose specifier follows its quote. -/
theorem token_slices_safe_sample :
    let document : Document :=
      { uri := "file:///a.ets"
        text := "import { A } from 'a'".toList }
    ∃ scanned,
      tokenizeWithStatus Unicode.ascii document.text
          = some scanned ∧
        scanned.tokens.length = 6 ∧
        foldChecked
            (moduleBindingsStepChecked Unicode.ascii
              document.text scanned.tokens) ⟨0, 0, 0⟩
              scanned.tokens.zipIdx =
          some (some ⟨0, 0, 0⟩) := by
  intro document
  cases hScan :
      tokenizeWithStatus Unicode.ascii document.text with
  | none => exact absurd hScan (by decide +kernel)
  | some scanned =>
      have hSafe :=
        ((token_slices_safe Unicode.ascii document).2.2 scanned
          hScan).2.2.2 ⟨0, 0, 0⟩
      refine ⟨scanned, rfl, ?_, hSafe.trans ?_⟩
      · have hCount :
            (tokenizeWithStatus Unicode.ascii
              document.text).map (·.tokens.length)
                = some 6 := by
          decide +kernel
        rw [hScan] at hCount
        exact Option.some.inj hCount
      · have hRun :
            (tokenizeWithStatus Unicode.ascii
              document.text).map (fun scanned =>
                scanned.tokens.zipIdx.foldlM
                  (moduleBindingsStep Unicode.ascii
                    document.text scanned.tokens)
                  ⟨0, 0, 0⟩)
                = some (some ⟨0, 0, 0⟩) := by
          decide +kernel
        rw [hScan] at hRun
        exact hRun

end ArktsServer
