import ArktsServer.Core.DocumentMetadata

/-
  What the passes over the tokens make of the words alone.
  A token without its place gives the same bindings, and the
  same symbols and exports up to their places.

  Key definitions include:
    * `Token.unplaced`
    * `WorkspaceSymbol.unplaced`, `WorkspaceExport.unplaced`
    * `SymbolState.unplaced`

  Correctness is proven by:
    * `referenceBindings_unplaced`
    * `symbolStep_congr`
    * `parseSymbols_congr`
-/

----------
-- Places
----------

namespace ArktsServer

/- A token without its place. -/
def Token.unplaced (token : Token) : Token :=
  { token with start := 0, stop := 0 }

@[simp] theorem Token.unplaced_text (token : Token) :
    token.unplaced.text = token.text :=
  rfl

@[simp] theorem Token.unplaced_kind (token : Token) :
    token.unplaced.kind = token.kind :=
  rfl

/- What is asked of one token is asked of its words. -/
@[simp] theorem isIdentifierToken_unplaced (token : Token) :
    isIdentifierToken token.unplaced =
      isIdentifierToken token :=
  rfl

variable (tokens : List Token)

@[simp] theorem textAt_unplaced (index : Nat) :
    textAt (tokens.map Token.unplaced) index =
      textAt tokens index := by
  unfold textAt
  rw [List.getElem?_map, Option.map_map]
  rfl

/- A token found by its words is found without places. -/
@[simp] theorem identifierAt_unplaced (index : Nat) :
    identifierAt (tokens.map Token.unplaced) index =
      (identifierAt tokens index).map Token.unplaced := by
  unfold identifierAt
  rw [List.getElem?_map]
  cases tokens[index]? with
  | none => rfl
  | some token =>
    rw [Option.map_some, Option.filter_some,
      Option.filter_some, isIdentifierToken_unplaced]
    split <;> rfl

@[simp] theorem previousToken_unplaced (index : Nat) :
    previousToken (tokens.map Token.unplaced) index =
      (previousToken tokens index).map Token.unplaced := by
  cases index with
  | zero => rfl
  | succ index => exact List.getElem?_map ..

@[simp] theorem previousIsDot_unplaced (index : Nat) :
    previousIsDot (tokens.map Token.unplaced) index =
      previousIsDot tokens index := by
  unfold previousIsDot
  rw [previousToken_unplaced, Option.any_map]
  rfl

----------
-- Bindings
----------

/- Skipping modifiers goes by the words behind it. -/
@[simp] theorem skipTypeAndLazy_unplaced :
    skipTypeAndLazy (tokens.map Token.unplaced) =
      (skipTypeAndLazy tokens).map Token.unplaced := by
  induction tokens with
  | nil => rfl
  | cons token tokens ih =>
    rw [List.map_cons, skipTypeAndLazy, skipTypeAndLazy,
      Token.unplaced_text, ih]
    split <;> rfl

@[simp] theorem sourceLiteral_unplaced :
    sourceLiteral (tokens.map Token.unplaced) =
      (sourceLiteral tokens).map Token.unplaced := by
  rcases tokens with _ | ⟨keyword, _ | ⟨source, rest⟩⟩
  · rfl
  · rfl
  · exact
      (apply_ite (Option.map Token.unplaced) _ (some source)
        none).symm

/- The names of a specifier and the tokens behind it. -/
def unplacedSpecifier
    (specifier : (Token × Token) × List Token) :
    (Token × Token) × List Token :=
  ((specifier.1.1.unplaced, specifier.1.2.unplaced),
    specifier.2.map Token.unplaced)

/- A specifier reads names, and never their ranges. -/
theorem bindingSpecifier_unplaced :
    bindingSpecifier (tokens.map Token.unplaced) =
      (bindingSpecifier tokens).map unplacedSpecifier := by
  cases tokens with
  | nil => rfl
  | cons first tokens =>
    unfold bindingSpecifier
    rw [List.map_cons]
    have hSkip :
        (if first.unplaced.text = "type" then
            tokens.map Token.unplaced
          else first.unplaced :: tokens.map Token.unplaced) =
          (if first.text = "type" then tokens
            else first :: tokens).map Token.unplaced :=
      (apply_ite (List.map Token.unplaced) _ tokens
        (first :: tokens)).symm
    simp only [hSkip]
    generalize
      (if first.text = "type" then tokens
        else first :: tokens) = remaining
    rcases remaining with _ | ⟨imported, rest⟩
    · rfl
    · simp only [List.map_cons, isIdentifierToken_unplaced]
      by_cases hName : isIdentifierToken imported = true
      · simp only [hName, ↓reduceIte]
        rcases rest with _ | ⟨keyword, after⟩
        · rfl
        · simp only [List.map_cons, Token.unplaced_text]
          by_cases hAs : keyword.text = "as"
          · simp only [hAs, ↓reduceIte]
            rcases after with _ | ⟨renamed, rest⟩
            · rfl
            · simp only [List.map_cons,
                isIdentifierToken_unplaced]
              exact
                (apply_ite (Option.map unplacedSpecifier) _
                  (some ((imported, renamed), rest))
                  none).symm
          · simp only [hAs, ↓reduceIte]
            rfl
      · simp only [hName, Bool.false_eq_true, ↓reduceIte]
        rfl

/- By induction on the fuel of the specifier loop. -/
theorem bindingSpecifiers_unplaced (fuel : Nat) :
    bindingSpecifiers fuel (tokens.map Token.unplaced) =
      (bindingSpecifiers fuel tokens).map
        (List.map fun names =>
          (names.1.unplaced, names.2.unplaced)) := by
  induction fuel generalizing tokens with
  | zero => cases tokens <;> rfl
  | succ fuel ih =>
    cases tokens with
    | nil => rfl
    | cons token rest =>
      rw [List.map_cons, bindingSpecifiers,
        bindingSpecifiers, Token.unplaced_text,
        ← List.map_cons, bindingSpecifier_unplaced]
      by_cases hComma : token.text = ","
      · rw [if_pos hComma, if_pos hComma]
        exact ih rest
      · rw [if_neg hComma, if_neg hComma]
        cases bindingSpecifier (token :: rest) with
        | none => rfl
        | some specifier =>
          rcases specifier with ⟨names, remaining⟩
          have hHead :
              ((remaining.map Token.unplaced).head?).any
                  (·.text != ",") =
                (remaining.head?).any (·.text != ",") := by
            cases remaining <;> rfl
          simp only [Option.map_some,
            Option.bind_eq_bind, Option.bind_some,
            unplacedSpecifier, hHead, ih]
          split
          · rfl
          · cases bindingSpecifiers fuel remaining <;> rfl

variable (document : Document)

/- The braces of a binding list are words as well. -/
theorem namedSourceBindings_unplaced
    (kind : ReferenceBindingKind) :
    namedSourceBindings document kind
        (tokens.map Token.unplaced) =
      namedSourceBindings document kind tokens := by
  unfold namedSourceBindings
  rw [skipTypeAndLazy_unplaced]
  cases skipTypeAndLazy tokens with
  | nil => rfl
  | cons opener body =>
    have hInside :
        (body.map Token.unplaced).takeWhile
            (·.text ≠ "\x7d") =
          (body.takeWhile (·.text ≠ "\x7d")).map Token.unplaced :=
      List.takeWhile_map ..
    simp only [List.map_cons, Token.unplaced_text, hInside,
      List.length_map, ← List.map_drop]
    by_cases hOpener : opener.text ≠ "\x7b"
    · rw [if_pos hOpener, if_pos hOpener]
    · rw [if_neg hOpener, if_neg hOpener]
      cases body.drop
          (body.takeWhile (·.text ≠ "\x7d")).length with
      | nil => rfl
      | cons close afterClose =>
        simp only [List.map_cons, sourceLiteral_unplaced,
          bindingSpecifiers_unplaced]
        cases sourceLiteral afterClose with
        | none => rfl
        | some source =>
          cases bindingSpecifiers
              (body.takeWhile (·.text ≠ "\x7d")).length
              (body.takeWhile (·.text ≠ "\x7d")) with
          | none => rfl
          | some names =>
            simp only [Option.map_some,
              Option.getD_some, List.map_map]
            rfl

theorem importSourceBindings_unplaced :
    importSourceBindings document
        (tokens.map Token.unplaced) =
      importSourceBindings document tokens := by
  unfold importSourceBindings
  rw [namedSourceBindings_unplaced, skipTypeAndLazy_unplaced]
  cases skipTypeAndLazy tokens with
  | nil => rfl
  | cons name rest =>
    simp only [List.map_cons, isIdentifierToken_unplaced,
      sourceLiteral_unplaced, Token.unplaced_text]
    cases sourceLiteral rest <;> rfl

theorem referenceBindingsFrom_unplaced (depth : Nat) :
    referenceBindingsFrom document depth
        (tokens.map Token.unplaced) =
      referenceBindingsFrom document depth tokens := by
  induction tokens generalizing depth with
  | nil => rfl
  | cons token tokens ih =>
    rw [List.map_cons, referenceBindingsFrom,
      referenceBindingsFrom]
    simp only [Token.unplaced_text, Token.unplaced_kind, ih,
      importSourceBindings_unplaced,
      namedSourceBindings_unplaced]

/- The bindings of a text are read from its words. -/
theorem referenceBindings_unplaced :
    referenceBindings document
        (tokens.map Token.unplaced) =
      referenceBindings document tokens :=
  referenceBindingsFrom_unplaced tokens document 0

/- The text of the document is read through its tokens. -/
theorem referenceBindings_text
    (other : List Char) :
    referenceBindings { document with text := other } tokens =
      referenceBindings document tokens := by
  have hFrom :
      ∀ depth,
        referenceBindingsFrom { document with text := other }
            depth tokens =
          referenceBindingsFrom document depth tokens := by
    induction tokens with
    | nil => exact fun depth => rfl
    | cons token tokens ih =>
      intro depth
      rw [referenceBindingsFrom, referenceBindingsFrom]
      simp only [ih]
      rfl
  exact hFrom 0

----------
-- Exported Declarations
----------

/- Export modifiers are looked for behind the token. -/
@[simp] theorem skipExportModifiers_unplaced
    (keyword : String)
    (cursor : Nat) :
    skipExportModifiers keyword
        (tokens.map Token.unplaced) cursor =
      skipExportModifiers keyword tokens cursor := by
  induction cursor with
  | zero => rfl
  | succ cursor ih =>
    rw [skipExportModifiers, skipExportModifiers,
      textAt_unplaced, ih]

theorem previousText_unplaced
    (test : String → Bool)
    (index : Nat) :
    (previousToken (tokens.map Token.unplaced) index).any
        (fun token => test token.text) =
      (previousToken tokens index).any
        (fun token => test token.text) := by
  rw [previousToken_unplaced, Option.any_map]
  rfl

@[simp] theorem exportedDeclarationDefault_unplaced
    (index depth : Nat) :
    exportedDeclarationDefault (tokens.map Token.unplaced)
        index depth =
      exportedDeclarationDefault tokens index depth := by
  unfold exportedDeclarationDefault
  simp only [textAt_unplaced, skipExportModifiers_unplaced,
    previousText_unplaced tokens (· == "default"),
    previousText_unplaced tokens (· == "export")]

/- Whether a declaration is exported is in the words. -/
@[simp] theorem isExportedDeclaration_unplaced
    (index depth : Nat) :
    isExportedDeclaration (tokens.map Token.unplaced)
        index depth =
      isExportedDeclaration tokens index depth := by
  unfold isExportedDeclaration
  rw [exportedDeclarationDefault_unplaced]

@[simp] theorem isDefaultExportedDeclaration_unplaced
    (index : Nat) :
    isDefaultExportedDeclaration (tokens.map Token.unplaced)
        index =
      isDefaultExportedDeclaration tokens index := by
  unfold isDefaultExportedDeclaration
  rw [exportedDeclarationDefault_unplaced]

@[simp] theorem exportedConstName_unplaced
    (index depth : Nat) :
    exportedConstName (tokens.map Token.unplaced)
        index depth =
      (exportedConstName tokens index depth).map
        Token.unplaced := by
  unfold exportedConstName
  rw [isExportedDeclaration_unplaced, identifierAt_unplaced]
  exact
    (apply_ite (Option.map Token.unplaced) _
      (identifierAt tokens (index + 1)) none).symm

/- The depth counts the parentheses that are open. -/
theorem afterParentheses_unplaced (depth : Nat) :
    afterParentheses depth (tokens.map Token.unplaced) =
      (afterParentheses depth tokens).map
        (List.map Token.unplaced) := by
  induction tokens generalizing depth with
  | nil => rfl
  | cons token tokens ih =>
    rw [List.map_cons]
    unfold afterParentheses
    simp only [Token.unplaced_text, ih]
    by_cases hOpen : token.text = "("
    · simp only [hOpen, ↓reduceIte]
    · by_cases hClose : token.text = ")"
      · simp only [hClose, ↓reduceIte]
        rcases depth with _ | _ | depth <;> rfl
      · by_cases hEnd :
            endsArrowSearch token.text = true ∧ depth = 0
        · simp only [hOpen, hClose, hEnd, and_self,
            ↓reduceIte]
          rfl
        · simp only [hOpen, hClose, hEnd, ↓reduceIte]

@[simp] theorem exportedConstIsArrowFunction_unplaced
    (index : Nat) :
    exportedConstIsArrowFunction (tokens.map Token.unplaced)
        index =
      exportedConstIsArrowFunction tokens index := by
  have hParameters :
      ((tokens.map Token.unplaced).drop (index + 2)).dropWhile
          (·.text ≠ "=") =
        ((tokens.drop (index + 2)).dropWhile
          (·.text ≠ "=")).map Token.unplaced := by
    rw [← List.map_drop]
    exact List.dropWhile_map ..
  unfold exportedConstIsArrowFunction
  rw [hParameters]
  cases (tokens.drop (index + 2)).dropWhile (·.text ≠ "=") with
  | nil => rfl
  | cons equals parameters =>
    have hHead :
        ((parameters.map Token.unplaced).head?).any
            (·.text == "(") =
          (parameters.head?).any (·.text == "(") := by
      cases parameters <;> rfl
    simp only [List.map_cons, hHead, afterParentheses_unplaced]
    cases afterParentheses 0 parameters with
    | none => rfl
    | some rest =>
      simp only [Option.map_some]
      have hArrow :
          ((rest.map Token.unplaced).takeWhile fun token =>
              !endsArrowSearch token.text).any
              (·.text == "=>") =
            (rest.takeWhile fun token =>
              !endsArrowSearch token.text).any
              (·.text == "=>") := by
        rw [List.takeWhile_map, List.any_map]
        rfl
      rw [hArrow]

----------
-- Symbols
----------

/- The range that stands for every range. -/
def noRange : TextRange := ⟨⟨0, 0⟩, ⟨0, 0⟩⟩

/- A symbol whose range has been blanked. -/
def WorkspaceSymbol.unplaced
    (item : WorkspaceSymbol) : WorkspaceSymbol :=
  { item with range := noRange }

/- The identity of a declaration tells its place. -/
def WorkspaceExport.unplaced
    (item : WorkspaceExport) : WorkspaceExport :=
  { item with range := noRange, declarationIdentity := none }

def SymbolState.unplaced (state : SymbolState) : SymbolState :=
  { state with
    symbols := state.symbols.map WorkspaceSymbol.unplaced
    exports := state.exports.map WorkspaceExport.unplaced }

variable (lines otherLines : LineIndex)
variable (text : List Char)

variable {state other : SymbolState}

/- Two states agree in all that is no place. -/
theorem SymbolState.unplaced_eq_iff :
    other.unplaced = state.unplaced ↔
      other.symbols.map WorkspaceSymbol.unplaced =
          state.symbols.map WorkspaceSymbol.unplaced ∧
        other.exports.map WorkspaceExport.unplaced =
          state.exports.map WorkspaceExport.unplaced ∧
        other.containers = state.containers ∧
        other.pendingContainer = state.pendingContainer ∧
        other.depths = state.depths := by
  unfold SymbolState.unplaced
  exact SymbolState.mk.injEq .. ▸ Iff.rfl

/- A symbol pushed onto states that agree. -/
theorem pushSymbol_congr
    (hSame : other.unplaced = state.unplaced)
    (name : Token)
    (kind : SymbolKind)
    (container : Option String) :
    (other.pushSymbol { document with text } otherLines
        name.unplaced kind container).unplaced =
      (state.pushSymbol document lines name kind
        container).unplaced := by
  rcases SymbolState.unplaced_eq_iff.mp hSame with
    ⟨hSymbols, hRest⟩
  refine SymbolState.unplaced_eq_iff.mpr ⟨?_, hRest⟩
  unfold SymbolState.pushSymbol
  simp only [List.map_append, hSymbols]
  rfl

theorem pushExport_congr
    (hSame : other.unplaced = state.unplaced)
    (name : Token)
    (kind : SymbolKind)
    (exportName : String) :
    (other.pushExport { document with text } otherLines
        name.unplaced kind exportName).map
          SymbolState.unplaced =
      (state.pushExport document lines name kind
        exportName).map SymbolState.unplaced := by
  rcases SymbolState.unplaced_eq_iff.mp hSame with
    ⟨hSymbols, hExports, hRest⟩
  have hLength :
      other.exports.length = state.exports.length := by
    have hCount := congrArg List.length hExports
    rw [List.length_map, List.length_map] at hCount
    exact hCount
  unfold SymbolState.pushExport workspaceExport
  rw [hLength]
  by_cases hOrdinal : state.exports.length < 2 ^ 32
  · simp only [hOrdinal, ↓reduceIte, Option.bind_eq_bind,
      Option.bind_some, Option.map_some]
    refine
      congrArg some
        (SymbolState.unplaced_eq_iff.mpr ⟨hSymbols, ?_, hRest⟩)
    simp only [List.map_append, hExports]
    rfl
  · simp only [hOrdinal, ↓reduceIte]
    rfl

theorem exportName_unplaced
    (index : Nat)
    (name : Token) :
    exportName (tokens.map Token.unplaced) index
        name.unplaced =
      exportName tokens index name := by
  unfold exportName
  rw [isDefaultExportedDeclaration_unplaced]
  rfl

/- A declaration is pushed, and exported where it says so. -/
theorem declare_congr
    (hSame : other.unplaced = state.unplaced)
    (index : Nat)
    (name : Token)
    (kind : SymbolKind) :
    (other.declare { document with text } otherLines
        (tokens.map Token.unplaced) index name.unplaced
        kind).map SymbolState.unplaced =
      (state.declare document lines tokens index name
        kind).map SymbolState.unplaced := by
  have hPushed :=
    pushSymbol_congr document lines otherLines text hSame name
      kind none
  have hDepths := (SymbolState.unplaced_eq_iff.mp hPushed).2.2.2.2
  unfold SymbolState.declare
  simp only [hDepths, isExportedDeclaration_unplaced,
    exportName_unplaced]
  split
  · exact
      pushExport_congr document lines otherLines text hPushed
        name kind _
  · exact congrArg some hPushed

/- Only an enumeration leaves no pending container. -/
theorem containerStep_congr
    (hSame : other.unplaced = state.unplaced)
    (index : Nat)
    (kind : SymbolKind) :
    (containerStep { document with text } otherLines
        (tokens.map Token.unplaced) other index kind).map
          SymbolState.unplaced =
      (containerStep document lines tokens state index
        kind).map SymbolState.unplaced := by
  unfold containerStep
  rw [identifierAt_unplaced]
  cases identifierAt tokens (index + 1) with
  | none => exact congrArg some hSame
  | some name =>
    have hDeclared :=
      declare_congr tokens document lines otherLines text
        hSame index name kind
    simp only [Option.map_some]
    cases hSecond :
        state.declare document lines tokens index name kind with
    | none =>
      rw [hSecond, Option.map_none, Option.map_eq_none_iff]
        at hDeclared
      rw [hDeclared]
      rfl
    | some declared =>
      rw [hSecond, Option.map_some, Option.map_eq_some_iff]
        at hDeclared
      rcases hDeclared with ⟨renamed, hFirst, hBoth⟩
      rw [hFirst]
      simp only [Option.bind_eq_bind,
        Option.bind_some, Option.map_some]
      split
      · exact congrArg some hBoth
      · rcases SymbolState.unplaced_eq_iff.mp hBoth
          with ⟨hSymbols, hExports, hContainers, _, hDepths⟩
        exact
          congrArg some
            (SymbolState.unplaced_eq_iff.mpr
              ⟨hSymbols, hExports, hContainers, rfl, hDepths⟩)

theorem functionStep_congr
    (hSame : other.unplaced = state.unplaced)
    (index : Nat) :
    (functionStep { document with text } otherLines
        (tokens.map Token.unplaced) other index).map
          SymbolState.unplaced =
      (functionStep document lines tokens state index).map
        SymbolState.unplaced := by
  unfold functionStep
  rw [identifierAt_unplaced]
  cases identifierAt tokens (index + 1) with
  | none => exact congrArg some hSame
  | some name =>
    exact
      declare_congr tokens document lines otherLines text
        hSame index name .function

theorem typeStep_congr
    (hSame : other.unplaced = state.unplaced)
    (index : Nat) :
    (typeStep { document with text } otherLines
        (tokens.map Token.unplaced) other index).map
          SymbolState.unplaced =
      (typeStep document lines tokens state index).map
        SymbolState.unplaced := by
  have hDepths := (SymbolState.unplaced_eq_iff.mp hSame).2.2.2.2
  unfold typeStep
  rw [hDepths, isExportedDeclaration_unplaced,
    identifierAt_unplaced]
  split
  · cases identifierAt tokens (index + 1) with
    | none => exact congrArg some hSame
    | some name =>
      simp only [Option.map_some, exportName_unplaced]
      exact
        pushExport_congr document lines otherLines text
          (pushSymbol_congr document lines otherLines text
            hSame name .typeAlias none) name .typeAlias _
  · exact congrArg some hSame

theorem constStep_congr
    (hSame : other.unplaced = state.unplaced)
    (index : Nat) :
    (constStep { document with text } otherLines
        (tokens.map Token.unplaced) other index).map
          SymbolState.unplaced =
      (constStep document lines tokens state index).map
        SymbolState.unplaced := by
  have hDepths := (SymbolState.unplaced_eq_iff.mp hSame).2.2.2.2
  unfold constStep
  rw [hDepths, exportedConstName_unplaced]
  cases exportedConstName tokens index state.depths.brace with
  | none => exact congrArg some hSame
  | some name =>
    simp only [Option.map_some,
      exportedConstIsArrowFunction_unplaced]
    exact
      pushExport_congr document lines otherLines text
        (pushSymbol_congr document lines otherLines text
          hSame name _ none) name _ _

/- A method stands directly in the body of a container. -/
theorem methodStep_congr
    (hSame : other.unplaced = state.unplaced)
    (token : Token)
    (index : Nat) :
    (methodStep { document with text } otherLines
        (tokens.map Token.unplaced) other token.unplaced
        index).unplaced =
      (methodStep document lines tokens state token
        index).unplaced := by
  rcases SymbolState.unplaced_eq_iff.mp hSame with
    ⟨_, _, hContainers, _, hDepths⟩
  unfold methodStep
  rw [hContainers, hDepths, textAt_unplaced,
    previousIsDot_unplaced]
  cases state.containers with
  | nil => exact hSame
  | cons container containers =>
    simp only [Token.unplaced_text, Token.unplaced_kind]
    by_cases hOther :
        container.bodyDepth ≠ state.depths.brace ∨
          token.kind ≠ .identifier ∨
          textAt tokens (index + 1) ≠ some "(" ∨
          isNonMethodKeyword token.text = true ∨
          previousIsDot tokens index = true
    · simp only [hOther, ↓reduceIte]
      exact hSame
    · simp only [hOther, ↓reduceIte]
      exact
        pushSymbol_congr document lines otherLines text hSame
          token .method (some container.name)

theorem depths_congr
    (hSame : other.unplaced = state.unplaced)
    (depths : Depths) :
    ({ other with depths } : SymbolState).unplaced =
      ({ state with depths } : SymbolState).unplaced := by
  rcases SymbolState.unplaced_eq_iff.mp hSame with
    ⟨hSymbols, hExports, hContainers, hPending, _⟩
  exact
    SymbolState.unplaced_eq_iff.mpr
      ⟨hSymbols, hExports, hContainers, hPending, rfl⟩

/- Braces and brackets move the depths of both states. -/
theorem openBrace_congr
    (hSame : other.unplaced = state.unplaced) :
    (openBrace other).unplaced = (openBrace state).unplaced := by
  rcases SymbolState.unplaced_eq_iff.mp hSame with
    ⟨hSymbols, hExports, hContainers, hPending, hDepths⟩
  refine
    SymbolState.unplaced_eq_iff.mpr
      ⟨hSymbols, hExports, ?_, rfl, ?_⟩
  · unfold openBrace
    simp only [hContainers, hPending, hDepths]
  · unfold openBrace
    simp only [hDepths]

theorem closeBrace_congr
    (hSame : other.unplaced = state.unplaced) :
    (closeBrace other).map SymbolState.unplaced =
      (closeBrace state).map SymbolState.unplaced := by
  rcases SymbolState.unplaced_eq_iff.mp hSame with
    ⟨hSymbols, hExports, hContainers, hPending, hDepths⟩
  unfold closeBrace
  rw [hDepths, hContainers]
  cases state.depths.brace with
  | zero => rfl
  | succ depth =>
    exact
      congrArg some
        (SymbolState.unplaced_eq_iff.mpr
          ⟨hSymbols, hExports, rfl, hPending, rfl⟩)

theorem closeParenthesis_congr
    (hSame : other.unplaced = state.unplaced) :
    (closeParenthesis other).map SymbolState.unplaced =
      (closeParenthesis state).map SymbolState.unplaced := by
  have hDepths := (SymbolState.unplaced_eq_iff.mp hSame).2.2.2.2
  unfold closeParenthesis
  rw [hDepths]
  cases state.depths.parenthesis with
  | zero => rfl
  | succ depth => exact congrArg some (depths_congr hSame _)

theorem closeBracket_congr
    (hSame : other.unplaced = state.unplaced) :
    (closeBracket other).map SymbolState.unplaced =
      (closeBracket state).map SymbolState.unplaced := by
  have hDepths := (SymbolState.unplaced_eq_iff.mp hSame).2.2.2.2
  unfold closeBracket
  rw [hDepths]
  cases state.depths.bracket with
  | zero => rfl
  | succ depth => exact congrArg some (depths_congr hSame _)

/- One token of the pass, with and without its place. -/
theorem symbolStep_congr
    (hSame : other.unplaced = state.unplaced)
    (token : Token)
    (index : Nat) :
    (symbolStep { document with text } otherLines
        (tokens.map Token.unplaced) other
        (token.unplaced, index)).map SymbolState.unplaced =
      (symbolStep document lines tokens state
        (token, index)).map SymbolState.unplaced := by
  have hDepths := (SymbolState.unplaced_eq_iff.mp hSame).2.2.2.2
  unfold symbolStep
  simp only [Token.unplaced_text, Token.unplaced_kind]
  by_cases hLiteral : token.kind = .stringLiteral
  · simp only [hLiteral, ↓reduceIte]
    exact congrArg some hSame
  · simp only [hLiteral, ↓reduceIte]
    split
    · exact
        containerStep_congr tokens document lines otherLines
          text hSame index _
    · split
      · exact
          functionStep_congr tokens document lines otherLines
            text hSame index
      · exact
          typeStep_congr tokens document lines otherLines
            text hSame index
      · exact
          constStep_congr tokens document lines otherLines
            text hSame index
      · exact congrArg some (openBrace_congr hSame)
      · exact closeBrace_congr hSame
      · rw [hDepths]
        exact congrArg some (depths_congr hSame _)
      · exact closeParenthesis_congr hSame
      · rw [hDepths]
        exact congrArg some (depths_congr hSame _)
      · exact closeBracket_congr hSame
      · exact
          congrArg some
            (methodStep_congr tokens document lines otherLines
              text hSame token index)

/- Steps that agree under a view agree in a whole run. -/
theorem foldlM_congr
    {σ τ α : Type}
    {view : σ → τ}
    {step next : σ → α → Option σ}
    (hStep :
      ∀ first second item,
        view second = view first →
          (next second item).map view =
            (step first item).map view)
    (items : List α)
    {first second : σ}
    (hSame : view second = view first) :
    (items.foldlM next second).map view =
      (items.foldlM step first).map view := by
  induction items generalizing first second with
  | nil => exact congrArg some hSame
  | cons item items ih =>
    have hItem := hStep first second item hSame
    rw [List.foldlM_cons, List.foldlM_cons]
    cases hFirst : step first item with
    | none =>
      rw [hFirst, Option.map_none, Option.map_eq_none_iff]
        at hItem
      rw [hItem]
      rfl
    | some earlier =>
      rw [hFirst, Option.map_some, Option.map_eq_some_iff]
        at hItem
      rcases hItem with ⟨later, hSecond, hLater⟩
      rw [hSecond]
      exact ih hLater

/- The symbols and exports without their places. -/
def unplacedResult
    (result : List WorkspaceSymbol × List WorkspaceExport) :
    List WorkspaceSymbol × List WorkspaceExport :=
  (result.1.map WorkspaceSymbol.unplaced,
    result.2.map WorkspaceExport.unplaced)

/- The symbols of a text, up to their places. -/
theorem parseSymbols_unplaced :
    (parseSymbols { document with text } otherLines
        (tokens.map Token.unplaced)).map unplacedResult =
      (parseSymbols document lines tokens).map
        unplacedResult := by
  have hZip :
      (tokens.map Token.unplaced).zipIdx =
        tokens.zipIdx.map fun entry =>
          (entry.1.unplaced, entry.2) :=
    List.zipIdx_map ..
  have hFold :=
    foldlM_congr
      (fun first second (entry : Token × Nat) hSame =>
        symbolStep_congr tokens document lines otherLines
          text hSame entry.1 entry.2)
      tokens.zipIdx
      (rfl :
        (⟨[], [], [], none, ⟨0, 0, 0⟩⟩ :
          SymbolState).unplaced = _)
  unfold parseSymbols
  rw [hZip, List.foldlM_map]
  cases hFirst :
      tokens.zipIdx.foldlM (symbolStep document lines tokens)
        ⟨[], [], [], none, ⟨0, 0, 0⟩⟩ with
  | none =>
    rw [hFirst, Option.map_none, Option.map_eq_none_iff] at hFold
    simp only [hFold, Option.bind_eq_bind,
      Option.bind_none, Option.map_none]
  | some state =>
    rw [hFirst, Option.map_some, Option.map_eq_some_iff] at hFold
    rcases hFold with ⟨other, hSecond, hSame⟩
    rcases SymbolState.unplaced_eq_iff.mp hSame with
      ⟨hSymbols, hExports, _, _, hDepths⟩
    rw [hSecond]
    simp only [Option.bind_eq_bind, Option.bind_some, hDepths]
    by_cases hBalanced : state.depths = ⟨0, 0, 0⟩
    · simp only [hBalanced, ↓reduceIte, Option.map_some,
        unplacedResult, hSymbols, hExports]
    · simp only [hBalanced, ↓reduceIte]

end ArktsServer
