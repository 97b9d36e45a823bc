import Mathlib.Data.List.Dedup
import ArktsServer.Core.Tokenizer

/-
  Lexical class metadata of one document: its top-level
  classes with a simple base, whether every class of the
  document is of that form, and which classes are exported
  directly.  Braces in strings are written `\x7b` and
  `\x7d`.

  Key definitions include:
    * `delimiterStructure`
    * `classHeader`
    * `parseScannedClassHeritage`
    * `moduleBindingsSupported`
    * `sourceProvenance`
-/

----------
-- Trivia and Delimiters
----------

namespace ArktsServer

section Heritage

variable (unicode : Unicode)

/-
  Whether a piece of source holds only whitespace and
  comments.  Every round removes a comment, so the length of
  the piece is enough fuel.
-/
def triviaLoop : Nat → List Char → Bool
| fuel, source =>
    match source.dropWhile unicode.isWhitespace, fuel with
    | [], _ => true
    | _ :: _, 0 => false
    | char :: chars, fuel + 1 =>
        let rest := char :: chars
        if ['/', '/'].isPrefixOf rest then
          triviaLoop fuel (rest.dropWhile (· ≠ '\n'))
        else if ['/', '*'].isPrefixOf rest then
          match findPattern ['*', '/'] rest with
          | none => false
          | some length =>
              triviaLoop fuel (rest.drop (length + 2))
        else
          false
termination_by structural fuel => fuel

def isTrivia (source : List Char) : Bool :=
  triviaLoop unicode source.length source

/- The gap behind a token and the next one is trivia. -/
def gapIsTrivia
    (source : List Char)
    (tokens : List Token)
    (left : Nat) : Bool :=
  match tokens[left]?, tokens[left + 1]? with
  | some first, some second =>
      isTrivia unicode
        (sliceBytes source first.stop second.start)
  | _, _ => false

/- Every gap of a half-open range of tokens is trivia. -/
def gapsAreTrivia
    (source : List Char)
    (tokens : List Token)
    (start stop : Nat) : Bool :=
  (List.range' start (stop - start)).all
    (gapIsTrivia unicode source tokens)

end Heritage

/- The depth of every token and the closer of each opener. -/
structure DelimiterStructure where
  depths : List Nat
  closes : List (Nat × Nat)
  stack : List (Nat × String)

def delimiterStep
    (state : DelimiterStructure)
    (entry : Token × Nat) : Option DelimiterStructure :=
  let (token, index) := entry
  let state :=
    { state with
      depths := state.depths ++ [state.stack.length] }
  if token.kind ≠ .punctuation then
    some state
  else if ["\x7b", "(", "["].contains token.text then
    some
      { state with
        stack := (index, token.text) :: state.stack }
  else if ["\x7d", ")", "]"].contains token.text then
    match state.stack with
    | [] => none
    | (openIndex, opener) :: stack =>
        if [("\x7b", "\x7d"), ("(", ")"), ("[", "]")].contains
            (opener, token.text) then
          some
            { state with
              stack
              closes := (openIndex, index) :: state.closes }
        else
          none
  else
    some state

def delimiterStructure
    (tokens : List Token) : Option DelimiterStructure := do
  let state ←
    tokens.zipIdx.foldlM delimiterStep ⟨[], [], []⟩
  if state.stack = [] then some state else none

----------
-- Class Declarations
----------

def isIdentifierToken (token : Token) : Bool :=
  decide (token.kind = .identifier)

/- The text of a token, if there is one. -/
def textAt (tokens : List Token) (index : Nat) :
    Option String :=
  (tokens[index]?).map (·.text)

/- The identifier at a place, if there is one. -/
def identifierAt (tokens : List Token) (index : Nat) :
    Option Token :=
  (tokens[index]?).filter isIdentifierToken

/- Skip the modifiers in front of a class keyword. -/
def declarationStart (tokens : List Token) : Nat → Nat
| 0 => 0
| index + 1 =>
    match identifierAt tokens index with
    | some token =>
        if ["export", "default", "declare",
            "abstract"].contains token.text then
          declarationStart tokens index
        else
          index + 1
    | none => index + 1

def containsLineTerminator (source : List Char) : Bool :=
  source.any isLineTerminator

/- Whether a declaration may start at a token. -/
def isDeclarationBoundary
    (source : List Char)
    (tokens : List Token)
    (start : Nat) : Bool :=
  match start, tokens[start]? with
  | 0, _ => true
  | previousIndex + 1, current =>
      match tokens[previousIndex]?, current with
      | some previous, some token =>
          let gap :=
            sliceBytes source previous.stop token.start
          if isIdentifierToken previous &&
              ["new", "typeof", "void", "await", "yield",
                "instanceof", "in", "delete", "throw",
                "else", "do"].contains previous.text then
            false
          else if previous.kind = .punctuation ∧
              [";", "\x7d"].contains previous.text then
            true
          else
            containsLineTerminator gap &&
              (decide (previous.kind ≠ .punctuation) ||
                [")", "]", "++", "--"].contains previous.text)
      | _, _ => false

structure ClassHeader where
  name : Token
  base : Option Token
  body : Nat
  heritage : Option Nat

section Heritage

variable (unicode : Unicode)

variable (source : List Char)

/- The header of a class of the supported subset. -/
def classHeader
    (tokens : List Token)
    (index : Nat) : Option ClassHeader := do
  let name ← identifierAt tokens (index + 1)
  if ["extends", "implements"].contains name.text then
    none
  else
    let next ← tokens[index + 2]?
    let header ←
      if next.text = "extends" then do
        let base ← identifierAt tokens (index + 3)
        some
          (⟨name, some base, index + 4, some (index + 2)⟩ :
            ClassHeader)
      else
        some ⟨name, none, index + 2, none⟩
    let opener ← tokens[header.body]?
    if opener.kind = .punctuation ∧ opener.text = "\x7b" ∧
        gapsAreTrivia unicode source tokens index
          header.body then
      some header
    else
      none

def textRange
    (lines : LineIndex)
    (start stop : Nat) : TextRange :=
  ⟨lines.position start, lines.position stop⟩

/- The facts collected so far and the classified bases. -/
structure HeritageState where
  classes : List ClassHeritageDeclaration
  lexicallyComplete : Bool
  classifiedExtends : List Nat

variable (document : Document)

def heritageStep
    (tokens : List Token)
    (delimiters : DelimiterStructure)
    (lines : LineIndex)
    (state : HeritageState)
    (entry : Token × Nat) : Option HeritageState :=
  let (token, index) := entry
  if token.kind ≠ .identifier ∨ token.text ≠ "class" then
    some state
  else
    let start := declarationStart tokens index
    match classHeader unicode document.text tokens index with
    | none => some { state with lexicallyComplete := false }
    | some header =>
        if delimiters.depths[index]? ≠ some 0 ∨
            gapsAreTrivia unicode document.text tokens start
              index = false ∨
            isDeclarationBoundary document.text tokens
              start = false then
          some { state with lexicallyComplete := false }
        else do
          let stop ← delimiters.closes.lookup header.body
          let first ← tokens[start]?
          let last ← tokens[stop]?
          some
            { classes :=
                state.classes ++
                  [{ name := header.name.text
                     nameRange :=
                      textRange lines header.name.start
                        header.name.stop
                     declarationRange :=
                      textRange lines first.start last.stop
                     base :=
                      header.base.map fun base =>
                        { name := base.text
                          range :=
                            textRange lines base.start
                              base.stop } }]
              lexicallyComplete := state.lexicallyComplete
              classifiedExtends :=
                state.classifiedExtends ++
                  header.heritage.toList }

def parseScannedClassHeritage
    (scanned : Tokenization)
    (lines : LineIndex) : Option DocumentClassHeritage := do
  let tokens := scanned.tokens
  let delimiters ← delimiterStructure tokens
  let state ←
    tokens.zipIdx.foldlM
      (heritageStep unicode document tokens delimiters lines)
      ⟨[], !scanned.uncertain, []⟩
  let unclassified :=
    tokens.zipIdx.any fun entry =>
      isIdentifierToken entry.1 &&
        entry.1.text == "extends" &&
        !state.classifiedExtends.contains entry.2
  some
    { uri := document.uri
      classes := state.classes
      lexicallyComplete :=
        state.lexicallyComplete && !unclassified }

----------
-- Binding Provenance
----------

def namedIdentifier (token : Token) : Bool :=
  isIdentifierToken token &&
    !(["type", "lazy", "as", "from"].contains token.text)

/-
  The place of the closing brace of a named header.  Every
  round consumes an identifier.
-/
def namedHeaderClose
    (tokens : List Token) :
    Nat → Nat → Option Nat
| 0, _ => none
| fuel + 1, cursor =>
    if ((tokens[cursor]?).any namedIdentifier) = false then
      none
    else
      let cursor :=
        if textAt tokens (cursor + 1) = some "as" then
          if (tokens[cursor + 2]?).any namedIdentifier then
            some (cursor + 3)
          else
            none
        else
          some (cursor + 1)
      match cursor with
      | none => none
      | some cursor =>
          if textAt tokens cursor = some "\x7d" then
            some cursor
          else if textAt tokens cursor = some "," then
            if textAt tokens (cursor + 1) = some "\x7d" then
              some (cursor + 1)
            else
              namedHeaderClose tokens fuel (cursor + 1)
          else
            none

/- The bytes of a quote in front of a string token. -/
def quoteWidth (token : Token) : Nat :=
  if token.kind = .stringLiteral then 1 else 0

/- The specifier of a named header and what follows it. -/
def namedHeaderTail
    (tokens : List Token)
    (start cursor : Nat) : Bool :=
  match tokens[cursor]?,
      (tokens[cursor + 1]?).filter
        (fun token => decide (token.kind = .stringLiteral))
    with
  | some fromToken, some literal =>
      if fromToken.text ≠ "from" ∨
          containsAny literal.text ['\\'] ∨
          literal.start = 0 then
        false
      else if gapsAreTrivia unicode source tokens start
            cursor = false ∨
          isTrivia unicode
            (sliceBytes source fromToken.stop
              (literal.start - 1)) = false then
        false
      else
        match tokens[cursor + 2]? with
        | none =>
            isTrivia unicode
              (dropBytes (literal.stop + 1) source)
        | some next =>
            let gap :=
              sliceBytes source (literal.stop + 1)
                (next.start - quoteWidth next)
            isTrivia unicode gap &&
              (decide (next.kind = .punctuation ∧
                  next.text = ";") ||
                containsLineTerminator gap)
  | _, _ => false

/- A named import or re-export of the supported subset. -/
def namedHeader
    (tokens : List Token)
    (start : Nat) : Bool :=
  if textAt tokens (start + 1) ≠ some "\x7b" ∨
      textAt tokens (start + 2) = some "\x7d" then
    false
  else
    match namedHeaderClose tokens tokens.length
        (start + 2) with
    | none => false
    | some close =>
        namedHeaderTail unicode source tokens start
          (close + 1)

def statementBoundary
    (tokens : List Token)
    (index : Nat) : Bool :=
  match index, tokens[index]? with
  | 0, some token =>
      isTrivia unicode (takeBytes token.start source)
  | previousIndex + 1, some token =>
      match tokens[previousIndex]? with
      | some previous =>
          let gap :=
            sliceBytes source
              (previous.stop + quoteWidth previous)
              token.start
          isTrivia unicode gap &&
            (decide (previous.kind = .punctuation) &&
                [";", "\x7d"].contains previous.text ||
              decide (previous.kind = .stringLiteral) &&
                containsLineTerminator gap)
      | none => false
  | _, none => false

/- The depths of braces, parentheses and brackets. -/
structure Depths where
  brace : Nat
  parenthesis : Nat
  bracket : Nat
deriving DecidableEq

def Depths.after (depths : Depths) (text : String) : Depths :=
  match text with
  | "\x7b" => { depths with brace := depths.brace + 1 }
  | "\x7d" => { depths with brace := depths.brace - 1 }
  | "(" =>
      { depths with parenthesis := depths.parenthesis + 1 }
  | ")" =>
      { depths with parenthesis := depths.parenthesis - 1 }
  | "[" => { depths with bracket := depths.bracket + 1 }
  | "]" => { depths with bracket := depths.bracket - 1 }
  | _ => depths

/- Declarations that the class binder does not represent. -/
def unrepresentedDeclarations : List String :=
  ["const", "let", "var", "function", "type", "interface",
    "enum", "namespace", "struct"]

/- A top-level import or export of the supported subset. -/
def moduleStatementSupported
    (tokens : List Token)
    (depths : Depths)
    (token : Token)
    (index : Nat) : Bool :=
  let next := tokens[index + 1]?
  if depths.parenthesis ≠ 0 ∨ depths.bracket ≠ 0 ∨
      statementBoundary unicode source tokens index =
        false then
    false
  else if token.text = "export" ∧
      (next.any fun next =>
        decide (next.kind ≠ .stringLiteral) &&
          ["\x7b", "class", "abstract", "declare"].contains
            next.text) = false then
    false
  else if (token.text = "import" ∨
        textAt tokens (index + 1) = some "\x7b") ∧
      namedHeader unicode source tokens index = false then
    false
  else
    true

def moduleBindingsStep
    (tokens : List Token)
    (depths : Depths)
    (entry : Token × Nat) : Option Depths :=
  let (token, index) := entry
  if token.kind = .stringLiteral then
    some depths
  else if depths.brace = 0 ∧
      unrepresentedDeclarations.contains token.text then
    none
  else if depths.brace = 0 ∧
      ["import", "export"].contains token.text ∧
      moduleStatementSupported unicode source tokens depths
        token index = false then
    none
  else
    some (depths.after token.text)

def moduleBindingsSupported
    (scanned : Tokenization) : Bool :=
  !scanned.uncertain &&
    (scanned.tokens.zipIdx.foldlM
      (moduleBindingsStep unicode document.text
        scanned.tokens)
      ⟨0, 0, 0⟩).isSome

def directNamedExportPositions
    (scanned : Tokenization)
    (lines : LineIndex) : List Position :=
  (scanned.tokens.filter fun token =>
    isIdentifierToken token && token.text == "export").map
      fun token => lines.position token.start

def sourceProvenance
    (heritage : Option DocumentClassHeritage)
    (scanned : Tokenization)
    (lines : LineIndex) : ClassBindingProvenance :=
  let sourceSupported :=
    heritage.any (·.lexicallyComplete) &&
      moduleBindingsSupported unicode document scanned
  { sourceSupported
    directExports :=
      match heritage with
      | some facts =>
          if sourceSupported then
            (facts.classes.filter fun class_ =>
              (directNamedExportPositions scanned
                lines).contains
                class_.declarationRange.start).map
              (·.nameRange)
          else
            []
      | none => [] }

end Heritage

----------
-- Storage Checks
----------

/- `inner` is not empty and lies inside `outer`. -/
def containedNonemptyRange (inner outer : TextRange) : Bool :=
  !inner.start.before outer.start &&
    inner.start.before inner.stop &&
    !outer.stop.before inner.stop

def classHeritageIsValid
    (class_ : ClassHeritageDeclaration) : Bool :=
  class_.name != "" &&
    containedNonemptyRange class_.nameRange
      class_.declarationRange &&
    class_.base.all fun base =>
      base.name != "" &&
        !base.range.start.before class_.nameRange.stop &&
        containedNonemptyRange base.range
          class_.declarationRange

/- `DocumentClassHeritage::validate_document`. -/
def DocumentClassHeritage.validateDocument
    (facts : DocumentClassHeritage)
    (uri : String) : Except StoreError Unit :=
  if facts.uri = uri ∧
      facts.classes.all classHeritageIsValid then
    Except.ok ()
  else
    Except.error
      ⟨.invalidData,
        "invalid class heritage metadata for document " ++
          uri⟩

/- `ClassBindingProvenance::validate_document`. -/
def ClassBindingProvenance.validateDocument
    (provenance : ClassBindingProvenance)
    (heritage : Option DocumentClassHeritage) :
    Except StoreError Unit :=
  let valid :=
    if provenance.sourceSupported then
      heritage.any fun facts =>
        let canonical :=
          (facts.classes.filter fun class_ =>
            provenance.directExports.contains
              class_.nameRange).map (·.nameRange)
        facts.lexicallyComplete &&
          decide
            (provenance.directExports.dedup.length =
              provenance.directExports.length) &&
          decide (canonical = provenance.directExports)
    else
      provenance.directExports.isEmpty
  if valid then
    Except.ok ()
  else
    Except.error
      ⟨.invalidData, "invalid class binding provenance"⟩

end ArktsServer
