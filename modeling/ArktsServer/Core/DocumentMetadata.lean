import ArktsServer.Core.ClassHeritage

/-
  What one document contributes to the index: its symbols,
  exports, occurrences, aliases and bindings, read off the
  token stream in one pass with brace, parenthesis and
  bracket depths.  Braces in strings are written `\x7b`
  and `\x7d`.

  Key definitions include:
    * `referenceOccurrences`, `referenceAliases`
    * `referenceBindings`
    * `symbolStep`, `parseSymbols`
    * `parseDocumentSymbols`
    * `ensureSymbolUris`
-/

----------
-- Occurrences and Aliases
----------

namespace ArktsServer

/- The token in front of an index. -/
def previousToken
    (tokens : List Token)
    (index : Nat) : Option Token :=
  match index with
  | 0 => none
  | index + 1 => tokens[index]?

def previousIsDot (tokens : List Token) (index : Nat) : Bool :=
  (previousToken tokens index).any (·.text == ".")

/- The identifier in front of the dot in front of a token. -/
def occurrenceQualifier
    (tokens : List Token)
    (index : Nat) : Option String :=
  if previousIsDot tokens index then
    ((previousToken tokens (index - 1)).filter
      isIdentifierToken).map (·.text)
  else
    none

def referenceOccurrence
    (document : Document)
    (lines : LineIndex)
    (tokens : List Token)
    (entry : Token × Nat) : ReferenceOccurrence where
  name := entry.1.text
  uri := document.uri
  range := textRange lines entry.1.start entry.1.stop
  qualified := some (previousIsDot tokens entry.2)
  qualifier := occurrenceQualifier tokens entry.2

def referenceOccurrences
    (document : Document)
    (lines : LineIndex)
    (tokens : List Token) : List ReferenceOccurrence :=
  (tokens.zipIdx.filter fun entry =>
    isIdentifierToken entry.1).map
      (referenceOccurrence document lines tokens)

/- The windows `from as to` of identifiers. -/
def referenceAliases
    (document : Document) :
    List Token → List ReferenceAlias
| first :: second :: third :: rest =>
    let remaining :=
      referenceAliases document (second :: third :: rest)
    if isIdentifierToken first && second.text == "as" &&
        isIdentifierToken third then
      ⟨first.text, third.text, document.uri⟩ :: remaining
    else
      remaining
| _ => []

----------
-- Bindings
----------

def unresolvedBinding
    (document : Document)
    (kind : ReferenceBindingKind)
    (importedName localName sourceSpecifier : String) :
    ReferenceBinding where
  importedName := importedName
  localName := localName
  sourceSpecifier := sourceSpecifier
  kind := kind
  uri := document.uri
  sourceResolution := .unresolved
  resolvedSourceUri := none
  externalTerminalIdentity := none

/- Skip `type` and `lazy` behind an import keyword. -/
def skipTypeAndLazy : List Token → List Token
| [] => []
| token :: rest =>
    if ["type", "lazy"].contains token.text then
      skipTypeAndLazy rest
    else
      token :: rest

/- `from` and a plain string, at the head of a token list. -/
def sourceLiteral : List Token → Option Token
| keyword :: source :: _ =>
    if keyword.text = "from" ∧
        source.kind = .stringLiteral ∧
        containsAny source.text ['\\'] = false then
      some source
    else
      none
| _ => none

/- One specifier, `imported` or `imported as local`. -/
def bindingSpecifier
    (tokens : List Token) :
    Option ((Token × Token) × List Token) :=
  let tokens :=
    match tokens with
    | token :: rest =>
        if token.text = "type" then rest else token :: rest
    | [] => []
  match tokens with
  | [] => none
  | imported :: rest =>
      if isIdentifierToken imported then
        match rest with
        | keyword :: after =>
            if keyword.text = "as" then
              match after with
              | alias_ :: rest =>
                  if isIdentifierToken alias_ then
                    some ((imported, alias_), rest)
                  else
                    none
              | [] => none
            else
              some ((imported, imported), rest)
        | [] => some ((imported, imported), [])
      else
        none

/-
  The specifiers between two braces.  Every round consumes a
  token.
-/
def bindingSpecifiers :
    Nat → List Token → Option (List (Token × Token))
| _, [] => some []
| 0, _ :: _ => none
| fuel + 1, token :: rest =>
    if token.text = "," then
      bindingSpecifiers fuel rest
    else do
      let (names, remaining) ←
        bindingSpecifier (token :: rest)
      if remaining.head?.any (·.text != ",") then
        none
      else
        let more ← bindingSpecifiers fuel remaining
        some (names :: more)

/- The bindings of `keyword { … } from "…"`. -/
def namedSourceBindings
    (document : Document)
    (kind : ReferenceBindingKind)
    (afterKeyword : List Token) : List ReferenceBinding :=
  match skipTypeAndLazy afterKeyword with
  | [] => []
  | opener :: body =>
      if opener.text ≠ "\x7b" then
        []
      else
        let inside := body.takeWhile (·.text ≠ "\x7d")
        match body.drop inside.length with
        | [] => []
        | _ :: afterClose =>
            match sourceLiteral afterClose with
            | none => []
            | some source =>
                ((bindingSpecifiers inside.length
                  inside).getD []).map fun names =>
                    unresolvedBinding document kind
                      names.1.text names.2.text source.text

/- The bindings of an import statement. -/
def importSourceBindings
    (document : Document)
    (afterKeyword : List Token) : List ReferenceBinding :=
  let named :=
    namedSourceBindings document .import_ afterKeyword
  if named ≠ [] then
    named
  else
    match skipTypeAndLazy afterKeyword with
    | local_ :: rest =>
        if isIdentifierToken local_ then
          match sourceLiteral rest with
          | some source =>
              [unresolvedBinding document .import_ "default"
                local_.text source.text]
          | none => []
        else
          []
    | [] => []

/- The statements at brace depth zero, in source order. -/
def referenceBindingsFrom
    (document : Document) :
    Nat → List Token → List ReferenceBinding
| _, [] => []
| braceDepth, token :: rest =>
    if token.kind = .stringLiteral then
      referenceBindingsFrom document braceDepth rest
    else if token.text = "\x7b" then
      referenceBindingsFrom document (braceDepth + 1) rest
    else if token.text = "\x7d" then
      referenceBindingsFrom document (braceDepth - 1) rest
    else if token.text = "import" ∧ braceDepth = 0 then
      importSourceBindings document rest ++
        referenceBindingsFrom document braceDepth rest
    else if token.text = "export" ∧ braceDepth = 0 then
      namedSourceBindings document .reExport rest ++
        referenceBindingsFrom document braceDepth rest
    else
      referenceBindingsFrom document braceDepth rest

def referenceBindings
    (document : Document)
    (tokens : List Token) : List ReferenceBinding :=
  referenceBindingsFrom document 0 tokens

----------
-- Exported Declarations
----------

def isExportModifier (keyword candidate : String) : Bool :=
  match keyword with
  | "class" => ["abstract", "declare"].contains candidate
  | "struct" | "enum" | "interface" | "type" | "const" =>
      candidate == "declare"
  | "function" => ["async", "declare"].contains candidate
  | _ => false

/- Walk back over the modifiers of a declaration. -/
def skipExportModifiers
    (keyword : String)
    (tokens : List Token) : Nat → Nat
| 0 => 0
| cursor + 1 =>
    if (textAt tokens cursor).any
        (isExportModifier keyword) then
      skipExportModifiers keyword tokens cursor
    else
      cursor + 1

/- Whether a declaration is exported, and as the default. -/
def exportedDeclarationDefault
    (tokens : List Token)
    (keywordIndex braceDepth : Nat) : Option Bool :=
  if braceDepth ≠ 0 then
    none
  else do
    let keyword ← textAt tokens keywordIndex
    let cursor :=
      skipExportModifiers keyword tokens keywordIndex
    let isDefault :=
      (previousToken tokens cursor).any (·.text == "default")
    let cursor := if isDefault then cursor - 1 else cursor
    if (previousToken tokens cursor).any
        (·.text == "export") then
      some isDefault
    else
      none

def isExportedDeclaration
    (tokens : List Token)
    (index braceDepth : Nat) : Bool :=
  (exportedDeclarationDefault tokens index braceDepth).isSome

def isDefaultExportedDeclaration
    (tokens : List Token)
    (keywordIndex : Nat) : Bool :=
  exportedDeclarationDefault tokens keywordIndex 0 ==
    some true

def exportedConstName
    (tokens : List Token)
    (index braceDepth : Nat) : Option Token :=
  if isExportedDeclaration tokens index braceDepth then
    identifierAt tokens (index + 1)
  else
    none

def endsArrowSearch (text : String) : Bool :=
  [";", "\x7b", "\x7d", "export"].contains text

/- The tokens behind the parenthesis that closes the first. -/
def afterParentheses : Nat → List Token → Option (List Token)
| _, [] => none
| depth, token :: rest =>
    if token.text = "(" then
      afterParentheses (depth + 1) rest
    else if token.text = ")" then
      match depth with
      | 0 => none
      | 1 => some rest
      | depth + 2 => afterParentheses (depth + 1) rest
    else if endsArrowSearch token.text ∧ depth = 0 then
      none
    else
      afterParentheses depth rest

def exportedConstIsArrowFunction
    (tokens : List Token)
    (index : Nat) : Bool :=
  match (tokens.drop (index + 2)).dropWhile
      (·.text ≠ "=") with
  | [] => false
  | _ :: parameters =>
      if parameters.head?.any (·.text == "(") = false then
        false
      else
        match afterParentheses 0 parameters with
        | none => false
        | some rest =>
            (rest.takeWhile fun token =>
              !endsArrowSearch token.text).any
                (·.text == "=>")

def isNonMethodKeyword (identifier : String) : Bool :=
  ["if", "for", "while", "switch", "catch",
    "function"].contains identifier

----------
-- Symbols
----------

structure Container where
  name : String
  bodyDepth : Nat
deriving DecidableEq

/- The state of the symbol pass. -/
structure SymbolState where
  symbols : List WorkspaceSymbol
  exports : List WorkspaceExport
  containers : List Container
  pendingContainer : Option String
  depths : Depths

section Symbols

variable (document : Document)
variable (lines : LineIndex)

def symbol
    (name : Token)
    (kind : SymbolKind)
    (container : Option String) : WorkspaceSymbol where
  name := name.text
  kind := kind
  uri := document.uri
  range := textRange lines name.start name.stop
  container := container

/- The identity text of a declaration. -/
def declarationIdentityText
    (uri : String)
    (start : Position)
    (name : String) : String :=
  uri ++ "#" ++ toString start.line ++ ":" ++
    toString start.character ++ ":" ++ name

def workspaceExport
    (name : Token)
    (kind : SymbolKind)
    (ordinal : Nat)
    (referenceExportName : Option String) :
    Option WorkspaceExport :=
  let range := textRange lines name.start name.stop
  if ordinal < 2 ^ 32 then
    some
      { exportedName := name.text
        referenceExportName
        kind
        uri := document.uri
        range
        ordinal
        declarationIdentity :=
          some
            (declarationIdentityText document.uri
              range.start name.text)
        importSpecifier := none
        moduleId := none
        targetScope := none
        referenceSearchable := referenceExportName.isSome }
  else
    none

/- The symbol kind of a container keyword. -/
def containerKind : String → Option SymbolKind
| "class" => some .class_
| "struct" => some .struct
| "enum" => some .enum
| "interface" => some .interface
| "namespace" => some .namespace_
| _ => none

/- Record a symbol. -/
def SymbolState.pushSymbol
    (state : SymbolState)
    (name : Token)
    (kind : SymbolKind)
    (container : Option String) : SymbolState :=
  { state with
    symbols :=
      state.symbols ++
        [symbol document lines name kind container] }

/- Record an export under the next ordinal. -/
def SymbolState.pushExport
    (state : SymbolState)
    (name : Token)
    (kind : SymbolKind)
    (referenceExportName : String) : Option SymbolState := do
  let item ←
    workspaceExport document lines name kind
      state.exports.length (some referenceExportName)
  some { state with exports := state.exports ++ [item] }

variable (tokens : List Token)

/- The name under which other documents import. -/
def exportName (index : Nat) (name : Token) : String :=
  if isDefaultExportedDeclaration tokens index then
    "default"
  else
    name.text

/- Record a declaration and, if exported, its export. -/
def SymbolState.declare
    (state : SymbolState)
    (index : Nat)
    (name : Token)
    (kind : SymbolKind) : Option SymbolState :=
  let state :=
    state.pushSymbol document lines name kind none
  if isExportedDeclaration tokens index
      state.depths.brace then
    state.pushExport document lines name kind
      (exportName tokens index name)
  else
    some state

/- A class, struct, enum, interface or namespace. -/
def containerStep
    (state : SymbolState)
    (index : Nat)
    (kind : SymbolKind) : Option SymbolState :=
  match identifierAt tokens (index + 1) with
  | none => some state
  | some name => do
      let state ←
        state.declare document lines tokens index name kind
      some
        (if kind = .enum then
          state
        else
          { state with pendingContainer := some name.text })

def functionStep
    (state : SymbolState)
    (index : Nat) : Option SymbolState :=
  match identifierAt tokens (index + 1) with
  | none => some state
  | some name =>
      state.declare document lines tokens index name .function

/- A type alias counts only when it is exported. -/
def typeStep
    (state : SymbolState)
    (index : Nat) : Option SymbolState :=
  if isExportedDeclaration tokens index
      state.depths.brace then
    match identifierAt tokens (index + 1) with
    | none => some state
    | some name =>
        (state.pushSymbol document lines name .typeAlias
          none).pushExport document lines name .typeAlias
            (exportName tokens index name)
  else
    some state

/- A constant counts only when it is exported. -/
def constStep
    (state : SymbolState)
    (index : Nat) : Option SymbolState :=
  match exportedConstName tokens index
      state.depths.brace with
  | none => some state
  | some name =>
      let kind :=
        if exportedConstIsArrowFunction tokens index then
          SymbolKind.function
        else
          SymbolKind.variable
      (state.pushSymbol document lines name kind
        none).pushExport document lines name kind name.text

def openBrace (state : SymbolState) : SymbolState :=
  let depth := state.depths.brace + 1
  { state with
    depths := { state.depths with brace := depth }
    pendingContainer := none
    containers :=
      match state.pendingContainer with
      | some name => ⟨name, depth⟩ :: state.containers
      | none => state.containers }

def closeBrace (state : SymbolState) : Option SymbolState :=
  match state.depths.brace with
  | 0 => none
  | depth + 1 =>
      some
        { state with
          depths := { state.depths with brace := depth }
          containers :=
            if state.containers.head?.any
                (·.bodyDepth == depth + 1) then
              state.containers.tail
            else
              state.containers }

def closeParenthesis
    (state : SymbolState) : Option SymbolState :=
  match state.depths.parenthesis with
  | 0 => none
  | depth + 1 =>
      some
        { state with
          depths :=
            { state.depths with parenthesis := depth } }

def closeBracket (state : SymbolState) : Option SymbolState :=
  match state.depths.bracket with
  | 0 => none
  | depth + 1 =>
      some
        { state with
          depths := { state.depths with bracket := depth } }

/- A call-like name directly inside a container body. -/
def methodStep
    (state : SymbolState)
    (token : Token)
    (index : Nat) : SymbolState :=
  match state.containers with
  | [] => state
  | container :: _ =>
      if container.bodyDepth ≠ state.depths.brace ∨
          token.kind ≠ .identifier ∨
          textAt tokens (index + 1) ≠ some "(" ∨
          isNonMethodKeyword token.text ∨
          previousIsDot tokens index then
        state
      else
        state.pushSymbol document lines token .method
          (some container.name)

/- One token of the symbol pass. -/
def symbolStep
    (state : SymbolState)
    (entry : Token × Nat) : Option SymbolState :=
  let (token, index) := entry
  if token.kind = .stringLiteral then
    some state
  else
    match containerKind token.text with
    | some kind =>
        containerStep document lines tokens state index kind
    | none =>
        match token.text with
        | "function" =>
            functionStep document lines tokens state index
        | "type" =>
            typeStep document lines tokens state index
        | "const" =>
            constStep document lines tokens state index
        | "\x7b" => some (openBrace state)
        | "\x7d" => closeBrace state
        | "(" =>
            some
              { state with
                depths :=
                  { state.depths with
                    parenthesis :=
                      state.depths.parenthesis + 1 } }
        | ")" => closeParenthesis state
        | "[" =>
            some
              { state with
                depths :=
                  { state.depths with
                    bracket := state.depths.bracket + 1 } }
        | "]" => closeBracket state
        | _ =>
            some
              (methodStep document lines tokens state token
                index)

/- The symbols and exports of balanced tokens. -/
def parseSymbols :
    Option (List WorkspaceSymbol × List WorkspaceExport) := do
  let state ←
    tokens.zipIdx.foldlM (symbolStep document lines tokens)
      ⟨[], [], [], none, ⟨0, 0, 0⟩⟩
  if state.depths = ⟨0, 0, 0⟩ then
    some (state.symbols, state.exports)
  else
    none

end Symbols

----------
-- Documents
----------

/- Everything the index stores about one document. -/
def parseDocumentSymbols
    (unicode : Unicode)
    (document : Document) : Option DocumentSymbols := do
  let scanned ← tokenizeWithStatus unicode document.text
  let lines := LineIndex.new document.text
  let (symbols, exports) ←
    parseSymbols document lines scanned.tokens
  let classHeritage :=
    parseScannedClassHeritage unicode document scanned lines
  some
    { uri := document.uri
      symbols
      exports
      occurrences :=
        referenceOccurrences document lines scanned.tokens
      aliases := referenceAliases document scanned.tokens
      bindings := referenceBindings document scanned.tokens
      classHeritage
      classBindingProvenance :=
        some
          (sourceProvenance unicode document classHeritage
            scanned lines) }

/- Every item of a document names the document's URI. -/
def symbolUrisMatch (document : DocumentSymbols) : Bool :=
  document.symbols.all (·.uri == document.uri) &&
    document.exports.all (·.uri == document.uri) &&
    document.occurrences.all (·.uri == document.uri) &&
    document.aliases.all (·.uri == document.uri) &&
    document.bindings.all (·.uri == document.uri)

def ensureSymbolUris
    (document : DocumentSymbols) : Except StoreError Unit := do
  match document.classHeritage with
  | some facts => facts.validateDocument document.uri
  | none => pure ()
  match document.classBindingProvenance with
  | some provenance =>
      provenance.validateDocument document.classHeritage
  | none => pure ()
  if symbolUrisMatch document then
    pure ()
  else
    throw
      ⟨.invalidData,
        "symbol URI does not match document " ++
          document.uri⟩

/- A check in front of others passes when all of them do. -/
theorem check_eq_ok
    {check : Except StoreError Unit}
    {next : Unit → Except StoreError Unit} :
    (check >>= next) = Except.ok () ↔
      check = Except.ok () ∧ next () = Except.ok () := by
  cases check with
  | error error =>
    constructor
    · intro hOk
      cases hOk
    · rintro ⟨hCheck, _⟩
      cases hCheck
  | ok result =>
    exact ⟨fun hNext => ⟨rfl, hNext⟩, fun hBoth => hBoth.2⟩

/- A document passes when its parts pass one by one. -/
theorem ensureSymbolUris_eq_ok
    {document : DocumentSymbols} :
    ensureSymbolUris document = Except.ok () ↔
      (∀ facts,
        document.classHeritage = some facts →
        facts.validateDocument document.uri = Except.ok ()) ∧
        (∀ provenance,
          document.classBindingProvenance
              = some provenance →
          provenance.validateDocument document.classHeritage
            = Except.ok ()) ∧
        symbolUrisMatch document = true := by
  unfold ensureSymbolUris
  cases hMatch : symbolUrisMatch document <;>
    cases document.classHeritage <;>
    cases document.classBindingProvenance <;>
    simp [check_eq_ok, pure, Except.pure, throw,
      throwThe, MonadExceptOf.throw]

end ArktsServer
