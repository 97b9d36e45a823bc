import ArktsServer.Core.DocumentMetadata
import ArktsServer.Core.TokenPlaces
import ArktsServer.Lib.Transition

/-
  What the parser accepts passes the checks of the stores:
  everything names the document, exports are numbered apart,
  the ranges of classes are not empty and lie in each other,
  and the exported classes are in the order of the classes.

  Key definitions include:
    * `SymbolsOwn`
    * `HeritageOwn`

  Correctness is proven by:
    * `parseSymbols_own`
    * `parseScannedClassHeritage_own`
    * `sourceProvenance_valid`
    * `parseDocumentSymbols_valid`
-/

namespace ArktsServer

open Transition

----------
-- Symbols and Exports
----------

/- Symbols and exports of a document, numbered in order. -/
structure SymbolsOwn
    (uri : String)
    (state : SymbolState) : Prop where
  symbols : ∀ item ∈ state.symbols, item.uri = uri
  exports : ∀ item ∈ state.exports, item.uri = uri
  ordinals :
    state.exports.map (·.ordinal) =
      List.range state.exports.length

section Symbols

variable {document : Document}
variable {lines : LineIndex}

theorem SymbolsOwn.pushSymbol
    {state : SymbolState}
    (hOwn : SymbolsOwn document.uri state)
    (name : Token)
    (kind : SymbolKind)
    (container : Option String) :
    SymbolsOwn document.uri
      (state.pushSymbol document lines name kind
        container) where
  symbols := by
    intro item hItem
    rcases List.mem_append.mp hItem with hOld | hNew
    · exact hOwn.symbols item hOld
    · rw [List.mem_singleton.mp hNew]
      rfl
  exports := hOwn.exports
  ordinals := hOwn.ordinals

variable {state state' : SymbolState}
variable {kind : SymbolKind}
variable {name : Token}

theorem SymbolsOwn.pushExport
    (hOwn : SymbolsOwn document.uri state)
    {referenceExportName : String}
    (hPush :
      state.pushExport document lines name kind
          referenceExportName
        = some state') :
    SymbolsOwn document.uri state' := by
  unfold SymbolState.pushExport workspaceExport at hPush
  simp only at hPush
  split at hPush
  · cases hPush
    refine ⟨hOwn.symbols, ?_, ?_⟩
    · intro item hItem
      rcases List.mem_append.mp hItem with hOld | hNew
      · exact hOwn.exports item hOld
      · rw [List.mem_singleton.mp hNew]
    · simp only [List.map_append, hOwn.ordinals,
        List.map_singleton, List.length_append,
        List.length_singleton, List.range_succ]
  · cases hPush

variable {tokens : List Token}

variable {index : Nat}

theorem SymbolsOwn.declare
    (hOwn : SymbolsOwn document.uri state)
    (hDeclare :
      state.declare document lines tokens index name kind
        = some state') :
    SymbolsOwn document.uri state' := by
  have hSymbol :=
    @SymbolsOwn.pushSymbol document lines state hOwn name kind
      none
  unfold SymbolState.declare at hDeclare
  simp only at hDeclare
  split at hDeclare
  · exact hSymbol.pushExport hDeclare
  · cases hDeclare
    exact hSymbol

/- Depths and containers do not matter. -/
theorem SymbolsOwn.same
    (hOwn : SymbolsOwn document.uri state)
    (hSymbols : state'.symbols = state.symbols)
    (hExports : state'.exports = state.exports) :
    SymbolsOwn document.uri state' := by
  refine ⟨?_, ?_, ?_⟩
  · rw [hSymbols]
    exact hOwn.symbols
  · rw [hExports]
    exact hOwn.exports
  · rw [hExports]
    exact hOwn.ordinals

theorem containerStep_own
    (hOwn : SymbolsOwn document.uri state)
    (hStep :
      containerStep document lines tokens state index kind
        = some state') :
    SymbolsOwn document.uri state' := by
  unfold containerStep at hStep
  split at hStep
  · cases hStep
    exact hOwn
  · rename_i name _
    cases hDeclare :
        state.declare document lines tokens index name kind with
    | none =>
      rw [hDeclare] at hStep
      cases hStep
    | some declared =>
      rw [hDeclare] at hStep
      have hDeclared := hOwn.declare hDeclare
      cases hStep
      split
      · exact hDeclared
      · exact hDeclared.same rfl rfl

theorem functionStep_own
    (hOwn : SymbolsOwn document.uri state)
    (hStep :
      functionStep document lines tokens state index
        = some state') :
    SymbolsOwn document.uri state' := by
  unfold functionStep at hStep
  split at hStep
  · cases hStep
    exact hOwn
  · exact hOwn.declare hStep

theorem typeStep_own
    (hOwn : SymbolsOwn document.uri state)
    (hStep :
      typeStep document lines tokens state index
        = some state') :
    SymbolsOwn document.uri state' := by
  unfold typeStep at hStep
  split at hStep
  · split at hStep
    · cases hStep
      exact hOwn
    · exact (hOwn.pushSymbol _ _ _).pushExport hStep
  · cases hStep
    exact hOwn

theorem constStep_own
    (hOwn : SymbolsOwn document.uri state)
    (hStep :
      constStep document lines tokens state index
        = some state') :
    SymbolsOwn document.uri state' := by
  unfold constStep at hStep
  split at hStep
  · cases hStep
    exact hOwn
  · exact (hOwn.pushSymbol _ _ _).pushExport hStep

theorem methodStep_own
    {state : SymbolState}
    (hOwn : SymbolsOwn document.uri state)
    (token : Token)
    (index : Nat) :
    SymbolsOwn document.uri
      (methodStep document lines tokens state token index) := by
  unfold methodStep
  split
  · exact hOwn
  · split
    · exact hOwn
    · exact hOwn.pushSymbol _ _ _

/- One token keeps the symbols and exports in order. -/
theorem symbolStep_own
    (hOwn : SymbolsOwn document.uri state)
    {entry : Token × Nat}
    (hStep :
      symbolStep document lines tokens state entry
        = some state') :
    SymbolsOwn document.uri state' := by
  unfold symbolStep at hStep
  simp only at hStep
  split at hStep
  · cases hStep
    exact hOwn
  · split at hStep
    · exact containerStep_own hOwn hStep
    · split at hStep
      · exact functionStep_own hOwn hStep
      · exact typeStep_own hOwn hStep
      · exact constStep_own hOwn hStep
      · cases hStep
        exact hOwn.same rfl rfl
      · unfold closeBrace at hStep
        split at hStep
        · cases hStep
        · cases hStep
          exact hOwn.same rfl rfl
      · cases hStep
        exact hOwn.same rfl rfl
      · unfold closeParenthesis at hStep
        split at hStep
        · cases hStep
        · cases hStep
          exact hOwn.same rfl rfl
      · cases hStep
        exact hOwn.same rfl rfl
      · unfold closeBracket at hStep
        split at hStep
        · cases hStep
        · cases hStep
          exact hOwn.same rfl rfl
      · cases hStep
        exact methodStep_own hOwn _ _

/- The symbols and exports that the parser returns. -/
theorem parseSymbols_own
    {symbols : List WorkspaceSymbol}
    {exports : List WorkspaceExport}
    (hParse :
      parseSymbols document lines tokens
        = some (symbols, exports)) :
    (∀ item ∈ symbols, item.uri = document.uri) ∧
      (∀ item ∈ exports, item.uri = document.uri) ∧
      (exports.map (·.ordinal)).Nodup := by
  unfold parseSymbols at hParse
  cases hRun :
      tokens.zipIdx.foldlM (symbolStep document lines tokens)
        ⟨[], [], [], none, ⟨0, 0, 0⟩⟩ with
  | none =>
    rw [hRun] at hParse
    cases hParse
  | some state =>
    have hOwn : SymbolsOwn document.uri state :=
      @zipIdx_invariant SymbolState Token _
        (fun _ state => SymbolsOwn document.uri state) _
        (fun _ _ _ _ _ hOld hStep =>
          symbolStep_own hOld hStep) _ _
        ⟨fun _ hItem => absurd hItem List.not_mem_nil,
          fun _ hItem => absurd hItem List.not_mem_nil,
          rfl⟩
        hRun
    simp only [hRun, Option.bind_eq_bind,
      Option.bind_some] at hParse
    split at hParse
    · cases hParse
      refine ⟨hOwn.symbols, hOwn.exports, ?_⟩
      rw [hOwn.ordinals]
      exact List.nodup_range
    · cases hParse

end Symbols

----------
-- Delimiters
----------

/- Openers come before their closers. -/
structure DelimitersOrdered
    (read : Nat)
    (state : DelimiterStructure) : Prop where
  stack : ∀ entry ∈ state.stack, entry.1 < read
  closes : ∀ entry ∈ state.closes, entry.1 < entry.2

variable {read : Nat}
variable {token : Token}

theorem delimiterStep_ordered
    {state state' : DelimiterStructure}
    (hOrdered : DelimitersOrdered read state)
    (hStep :
      delimiterStep state (token, read) = some state') :
    DelimitersOrdered (read + 1) state' := by
  have hStack :
      ∀ entry ∈ state.stack, entry.1 < read + 1 :=
    fun entry hEntry =>
      Nat.lt_succ_of_lt (hOrdered.stack entry hEntry)
  unfold delimiterStep at hStep
  simp only at hStep
  split at hStep
  · cases hStep
    exact ⟨hStack, hOrdered.closes⟩
  · split at hStep
    · cases hStep
      refine ⟨?_, hOrdered.closes⟩
      exact List.forall_mem_cons.mpr ⟨Nat.lt_succ_self _, hStack⟩
    · split at hStep
      · split at hStep
        · cases hStep
        · rename_i opener _ rest hOpen
          split at hStep
          · cases hStep
            rw [hOpen] at hStack
            have hOpener :=
              hOrdered.stack _ (hOpen ▸ List.mem_cons_self)
            exact
              ⟨fun entry hEntry =>
                hStack entry (List.mem_cons_of_mem _ hEntry),
                List.forall_mem_cons.mpr
                  ⟨hOpener, hOrdered.closes⟩⟩
          · cases hStep
      · cases hStep
        exact ⟨hStack, hOrdered.closes⟩

theorem mem_of_lookup
    {entries : List (Nat × Nat)}
    {key value : Nat}
    (hLookup : entries.lookup key = some value) :
    (key, value) ∈ entries := by
  induction entries with
  | nil => cases hLookup
  | cons entry entries ih =>
    rw [List.lookup_cons] at hLookup
    split at hLookup
    · rename_i hKey
      rw [beq_iff_eq] at hKey
      rw [hKey, ← Option.some.inj hLookup]
      exact List.mem_cons_self
    · exact List.mem_cons_of_mem _ (ih hLookup)

variable {tokens : List Token}

/- The closer that a header finds is behind its body. -/
theorem lookup_closes
    {delimiters : DelimiterStructure}
    (hDelimiters :
      delimiterStructure tokens = some delimiters)
    {body stop : Nat}
    (hStop : delimiters.closes.lookup body = some stop) :
    body < stop := by
  unfold delimiterStructure at hDelimiters
  cases hRun :
      tokens.zipIdx.foldlM delimiterStep ⟨[], [], []⟩ with
  | none =>
    rw [hRun] at hDelimiters
    cases hDelimiters
  | some state =>
    have hOrdered : DelimitersOrdered tokens.length state :=
      zipIdx_invariant
        (fun _ _ _ _ _ hOld hStep =>
          delimiterStep_ordered hOld hStep)
        ⟨fun _ hEntry => absurd hEntry List.not_mem_nil,
          fun _ hEntry => absurd hEntry List.not_mem_nil⟩
        hRun
    simp only [hRun, Option.bind_eq_bind,
      Option.bind_some] at hDelimiters
    split at hDelimiters
    · cases hDelimiters
      exact hOrdered.closes _ (mem_of_lookup hStop)
    · cases hDelimiters

----------
-- Class Headers
----------

variable {index : Nat}

theorem identifierAt_eq_some
    (hToken : identifierAt tokens index = some token) :
    tokens[index]? = some token ∧
      token.kind = .identifier := by
  unfold identifierAt at hToken
  rcases Option.filter_eq_some_iff.mp hToken with
    ⟨hAt, hIdentifier⟩
  exact ⟨hAt, of_decide_eq_true hIdentifier⟩

theorem declarationStart_le
    (tokens : List Token)
    (index : Nat) :
    declarationStart tokens index ≤ index := by
  induction index with
  | zero => exact Nat.le_refl 0
  | succ index ih =>
    unfold declarationStart
    split
    · split
      · exact Nat.le_succ_of_le ih
      · exact Nat.le_refl _
    · exact Nat.le_refl _

/- The tokens of a header, in the order of the source. -/
structure HeaderPlaced
    (tokens : List Token)
    (index : Nat)
    (header : ClassHeader) : Prop where
  name :
    tokens[index + 1]? = some header.name ∧
      header.name.kind = .identifier
  base :
    ∀ base,
      header.base = some base →
        tokens[index + 3]? = some base ∧
          base.kind = .identifier ∧ index + 3 < header.body
  body : index + 1 < header.body

theorem classHeader_placed
    {unicode : Unicode}
    {source : List Char}
    {header : ClassHeader}
    (hHeader :
      classHeader unicode source tokens index = some header) :
    HeaderPlaced tokens index header := by
  unfold classHeader at hHeader
  have hChecked :
      ∀ found : ClassHeader,
        ((tokens[found.body]?).bind fun opener =>
            if opener.kind = .punctuation ∧
                opener.text = "\x7b" ∧
                gapsAreTrivia unicode source tokens index
                  found.body then
              some found
            else none)
          = some header →
        found = header := by
    intro found hFound
    rcases Option.bind_eq_some_iff.mp hFound with
      ⟨opener, _, hFound⟩
    split at hFound
    · exact Option.some.inj hFound
    · cases hFound
  simp only [Option.bind_eq_bind] at hHeader
  rcases Option.bind_eq_some_iff.mp hHeader with
    ⟨name, hName, hHeader⟩
  have hNamed := identifierAt_eq_some hName
  split at hHeader
  · cases hHeader
  · rcases Option.bind_eq_some_iff.mp hHeader with
      ⟨next, _, hHeader⟩
    split at hHeader
    · rcases Option.bind_eq_some_iff.mp hHeader with
        ⟨base, hBase, hHeader⟩
      have hBased := identifierAt_eq_some hBase
      rw [← hChecked _ hHeader]
      refine ⟨hNamed, ?_, by simp only; omega⟩
      intro other hOther
      cases hOther
      exact ⟨hBased.1, hBased.2, by simp only; omega⟩
    · rw [← hChecked _ hHeader]
      refine ⟨hNamed, ?_, by simp only; omega⟩
      intro other hOther
      cases hOther

----------
-- Class Heritage
----------

section Heritage

variable {unicode : Unicode}
variable {document : Document}
variable {tokens : List Token}

/- Valid classes in the order of their names. -/
structure HeritageOwn
    (document : Document)
    (tokens : List Token)
    (read : Nat)
    (classes : List ClassHeritageDeclaration) : Prop where
  valid : classes.all classHeritageIsValid = true
  named :
    ∀ class_ ∈ classes,
      ∃ index name,
        index < read ∧ tokens[index + 1]? = some name ∧
          name.kind = .identifier ∧
          class_.nameRange =
            textRange (LineIndex.new document.text)
              name.start name.stop
  ordered :
    classes.Pairwise fun left right =>
      left.nameRange.start.before right.nameRange.start = true

variable {classes : List ClassHeritageDeclaration}

theorem HeritageOwn.later
    (hOwn : HeritageOwn document tokens read classes) :
    HeritageOwn document tokens (read + 1) classes := by
  refine ⟨hOwn.valid, ?_, hOwn.ordered⟩
  intro class_ hClass
  rcases hOwn.named class_ hClass with
    ⟨index, name, hIndex, hName⟩
  exact ⟨index, name, Nat.lt_succ_of_lt hIndex, hName⟩

section Places

variable (hTokens : TokensPlaced document.text 0 tokens)
variable (hBytes : byteLengthOf document.text < 2 ^ 32)

include hTokens hBytes

/- An identifier is not empty. -/
theorem identifier_nonempty
    (hToken : tokens[index]? = some token)
    (hKind : token.kind = .identifier) :
    token.text ≠ "" ∧
      ((LineIndex.new document.text).position
          token.start).before
        ((LineIndex.new document.text).position token.stop)
        = true := by
  have hPlaced :=
    hTokens.placed token (List.mem_of_getElem? hToken)
  have hOther : token.kind ≠ .stringLiteral := by
    rw [hKind]
    decide
  exact
    ⟨hPlaced.text hOther,
      position_before_of_lt hPlaced.start hPlaced.stop
        (hPlaced.lt hOther) hBytes⟩

/- An identifier lies between the tokens around it. -/
theorem identifier_contained
    {left middle right : Nat}
    {first token last : Token}
    (hFirst : tokens[left]? = some first)
    (hToken : tokens[middle]? = some token)
    (hLast : tokens[right]? = some last)
    (hKind : token.kind = .identifier)
    (hLeft : left < middle)
    (hRight : middle < right) :
    containedNonemptyRange
        (textRange (LineIndex.new document.text) token.start
          token.stop)
        (textRange (LineIndex.new document.text) first.start
          last.stop)
      = true := by
  have hPlaced :=
    hTokens.placed token (List.mem_of_getElem? hToken)
  have hFirstPlaced :=
    hTokens.placed first (List.mem_of_getElem? hFirst)
  have hLastPlaced :=
    hTokens.placed last (List.mem_of_getElem? hLast)
  have hBefore := hTokens.stop_le_start hFirst hToken hLeft
  have hBehind := hTokens.stop_le_start hToken hLast hRight
  have hFirstLe := hFirstPlaced.le
  have hLastLe := hLastPlaced.le
  unfold containedNonemptyRange textRange
  simp only
  rw [(identifier_nonempty hTokens hBytes hToken hKind).2,
    position_not_before hFirstPlaced.start hPlaced.start
      (by omega) hBytes,
    position_not_before hPlaced.stop hLastPlaced.stop
      (by omega) hBytes]
  rfl

/- The facts of a class with a header of its own. -/
theorem heritageClass_valid
    {index start stop : Nat}
    {header : ClassHeader}
    {first last : Token}
    (hHeader : HeaderPlaced tokens index header)
    (hStart : start ≤ index)
    (hStop : header.body < stop)
    (hFirst : tokens[start]? = some first)
    (hLast : tokens[stop]? = some last) :
    classHeritageIsValid
        { name := header.name.text
          nameRange :=
            textRange (LineIndex.new document.text)
              header.name.start header.name.stop
          declarationRange :=
            textRange (LineIndex.new document.text)
              first.start last.stop
          base :=
            header.base.map fun base =>
              { name := base.text
                range :=
                  textRange (LineIndex.new document.text)
                    base.start base.stop } }
      = true := by
  have hBody := hHeader.body
  have hName :=
    identifier_nonempty hTokens hBytes hHeader.name.1
      hHeader.name.2
  have hNamed :=
    identifier_contained hTokens hBytes hFirst hHeader.name.1
      hLast hHeader.name.2 (by omega) (by omega)
  unfold classHeritageIsValid
  simp only [hNamed, Bool.and_true, Bool.and_eq_true,
    bne_iff_ne, ne_eq, hName.1, not_false_eq_true, true_and]
  cases hBase : header.base with
  | none => rfl
  | some base =>
    rcases hHeader.base base hBase with
      ⟨hAt, hKind, hBehind⟩
    have hNonempty := identifier_nonempty hTokens hBytes hAt hKind
    have hContained :=
      identifier_contained hTokens hBytes hFirst hAt hLast
        hKind (by omega) (by omega)
    have hApart :=
      position_not_before
        (hTokens.placed _
          (List.mem_of_getElem? hHeader.name.1)).stop
        (hTokens.placed _ (List.mem_of_getElem? hAt)).start
        (hTokens.stop_le_start hHeader.name.1 hAt (by omega))
        hBytes
    simp only [Option.map_some, Option.all_some, hContained,
      Bool.and_true, Bool.and_eq_true, bne_iff_ne, ne_eq,
      hNonempty.1, not_false_eq_true, true_and]
    unfold textRange
    simp only [hApart, Bool.not_false]

/- One token keeps the classes valid and in order. -/
theorem heritageStep_own
    {delimiters : DelimiterStructure}
    (hDelimiters :
      delimiterStructure tokens = some delimiters)
    {state state' : HeritageState}
    (hOwn : HeritageOwn document tokens read state.classes)
    (hStep :
      heritageStep unicode document tokens delimiters
          (LineIndex.new document.text) state (token, read)
        = some state') :
    HeritageOwn document tokens (read + 1) state'.classes := by
  unfold heritageStep at hStep
  simp only at hStep
  split at hStep
  · cases hStep
    exact hOwn.later
  · split at hStep
    · cases hStep
      exact hOwn.later
    · rename_i header hHeader
      have hPlaced := classHeader_placed hHeader
      split at hStep
      · cases hStep
        exact hOwn.later
      · simp only [Option.bind_eq_bind] at hStep
        rcases Option.bind_eq_some_iff.mp hStep with
          ⟨stop, hStop, hStep⟩
        rcases Option.bind_eq_some_iff.mp hStep with
          ⟨first, hFirst, hStep⟩
        rcases Option.bind_eq_some_iff.mp hStep with
          ⟨last, hLast, hStep⟩
        cases hStep
        have hValid :=
          heritageClass_valid hTokens hBytes hPlaced
            (declarationStart_le tokens read)
            (lookup_closes hDelimiters hStop) hFirst hLast
        refine ⟨?_, ?_, ?_⟩
        · rw [List.all_append, hOwn.valid]
          simp only [List.all_cons, List.all_nil, hValid,
            Bool.and_true]
        · intro class_ hClass
          rcases List.mem_append.mp hClass with hOld | hNew
          · exact hOwn.later.named class_ hOld
          · rw [List.mem_singleton.mp hNew]
            exact
              ⟨read, header.name, Nat.lt_succ_self _,
                hPlaced.name.1, hPlaced.name.2, rfl⟩
        · refine
            List.pairwise_append.mpr
              ⟨hOwn.ordered, List.pairwise_singleton _ _, ?_⟩
          intro class_ hClass other hOther
          rw [List.mem_singleton.mp hOther]
          rcases hOwn.named class_ hClass with
            ⟨index, name, hIndex, hAt, hKind, hRange⟩
          have hNamePlaced :=
            hTokens.placed name (List.mem_of_getElem? hAt)
          have hNewPlaced :=
            hTokens.placed header.name
              (List.mem_of_getElem? hPlaced.name.1)
          have hApart :=
            hTokens.stop_le_start hAt hPlaced.name.1 (by omega)
          have hLt :=
            hNamePlaced.lt
              (by
                rw [hKind]
                decide)
          rw [hRange]
          exact
            position_before_of_lt hNamePlaced.start
              hNewPlaced.start (by omega) hBytes

end Places

variable {facts : DocumentClassHeritage}

/- The classes of a document that was parsed. -/
theorem parseScannedClassHeritage_own
    {scanned : Tokenization}
    (hTokens : TokensPlaced document.text 0 scanned.tokens)
    (hBytes : byteLengthOf document.text < 2 ^ 32)
    (hFacts :
      parseScannedClassHeritage unicode document scanned
          (LineIndex.new document.text)
        = some facts) :
    facts.uri = document.uri ∧
      HeritageOwn document scanned.tokens
        scanned.tokens.length facts.classes := by
  unfold parseScannedClassHeritage at hFacts
  simp only [Option.bind_eq_bind] at hFacts
  rcases Option.bind_eq_some_iff.mp hFacts with
    ⟨delimiters, hDelimiters, hFacts⟩
  rcases Option.bind_eq_some_iff.mp hFacts with
    ⟨state, hRun, hFacts⟩
  have hOwn :
      HeritageOwn document scanned.tokens
        scanned.tokens.length state.classes :=
    @zipIdx_invariant HeritageState Token _
      (fun read state =>
        HeritageOwn document scanned.tokens read state.classes) _
      (fun _ _ _ _ _ hOld hStep =>
        heritageStep_own hTokens hBytes hDelimiters hOld
          hStep) _ _
      ⟨rfl, fun _ hClass => absurd hClass List.not_mem_nil,
        List.Pairwise.nil⟩
      hRun
  cases hFacts
  exact ⟨rfl, hOwn⟩

theorem HeritageOwn.validateDocument
    (hUri : facts.uri = document.uri)
    (hOwn : HeritageOwn document tokens read facts.classes) :
    facts.validateDocument document.uri = Except.ok () := by
  unfold DocumentClassHeritage.validateDocument
  rw [if_pos ⟨hUri, hOwn.valid⟩]

----------
-- Binding Provenance
----------

/- Classes are told apart by the ranges of their names. -/
theorem HeritageOwn.nodup
    (hOwn : HeritageOwn document tokens read classes) :
    (classes.map (·.nameRange)).Nodup := by
  refine List.pairwise_map.mpr (hOwn.ordered.imp ?_)
  intro left right hBefore hSame
  rw [hSame, Position.before_irrefl] at hBefore
  cases hBefore

/- A selection of classes is found again by their names. -/
theorem filter_nameRange
    (hNodup : (classes.map (·.nameRange)).Nodup)
    (keep : ClassHeritageDeclaration → Bool) :
    (classes.filter fun class_ =>
        ((classes.filter keep).map (·.nameRange)).contains
          class_.nameRange).map (·.nameRange)
      = (classes.filter keep).map (·.nameRange) := by
  refine congrArg (List.map _) (List.filter_congr ?_)
  intro class_ hClass
  cases hKeep : keep class_ with
  | true =>
    rw [List.contains_iff_mem]
    exact
      List.mem_map.mpr
        ⟨class_, List.mem_filter.mpr ⟨hClass, hKeep⟩, rfl⟩
  | false =>
    rw [Bool.eq_false_iff]
    intro hFound
    rw [List.contains_iff_mem] at hFound
    rcases List.mem_map.mp hFound with
      ⟨other, hOther, hRange⟩
    rcases List.mem_filter.mp hOther with ⟨hMem, hKept⟩
    have hSame :=
      List.inj_on_of_nodup_map hNodup hMem hClass hRange
    rw [hSame, hKeep] at hKept
    cases hKept

theorem sourceProvenance_valid
    {scanned : Tokenization}
    {lines : LineIndex}
    {heritage : Option DocumentClassHeritage}
    (hOwn :
      ∀ facts,
        heritage = some facts →
          (facts.classes.map (·.nameRange)).Nodup) :
    (sourceProvenance unicode document heritage scanned
        lines).validateDocument heritage
      = Except.ok () := by
  unfold sourceProvenance ClassBindingProvenance.validateDocument
  cases heritage with
  | none => rfl
  | some facts =>
    simp only [Option.any_some]
    by_cases hSupported :
        (facts.lexicallyComplete &&
          moduleBindingsSupported unicode document scanned) = true
    · have hNodup := hOwn facts rfl
      have hBoth := Bool.and_eq_true_iff.mp hSupported
      have hKept :
          ((facts.classes.filter fun class_ =>
              (directNamedExportPositions scanned
                lines).contains
                class_.declarationRange.start).map
            (·.nameRange)).Nodup :=
        hNodup.sublist (List.filter_sublist.map _)
      simp only [hBoth.1, hBoth.2, Bool.and_self, if_true,
        filter_nameRange hNodup, hKept.dedup, decide_true]
    · simp only [hSupported, Bool.false_eq_true, if_false,
        List.isEmpty_nil, if_true]

----------
-- Documents
----------

theorem referenceAliases_own
    (document : Document)
    (tokens : List Token) :
    ∀ item ∈ referenceAliases document tokens,
      item.uri = document.uri := by
  induction tokens with
  | nil =>
    intro item hItem
    cases hItem
  | cons first rest ih =>
    match rest with
    | [] =>
      intro item hItem
      cases hItem
    | [second] =>
      intro item hItem
      cases hItem
    | second :: third :: rest =>
      intro item hItem
      unfold referenceAliases at hItem
      simp only at hItem
      split at hItem
      · rcases List.mem_cons.mp hItem with hNew | hOld
        · rw [hNew]
        · exact ih item hOld
      · exact ih item hItem

theorem namedSourceBindings_own
    (document : Document)
    (kind : ReferenceBindingKind)
    (tokens : List Token) :
    ∀ item ∈ namedSourceBindings document kind tokens,
      item.uri = document.uri := by
  intro item hItem
  unfold namedSourceBindings at hItem
  split at hItem
  · cases hItem
  · split at hItem
    · cases hItem
    · simp only at hItem
      split at hItem
      · cases hItem
      · split at hItem
        · cases hItem
        · rcases List.mem_map.mp hItem with ⟨names, _, rfl⟩
          rfl

theorem importSourceBindings_own
    (document : Document)
    (tokens : List Token) :
    ∀ item ∈ importSourceBindings document tokens,
      item.uri = document.uri := by
  intro item hItem
  unfold importSourceBindings at hItem
  simp only at hItem
  split at hItem
  · exact namedSourceBindings_own _ _ _ item hItem
  · split at hItem
    · split at hItem
      · split at hItem
        · rw [List.mem_singleton.mp hItem]
          rfl
        · cases hItem
      · cases hItem
    · cases hItem

theorem referenceBindingsFrom_own
    (document : Document)
    (braceDepth : Nat)
    (tokens : List Token) :
    ∀ item ∈ referenceBindingsFrom document braceDepth tokens,
      item.uri = document.uri := by
  induction tokens generalizing braceDepth with
  | nil =>
    intro item hItem
    cases hItem
  | cons token rest ih =>
    intro item hItem
    unfold referenceBindingsFrom at hItem
    split at hItem
    · exact ih _ item hItem
    · split at hItem
      · exact ih _ item hItem
      · split at hItem
        · exact ih _ item hItem
        · split at hItem
          · rcases List.mem_append.mp hItem with hNew | hOld
            · exact importSourceBindings_own _ _ item hNew
            · exact ih _ item hOld
          · split at hItem
            · rcases List.mem_append.mp hItem with
                hNew | hOld
              · exact namedSourceBindings_own _ _ _ item hNew
              · exact ih _ item hOld
            · exact ih _ item hItem

/- Every document that the parser accepts passes the check. -/
theorem parseDocumentSymbols_valid
    {symbols : DocumentSymbols}
    (hBytes : byteLengthOf document.text < 2 ^ 32)
    (hParsed :
      parseDocumentSymbols unicode document = some symbols) :
    ensureSymbolUris symbols = Except.ok () ∧
      (symbols.exports.map (·.ordinal)).Nodup := by
  unfold parseDocumentSymbols at hParsed
  simp only [Option.bind_eq_bind] at hParsed
  rcases Option.bind_eq_some_iff.mp hParsed with
    ⟨scanned, hScan, hParsed⟩
  rcases Option.bind_eq_some_iff.mp hParsed with
    ⟨⟨items, exports⟩, hSymbols, hParsed⟩
  have hTokens := tokenizeWithStatus_placed hScan
  rcases parseSymbols_own hSymbols with
    ⟨hItems, hExports, hOrdinals⟩
  cases hParsed
  refine ⟨ensureSymbolUris_eq_ok.mpr ⟨?_, ?_, ?_⟩, hOrdinals⟩
  · intro facts hFacts
    rcases
        parseScannedClassHeritage_own hTokens hBytes hFacts with
      ⟨hUri, hOwn⟩
    exact hOwn.validateDocument hUri
  · intro provenance hProvenance
    cases hProvenance
    refine sourceProvenance_valid ?_
    intro facts hFacts
    exact
      (parseScannedClassHeritage_own hTokens hBytes
        hFacts).2.nodup
  · have hAll :
        ∀ {Item : Type} (items : List Item)
          (uriOf : Item → String),
          (∀ item ∈ items, uriOf item = document.uri) →
          items.all (fun item => uriOf item == document.uri)
            = true := by
      intro Item items uriOf hUris
      refine List.all_eq_true.mpr fun item hItem => ?_
      exact beq_iff_eq.mpr (hUris item hItem)
    unfold symbolUrisMatch
    simp only [hAll _ _ hItems, hAll _ _ hExports,
      hAll _ _ (referenceAliases_own document scanned.tokens),
      hAll _ _
        (referenceBindingsFrom_own document 0 scanned.tokens),
      referenceBindings, Bool.true_and, Bool.and_true]
    refine hAll _ ReferenceOccurrence.uri ?_
    intro item hItem
    rcases List.mem_map.mp hItem with ⟨entry, _, rfl⟩
    rfl

end Heritage

end ArktsServer
