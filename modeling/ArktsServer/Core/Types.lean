import Mathlib.Data.String.Basic
import ArktsServer.Lib.OrderedSet

/-
  The data model of the headless workspace index: documents,
  the symbols, exports, occurrences, aliases and bindings
  that one document contributes, and the batches, queries
  and results of a symbol store.

  Rust `String` values are `String`, whose order is the
  order of code points and therefore the byte order of
  UTF-8.  `u32`, `u64` and `usize` values are natural
  numbers; where the source truncates, the model does too.

  Key definitions include:
    * `Position`, `TextRange`
    * `WorkspaceSymbol`, `WorkspaceExport`
    * `ReferenceOccurrence`, `ReferenceOccurrenceIdentity`
    * `ReferenceBinding`
    * `DocumentSymbols`
    * `StoreError`
    * `RefreshBatch`, `FullCatalogBatch`
    * `ReferenceCandidateSearchResult`
-/

----------
-- Positions
----------

namespace ArktsServer

/- A document as the index receives it. -/
structure Document where
  uri : String
  text : List Char
deriving DecidableEq

/- A zero-based line and UTF-16 column. -/
structure Position where
  line : Nat
  character : Nat
deriving DecidableEq

namespace Position

/- The derived lexicographic order of `Position`. -/
def before (left right : Position) : Bool :=
  decide
    (left.line < right.line ∨
      left.line = right.line ∧
        left.character < right.character)

end Position

structure TextRange where
  start : Position
  stop : Position
deriving DecidableEq

----------
-- Document Facts
----------

inductive SymbolKind where
| class_
| struct
| enum
| interface
| typeAlias
| function
| method
| variable
| namespace_
deriving DecidableEq

structure WorkspaceSymbol where
  name : String
  kind : SymbolKind
  uri : String
  range : TextRange
  container : Option String
deriving DecidableEq

structure WorkspaceExport where
  exportedName : String
  referenceExportName : Option String
  kind : SymbolKind
  uri : String
  range : TextRange
  ordinal : Nat
  declarationIdentity : Option String
  importSpecifier : Option String
  moduleId : Option String
  targetScope : Option String
  referenceSearchable : Bool
deriving DecidableEq

structure ReferenceOccurrence where
  name : String
  uri : String
  range : TextRange
  qualified : Option Bool
  qualifier : Option String
deriving DecidableEq

structure ReferenceOccurrenceIdentity where
  name : String
  uri : String
  qualified : Option Bool
  qualifier : Option String
deriving DecidableEq

structure ReferenceAlias where
  fromName : String
  toName : String
  uri : String
deriving DecidableEq

inductive ReferenceBindingKind where
| import_
| reExport
deriving DecidableEq

inductive ReferenceBindingResolution where
| unique
| external
| unresolved
| ambiguous
| unsupported
deriving DecidableEq

structure ReferenceBinding where
  importedName : String
  localName : String
  sourceSpecifier : String
  kind : ReferenceBindingKind
  uri : String
  sourceResolution : ReferenceBindingResolution
  resolvedSourceUri : Option String
  externalTerminalIdentity : Option String
deriving DecidableEq

----------
-- Class Heritage
----------

structure ClassHeritageBase where
  name : String
  range : TextRange
deriving DecidableEq

structure ClassHeritageDeclaration where
  name : String
  nameRange : TextRange
  declarationRange : TextRange
  base : Option ClassHeritageBase
deriving DecidableEq

structure DocumentClassHeritage where
  uri : String
  classes : List ClassHeritageDeclaration
  lexicallyComplete : Bool
deriving DecidableEq

structure ClassBindingProvenance where
  sourceSupported : Bool
  directExports : List TextRange
deriving DecidableEq

/- Everything one accepted document contributes. -/
structure DocumentSymbols where
  uri : String
  symbols : List WorkspaceSymbol
  exports : List WorkspaceExport
  occurrences : List ReferenceOccurrence
  aliases : List ReferenceAlias
  bindings : List ReferenceBinding
  classHeritage : Option DocumentClassHeritage
  classBindingProvenance : Option ClassBindingProvenance
deriving DecidableEq

----------
-- Store Messages
----------

inductive StoreErrorKind where
| busy
| corrupt
| incompatible
| workspaceMismatch
| invalidData
| invalidGeneration
| io
| internal
deriving DecidableEq

structure StoreError where
  kind : StoreErrorKind
  message : String
deriving DecidableEq

inductive IndexState where
| warming
| ready
| degraded
deriving DecidableEq

structure RefreshBatch where
  generation : Nat
  replacements : List DocumentSymbols
  removedUris : List String
  rejectedUris : List String
deriving DecidableEq

structure FullCatalogBatch where
  generation : Nat
  documents : List DocumentSymbols
  rejectedUris : List String
deriving DecidableEq

structure CommitReceipt where
  committedGeneration : Nat
  rejectedDocuments : List String
deriving DecidableEq

structure ReferenceCandidateQuery where
  declarationUri : String
  declarationPosition : Position
  limit : Nat
deriving DecidableEq

structure ReferenceSourceResolution where
  bindingUri : String
  sourceSpecifier : String
  resolvedSourceUri : Option String
  externalTerminalIdentity : Option String
deriving DecidableEq

structure ReferenceCandidateSearchResult where
  supported : Bool
  complete : Bool
  identityComplete : Bool
  identityUris : List String
  narrowedUris : List String
  declarationUri : Option String
  declarationIdentity : Option String
  names : List String
  uris : List String
  bindings : List ReferenceBinding
  servedGeneration : Nat
deriving DecidableEq

/- The answer for a position that denotes no declaration. -/
def unsupportedReferenceCandidates
    (generation : Nat) :
    ReferenceCandidateSearchResult where
  supported := false
  complete := false
  identityComplete := false
  identityUris := []
  narrowedUris := []
  declarationUri := none
  declarationIdentity := none
  names := []
  uris := []
  bindings := []
  servedGeneration := generation

end ArktsServer
