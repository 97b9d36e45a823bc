import ArktsServer.Core.Tokenizer

/-
  Symbol and export queries and the ranking of symbol names:
  an exact match, a prefix, an acronym prefix, and for longer
  queries a substring.

  Key definitions include:
    * `SymbolQuery`, `ExportQuery`
    * `foldForSearch`, `acronymForSearch`
    * `symbolMatchRank`
    * `rankSymbols`
-/

----------
-- Queries and Results
----------

namespace ArktsServer

structure SymbolQuery where
  folded : String
  limit : Nat
  excludedUris : List String

structure ExportQuery where
  folded : String
  limit : Nat

structure SymbolSearchResult where
  items : List WorkspaceSymbol
  servedGeneration : Nat
deriving DecidableEq

structure ExportSearchResult where
  items : List WorkspaceExport
  servedGeneration : Nat
deriving DecidableEq

structure StoreMetadata where
  committedGeneration : Nat
  rejectedDocuments : List String
deriving DecidableEq

section Ranking

variable (unicode : Unicode)

def foldForSearch (value : String) : String :=
  unicode.toLowercase value

/- The first character and every upper-case one. -/
def acronymForSearch (name : String) : String :=
  let kept :=
    match name.toList with
    | [] => []
    | first :: rest => first :: rest.filter unicode.isUppercase
  unicode.toLowercase (String.ofList kept)

def SymbolQuery.new (query : String) (limit : Nat) :
    SymbolQuery :=
  ⟨unicode.toLowercase query, limit, []⟩

def SymbolQuery.excludingUris
    (query : SymbolQuery)
    (uris : List String) : SymbolQuery :=
  { query with excludedUris := query.excludedUris ++ uris }

def ExportQuery.new (query : String) (limit : Nat) :
    ExportQuery :=
  ⟨foldForSearch unicode query, limit⟩

----------
-- Ranks
----------

/- How well a name matches a folded query. -/
def symbolMatchRank (name query : String) : Option Nat :=
  let lowercaseName := foldForSearch unicode name
  if query = "" then
    none
  else if lowercaseName = query then
    some 0
  else if startsWith lowercaseName query then
    some 1
  else if startsWith (acronymForSearch unicode name) query then
    some 2
  else if 2 < query.toList.length ∧
      (findPattern query.toList
        lowercaseName.toList).isSome then
    some 3
  else
    none

/- The key that a ranked symbol is sorted by. -/
def symbolSortKey (entry : Nat × WorkspaceSymbol) :
    Nat ×ₗ String ×ₗ String ×ₗ Nat ×ₗ Nat :=
  toLex (entry.1,
    toLex (foldForSearch unicode entry.2.name,
      toLex (entry.2.uri,
        toLex (entry.2.range.start.line,
          entry.2.range.start.character))))

/- The rank of a symbol that a query does not exclude. -/
def rankedSymbol
    (query : SymbolQuery)
    (symbol : WorkspaceSymbol) :
    Option (Nat × WorkspaceSymbol) :=
  if query.excludedUris.contains symbol.uri then
    none
  else
    (symbolMatchRank unicode symbol.name query.folded).map
      fun rank => (rank, symbol)

/- The best matches, at most as many as the limit. -/
def rankSymbols
    (query : SymbolQuery)
    (symbols : List WorkspaceSymbol) :
    List WorkspaceSymbol :=
  let matching :=
    symbols.filterMap (rankedSymbol unicode query)
  let sorted :=
    matching.insertionSort fun left right =>
      symbolSortKey unicode left ≤ symbolSortKey unicode right
  (sorted.take query.limit).map (·.2)

end Ranking

end ArktsServer
