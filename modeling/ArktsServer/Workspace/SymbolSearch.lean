import ArktsServer.Core.SymbolRanking
import ArktsServer.Lib.TopItems
import Mathlib.Data.List.MinMax

/-
  `DefaultWorkspaceSymbolService.searchSymbols`: every index
  answers with its best symbols outside of the open
  documents, the open documents answer with all of theirs,
  and the client ranks and cuts off what it got.

  Key definitions include:
    * `ClientText`, `matchRank`
    * `rankAndLimit`
    * `searchSymbols`
    * `Offer`, `arrivals`, `acceptedSymbols`, `clientKey`
    * `RankAgrees`, `OpeningAgrees`

  Correctness is proven by:
    * `matchRank_agrees_iff`
    * `searchSymbols_eq_top`
    * `opening_agrees_iff`
-/

namespace ArktsServer

namespace Workspace

open TopItems

----------
-- Ranks of the Client
----------

/-
  What the client's runtime knows about text beyond the case
  folding of the store: upper-case letters, and the keys
  that `localeCompare` compares.
-/
structure ClientText (Collation : Type) where
  toUppercase : String → String
  collationKey : String → Collation

section Ranks

variable (unicode : Unicode)
variable {Collation : Type} (text : ClientText Collation)

/- The character is its own upper case, not its lower one. -/
def isCapital (char : Char) : Bool :=
  decide (text.toUppercase (String.singleton char)
      = String.singleton char) &&
    decide (unicode.toLowercase (String.singleton char)
      ≠ String.singleton char)

def acronym (name : String) : String :=
  let kept :=
    match name.toList with
    | [] => []
    | first :: rest =>
        first :: rest.filter (isCapital unicode text)
  unicode.toLowercase (String.ofList kept)

/- `String.prototype.includes`. -/
def includes (value query : String) : Bool :=
  (findPattern query.toList value.toList).isSome

def matchRank (name query : String) : Option Nat :=
  let foldedName := unicode.toLowercase name
  if foldedName = query then
    some 0
  else if startsWith foldedName query then
    some 1
  else if startsWith (acronym unicode text name) query then
    some 2
  else if includes foldedName query then
    some 3
  else
    none

/-
  The query is not empty, and a name that does not start
  with it has two acronyms that both start with it or both
  do not; if they do not, the name contains the query only
  if that has more than two characters.
-/
def RankAgrees (name query : String) : Prop :=
  query ≠ "" ∧
    (startsWith (unicode.toLowercase name) query = true ∨
      startsWith (acronym unicode text name) query
          = startsWith (acronymForSearch unicode name) query
        ∧ (includes (unicode.toLowercase name) query = true →
          startsWith (acronym unicode text name) query = true
            ∨ 2 < query.toList.length))

/- The ranks agree on a name exactly under that condition. -/
theorem matchRank_agrees_iff
    (name query : String) :
    matchRank unicode text name query =
        symbolMatchRank unicode name query ↔
      RankAgrees unicode text name query := by
  have hSelf :
      unicode.toLowercase name = query →
      startsWith (unicode.toLowercase name) query = true := by
    rintro rfl
    exact List.isPrefixOf_iff_prefix.mpr List.prefix_rfl
  have hIncludes :
      includes (unicode.toLowercase name) query =
        (findPattern query.toList
          (unicode.toLowercase name).toList).isSome := rfl
  unfold matchRank symbolMatchRank RankAgrees foldForSearch
  dsimp only
  rw [← hIncludes]
  generalize hStart :
    startsWith (unicode.toLowercase name) query = start
    at hSelf ⊢
  generalize startsWith (acronym unicode text name) query = client
  generalize startsWith (acronymForSearch unicode name) query
    = store
  generalize includes (unicode.toLowercase name) query = within
  by_cases hEmpty : query = ""
  · -- The client ranks every name for the empty query.
    have hAll : start = true := by
      rw [← hStart, hEmpty]
      rfl
    rw [hAll]
    simp only [hEmpty, if_true, ne_eq, not_true_eq_false,
      false_and, iff_false]
    split <;> simp
  · by_cases hExact : unicode.toLowercase name = query
    · have hAll := hSelf hExact
      simp [hEmpty, hExact, hAll]
    · simp only [hEmpty, hExact, if_false]
      cases start <;> cases client <;> cases store <;>
        cases within <;> simp [hEmpty]

end Ranks

----------
-- Ranking
----------

abbrev RankedSymbol := Nat × WorkspaceSymbol

/- What the client recognizes a symbol by. -/
abbrev SymbolIdentity :=
  String × String × SymbolKind × Nat × Nat

def symbolIdentity (symbol : WorkspaceSymbol) :
    SymbolIdentity :=
  (symbol.uri, symbol.name, symbol.kind,
    symbol.range.start.line, symbol.range.start.character)

/- `unique.set`: a new entry goes last, an old one stays. -/
def setUnique
    (unique : List RankedSymbol)
    (entry : RankedSymbol) : List RankedSymbol :=
  match unique.find? fun other =>
    symbolIdentity other.2 = symbolIdentity entry.2 with
  | none => unique ++ [entry]
  | some existing =>
      if entry.1 < existing.1 then
        unique.map fun other =>
          if symbolIdentity other.2 = symbolIdentity entry.2
          then entry
          else other
      else
        unique

section Ranking

variable (unicode : Unicode)
variable {Collation : Type}
variable (text : ClientText Collation)

variable (foldedQuery : String)

/- The rank of a symbol that matches the query. -/
def rankedByClient
    (symbol : WorkspaceSymbol) : Option RankedSymbol :=
  (matchRank unicode text symbol.name foldedQuery).map
    fun rank => (rank, symbol)

/- The symbols that match, each of them once. -/
def rankUnique
    (symbols : List WorkspaceSymbol) : List RankedSymbol :=
  symbols.foldl
    (fun unique symbol =>
      match rankedByClient unicode text foldedQuery symbol with
      | none => unique
      | some entry => setUnique unique entry)
    []

----------
-- Unique Symbols
----------

theorem mem_setUnique
    {unique : List RankedSymbol}
    {entry other : RankedSymbol}
    (hMem : other ∈ setUnique unique entry) :
    other ∈ unique ∨ other = entry := by
  unfold setUnique at hMem
  split at hMem
  · rcases List.mem_append.mp hMem with hOld | hNew
    · exact Or.inl hOld
    · exact Or.inr (List.mem_singleton.mp hNew)
  · split at hMem
    · rcases List.mem_map.mp hMem with ⟨another, hOld, hEq⟩
      split at hEq
      · exact Or.inr hEq.symm
      · rw [← hEq]
        exact Or.inl hOld
    · exact Or.inl hMem

theorem rankUnique_append
    (symbols : List WorkspaceSymbol)
    (symbol : WorkspaceSymbol) :
    rankUnique unicode text foldedQuery (symbols ++ [symbol]) =
      match rankedByClient unicode text foldedQuery symbol with
      | none => rankUnique unicode text foldedQuery symbols
      | some entry =>
          setUnique
            (rankUnique unicode text foldedQuery symbols)
            entry := by
  unfold rankUnique
  rw [List.foldl_append, List.foldl_cons, List.foldl_nil]

variable {symbols : List WorkspaceSymbol}

/- Every entry is a symbol with its rank. -/
theorem mem_rankUnique
    {entry : RankedSymbol}
    (hMem :
      entry ∈ rankUnique unicode text foldedQuery symbols) :
    entry.2 ∈ symbols ∧
      rankedByClient unicode text foldedQuery entry.2
        = some entry := by
  induction symbols using List.reverseRecOn with
  | nil => cases hMem
  | append_singleton symbols symbol ih =>
    rw [rankUnique_append] at hMem
    have hOld :
        entry ∈ rankUnique unicode text foldedQuery symbols →
          entry.2 ∈ symbols ++ [symbol] ∧
            rankedByClient unicode text foldedQuery entry.2
              = some entry :=
      fun hIn =>
        ⟨List.mem_append_left _ (ih hIn).1, (ih hIn).2⟩
    cases hRank :
        rankedByClient unicode text foldedQuery symbol with
    | none =>
      rw [hRank] at hMem
      exact hOld hMem
    | some ranked =>
      rw [hRank] at hMem
      rcases mem_setUnique hMem with hIn | rfl
      · exact hOld hIn
      · rcases Option.map_eq_some_iff.mp hRank with
          ⟨rank, _, rfl⟩
        exact ⟨List.mem_append_right _ (by simp), hRank⟩

/- The rank goes by the name, so what came first stays. -/
theorem setUnique_rankUnique
    {symbol : WorkspaceSymbol}
    {entry : RankedSymbol}
    (hRank :
      rankedByClient unicode text foldedQuery symbol
        = some entry) :
    setUnique (rankUnique unicode text foldedQuery symbols)
        entry =
      if ∃ other
          ∈ rankUnique unicode text foldedQuery symbols,
          symbolIdentity other.2 = symbolIdentity symbol
      then rankUnique unicode text foldedQuery symbols
      else
        rankUnique unicode text foldedQuery symbols
          ++ [entry] := by
  rcases Option.map_eq_some_iff.mp hRank with
    ⟨rank, hName, rfl⟩
  unfold setUnique
  cases hFind :
      (rankUnique unicode text foldedQuery symbols).find?
        fun other =>
          symbolIdentity other.2 = symbolIdentity symbol with
  | none =>
    have hNone := List.find?_eq_none.mp hFind
    rw [if_neg]
    rintro ⟨other, hOther, hSame⟩
    exact hNone other hOther (decide_eq_true hSame)
  | some existing =>
    have hMem := List.mem_of_find?_eq_some hFind
    have hSame :
        symbolIdentity existing.2 = symbolIdentity symbol := by
      simpa using List.find?_some hFind
    rw [if_pos ⟨existing, hMem, hSame⟩]
    have hOwn := (mem_rankUnique unicode text _ hMem).2
    have hSameName : existing.2.name = symbol.name :=
      congrArg (fun identity => identity.2.1) hSame
    unfold rankedByClient at hOwn
    rw [hSameName, hName, Option.map_some,
      Option.some.injEq] at hOwn
    have hSameRank : existing.1 = rank :=
      (congrArg Prod.fst hOwn).symm
    exact if_neg (by rw [hSameRank]; exact Nat.lt_irrefl rank)

/- An accepted symbol has an entry of its identity. -/
theorem exists_rankUnique
    {symbol : WorkspaceSymbol}
    (hMem : symbol ∈ symbols)
    (hAccepted :
      (matchRank unicode text symbol.name
        foldedQuery).isSome) :
    ∃ entry ∈ rankUnique unicode text foldedQuery symbols,
      symbolIdentity entry.2 = symbolIdentity symbol := by
  induction symbols using List.reverseRecOn with
  | nil => cases hMem
  | append_singleton symbols last ih =>
    rw [rankUnique_append]
    have hLast :
        symbol = last →
          ∃ entry,
            rankedByClient unicode text foldedQuery last
                = some entry ∧
              symbolIdentity entry.2 = symbolIdentity symbol := by
      rintro rfl
      rcases Option.isSome_iff_exists.mp hAccepted with
        ⟨rank, hRank⟩
      refine ⟨(rank, symbol), ?_, rfl⟩
      unfold rankedByClient
      rw [hRank]
      rfl
    cases hRank :
        rankedByClient unicode text foldedQuery last with
    | none =>
      rcases List.mem_append.mp hMem with hOld | hNew
      · exact ih hOld
      · rcases hLast (List.mem_singleton.mp hNew) with
          ⟨entry, hSome, _⟩
        rw [hRank] at hSome
        cases hSome
    | some ranked =>
      have hStays :
          ∀ entry
              ∈ rankUnique unicode text foldedQuery symbols,
            entry ∈ setUnique
              (rankUnique unicode text foldedQuery symbols)
              ranked := by
        intro entry hEntry
        rw [setUnique_rankUnique unicode text _ hRank]
        split
        · exact hEntry
        · exact List.mem_append_left _ hEntry
      rcases List.mem_append.mp hMem with hOld | hNew
      · rcases ih hOld with ⟨entry, hEntry, hSame⟩
        exact ⟨entry, hStays entry hEntry, hSame⟩
      · rcases hLast (List.mem_singleton.mp hNew) with
          ⟨entry, hSome, hSame⟩
        rw [hRank] at hSome
        cases hSome
        show ∃ entry ∈ setUnique _ ranked, _
        rw [setUnique_rankUnique unicode text _ hRank]
        rw [List.mem_singleton.mp hNew] at hSame ⊢
        split
        · rename_i hExists
          exact hExists
        · exact
            ⟨ranked, List.mem_append_right _ (by simp), hSame⟩

/- What is accepted is known if its identity was offered. -/
theorem rankUnique_knows_iff
    {symbol : WorkspaceSymbol}
    (hAccepted :
      (matchRank unicode text symbol.name
        foldedQuery).isSome) :
    (∃ entry ∈ rankUnique unicode text foldedQuery symbols,
        symbolIdentity entry.2 = symbolIdentity symbol) ↔
      ∃ other ∈ symbols,
        symbolIdentity other = symbolIdentity symbol := by
  constructor
  · rintro ⟨entry, hEntry, hSame⟩
    have hIn := (mem_rankUnique unicode text _ hEntry).1
    exact ⟨entry.2, hIn, hSame⟩
  · rintro ⟨other, hOther, hSame⟩
    have hName : other.name = symbol.name :=
      congrArg (fun identity => identity.2.1) hSame
    rw [← hName] at hAccepted
    rcases
      exists_rankUnique unicode text _ hOther hAccepted with
      ⟨entry, hEntry, hIs⟩
    exact ⟨entry, hEntry, hIs.trans hSame⟩

----------
-- Results
----------

/- What the comparison of the client goes by. -/
def rankedKey (entry : RankedSymbol) :
    Nat ×ₗ Collation ×ₗ Collation ×ₗ Nat ×ₗ Nat :=
  toLex (entry.1,
    toLex
      (text.collationKey (unicode.toLowercase entry.2.name),
        toLex (text.collationKey entry.2.uri,
          toLex (entry.2.range.start.line,
            entry.2.range.start.character))))

variable [LinearOrder Collation]

def rankAndLimit
    (query : String)
    (symbols : List WorkspaceSymbol)
    (limit : Nat) : List WorkspaceSymbol :=
  (top (rankedKey unicode text) limit
    (rankUnique unicode text (unicode.toLowercase query)
      symbols)).map (·.2)

----------
-- Searching
----------

/- An open document and the symbols that it lists. -/
structure OpenDocument where
  uri : String
  symbols : List WorkspaceSymbol

/-
  An index: its symbols, and how the URIs of the editor and
  of the index translate into each other.
-/
structure SymbolIndex where
  symbols : List WorkspaceSymbol
  toWorkspaceUri : String → Option String
  toClientUri : String → String

/- `index.searchSymbols`, without the open documents. -/
def SymbolIndex.searchSymbols
    (index : SymbolIndex)
    (query : String)
    (limit : Nat)
    (excludedUris : List String) : List WorkspaceSymbol :=
  (rankSymbols unicode
    ((SymbolQuery.new unicode query limit).excludingUris
      (excludedUris.filterMap index.toWorkspaceUri))
    index.symbols).map fun symbol =>
      { symbol with uri := index.toClientUri symbol.uri }

variable (indexes : List SymbolIndex)

variable (documents : List OpenDocument)

def candidates
    (query : String)
    (limit : Nat) : List WorkspaceSymbol :=
  let openUris := documents.map (·.uri)
  (indexes.flatMap fun index =>
      index.searchSymbols unicode query limit openUris).filter
        (fun symbol => decide (symbol.uri ∉ openUris))
    ++ documents.flatMap (·.symbols)

def searchSymbols
    (query : String)
    (limit : Nat) : List WorkspaceSymbol :=
  rankAndLimit unicode text query
    (candidates unicode indexes documents query limit) limit

----------
-- Arrivals
----------

abbrev StoreKey :=
  Nat ×ₗ String ×ₗ String ×ₗ Nat ×ₗ Nat

/-
  A symbol that a source has for the client: the number of
  the index or open document, the key that the index sorts
  by, the place in the source, and the symbol as the client
  sees it.
-/
structure Offer where
  source : Nat
  key : StoreKey
  place : Nat
  symbol : WorkspaceSymbol

def Offer.arrival
    (offer : Offer) : Nat ×ₗ StoreKey ×ₗ Nat :=
  toLex (offer.source, toLex (offer.key, offer.place))

/- The offer of a match at its place. -/
def SymbolIndex.offer
    (index : SymbolIndex)
    (source : Nat)
    (matching : RankedSymbol × Nat) : Offer where
  source := source
  key := symbolSortKey unicode matching.1
  place := matching.2
  symbol :=
    { matching.1.2 with
      uri := index.toClientUri matching.1.2.uri }

/- The matches of an index outside of the open documents. -/
def SymbolIndex.offers
    (index : SymbolIndex)
    (query : String)
    (limit : Nat)
    (openUris : List String)
    (source : Nat) : List Offer :=
  let stored :=
    (SymbolQuery.new unicode query limit).excludingUris
      (openUris.filterMap index.toWorkspaceUri)
  (index.symbols.filterMap
      (rankedSymbol unicode stored)).zipIdx.map
    (index.offer unicode source)

/-
  An index lists a match that fewer matches than the limit
  come before, and the client drops it if its file is open.
-/
def SymbolIndex.arrivals
    (query : String)
    (limit : Nat)
    (openUris : List String)
    (index : SymbolIndex)
    (source : Nat) : List Offer :=
  let offers :=
    index.offers unicode query limit openUris source
  (offers.filter fun offer =>
    decide
      (offers.countP (fun other =>
        other.arrival < offer.arrival) < limit)).filter
    fun offer => decide (offer.symbol.uri ∉ openUris)

/- An open document lists all of its symbols. -/
def OpenDocument.arrivals
    (document : OpenDocument)
    (source : Nat) : List Offer :=
  document.symbols.zipIdx.map fun (symbol, place) =>
    { source := source
      key := toLex (0, toLex ("", toLex ("", toLex (0, 0))))
      place := place
      symbol := symbol }

def arrivals
    (query : String)
    (limit : Nat) : List Offer :=
  let openUris := documents.map (·.uri)
  (indexes.map
        (SymbolIndex.arrivals unicode query limit openUris)
      ++ documents.map OpenDocument.arrivals).zipIdx.flatMap
    fun (arrivalsOf, source) => arrivalsOf source

/- When a symbol first arrives; `⊤` if it never does. -/
def firstArrival
    (query : String)
    (limit : Nat)
    (symbol : WorkspaceSymbol) :
    WithTop (Nat ×ₗ StoreKey ×ₗ Nat) :=
  (((arrivals unicode indexes documents query
      limit).filter fun offer =>
        symbolIdentity offer.symbol
          = symbolIdentity symbol).map
    Offer.arrival).minimum

/- No offer of the same symbol arrives earlier. -/
def First
    (offers : List Offer)
    (offer : Offer) : Prop :=
  ∀ other ∈ offers,
    symbolIdentity other.symbol = symbolIdentity offer.symbol →
      offer.arrival ≤ other.arrival

instance
    (offers : List Offer)
    (offer : Offer) :
    Decidable (First offers offer) :=
  List.decidableBAll _ offers

/-
  The symbols that arrive and that the client accepts, each
  of them from where it arrives first.
-/
def acceptedSymbols
    (query : String)
    (limit : Nat) : List WorkspaceSymbol :=
  let offers :=
    arrivals unicode indexes documents query limit
  (offers.filter fun offer =>
    (matchRank unicode text offer.symbol.name
        (unicode.toLowercase query)).isSome &&
      decide (First offers offer)).map (·.symbol)

/- The order of the client, where ties go by arrival. -/
def clientKey
    (query : String)
    (limit : Nat) :
    WorkspaceSymbol →
      (Nat ×ₗ Collation ×ₗ Collation ×ₗ Nat ×ₗ Nat) ×ₗ
        WithTop (Nat ×ₗ StoreKey ×ₗ Nat) :=
  arrivalKey
    (fun symbol =>
      rankedKey unicode text
        ((matchRank unicode text symbol.name
          (unicode.toLowercase query)).getD 0, symbol))
    (firstArrival unicode indexes documents query limit)

/-
  A symbol that arrives only with the document closed or
  only with it open has at least as many accepted symbols
  before it as the limit allows, and the first symbols that
  arrive in both cases stand in the same order.
-/
def OpeningAgrees
    (others : List OpenDocument)
    (opened : List OpenDocument)
    (query : String)
    (limit : Nat) : Prop :=
  SameTop
    (clientKey unicode text indexes others query limit)
    (clientKey unicode text indexes opened query limit)
    limit
    (acceptedSymbols unicode text indexes others query limit)
    (acceptedSymbols unicode text indexes opened query limit)

----------
-- Opening a Document
----------

theorem zipIdx_places
    {α : Type}
    (items : List α) :
    items.zipIdx.Pairwise fun left right =>
      left.2 < right.2 := by
  refine List.pairwise_map.mp ?_
  rw [List.zipIdx_map_snd]
  exact List.pairwise_lt_range'

theorem arrival_le_iff
    {left right : Offer}
    (hSource : left.source = right.source) :
    left.arrival ≤ right.arrival ↔
      toLex (left.key, left.place)
        ≤ toLex (right.key, right.place) := by
  unfold Offer.arrival
  rw [Prod.Lex.toLex_le_toLex]
  simp only [hSource, lt_irrefl, true_and, false_or]

/- An index lists its first matches in their order. -/
theorem searchSymbols_offers
    (index : SymbolIndex)
    (query : String)
    (limit : Nat)
    (openUris : List String)
    (source : Nat) :
    Distinct Offer.arrival
        (index.offers unicode query limit openUris source) ∧
      index.searchSymbols unicode query limit openUris =
        (top Offer.arrival limit
          (index.offers unicode query limit openUris
            source)).map (·.symbol) := by
  unfold SymbolIndex.offers SymbolIndex.searchSymbols
  unfold rankSymbols
  dsimp only
  generalize
    index.symbols.filterMap (rankedSymbol unicode _) = entries
  have hPlaces := zipIdx_places entries
  have hEntries :
      (sortBy
          (fun matching : RankedSymbol × Nat =>
            symbolSortKey unicode matching.1)
          entries.zipIdx).map Prod.fst
        = sortBy (symbolSortKey unicode) entries := by
    rw [← sortBy_map, List.zipIdx_map_fst]
  have hOffers :
      (sortBy
          (arrivalKey
            (fun matching : RankedSymbol × Nat =>
              symbolSortKey unicode matching.1)
            Prod.snd)
          entries.zipIdx).map (index.offer unicode source)
        = sortBy Offer.arrival
          (entries.zipIdx.map (index.offer unicode source)) := by
    refine map_sortBy ?_
    intro left _ right _
    exact
      (@arrival_le_iff (index.offer unicode source left)
        (index.offer unicode source right) rfl).symm
  constructor
  · unfold Distinct
    rw [List.map_map]
    refine List.pairwise_map.mpr (hPlaces.imp ?_)
    intro left right hLess hSame
    have hPlace :=
      congrArg (fun arrival => (ofLex (ofLex arrival).2).2) hSame
    exact absurd hPlace hLess.ne
  · unfold top
    unfold sortBy at hEntries
    rw [← hOffers, ← sortBy_stable hPlaces, ← hEntries]
    simp only [List.map_take, List.map_map]
    rfl

/- A source offers these symbols, one after the other. -/
structure Lists
    (arrivalsOf : Nat → List Offer)
    (symbols : List WorkspaceSymbol) : Prop where
  source :
    ∀ number,
      ∀ offer ∈ arrivalsOf number, offer.source = number
  distinct :
    ∀ number, Distinct Offer.arrival (arrivalsOf number)
  sorted :
    ∀ number,
      (sortBy Offer.arrival (arrivalsOf number)).map
        (·.symbol) = symbols

theorem index_lists
    (index : SymbolIndex)
    (query : String)
    (limit : Nat)
    (openUris : List String) :
    Lists (index.arrivals unicode query limit openUris)
      ((index.searchSymbols unicode query limit
        openUris).filter fun symbol =>
          decide (symbol.uri ∉ openUris)) := by
  constructor
  · intro number offer hMem
    have hOffer :=
      List.mem_of_mem_filter (List.mem_of_mem_filter hMem)
    rcases List.mem_map.mp hOffer with ⟨matching, _, rfl⟩
    rfl
  · intro number
    exact
      ((searchSymbols_offers unicode index query limit openUris
        number).1.filter _).filter _
  · intro number
    rcases
      searchSymbols_offers unicode index query limit openUris
        number with
      ⟨hDistinct, hSearch⟩
    unfold SymbolIndex.arrivals
    dsimp only
    rw [sortBy_filter (hDistinct.filter _),
      ← top_eq_sortBy hDistinct, hSearch, List.filter_map]
    rfl

theorem document_lists
    (document : OpenDocument) :
    Lists document.arrivals document.symbols := by
  have hSorted :
      ∀ number,
        (document.arrivals number).Pairwise
          fun left right => left.arrival < right.arrival := by
    intro number
    refine
      List.pairwise_map.mpr
        ((zipIdx_places document.symbols).imp ?_)
    intro left right hLess
    refine Prod.Lex.toLex_lt_toLex.mpr (Or.inr ⟨rfl, ?_⟩)
    exact Prod.Lex.toLex_lt_toLex.mpr (Or.inr ⟨rfl, hLess⟩)
  constructor
  · intro number offer hMem
    rcases List.mem_map.mp hMem with ⟨entry, _, rfl⟩
    rfl
  · exact fun number => distinct_of_sorted (hSorted number)
  · intro number
    rw [sortBy_of_sorted (hSorted number)]
    unfold OpenDocument.arrivals
    rw [List.map_map]
    exact List.zipIdx_map_fst 0 document.symbols

/- Numbered sources, each with what it stands for. -/
theorem flatMap_zipIdx
    {α Source Item : Type}
    {items : List α}
    {sourceOf : α → Source}
    {listed : Source × Nat → List Item}
    {expected : α → List Item}
    (hSame :
      ∀ item number,
        listed (sourceOf item, number) = expected item)
    (first : Nat) :
    ((items.map sourceOf).zipIdx first).flatMap listed =
      items.flatMap expected := by
  induction items generalizing first with
  | nil => rfl
  | cons item items ih =>
    rw [List.map_cons, List.zipIdx_cons, List.flatMap_cons,
      List.flatMap_cons, hSame, ih]

/- What the sources list, in the order of arrival. -/
theorem sortBy_arrivals
    (query : String)
    (limit : Nat) :
    Distinct Offer.arrival
        (arrivals unicode indexes documents query limit) ∧
      candidates unicode indexes documents query limit =
        (sortBy Offer.arrival
          (arrivals unicode indexes documents query
            limit)).map (·.symbol) := by
  let openUris := documents.map (·.uri)
  have hLists :
      ∀ piece
          ∈ (indexes.map
                (SymbolIndex.arrivals unicode query limit
                  openUris)
              ++ documents.map OpenDocument.arrivals).zipIdx,
        ∃ symbols, Lists piece.1 symbols := by
    intro piece hPiece
    have hSource := List.mem_map_of_mem (f := Prod.fst) hPiece
    rw [List.zipIdx_map_fst] at hSource
    rcases List.mem_append.mp hSource with hIndex | hDocument
    · rcases List.mem_map.mp hIndex with ⟨index, _, hIs⟩
      rw [← hIs]
      exact ⟨_, index_lists unicode index query limit openUris⟩
    · rcases List.mem_map.mp hDocument with
        ⟨document, _, hIs⟩
      rw [← hIs]
      exact ⟨_, document_lists document⟩
  have hOrder := zipIdx_places
    (indexes.map
        (SymbolIndex.arrivals unicode query limit openUris)
      ++ documents.map OpenDocument.arrivals)
  rcases
    @sortBy_flatMap _ _ Offer.arrival _ _ _
      (fun piece : (Nat → List Offer) × Nat =>
        piece.1 piece.2)
      (fun piece hPiece => by
        rcases hLists piece hPiece with ⟨_, hListed⟩
        exact hListed.distinct piece.2)
      (hOrder.imp_of_mem (by
        intro before after hBefore hAfter hLess left hLeft
          right hRight
        rcases hLists before hBefore with ⟨_, hFirst⟩
        rcases hLists after hAfter with ⟨_, hSecond⟩
        refine Prod.Lex.toLex_lt_toLex.mpr (Or.inl ?_)
        rw [hFirst.source _ left hLeft,
          hSecond.source _ right hRight]
        exact hLess)) with
    ⟨hSorted, hDistinct⟩
  refine ⟨hDistinct, ?_⟩
  unfold arrivals candidates
  dsimp only
  rw [hSorted, List.map_flatMap, List.zipIdx_append,
    List.flatMap_append,
    flatMap_zipIdx fun index number =>
      (index_lists unicode index query limit openUris).sorted
        number,
    flatMap_zipIdx fun document number =>
      (document_lists document).sorted number,
    List.filter_flatMap]

/- What arrives first arrives when its symbol does. -/
theorem firstArrival_of_first
    {query : String}
    {limit : Nat}
    {offer : Offer}
    (hMem :
      offer ∈ arrivals unicode indexes documents query limit)
    (hFirst :
      First (arrivals unicode indexes documents query limit)
        offer) :
    firstArrival unicode indexes documents query limit
      offer.symbol = offer.arrival := by
  unfold firstArrival
  rw [List.minimum_eq_coe_iff]
  refine ⟨List.mem_map_of_mem ?_, ?_⟩
  · exact List.mem_filter.mpr ⟨hMem, decide_eq_true rfl⟩
  · intro arrival hArrival
    rcases List.mem_map.mp hArrival with ⟨other, hOther, rfl⟩
    rcases List.mem_filter.mp hOther with ⟨hIn, hSame⟩
    exact hFirst other hIn (of_decide_eq_true hSame)

/- What arrives last is the first of nothing before it. -/
theorem first_append_iff
    {offers : List Offer}
    {last : Offer}
    (hBefore : ∀ offer ∈ offers, offer.arrival < last.arrival)
    {offer : Offer}
    (hOffer : offer ∈ offers) :
    First (offers ++ [last]) offer ↔ First offers offer := by
  unfold First
  rw [List.forall_mem_append]
  refine ⟨And.left, fun hAll => ⟨hAll, ?_⟩⟩
  intro other hOther _
  rw [List.mem_singleton.mp hOther]
  exact le_of_lt (hBefore offer hOffer)

theorem first_last_iff
    {offers : List Offer}
    {last : Offer}
    (hBefore : ∀ offer ∈ offers, offer.arrival < last.arrival) :
    First (offers ++ [last]) last ↔
      ¬ ∃ other ∈ offers.map (·.symbol),
        symbolIdentity other = symbolIdentity last.symbol := by
  constructor
  · rintro hFirst ⟨_, hSymbol, hSame⟩
    rcases List.mem_map.mp hSymbol with ⟨other, hOther, rfl⟩
    exact
      absurd (hBefore other hOther)
        (not_lt_of_ge
          (hFirst other (List.mem_append_left _ hOther) hSame))
  · intro hNone other hOther hSame
    rcases List.mem_append.mp hOther with hIn | hSelf
    · exact absurd ⟨_, List.mem_map_of_mem hIn, hSame⟩ hNone
    · rw [List.mem_singleton.mp hSelf]

/-
  The client keeps of each identity what arrives first.  The
  induction is on the offers in the order of arrival.
-/
omit [LinearOrder Collation] in
theorem rankUnique_arrivals
    {offers : List Offer}
    (hSorted :
      offers.Pairwise fun left right =>
        left.arrival < right.arrival) :
    (rankUnique unicode text foldedQuery
        (offers.map (·.symbol))).map (·.2) =
      (offers.filter fun offer =>
        (matchRank unicode text offer.symbol.name
            foldedQuery).isSome &&
          decide (First offers offer)).map (·.symbol) := by
  induction offers using List.reverseRecOn with
  | nil => rfl
  | append_singleton offers last ih =>
    rw [List.pairwise_append] at hSorted
    rcases hSorted with ⟨hOffers, _, hLast⟩
    have hBefore :
        ∀ offer ∈ offers, offer.arrival < last.arrival :=
      fun offer hOffer =>
        hLast offer hOffer last (List.mem_singleton_self last)
    have hFilter :
        (offers.filter fun offer =>
          (matchRank unicode text offer.symbol.name
              foldedQuery).isSome &&
            decide (First (offers ++ [last]) offer))
          = offers.filter fun offer =>
            (matchRank unicode text offer.symbol.name
                foldedQuery).isSome &&
              decide (First offers offer) := by
      refine List.filter_congr ?_
      intro offer hOffer
      rw [decide_eq_decide.mpr (first_append_iff hBefore hOffer)]
    rw [List.filter_append, List.map_append,
      List.map_append, List.map_singleton, rankUnique_append,
      hFilter, ← ih hOffers, List.filter_singleton]
    cases hRank :
        rankedByClient unicode text foldedQuery last.symbol with
    | none =>
      have hNone := Option.map_eq_none_iff.mp hRank
      rw [hNone]
      exact (List.append_nil _).symm
    | some entry =>
      have hEntry : entry.2 = last.symbol ∧
          (matchRank unicode text last.symbol.name
            foldedQuery).isSome = true := by
        rcases Option.map_eq_some_iff.mp hRank with
          ⟨rank, hName, rfl⟩
        exact ⟨rfl, by rw [hName]; rfl⟩
      have hKnows :=
        (rankUnique_knows_iff unicode text _ hEntry.2).not.trans
          (first_last_iff hBefore).symm
      dsimp only
      rw [setUnique_rankUnique unicode text _ hRank, hEntry.2,
        Bool.true_and]
      by_cases hFirst : First (offers ++ [last]) last
      · rw [if_neg (hKnows.mpr hFirst), decide_eq_true hFirst,
          List.map_append, List.map_singleton, hEntry.1]
        rfl
      · rw [if_pos (not_not.mp (mt hKnows.mp hFirst)),
          decide_eq_false hFirst]
        exact (List.append_nil _).symm

/-
  Sorted entries of symbols, each the first of its identity,
  stand in the order of the ranks and, for ties, of arrival.
-/
theorem sortBy_rankUnique
    {offers : List Offer}
    (hDistinct : Distinct Offer.arrival offers)
    {rankKey :
      WorkspaceSymbol →
        Nat ×ₗ Collation ×ₗ Collation ×ₗ Nat ×ₗ Nat}
    (hRank :
      ∀ symbol,
        rankKey symbol =
          rankedKey unicode text
            ((matchRank unicode text symbol.name
              foldedQuery).getD 0, symbol)) :
    (sortBy (rankedKey unicode text)
        (rankUnique unicode text foldedQuery
          ((sortBy Offer.arrival offers).map
            (·.symbol)))).map (·.2) =
      (sortBy
          (arrivalKey (fun offer => rankKey offer.symbol)
            Offer.arrival)
          (offers.filter fun offer =>
            (matchRank unicode text offer.symbol.name
                foldedQuery).isSome &&
              decide (First offers offer))).map
        (·.symbol) := by
  have hSorted := sortBy_strict hDistinct
  have hPerm :
      (sortBy Offer.arrival offers).Perm offers :=
    sortBy_perm offers
  have hFirst :
      (fun offer =>
        (matchRank unicode text offer.symbol.name
            foldedQuery).isSome &&
          decide (First (sortBy Offer.arrival offers) offer))
        = fun offer =>
          (matchRank unicode text offer.symbol.name
              foldedQuery).isSome &&
            decide (First offers offer) := by
    funext offer
    unfold First
    simp only [mem_sortBy]
  have hEntries :
      ∀ left
          ∈ rankUnique unicode text foldedQuery
            ((sortBy Offer.arrival offers).map (·.symbol)),
        ∀ right
            ∈ rankUnique unicode text foldedQuery
              ((sortBy Offer.arrival offers).map (·.symbol)),
          rankedKey unicode text left
              ≤ rankedKey unicode text right ↔
            rankKey left.2 ≤ rankKey right.2 := by
    have hKey :
        ∀ entry
            ∈ rankUnique unicode text foldedQuery
              ((sortBy Offer.arrival offers).map (·.symbol)),
          rankKey entry.2 = rankedKey unicode text entry := by
      intro entry hMem
      rcases Option.map_eq_some_iff.mp
          (mem_rankUnique unicode text _ hMem).2 with
        ⟨rank, hName, hIs⟩
      rw [hRank, hName]
      exact congrArg _ hIs
    intro left hLeft right hRight
    rw [hKey left hLeft, hKey right hRight]
  rw [map_sortBy hEntries,
    rankUnique_arrivals unicode text _ hSorted, hFirst,
    sortBy_map, sortBy_stable (hSorted.filter _),
    sortBy_of_perm (hPerm.filter _)
      (distinct_arrivalKey
        ((hDistinct.of_perm hPerm.symm).filter _))]

/-
  A search shows the first accepted symbols in the order of
  the client.
-/
theorem searchSymbols_eq_top
    (query : String)
    (limit : Nat) :
    Distinct
        (clientKey unicode text indexes documents query limit)
        (acceptedSymbols unicode text indexes documents query
          limit) ∧
      searchSymbols unicode text indexes documents query limit
        = top
          (clientKey unicode text indexes documents query
            limit)
          limit
          (acceptedSymbols unicode text indexes documents query
            limit) := by
  rcases
    sortBy_arrivals unicode indexes documents query limit with
    ⟨hDistinct, hCandidates⟩
  unfold searchSymbols rankAndLimit acceptedSymbols clientKey
  have hArrives :
      ∀ offer
          ∈ arrivals unicode indexes documents query limit,
        First (arrivals unicode indexes documents query limit)
            offer →
          firstArrival unicode indexes documents query limit
            offer.symbol = offer.arrival :=
    fun _ hMem =>
      firstArrival_of_first unicode indexes documents hMem
  rw [hCandidates]
  dsimp only
  generalize firstArrival unicode indexes documents query limit
    = arrivalOf at hArrives ⊢
  generalize arrivals unicode indexes documents query limit
    = offers at hDistinct hArrives ⊢
  generalize hKept :
    (offers.filter fun offer =>
      (matchRank unicode text offer.symbol.name
          (unicode.toLowercase query)).isSome &&
        decide (First offers offer)) = kept
  have hArrival :
      ∀ offer ∈ kept,
        arrivalOf offer.symbol = offer.arrival := by
    intro offer hMem
    rw [← hKept] at hMem
    rcases List.mem_filter.mp hMem with ⟨hIn, hBoth⟩
    rw [Bool.and_eq_true] at hBoth
    exact hArrives offer hIn (of_decide_eq_true hBoth.2)
  have hKeptDistinct : Distinct Offer.arrival kept := by
    rw [← hKept]
    exact hDistinct.filter _
  constructor
  · have hMap :
        (kept.map (·.symbol)).map arrivalOf =
          (kept.map Offer.arrival).map WithTop.some := by
      rw [List.map_map, List.map_map]
      exact List.map_congr_left hArrival
    refine distinct_arrivalKey ?_
    unfold Distinct
    rw [hMap]
    exact hKeptDistinct.map WithTop.coe_injective
  · let rankKey := fun symbol : WorkspaceSymbol =>
      rankedKey unicode text
        ((matchRank unicode text symbol.name
          (unicode.toLowercase query)).getD 0, symbol)
    let offerKey :=
      arrivalKey (fun offer => rankKey offer.symbol) Offer.arrival
    have hKeys :
        ∀ left ∈ kept,
          ∀ right ∈ kept,
            offerKey left ≤ offerKey right ↔
              arrivalKey rankKey arrivalOf left.symbol
                ≤ arrivalKey rankKey arrivalOf
                  right.symbol := by
      intro left hLeft right hRight
      unfold offerKey arrivalKey
      rw [Prod.Lex.toLex_le_toLex, Prod.Lex.toLex_le_toLex,
        hArrival left hLeft, hArrival right hRight,
        WithTop.coe_le_coe]
    have hSorted :=
      sortBy_rankUnique unicode text (unicode.toLowercase query)
        hDistinct fun symbol => (rfl : rankKey symbol = _)
    rw [hKept, map_sortBy hKeys] at hSorted
    unfold top
    rw [List.map_take, hSorted]

end Ranking

/- A client that collates texts by their characters. -/
def plainText : ClientText String where
  toUppercase text :=
    String.ofList (text.toList.map Char.toUpper)
  collationKey := id

def foobarSymbol : WorkspaceSymbol where
  name := "foobar"
  kind := .function
  uri := "file:///a.ets"
  range := ⟨⟨0, 16⟩, ⟨0, 22⟩⟩
  container := none

def foobarIndex : SymbolIndex :=
  ⟨[foobarSymbol], some, id⟩

def foobarDocument : OpenDocument :=
  ⟨"file:///a.ets", [foobarSymbol]⟩

def folderSymbol : WorkspaceSymbol :=
  { foobarSymbol with
    name := "Folder"
    kind := .class_
    uri := "file:///b.ets" }

def scrollSymbol : WorkspaceSymbol :=
  { folderSymbol with name := "scroll" }

end Workspace

end ArktsServer
