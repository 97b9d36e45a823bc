import ArktsServer.Semantic.ReferenceCopies

/-
  The cache of answers is a bounded map: an answer that it
  gives is the last one that it accepted for the question,
  whatever the callers do to the arrays they hold.

  Key definitions include:
    * `Accounted`, `Bounded`
    * `EntryInv`, `WorldInv`

  Correctness is proven by:
    * `cacheKey_eq_iff`
    * `evict_spec`
    * `worldInv_step`, `worldInv_run`
    * `cache_refines`
    * `set_then_get`
-/

namespace ArktsServer

namespace ReferenceCache

open JsonText

----------
-- Keys
----------

variable {texts : List Units}

theorem wellFormed_commaJoin
    (hTexts : ∀ text ∈ texts, WellFormed text) :
    WellFormed (commaJoin texts) := by
  have hComma : isSurrogate 0x2c = false := by decide
  induction texts using commaJoin.induct with
  | case1 => exact WellFormed.nil
  | case2 text => exact hTexts text List.mem_cons_self
  | case3 text more texts ih =>
    rcases List.forall_mem_cons.mp hTexts with
      ⟨hText, hMore⟩
    exact hText.append (WellFormed.unit hComma (ih hMore))

theorem wellFormed_arrayText
    (hTexts : ∀ text ∈ texts, WellFormed text) :
    WellFormed (arrayText texts) := by
  have hFirst : isSurrogate 0x5b = false := by decide
  have hLast : isSurrogate 0x5d = false := by decide
  exact
    WellFormed.unit hFirst
      ((wellFormed_commaJoin hTexts).append
        (WellFormed.unit hLast WellFormed.nil))

/- What a key is made of, as a text. -/
def keyText
    (digest : Units)
    (generation : Nat)
    (query : SemanticReferencesQuery) : Units :=
  arrayText
    [quote query.document.workspaceId,
      naturalText generation,
      quote query.document.uri,
      integerText query.document.version,
      quote digest,
      naturalText query.position.line,
      naturalText query.position.character,
      booleanText query.includeDeclaration]

theorem wellFormed_keyText
    (digest : Units)
    (generation : Nat)
    (query : SemanticReferencesQuery) :
    WellFormed (keyText digest generation query) := by
  refine wellFormed_arrayText ?_
  intro text hText
  simp only [List.mem_cons, List.not_mem_nil, or_false] at hText
  rcases hText with
    rfl | rfl | rfl | rfl | rfl | rfl | rfl | rfl
  · exact wellFormed_quote _
  · exact (naturalText_ascii _).wellFormed
  · exact wellFormed_quote _
  · exact (integerText_ascii _).wellFormed
  · exact wellFormed_quote _
  · exact (naturalText_ascii _).wellFormed
  · exact (naturalText_ascii _).wellFormed
  · exact (booleanText_ascii _).wellFormed

theorem quote_comma_inj
    {text other rest more : Units}
    (hSame :
      quote text ++ 0x2c :: rest =
        quote other ++ 0x2c :: more) :
    text = other ∧ rest = more := by
  rcases quote_inj hSame with ⟨hText, hRest⟩
  exact ⟨hText, List.tail_eq_of_cons_eq hRest⟩

/- The parts can be read off the text. -/
theorem keyText_inj
    {digest otherDigest : Units}
    {generation otherGeneration : Nat}
    {query other : SemanticReferencesQuery}
    (hSame :
      keyText digest generation query =
        keyText otherDigest otherGeneration other) :
    query.document.workspaceId = other.document.workspaceId ∧
      query.document.uri = other.document.uri ∧
      query.document.version = other.document.version ∧
      digest = otherDigest ∧
      query.position = other.position ∧
      query.includeDeclaration = other.includeDeclaration := by
  unfold keyText arrayText at hSame
  simp only [commaJoin, List.append_assoc, List.cons_append,
    List.cons.injEq, true_and] at hSame
  rcases quote_comma_inj hSame with ⟨hWorkspace, hFirst⟩
  rcases
      comma_inj (comma_notMem_naturalText _)
        (comma_notMem_naturalText _) hFirst
    with ⟨_, hSecond⟩
  rcases quote_comma_inj hSecond with ⟨hUri, hThird⟩
  rcases
      comma_inj (comma_notMem_integerText _)
        (comma_notMem_integerText _) hThird
    with ⟨hVersion, hFourth⟩
  rcases quote_comma_inj hFourth with ⟨hDigest, hFifth⟩
  rcases
      comma_inj (comma_notMem_naturalText _)
        (comma_notMem_naturalText _) hFifth
    with ⟨hLine, hSixth⟩
  rcases
      comma_inj (comma_notMem_naturalText _)
        (comma_notMem_naturalText _) hSixth
    with ⟨hCharacter, hSeventh⟩
  have hPosition : query.position = other.position :=
    TextPosition.ext (naturalText_inj hLine)
      (naturalText_inj hCharacter)
  exact
    ⟨hWorkspace, hUri, integerText_inj hVersion, hDigest,
      hPosition, booleanText_inj hSeventh⟩

section Keys

variable {sha256 : Units → Units}

theorem createHash_inj
    (hSha : Function.Injective sha256)
    {text other : Units}
    (hSame :
      createHash sha256 text = createHash sha256 other) :
    toWellFormed text = toWellFormed other :=
  hSha hSame

theorem cacheKey_eq
    (sha256 : Units → Units)
    (rootGenerations : OrderedMap Units Nat)
    (query : SemanticReferencesQuery) :
    cacheKey sha256 rootGenerations query =
      createHash sha256
        (keyText (createHash sha256 query.document.text)
          ((rootGenerations.get
            query.document.workspaceId).getD 0)
          query) :=
  rfl

variable {rootGenerations : OrderedMap Units Nat}

/- Two questions have one key only if they are the same. -/
theorem cacheKey_eq_iff
    (hSha : Function.Injective sha256)
    {query other : SemanticReferencesQuery} :
    cacheKey sha256 rootGenerations query =
        cacheKey sha256 rootGenerations other ↔
      question query = question other := by
  constructor
  · intro hSame
    rw [cacheKey_eq, cacheKey_eq] at hSame
    have hTexts := createHash_inj hSha hSame
    rw [(wellFormed_keyText _ _ _).toWellFormed_eq,
      (wellFormed_keyText _ _ _).toWellFormed_eq] at hTexts
    rcases keyText_inj hTexts with
      ⟨hWorkspace, hUri, hVersion, hDigest, hPosition, hFlag⟩
    unfold question
    rw [hWorkspace, hUri, hVersion, hPosition, hFlag,
      createHash_inj hSha hDigest]
  · intro hSame
    injection hSame with hWorkspace hUri hVersion hText
      hPosition hFlag
    have hHash :
        createHash sha256 query.document.text =
          createHash sha256 other.document.text :=
      congrArg sha256 hText
    unfold cacheKey
    rw [hWorkspace, hUri, hVersion, hPosition, hFlag, hHash]

/- A root's generation is not in the keys of other roots. -/
theorem cacheKey_set
    {query : SemanticReferencesQuery}
    {rootId : Units}
    {generation : Nat}
    (hRoot : query.document.workspaceId ≠ rootId) :
    cacheKey sha256 (rootGenerations.set rootId generation)
        query =
      cacheKey sha256 rootGenerations query := by
  unfold cacheKey
  rw [OrderedMap.get_set, if_neg hRoot]

end Keys

----------
-- Bounds
----------

namespace ReferenceResultCache

/- The sizes of the entries. -/
def total (cache : ReferenceResultCache) : Nat :=
  totalSize (fun entry => entry.2.bytes) cache.entries.entries

/- The count of bytes is right. -/
def Accounted (cache : ReferenceResultCache) : Prop :=
  cache.bytes = cache.total

def Bounded
    (limits : CacheLimits)
    (cache : ReferenceResultCache) : Prop :=
  cache.size ≤ limits.maxEntries ∧
    cache.bytes ≤ limits.maxBytes

/- A cache with some of the entries of another one. -/
structure Within (cache other : ReferenceResultCache) : Prop where
  entries :
    ∀ key entry,
      cache.entries.get key = some entry →
        other.entries.get key = some entry
  generations : cache.rootGenerations = other.rootGenerations

theorem Within.refl (cache : ReferenceResultCache) :
    Within cache cache :=
  ⟨fun _ _ hEntry => hEntry, rfl⟩

theorem Within.trans
    {first second third : ReferenceResultCache}
    (hFirst : Within first second)
    (hSecond : Within second third) :
    Within first third :=
  ⟨fun key entry hEntry =>
    hSecond.entries key entry (hFirst.entries key entry hEntry),
    hFirst.generations.trans hSecond.generations⟩

variable {cache : ReferenceResultCache}
variable {entry : CacheEntry}
variable {key : Units}

theorem delete_some
    (hEntry : cache.entries.get key = some entry) :
    cache.delete key =
      { cache with
        entries := cache.entries.delete key
        bytes := cache.bytes - entry.bytes } := by
  unfold delete
  rw [hEntry]

theorem delete_none
    (hNone : cache.entries.get key = none) :
    cache.delete key = cache := by
  unfold delete
  rw [hNone]

theorem get_delete
    (cache : ReferenceResultCache)
    (key other : Units) :
    (cache.delete key).entries.get other =
      if other = key then none
      else cache.entries.get other := by
  cases hEntry : cache.entries.get key with
  | none =>
    rw [delete_none hEntry]
    split
    · rename_i hSame
      rw [hSame, hEntry]
    · rfl
  | some entry =>
    rw [delete_some hEntry]
    exact OrderedMap.get_delete cache.entries key other

theorem within_delete
    (cache : ReferenceResultCache)
    (key : Units) :
    Within (cache.delete key) cache := by
  constructor
  · intro other entry hEntry
    rw [get_delete] at hEntry
    split at hEntry
    · cases hEntry
    · exact hEntry
  · unfold delete
    split
    · rfl
    · rfl

/- An entry that is deleted is no longer counted. -/
theorem delete_counts
    (hEntry : cache.entries.get key = some entry) :
    (cache.delete key).size + 1 = cache.size ∧
      (cache.delete key).total + entry.bytes =
        cache.total := by
  have hPerm := OrderedMap.perm_delete hEntry
  rw [delete_some hEntry]
  unfold size total
  rw [hPerm.length_eq, totalSize_perm _ hPerm, totalSize]
  exact ⟨rfl, Nat.add_comm _ _⟩

theorem accounted_delete
    (hCache : Accounted cache)
    (key : Units) :
    Accounted (cache.delete key) := by
  cases hEntry : cache.entries.get key with
  | none =>
    rw [delete_none hEntry]
    exact hCache
  | some entry =>
    have hTotal := (delete_counts hEntry).2
    unfold Accounted at hCache ⊢
    have hBytes :
        (cache.delete key).bytes = cache.bytes - entry.bytes := by
      rw [delete_some hEntry]
    rw [hBytes, hCache]
    omega

theorem get_deleted
    (cache : ReferenceResultCache)
    (key : Units) :
    (cache.delete key).entries.get key = none := by
  rw [get_delete, if_pos rfl]

/- A new entry is counted. -/
theorem accounted_insert
    (hCache : Accounted cache)
    (key : Units)
    (entry : CacheEntry) :
    Accounted (cache.insert key entry) := by
  have hDeleted := accounted_delete hCache key
  have hTotal :
      (cache.insert key entry).total =
        (cache.delete key).total + entry.bytes := by
    have hEntries :=
      OrderedMap.entries_set_of_none (get_deleted cache key) entry
    change
      totalSize _
          ((cache.delete key).entries.set key entry).entries =
        _
    rw [hEntries, totalSize_append]
    rfl
  unfold Accounted at hDeleted ⊢
  rw [hTotal]
  change (cache.delete key).bytes + entry.bytes = _
  rw [hDeleted]
  exact (Int.natCast_add _ _).symm

theorem get_insert
    (cache : ReferenceResultCache)
    (key other : Units)
    (entry : CacheEntry) :
    (cache.insert key entry).entries.get other =
      if other = key then some entry
      else cache.entries.get other := by
  change ((cache.delete key).entries.set key entry).get other = _
  rw [OrderedMap.get_set, get_delete]
  split
  · rfl
  · rfl

/- Reading an entry only moves it. -/
theorem get_touch
    (hEntry : cache.entries.get key = some entry)
    (other : Units) :
    (cache.touch key entry).entries.get other =
      cache.entries.get other := by
  change ((cache.entries.delete key).set key entry).get other = _
  rw [OrderedMap.get_set, OrderedMap.get_delete]
  split
  · rename_i hSame
    rw [hSame, hEntry]
  · rfl

theorem touch_counts
    (hEntry : cache.entries.get key = some entry) :
    (cache.touch key entry).size = cache.size ∧
      (cache.touch key entry).total = cache.total := by
  have hNone : (cache.entries.delete key).get key = none := by
    rw [OrderedMap.get_delete, if_pos rfl]
  have hPerm :
      (cache.touch key entry).entries.entries.Perm
        cache.entries.entries := by
    change
      ((cache.entries.delete key).set key entry).entries.Perm _
    rw [OrderedMap.entries_set_of_none hNone]
    exact
      (List.perm_append_singleton _ _).trans
        (OrderedMap.perm_delete hEntry).symm
  exact ⟨hPerm.length_eq, totalSize_perm _ hPerm⟩

variable {limits : CacheLimits}
variable {fuel : Nat}

/- The loop ends within the bounds. -/
theorem evictFrom_spec
    (hCache : Accounted cache)
    (hFuel : cache.size < fuel) :
    Accounted (cache.evictFrom limits fuel) ∧
      Bounded limits (cache.evictFrom limits fuel) ∧
      Within (cache.evictFrom limits fuel) cache := by
  induction fuel generalizing cache with
  | zero => exact absurd hFuel (Nat.not_lt_zero _)
  | succ fuel ih =>
    rw [evictFrom]
    split
    · rename_i hOver
      split
      · rename_i hNone
        have hEmpty : cache.entries.entries = [] :=
          List.map_eq_nil_iff.mp (List.head?_eq_none_iff.mp hNone)
        have hSize : cache.size = 0 := by
          unfold size
          rw [hEmpty]
          rfl
        have hBytes : cache.bytes = 0 := by
          rw [hCache]
          unfold total
          rw [hEmpty]
          rfl
        rw [hSize, hBytes] at hOver
        omega
      · rename_i oldest hOldest
        have hKey : oldest ∈ cache.entries.keys :=
          List.mem_of_head? hOldest
        rcases OrderedMap.mem_keys_iff.mp hKey with
          ⟨entry, hEntry⟩
        have hSize := (delete_counts hEntry).1
        rcases
            ih (accounted_delete hCache oldest) (by omega)
          with ⟨hAccounted, hBounded, hWithin⟩
        exact
          ⟨hAccounted, hBounded,
            hWithin.trans (within_delete cache oldest)⟩
    · rename_i hFits
      rw [not_or, Nat.not_lt, Int.not_lt] at hFits
      exact ⟨hCache, hFits, Within.refl cache⟩

theorem evict_spec
    {cache : ReferenceResultCache}
    (hCache : Accounted cache) :
    Accounted (cache.evict limits) ∧
      Bounded limits (cache.evict limits) ∧
      Within (cache.evict limits) cache :=
  evictFrom_spec hCache (Nat.lt_succ_self _)

/- The entry that came last stays, for it fits alone. -/
theorem evictFrom_keeps
    {earlier : List (Units × CacheEntry)}
    (hCache : Accounted cache)
    (hEntries :
      cache.entries.entries = earlier ++ [(key, entry)])
    (hBytes : entry.bytes ≤ limits.maxBytes) :
    (cache.evictFrom limits fuel).entries.get key =
      some entry := by
  have hThere : cache.entries.get key = some entry := by
    rw [OrderedMap.get_eq_some_iff, hEntries]
    exact List.mem_append_right _ List.mem_cons_self
  induction fuel generalizing cache earlier with
  | zero => exact hThere
  | succ fuel ih =>
    rw [evictFrom]
    split
    · rename_i hOver
      cases earlier with
      | nil =>
        have hSize : cache.size = 1 := by
          unfold size
          rw [hEntries]
          rfl
        have hTotal : cache.bytes = entry.bytes := by
          rw [hCache]
          unfold total
          rw [hEntries]
          rfl
        have hPositive := limits.hEntries
        rw [hSize, hTotal] at hOver
        omega
      | cons head earlier =>
        have hOldest :
            cache.entries.keys.head? = some head.1 := by
          unfold OrderedMap.keys
          rw [hEntries]
          rfl
        have hHead :
            cache.entries.get head.1 = some head.2 := by
          rw [OrderedMap.get_eq_some_iff, hEntries]
          exact List.mem_cons_self
        have hRest :
            (cache.delete head.1).entries.entries =
              earlier ++ [(key, entry)] := by
          rw [delete_some hHead]
          exact OrderedMap.entries_delete_head hEntries
        rw [hOldest]
        refine ih (accounted_delete hCache _) hRest ?_
        rw [OrderedMap.get_eq_some_iff, hRest]
        exact List.mem_append_right _ List.mem_cons_self
    · exact hThere

theorem accounted_deleteRoot
    (rootId : Units)
    (entries : List (Units × CacheEntry))
    (hCache : Accounted cache) :
    Accounted (deleteRoot rootId entries cache) := by
  induction entries generalizing cache with
  | nil => exact hCache
  | cons entry entries ih =>
    rw [deleteRoot]
    refine ih ?_
    split
    · exact accounted_delete hCache _
    · exact hCache

theorem within_deleteRoot
    (rootId : Units)
    (entries : List (Units × CacheEntry))
    (cache : ReferenceResultCache) :
    Within (deleteRoot rootId entries cache) cache := by
  induction entries generalizing cache with
  | nil => exact Within.refl cache
  | cons entry entries ih =>
    rw [deleteRoot]
    split
    · exact (ih _).trans (within_delete cache _)
    · exact ih _

/- No entry of the root is left. -/
theorem deleteRoot_spec
    {rootId key : Units}
    {entries : List (Units × CacheEntry)}
    (hEntry :
      (deleteRoot rootId entries cache).entries.get key =
        some entry)
    (hListed : (key, entry) ∈ entries) :
    entry.rootId ≠ rootId := by
  induction entries generalizing cache with
  | nil => cases hListed
  | cons head entries ih =>
    rw [deleteRoot] at hEntry
    rcases List.mem_cons.mp hListed with rfl | hRest
    · intro hRoot
      rw [if_pos hRoot] at hEntry
      have hStill :=
        (within_deleteRoot rootId entries _).entries _ _ hEntry
      rw [get_deleted] at hStill
      cases hStill
    · exact ih hEntry hRest

/- Deleting never makes a cache larger. -/
theorem size_deleteRoot
    (rootId : Units)
    (entries : List (Units × CacheEntry))
    (cache : ReferenceResultCache) :
    (deleteRoot rootId entries cache).size ≤ cache.size ∧
      (deleteRoot rootId entries cache).total ≤
        cache.total := by
  have hDelete : ∀ (cache : ReferenceResultCache) key,
      (cache.delete key).size ≤ cache.size ∧
        (cache.delete key).total ≤ cache.total := by
    intro cache key
    cases hEntry : cache.entries.get key with
    | none =>
      rw [delete_none hEntry]
      exact ⟨Nat.le_refl _, Nat.le_refl _⟩
    | some entry =>
      have hCounts := delete_counts hEntry
      omega
  induction entries generalizing cache with
  | nil => exact ⟨Nat.le_refl _, Nat.le_refl _⟩
  | cons entry entries ih =>
    rw [deleteRoot]
    split
    · have hFirst := hDelete cache entry.1
      have hRest := ih (cache.delete entry.1)
      omega
    · exact ih cache

end ReferenceResultCache

----------
-- Invariants
----------

/- Callers know what is allocated, and all it refers to. -/
structure HeapInv
    (heap : Heap)
    (known : Address → Bool) : Prop where
  allocated :
    ∀ address, known address = true → address < heap.next
  separated :
    ∀ address cell,
      heap.get address = some cell →
        ∀ child ∈ cell.children,
          child < heap.next ∧ known child = known address

/- An entry answers its question, and no caller knows it. -/
structure EntryInv
    (sha256 : Units → Units)
    (heap : Heap)
    (known : Address → Bool)
    (rootGenerations : OrderedMap Units Nat)
    (events : List Event)
    (key : Units)
    (entry : CacheEntry) : Prop where
  hidden : known entry.references = false
  answers :
    ∃ query references,
      key = cacheKey sha256 rootGenerations query ∧
        entry.rootId = query.document.workspaceId ∧
        readReferences heap entry.references =
          some references ∧
        entry.bytes =
          entryBytes references entry.inputProof ∧
        latestAccepted (question query) events =
          some references

structure CacheInv
    (sha256 : Units → Units)
    (limits : CacheLimits)
    (heap : Heap)
    (known : Address → Bool)
    (cache : ReferenceResultCache)
    (events : List Event) : Prop where
  entries :
    ∀ key entry,
      cache.entries.get key = some entry →
        EntryInv sha256 heap known cache.rootGenerations events
          key entry
  accounted : cache.Accounted
  bounded : cache.Bounded limits

structure WorldInv
    (sha256 : Units → Units)
    (limits : CacheLimits)
    (world : World) : Prop where
  objects : HeapInv world.heap world.known
  cached :
    CacheInv sha256 limits world.heap world.known world.cache
      world.events

variable {heap : Heap}
variable {address : Address}

theorem Heap.exists_cell
    (hAddress : address < heap.next) :
    ∃ cell, heap.get address = some cell :=
  ⟨_, List.getElem?_eq_getElem hAddress⟩

variable {known : Address → Bool}
variable {heap after : Heap}

/- What the callers know does not grow with the heap. -/
theorem HeapInv.grown
    (hHeap : HeapInv heap known)
    (hGrown : Grown heap after) :
    HeapInv after known := by
  have hUnknown : ∀ address, heap.next ≤ address →
      known address = false := by
    intro address hNew
    refine Bool.eq_false_of_not_eq_true fun hKnown => ?_
    exact Nat.not_lt_of_le hNew (hHeap.allocated address hKnown)
  refine ⟨?_, ?_⟩
  · intro address hKnown
    exact
      Nat.lt_of_lt_of_le (hHeap.allocated address hKnown)
        hGrown.next
  · intro address cell hCell child hChild
    by_cases hOld : address < heap.next
    · rcases Heap.exists_cell hOld with ⟨found, hFound⟩
      have hSame := hGrown.kept _ _ hFound
      rw [hCell] at hSame
      injection hSame with hSame
      subst hSame
      have hBoth := hHeap.separated _ _ hFound child hChild
      exact ⟨Nat.lt_of_lt_of_le hBoth.1 hGrown.next, hBoth.2⟩
    · have hNew := Nat.le_of_not_lt hOld
      have hFresh :=
        hGrown.fresh address cell hNew hCell child hChild
      rw [hUnknown child hFresh.1, hUnknown address hNew]
      exact ⟨hFresh.2, rfl⟩

theorem lt_of_readReferences
    {references : List SemanticReference}
    (hRead : readReferences heap address = some references) :
    address < heap.next := by
  rcases readReferences_eq_some.mp hRead with ⟨_, hArray, _⟩
  exact Heap.lt_next hArray

section Steps

variable {sha256 : Units → Units}
variable {limits : CacheLimits}
variable {heap after : Heap}
variable {known : Address → Bool}
variable {cache : ReferenceResultCache}
variable {events : List Event}
variable {key : Units}
variable {entry : CacheEntry}

/- An entry of an object graph that did not change. -/
theorem EntryInv.agrees
    {rootGenerations : OrderedMap Units Nat}
    {others : Address → Bool}
    {region : Address → Prop}
    (hEntry :
      EntryInv sha256 heap known rootGenerations events key
        entry)
    (hAgrees : Agrees region heap after)
    (hRegion : region entry.references)
    (hHidden : others entry.references = false) :
    EntryInv sha256 after others rootGenerations events key
      entry := by
  rcases hEntry.answers with
    ⟨query, references, hKey, hRoot, hRead, hBytes, hLatest⟩
  exact
    ⟨hHidden, query, references, hKey, hRoot,
      readReferences_agrees hAgrees hRegion hRead, hBytes,
      hLatest⟩

/- An entry of a question that was not answered again. -/
theorem EntryInv.unanswered
    {rootGenerations : OrderedMap Units Nat}
    {more : List Event}
    (hEntry :
      EntryInv sha256 heap known rootGenerations events key
        entry)
    (hMore :
      ∀ query,
        key = cacheKey sha256 rootGenerations query →
          latestAccepted (question query) more =
            latestAccepted (question query) events) :
    EntryInv sha256 heap known rootGenerations more key
      entry := by
  rcases hEntry.answers with
    ⟨query, references, hKey, hRoot, hRead, hBytes, hLatest⟩
  exact
    ⟨hEntry.hidden, query, references, hKey, hRoot, hRead,
      hBytes, (hMore query hKey).trans hLatest⟩

theorem latestAccepted_refused
    (asked answered : Question)
    (references : List SemanticReference)
    (events : List Event) :
    latestAccepted asked
        (.set answered references false :: events) =
      latestAccepted asked events :=
  rfl

theorem latestAccepted_set
    (asked answered : Question)
    (references : List SemanticReference)
    (events : List Event) :
    latestAccepted asked
        (.set answered references true :: events) =
      if answered = asked then some references
      else latestAccepted asked events :=
  rfl

/- What `store` does, and to which entries. -/
theorem store_spec
    (hSha : Function.Injective sha256)
    (hHeap : HeapInv heap known)
    (hCache :
      CacheInv sha256 limits heap known cache events)
    {query : SemanticReferencesQuery}
    {address : Address}
    {values : List SemanticReference}
    {inputProof : Option Units}
    (hRead : readReferences heap address = some values) :
    ∃ next stored,
      store sha256 limits heap cache query address inputProof =
          some (next, stored, fits limits values inputProof) ∧
        Kept heap next ∧
        HeapInv next known ∧
        CacheInv sha256 limits next known stored
          (.set (question query) values
              (fits limits values inputProof)
            :: events) := by
  rcases cloneReferences_spec hRead with
    ⟨next, copy, hClone, hCloned, hCopy⟩
  have hKeptEntries :
      ∀ key entry,
        cache.entries.get key = some entry →
          EntryInv sha256 next known cache.rootGenerations
            events key entry := by
    intro key entry hEntry
    have hOld := hCache.entries key entry hEntry
    exact hOld.agrees hCloned.kept.agrees trivial hOld.hidden
  have hObjects := hHeap.grown hCloned.grown
  unfold store
  rw [hClone]
  simp only [Option.bind_eq_bind, Option.bind_some]
  rw [hCopy]
  simp only [Option.bind_some]
  by_cases hBytes : limits.maxBytes < entryBytes values inputProof
  · have hFits : fits limits values inputProof = false :=
      decide_eq_false (Nat.not_le_of_lt hBytes)
    rw [if_pos hBytes, hFits]
    refine
      ⟨next, cache, rfl, hCloned.kept, hObjects, ?_,
        hCache.accounted, hCache.bounded⟩
    intro key entry hEntry
    exact
      (hKeptEntries key entry hEntry).unanswered
        (fun _ _ => latestAccepted_refused _ _ _ _)
  · have hFits : fits limits values inputProof = true :=
      decide_eq_true (Nat.le_of_not_lt hBytes)
    rw [if_neg hBytes, hFits]
    have hSpec :=
      @ReferenceResultCache.evict_spec limits _
        (ReferenceResultCache.accounted_insert
          hCache.accounted
          (cacheKey sha256 cache.rootGenerations query)
          { rootId := query.document.workspaceId
            bytes := entryBytes values inputProof
            references := copy
            inputProof := inputProof })
    rcases hSpec with ⟨hAccounted, hBounded, hWithin⟩
    have hGenerations :
        (cache.insert
            (cacheKey sha256 cache.rootGenerations query)
            { rootId := query.document.workspaceId
              bytes := entryBytes values inputProof
              references := copy
              inputProof := inputProof }).rootGenerations =
          cache.rootGenerations :=
      (ReferenceResultCache.within_delete cache _).generations
    refine
      ⟨next, _, rfl, hCloned.kept, hObjects, ?_, hAccounted,
        hBounded⟩
    intro key entry hEntry
    have hInserted := hWithin.entries key entry hEntry
    rw [ReferenceResultCache.get_insert] at hInserted
    rw [hWithin.generations, hGenerations]
    split at hInserted
    · rename_i hKey
      injection hInserted with hNew
      subst hNew
      refine ⟨?_, query, values, hKey, rfl, hCopy, rfl, ?_⟩
      · refine Bool.eq_false_of_not_eq_true fun hKnown => ?_
        exact
          Nat.not_lt_of_le hCloned.new
            (hHeap.allocated copy hKnown)
      · rw [latestAccepted_set, if_pos rfl]
    · rename_i hKey
      refine (hKeptEntries key entry hInserted).unanswered ?_
      intro other hOther
      rw [latestAccepted_set]
      refine if_neg fun hSame => ?_
      rw [(cacheKey_eq_iff hSha).mpr hSame] at hKey
      exact hKey hOther

theorem readKnown_eq_some
    {world : World}
    {address : Address}
    {values : List SemanticReference}
    (hRead : readKnown world address = some values) :
    readReferences world.heap address = some values := by
  unfold readKnown at hRead
  split at hRead
  · exact hRead
  · cases hRead

variable {next : Heap}
variable {stored : ReferenceResultCache}

/- An answer that was stored is there. -/
theorem store_found
    (hCache : cache.Accounted)
    {query : SemanticReferencesQuery}
    {address : Address}
    {inputProof : Option Units}
    (hStore :
      store sha256 limits heap cache query address inputProof =
        some (next, stored, true)) :
    ∃ entry,
      stored.entries.get
          (cacheKey sha256 stored.rootGenerations query) =
        some entry := by
  rcases Option.bind_eq_some_iff.mp hStore with
    ⟨cloned, _, hRest⟩
  rcases Option.bind_eq_some_iff.mp hRest with
    ⟨values, _, hLast⟩
  simp only at hLast
  split at hLast
  · cases hLast
  · rename_i hBytes
    injection hLast with hLast
    injection hLast with _ hLast
    injection hLast with hStored _
    have hAccounted :=
      ReferenceResultCache.accounted_insert hCache
        (cacheKey sha256 cache.rootGenerations query)
        { rootId := query.document.workspaceId
          bytes := entryBytes values inputProof
          references := cloned.2
          inputProof := inputProof }
    have hWithin :=
      (@ReferenceResultCache.evict_spec limits _ hAccounted).2.2
    have hGenerations :
        stored.rootGenerations = cache.rootGenerations := by
      rw [← hStored, hWithin.generations]
      exact
        (ReferenceResultCache.within_delete cache _).generations
    rw [hGenerations, ← hStored]
    exact
      ⟨_,
        ReferenceResultCache.evictFrom_keeps hAccounted
          (OrderedMap.entries_set_of_none
            (ReferenceResultCache.get_deleted cache _) _)
          (Nat.le_of_not_lt hBytes)⟩

/- A `set` without other references. -/
theorem set_single
    {query : SemanticReferencesQuery}
    {address : Address}
    {inputProof : Option Units}
    {accepted : Bool}
    (hStore :
      store sha256 limits heap cache query address inputProof =
        some (next, stored, accepted)) :
    set sha256 limits heap cache query
        (.complete address none) inputProof =
      some (next, stored, accepted) := by
  unfold set
  simp only
  rw [hStore]
  cases accepted with
  | false => rfl
  | true => rfl

/- What `set` does with a result that a caller can pass. -/
theorem set_spec
    (hSha : Function.Injective sha256)
    {world : World}
    (hWorld : WorldInv sha256 limits world)
    {query : SemanticReferencesQuery}
    {result : SemanticReferencesOutcome}
    {inputProof : Option Units}
    {read : Option ResultValues}
    (hRead : readResult world result = some read) :
    ∃ next stored accepted,
      set sha256 limits world.heap world.cache query result
          inputProof = some (next, stored, accepted) ∧
        HeapInv next world.known ∧
        CacheInv sha256 limits next world.known stored
          (setEvents limits query inputProof read
            ++ world.events) := by
  rcases result with ⟨address, other⟩ | reason
  · cases other with
    | none =>
      rcases Option.map_eq_some_iff.mp hRead with
        ⟨values, hKnown, rfl⟩
      rcases
          @store_spec _ limits _ _ _ _ hSha hWorld.objects
            hWorld.cached query _ _ inputProof
            (readKnown_eq_some hKnown)
        with ⟨next, stored, hStore, _, hObjects, hCached⟩
      exact
        ⟨next, stored, _, set_single hStore, hObjects, hCached⟩
    | some other =>
      rcases Option.bind_eq_some_iff.mp hRead with
        ⟨values, hKnown, hRest⟩
      rcases Option.bind_eq_some_iff.mp hRest with
        ⟨otherValues, hOther, hSame⟩
      injection hSame with hSame
      subst hSame
      rcases
          @store_spec _ limits _ _ _ _ hSha hWorld.objects
            hWorld.cached query _ _ inputProof
            (readKnown_eq_some hKnown)
        with
          ⟨next, stored, hStore, hKept, hObjects, hCached⟩
      unfold set setEvents
      simp only
      rw [hStore]
      simp only [Option.bind_eq_bind, Option.bind_some]
      cases hFits : fits limits values inputProof with
      | false =>
        rw [hFits] at hCached
        refine
          ⟨next, stored, false, rfl, hObjects, ?_,
            hCached.accounted, hCached.bounded⟩
        intro key entry hEntry
        exact
          (hCached.entries key entry hEntry).unanswered
            (fun _ _ => latestAccepted_refused _ _ _ _)
      | true =>
        rw [hFits] at hCached
        rcases
            @store_spec _ limits _ _ _ _ hSha hObjects
              hCached query.toggled _ _ inputProof
              (readReferences_agrees hKept.agrees trivial
                (readKnown_eq_some hOther))
          with ⟨last, final, hFinal, _, hAll, hEnd⟩
        simp only [if_true]
        rw [hFinal, Bool.true_and]
        exact ⟨last, final, true, rfl, hAll, hEnd⟩
  · injection hRead with hSame
    subst hSame
    exact
      ⟨world.heap, world.cache, false, rfl, hWorld.objects,
        hWorld.cached⟩

/- Two answers that fit, and the second is there. -/
theorem set_pair
    (hSha : Function.Injective sha256)
    {world : World}
    (hWorld : WorldInv sha256 limits world)
    {query : SemanticReferencesQuery}
    {address other : Address}
    {inputProof : Option Units}
    {values otherValues : List SemanticReference}
    (hValues : readKnown world address = some values)
    (hOther : readKnown world other = some otherValues)
    (hFits : fits limits values inputProof = true)
    (hOtherFits : fits limits otherValues inputProof = true) :
    ∃ next stored entry,
      set sha256 limits world.heap world.cache query
          (.complete address (some other)) inputProof =
        some (next, stored, true) ∧
      stored.entries.get
          (cacheKey sha256 stored.rootGenerations
            query.toggled) =
        some entry := by
  rcases
      @store_spec _ limits _ _ _ _ hSha hWorld.objects
        hWorld.cached query _ _ inputProof
        (readKnown_eq_some hValues)
    with ⟨next, stored, hStore, hKept, hObjects, hCached⟩
  rcases
      @store_spec _ limits _ _ _ _ hSha hObjects hCached
        query.toggled _ _ inputProof
        (readReferences_agrees hKept.agrees trivial
          (readKnown_eq_some hOther))
    with ⟨last, final, hFinal, _, _, _⟩
  rw [hFits] at hStore
  rw [hOtherFits] at hFinal
  rcases store_found hCached.accounted hFinal with
    ⟨entry, hEntry⟩
  refine ⟨last, final, entry, ?_, hEntry⟩
  unfold set
  simp only
  rw [hStore]
  simp only [Option.bind_eq_bind, Option.bind_some, if_true]
  rw [hFinal]
  rfl

/- Objects that only the new ones refer to become known. -/
theorem HeapInv.published
    (hHeap : HeapInv heap known)
    (hGrown : Grown heap after) :
    HeapInv after (publish known heap after) := by
  have hOldNot : ∀ address, address < heap.next →
      (decide (heap.next ≤ address)
        && decide (address < after.next)) = false := by
    intro address hOld
    rw [decide_eq_false (Nat.not_le_of_lt hOld)]
    rfl
  have hNewAll : ∀ address,
      heap.next ≤ address → address < after.next →
        (decide (heap.next ≤ address)
          && decide (address < after.next)) = true := by
    intro address hNew hLess
    rw [decide_eq_true hNew, decide_eq_true hLess]
    rfl
  have hBoth := hHeap.grown hGrown
  refine ⟨?_, ?_⟩
  · intro address hKnown
    rcases Bool.or_eq_true_iff.mp hKnown with hOld | hNew
    · exact hBoth.allocated address hOld
    · rw [Bool.and_eq_true] at hNew
      exact of_decide_eq_true hNew.2
  · intro address cell hCell child hChild
    have hChildren :=
      hBoth.separated address cell hCell child hChild
    refine ⟨hChildren.1, ?_⟩
    unfold publish
    by_cases hOld : address < heap.next
    · rcases Heap.exists_cell hOld with ⟨found, hFound⟩
      have hSame := hGrown.kept _ _ hFound
      rw [hCell] at hSame
      injection hSame with hSame
      subst hSame
      have hLess := (hHeap.separated _ _ hFound child hChild).1
      rw [hOldNot _ hOld, hOldNot _ hLess, hChildren.2]
    · have hNew := Nat.le_of_not_lt hOld
      have hFresh :=
        hGrown.fresh address cell hNew hCell child hChild
      rw [hNewAll _ hNew (Heap.lt_next hCell),
        hNewAll _ hFresh.1 hFresh.2, Bool.or_true,
        Bool.or_true]

/- What `getWithProof` returns: a copy of the last answer. -/
theorem getWithProof_spec
    (hSha : Function.Injective sha256)
    (hHeap : HeapInv heap known)
    (hCache :
      CacheInv sha256 limits heap known cache events)
    (query : SemanticReferencesQuery) :
    ∃ next touched found,
      getWithProof sha256 heap cache query =
          some (next, touched, found) ∧
        HeapInv next (publish known heap next) ∧
        CacheInv sha256 limits next (publish known heap next)
          touched events ∧
        ∀ answer ∈ found, ∃ references,
          readReferences next answer.references =
              some references ∧
            latestAccepted (question query) events =
              some references := by
  have hHidden : ∀ {after : Heap} {key : Units}
      {entry : CacheEntry},
      EntryInv sha256 heap known cache.rootGenerations events
          key entry →
        publish known heap after entry.references = false := by
    intro after key entry hEntry
    rcases hEntry.answers with ⟨_, _, _, _, hRead, _, _⟩
    unfold publish
    rw [hEntry.hidden,
      decide_eq_false
        (Nat.not_le_of_lt (lt_of_readReferences hRead))]
    rfl
  unfold getWithProof
  cases hEntry :
      cache.entries.get
        (cacheKey sha256 cache.rootGenerations query) with
  | none =>
    refine
      ⟨heap, cache, none, ?_,
        hHeap.published (Grown.refl heap),
        ⟨?_, hCache.accounted, hCache.bounded⟩, ?_⟩
    · simp only [hEntry]
    · intro key entry hOther
      have hOld := hCache.entries key entry hOther
      have hSame : Kept heap heap := fun _ _ hCell => hCell
      exact hOld.agrees hSame.agrees trivial (hHidden hOld)
    · intro answer hAnswer
      cases hAnswer
  | some entry =>
    have hThis := hCache.entries _ _ hEntry
    rcases hThis.answers with
      ⟨other, references, hKey, _, hRead, _, hLatest⟩
    rcases cloneReferences_spec hRead with
      ⟨next, copy, hClone, hCloned, hCopy⟩
    have hCounts := ReferenceResultCache.touch_counts hEntry
    refine
      ⟨next,
        cache.touch
          (cacheKey sha256 cache.rootGenerations query) entry,
        some ⟨copy, entry.inputProof⟩, ?_,
        hHeap.published hCloned.grown, ⟨?_, ?_, ?_⟩, ?_⟩
    · simp only [hEntry]
      rw [hClone]
      rfl
    · intro key found hFound
      rw [ReferenceResultCache.get_touch hEntry] at hFound
      have hOld := hCache.entries key found hFound
      exact hOld.agrees hCloned.kept.agrees trivial (hHidden hOld)
    · unfold ReferenceResultCache.Accounted
      rw [hCounts.2]
      exact hCache.accounted
    · unfold ReferenceResultCache.Bounded
      rw [hCounts.1]
      exact hCache.bounded
    · intro answer hAnswer
      injection hAnswer with hAnswer
      subst hAnswer
      refine ⟨references, hCopy, ?_⟩
      rw [(cacheKey_eq_iff hSha).mp hKey]
      exact hLatest

end Steps

variable {cell : Cell}

/- A caller makes an object of what it knows. -/
theorem HeapInv.create
    (hHeap : HeapInv heap known)
    (hChildren : cell.children.all known = true) :
    HeapInv (heap.alloc cell).1 fun address =>
      known address || address == heap.next := by
  rw [List.all_eq_true] at hChildren
  have hOldNot : ∀ address, address < heap.next →
      (address == heap.next) = false := by
    intro address hOld
    exact beq_eq_false_iff_ne.mpr (Nat.ne_of_lt hOld)
  refine ⟨?_, ?_⟩
  · intro address hKnown
    rw [Heap.next_alloc]
    rcases Bool.or_eq_true_iff.mp hKnown with hOld | hNew
    · exact Nat.lt_succ_of_lt (hHeap.allocated address hOld)
    · rw [beq_iff_eq.mp hNew]
      exact Nat.lt_succ_self _
  · intro address found hFound child hChild
    rw [Heap.get_alloc] at hFound
    rw [Heap.next_alloc]
    split at hFound
    · rename_i hNew
      injection hFound with hSame
      subst hSame
      have hKnown := hChildren child hChild
      have hLess := hHeap.allocated child hKnown
      rw [hKnown, hNew, beq_self_eq_true, Bool.or_true,
        Bool.true_or]
      exact ⟨Nat.lt_succ_of_lt hLess, rfl⟩
    · have hOld := Heap.lt_next hFound
      have hBoth :=
        hHeap.separated address found hFound child hChild
      rw [hOldNot _ hOld, hOldNot _ hBoth.1, hBoth.2]
      exact ⟨Nat.lt_succ_of_lt hBoth.1, rfl⟩

/- A caller changes an object that it knows. -/
theorem HeapInv.write
    (hHeap : HeapInv heap known)
    (hAddress : known address = true)
    (hChildren : cell.children.all known = true) :
    HeapInv (heap.write address cell) known := by
  rw [List.all_eq_true] at hChildren
  refine ⟨?_, ?_⟩
  · intro other hKnown
    rw [Heap.next_write]
    exact hHeap.allocated other hKnown
  · intro other found hFound child hChild
    rw [Heap.next_write]
    by_cases hSame : other = address
    · subst hSame
      rw [Heap.get_write_self hFound] at hChild
      have hKnown := hChildren child hChild
      exact
        ⟨hHeap.allocated child hKnown, hKnown.trans hAddress.symm⟩
    · rw [Heap.get_write hSame] at hFound
      exact hHeap.separated other found hFound child hChild

/- What the callers do not know does not change. -/
theorem agrees_write
    (hHeap : HeapInv heap known)
    (hAddress : known address = true) :
    Agrees (fun other => known other = false) heap
      (heap.write address cell) := by
  refine ⟨?_, ?_⟩
  · intro other found hHidden hFound
    have hNe : other ≠ address := by
      intro hSame
      rw [hSame, hAddress] at hHidden
      cases hHidden
    rw [Heap.get_write hNe]
    exact hFound
  · intro other found hHidden hFound child hChild
    exact
      (hHeap.separated other found hFound child hChild).2.trans
        hHidden

section Runs

variable {sha256 : Units → Units}
variable {limits : CacheLimits}
variable {cache : ReferenceResultCache}
variable {events : List Event}

/- The invariant after the entries' objects were not changed. -/
theorem CacheInv.agrees
    {known others : Address → Bool}
    {region : Address → Prop}
    (hCache :
      CacheInv sha256 limits heap known cache events)
    (hAgrees : Agrees region heap after)
    (hRegion :
      ∀ address,
        known address = false → address < heap.next →
          region address ∧ others address = false) :
    CacheInv sha256 limits after others cache events := by
  refine ⟨?_, hCache.accounted, hCache.bounded⟩
  intro key entry hEntry
  have hOld := hCache.entries key entry hEntry
  rcases hOld.answers with ⟨_, _, _, _, hRead, _, _⟩
  have hBoth := hRegion _ hOld.hidden (lt_of_readReferences hRead)
  exact hOld.agrees hAgrees hBoth.1 hBoth.2

theorem CacheInv.invalidateRoot
    {heap : Heap}
    {known : Address → Bool}
    (hCache :
      CacheInv sha256 limits heap known cache events)
    (rootId : Units) :
    CacheInv sha256 limits heap known
      (cache.invalidateRoot rootId)
      (.invalidated rootId :: events) := by
  have hWithin :=
    ReferenceResultCache.within_deleteRoot rootId
      cache.entries.entries cache
  have hAccounted :=
    ReferenceResultCache.accounted_deleteRoot rootId
      cache.entries.entries hCache.accounted
  have hSize :=
    ReferenceResultCache.size_deleteRoot rootId
      cache.entries.entries cache
  refine ⟨?_, hAccounted, ?_⟩
  · intro key entry hEntry
    have hOld := hWithin.entries key entry hEntry
    have hOther : entry.rootId ≠ rootId :=
      ReferenceResultCache.deleteRoot_spec hEntry
        (OrderedMap.get_eq_some_iff.mp hOld)
    have hEntryInv := hCache.entries key entry hOld
    rcases hEntryInv.answers with
      ⟨query, references, hKey, hRoot, hRead, hBytes, hLatest⟩
    rw [hRoot] at hOther
    refine
      ⟨hEntryInv.hidden, query, references, ?_, hRoot, hRead,
        hBytes, ?_⟩
    · rw [hKey]
      unfold ReferenceResultCache.invalidateRoot
      rw [cacheKey_set hOther, hWithin.generations]
    · refine Eq.trans ?_ hLatest
      exact if_neg hOther
  · have hBytes :
        (cache.invalidateRoot rootId).bytes ≤ cache.bytes := by
      have hLess := hSize.2
      have hAfter :
          (cache.invalidateRoot rootId).bytes =
            (ReferenceResultCache.deleteRoot rootId
              cache.entries.entries cache).total :=
        hAccounted
      rw [hAfter, hCache.accounted]
      omega
    exact
      ⟨Nat.le_trans hSize.1 hCache.bounded.1,
        Int.le_trans hBytes hCache.bounded.2⟩

/- Every operation keeps the invariant. -/
theorem worldInv_step
    (hSha : Function.Injective sha256)
    {world next : World}
    {operation : Operation}
    (hWorld : WorldInv sha256 limits world)
    (hStep : step sha256 limits world operation = some next) :
    WorldInv sha256 limits next := by
  cases operation with
  | create cell =>
    rw [step] at hStep
    split at hStep
    · rename_i hChildren
      injection hStep with hStep
      subst hStep
      refine
        ⟨hWorld.objects.create hChildren,
          hWorld.cached.agrees
            (kept_alloc world.heap cell).agrees ?_⟩
      intro address hHidden hLess
      refine ⟨trivial, ?_⟩
      simp only
      rw [hHidden, beq_eq_false_iff_ne.mpr (Nat.ne_of_lt hLess)]
      rfl
    · cases hStep
  | write address cell =>
    rw [step] at hStep
    split at hStep
    · rename_i hBoth
      rw [Bool.and_eq_true] at hBoth
      injection hStep with hStep
      subst hStep
      exact
        ⟨hWorld.objects.write hBoth.1 hBoth.2,
          hWorld.cached.agrees
            (agrees_write hWorld.objects hBoth.1)
            (fun _ hHidden _ => ⟨hHidden, hHidden⟩)⟩
    · cases hStep
  | set query result inputProof =>
    rcases Option.bind_eq_some_iff.mp hStep with
      ⟨values, hValues, hRest⟩
    rcases
        @set_spec _ limits hSha _ hWorld query _ inputProof _
          hValues
      with ⟨heap, cache, accepted, hSet, hObjects, hCached⟩
    rw [hSet] at hRest
    injection hRest with hRest
    subst hRest
    exact ⟨hObjects, hCached⟩
  | get query =>
    rcases
        getWithProof_spec hSha hWorld.objects hWorld.cached query
      with ⟨heap, cache, found, hGet, hObjects, hCached, _⟩
    rw [step, hGet] at hStep
    injection hStep with hStep
    subst hStep
    exact ⟨hObjects, hCached⟩
  | invalidateRoot rootId =>
    injection hStep with hStep
    subst hStep
    exact ⟨hWorld.objects, hWorld.cached.invalidateRoot rootId⟩
  | clear =>
    injection hStep with hStep
    subst hStep
    refine ⟨hWorld.objects, ?_, rfl, ?_⟩
    · intro key entry hEntry
      cases hEntry
    · exact ⟨Nat.zero_le _, Int.natCast_nonneg _⟩

variable {address other : Address}
variable {values otherValues : List SemanticReference}

theorem readResult_pair
    {world : World}
    (hValues : readKnown world address = some values)
    (hOther : readKnown world other = some otherValues) :
    readResult world (.complete address (some other)) =
      some (some (values, some otherValues)) := by
  rw [readResult, hValues, hOther]
  rfl

/- An entry that is there is found. -/
theorem getWithProof_found
    {cache touched : ReferenceResultCache}
    {query : SemanticReferencesQuery}
    {entry : CacheEntry}
    {found : Option Found}
    (hEntry :
      cache.entries.get
          (cacheKey sha256 cache.rootGenerations query) =
        some entry)
    (hGet :
      getWithProof sha256 heap cache query =
        some (after, touched, found)) :
    ∃ answer, found = some answer := by
  unfold getWithProof at hGet
  simp only [hEntry] at hGet
  rcases Option.map_eq_some_iff.mp hGet with
    ⟨cloned, _, hSame⟩
  injection hSame with _ hSame
  injection hSame with _ hSame
  exact ⟨_, hSame.symm⟩

/- The variant that was set is the answer to its question. -/
theorem set_variant
    (hSha : Function.Injective sha256)
    {world : World}
    (hWorld : WorldInv sha256 limits world)
    {query : SemanticReferencesQuery}
    {inputProof : Option Units}
    (hValues : readKnown world address = some values)
    (hOther : readKnown world other = some otherValues)
    (hFits : fits limits values inputProof = true)
    (hOtherFits : fits limits otherValues inputProof = true) :
    ∃ next heap cache answer,
      step sha256 limits world
          (.set query (.complete address (some other))
            inputProof) =
        some next ∧
      getWithProof sha256 next.heap next.cache query.toggled =
        some (heap, cache, some answer) ∧
      readReferences heap answer.references =
        some otherValues := by
  rcases
      @set_pair _ limits hSha _ hWorld query _ _ inputProof _ _
        hValues hOther hFits hOtherFits
    with ⟨heap, stored, entry, hSet, hEntry⟩
  have hStep :
      step sha256 limits world
          (.set query (.complete address (some other))
            inputProof) =
        some
          { world with
            heap := heap
            cache := stored
            events :=
              setEvents limits query inputProof
                  (some (values, some otherValues))
                ++ world.events } := by
    rw [step, readResult_pair hValues hOther]
    simp only [Option.bind_eq_bind, Option.bind_some]
    rw [hSet]
    rfl
  have hNext := worldInv_step hSha hWorld hStep
  rcases
      getWithProof_spec hSha hNext.objects hNext.cached
        query.toggled
    with ⟨after, touched, found, hGet, _, _, hFound⟩
  rcases getWithProof_found hEntry hGet with ⟨answer, rfl⟩
  rcases hFound answer rfl with ⟨latest, hLatest, hSame⟩
  refine ⟨_, after, touched, answer, hStep, hGet, ?_⟩
  rw [hLatest, ← hSame]
  simp only [setEvents, hFits, hOtherFits, Bool.and_self,
    List.cons_append]
  exact if_pos rfl

theorem worldInv_start : WorldInv sha256 limits World.start := by
  refine ⟨⟨?_, ?_⟩, ?_, rfl, ?_⟩
  · intro address hKnown
    cases hKnown
  · intro address cell hCell
    cases hCell
  · intro key entry hEntry
    cases hEntry
  · exact ⟨Nat.zero_le _, Int.natCast_nonneg _⟩

theorem worldInv_run
    (hSha : Function.Injective sha256)
    {world final : World}
    {operations : List Operation}
    (hWorld : WorldInv sha256 limits world)
    (hRun : run sha256 limits world operations = some final) :
    WorldInv sha256 limits final := by
  induction operations generalizing world with
  | nil =>
    injection hRun with hSame
    rw [← hSame]
    exact hWorld
  | cons operation operations ih =>
    rcases Option.bind_eq_some_iff.mp hRun with
      ⟨next, hStep, hRest⟩
    exact ih (worldInv_step hSha hWorld hStep) hRest

end Runs

/-
  In every run the bytes are the sum of the sizes of the
  entries, the bounds hold, and an answer is the last one
  that was accepted for its question since its workspace was
  invalidated and the cache was cleared.
-/
theorem cache_refines
    (sha256 : Units → Units)
    (limits : CacheLimits)
    (operations : List Operation)
    (world : World)
    (hSha : Function.Injective sha256)
    (hRun :
      run sha256 limits World.start operations = some world) :
    world.cache.bytes = world.cache.total ∧
      (∀ key entry,
        world.cache.entries.get key = some entry →
          ∃ references,
            readReferences world.heap entry.references =
                some references ∧
              entry.bytes =
                entryBytes references entry.inputProof) ∧
      world.cache.size ≤ limits.maxEntries ∧
      world.cache.bytes ≤ limits.maxBytes ∧
      ∀ query, ∃ heap cache found,
        getWithProof sha256 world.heap world.cache query =
            some (heap, cache, found) ∧
          ∀ answer ∈ found, ∃ references,
            readReferences heap answer.references =
                some references ∧
              latestAccepted (question query) world.events =
                some references := by
  have hWorld :=
    @worldInv_run _ limits hSha _ _ _ worldInv_start hRun
  refine
    ⟨hWorld.cached.accounted, ?_, hWorld.cached.bounded.1,
      hWorld.cached.bounded.2, ?_⟩
  · intro key entry hEntry
    rcases (hWorld.cached.entries key entry hEntry).answers with
      ⟨_, references, _, _, hRead, hBytes, _⟩
    exact ⟨references, hRead, hBytes⟩
  · intro query
    rcases
        getWithProof_spec hSha hWorld.objects hWorld.cached
          query
      with ⟨heap, cache, found, hGet, _, _, hFound⟩
    exact ⟨heap, cache, found, hGet, hFound⟩

----------
-- Answers of Earlier Sets
----------

def sampleReference : SemanticReference :=
  ⟨[0x75], ⟨⟨0, 0⟩, ⟨0, 1⟩⟩⟩

/- An array of one reference at 4, and an empty one at 5. -/
def sampleObjects : List Operation :=
  [.create (.position ⟨0, 0⟩), .create (.position ⟨0, 1⟩),
    .create (.range 0 1), .create (.reference [0x75] 2),
    .create (.array [3]), .create (.array [])]

def sampleQuery (text : Units) : SemanticReferencesQuery :=
  { document :=
      { uri := [0x71]
        version := 1
        text := text
        workspaceId := [0x77] }
    position := ⟨2, 3⟩
    includeDeclaration := true }

def sampleLimits : CacheLimits :=
  ⟨128, 8388608, by decide, by decide⟩

def smallLimits : CacheLimits :=
  ⟨128, 10, by decide, by decide⟩

/- The caller empties the array that it passed. -/
def sampleOperations : List Operation :=
  sampleObjects ++
    [.set (sampleQuery []) (.complete 4 (some 5)) none,
      .write 4 (.array []), .get (sampleQuery [])]

theorem cache_refines_sample :
    ∃ world,
      run id sampleLimits World.start sampleOperations =
          some world ∧
        world.cache.bytes = world.cache.total ∧
        (∀ key entry,
          world.cache.entries.get key = some entry →
            ∃ references,
              readReferences world.heap entry.references =
                  some references ∧
                entry.bytes =
                  entryBytes references entry.inputProof) ∧
        world.cache.size ≤ sampleLimits.maxEntries ∧
        world.cache.bytes ≤ sampleLimits.maxBytes ∧
        ∀ query, ∃ heap cache found,
          getWithProof id world.heap world.cache query =
              some (heap, cache, found) ∧
            ∀ answer ∈ found, ∃ references,
              readReferences heap answer.references =
                  some references ∧
                latestAccepted (question query) world.events =
                  some references := by
  have hSome :
      (run id sampleLimits World.start
        sampleOperations).isSome = true := by
    decide +kernel
  rcases Option.isSome_iff_exists.mp hSome with
    ⟨world, hRun⟩
  exact
    ⟨world, hRun,
      cache_refines id sampleLimits sampleOperations world
        Function.injective_id hRun⟩

/- The answer to a question, and the last one that was set. -/
def answers
    (limits : CacheLimits)
    (operations : List Operation)
    (query : SemanticReferencesQuery) :
    Option
      (Option (List SemanticReference)
        × Option (List SemanticReference)) := do
  let world ← run id limits World.start operations
  let (heap, _, found) ←
    getWithProof id world.heap world.cache query
  pure
    (found.bind fun answer =>
        readReferences heap answer.references,
      latestSet (question query) world.events)

/-
  A refused `set` leaves the earlier answer, and texts that
  differ in halves of surrogate pairs share an answer.
-/
theorem answers_of_other_sets :
    answers smallLimits
          (sampleObjects ++
            [.set (sampleQuery []) (.complete 5 none) none,
              .set (sampleQuery []) (.complete 4 none) none])
          (sampleQuery []) =
        some (some [], some [sampleReference]) ∧
      (answers sampleLimits
          (sampleObjects ++
            [.set (sampleQuery [0xd800]) (.complete 4 none)
              none])
          (sampleQuery [0xd801])).map Prod.fst =
        some (some [sampleReference]) := by
  decide +kernel

----------
-- Answers That Stay
----------

/- What a caller does to its own objects. -/
def Operation.isForeign : Operation → Bool
| .create _ | .write _ _ => true
| _ => false

variable {sha256 : Units → Units} {limits : CacheLimits}

theorem run_foreign
    {later : List Operation}
    (hLater : later.all Operation.isForeign = true)
    {world final : World}
    (hRun : run sha256 limits world later = some final) :
    final.cache = world.cache ∧ final.events = world.events := by
  induction later generalizing world with
  | nil =>
    injection hRun with hSame
    rw [hSame]
    exact ⟨rfl, rfl⟩
  | cons operation later ih =>
    rcases Bool.and_eq_true_iff.mp hLater with ⟨hFirst, hRest⟩
    rcases Option.bind_eq_some_iff.mp hRun with
      ⟨next, hStep, hNext⟩
    have hKept := ih hRest hNext
    cases operation
    case create | write =>
      rw [step] at hStep
      split at hStep
      · injection hStep with hStep
        subst hStep
        exact hKept
      · cases hStep
    all_goals cases hFirst

/-
  An answer that fits is there when it is asked for next,
  with the references that it had when it was set, whatever
  the caller does to its objects in between.
-/
theorem set_then_get
    (hSha : Function.Injective sha256)
    {operations later : List Operation}
    {world final : World}
    (hRun :
      run sha256 limits World.start operations = some world)
    {query : SemanticReferencesQuery}
    {address : Address}
    {values : List SemanticReference}
    {inputProof : Option Units}
    (hValues : readKnown world address = some values)
    (hFits : fits limits values inputProof = true)
    (hLater : later.all Operation.isForeign = true)
    (hFinal :
      run sha256 limits world
          (.set query (.complete address none) inputProof
            :: later) =
        some final) :
    ∃ heap cache answer,
      getWithProof sha256 final.heap final.cache query =
          some (heap, cache, some answer) ∧
        readReferences heap answer.references = some values := by
  have hWorld :=
    @worldInv_run _ limits hSha _ _ _ worldInv_start hRun
  have hEnd := worldInv_run hSha hWorld hFinal
  rcases
      @store_spec _ limits _ _ _ _ hSha hWorld.objects
        hWorld.cached query _ _ inputProof
        (readKnown_eq_some hValues)
    with ⟨heap, stored, hStore, _⟩
  rw [hFits] at hStore
  rcases Option.bind_eq_some_iff.mp hFinal with
    ⟨next, hStep, hRest⟩
  have hRead :
      readResult world (.complete address none) =
        some (some (values, none)) := by
    rw [readResult, hValues]
    rfl
  rw [step, hRead] at hStep
  simp only [Option.bind_eq_bind, Option.bind_some,
    set_single hStore] at hStep
  injection hStep with hStep
  subst hStep
  rcases run_foreign hLater hRest with ⟨hCache, hEvents⟩
  rcases store_found hWorld.cached.accounted hStore with
    ⟨entry, hEntry⟩
  rcases
      getWithProof_spec hSha hEnd.objects hEnd.cached query
    with ⟨after, touched, found, hGet, _, _, hFound⟩
  have hCache : final.cache = stored := hCache
  rw [← hCache] at hEntry
  rcases getWithProof_found hEntry hGet with ⟨answer, rfl⟩
  rcases hFound answer rfl with ⟨latest, hLatest, hSame⟩
  refine ⟨after, touched, answer, hGet, ?_⟩
  rw [hLatest, ← hSame, hEvents]
  simp only [setEvents, hFits]
  exact if_pos rfl

/- The caller empties the array that it passed. -/
theorem set_then_get_sample :
    ∃ world, ∃ final : World, ∃ heap cache answer,
      run id sampleLimits World.start sampleObjects =
          some world ∧
        getWithProof id final.heap final.cache
            (sampleQuery []) =
          some (heap, cache, some answer) ∧
        readReferences heap answer.references =
          some [sampleReference] := by
  have hSome :
      ((run id sampleLimits World.start sampleObjects).bind
        fun world =>
          (run id sampleLimits world
            [.set (sampleQuery []) (.complete 4 none) none,
              .write 4 (.array [])]).map fun _ =>
                readKnown world 4) =
        some (some [sampleReference]) := by
    decide +kernel
  rcases Option.bind_eq_some_iff.mp hSome with
    ⟨world, hRun, hNext⟩
  rcases Option.map_eq_some_iff.mp hNext with
    ⟨final, hFinal, hValues⟩
  rcases
      @set_then_get id sampleLimits Function.injective_id
        sampleObjects [.write 4 (.array [])] _ _ hRun
        (sampleQuery []) 4 [sampleReference] none hValues
        (by decide +kernel) rfl hFinal
    with ⟨heap, cache, answer, hGet, hRead⟩
  exact ⟨world, final, heap, cache, answer, hRun, hGet, hRead⟩

end ReferenceCache

end ArktsServer
