import ArktsServer.Core.SharedTypes
import ArktsServer.Lib.JsonReading
import ArktsServer.Lib.OrderedMap

/-
  `ReferenceResultCache`: complete answers to questions for
  references, bounded by their number and their bytes.  The
  answers are arrays of objects that callers may change, so
  they live in a heap, and the cache keeps copies.

  Key definitions include:
    * `Heap`, `cloneReferences`, `readReferences`
    * `cacheKey`
    * `ReferenceResultCache.getWithProof`
    * `ReferenceResultCache.set`
    * `Operation`, `step`, `run`
-/

namespace ArktsServer

namespace ReferenceCache

open JsonText

----------
-- Objects
----------

@[ext] structure TextPosition where
  line : Nat
  character : Nat
deriving DecidableEq

structure TextRange where
  start : TextPosition
  stop : TextPosition
deriving DecidableEq

structure SemanticReference where
  uri : Units
  range : TextRange
deriving DecidableEq

abbrev Address := Nat

/- The objects of an array of references. -/
inductive Cell where
| position (position : TextPosition)
| range (start stop : Address)
| reference (uri : Units) (range : Address)
| array (items : List Address)
deriving DecidableEq

/- The objects that an object refers to. -/
def Cell.children : Cell → List Address
| .position _ => []
| .range start stop => [start, stop]
| .reference _ extent => [extent]
| .array items => items

structure Heap where
  cells : List Cell

namespace Heap

def get (heap : Heap) (address : Address) : Option Cell :=
  heap.cells[address]?

def next (heap : Heap) : Address :=
  heap.cells.length

def alloc (heap : Heap) (cell : Cell) : Heap × Address :=
  (⟨heap.cells ++ [cell]⟩, heap.next)

def write
    (heap : Heap)
    (address : Address)
    (cell : Cell) : Heap :=
  ⟨heap.cells.set address cell⟩

def position
    (heap : Heap)
    (address : Address) : Option TextPosition :=
  match heap.get address with
  | some (.position position) => some position
  | _ => none

def range
    (heap : Heap)
    (address : Address) : Option (Address × Address) :=
  match heap.get address with
  | some (.range start stop) => some (start, stop)
  | _ => none

def reference
    (heap : Heap)
    (address : Address) : Option (Units × Address) :=
  match heap.get address with
  | some (.reference uri range) => some (uri, range)
  | _ => none

def array
    (heap : Heap)
    (address : Address) : Option (List Address) :=
  match heap.get address with
  | some (.array items) => some items
  | _ => none

end Heap

variable (heap : Heap)

/- What a caller sees who follows all properties. -/
def readReference
    (address : Address) : Option SemanticReference := do
  let (uri, range) ← heap.reference address
  let (start, stop) ← heap.range range
  let start ← heap.position start
  let stop ← heap.position stop
  pure ⟨uri, ⟨start, stop⟩⟩

def readItems
    (heap : Heap) :
    List Address → Option (List SemanticReference)
| [] => some []
| item :: items => do
    let reference ← readReference heap item
    let references ← readItems heap items
    pure (reference :: references)

def readReferences
    (address : Address) : Option (List SemanticReference) := do
  let items ← heap.array address
  readItems heap items

/- `{ ...position }`. -/
def clonePosition
    (address : Address) : Option (Heap × Address) := do
  let position ← heap.position address
  pure (heap.alloc (.position position))

def cloneReference
    (address : Address) : Option (Heap × Address) := do
  let (uri, range) ← heap.reference address
  let (start, stop) ← heap.range range
  let (heap, newStart) ← clonePosition heap start
  let (heap, newStop) ← clonePosition heap stop
  let (heap, newRange) := heap.alloc (.range newStart newStop)
  pure (heap.alloc (.reference uri newRange))

def cloneItems :
    Heap → List Address → Option (Heap × List Address)
| heap, [] => some (heap, [])
| heap, item :: items => do
    let (heap, copy) ← cloneReference heap item
    let (heap, copies) ← cloneItems heap items
    pure (heap, copy :: copies)

/- A `TypeError` is no result. -/
def cloneReferences
    (address : Address) : Option (Heap × Address) := do
  let items ← heap.array address
  let (heap, copies) ← cloneItems heap items
  pure (heap.alloc (.array copies))

----------
-- Texts
----------

def asciiUnits (text : String) : Units :=
  text.toList.map fun char => UInt16.ofNat char.toNat

/- `JSON.stringify` of an object with these properties. -/
def recordText (fields : List (String × Units)) : Units :=
  0x7b ::
    (commaJoin
        (fields.map fun field =>
          quote (asciiUnits field.1) ++ 0x3a :: field.2)
      ++ [0x7d])

def arrayText (items : List Units) : Units :=
  0x5b :: (commaJoin items ++ [0x5d])

def positionText (position : TextPosition) : Units :=
  recordText
    [("line", naturalText position.line),
      ("character", naturalText position.character)]

def referenceText (reference : SemanticReference) : Units :=
  recordText
    [("uri", quote reference.uri),
      ("range",
        recordText
          [("start", positionText reference.range.start),
            ("end", positionText reference.range.stop)])]

/- `Buffer.byteLength(JSON.stringify(references))`. -/
def byteLength (references : List SemanticReference) : Nat :=
  utf8Length (arrayText (references.map referenceText))

def entryBytes
    (references : List SemanticReference)
    (inputProof : Option Units) : Nat :=
  byteLength references
    + (match inputProof with
      | none => 0
      | some proof => utf8Length proof)

----------
-- Questions
----------

structure DocumentSnapshot where
  uri : Units
  version : Int
  text : Units
  workspaceId : Units
deriving DecidableEq

structure SemanticReferencesQuery where
  document : DocumentSnapshot
  position : TextPosition
  includeDeclaration : Bool
deriving DecidableEq

/- The same question with the other flag. -/
def SemanticReferencesQuery.toggled
    (query : SemanticReferencesQuery) :
    SemanticReferencesQuery :=
  { query with
    includeDeclaration := !query.includeDeclaration }

/- The arrays are addresses of the heap. -/
inductive SemanticReferencesOutcome where
| complete
    (references : Address)
    (otherReferences : Option Address)
| incomplete (reason : FailureReason)
deriving DecidableEq

/-
  The digest of a text in hexadecimal: `update` writes a text
  in UTF-8, which replaces every half of a surrogate pair.
-/
def createHash
    (sha256 : Units → Units)
    (text : Units) : Units :=
  sha256 (toWellFormed text)

def cacheKey
    (sha256 : Units → Units)
    (rootGenerations : OrderedMap Units Nat)
    (query : SemanticReferencesQuery) : Units :=
  createHash sha256
    (arrayText
      [quote query.document.workspaceId,
        naturalText
          ((rootGenerations.get
            query.document.workspaceId).getD 0),
        quote query.document.uri,
        integerText query.document.version,
        quote (createHash sha256 query.document.text),
        naturalText query.position.line,
        naturalText query.position.character,
        booleanText query.includeDeclaration])

----------
-- Cache
----------

/- The constructor refuses other limits. -/
structure CacheLimits where
  maxEntries : Nat
  maxBytes : Nat
  hEntries : 1 ≤ maxEntries
  hBytes : 1 ≤ maxBytes

structure CacheEntry where
  rootId : Units
  bytes : Nat
  references : Address
  inputProof : Option Units
deriving DecidableEq

structure ReferenceResultCache where
  entries : OrderedMap Units CacheEntry
  rootGenerations : OrderedMap Units Nat
  bytes : Int

namespace ReferenceResultCache

def empty : ReferenceResultCache :=
  ⟨OrderedMap.empty, OrderedMap.empty, 0⟩

def size (cache : ReferenceResultCache) : Nat :=
  cache.entries.entries.length

def delete
    (cache : ReferenceResultCache)
    (key : Units) : ReferenceResultCache :=
  match cache.entries.get key with
  | none => cache
  | some entry =>
      { cache with
        entries := cache.entries.delete key
        bytes := cache.bytes - entry.bytes }

/- The loop of `#evict`; there are that many entries. -/
def evictFrom
    (limits : CacheLimits) :
    Nat → ReferenceResultCache → ReferenceResultCache
| 0, cache => cache
| fuel + 1, cache =>
    if limits.maxEntries < cache.size
        ∨ (limits.maxBytes : Int) < cache.bytes then
      match cache.entries.keys.head? with
      | none => cache
      | some oldest =>
          evictFrom limits fuel (cache.delete oldest)
    else
      cache

def evict
    (limits : CacheLimits)
    (cache : ReferenceResultCache) : ReferenceResultCache :=
  evictFrom limits (cache.size + 1) cache

variable (cache : ReferenceResultCache)

/- A new entry comes last. -/
def insert
    (key : Units)
    (entry : CacheEntry) : ReferenceResultCache :=
  let cache := cache.delete key
  { cache with
    entries := cache.entries.set key entry
    bytes := cache.bytes + entry.bytes }

/- The entry that was read comes last. -/
def touch
    (key : Units)
    (entry : CacheEntry) : ReferenceResultCache :=
  { cache with
    entries := (cache.entries.delete key).set key entry }

/- The entries of a root, deleted one after the other. -/
def deleteRoot
    (rootId : Units) :
    List (Units × CacheEntry) →
      ReferenceResultCache → ReferenceResultCache
| [], cache => cache
| (key, entry) :: entries, cache =>
    deleteRoot rootId entries
      (if entry.rootId = rootId then cache.delete key
        else cache)

def invalidateRoot
    (rootId : Units) : ReferenceResultCache :=
  let cache := deleteRoot rootId cache.entries.entries cache
  { cache with
    rootGenerations :=
      cache.rootGenerations.set rootId
        ((cache.rootGenerations.get rootId).getD 0 + 1) }

end ReferenceResultCache

/- What `getWithProof` returns of an entry. -/
structure Found where
  references : Address
  inputProof : Option Units

section Cache

variable (sha256 : Units → Units)
variable (limits : CacheLimits)

def getWithProof
    (heap : Heap)
    (cache : ReferenceResultCache)
    (query : SemanticReferencesQuery) :
    Option (Heap × ReferenceResultCache × Option Found) :=
  let key := cacheKey sha256 cache.rootGenerations query
  match cache.entries.get key with
  | none => some (heap, cache, none)
  | some entry =>
      (cloneReferences heap entry.references).map
        fun cloned =>
          (cloned.1, cache.touch key entry,
            some ⟨cloned.2, entry.inputProof⟩)

/- `set` without the other references. -/
def store
    (heap : Heap)
    (cache : ReferenceResultCache)
    (query : SemanticReferencesQuery)
    (references : Address)
    (inputProof : Option Units) :
    Option (Heap × ReferenceResultCache × Bool) := do
  let key := cacheKey sha256 cache.rootGenerations query
  let cloned ← cloneReferences heap references
  let values ← readReferences cloned.1 cloned.2
  let bytes := entryBytes values inputProof
  if limits.maxBytes < bytes then
    pure (cloned.1, cache, false)
  else
    pure
      (cloned.1,
        (cache.insert key
          { rootId := query.document.workspaceId
            bytes := bytes
            references := cloned.2
            inputProof := inputProof }).evict limits,
        true)

def set
    (heap : Heap)
    (cache : ReferenceResultCache)
    (query : SemanticReferencesQuery)
    (result : SemanticReferencesOutcome)
    (inputProof : Option Units) :
    Option (Heap × ReferenceResultCache × Bool) :=
  match result with
  | .incomplete _ => some (heap, cache, false)
  | .complete references otherReferences => do
      let (heap, cache, stored) ←
        store sha256 limits heap cache query references
          inputProof
      if stored then
        match otherReferences with
        | none => pure (heap, cache, true)
        | some other =>
            let (heap, cache, _) ←
              store sha256 limits heap cache query.toggled
                other inputProof
            pure (heap, cache, true)
      else
        pure (heap, cache, false)

end Cache

----------
-- Runs
----------

/- What an answer is for: hashing replaces lone surrogates. -/
structure Question where
  workspaceId : Units
  uri : Units
  version : Int
  text : Units
  position : TextPosition
  includeDeclaration : Bool
deriving DecidableEq

def question (query : SemanticReferencesQuery) : Question :=
  { workspaceId := query.document.workspaceId
    uri := query.document.uri
    version := query.document.version
    text := toWellFormed query.document.text
    position := query.position
    includeDeclaration := query.includeDeclaration }

/- What has happened to the cache; the values are copies. -/
inductive Event where
| set
    (question : Question)
    (references : List SemanticReference)
    (accepted : Bool)
| invalidated (rootId : Units)
| cleared

/- Whether an event is not a refused `set`. -/
def Event.accepted : Event → Bool
| .set _ _ accepted => accepted
| .invalidated _ => true
| .cleared => true

/- The references of the last `set`, newest events first. -/
def latestSet
    (asked : Question) :
    List Event → Option (List SemanticReference)
| [] => none
| .set answered references _ :: events =>
    if answered = asked then some references
    else latestSet asked events
| .invalidated rootId :: events =>
    if asked.workspaceId = rootId then none
    else latestSet asked events
| .cleared :: _ => none

/- The references of the last `set` that was not refused. -/
def latestAccepted
    (asked : Question)
    (events : List Event) :
    Option (List SemanticReference) :=
  latestSet asked (events.filter Event.accepted)

/-
  The callers, who can reach and change the objects that they
  know, and the cache.
-/
structure World where
  heap : Heap
  known : Address → Bool
  cache : ReferenceResultCache
  events : List Event

def World.start : World :=
  { heap := ⟨[]⟩
    known := fun _ => false
    cache := ReferenceResultCache.empty
    events := [] }

inductive Operation where
| create (cell : Cell)
| write (address : Address) (cell : Cell)
| set
    (query : SemanticReferencesQuery)
    (result : SemanticReferencesOutcome)
    (inputProof : Option Units)
| get (query : SemanticReferencesQuery)
| invalidateRoot (rootId : Units)
| clear

/- An array that a caller can pass, as values. -/
def readKnown
    (world : World)
    (address : Address) : Option (List SemanticReference) :=
  if world.known address then
    readReferences world.heap address
  else
    none

/- The references of a result and the other references. -/
abbrev ResultValues :=
  List SemanticReference × Option (List SemanticReference)

def readResult
    (world : World) :
    SemanticReferencesOutcome →
      Option (Option ResultValues)
| .incomplete _ => some none
| .complete references none =>
    (readKnown world references).map fun values =>
      some (values, none)
| .complete references (some other) => do
    let values ← readKnown world references
    let otherValues ← readKnown world other
    pure (some (values, some otherValues))

def fits
    (limits : CacheLimits)
    (values : List SemanticReference)
    (inputProof : Option Units) : Bool :=
  decide (entryBytes values inputProof ≤ limits.maxBytes)

/- A result with a variant is a `set` of two answers. -/
def setEvents
    (limits : CacheLimits)
    (query : SemanticReferencesQuery)
    (inputProof : Option Units) :
    Option ResultValues → List Event
| none => []
| some (values, none) =>
    [.set (question query) values (fits limits values inputProof)]
| some (values, some other) =>
    [.set (question query.toggled) other
        (fits limits values inputProof
          && fits limits other inputProof),
      .set (question query) values
        (fits limits values inputProof)]

/- What is known after the new objects have become known. -/
def publish
    (known : Address → Bool)
    (heap after : Heap)
    (address : Address) : Bool :=
  known address
    || (decide (heap.next ≤ address)
      && decide (address < after.next))

section Runs

variable (sha256 : Units → Units)
variable (limits : CacheLimits)

/- `none` where a caller cannot do this. -/
def step (world : World) : Operation → Option World
| .create cell =>
    if cell.children.all world.known then
      some
        { world with
          heap := (world.heap.alloc cell).1
          known := fun address =>
            world.known address || address == world.heap.next }
    else
      none
| .write address cell =>
    if world.known address
        && cell.children.all world.known then
      some { world with heap := world.heap.write address cell }
    else
      none
| .set query result inputProof => do
    let values ← readResult world result
    let (heap, cache, _) ←
      set sha256 limits world.heap world.cache query result
        inputProof
    pure
      { world with
        heap := heap
        cache := cache
        events :=
          setEvents limits query inputProof values
            ++ world.events }
| .get query => do
    let (heap, cache, _) ←
      getWithProof sha256 world.heap world.cache query
    pure
      { world with
        heap := heap
        known := publish world.known world.heap heap
        cache := cache }
| .invalidateRoot rootId =>
    some
      { world with
        cache := world.cache.invalidateRoot rootId
        events := .invalidated rootId :: world.events }
| .clear =>
    some
      { world with
        cache := ReferenceResultCache.empty
        events := .cleared :: world.events }

def run (world : World) : List Operation → Option World
| [] => some world
| operation :: operations =>
    (step sha256 limits world operation).bind fun next =>
      run next operations

end Runs

end ReferenceCache

end ArktsServer
