import ArktsServer.Core.SharedTypes
import ArktsServer.Lib.OrderedMap
import ArktsServer.Lib.PrefixSearch
import Mathlib.Data.Prod.Lex

/-
  The index of ArkUI string resources: declarations sorted by
  reference, path and position, grouped by reference, and
  searched by prefix.

  Key definitions include:
    * `ArkUIStringResource`, `compareResources`
    * `createSnapshot`, `load`
    * `findByPrefix`, `findExact`
-/

namespace ArktsServer

namespace Resources

----------
-- Resources
----------

/- A string of JavaScript: its UTF-16 code units. -/
abbrev Text := List (Fin 65536)

structure ArkUIStringResource where
  reference : Text
  name : Text
  value : Option Text
  path : Text
  range : SemanticTextRange
deriving DecidableEq

inductive Status where
| ready
| partially
| unavailable
deriving DecidableEq

/- Strings compare by their code units. -/
def less : Text → Text → Bool
| _, [] => false
| [], _ :: _ => true
| unit :: left, other :: right =>
    if unit = other then less left right
    else unit.val < other.val

def startsWith : Text → Text → Bool
| _, [] => true
| [], _ :: _ => false
| unit :: text, other :: start =>
    unit == other && startsWith text start

def ordinalCompare (left right : Text) : Int :=
  if less left right then -1
  else if less right left then 1
  else 0

/- The first difference that is not zero. -/
def compareResources
    (left right : ArkUIStringResource) : Int :=
  let reference :=
    ordinalCompare left.reference right.reference
  if reference ≠ 0 then reference
  else
    let path := ordinalCompare left.path right.path
    if path ≠ 0 then path
    else
      let line :=
        (left.range.startLine : Int) - right.range.startLine
      if line ≠ 0 then line
      else
        (left.range.startColumn : Int)
          - right.range.startColumn

----------
-- Snapshots
----------

structure Snapshot where
  status : Status
  resources : List ArkUIStringResource
  uniqueResources : List ArkUIStringResource
  byReference : OrderedMap Text (List ArkUIStringResource)

/- A declaration joins those of its reference. -/
def addMatch
    (byReference :
      OrderedMap Text (List ArkUIStringResource))
    (resource : ArkUIStringResource) :
    OrderedMap Text (List ArkUIStringResource) :=
  byReference.set resource.reference
    (((byReference.get resource.reference).getD [])
      ++ [resource])

def createSnapshot
    (status : Status)
    (resources : List ArkUIStringResource) : Snapshot :=
  let byReference :=
    resources.foldl addMatch OrderedMap.empty
  { status := status
    resources := resources
    uniqueResources :=
      byReference.values.flatMap fun found =>
        found.head?.toList
    byReference := byReference }

def sortResources
    (resources : List ArkUIStringResource) :
    List ArkUIStringResource :=
  resources.mergeSort fun left right =>
    compareResources left right ≤ 0

----------
-- Loading
----------

structure Limits where
  maxResourceFileBytes : Nat
  maxResourceBytes : Nat
  maxResourceEntries : Nat

/-
  What a file of the discovery turns out to be: it may be no
  file, it may not be readable, and its text may not be what
  it should.
-/
inductive ResourceFile where
| missing
| file (size : Nat)
    (parsed : Option (Status × List ArkUIStringResource))

/- Too much of anything leaves nothing. -/
def loadFiles
    (limits : Limits)
    (status : Status)
    (totalBytes : Nat)
    (resources : List ArkUIStringResource) :
    List ResourceFile → Status × List ArkUIStringResource
| [] => (status, resources)
| .missing :: files =>
    loadFiles limits .unavailable totalBytes resources files
| .file size parsed :: files =>
    if limits.maxResourceFileBytes < size then
      (.partially, [])
    else if limits.maxResourceBytes < totalBytes + size then
      (.partially, [])
    else
      match parsed with
      | none =>
          loadFiles limits .unavailable (totalBytes + size)
            resources files
      | some parsed =>
          if limits.maxResourceEntries
              < resources.length + parsed.2.length then
            (.partially, [])
          else
            loadFiles limits
              (if parsed.1 = .unavailable then .unavailable
                else status)
              (totalBytes + size) (resources ++ parsed.2)
              files

def load
    (limits : Limits)
    (discovered : Status × List ResourceFile) : Snapshot :=
  if discovered.1 ≠ .ready then
    createSnapshot discovered.1 []
  else
    let loaded := loadFiles limits .ready 0 [] discovered.2
    createSnapshot loaded.1 (sortResources loaded.2)

----------
-- Queries
----------

structure PrefixQueryResult where
  status : Status
  isIncomplete : Bool
  resources : List ArkUIStringResource

def maxPrefixQueryResources : Nat := 128

/- A limit that is no positive safe integer is refused. -/
def boundedLimit
    (value : Int)
    (hardMaximum : Nat) : Option Nat :=
  if value < 1 ∨ 9007199254740991 < value then none
  else some (min value.toNat hardMaximum)

def lowerBound
    (resources : List ArkUIStringResource)
    (reference : Text) : Nat :=
  PrefixSearch.firstNot
    (fun middle =>
      less
        ((resources[middle]?.map (·.reference)).getD [])
        reference)
    0 resources.length

def findByPrefix
    (snapshot : Snapshot)
    (referencePrefix : Text)
    (requestedLimit : Int) : Option PrefixQueryResult :=
  (boundedLimit requestedLimit maxPrefixQueryResources).map
    fun limit =>
      let start :=
        lowerBound snapshot.uniqueResources referencePrefix
      let starts := fun resource : ArkUIStringResource =>
        startsWith resource.reference referencePrefix
      let found :=
        PrefixSearch.collect snapshot.uniqueResources starts
          limit start
      { status := snapshot.status
        isIncomplete :=
          snapshot.status != .ready
            || (snapshot.uniqueResources[found.2]?).any starts
        resources := found.1 }

def findExact
    (snapshot : Snapshot)
    (reference : Text) : Status × List ArkUIStringResource :=
  (snapshot.status,
    (snapshot.byReference.get reference).getD [])

end Resources

end ArktsServer
