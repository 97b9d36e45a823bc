import ArktsServer.Core.TokenPlaces
import ArktsServer.Lib.OrderedMap
import ArktsServer.Lib.PathNesting

/-
  `WorkspaceFileChangeCoordinator`: watched file events are
  kept per root until they are drained.  Sources and ArkUI
  resources are two domains; where there are too many paths,
  a flag of the root stands for all paths of a domain.

  Key definitions include:
    * `Host`, `FileText`, `canonicalPath`
    * `workspaceFileDomain`, `isInside`
    * `Coordinator`, `Coordinator.create`
    * `Coordinator.acceptOne`, `Coordinator.drain`
-/

namespace ArktsServer

namespace FileChanges

open UnixPath

----------
-- Paths
----------

/-
  The path of a file URL: the URL has lost its dots, but it
  may have doubled and trailing slashes.
-/
structure FileText where
  text : List Char
  absolute : text.head? = some '/'
  undotted :
    ∀ segment ∈ splitSlash text,
      segment ≠ ['.'] ∧ segment ≠ ['.', '.']

/- What `URL`, `node:url` and the file system answer. -/
structure Host (Uri Url World : Type) where
  URL : Uri → Option Url
  protocol : Url → String
  fileURLToPath : Url → Option FileText
  realpath : World → AbsolutePath → Option AbsolutePath

/- `path.resolve`. -/
def FileText.resolve (file : FileText) : AbsolutePath :=
  ⟨normalSegments file.text, normalSegments_proper file.text⟩

/- `path.dirname`. -/
def dirname (path : AbsolutePath) : AbsolutePath where
  segments := path.segments.dropLast
  proper := fun segment hSegment =>
    path.proper segment (List.dropLast_subset _ hSegment)

/- `path.join` of a directory and the base name of a path. -/
def joinBasename
    (directory path : AbsolutePath) : AbsolutePath where
  segments :=
    directory.segments ++ path.segments.getLast?.toList
  proper := by
    intro segment hSegment
    rcases List.mem_append.mp hSegment with hOwn | hLast
    · exact directory.proper segment hOwn
    · exact
        path.proper segment
          (List.mem_of_getLast? (Option.mem_toList.mp hLast))

/- `path.basename`. -/
def basename (path : List Char) : List Char :=
  (((splitSlash path).filter (!·.isEmpty)).getLast?).getD []

/- `path.extname`: the last dot of the name is not its first. -/
def extname (path : List Char) : List Char :=
  let name := basename path
  let suffix := (name.reverse.takeWhile (· != '.')).reverse
  if name.length ≤ suffix.length + 1
      ∨ name = ['.', '.'] then
    []
  else
    '.' :: suffix

/- The segments of `path.normalize`, counted from the end. -/
def lastSegments (path : List Char) : List (List Char) :=
  (splitSlash (join path [])).reverse

----------
-- Domains
----------

inductive Domain where
| source
| arkuiResource
deriving DecidableEq

inductive Kind where
| created
| changed
| deleted
deriving DecidableEq

def isArkUIStringResourceCandidate
    (path : List Char) : Bool :=
  let segments := lastSegments path
  segments[0]? == some "string.json".toList
    && segments[1]? == some "element".toList
    && (segments[2]?.any (!·.isEmpty))

def isArkUIStringResourcePath (path : List Char) : Bool :=
  let segments := lastSegments path
  segments[0]? == some "string.json".toList
    && segments[1]? == some "element".toList
    && (segments[2]?.any (!·.isEmpty))
    && segments[3]? == some "resources".toList

def isProjectConfiguration (path : List Char) : Bool :=
  let name := basename path
  name == "oh-package.json5".toList
    || name == "oh-package-lock.json5".toList
    || name == "build-profile.json5".toList
    || name == "local.properties".toList

/- An extension of `SOURCE_EXTENSIONS`. -/
def hasSourceExtension (path : List Char) : Bool :=
  extname path == ".ets".toList
    || extname path == ".ts".toList

def workspaceFileDomain (path : List Char) : Option Domain :=
  if isProjectConfiguration path then
    some .source
  else if hasSourceExtension path then
    some .source
  else if isArkUIStringResourceCandidate path then
    some .arkuiResource
  else
    none

def changeKind (type : Int) : Option Kind :=
  if type = 1 then some .created
  else if type = 2 then some .changed
  else if type = 3 then some .deleted
  else none

/- The parent of the root passes too. -/
def isInside (root candidate : AbsolutePath) : Bool :=
  let relative :=
    UnixPath.relative ['/'] root.text candidate.text
  !relative.isEmpty
    && !(['.', '.', '/'].isPrefixOf relative)
    && relative.head? != some '/'

----------
-- Coordinators
----------

structure Root (Uri : Type) where
  uri : Uri
  path : AbsolutePath
  canonicalPath : AbsolutePath
  order : Nat

structure WorkspaceFileEvent (Uri : Type) where
  uri : Uri
  type : Int

structure Change (Uri : Type) where
  uri : Uri
  kind : Kind

structure PendingChange (Uri : Type) extends Change Uri where
  root : Root Uri
  domain : Domain

structure Batch (Uri : Type) where
  rootUri : Uri
  rootDirty : Bool
  configurationChanged : Bool := false
  resourceDirty : Bool := false
  resourceChanged : Bool := false
  changes : List (Change Uri)

structure Coordinator (Uri World : Type) where
  roots : List (Root Uri)
  maxPendingPaths : Nat
  isResourceFile : Option (World → Uri → Uri → Bool)
  pending : OrderedMap (List Char) (PendingChange Uri)
  sourceDirtyRoots : List (List Char)
  configurationChangedRoots : List (List Char)
  resourceDirtyRoots : List (List Char)

/- `Set.prototype.has` and `Set.prototype.add`. -/
def has (set : List (List Char)) (path : List Char) : Bool :=
  set.any (· == path)

def add
    (set : List (List Char))
    (path : List Char) : List (List Char) :=
  if has set path then set else set ++ [path]

section Steps

variable {Uri Url World : Type}

def filePath
    (host : Host Uri Url World)
    (uri : Uri) : Option FileText :=
  match host.URL uri with
  | none => none
  | some parsed =>
      if host.protocol parsed = "file:" then
        host.fileURLToPath parsed
      else
        none

/- A path that is gone is found through its directory. -/
def canonicalPath
    (host : Host Uri Url World)
    (world : World)
    (resolved : AbsolutePath) : AbsolutePath :=
  match host.realpath world resolved with
  | some real => real
  | none =>
      match host.realpath world (dirname resolved) with
      | some directory => joinBasename directory resolved
      | none => resolved

/- A limit that is no positive safe integer is refused. -/
def boundedLimit
    (value : Option Int)
    (hardMaximum : Nat) : Option Nat :=
  match value with
  | none => some hardMaximum
  | some value =>
      if value < 1 ∨ 9007199254740991 < value then
        none
      else
        some (min value.toNat hardMaximum)

namespace Coordinator

variable (host : Host Uri Url World)

def rootsOf
    (world : World)
    (rootUris : List Uri) : List (Root Uri) :=
  (rootUris.zipIdx.filterMap fun entry =>
    (filePath host entry.1).map fun rootPath =>
      { uri := entry.1
        path := rootPath.resolve
        canonicalPath :=
          FileChanges.canonicalPath host world
            rootPath.resolve
        order := entry.2 }).mergeSort
    fun left right =>
      LineIndex.utf16Length right.canonicalPath.text
        ≤ LineIndex.utf16Length left.canonicalPath.text

def create
    (world : World)
    (rootUris : List Uri)
    (maxPendingPaths : Option Int)
    (isResourceFile : Option (World → Uri → Uri → Bool)) :
    Option (Coordinator Uri World) :=
  (boundedLimit maxPendingPaths 1024).map fun limit =>
    { roots := rootsOf host world rootUris
      maxPendingPaths := limit
      isResourceFile := isResourceFile
      pending := OrderedMap.empty
      sourceDirtyRoots := []
      configurationChangedRoots := []
      resourceDirtyRoots := [] }

def isDirty
    (coordinator : Coordinator Uri World)
    (root : Root Uri) : Domain → Bool
| .source =>
    has coordinator.sourceDirtyRoots root.canonicalPath.text
| .arkuiResource =>
    has coordinator.resourceDirtyRoots root.canonicalPath.text

variable (coordinator : Coordinator Uri World)

/- What is pending for the root in the domain is forgotten. -/
def markRootDirty
    (root : Root Uri)
    (domain : Domain) : Coordinator Uri World :=
  let pending :=
    coordinator.pending.filter fun entry =>
      !(entry.2.root.canonicalPath.text
            == root.canonicalPath.text
          && entry.2.domain == domain)
  match domain with
  | .source =>
      { coordinator with
        pending := pending
        sourceDirtyRoots :=
          add coordinator.sourceDirtyRoots
            root.canonicalPath.text }
  | .arkuiResource =>
      { coordinator with
        pending := pending
        resourceDirtyRoots :=
          add coordinator.resourceDirtyRoots
            root.canonicalPath.text }

----------
-- Accepting Events
----------

/- Where the link to a configuration file stands. -/
def linkPath
    (world : World)
    (lexical : AbsolutePath) : AbsolutePath :=
  joinBasename
    (FileChanges.canonicalPath host world (dirname lexical))
    lexical

/- The root that an event belongs to. -/
def rootFor
    (world : World)
    (roots : List (Root Uri))
    (candidate : FileText) : Option (Root Uri) :=
  let lexical := candidate.resolve
  if isProjectConfiguration candidate.text then
    (roots.find? fun entry =>
      isInside entry.path lexical).or
      (roots.find? fun entry =>
        isInside entry.canonicalPath
          (linkPath host world lexical))
  else
    roots.find? fun entry =>
      isInside entry.canonicalPath
        (FileChanges.canonicalPath host world lexical)

def isResource
    (isResourceFile : Option (World → Uri → Uri → Bool))
    (world : World)
    (root : Root Uri)
    (uri : Uri)
    (candidate : FileText) : Bool :=
  match isResourceFile with
  | some isResourceFile => isResourceFile world root.uri uri
  | none => isArkUIStringResourcePath candidate.text

def pendingKey
    (root : Root Uri)
    (lexical : AbsolutePath) : List Char :=
  root.canonicalPath.text ++ '\x00' :: lexical.text

/- Keep a change, or mark the root where there are too many. -/
def enqueue
    (key : List Char)
    (change : PendingChange Uri) : Coordinator Uri World :=
  match coordinator.pending.get key with
  | some existing =>
      { coordinator with
        pending :=
          coordinator.pending.set key
            { existing with
              uri := change.uri
              kind := change.kind } }
  | none =>
      if coordinator.maxPendingPaths
          ≤ coordinator.pending.entries.length then
        coordinator.markRootDirty change.root change.domain
      else
        { coordinator with
          pending := coordinator.pending.set key change }

def acceptOne
    (coordinator : Coordinator Uri World)
    (event : WorkspaceFileEvent Uri × World) :
    Coordinator Uri World :=
  match filePath host event.1.uri, changeKind event.1.type with
  | some candidate, some kind =>
      match
        workspaceFileDomain candidate.text,
        rootFor host event.2 coordinator.roots candidate with
      | some domain, some root =>
          if isProjectConfiguration candidate.text then
            { coordinator with
              configurationChangedRoots :=
                add coordinator.configurationChangedRoots
                  root.canonicalPath.text }.markRootDirty
              root .source
          else if coordinator.isDirty root domain then
            coordinator
          else if domain = .arkuiResource
              ∧ isResource coordinator.isResourceFile event.2
                  root event.1.uri candidate = false then
            coordinator
          else
            coordinator.enqueue
              (pendingKey root candidate.resolve)
              { root := root
                domain := domain
                uri := event.1.uri
                kind := kind }
      | _, _ => coordinator
  | _, _ => coordinator

def accept
    (coordinator : Coordinator Uri World)
    (events : List (WorkspaceFileEvent Uri × World)) :
    Coordinator Uri World :=
  events.foldl (acceptOne host) coordinator

----------
-- Draining
----------

/- The batch of a root that is dirty. -/
def dirtyBatch
    (batches : OrderedMap (List Char) (Batch Uri))
    (root : Root Uri) : OrderedMap (List Char) (Batch Uri) :=
  let rootDirty := coordinator.isDirty root .source
  let resourceDirty := coordinator.isDirty root .arkuiResource
  if !rootDirty && !resourceDirty then
    batches
  else
    batches.set root.canonicalPath.text
      { rootUri := root.uri
        rootDirty := rootDirty
        configurationChanged :=
          has coordinator.configurationChangedRoots
            root.canonicalPath.text
        resourceDirty := resourceDirty
        resourceChanged := resourceDirty
        changes := [] }

/- A pending change goes to the batch of its root. -/
def pendingBatch
    (batches : OrderedMap (List Char) (Batch Uri))
    (change : PendingChange Uri) :
    OrderedMap (List Char) (Batch Uri) :=
  if coordinator.isDirty change.root change.domain then
    batches
  else
    let key := change.root.canonicalPath.text
    let batch :=
      (batches.get key).getD
        { rootUri := change.root.uri
          rootDirty := false
          changes := [] }
    batches.set key
      { batch with
        resourceChanged :=
          batch.resourceChanged
            || change.domain == .arkuiResource
        changes := batch.changes ++ [change.toChange] }

def rootOrder
    (canonicalRoot : List Char) : Nat :=
  ((coordinator.roots.find? fun root =>
    root.canonicalPath.text == canonicalRoot).map
      (·.order)).getD 9007199254740991

def batches
    (coordinator : Coordinator Uri World) :
    OrderedMap (List Char) (Batch Uri) :=
  coordinator.pending.values.foldl coordinator.pendingBatch
    (coordinator.roots.foldl coordinator.dirtyBatch
      OrderedMap.empty)

def drain
    (coordinator : Coordinator Uri World) :
    List (Batch Uri) × Coordinator Uri World :=
  ((coordinator.batches.entries.mergeSort fun left right =>
      coordinator.rootOrder left.1
        ≤ coordinator.rootOrder right.1).map Prod.snd,
    { coordinator with
      pending := OrderedMap.empty
      sourceDirtyRoots := []
      configurationChangedRoots := []
      resourceDirtyRoots := [] })

end Coordinator

end Steps

end FileChanges

end ArktsServer
