import ArktsServer.Core.SharedTypes
import ArktsServer.Workspace.ContentChanges

/-
  The views of a workspace that compiler contexts consume,
  and the reasons for which a retained context is reset.

  The functions of `node:path` and of the file system are
  parts of a host.  A physical path may change while a file
  is being read, so the second look at it is an operation of
  its own.

  Key definitions include:
    * `Workspace.SemanticWorkspaceView`
    * `Workspace.createSemanticWorkspaceView`
    * `Workspace.synchronizeContextDelta`
    * `Workspace.typeContextResetReason`
-/

namespace ArktsServer

namespace Workspace

----------
-- Views
----------

structure WorkspaceDocument where
  path : Path
  content : String
deriving DecidableEq

structure ProjectMembershipSnapshot where
  paths : List Path
  status : MembershipStatus
  revision : Nat
deriving DecidableEq

structure ChangedDiskInput where
  path : Path
  physicalPath : Path
  token : String
  sourceSha256 : String
deriving DecidableEq

/- The fields that the contexts read, with their sources. -/
structure SemanticWorkspaceView where
  rootPath : Path
  canonicalRootId : Path
  typeEngineResetEpoch : Nat
  overlayPaths : List (Path × Path)
  documents : List WorkspaceDocument
  projectMembership : Option ProjectMembershipSnapshot
  semanticRootPaths : Option (List Path) := none
  removedPaths : List Path
  changedPaths : Option (List Path)
  contentChangedPaths : Option (List Path) := none
  changedDiskInputs : List ChangedDiskInput := []
  contentDelta : Option WorkspaceContentDelta
  contentDeltas : List WorkspaceContentDelta
  contentRevision : Nat
  resetTypeEngine : Bool
deriving DecidableEq

/- What the store captures besides the content changes. -/
structure StoreCapture where
  rootPath : Path
  canonicalRoot : Path
  overlayPaths : List (Path × Path)
  documents : List WorkspaceDocument
  projectMembership : Option ProjectMembershipSnapshot
  removedPaths : List Path
deriving DecidableEq

def createSemanticWorkspaceView
    (capture : StoreCapture)
    (changes : TakenChanges)
    (contentDeltas : List WorkspaceContentDelta) :
    SemanticWorkspaceView :=
  { rootPath := capture.rootPath
    canonicalRootId := capture.canonicalRoot
    typeEngineResetEpoch := changes.typeEngineResetEpoch
    overlayPaths := capture.overlayPaths
    documents := capture.documents
    projectMembership := capture.projectMembership
    removedPaths :=
      (changes.removedPaths ++ capture.removedPaths).dedup
    changedPaths := some changes.changedPaths
    contentDelta := changes.contentDelta
    contentDeltas := contentDeltas
    contentRevision := changes.contentRevision
    resetTypeEngine := changes.resetTypeEngine }

----------
-- Host
----------

/-
  `relativeParts` are the segments of `path.relative`; a
  relative path that is empty has none.
-/
structure PathHost where
  resolve : Path → Path
  relativeParts : Path → Path → List String
  isAbsolute : Path → Path → Bool
  canonicalSourcePath : Path → Path
  canonicalSourcePathAgain : Path → Path
  isWorkspacePhysicalAlias : Path → Path → Path → Path → Bool
  byteLength : String → Nat
  sha256 : String → String

structure ProjectFileAccessPort where
  tokenFor : Path → Nat → Path → Option String
  read : Path → Nat → Path → String → Option String

variable (host : PathHost)

/- The path leaves the root, or is part of a package. -/
def leavesRoot
    (rootPath filePath : Path) :
    Bool :=
  let parts := host.relativeParts rootPath filePath
  parts.isEmpty
    || host.isAbsolute rootPath filePath
    || parts.any (fun part => part = ".." || part = "oh_modules")

----------
-- Changed Disk Documents
----------

def maxDocuments : Nat := 256

def maxBytes : Nat := 8 * 1024 * 1024

/- The documents, inputs and bytes of the delivery so far. -/
structure Delivery where
  documents : List WorkspaceDocument
  changedDiskInputs : List ChangedDiskInput := []
  bytes : Nat
deriving DecidableEq

/- One missing file; `none` gives the whole delivery up. -/
def deliverDiskDocument
    (access : ProjectFileAccessPort)
    (view : SemanticWorkspaceView)
    (membership : ProjectMembershipSnapshot)
    (delivery : Delivery)
    (filePath : Path) :
    Option Delivery :=
  if filePath ∉ membership.paths
      ∨ leavesRoot host view.rootPath filePath then
    none
  else
    let physical := host.canonicalSourcePath filePath
    if filePath ∈ view.overlayPaths.map Prod.snd
        ∨ physical ∈ view.overlayPaths.map Prod.fst
        ∨ host.isWorkspacePhysicalAlias view.rootPath
          view.canonicalRootId filePath physical then
      none
    else
      match access.tokenFor view.canonicalRootId
          membership.revision filePath with
      | none => none
      | some token =>
          match access.read view.canonicalRootId
              membership.revision filePath token with
          | none => none
          | some content =>
              let bytes :=
                delivery.bytes + host.byteLength content
              if maxBytes < bytes
                  ∨ host.canonicalSourcePathAgain filePath
                    ≠ physical then
                none
              else if delivery.documents.length
                  < maxDocuments then
                some
                  { delivery with
                    documents :=
                      delivery.documents
                        ++ [⟨filePath, content⟩]
                    bytes := bytes }
              else
                some
                  { delivery with
                    changedDiskInputs :=
                      delivery.changedDiskInputs
                        ++ [⟨filePath, physical, token,
                          host.sha256 content⟩]
                    bytes := bytes }

variable (view : SemanticWorkspaceView)

def withChangedDiskDocuments
    (access : Option ProjectFileAccessPort) :
    SemanticWorkspaceView :=
  match access, view.projectMembership with
  | some access, some membership =>
      let delivered :=
        view.documents.map
          (fun document => host.resolve document.path)
      let missing :=
        (view.changedPaths.getD []).filter
          (fun file => file ∉ delivered)
      let bytes :=
        view.documents.foldl
          (fun sum document =>
            sum + host.byteLength document.content)
          0
      if membership.status ≠ .complete
          ∨ view.resetTypeEngine
          ∨ view.removedPaths ≠ []
          ∨ missing = []
          ∨ maxDocuments < missing.length
          ∨ maxBytes < bytes then
        view
      else
        match missing.foldlM
            (deliverDiskDocument host access view membership)
            ({ documents := view.documents
               bytes := bytes } : Delivery) with
        | none => view
        | some delivery =>
            { view with
              documents := delivery.documents
              changedDiskInputs :=
                if delivery.changedDiskInputs = [] then
                  view.changedDiskInputs
                else
                  delivery.changedDiskInputs }
  | _, _ => view

----------
-- Replay
----------

/- `Set.add` for all paths of a list. -/
def addPaths
    (paths added : List Path) :
    List Path :=
  added.foldl
    (fun paths path =>
      if path ∈ paths then paths else paths ++ [path])
    paths

/-
  The loop over the history.  `none` is a broken chain, and
  the loop stops where it reaches the view's revision.
-/
def replayDeltas
    (host : PathHost)
    (view : SemanticWorkspaceView) :
    Nat → List Path → List WorkspaceContentDelta →
      Option (Nat × List Path)
| cursor, changed, [] => some (cursor, changed)
| cursor, changed, delta :: deltas =>
    if delta.rootPath ≠ host.resolve view.rootPath
        ∨ delta.fromRevision ≠ cursor
        ∨ delta.toRevision ≤ cursor
        ∨ view.contentRevision < delta.toRevision then
      none
    else
      let next :=
        addPaths changed (delta.changedPaths.map host.resolve)
      if delta.toRevision = view.contentRevision then
        some (delta.toRevision, next)
      else
        replayDeltas host view delta.toRevision next deltas

/- The history from the delta that starts at a revision. -/
def historyFrom
    (revision : Nat)
    (history : List WorkspaceContentDelta) :
    List WorkspaceContentDelta :=
  history.dropWhile
    (fun delta => delta.fromRevision ≠ revision)

/- The files that the semantic roots and inputs ask for. -/
def replayScope
    (compilerInputs : Option (List Path)) :
    Option (List Path) :=
  match view.semanticRootPaths, compilerInputs with
  | some roots, some inputs =>
      some (roots.map host.resolve ++ inputs)
  | _, _ => none

def replayedView
    (compilerInputs : Option (List Path))
    (revision : Nat)
    (changed : List Path) :
    SemanticWorkspaceView :=
  let changedPaths :=
    match replayScope host view compilerInputs with
    | none => changed
    | some scope => changed.filter (fun file => file ∈ scope)
  { view with
    changedPaths := some changedPaths
    contentChangedPaths := some changed
    contentDelta :=
      some
        { rootPath := host.resolve view.rootPath
          fromRevision := revision
          toRevision := view.contentRevision
          changedPaths := changedPaths } }

def synchronizeContextDelta
    (revision : Option Nat)
    (access : Option ProjectFileAccessPort)
    (compilerInputs : Option (List Path)) :
    SemanticWorkspaceView :=
  match revision with
  | none => view
  | some revision =>
      if revision = view.contentRevision
          ∨ view.resetTypeEngine then
        view
      else
        match historyFrom revision view.contentDeltas with
        | [] => view
        | delta :: deltas =>
            match replayDeltas host view revision []
                (delta :: deltas) with
            | none => view
            | some (cursor, changed) =>
                if cursor ≠ view.contentRevision then
                  view
                else
                  withChangedDiskDocuments host
                    (replayedView host view compilerInputs
                      revision changed)
                    access

----------
-- Reset Reasons
----------

structure AppliedContextIdentity where
  ownerId : Path
  resetEpoch : Nat
  appliedContentRevision : Nat
deriving DecidableEq

inductive ResetReason where
| documentStoreReset
| canonicalOwnerChange
| resetEpochChange
| contentRevisionChange
deriving DecidableEq

def hasCompleteDiskDelta
    (appliedRevision : Nat) :
    Bool :=
  let root := host.resolve view.rootPath
  let deliveredPaths :=
    view.documents.map
        (fun document => host.resolve document.path)
      ++ view.changedDiskInputs.map
        (fun input => host.resolve input.path)
  match view.contentDelta, view.changedPaths with
  | some delta, some paths =>
      delta.rootPath = root
        && delta.fromRevision = appliedRevision
        && delta.toRevision = view.contentRevision
        && view.removedPaths.isEmpty
        && (0 < paths.length
          || (view.semanticRootPaths.isSome
            && delta.fromRevision < delta.toRevision))
        && delta.changedPaths = paths
        && paths.all fun filePath =>
          filePath ∈ deliveredPaths
            && !leavesRoot host root filePath
  | _, _ => false

def typeContextResetReason
    (previous : Option AppliedContextIdentity)
    (sessionReuse : Bool) :
    Option ResetReason :=
  match previous with
  | none => none
  | some previous =>
      if view.resetTypeEngine then
        some .documentStoreReset
      else if previous.ownerId ≠ view.canonicalRootId then
        some .canonicalOwnerChange
      else if previous.resetEpoch
          ≠ view.typeEngineResetEpoch then
        some .resetEpochChange
      else if previous.appliedContentRevision
            ≠ view.contentRevision
          ∧ !(sessionReuse
            && hasCompleteDiskDelta host view
              previous.appliedContentRevision) then
        some .contentRevisionChange
      else
        none

end Workspace

end ArktsServer
