import Mathlib.Data.List.Basic
import Mathlib.Logic.Function.Basic

/-
  The content changes of workspace roots: one-shot
  notifications for whoever takes them, and a bounded
  history of compatible revision deltas for consumers that
  keep a compiler context.

  Key definitions include:
    * `Workspace.RootChanges`
    * `Workspace.ContentChanges.advance`
    * `Workspace.ContentChanges.reset`
    * `Workspace.ContentChanges.mark`
    * `Workspace.ContentChanges.take`
    * `Workspace.contentStep`
-/

namespace ArktsServer

namespace Workspace

----------
-- State
----------

abbrev Path := String

structure WorkspaceContentDelta where
  rootPath : Path
  fromRevision : Nat
  toRevision : Nat
  changedPaths : List Path
deriving DecidableEq

/- A delta that has no paths yet. -/
structure ContentSpan where
  rootPath : Path
  fromRevision : Nat
  toRevision : Nat
deriving DecidableEq

/- The sets keep the order in which paths were added. -/
structure RootChanges where
  revision : Nat := 0
  resetEpoch : Nat := 0
  resetRequested : Bool := false
  changed : List Path := []
  removed : List Path := []
  span : Option ContentSpan := none
  spanBlocked : Bool := false
  history : List WorkspaceContentDelta := []
deriving DecidableEq

def maxDeltaHistory : Nat := 32

inductive MarkKind where
| removed
| changed
deriving DecidableEq

/- What `take` returns. -/
structure TakenChanges where
  contentRevision : Nat
  typeEngineResetEpoch : Nat
  resetTypeEngine : Bool
  changedPaths : List Path
  removedPaths : List Path
  contentDelta : Option WorkspaceContentDelta
deriving DecidableEq

----------
-- One Root
----------

namespace RootChanges

variable (changes : RootChanges)

/- The span cannot be continued by an advance. -/
def breaksSpan
    (compatible : Path) :
    Bool :=
  compatible = ""
    || changes.spanBlocked
    || changes.resetRequested
    || changes.span.any
      (fun span => span.rootPath ≠ compatible)

def advance
    (compatibleLexicalRoot : Option Path) :
    RootChanges :=
  let compatible := compatibleLexicalRoot.getD ""
  if changes.breaksSpan compatible then
    { changes with
      revision := changes.revision + 1
      span := none
      spanBlocked := true
      history := [] }
  else
    { changes with
      revision := changes.revision + 1
      span :=
        some
          { rootPath := compatible
            fromRevision :=
              (changes.span.map
                ContentSpan.fromRevision).getD
                  changes.revision
            toRevision := changes.revision + 1 } }

def reset
    (changes : RootChanges) :
    RootChanges :=
  if changes.resetRequested then
    changes
  else
    { changes with
      resetRequested := true
      resetEpoch := changes.resetEpoch + 1
      history := [] }

def paths
    (changes : RootChanges) :
    MarkKind → List Path
| .removed => changes.removed
| .changed => changes.changed

def setPaths
    (kind : MarkKind)
    (paths : List Path) :
    RootChanges :=
  match kind with
  | .removed => { changes with removed := paths }
  | .changed => { changes with changed := paths }

def mark
    (filePath : Path)
    (kind : MarkKind)
    (maximum : Nat) :
    RootChanges :=
  if changes.resetRequested then
    changes
  else if filePath ∉ changes.paths kind
      ∧ maximum ≤ (changes.paths kind).length then
    (changes.setPaths kind []).reset
  else if filePath ∈ changes.paths kind then
    changes
  else
    changes.setPaths kind (changes.paths kind ++ [filePath])

/- The delta of the changes, if they have one. -/
def contentDelta
    (changes : RootChanges) :
    Option WorkspaceContentDelta :=
  match changes.span with
  | none => none
  | some span =>
      if !changes.resetRequested
          && changes.removed.isEmpty then
        some
          { rootPath := span.rootPath
            fromRevision := span.fromRevision
            toRevision := span.toRevision
            changedPaths := changes.changed }
      else
        none

def deltaPaths
    (history : List WorkspaceContentDelta) :
    Nat :=
  history.foldr
    (fun delta total => delta.changedPaths.length + total) 0

/- The loop that shifts the oldest deltas out. -/
def trimHistory
    (maxChanged : Nat) :
    List WorkspaceContentDelta → List WorkspaceContentDelta
| [] => []
| delta :: history =>
    if maxDeltaHistory < (delta :: history).length
        ∨ maxChanged < deltaPaths (delta :: history) then
      trimHistory maxChanged history
    else
      delta :: history

/- The history once a delta has been taken. -/
def nextHistory
    (maxChanged : Nat)
    (history : List WorkspaceContentDelta)
    (delta : WorkspaceContentDelta) :
    List WorkspaceContentDelta :=
  let kept :=
    match history.getLast? with
    | none => history
    | some previous =>
        if previous.toRevision ≠ delta.fromRevision
            ∨ previous.rootPath ≠ delta.rootPath then
          []
        else
          history
  trimHistory maxChanged (kept ++ [delta])

def taken
    (changes : RootChanges) :
    TakenChanges :=
  { contentRevision := changes.revision
    typeEngineResetEpoch := changes.resetEpoch
    resetTypeEngine := changes.resetRequested
    changedPaths := changes.changed
    removedPaths := changes.removed
    contentDelta := changes.contentDelta }

/- What `take` leaves behind. -/
def clear
    (maxChanged : Nat)
    (changes : RootChanges) :
    RootChanges :=
  { changes with
    changed := []
    removed := []
    resetRequested := false
    span := none
    spanBlocked := false
    history :=
      match changes.contentDelta with
      | none => changes.history
      | some delta =>
          nextHistory maxChanged changes.history delta }

end RootChanges

----------
-- All Roots
----------

structure ContentChanges where
  maxRemoved : Nat
  maxChanged : Nat
  roots : Path → Option RootChanges := fun _ => none

namespace ContentChanges

/- `root`, which gives a new root its first changes. -/
def root
    (changes : ContentChanges)
    (root : Path) :
    RootChanges :=
  (changes.roots root).getD {}

variable (changes : ContentChanges)

def setRoot
    (root : Path)
    (next : RootChanges) :
    ContentChanges :=
  { changes with
    roots := Function.update changes.roots root (some next) }

def advance
    (changes : ContentChanges)
    (root : Path)
    (compatibleLexicalRoot : Option Path) :
    ContentChanges :=
  changes.setRoot root
    ((changes.root root).advance compatibleLexicalRoot)

def hasReset
    (root : Path) :
    Bool :=
  (changes.roots root).any RootChanges.resetRequested

def reset
    (changes : ContentChanges)
    (root : Path) :
    ContentChanges :=
  changes.setRoot root (changes.root root).reset

/- The bound on the marks of a kind. -/
def maximum
    (changes : ContentChanges) :
    MarkKind → Nat
| .removed => changes.maxRemoved
| .changed => changes.maxChanged

def mark
    (changes : ContentChanges)
    (root filePath : Path)
    (kind : MarkKind) :
    ContentChanges :=
  changes.setRoot root
    ((changes.root root).mark filePath kind
      (changes.maximum kind))

def markRemoved
    (root filePath : Path) :
    ContentChanges :=
  changes.mark root filePath .removed

def markChanged
    (root filePath : Path) :
    ContentChanges :=
  changes.mark root filePath .changed

/- A root that nothing has touched is not made by `take`. -/
def take
    (root : Path) :
    TakenChanges × ContentChanges :=
  match changes.roots root with
  | none => (({} : RootChanges).taken, changes)
  | some rootChanges =>
      (rootChanges.taken,
        changes.setRoot root
          (rootChanges.clear changes.maxChanged))

def history
    (changes : ContentChanges)
    (root : Path) :
    List WorkspaceContentDelta :=
  ((changes.roots root).map RootChanges.history).getD []

end ContentChanges

----------
-- Steps
----------

/- What the document store does with the content changes. -/
inductive ContentOperation where
| advance
    (root : Path)
    (compatibleLexicalRoot : Option Path)
| reset (root : Path)
| mark (kind : MarkKind) (root filePath : Path)
| take (root : Path)
deriving DecidableEq

def contentStep
    (changes : ContentChanges) :
    ContentOperation → ContentChanges
| .advance root compatible => changes.advance root compatible
| .reset root => changes.reset root
| .mark .removed root filePath =>
    changes.markRemoved root filePath
| .mark .changed root filePath =>
    changes.markChanged root filePath
| .take root => (changes.take root).2

end Workspace

end ArktsServer
