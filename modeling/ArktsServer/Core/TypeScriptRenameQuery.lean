import ArktsServer.Core.TypeScriptReferenceQuery

/-
  `queryTypeScriptRename`: the edits of a rename, which are
  published only when every place is one of the workspace and
  no two neighbours of the sorted edits overlap.

  Key definitions include:
    * `Edit`, `RenameQueryPort`, `Query`
    * `compareTextEdits`, `hasOverlappingEdits`
    * `collectEdits`, `publishEdits`
    * `queryTypeScriptRename`
-/

namespace ArktsServer

namespace RenameQuery

open UnixPath References ReferenceQuery

----------
-- Answers
----------

structure Edit where
  path : FilePath
  range : SemanticTextRange
  newText : CodeText
  expectedVersion : Option Int
deriving DecidableEq

inductive SemanticRenameQueryResult where
| complete (edits : List Edit)
| incomplete (reason : FailureReason)
| unavailable
| invalidName
deriving DecidableEq

structure RenameLocation where
  fileName : FilePath
  textSpan : TextSpan
  prefixText : Option CodeText
  suffixText : Option CodeText

inductive RenameConflict where
| none
| conflict
| indeterminate
deriving DecidableEq

structure RenameInfo where
  canRename : Bool
  triggerStart : Int

/-
  Every call may have another answer: the number is that of
  the call.  A failing checkpoint throws, and the check of
  the inputs first makes some checkpoints.  All views are
  those of source documents, which are their texts.
-/
structure RenameQueryPort where
  cwd : FilePath
  rootPath : FilePath
  checkpointFails : Nat → Bool
  isIdentifierText : CodeText → Bool
  querySource :
    Nat → FilePath → Option (CodeText × Option Int)
  sourceView : Nat → FilePath → Option CodeText
  membershipFailure : Nat → Option FailureReason
  inputsAreCurrent : Nat → Nat × Bool
  getRenameInfo : Nat → FilePath → Int → RenameInfo
  preflightRenameConflict :
    Nat → FilePath → Int → CodeText → RenameConflict
  findRenameLocations :
    Nat → FilePath → Int → Option (List RenameLocation)

/- A query has thrown, or it has its result. -/
inductive Stop where
| thrown
| finished (result : SemanticRenameQueryResult)
deriving DecidableEq

abbrev Query (α : Type) := StateT Work (Except Stop) α

def viewOfText (text : CodeText) : ReferenceSourceView :=
  ⟨text, createSourceDocument text⟩

----------
-- Comparing Edits
----------

section Query

variable {Collation : Type} [LinearOrder Collation]

/- Paths may be told apart without collating apart. -/
def localeCompare
    (collate : FilePath → Collation)
    (left right : FilePath) : Int :=
  if collate left < collate right then -1
  else if collate right < collate left then 1
  else 0

def compareTextEdits
    (collate : FilePath → Collation)
    (left right : Edit) : Int :=
  let path := localeCompare collate left.path right.path
  let startLine :=
    (left.range.startLine : Int) - right.range.startLine
  let startColumn :=
    (left.range.startColumn : Int) - right.range.startColumn
  let endLine :=
    (left.range.endLine : Int) - right.range.endLine
  if path ≠ 0 then path
  else if startLine ≠ 0 then startLine
  else if startColumn ≠ 0 then startColumn
  else if endLine ≠ 0 then endLine
  else (left.range.endColumn : Int) - right.range.endColumn

def sortEdits
    (collate : FilePath → Collation)
    (edits : List Edit) : List Edit :=
  edits.insertionSort fun left right =>
    compareTextEdits collate left right ≤ 0

----------
-- Cooperative Work
----------

variable (port : RenameQueryPort)

/- A call of the port. -/
def ask {α : Type} (answer : Nat → α) : Query α :=
  fun work => .ok (answer work.clock, work.tick)

def boundary : Query Unit :=
  fun work =>
    if port.checkpointFails work.clock then .error .thrown
    else .ok ((), ⟨work.clock + 1, 0⟩)

def item : Query Unit :=
  fun work =>
    if work.unitsSinceCheckpoint + 1 < checkpointInterval then
      .ok ((),
        { work with
          unitsSinceCheckpoint :=
            work.unitsSinceCheckpoint + 1 })
    else
      boundary port work

def times (action : Query Unit) : Nat → Query Unit
| 0 => pure ()
| count + 1 => do
    action
    times action count

/- `work.finish`. -/
def finishWork
    {α : Type}
    (result : SemanticRenameQueryResult) : Query α := do
  boundary port
  throw (.finished result)

/- The result counts only while the inputs are current. -/
def checkInputs : Query Unit := do
  let current ← ask port.inputsAreCurrent
  times (boundary port) current.1
  if current.2 then pure () else throw .thrown

def finish
    {α : Type}
    (result : SemanticRenameQueryResult) : Query α := do
  checkInputs port
  finishWork port result

/- The first check of a query, before the inputs count. -/
def startMembership : Query Unit := do
  match ← ask port.membershipFailure with
  | some reason => finishWork port (.incomplete reason)
  | none => pure ()

def checkMembership : Query Unit := do
  match ← ask port.membershipFailure with
  | some reason => finish port (.incomplete reason)
  | none => pure ()

----------
-- Edits
----------

/- Only neighbours are compared. -/
def hasOverlappingEdits : List Edit → Query Bool
| [] => pure false
| [_] => pure false
| previous :: current :: edits => do
    item port
    if previous.path ≠ current.path then
      hasOverlappingEdits (current :: edits)
    else if current.range.startLine < previous.range.endLine
        ∨ current.range.startLine = previous.range.endLine
          ∧ current.range.startColumn
            < previous.range.endColumn then
      pure true
    else
      hasOverlappingEdits (current :: edits)

/- The root of a rename is resolved first. -/
def within (filePath : FilePath) : Bool :=
  staysBelow
    (relative port.cwd (resolve port.cwd port.rootPath)
      filePath)

/- What the loop over the locations has collected. -/
structure Collected where
  sourceViews : OrderedMap FilePath ReferenceSourceView
  edits : List Edit
  seen : List (List Char)

def Collected.empty : Collected := ⟨OrderedMap.empty, [], []⟩

/- The view of a file, which is asked for once. -/
def viewOf
    (targetPath : FilePath)
    (collected : Collected) :
    Query (Collected × ReferenceSourceView) := do
  match collected.sourceViews.get targetPath with
  | some view => pure (collected, view)
  | none =>
      match ← ask fun call =>
          port.sourceView call targetPath with
      | none => finish port (.incomplete .sourceUnavailable)
      | some text =>
          let view := viewOfText text
          pure
            ({ collected with
                sourceViews :=
                  collected.sourceViews.set targetPath view },
              view)

def visitLocation
    (newName : CodeText)
    (collected : Collected)
    (location : RenameLocation) : Query Collected := do
  let targetPath := resolve port.cwd location.fileName
  item port
  if !within port targetPath then
    finish port (.incomplete .sourceOutsideWorkspace)
  else
    let (collected, view) ← viewOf port targetPath collected
    match exactSourceRange view location.textSpan with
    | none => finish port (.incomplete .sourceUnmappable)
    | some range =>
        let newText :=
          location.prefixText.getD [] ++ newName
            ++ location.suffixText.getD []
        let key := semanticLocationKey targetPath range
        if collected.seen.contains key then
          pure collected
        else
          let source ← ask fun call =>
            port.querySource call targetPath
          pure
            { collected with
              seen := collected.seen ++ [key]
              edits :=
                collected.edits
                  ++ [{ path := targetPath
                        range := range
                        newText := newText
                        expectedVersion :=
                          source.bind (·.2) }] }

----------
-- Queries
----------

/- The edits of all locations, before they are checked. -/
def collectEdits
    (position : DocumentPosition)
    (newName : CodeText) : Query (List Edit) := do
  boundary port
  startMembership port
  let filePath := resolve port.cwd position.path
  match ← ask fun call => port.querySource call filePath with
  | none => finishWork port (.incomplete .sourceUnavailable)
  | some (text, _) =>
      if !port.isIdentifierText newName then
        finishWork port .invalidName
      else
        let sourceOffset :=
          lineColumnToOffset text position.line position.column
        let offset :=
          (createSourceDocument text).toGeneratedOffset
            sourceOffset
        boundary port
        let info ← ask fun call =>
          port.getRenameInfo call filePath offset
        boundary port
        checkMembership port
        if !info.canRename then
          finish port .unavailable
        else
          boundary port
          let verdict ← ask fun call =>
            port.preflightRenameConflict call filePath
              info.triggerStart newName
          boundary port
          checkMembership port
          if verdict = .conflict
              ∨ verdict = .indeterminate then
            finish port .unavailable
          else
            boundary port
            let locations ← ask fun call =>
              port.findRenameLocations call filePath offset
            boundary port
            checkMembership port
            if (locations.getD []).isEmpty then
              finish port .unavailable
            else
              let collected ←
                (locations.getD []).foldlM
                  (visitLocation port newName) Collected.empty
              pure collected.edits

/- `comparisons`: how often the sort compares two edits. -/
def publishEdits
    (collate : FilePath → Collation)
    (comparisons : List Edit → Nat)
    (edits : List Edit) : Query Unit := do
  boundary port
  times (item port) (comparisons edits)
  boundary port
  let sorted := sortEdits collate edits
  if ← hasOverlappingEdits port sorted then
    finish port (.incomplete .sourceUnmappable)
  else
    checkMembership port
    finish port (.complete sorted)

/- The result; `none` for an exception. -/
def queryTypeScriptRename
    (collate : FilePath → Collation)
    (comparisons : List Edit → Nat)
    (position : DocumentPosition)
    (newName : CodeText) :
    Option SemanticRenameQueryResult :=
  let query :=
    collectEdits port position newName
      >>= publishEdits port collate comparisons
  match query ⟨0, 0⟩ with
  | .error (.finished result) => some result
  | .error .thrown => none
  | .ok _ => none

end Query

end RenameQuery

end ArktsServer
