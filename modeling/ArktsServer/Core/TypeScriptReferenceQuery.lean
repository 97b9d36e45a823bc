import ArktsServer.Core.TextPositions
import ArktsServer.Semantic.ReferenceSearchExecutor

/-
  `queryTypeScriptReferences`: the references that the
  compiler finds for the definitions at a position, with the
  declarations or without.  The same search also collects the
  references for the other choice as long as all of them can
  be told by their sources.

  Key definitions include:
    * `ReferenceQueryPort`, `Work`
    * `exactSourceRange`
    * `Gathered`, `visitReference`
    * `queryTypeScriptReferences`
-/

namespace ArktsServer

namespace ReferenceQuery

open UnixPath References

----------
-- Answers of the Compiler
----------

structure TextSpan where
  start : Int
  length : Int
deriving DecidableEq

structure DefinitionInfo where
  fileName : FilePath
  textSpan : TextSpan
  kind : String
deriving DecidableEq

structure ReferenceEntry where
  fileName : FilePath
  textSpan : TextSpan
  isDefinition : Option Bool
deriving DecidableEq

structure ReferencedSymbol where
  references : List ReferenceEntry
deriving DecidableEq

abbrev CodeText := List UInt16

/- The interface; there may be more than one document. -/
structure SourceDocument where
  sourceContent : CodeText
  toGeneratedOffset : Int → Int
  toSourceOffset : Int → Int
  generatedSpanToSourceRange : Int → Int → SemanticTextRange

def createSourceDocument
    (sourceContent : CodeText) : SourceDocument where
  sourceContent := sourceContent
  toGeneratedOffset := fun offset =>
    boundedOffset sourceContent offset
  toSourceOffset := fun offset =>
    boundedOffset sourceContent offset
  generatedSpanToSourceRange := fun start length =>
    let first :=
      offsetToLineColumn sourceContent
        (boundedOffset sourceContent start)
    let last :=
      offsetToLineColumn sourceContent
        (boundedOffset sourceContent (start + length))
    { startLine := first.line
      startColumn := first.column
      endLine := last.line
      endColumn := last.column }

structure ReferenceSourceView where
  content : CodeText
  virtualDocument : SourceDocument

structure ConstructorTarget where
  path : FilePath
  start : Int
  length : Int
deriving DecidableEq

inductive SemanticReferenceQueryResult where
| complete
    (references : List DefinitionCandidate)
    (otherReferences : Option (List DefinitionCandidate))
    (searchedProjectPaths : Option (List FilePath))
    (constructorTarget : Option ConstructorTarget)
| incomplete (reason : FailureReason)
deriving DecidableEq

/-
  Every call may have another answer: the number is that of
  the call.  A failing checkpoint throws.
-/
structure ReferenceQueryPort (Program : Type) where
  rootPath : FilePath
  checkpointFails : Nat → Bool
  querySource : Nat → FilePath → Option ReferenceSourceView
  sourceView : Nat → FilePath → Option ReferenceSourceView
  membershipFailure : Nat → Option FailureReason
  getProgram : Nat → Option Program
  getSourceFiles : Program → List FilePath
  getDefinitionAtPosition :
    Nat → FilePath → Int → Option (List DefinitionInfo)
  findReferences :
    Nat → FilePath → Int → Option (List ReferencedSymbol)

/-
  Paths, collation, and how often `sort` of the engine calls
  its comparator on a list.
-/
structure QueryHost (Collation : Type) where
  planner : PlannerHost Collation
  comparisons : List DefinitionCandidate → Nat

----------
-- Cooperative Work
----------

/- The next call, and the units since the last checkpoint. -/
structure Work where
  clock : Nat
  unitsSinceCheckpoint : Nat
deriving DecidableEq

def Work.tick (work : Work) : Work :=
  { work with clock := work.clock + 1 }

/- A query goes on, has its result, or has thrown. -/
inductive Outcome (α : Type) where
| going (work : Work) (value : α)
| finished (result : SemanticReferenceQueryResult)
| thrown

def Outcome.bind
    {α β : Type}
    (outcome : Outcome α)
    (next : Work → α → Outcome β) : Outcome β :=
  match outcome with
  | .going work value => next work value
  | .finished result => .finished result
  | .thrown => .thrown

section Query

variable {Program Collation : Type}
variable [DecidableEq Program] [LinearOrder Collation]
variable (port : ReferenceQueryPort Program)
variable (host : QueryHost Collation)

def checkpointInterval : Nat := 64

def boundary (work : Work) : Outcome Unit :=
  if port.checkpointFails work.clock then .thrown
  else .going ⟨work.clock + 1, 0⟩ ()

def item (work : Work) : Outcome Unit :=
  if work.unitsSinceCheckpoint + 1 < checkpointInterval then
    .going
      { work with
        unitsSinceCheckpoint := work.unitsSinceCheckpoint + 1 }
      ()
  else
    boundary port work

def finish
    {α : Type}
    (work : Work)
    (result : SemanticReferenceQueryResult) : Outcome α :=
  (boundary port work).bind fun _ _ => .finished result

/- The comparisons of a sort, each an item of work. -/
def items : Nat → Work → Outcome Unit
| 0, work => .going work ()
| count + 1, work =>
    (item port work).bind fun work _ => items count work

/- `membershipFailure`, which ends the query. -/
def checkMembership (work : Work) : Outcome Unit :=
  match port.membershipFailure work.clock with
  | some reason => finish port work.tick (.incomplete reason)
  | none => .going work.tick ()

----------
-- Places
----------

def digits (value : Int) : List Char :=
  (toString value).toList

def typescriptSpanKey
    (filePath : FilePath)
    (span : TextSpan) : List Char :=
  filePath ++ ':' :: digits span.start
    ++ ':' :: digits span.length

def semanticLocationKey
    (filePath : FilePath)
    (range : SemanticTextRange) : List Char :=
  filePath ++ ':' :: digits range.startLine
    ++ ':' :: digits range.startColumn
    ++ ':' :: digits range.endLine
    ++ ':' :: digits range.endColumn

/- An end of `String.prototype.slice`. -/
def sliceEnd (length : Nat) (index : Int) : Nat :=
  if index < 0 then (length + index).toNat
  else min index.toNat length

def slice
    (text : CodeText)
    (start stop : Int) : CodeText :=
  (text.take (sliceEnd text.length stop)).drop
    (sliceEnd text.length start)

def exactSourceRange
    (sourceView : ReferenceSourceView)
    (span : TextSpan) : Option SemanticTextRange :=
  let document := sourceView.virtualDocument
  let stop := span.start + span.length
  if !isSafeInteger span.start || !isSafeInteger span.length
      || decide (span.start < 0) || decide (span.length ≤ 0)
      || decide ((sourceView.content.length : Int) < stop) then
    none
  else
    let sourceStart := document.toSourceOffset span.start
    let sourceEnd := document.toSourceOffset stop
    if decide (sourceEnd ≤ sourceStart)
        || document.toGeneratedOffset sourceStart != span.start
        || document.toGeneratedOffset sourceEnd != stop
        || slice sourceView.content span.start stop
          != slice document.sourceContent sourceStart
            sourceEnd then
      none
    else
      some
        (document.generatedSpanToSourceRange span.start
          span.length)

/- Whether a path is the root or below it. -/
def within (rootPath filePath : FilePath) : Bool :=
  staysBelow (relative host.planner.cwd rootPath filePath)

/- `path.resolve`. -/
def resolved (filePath : FilePath) : FilePath :=
  resolve host.planner.cwd filePath

def completedReferenceSearchPaths
    (before after : Option Program)
    (definitions : Nat)
    (returnedSymbols : Bool) : Option (List FilePath) :=
  match before with
  | none => none
  | some program =>
      if after = some program ∧ definitions = 1
          ∧ returnedSymbols = true then
        some
          (((port.getSourceFiles program).map
              (resolved host)).filter
            (within host port.rootPath))
      else
        none

----------
-- References
----------

/- What the loop over the references has collected. -/
structure Gathered where
  sourceViews : OrderedMap FilePath ReferenceSourceView
  references : List DefinitionCandidate
  seen : List (List Char)
  otherReferences : List DefinitionCandidate
  otherSeen : List (List Char)
  otherComplete : Bool
  returnedSymbols : Bool

def Gathered.empty : Gathered :=
  ⟨OrderedMap.empty, [], [], [], [], true, false⟩

/- A reference that has no place in the workspace. -/
def unplaced
    (primary : Bool)
    (reason : FailureReason)
    (work : Work)
    (gathered : Gathered) : Outcome Gathered :=
  if primary then
    finish port work (.incomplete reason)
  else
    .going work { gathered with otherComplete := false }

/- The view of a file, which is asked for once. -/
def viewOf
    (targetPath : FilePath)
    (work : Work)
    (gathered : Gathered) :
    Work × Gathered × Option ReferenceSourceView :=
  match gathered.sourceViews.get targetPath with
  | some view => (work, gathered, some view)
  | none =>
      match port.sourceView work.clock targetPath with
      | none => (work.tick, gathered, none)
      | some view =>
          (work.tick,
            { gathered with
              sourceViews :=
                gathered.sourceViews.set targetPath view },
            some view)

/- `references`, without a place that was seen. -/
def addPlace
    (wanted : Bool)
    (place : DefinitionCandidate)
    (references : List DefinitionCandidate)
    (seen : List (List Char)) :
    List DefinitionCandidate × List (List Char) :=
  let key := semanticLocationKey place.path place.range
  if wanted && !has seen key then
    (references ++ [place], seen ++ [key])
  else
    (references, seen)

def Gathered.add
    (gathered : Gathered)
    (primary other : Bool)
    (place : DefinitionCandidate) : Gathered :=
  let first :=
    addPlace primary place gathered.references gathered.seen
  let second :=
    addPlace other place gathered.otherReferences
      gathered.otherSeen
  { gathered with
    references := first.1
    seen := first.2
    otherReferences := second.1
    otherSeen := second.2 }

def visitReference
    (includeDeclaration : Bool)
    (canonicalDefinitionKeys : List (List Char))
    (reference : ReferenceEntry)
    (work : Work)
    (gathered : Gathered) : Outcome Gathered :=
  let targetPath := resolved host reference.fileName
  (item port work).bind fun work _ =>
    let isCanonicalDefinition :=
      reference.isDefinition == some true
        || has canonicalDefinitionKeys
          (typescriptSpanKey targetPath reference.textSpan)
    let primary := includeDeclaration || !isCanonicalDefinition
    let other := !includeDeclaration || !isCanonicalDefinition
    if !primary && !gathered.otherComplete then
      .going work gathered
    else if !within host port.rootPath targetPath then
      unplaced port primary .sourceOutsideWorkspace work
        gathered
    else
      let view := viewOf port targetPath work gathered
      match view.2.2 with
      | none =>
          unplaced port primary .sourceUnavailable view.1
            view.2.1
      | some sourceView =>
          match
              exactSourceRange sourceView
                reference.textSpan with
          | none =>
              unplaced port primary .sourceUnmappable view.1
                view.2.1
          | some range =>
              .going view.1
                (view.2.1.add primary other
                  ⟨targetPath, range⟩)

def visitReferences
    (includeDeclaration : Bool)
    (canonicalDefinitionKeys : List (List Char)) :
    List ReferenceEntry → Work → Gathered → Outcome Gathered
| [], work, gathered => .going work gathered
| reference :: references, work, gathered =>
    (visitReference port host includeDeclaration
      canonicalDefinitionKeys reference work gathered).bind
      (visitReferences includeDeclaration
        canonicalDefinitionKeys references)

def visitDefinitions
    (includeDeclaration : Bool)
    (canonicalDefinitionKeys : List (List Char)) :
    List DefinitionInfo → Work → Gathered → Outcome Gathered
| [], work, gathered => .going work gathered
| definition :: definitions, work, gathered =>
    (boundary port work).bind fun work _ =>
      let symbols :=
        (port.findReferences work.clock definition.fileName
          definition.textSpan.start).getD []
      (boundary port work.tick).bind fun work _ =>
        (checkMembership port work).bind fun work _ =>
          (visitReferences port host includeDeclaration
            canonicalDefinitionKeys
            (symbols.flatMap (·.references)) work
            { gathered with
              returnedSymbols :=
                gathered.returnedSymbols
                  || decide (0 < symbols.length) }).bind
            (visitDefinitions includeDeclaration
              canonicalDefinitionKeys definitions)

----------
-- Queries
----------

/- What is known before the references are looked at. -/
structure Prepared (Program : Type) where
  searchedProgram : Option Program
  first : DefinitionInfo
  definitions : List DefinitionInfo
  canonicalDefinitionKeys : List (List Char)

/- The program, where the scope is to be captured. -/
def capturedProgram
    (captureSearchScope : Bool)
    (work : Work) : Work × Option Program :=
  if captureSearchScope then
    (work.tick, port.getProgram work.clock)
  else
    (work, none)

def prepare
    (position : DocumentPosition)
    (captureSearchScope : Bool)
    (expectedProgram : Option Program) :
    Outcome (Prepared Program) :=
  (boundary port ⟨0, 0⟩).bind fun work _ =>
    (checkMembership port work).bind fun work _ =>
      let filePath := resolved host position.path
      match port.querySource work.clock filePath with
      | none =>
          finish port work.tick (.incomplete .sourceUnavailable)
      | some script =>
          let sourceOffset :=
            lineColumnToOffset
              script.virtualDocument.sourceContent position.line
              position.column
          let offset :=
            script.virtualDocument.toGeneratedOffset
              sourceOffset
          (boundary port work.tick).bind fun work _ =>
            let captured :=
              capturedProgram port captureSearchScope work
            if expectedProgram.isSome
                && expectedProgram != captured.2 then
              finish port captured.1
                (.incomplete .sourceUnavailable)
            else
              let definitions :=
                (port.getDefinitionAtPosition captured.1.clock
                  filePath offset).getD []
              (boundary port captured.1.tick).bind fun work _ =>
                (checkMembership port work).bind fun work _ =>
                  match definitions with
                  | [] =>
                      finish port work
                        (.complete [] (some []) none none)
                  | first :: others =>
                      (items port (others.length + 1)
                        work).bind fun work _ =>
                        .going work
                          { searchedProgram := captured.2
                            first := first
                            definitions := first :: others
                            canonicalDefinitionKeys :=
                              (first :: others).map
                                fun definition =>
                                  typescriptSpanKey
                                    (resolved host
                                      definition.fileName)
                                    definition.textSpan }

def sorted
    (references : List DefinitionCandidate) :
    List DefinitionCandidate :=
  references.insertionSort fun left right =>
    referenceKey host.planner left
      ≤ referenceKey host.planner right

/- The other references, where they are complete. -/
def sortOthers
    (gathered : Gathered)
    (work : Work) :
    Outcome (Option (List DefinitionCandidate)) :=
  if gathered.otherComplete then
    (items port (host.comparisons gathered.otherReferences)
      work).bind fun work _ =>
      .going work (some (sorted host gathered.otherReferences))
  else
    .going work none

def constructorTargetOf
    (definition : DefinitionInfo)
    (searchedProjectPaths : Option (List FilePath)) :
    Option ConstructorTarget :=
  if searchedProjectPaths.isSome
      && definition.kind == "constructor" then
    some
      { path := resolved host definition.fileName
        start := definition.textSpan.start
        length := definition.textSpan.length }
  else
    none

def conclude
    (captureSearchScope : Bool)
    (prepared : Prepared Program)
    (work : Work)
    (gathered : Gathered) : Outcome Unit :=
  (boundary port work).bind fun work _ =>
    let captured :=
      capturedProgram port captureSearchScope work
    let searchedProjectPaths :=
      if captureSearchScope then
        completedReferenceSearchPaths port host
          prepared.searchedProgram captured.2
          prepared.definitions.length gathered.returnedSymbols
      else
        none
    (checkMembership port captured.1).bind fun work _ =>
      (items port (host.comparisons gathered.references)
        work).bind fun work _ =>
        (sortOthers port host gathered work).bind
          fun work otherReferences =>
            finish port work
              (.complete (sorted host gathered.references)
                otherReferences searchedProjectPaths
                (constructorTargetOf host prepared.first
                  searchedProjectPaths))

/- The result; `none` for an exception. -/
def queryTypeScriptReferences
    (position : DocumentPosition)
    (includeDeclaration captureSearchScope : Bool)
    (expectedProgram : Option Program) :
    Option SemanticReferenceQueryResult :=
  match
      (prepare port host position captureSearchScope
        expectedProgram).bind fun work prepared =>
        (visitDefinitions port host includeDeclaration
          prepared.canonicalDefinitionKeys
          prepared.definitions work Gathered.empty).bind
          (conclude port host captureSearchScope prepared) with
  | .finished result => some result
  | .going _ _ => none
  | .thrown => none

end Query

end ReferenceQuery

end ArktsServer
