import Mathlib.Logic.Function.Basic
import ArktsServer.Lib.Generations
import ArktsServer.Lib.Transition

/-
  Whether the reference index may be searched: the dirty
  token of a workspace, the status probes that reconcile it,
  and the catalog runs that certify an edit.

  The maps of the source are keyed by workspace and every
  operation acts on one key; this is the state of one
  workspace.  The index is seen through the requests of the
  client, which the sidecar handles in their order, and
  through the answers, whose continuations run in any order.

  Key definitions include:
    * `Semantic.ReferenceIndexFreshness`
    * `Semantic.FreshnessWorld`
    * `Semantic.FreshnessWorld.changed`
    * `Semantic.FreshnessWorld.searchSettles`
    * `Semantic.freshnessStep`
-/

namespace ArktsServer

namespace Semantic

----------
-- State
----------

inductive WorkspaceIndexState where
| warming
| ready
| degraded
deriving DecidableEq

structure WorkspaceIndexStatus where
  state : WorkspaceIndexState
  committedGeneration : Nat
  buildingGeneration : Option Nat := none
deriving DecidableEq

/- The newest generation that a status knows of. -/
def WorkspaceIndexStatus.newest
    (status : WorkspaceIndexStatus) : Nat :=
  max status.committedGeneration
    (status.buildingGeneration.getD 0)

/-
  A dirty token.  Its promises are named by the status calls
  that they wait for.
-/
structure DirtyIndexGeneration where
  baselineGeneration : Option Nat := none
  capture : Nat := 0
  postEditCatalogGeneration : Option Nat := none
  postEditCatalogCapture : Option Nat := none
deriving DecidableEq

structure CatalogDirtyGeneration where
  dirty : Nat
  baselineGeneration : Nat
deriving DecidableEq

/- Tokens are numbered in the order of their changes. -/
structure ReferenceIndexFreshness where
  acceptedGeneration : Option Nat := none
  dirtyGeneration : Option Nat := none
  catalogDirtyGeneration : Option CatalogDirtyGeneration := none
  tokens : Nat → DirtyIndexGeneration := fun _ => {}
  nextToken : Nat := 0

/- What runs once the answer of a status call is there. -/
inductive StatusPurpose where
| capture (dirty : Nat)
| catalogStarted
| postEditCatalog (dirty : Nat) (baselineGeneration : Nat)
| search (dirty : Nat)
deriving DecidableEq

/- `answer` is `some none` for a rejected call. -/
structure StatusCall where
  id : Nat
  purpose : StatusPurpose
  answer : Option (Option WorkspaceIndexStatus) := none
deriving DecidableEq

/- A `beforeSearch` call before its status call. -/
inductive SearchWait where
| capture (dirty : Nat)
| postEditCatalog (dirty : Nat) (call : Option Nat)
deriving DecidableEq

structure ReferenceIndexFreshnessResult where
  usable : Bool
  recovered : Bool
  baselineGeneration : Option Nat := none
  committedGeneration : Option Nat := none
deriving DecidableEq

/- A request on its way to the sidecar. -/
inductive PipeRequest where
| status (call : Nat)
| startCatalog (run : Nat)
| refresh (generation : Nat)
deriving DecidableEq

/-
  The catalog run of the workspace symbol service, which has
  one at a time: it awaits `catalogStarted` before it asks
  for the catalog.
-/
inductive ServiceRun where
| idle
| starting (call : Nat)
| requested (run : Nat)
| attached (generation : Nat)
| ready
deriving DecidableEq

/- A resolved search, with the state of its moment. -/
structure SearchResolution where
  result : ReferenceIndexFreshnessResult
  changes : Nat
  covered : Nat
deriving DecidableEq

/-
  `builds` are the generations of the sidecar; a catalog
  covers the changes before its start, a refresh those
  before its confirmation.
-/
structure FreshnessWorld where
  freshness : ReferenceIndexFreshness := {}
  calls : List StatusCall := []
  nextCall : Nat := 0
  searches : List SearchWait := []
  resolutions : List SearchResolution := []
  pipe : List PipeRequest := []
  run : ServiceRun := .idle
  nextRun : Nat := 0
  sessionFailure : Option Nat := none
  builds : Builds := {}

namespace FreshnessWorld

----------
-- Status Calls
----------

variable (world : FreshnessWorld)

/-
  `index.status`: a failed session answers at once with its
  last committed generation, and is degraded.
-/
def callStatus
    (purpose : StatusPurpose) : FreshnessWorld :=
  match world.sessionFailure with
  | some generation =>
      { world with
        calls :=
          world.calls ++
            [{ id := world.nextCall
               purpose := purpose
               answer := some (some ⟨.degraded, generation, none⟩) }]
        nextCall := world.nextCall + 1 }
  | none =>
      { world with
        calls :=
          world.calls ++
            [{ id := world.nextCall, purpose := purpose }]
        pipe := world.pipe ++ [.status world.nextCall]
        nextCall := world.nextCall + 1 }

/- The continuation of a call has run. -/
def settled
    (call : Nat) : Bool :=
  world.calls.all fun other => other.id ≠ call

def updateToken
    (dirty : Nat)
    (update : DirtyIndexGeneration → DirtyIndexGeneration) :
    FreshnessWorld :=
  { world with
    freshness :=
      { world.freshness with
        tokens :=
          Function.update world.freshness.tokens dirty
            (update (world.freshness.tokens dirty)) } }

def isCurrent
    (dirty : Nat) : Bool :=
  world.freshness.dirtyGeneration = some dirty

----------
-- Changes
----------

/- `changed`: a new token, and a call that captures it. -/
def changed (world : FreshnessWorld) : FreshnessWorld :=
  let dirty := world.freshness.nextToken
  let marked :=
    { world with
      freshness :=
        { world.freshness with
          dirtyGeneration := some dirty
          tokens :=
            Function.update world.freshness.tokens dirty
              { baselineGeneration :=
                  world.freshness.acceptedGeneration
                capture := world.nextCall }
          nextToken := dirty + 1 } }
  marked.callStatus (.capture dirty)

/-
  `workspaceFilesChanged`: the paths are those of the
  changes, where their URI has one.
-/
def workspaceFilesChanged
    (rootDirty : Bool)
    (paths : List (Option String)) : FreshnessWorld :=
  if rootDirty = true ∨
      paths.any (fun path =>
        path.any fun changedPath =>
          changedPath.endsWith ".ets" ||
            changedPath.endsWith ".ts") = true then
    world.changed
  else
    world

def isDirty (world : FreshnessWorld) : Bool :=
  world.freshness.dirtyGeneration.isSome

def accepted
    (world : FreshnessWorld)
    (generation : Nat) : FreshnessWorld :=
  { world with
    freshness :=
      { world.freshness with
        acceptedGeneration := some generation } }

/- The continuation of the capture of a token. -/
def captureSettles
    (dirty : Nat)
    (answer : Option WorkspaceIndexStatus) : FreshnessWorld :=
  if world.isCurrent dirty = true then
    world.updateToken dirty fun token =>
      { token with
        baselineGeneration :=
          answer.map fun status =>
            max (token.baselineGeneration.getD 0)
              status.newest }
  else
    world

----------
-- Catalogs
----------

/- The run asks for its catalog once it is bound. -/
def requestCatalog (world : FreshnessWorld) : FreshnessWorld :=
  if world.sessionFailure.isSome then
    { world with run := .idle }
  else
    { world with
      run := .requested world.nextRun
      nextRun := world.nextRun + 1
      pipe := world.pipe ++ [.startCatalog world.nextRun] }

/- `catalogStarted` up to its await, by a run that begins. -/
def catalogStarted (world : FreshnessWorld) : FreshnessWorld :=
  if world.freshness.dirtyGeneration.isNone then
    world.requestCatalog
  else
    { world with run := .starting world.nextCall }.callStatus
      .catalogStarted

/- `catalogStarted` behind its await, and `catalog.start`. -/
def catalogStartedSettles
    (answer : Option WorkspaceIndexStatus) : FreshnessWorld :=
  match answer, world.freshness.dirtyGeneration with
  | some status, some dirty =>
      let bound :=
        { world with
          freshness :=
            { world.freshness with
              catalogDirtyGeneration :=
                some ⟨dirty, status.newest⟩ } }
      bound.requestCatalog
  | _, _ => world.requestCatalog

def catalogReady (world : FreshnessWorld) : FreshnessWorld :=
  let taken :=
    { world with
      freshness :=
        { world.freshness with
          catalogDirtyGeneration := none } }
  match world.freshness.catalogDirtyGeneration with
  | none => taken
  | some pending =>
      if world.isCurrent pending.dirty = true then
        let noted :=
          taken.updateToken pending.dirty fun token =>
            { token with
              postEditCatalogCapture := some world.nextCall }
        noted.callStatus
          (.postEditCatalog pending.dirty
            pending.baselineGeneration)
      else
        taken

def postEditCatalogSettles
    (dirty : Nat)
    (baselineGeneration : Nat)
    (answer : Option WorkspaceIndexStatus) : FreshnessWorld :=
  match answer with
  | none => world
  | some status =>
      if world.isCurrent dirty = true ∧
          status.state = .ready ∧
            baselineGeneration < status.committedGeneration then
        world.updateToken dirty fun token =>
          { token with
            postEditCatalogGeneration :=
              some status.committedGeneration }
      else
        world

----------
-- Searches
----------

def resolve
    (result : ReferenceIndexFreshnessResult) :
    FreshnessWorld :=
  { world with
    resolutions :=
      world.resolutions ++
        [⟨result, world.freshness.nextToken,
            world.builds.covered⟩] }

/- `beforeSearch` up to its first await. -/
def beforeSearch (world : FreshnessWorld) : FreshnessWorld :=
  match world.freshness.dirtyGeneration with
  | none =>
      world.resolve { usable := true, recovered := false }
  | some dirty =>
      { world with
        searches := world.searches ++ [.capture dirty] }

/- One of the awaits before the status call is over. -/
def searchResumes
    (index : Nat) : FreshnessWorld :=
  match world.searches[index]? with
  | some (.capture dirty) =>
      let token := world.freshness.tokens dirty
      if world.settled token.capture = true then
        { world with
          searches :=
            world.searches.set index
              (.postEditCatalog dirty
                token.postEditCatalogCapture) }
      else
        world
  | some (.postEditCatalog dirty call) =>
      if call.all world.settled = true then
        let resumed :=
          { world with
            searches := world.searches.eraseIdx index }
        resumed.callStatus (.search dirty)
      else
        world
  | none => world

/- The status certifies the current token. -/
def certifies
    (token : DirtyIndexGeneration)
    (status : WorkspaceIndexStatus) : Bool :=
  status.state = .ready &&
    (token.baselineGeneration.any
        (· < status.committedGeneration) ||
      token.postEditCatalogGeneration.any
        (· ≤ status.committedGeneration))

/- `beforeSearch` behind its status call. -/
def searchSettles
    (dirty : Nat)
    (answer : Option WorkspaceIndexStatus) : FreshnessWorld :=
  if world.isCurrent dirty = false then
    world.resolve { usable := true, recovered := false }
  else
    let token := world.freshness.tokens dirty
    if answer.any (certifies token) = true then
      let reconciled :=
        { world with
          freshness :=
            { world.freshness with dirtyGeneration := none } }
      reconciled.resolve
        { usable := true
          recovered := true
          baselineGeneration := token.baselineGeneration
          committedGeneration :=
            answer.map (·.committedGeneration) }
    else
      world.resolve
        { usable := false
          recovered := false
          baselineGeneration := token.baselineGeneration
          committedGeneration :=
            answer.map (·.committedGeneration) }

/- The continuation of an answered call. -/
def continues
    (purpose : StatusPurpose)
    (answer : Option WorkspaceIndexStatus) : FreshnessWorld :=
  match purpose with
  | .capture dirty => world.captureSettles dirty answer
  | .catalogStarted => world.catalogStartedSettles answer
  | .postEditCatalog dirty baselineGeneration =>
      world.postEditCatalogSettles dirty baselineGeneration
        answer
  | .search dirty => world.searchSettles dirty answer

/- A call whose answer is there is continued once. -/
def statusDelivered
    (id : Nat) : FreshnessWorld :=
  match world.calls.find? (·.id = id) with
  | some { purpose, answer := some answer, .. } =>
      { world with
        calls :=
          world.calls.filter fun call => call.id ≠ id }.continues
            purpose answer
  | _ => world

----------
-- The Sidecar
----------

def answerCall
    (id : Nat)
    (answer : Option WorkspaceIndexStatus) : FreshnessWorld :=
  { world with
    calls :=
      world.calls.map fun call =>
        if call.id = id ∧ call.answer = none then
          { call with answer := some answer }
        else
          call }

/- A run learns the generation that its start was given. -/
def attach
    (run generation : Nat) : FreshnessWorld :=
  if world.run = .requested run then
    { world with run := .attached generation }
  else
    world

/-
  The sidecar handles its next request.  A catalog gets a
  generation above the committed one, unless it is refused
  or one is being built; a refresh is refused while one is
  active.
-/
def sidecarHandles
    (state : WorkspaceIndexState)
    (generation : Nat) : FreshnessWorld :=
  match world.pipe with
  | [] => world
  | .status call :: rest =>
      { world with pipe := rest }.answerCall call
        (some
          ⟨state, world.builds.committed,
            world.builds.building.map Build.generation⟩)
  | .startCatalog run :: rest =>
      match world.builds.building with
      | some build =>
          { world with pipe := rest }.attach run
            build.generation
      | none =>
          if world.builds.committed < generation then
            { world with
              pipe := rest
              builds :=
                world.builds.start generation
                  world.freshness.nextToken }.attach run
              generation
          else
            { world with pipe := rest }
  | .refresh refreshed :: rest =>
      if world.builds.building.isNone ∧
          world.builds.committed < refreshed then
        { world with
          pipe := rest
          builds :=
            world.builds.confirm refreshed
              world.freshness.nextToken }
      else
        { world with pipe := rest }

/- The run whose catalog has ended. -/
def runEnded
    (generation : Nat)
    (ended : ServiceRun) : ServiceRun :=
  if world.run = .attached generation then ended
  else world.run

/- The catalog ends, and has committed its generation. -/
def catalogCommits
    (isReady : Bool) : FreshnessWorld :=
  match world.builds.building with
  | none => world
  | some build =>
      { world with
        builds := world.builds.commit build
        run :=
          world.runEnded build.generation
            (if isReady = true then .ready else .idle) }

/- The catalog ends without a commit. -/
def catalogEnds (world : FreshnessWorld) : FreshnessWorld :=
  match world.builds.building with
  | none => world
  | some build =>
      { world with
        builds := world.builds.abandon
        run := world.runEnded build.generation .idle }

/- The session fails: what it owes is rejected. -/
def sessionFails
    (lastGeneration : Nat) : FreshnessWorld :=
  if world.sessionFailure.isSome then
    world
  else
    { world with
      sessionFailure := some lastGeneration
      pipe := []
      calls :=
        world.calls.map fun call =>
          if call.answer = none then
            { call with answer := some none }
          else
            call
      run :=
        match world.run with
        | .starting call => .starting call
        | _ => .idle }

/- The run of the service gives its catalog up. -/
def runFails (world : FreshnessWorld) : FreshnessWorld :=
  match world.run with
  | .starting _ => world
  | _ => { world with run := .idle }

end FreshnessWorld

----------
-- Events
----------

inductive FreshnessEvent where
| changed
| workspaceFilesChanged
    (rootDirty : Bool)
    (paths : List (Option String))
| accepted (generation : Nat)
| beforeSearch
| searchResumes (index : Nat)
| statusDelivered (call : Nat)
| statusRejected (call : Nat)
| catalogStarted
| catalogReady
| runFails
| sendsRefresh (generation : Nat)
| sidecarHandles
    (state : WorkspaceIndexState)
    (generation : Nat)
| catalogCommits (isReady : Bool)
| catalogEnds
| sessionFails (lastGeneration : Nat)
deriving DecidableEq

/-
  `catalogStarted` and `catalogReady` are called by the run
  of the service: the first when it begins, the second when
  its catalog is reported ready.
-/
def freshnessStep
    (world : FreshnessWorld) : FreshnessEvent → FreshnessWorld
| .changed => world.changed
| .workspaceFilesChanged rootDirty paths =>
    world.workspaceFilesChanged rootDirty paths
| .accepted generation => world.accepted generation
| .beforeSearch => world.beforeSearch
| .searchResumes index => world.searchResumes index
| .statusDelivered call => world.statusDelivered call
| .statusRejected call => world.answerCall call none
| .catalogStarted =>
    if world.run = .idle then
      world.catalogStarted
    else
      world
| .catalogReady =>
    if world.run = .ready then
      { world with run := .idle }.catalogReady
    else
      world
| .runFails => world.runFails
| .sendsRefresh generation =>
    if world.sessionFailure = none then
      { world with
        pipe := world.pipe ++ [.refresh generation] }
    else
      world
| .sidecarHandles state generation =>
    world.sidecarHandles state generation
| .catalogCommits isReady =>
    if world.sessionFailure = none then
      world.catalogCommits isReady
    else
      world
| .catalogEnds => world.catalogEnds
| .sessionFails lastGeneration =>
    world.sessionFails lastGeneration

/- The state after a run. -/
def freshnessRun
    (events : List FreshnessEvent) : FreshnessWorld :=
  Transition.run freshnessStep {} events

end Semantic

end ArktsServer
