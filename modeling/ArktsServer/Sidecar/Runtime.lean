import ArktsServer.Core.SharedTypes
import ArktsServer.Core.WorkspaceIndex
import ArktsServer.Sidecar.ReferenceCandidates

/-
  The request loop of the sidecar: its state, the status it
  reports, every request handler and the handler of catalog
  updates.

  What the file system, the store and the catalog worker
  answer during one request is collected in a `World`; a
  handler reads only the answers it asks for.

  Key definitions include:
    * `CatalogProgress`, `CatalogUpdate`
    * `Runtime`, `Runtime.status`
    * `World`, `Request`
    * `Runtime.dispatch`
    * `Runtime.handleCatalogUpdate`
-/

----------
-- Catalog Progress
----------

namespace ArktsServer

namespace Sidecar

/- Instants are milliseconds of a monotone clock. -/
structure CatalogProgress where
  discovered : Nat := 0
  indexed : Nat := 0
  rejected : Nat := 0
  policySkipped : Nat := 0
  ignored : Nat := 0
  totalFiles : Option Nat := none
  storage : Option CatalogBuildProgress := none
  stageStarted : Option Nat := none
  activitySequence : Nat := 0
deriving DecidableEq

inductive CatalogUpdate where
| progress (generation : Nat) (progress : CatalogProgress)
| activating (generation : Nat) (progress : CatalogProgress)
| complete
    (generation : Nat)
    (report : RefreshReport)
    (progress : CatalogProgress)
| cancelled (generation : Nat) (progress : CatalogProgress)
| failed
    (generation : Nat)
    (progress : CatalogProgress)
    (message : String)
deriving DecidableEq

inductive Phase where
| idle
| discovering
| activating
| cancelling
| cancelled
| degraded
| partial_
| ready
deriving DecidableEq

def Phase.name : Phase → String
| .idle => "idle"
| .discovering => "discovering"
| .activating => "activating"
| .cancelling => "cancelling"
| .cancelled => "cancelled"
| .degraded => "degraded"
| .partial_ => "partial"
| .ready => "ready"

----------
-- Runtime State
----------

structure CacheLocation where
  databasePath : String
  workspaceIdentity : String
deriving DecidableEq

/-
  `index` is the opened catalog store, given by its place;
  `catalog` is the generation of the active catalog.
-/
structure Runtime where
  index : Option CacheLocation := none
  workspaceRoot : Option String := none
  databasePath : Option String := none
  workspaceIdentity : Option String := none
  state : IndexState := .warming
  committedGeneration : Nat := 0
  completeness : Completeness := .stale
  rejectedCount : Nat := 0
  phase : Phase := .idle
  buildingGeneration : Option Nat := none
  nextCatalogGeneration : Nat := 1
  catalog : Option Nat := none
  progress : CatalogProgress := {}
  message : Option String := none
deriving DecidableEq

/- `u64::saturating_add(1)`. -/
def saturatingSucc (value : Nat) : Nat :=
  min (value + 1) (2 ^ 64 - 1)

def stateName : IndexState → String
| .warming => "warming"
| .ready => "ready"
| .degraded => "degraded"

def storageJson
    (progress : CatalogProgress)
    (now : Nat)
    (storage : CatalogBuildProgress) : Json :=
  .obj
    [("stage", .str storage.stage.name),
      ("writtenDocuments", .num storage.writtenDocuments),
      ("writtenRows", .num storage.writtenRows),
      ("walFrames", .num storage.walFrames),
      ("checkpointedFrames", .num storage.checkpointedFrames),
      ("activitySequence", .num progress.activitySequence),
      ("stageElapsedMs",
        .num
          ((progress.stageStarted.map (now - ·)).getD 0))]

namespace Runtime

/- The status object at a moment of the clock. -/
def status (runtime : Runtime) (now : Nat) : Json :=
  .obj
    ([("state", .str (stateName runtime.state)),
      ("committedGeneration",
        .num runtime.committedGeneration),
      ("completeness", .str runtime.completeness.name),
      ("rejectedCount", .num runtime.rejectedCount),
      ("phase", .str runtime.phase.name),
      ("buildingGeneration",
        .ofOption .num runtime.buildingGeneration),
      ("discovered", .num runtime.progress.discovered),
      ("indexed", .num runtime.progress.indexed),
      ("rejected", .num runtime.progress.rejected),
      ("policySkipped", .num runtime.progress.policySkipped),
      ("ignored", .num runtime.progress.ignored)] ++
      Json.optionalField "storage"
        (storageJson runtime.progress now)
        runtime.progress.storage ++
      Json.optionalField "totalFiles" .num
        runtime.progress.totalFiles ++
      Json.optionalField "message" .str runtime.message)

----------
-- Catalog Updates
----------

def isActiveCatalog
    (runtime : Runtime)
    (generation : Nat) : Bool :=
  decide (runtime.catalog = some generation)

/- The end of a catalog that was published. -/
def completeCatalog
    (runtime : Runtime)
    (report : RefreshReport)
    (progress : CatalogProgress) : Runtime :=
  let runtime :=
    { runtime with
      progress
      catalog := none
      buildingGeneration := none
      committedGeneration := report.committedGeneration
      rejectedCount := report.rejectedDocuments.length }
  if 0 < progress.rejected then
    { runtime with
      phase := .degraded
      state := .degraded
      completeness := .partial_ }
  else if 0 < progress.policySkipped then
    { runtime with
      phase := .partial_
      state := .ready
      completeness := .partial_ }
  else
    { runtime with
      phase := .ready
      state := .ready
      completeness := .ready }

/- The generation that an update belongs to. -/
def updateGeneration : CatalogUpdate → Nat
| .progress generation _ => generation
| .activating generation _ => generation
| .complete generation _ _ => generation
| .cancelled generation _ => generation
| .failed generation _ _ => generation

/- The effect of an update of the active catalog. -/
def applyCatalogUpdate
    (runtime : Runtime) :
    CatalogUpdate → Runtime
| .progress _ progress => { runtime with progress }
| .activating _ progress =>
    { runtime with
      progress
      phase :=
        if runtime.phase ≠ .cancelling then
          .activating
        else
          runtime.phase }
| .complete _ report progress =>
    runtime.completeCatalog report progress
| .cancelled _ progress =>
    { runtime with
      progress
      phase := .cancelled
      catalog := none
      buildingGeneration := none }
| .failed _ progress message =>
    { runtime with
      progress
      phase := .degraded
      state := .degraded
      completeness := .stale
      catalog := none
      buildingGeneration := none
      message := some message }

/-
  Updates of another generation are dropped.  The flag says
  whether an event is written.
-/
def handleCatalogUpdate
    (runtime : Runtime)
    (update : CatalogUpdate) : Runtime × Bool :=
  if runtime.isActiveCatalog (updateGeneration update) then
    (runtime.applyCatalogUpdate update, true)
  else
    (runtime, false)

end Runtime

----------
-- Requests
----------

structure InitializeParams where
  workspaceRoot : String
  cacheDirectory : String

structure RefreshParams where
  generation : Nat
  changed : List Document
  removedUris : List String

structure SearchParams where
  query : String
  limit : Nat
  excludedUris : List String

structure CatalogStartParams where
  reason : String
  force : Bool

structure CatalogCancelParams where
  generation : Nat

/-
  A request with its decoded parameters; a decoding error
  carries the text of the decoder.
-/
inductive Request where
| health
| initializeWorkspace
    (params : Except String InitializeParams)
| refresh (params : Except String RefreshParams)
| search (params : Except String SearchParams)
| searchExports (params : Except String SearchParams)
| referenceCandidates
    (params : Except String ReferenceCandidatesParams)
| startCatalog (params : Except String CatalogStartParams)
| cancelCatalog (params : Except String CatalogCancelParams)
| status
| shutdown
| unknown (method : String)

/-
  What the outside answers during one request: the clock,
  the file system, the store and the catalog worker.
-/
structure World where
  unicode : Unicode
  now : Nat
  canonicalize : String → Except String String
  workspaceCacheLocation :
    String → String → Except StoreError CacheLocation
  openStore : CacheLocation → Except StoreError Unit
  metadata : Except StoreError StoreMetadata
  applyBatch : RefreshBatch → Except StoreError CommitReceipt
  search : SymbolQuery → Except StoreError SymbolSearchResult
  searchExports :
    ExportQuery → Except StoreError ExportSearchResult
  searchReferenceCandidates :
    ReferenceCandidateQuery →
      List ReferenceSourceResolution →
      List String →
      Except StoreError ReferenceCandidateSearchResult
  cancel : Bool

/- A response and whether the loop ends after it. -/
abbrev Answer := Except ProtocolError (Json × Bool)

def answered (value : Json) : Answer :=
  Except.ok (value, false)

/- The error of `parse_params`. -/
def decodingFailed (message : String) : Answer :=
  Except.error (invalidParams message)

def positionJson (position : Position) : Json :=
  .obj
    [("line", .num position.line),
      ("character", .num position.character)]

def rangeJson (range : TextRange) : Json :=
  .obj
    [("start", positionJson range.start),
      ("end", positionJson range.stop)]

def symbolKindName : SymbolKind → String
| .class_ => "class"
| .struct => "struct"
| .enum => "enum"
| .interface => "interface"
| .typeAlias => "type"
| .function => "function"
| .method => "method"
| .variable => "variable"
| .namespace_ => "module"

def symbolJson (symbol : WorkspaceSymbol) : Json :=
  .obj
    ([("name", .str symbol.name),
      ("kind", .str (symbolKindName symbol.kind)),
      ("uri", .str symbol.uri),
      ("range", rangeJson symbol.range)] ++
      Json.optionalField "containerName" .str
        symbol.container)

def exportJson (item : WorkspaceExport) : Json :=
  .obj
    ([("exportedName", .str item.exportedName),
      ("kind", .str (symbolKindName item.kind)),
      ("uri", .str item.uri),
      ("ordinal", .num item.ordinal),
      ("range", rangeJson item.range)] ++
      Json.optionalField "declarationIdentity" .str
        item.declarationIdentity ++
      Json.optionalField "importSpecifier" .str
        item.importSpecifier ++
      Json.optionalField "moduleId" .str item.moduleId ++
      Json.optionalField "targetScope" .str
        item.targetScope)

def searchJson
    (items : List Json)
    (servedGeneration : Nat)
    (completeness : Completeness) : Json :=
  .obj
    [("items", .arr items),
      ("servedGeneration", .num servedGeneration),
      ("completeness", .str completeness.name)]

namespace Runtime

/- A failed store call discredits the index. -/
def degrade (runtime : Runtime) : Runtime :=
  { runtime with
    state := .degraded
    completeness := .stale }

/- The workspace that `initialize` opens, or its error. -/
def openWorkspace
    (world : World)
    (params : InitializeParams) :
    Except ProtocolError
      (String × CacheLocation × StoreMetadata) := do
  let workspaceRoot ←
    match world.canonicalize params.workspaceRoot with
    | Except.ok root => pure root
    | Except.error error =>
        throw
          ⟨"io",
            "failed to canonicalize workspace root: " ++
              error⟩
  let cache ←
    (world.workspaceCacheLocation params.cacheDirectory
      workspaceRoot).mapError protocolStoreError
  (world.openStore cache).mapError protocolStoreError
  let metadata ← world.metadata.mapError protocolStoreError
  pure (workspaceRoot, cache, metadata)

variable (runtime : Runtime)

def initializeWorkspace
    (world : World)
    (params : InitializeParams) : Runtime × Answer :=
  if runtime.catalog.isSome then
    (runtime,
      Except.error
        ⟨"busy",
          "initialize cannot replace a workspace while " ++
            "its catalog is active"⟩)
  else
    match openWorkspace world params with
    | Except.error error => (runtime, Except.error error)
    | Except.ok (workspaceRoot, cache, metadata) =>
        let generation := metadata.committedGeneration
        let next : Runtime :=
          { runtime with
            committedGeneration := generation
            state := .warming
            completeness := .stale
            rejectedCount := metadata.rejectedDocuments.length
            workspaceRoot := some workspaceRoot
            databasePath := some cache.databasePath
            workspaceIdentity := some cache.workspaceIdentity
            phase := .idle
            buildingGeneration := none
            nextCatalogGeneration :=
              saturatingSucc generation
            progress := {}
            message := none
            index := some cache }
        (next,
          answered
            (.obj
              [("workspaceIdentity",
                  .str cache.workspaceIdentity),
                ("status", next.status world.now)]))

/- The commit of a refresh is visible in the runtime. -/
def commitRefresh
    (report : RefreshReport) : Runtime :=
  { runtime with
    committedGeneration := report.committedGeneration
    nextCatalogGeneration :=
      max runtime.nextCatalogGeneration
        (saturatingSucc report.committedGeneration)
    state := report.state
    rejectedCount := report.rejectedDocuments.length
    completeness :=
      if report.state = .ready then .ready else .partial_ }

def refresh
    (runtime : Runtime)
    (world : World)
    (params : RefreshParams) : Runtime × Answer :=
  if runtime.catalog.isSome then
    (runtime,
      Except.error
        ⟨"busy",
          "refresh cannot commit while a full catalog " ++
            "is active"⟩)
  else if runtime.index.isNone then
    (runtime, Except.error notInitialized)
  else
    match WorkspaceIndex.refresh world.unicode
        world.applyBatch params.generation params.changed
        params.removedUris with
    | Except.error error =>
        (runtime.degrade,
          Except.error (protocolStoreError error))
    | Except.ok report =>
        let next := runtime.commitRefresh report
        (next,
          answered
            (.obj
              [("status", next.status world.now),
                ("rejectedDocuments",
                  .strings report.rejectedDocuments)]))

def search
    (runtime : Runtime)
    (world : World)
    (params : SearchParams) : Runtime × Answer :=
  match validateExcludedUris params.excludedUris with
  | Except.error error => (runtime, Except.error error)
  | Except.ok _ =>
      if runtime.index.isNone then
        (runtime, Except.error notInitialized)
      else
        let query :=
          (SymbolQuery.new world.unicode params.query
            params.limit).excludingUris params.excludedUris
        match world.search query with
        | Except.error error =>
            (runtime.degrade,
              Except.error (protocolStoreError error))
        | Except.ok result =>
            (runtime,
              answered
                (searchJson (result.items.map symbolJson)
                  result.servedGeneration
                  runtime.completeness))

def searchExports
    (runtime : Runtime)
    (world : World)
    (params : SearchParams) : Runtime × Answer :=
  if runtime.index.isNone then
    (runtime, Except.error notInitialized)
  else
    match world.searchExports
        (ExportQuery.new world.unicode params.query
          params.limit) with
    | Except.error error =>
        (runtime.degrade,
          Except.error (protocolStoreError error))
    | Except.ok result =>
        (runtime,
          answered
            (searchJson (result.items.map exportJson)
              result.servedGeneration runtime.completeness))

def referenceCandidates
    (world : World)
    (params : ReferenceCandidatesParams) :
    Runtime × Answer :=
  match checkReferenceCandidates params with
  | Except.error error => (runtime, Except.error error)
  | Except.ok query =>
      if runtime.index.isNone then
        (runtime, Except.error notInitialized)
      else
        match world.searchReferenceCandidates query
            params.sourceResolutions
            params.admittedRootUris with
        | Except.error error =>
            (runtime.degrade,
              Except.error (protocolStoreError error))
        | Except.ok result =>
            (runtime,
              answered
                (referenceCandidatesJson runtime.completeness
                  result))

/- The response to a catalog request. -/
def catalogAnswer
    (now : Nat)
    (key : String)
    (flag : Bool)
    (generation : Nat) : Answer :=
  answered
    (.obj
      [(key, .bool flag), ("generation", .num generation),
        ("status", runtime.status now)])

/- The state in which a catalog worker has been spawned. -/
def spawnCatalog
    (generation : Nat) : Runtime :=
  { runtime with
    nextCatalogGeneration := saturatingSucc generation
    phase := .discovering
    buildingGeneration := some generation
    progress := {}
    message := none
    catalog := some generation }

def startCatalog
    (world : World) : Runtime × Answer :=
  match runtime.catalog with
  | some generation =>
      (runtime,
        runtime.catalogAnswer world.now "accepted" false
          generation)
  | none =>
      if runtime.workspaceRoot.isNone ∨
          runtime.databasePath.isNone ∨
          runtime.workspaceIdentity.isNone ∨
          runtime.index.isNone then
        (runtime, Except.error notInitialized)
      else
        match world.metadata with
        | Except.error error =>
            (runtime, Except.error (protocolStoreError error))
        | Except.ok metadata =>
            let generation :=
              max runtime.nextCatalogGeneration
                (saturatingSucc metadata.committedGeneration)
            let next := runtime.spawnCatalog generation
            (next,
              next.catalogAnswer world.now "accepted" true
                generation)

def cancelCatalog
    (world : World)
    (params : CatalogCancelParams) : Runtime × Answer :=
  let cancelled :=
    decide (runtime.catalog = some params.generation) &&
      world.cancel
  let next :=
    if cancelled then
      { runtime with phase := .cancelling }
    else
      runtime
  (next,
    next.catalogAnswer world.now "cancelled" cancelled
      params.generation)

/- Run a handler on decoded parameters. -/
def decoded
    {α : Type}
    (runtime : Runtime)
    (handler : α → Runtime × Answer) :
    Except String α → Runtime × Answer
| Except.ok params => handler params
| Except.error message => (runtime, decodingFailed message)

def dispatch
    (runtime : Runtime)
    (world : World) :
    Request → Runtime × Answer
| .health =>
    (runtime,
      answered
        (.obj
          [("protocolVersion", .num 1),
            ("status", runtime.status world.now)]))
| .initializeWorkspace params =>
    runtime.decoded (runtime.initializeWorkspace world) params
| .refresh params =>
    runtime.decoded (runtime.refresh world) params
| .search params =>
    runtime.decoded (runtime.search world) params
| .searchExports params =>
    runtime.decoded (runtime.searchExports world) params
| .referenceCandidates params =>
    runtime.decoded (runtime.referenceCandidates world) params
| .startCatalog params =>
    runtime.decoded (fun _ => runtime.startCatalog world)
      params
| .cancelCatalog params =>
    runtime.decoded (runtime.cancelCatalog world) params
| .status => (runtime, answered (runtime.status world.now))
| .shutdown => (runtime, Except.ok (.obj [], true))
| .unknown method =>
    (runtime,
      Except.error
        ⟨"method_not_found",
          "unknown sidecar method " ++ method⟩)

end Runtime

end Sidecar

end ArktsServer
