import Mathlib
import ArktsServer.Store.CatalogBuild

/-
  The collection of workspace caches: every directory under
  `workspaces` is inspected, and those whose sources are gone
  or that nobody has used for long are moved away, oldest
  first and down to a budget.  A preview takes the same
  decisions and changes nothing.

  The file system, the locks and the clock belong to the
  surroundings.  They answer for each entry at each stage of
  its collection, so that other processes may act between any
  two stages.  What collectors themselves write between runs,
  the observations and activity records under `.gc-state`, is
  a state that every collection receives and hands on.

  Key definitions include:
    * `Evidence`, `Surroundings`, `StateFiles`
    * `exclusive`, `candidate`
    * `decideOne`, `decideAll`, `collect`
-/

namespace ArktsServer

namespace CacheGc

----------
-- Files
----------

/- A metadata file, seen without following links. -/
inductive MetadataFile (Value : Type) where
| plain (content : Except String Value)
| linked
| dangling
| directory

namespace MetadataFile

variable {Value : Type}

/- `read_json`. -/
def readJson :
    Option (MetadataFile Value) → Except String Value
| none =>
    Except.error "No such file or directory (os error 2)"
| some (.plain content) => content
| some _ => Except.error "unsafe-metadata"

/- `Path::exists`, which follows links. -/
def exists_ : Option (MetadataFile Value) → Bool
| none => false
| some .dangling => false
| some _ => true

end MetadataFile

/- A directory and what stands below it. -/
inductive Directory (Content : Type) where
| absent
| faulty (error : String) (content : Content)
| present (content : Content)

inductive LockFile where
| absent
| faulty (error : String)
| free
| held
deriving DecidableEq

/- Name, length, modification time and object of a file. -/
structure FileStamp where
  name : String
  length : Nat
  modified : Nat
  objectId : String
deriving DecidableEq

abbrev Snapshot :=
  List FileStamp

def Snapshot.bytes (snapshot : Snapshot) : Nat :=
  (snapshot.map (·.length)).sum

structure Anchor where
  path : String
  objectId : String
deriving DecidableEq

inductive Source where
| present
| missing (anchor : Anchor)
| unavailable
deriving DecidableEq

structure Missing where
  schema : Nat
  identity : String
  sinceMs : Nat
  anchor : Anchor
  files : Snapshot
  legacyOptIn : Bool
  graceMs : Nat
deriving DecidableEq

structure Active where
  schema : Nat
  identity : String
  seenMs : Nat
deriving DecidableEq

structure UseRecord where
  schema : Nat
  workspaceIdentity : String
  lastUsedMs : Nat
deriving DecidableEq

/- The files of `.gc-state`, by the key of their entry. -/
structure StateFiles where
  observation : String → Option (MetadataFile Missing)
  active : String → Option (MetadataFile Active)

abbrev State :=
  Directory StateFiles

namespace StateFiles

def none : StateFiles where
  observation := fun _ => Option.none
  active := fun _ => Option.none

def setObservation
    (files : StateFiles)
    (key : String)
    (file : Option (MetadataFile Missing)) : StateFiles :=
  { files with
    observation :=
      fun other =>
        if other = key then file else files.observation other }

def setActive
    (files : StateFiles)
    (key : String)
    (file : Option (MetadataFile Active)) : StateFiles :=
  { files with
    active :=
      fun other =>
        if other = key then file else files.active other }

end StateFiles

namespace Directory

/- What a path through the directory finds. -/
def files : State → StateFiles
| .absent => StateFiles.none
| .faulty _ content => content
| .present content => content

def update
    (change : StateFiles → StateFiles) : State → State
| .absent => .absent
| .faulty error content => .faulty error (change content)
| .present content => .present (change content)

end Directory

----------
-- Policies and Reports
----------

structure Policy where
  apply : Bool := false
  includeLegacy : Bool := false
  graceMs : Nat := 86400000
  idleMs : Nat := 30 * 86400000
  maxBytes : Option Nat := none
  limit : Nat := 512
  after : String := ""
  identityCopyBytes : Nat := 16 * 1024 * 1024
deriving DecidableEq

structure Entry where
  key : String
  workspaceIdentity : Option String
  legacy : Bool
  bytes : Nat
  outcome : String
  reason : String
deriving DecidableEq

structure Report where
  schema : String := "arkts.index-cache-gc.v1"
  apply : Bool
  status : String
  scanned : Nat := 0
  observedBytes : Nat := 0
  potentialBytes : Nat := 0
  removedBytes : Nat := 0
  nextCursor : Option String := none
  budgetUnmet : Bool := false
  sizeUnknownEntries : Nat := 0
  entries : List Entry := []
  trashResults : List (String × String) := []
  issues : List String := []
deriving DecidableEq

----------
-- Surroundings
----------

/- When an entry is looked at. -/
inductive Stage where
| inspecting
| inspected
| proving
| retiring
deriving DecidableEq

/- What is found out about an entry at one stage. -/
structure Evidence where
  access : LockFile
  leases : Directory LockFile
  snapshot : Except String Snapshot
  useFile : Option (MetadataFile UseRecord)
  identity : Nat → Except String String
  prove : String → String → Except String Source
  databases : Except String Unit

/- The clock, read for each comparison and each record. -/
structure Readings where
  idle : Nat
  future : Nat
  since : Nat
  grace : Nat
  record : Nat
  seen : Nat
deriving DecidableEq

/- How the writing operations on an entry end. -/
structure Io where
  recordActivity : Option String := none
  removeObservation : Option String := none
  writeObservation : Option String := none
  writeProof : Option String := none
  rename : Option String := none
  moved : Except String Snapshot
  delete : Option String := none
  deleteProof : Option String := none
  cleanObservation : Option String := none
  cleanActive : Option String := none

def validateName (name : String) : Bool :=
  name.toList.length == 64 &&
    name.toList.all fun char =>
      ('0' ≤ char && char ≤ '9') ||
        ('a' ≤ char && char ≤ 'f')

/-
  The names of a directory.  No two entries have one name,
  but names that are not Unicode may look alike.
-/
structure Listing where
  names : List String
  distinct : (names.filter validateName).Nodup

structure Surroundings where
  cache : Directory Unit
  runLock : LockFile
  trash : Directory Unit
  trashResults : List (String × String)
  workspaces : Directory Listing
  evidence : Stage → String → Evidence
  clock : String → Readings
  io : String → Io

/- The naming of entries and the roots of identities. -/
structure Host where
  key : String → String
  root : String → Option String

/- Go on, or fail with an error. -/
def require
    (condition : Bool)
    (error : String) : Except String Unit :=
  if condition then Except.ok () else Except.error error

/- `Option::ok_or`. -/
def okOr
    {Value : Type}
    (value : Option Value)
    (error : String) : Except String Value :=
  match value with
  | some found => Except.ok found
  | none => Except.error error

/- Go on unless an operation has failed. -/
def succeed : Option String → Except String Unit
| none => Except.ok ()
| some error => Except.error error

----------
-- Leases
----------

/-
  Take a lock.  A missing file is created by an application
  and passed by in a preview; either way nobody holds it.
-/
def LockFile.tryLock
    (busy : String) : LockFile → Except String Unit
| .faulty error => Except.error error
| .held => Except.error busy
| .absent => Except.ok ()
| .free => Except.ok ()

def exclusive (evidence : Evidence) : Except String Unit := do
  evidence.access.tryLock "namespace-busy"
  match evidence.leases with
  | .absent => pure ()
  | .faulty error _ => throw error
  | .present lease => lease.tryLock "active-workspace"

----------
-- Inspection
----------

structure Candidate where
  entry : Entry
  identity : String
  snapshot : Snapshot
  root : String
  source : Source
  lastUsed : Option Nat
deriving DecidableEq

section Collect

variable (host : Host)

def approvedLegacyGrace
    (state : State)
    (key : String) : Option Nat :=
  match state with
  | .present files =>
      ((MetadataFile.readJson
          (files.observation key)).toOption.filter
            fun found =>
              found.schema == 1 && found.legacyOptIn &&
                host.key found.identity == key).map
        (·.graceMs)
  | _ => none

/- `activity::last_seen`. -/
def lastSeen
    (state : State)
    (key identity : String) :
    Except String (Option Nat) := do
  match state with
  | .absent => pure none
  | .faulty error _ => throw error
  | .present files =>
      match files.active key with
      | none => pure none
      | some file => do
          let found ← MetadataFile.readJson (some file)
          require
            (found.schema == 1 &&
              found.identity == identity &&
              host.key identity == key)
            "invalid-activity-observation"
          pure (some found.seenMs)

/- When a registered entry was used, none for a legacy one. -/
def lastUse
    (state : State)
    (evidence : Evidence)
    (key identity : String) :
    Except String (Option Nat) := do
  if MetadataFile.exists_ evidence.useFile then
    let found ← MetadataFile.readJson evidence.useFile
    require
      (found.schema == 1 &&
        found.workspaceIdentity == identity)
      "invalid-use-record"
    let seen ← lastSeen host state key identity
    pure (some (max found.lastUsedMs (seen.getD 0)))
  else
    pure none

variable (policy : Policy)

/- `inspect::candidate`. -/
def candidate
    (state : State)
    (evidence : Stage → Evidence)
    (name : String) : Except String Candidate := do
  let first := evidence .inspecting
  let before ← first.snapshot
  require (before.all (·.name != "retired.json"))
    "unexpected-retirement-marker"
  let registered := MetadataFile.exists_ first.useFile
  require
    (registered || policy.includeLegacy ||
      (approvedLegacyGrace host state name).isSome)
    "legacy-opt-in-required"
  let identity ← first.identity policy.identityCopyBytes
  require (host.key identity == name) "identity-key-mismatch"
  let lastUsed ← lastUse host state first name identity
  let root ←
    okOr (host.root identity) "unsupported-workspace-uri"
  let source ← first.prove root identity
  let after ← (evidence .inspected).snapshot
  require (after == before) "cache-changed-during-inspection"
  pure
    { entry :=
        { key := name
          workspaceIdentity := some identity
          legacy := !registered
          bytes := before.bytes
          outcome := "protected"
          reason := "" }
      identity := identity
      snapshot := before
      root := root
      source := source
      lastUsed := lastUsed }

/- What the first loop makes of one name. -/
def inspectEntry
    (state : State)
    (evidence : Stage → Evidence)
    (name : String) : Except String Candidate := do
  require (validateName name) "unsafe-cache-key"
  exclusive (evidence .inspecting)
  candidate host policy state evidence name

/- The use record of an entry that cannot be collected. -/
def marker
    (evidence : Stage → Evidence)
    (name : String) : Option UseRecord :=
  (MetadataFile.readJson
      (evidence .inspected).useFile).toOption.filter
    fun found =>
      found.schema == 1 &&
        host.key found.workspaceIdentity == name

/- What the first loop has gathered. -/
structure Inspection where
  scanned : Nat := 0
  observedBytes : Nat := 0
  sizeUnknownEntries : Nat := 0
  issues : List String := []
  entries : List Entry := []
  candidates : List Candidate := []
  state : State

/- `activity::record`, the only write of the first loop. -/
def recordActivity
    (around : Surroundings)
    (name identity : String)
    (state : State) : Except String State :=
  match state.files.active name, (around.io name).recordActivity
  with
  | some .linked, _ => Except.error "unsafe-metadata-target"
  | some .dangling, _ => Except.error "unsafe-metadata-target"
  | _, some error => Except.error error
  | _, none =>
      Except.ok
        (state.update (·.setActive name
          (some (.plain
            (Except.ok
              ⟨1, identity, (around.clock name).seen⟩)))))

/- The end of an entry that is no candidate. -/
def protectEntry
    (around : Surroundings)
    (name reason : String)
    (gathered : Inspection) : Inspection :=
  let found := marker host (around.evidence · name) name
  let snapshot := (around.evidence .inspected name).snapshot
  let recorded :=
    match found with
    | some use =>
        if policy.apply && reason == "active-workspace" then
          recordActivity around name use.workspaceIdentity
            gathered.state
        else
          Except.ok gathered.state
    | none => Except.ok gathered.state
  let bytes :=
    match snapshot with
    | Except.ok files => Snapshot.bytes files
    | Except.error _ => 0
  { scanned := gathered.scanned + 1
    observedBytes :=
      Store.saturatingAdd gathered.observedBytes bytes
    sizeUnknownEntries :=
      gathered.sizeUnknownEntries +
        (if snapshot.isOk then 0 else 1)
    issues :=
      match recorded with
      | Except.ok _ => gathered.issues
      | Except.error error =>
          gathered.issues ++
            ["active-use-record-failed: " ++ name ++ ": " ++
              error]
    entries :=
      gathered.entries ++
        [{ key := name
           workspaceIdentity :=
             found.map (·.workspaceIdentity)
           legacy := found.isNone
           bytes := bytes
           outcome := "protected"
           reason := reason }]
    candidates := gathered.candidates
    state :=
      match recorded with
      | Except.ok state => state
      | Except.error _ => gathered.state }

/- One turn of the first loop. -/
def inspectOne
    (around : Surroundings)
    (gathered : Inspection)
    (name : String) : Inspection :=
  match
    inspectEntry host policy gathered.state
      (around.evidence · name) name
  with
  | Except.ok found =>
      { gathered with
        scanned := gathered.scanned + 1
        observedBytes :=
          Store.saturatingAdd gathered.observedBytes
            found.entry.bytes
        candidates := gathered.candidates ++ [found] }
  | Except.error reason =>
      protectEntry host policy around name reason gathered

----------
-- Decisions
----------

/- Withdraw the observation of a source that is there. -/
def cancelObservation
    (around : Surroundings)
    (key : String)
    (state : State) : Except String State :=
  if policy.apply then
    match state.files.observation key with
    | none => Except.ok state
    | some .dangling => Except.ok state
    | some .linked => Except.error "unsafe-missing-observation"
    | some .directory =>
        Except.error "Is a directory (os error 21)"
    | some (.plain _) =>
        match (around.io key).removeObservation with
        | some error => Except.error error
        | none =>
            Except.ok (state.update (·.setObservation key none))
  else
    Except.ok state

/- Whether an entry with a source may go. -/
def idleVerdict
    (clock : Readings)
    (complete : Bool)
    (remaining : Nat)
    (lastUsed : Option Nat) : Except String String := do
  let last ← okOr lastUsed "legacy-last-use-unknown"
  require
    (decide
      (policy.idleMs ≤ clock.idle - last ∧
        last ≤ clock.future))
    "recently-used"
  require (policy.maxBytes.isNone || complete)
    "capacity-inventory-incomplete"
  require
    (policy.maxBytes.all fun most => decide (most < remaining))
    "within-capacity-budget"
  pure "idle-workspace"

/- The recorded observation, if it is of the same state. -/
def validObservation
    (clock : Readings)
    (state : State)
    (anchor : Anchor)
    (found : Candidate) : Option Missing :=
  (MetadataFile.readJson
      (state.files.observation found.entry.key)).toOption.filter
    fun old =>
      old.schema == 1 && old.identity == found.identity &&
        old.anchor == anchor && old.files == found.snapshot &&
        decide (old.sinceMs ≤ clock.since) &&
        found.lastUsed.all fun last =>
          decide (last ≤ old.sinceMs)

/- What is noted down about a source that is missing. -/
def newObservation
    (clock : Readings)
    (state : State)
    (anchor : Anchor)
    (found : Candidate) : Missing :=
  let approved := approvedLegacyGrace host state found.entry.key
  { schema := 1
    identity := found.identity
    sinceMs := clock.record
    anchor := anchor
    files := found.snapshot
    legacyOptIn :=
      found.entry.legacy &&
        (policy.includeLegacy || approved.isSome)
    graceMs := max policy.graceMs (approved.getD 0) }

/- `write_json` on the observation of an entry. -/
def writeObservation
    (around : Surroundings)
    (key : String)
    (value : Missing)
    (state : State) : Except String State :=
  match state.files.observation key,
    (around.io key).writeObservation with
  | some .linked, _ => Except.error "unsafe-metadata-target"
  | some .dangling, _ => Except.error "unsafe-metadata-target"
  | _, some error => Except.error error
  | _, none =>
      Except.ok
        (state.update (·.setObservation key
          (some (.plain (Except.ok value)))))

/- How a decision on an entry ends. -/
structure Verdict where
  result : Except String String
  observing : Bool
  state : State

/- The part of `evaluate` that finds a reason to collect. -/
def eligibility
    (around : Surroundings)
    (complete : Bool)
    (remaining : Nat)
    (state : State)
    (found : Candidate) : Verdict :=
  let key := found.entry.key
  let clock := around.clock key
  match found.source with
  | .unavailable =>
      ⟨Except.error "source-unavailable", false, state⟩
  | .present =>
      match cancelObservation policy around key state with
      | Except.error error => ⟨Except.error error, false, state⟩
      | Except.ok cancelled =>
          ⟨idleVerdict policy clock complete remaining
            found.lastUsed, false, cancelled⟩
  | .missing anchor =>
      match validObservation clock state anchor found with
      | some old =>
          if clock.grace - old.sinceMs
              < max policy.graceMs old.graceMs then
            ⟨Except.error "missing-grace-pending", false, state⟩
          else
            ⟨Except.ok "abandoned-temporary-workspace", false,
              state⟩
      | none =>
          if policy.apply then
            match
              writeObservation around key
                (newObservation host policy clock state anchor
                  found) state
            with
            | Except.error error =>
                ⟨Except.error error, false, state⟩
            | Except.ok written =>
                ⟨Except.error "missing-grace-unobserved", true,
                  written⟩
          else
            ⟨Except.error "missing-grace-unobserved", false,
              state⟩

/- What `retire` did: its issues, and whether it moved. -/
structure Retirement where
  result : Except String (List String)
  moved : Bool

/- Delete what was moved to the trash, if it is the same. -/
def deleteRetired
    (io : Io)
    (snapshot : Snapshot) : Except String (List String) := do
  let moved ← io.moved
  require (moved == snapshot)
    "retire-deferred: cache-changed-after-rename"
  succeed
    (io.delete.map fun error => "delete-deferred: " ++ error)
  pure
    ((io.deleteProof.map fun error =>
      "proof-cleanup-deferred: " ++ error).toList)

/- Move an entry to the trash, and delete it there. -/
def retire
    (around : Surroundings)
    (key : String)
    (snapshot : Snapshot) : Retirement :=
  let io := around.io key
  match around.trash, io.writeProof, io.rename with
  | .faulty error _, _, _ => ⟨Except.error error, false⟩
  | _, some error, _ => ⟨Except.error error, false⟩
  | _, _, some error =>
      ⟨Except.error ("retire-deferred: " ++ error), false⟩
  | _, none, none => ⟨deleteRetired io snapshot, true⟩

/- The files of an entry that go after it. -/
def cleanObservation
    (around : Surroundings)
    (key : String)
    (state : State) : State × List String :=
  if MetadataFile.exists_ (state.files.observation key) then
    match (around.io key).cleanObservation with
    | none => (state.update (·.setObservation key none), [])
    | some error =>
        (state,
          ["metadata-cleanup-deferred: .gc-state/" ++ key ++
            ".json: " ++ error])
  else
    (state, [])

def cleanActive
    (around : Surroundings)
    (key : String)
    (state : State) : State × List String :=
  if MetadataFile.exists_ (state.files.active key) then
    match (around.io key).cleanActive with
    | none => (state.update (·.setActive key none), [])
    | some error =>
        (state,
          ["metadata-cleanup-deferred: .gc-state/" ++ key ++
            ".active.json: " ++ error])
  else
    (state, [])

/- What became of a candidate. -/
structure Decision where
  candidate : Candidate
  remaining : Nat
  outcome : String
  reason : String
  moved : Bool
  issues : List String
  state : State

/- `protect_on_error`. -/
def protectOnError
    (error : String)
    (decision : Decision) : Decision :=
  let deferred :=
    ["retire-deferred", "delete-deferred",
      "proof-cleanup-deferred",
      "input-changed-before-retirement"].any
      (startsWith error ·)
  { decision with
    reason := error
    outcome :=
      if decision.outcome == "observing" then "observing"
      else if deferred then "deferred"
      else "protected" }

/- The check right before an entry is retired. -/
def unchanged
    (evidence : Stage → Evidence)
    (found : Candidate) : Except String Unit := do
  let snapshot ← (evidence .retiring).snapshot
  require (snapshot == found.snapshot)
    "input-changed-before-retirement"
  let source ←
    (evidence .retiring).prove found.root found.identity
  require (source == found.source)
    "input-changed-before-retirement"

/- The part of `evaluate` that follows a reason to collect. -/
def retireEligible
    (around : Surroundings)
    (eligible : Decision) : Decision :=
  let found := eligible.candidate
  let key := found.entry.key
  match unchanged (around.evidence · key) found with
  | Except.error error => protectOnError error eligible
  | Except.ok _ =>
      let retired := retire around key found.snapshot
      match retired.result with
      | Except.error error =>
          protectOnError error
            { eligible with moved := retired.moved }
      | Except.ok issues =>
          let observation :=
            cleanObservation around key eligible.state
          let active := cleanActive around key observation.1
          { eligible with
            outcome := "removed"
            moved := retired.moved
            issues := issues ++ observation.2 ++ active.2
            state := active.1 }

/- What is proved again before an entry is evaluated. -/
def proven
    (evidence : Stage → Evidence)
    (found : Candidate) : Except String Unit := do
  exclusive (evidence .proving)
  (evidence .proving).databases
  let snapshot ← (evidence .proving).snapshot
  require (snapshot == found.snapshot)
    "cache-changed-before-proof"

/- One turn of the second loop, with `evaluate` in it. -/
def decideOne
    (around : Surroundings)
    (complete : Bool)
    (remaining : Nat)
    (state : State)
    (found : Candidate) : Decision :=
  let start : Decision :=
    { candidate := found
      remaining := remaining
      outcome := found.entry.outcome
      reason := found.entry.reason
      moved := false
      issues := []
      state := state }
  match proven (around.evidence · found.entry.key) found with
  | Except.error error => protectOnError error start
  | Except.ok _ =>
      let verdict :=
        eligibility host policy around complete remaining state
          found
      match verdict.result with
      | Except.error error =>
          protectOnError error
            { start with
              outcome :=
                if verdict.observing then "observing"
                else start.outcome
              state := verdict.state }
      | Except.ok reason =>
          let eligible :=
            { start with
              outcome := "eligible"
              reason := reason
              state := verdict.state }
          if policy.apply then retireEligible around eligible
          else eligible

/- The bytes that a decision makes room for. -/
def Decision.freed (decision : Decision) : Nat :=
  if decision.outcome == "removed" ||
      decision.outcome == "eligible" then
    decision.candidate.entry.bytes
  else
    0

/- The second loop. -/
def decideAll
    (around : Surroundings)
    (complete : Bool) :
    List Candidate → Nat → State → List Decision
| [], _, _ => []
| found :: rest, remaining, state =>
    let decision :=
      decideOne host policy around complete remaining state
        found
    decision ::
      decideAll around complete rest
        (remaining - decision.freed) decision.state

def Decision.entry (decision : Decision) : Entry :=
  { decision.candidate.entry with
    outcome := decision.outcome
    reason := decision.reason }

----------
-- Collections
----------

/- Entries without a source first, then the oldest. -/
def candidateOrder (found : Candidate) : Nat ×ₗ Nat :=
  toLex
    (match found.source with
      | .missing _ => 0
      | _ => 1,
    found.lastUsed.getD 0)

def sortCandidates
    (candidates : List Candidate) : List Candidate :=
  candidates.insertionSort fun left right =>
    candidateOrder left ≤ candidateOrder right

def potentialReasons : List String :=
  ["missing-grace-unobserved", "missing-grace-pending",
    "abandoned-temporary-workspace", "idle-workspace"]

/- A collection: its report, what it did, what it leaves. -/
structure Collection where
  report : Except String Report
  decisions : List Decision := []
  state : State

/- The names that this collection looks at. -/
def pendingNames (names : List String) : List String :=
  (names.insertionSort (· ≤ ·)).filter (policy.after < ·)

def inspectAll
    (around : Surroundings)
    (state : State)
    (names : List String) : Inspection :=
  ((pendingNames policy names).take policy.limit).foldl
    (inspectOne host policy around)
    { state := state }

/- Where the next collection goes on. -/
def nextCursor (names : List String) : Option String :=
  let pending := pendingNames policy names
  if policy.limit < pending.length then
    pending[policy.limit - 1]?
  else
    none

/- The inventory that a budget can be measured against. -/
def inventoryComplete
    (names : List String)
    (gathered : Inspection) : Bool :=
  (nextCursor policy names).isNone && policy.after == "" &&
    gathered.sizeUnknownEntries == 0

def sortEntries (entries : List Entry) : List Entry :=
  entries.insertionSort fun left right => left.key ≤ right.key

/- The loops of `collect`, over the names of the entries. -/
def sweep
    (around : Surroundings)
    (trashResults : List (String × String))
    (names : List String)
    (state : State) : Collection :=
  let gathered := inspectAll host policy around state names
  let complete := inventoryComplete policy names gathered
  let decisions :=
    decideAll host policy around complete
      (sortCandidates gathered.candidates)
      gathered.observedBytes gathered.state
  let freed := (decisions.map (·.freed)).sum
  let report : Report :=
    { apply := policy.apply
      status :=
        if (nextCursor policy names).isSome then "partial"
        else "complete"
      scanned := gathered.scanned
      observedBytes := gathered.observedBytes
      potentialBytes :=
        ((decisions.filter fun decision =>
          potentialReasons.contains decision.reason).map
            (·.candidate.entry.bytes)).sum
      removedBytes :=
        ((decisions.filter fun decision =>
          decision.outcome == "removed").map
            (·.candidate.entry.bytes)).sum
      nextCursor := nextCursor policy names
      budgetUnmet :=
        policy.maxBytes.any fun most =>
          decide (most < gathered.observedBytes - freed) ||
            !complete
      sizeUnknownEntries := gathered.sizeUnknownEntries
      entries :=
        sortEntries
          (gathered.entries ++ decisions.map (·.entry))
      trashResults := trashResults
      issues :=
        gathered.issues ++ decisions.flatMap (·.issues) }
  { report := Except.ok report
    decisions := decisions
    state :=
      match decisions.getLast? with
      | some last => last.state
      | none => gathered.state }

/- The collection in a cache that is not busy. -/
def collectEntries
    (around : Surroundings)
    (trashResults : List (String × String))
    (state : State) : Collection :=
  match around.workspaces with
  | .absent =>
      { report :=
          Except.ok
            { apply := policy.apply
              status := "complete"
              trashResults := trashResults }
        state := state }
  | .faulty error _ =>
      { report := Except.error error, state := state }
  | .present listing =>
      sweep host policy around trashResults listing.names
        state

/- `collect`. -/
def collect
    (around : Surroundings)
    (state : State) : Collection :=
  if policy.limit = 0 then
    { report := Except.error "scan limit must be positive"
      state := state }
  else
    match around.cache with
    | .faulty error _ =>
        { report := Except.error error, state := state }
    | .absent =>
        { report :=
            Except.ok
              { apply := policy.apply, status := "complete" }
          state := state }
    | .present _ =>
        if policy.apply then
          match around.runLock, state with
          | .faulty error, _ =>
              { report := Except.error error, state := state }
          | .held, _ =>
              { report :=
                  Except.ok
                    { apply := true, status := "busy" }
                state := state }
          | _, .faulty error _ =>
              { report := Except.error error, state := state }
          | _, .absent =>
              collectEntries host policy around
                around.trashResults (.present StateFiles.none)
          | _, .present files =>
              collectEntries host policy around
                around.trashResults (.present files)
        else
          collectEntries host policy around [] state

end Collect

end CacheGc

end ArktsServer
