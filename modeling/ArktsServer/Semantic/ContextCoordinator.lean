import ArktsServer.Lib.Interruption
import ArktsServer.Lib.OrderedMap
import Mathlib.Algebra.Order.Ring.Rat
import Mathlib.Data.List.Sort
import Mathlib.Data.Prod.Lex

/-
  The coordinator of the resident semantic contexts.  It
  leases contexts out by their ids, and evicts those without
  a lease when a pool is full, when memory runs out, or when
  they are removed.

  Contexts and callbacks belong to the surroundings.  A
  context can throw when it is trimmed or disposed, a
  factory when it is to create one, and a reading of the
  memory can be anything.  A resident is an object with an
  identity of its own, which is its sequence number here.

  Key definitions include:
    * `ResidentContext`, `SemanticContextLease`
    * `SemanticCoordinator`, `CoordinatorOptions`
    * `makeRoom`, `evict`, `acquire`, `releaseLease`
    * `applyMemoryPressure`, `disposeAll`
    * `CoordinatorCall`, `perform`
-/

----------
-- Residents and Leases
----------

namespace ArktsServer

namespace Semantic

inductive MemoryLevel where
| level0
| level1
| level2
| level3
deriving DecidableEq

structure ResidentContext (Context : Type) where
  context : Context
  sequence : Nat
  leaseCount : Nat
  lastAccess : Nat
  trimmed : Bool
  rebuildCostMs : Option ℚ
deriving DecidableEq

/-
  A lease in the hands of a caller, with the resident that
  its release refers to.
-/
structure SemanticContextLease (Context : Type) where
  contextId : String
  context : Context
  sequence : Nat
  released : Bool
deriving DecidableEq

inductive LifecycleEvent where
| create
| reuse
| trim
| evict
| cost
deriving DecidableEq

structure LifecycleNotice where
  event : LifecycleEvent
  contextSequence : Nat
  reason : String
  leaseCount : Nat
  residentContextCount : Nat
  rebuildCostMs : Option ℚ
deriving DecidableEq

/-
  What a coordinator does to the outside: calls of `trim`
  and `dispose` on contexts, and whether they have returned,
  and notices, whose errors are swallowed.
-/
inductive ContextEffect where
| trim (sequence : Nat) (returned : Bool)
| dispose (sequence : Nat) (returned : Bool)
| observe (notice : LifecycleNotice)
deriving DecidableEq

/-
  The fields of a coordinator, the leases it has handed out
  and what it has done to the outside.
-/
structure SemanticCoordinator (Context : Type) where
  contexts : OrderedMap String (ResidentContext Context)
  accessClock : Nat
  creationClock : Nat
  leases : List (SemanticContextLease Context)
  effects : List ContextEffect

namespace SemanticCoordinator

variable {Context : Type}

def new : SemanticCoordinator Context where
  contexts := OrderedMap.empty
  accessClock := 0
  creationClock := 0
  leases := []
  effects := []

variable (state : SemanticCoordinator Context)

def log
    (effect : ContextEffect) : SemanticCoordinator Context :=
  { state with effects := state.effects ++ [effect] }

def put
    (contextId : String)
    (resident : ResidentContext Context) :
    SemanticCoordinator Context :=
  { state with
    contexts := state.contexts.set contextId resident }

def drop
    (contextId : String) : SemanticCoordinator Context :=
  { state with contexts := state.contexts.delete contextId }

/- The leases of a resident that nobody has released. -/
def unreleased
    (sequence : Nat) : Nat :=
  state.leases.countP fun lease =>
    lease.sequence == sequence && !lease.released

end SemanticCoordinator

----------
-- Surroundings
----------

/- The constructor refuses a limit that is not positive. -/
structure CoordinatorOptions where
  maxResidentContexts : Option Nat
  costAwareEviction : Bool
  readsMemoryPressure : Bool
  isScanContext : String → Bool
  positive : ∀ limit ∈ maxResidentContexts, 1 ≤ limit

/-
  What one call meets outside: the contexts that throw, the
  context that the factory returns unless it throws, and the
  readings of the memory, of which each can throw.
-/
structure Surroundings (Context : Type) where
  throws : Nat → Bool
  created : Option Context
  reading : Nat → Option MemoryLevel

inductive CoordinatorFault where
| error (message : String)
| thrown
deriving DecidableEq

def contextIdRequired : CoordinatorFault :=
  .error "contextId is required"

def allContextsLeased : CoordinatorFault :=
  .error "all semantic contexts are leased"

abbrev Operation (Context Value : Type) :=
  EStateM CoordinatorFault (SemanticCoordinator Context) Value

----------
-- Eviction
----------

section Operations

variable {Context : Type}
variable (options : CoordinatorOptions)
variable (outside : Surroundings Context)

def observe
    (event : LifecycleEvent)
    (resident : ResidentContext Context)
    (reason : String) : Operation Context Unit :=
  modify fun state =>
    state.log
      (.observe
        { event := event
          contextSequence := resident.sequence
          reason := reason
          leaseCount := resident.leaseCount
          residentContextCount :=
            state.contexts.entries.length
          rebuildCostMs := resident.rebuildCostMs })

/- A call of `trim` or of `dispose` on a context. -/
def callContext
    (effect : Nat → Bool → ContextEffect)
    (sequence : Nat) : Operation Context Unit := do
  let returned := !outside.throws sequence
  modify fun state => state.log (effect sequence returned)
  if returned then pure () else throw .thrown

def evict
    (contextId : String)
    (resident : ResidentContext Context)
    (reason : String) : Operation Context Unit := do
  callContext outside .dispose resident.sequence
  modify fun state => state.drop contextId
  observe .evict resident reason

/- The entries that a policy chooses its victims from. -/
abbrev Candidates (Context : Type) :=
  List (String × ResidentContext Context)

/- Scan contexts come first, and then the oldest ones. -/
def coldOrder
    (entry : String × ResidentContext Context) :
    Bool ×ₗ Nat :=
  toLex (!options.isScanContext entry.1, entry.2.lastAccess)

def coldUnleasedContexts
    (state : SemanticCoordinator Context) :
    Candidates Context :=
  (state.contexts.entries.filter fun entry =>
    entry.2.leaseCount == 0).insertionSort
      fun left right =>
        coldOrder options left ≤ coldOrder options right

def costOrder
    (entry : String × ResidentContext Context) :
    ℚ ×ₗ Nat :=
  toLex (entry.2.rebuildCostMs.getD 0, entry.2.lastAccess)

def usesCost (candidates : Candidates Context) : Bool :=
  options.costAwareEviction &&
    decide (1 < candidates.length) &&
    candidates.all (·.2.rebuildCostMs.isSome) &&
    candidates.any fun entry =>
      entry.2.rebuildCostMs !=
        (candidates.head?.bind (·.2.rebuildCostMs))

/- The candidates, and whether their costs have sorted them. -/
def rankByRebuildCost
    (candidates : Candidates Context) :
    Candidates Context × Bool :=
  if usesCost options candidates then
    (candidates.insertionSort fun left right =>
      costOrder left ≤ costOrder right, true)
  else
    (candidates, false)

def inPool (scan : Bool) (contextId : String) : Bool :=
  options.isScanContext contextId == scan

def pool
    (scan : Bool)
    (state : SemanticCoordinator Context) : List String :=
  state.contexts.keys.filter (inPool options scan)

def poolLimit (limit : Nat) (scan : Bool) : Nat :=
  if scan then 1 else limit

/- The candidates of a pool, and whether costs sort them. -/
def poolCandidates
    (scan : Bool)
    (state : SemanticCoordinator Context) :
    Candidates Context × Bool :=
  rankByRebuildCost options
    ((coldUnleasedContexts options state).filter
      fun entry => inPool options scan entry.1)

def evictFirst
    (ranked : Candidates Context × Bool) :
    Operation Context Unit :=
  match ranked.1 with
  | [] => throw allContextsLeased
  | candidate :: _ =>
      evict outside candidate.1 candidate.2
        (if ranked.2 then "capacity-cost" else "capacity-lru")

/- The loop of `#makeRoom`, which evicts in every turn. -/
def makeRoomLoop
    (scan : Bool)
    (limit : Nat) : Nat → Operation Context Unit
| 0 => pure ()
| fuel + 1 => do
    let state ← get
    if (pool options scan state).length < limit then
      pure ()
    else
      evictFirst outside (poolCandidates options scan state)
      makeRoomLoop scan limit fuel

def makeRoom (contextId : String) :
    Operation Context Unit := do
  let state ← get
  match options.maxResidentContexts with
  | none => pure ()
  | some limit =>
      let scan := options.isScanContext contextId
      makeRoomLoop options outside scan
        (poolLimit limit scan)
        ((pool options scan state).length + 1)

----------
-- Leases
----------

variable (contextId : String)

/-
  Count one more lease of a resident and hand it out.  Its
  place in the list of leases is what a caller holds.
-/
def leaseOut
    (resident : ResidentContext Context)
    (promoteRecency : Bool)
    (state : SemanticCoordinator Context) :
    SemanticCoordinator Context :=
  let clock :=
    if promoteRecency then state.accessClock + 1
    else state.accessClock
  let leased :=
    { resident with
      leaseCount := resident.leaseCount + 1
      lastAccess :=
        if promoteRecency then clock
        else resident.lastAccess }
  { state with
    contexts := state.contexts.set contextId leased
    accessClock := clock
    leases :=
      state.leases ++
        [⟨contextId, resident.context, resident.sequence,
          false⟩] }

/- Lease out what a map holds by now, and say so. -/
def leaseResident
    (resident : ResidentContext Context)
    (promoteRecency : Bool)
    (event : LifecycleEvent)
    (reason : String) : Operation Context Unit := do
  modify (leaseOut contextId resident promoteRecency)
  observe event
    { resident with leaseCount := resident.leaseCount + 1 }
    reason

variable (context : Context)

/- The resident of a context that was just created. -/
def newResident
    (sequence : Nat) : ResidentContext Context where
  context := context
  sequence := sequence
  leaseCount := 0
  lastAccess := 0
  trimmed := false
  rebuildCostMs := none

def admitContext
    (state : SemanticCoordinator Context) :
    SemanticCoordinator Context :=
  { state with
    creationClock := state.creationClock + 1
    contexts :=
      state.contexts.set contextId
        (newResident context (state.creationClock + 1)) }

/- A context that is not there has to be created. -/
def acquireMissing
    (promoteRecency : Bool) : Operation Context Unit := do
  makeRoom options outside contextId
  match outside.created with
  | none => throw .thrown
  | some context =>
      let state ← get
      modify (admitContext contextId context)
      leaseResident contextId
        (newResident context (state.creationClock + 1))
        promoteRecency .create "missing"

def acquire
    (contextId : String)
    (promoteRecency : Bool) : Operation Context Unit := do
  let state ← get
  if contextId = "" then
    throw contextIdRequired
  else
    match state.contexts.get contextId with
    | some resident =>
        leaseResident contextId resident promoteRecency .reuse
          "acquire"
    | none =>
        acquireMissing options outside contextId promoteRecency

/- What a release does to the resident that it refers to. -/
def releaseResident
    (lease : SemanticContextLease Context)
    (contexts :
      OrderedMap String (ResidentContext Context)) :
    OrderedMap String (ResidentContext Context) :=
  match contexts.get lease.contextId with
  | none => contexts
  | some current =>
      if current.sequence ≠ lease.sequence ∨
          current.leaseCount = 0 then
        contexts
      else
        contexts.set lease.contextId
          { current with
            leaseCount := current.leaseCount - 1 }

def releaseLease
    (index : Nat)
    (state : SemanticCoordinator Context) :
    SemanticCoordinator Context :=
  match state.leases[index]? with
  | none => state
  | some lease =>
      if lease.released then
        state
      else
        { state with
          leases :=
            state.leases.set index
              { lease with released := true }
          contexts :=
            releaseResident lease state.contexts }

----------
-- The Other Calls
----------

def remove
    (contextId reason : String) :
    Operation Context Bool := do
  let state ← get
  match state.contexts.get contextId with
  | none => pure false
  | some resident =>
      if 0 < resident.leaseCount then
        pure false
      else
        evict outside contextId resident reason
        pure true

variable [DecidableEq Context]

def markSemanticWork
    (state : SemanticCoordinator Context) :
    SemanticCoordinator Context :=
  match state.contexts.get contextId with
  | none => state
  | some resident =>
      if resident.context = context then
        state.put contextId { resident with trimmed := false }
      else
        state

/- A cost that is not finite is `none`. -/
def recordRebuildCost
    (rebuildCostMs : Option ℚ) :
    Operation Context Unit := do
  let state ← get
  match state.contexts.get contextId, rebuildCostMs with
  | some resident, some cost =>
      if resident.context ≠ context ∨ cost ≤ 0 then
        pure ()
      else
        let costly :=
          { resident with rebuildCostMs := some cost }
        modify fun state => state.put contextId costly
        observe .cost costly "compiler-build"
  | _, _ => pure ()

omit [DecidableEq Context]

def trimResident
    (resident : ResidentContext Context) :
    Operation Context Unit := do
  if resident.trimmed then
    pure ()
  else
    callContext outside .trim resident.sequence
    modify fun state =>
      state.put contextId { resident with trimmed := true }
    observe .trim resident "memory-level2"

/- What happens to one candidate at a level. -/
def relieve
    (level : MemoryLevel)
    (entry : String × ResidentContext Context) :
    Operation Context Unit :=
  if level = .level2 then
    trimResident outside entry.1 entry.2
  else
    evict outside entry.1 entry.2 "memory-level3"

/- The loop over the candidates, with a count of readings. -/
def pressureLoop
    (level : MemoryLevel) :
    Nat → Candidates Context → Operation Context MemoryLevel
| _, [] => pure level
| count, entry :: entries => do
    relieve outside level entry
    if options.readsMemoryPressure then
      match outside.reading count with
      | none => throw .thrown
      | some reading =>
          if reading = level then
            pressureLoop level (count + 1) entries
          else
            pure reading
    else
      pressureLoop level (count + 1) entries

def applyMemoryPressure
    (level : MemoryLevel) :
    Operation Context MemoryLevel := do
  if level = .level0 ∨ level = .level1 then
    pure level
  else
    let state ← get
    let cold := coldUnleasedContexts options state
    let candidates :=
      if level = .level3 then
        (rankByRebuildCost options cold).1
      else
        cold
    pressureLoop options outside level 0 candidates

def evictAll
    (reason : String) :
    Candidates Context → Operation Context Unit
| [] => pure ()
| entry :: entries => do
    evict outside entry.1 entry.2 reason
    evictAll reason entries

/- `dispose`, leases or not. -/
def disposeAll (reason : String) :
    Operation Context Unit := do
  let state ← get
  evictAll outside reason state.contexts.entries

end Operations

----------
-- Calls
----------

inductive CoordinatorCall (Context : Type) where
| acquire (contextId : String) (promoteRecency : Bool)
| release (lease : Nat)
| remove (contextId reason : String)
| markSemanticWork (contextId : String) (context : Context)
| recordRebuildCost
    (contextId : String)
    (context : Context)
    (rebuildCostMs : Option ℚ)
| applyMemoryPressure (level : MemoryLevel)
| dispose (reason : String)

section Calls

variable {Context : Type} [DecidableEq Context]
variable (options : CoordinatorOptions)

def perform
    (outside : Surroundings Context) :
    CoordinatorCall Context → Operation Context Unit
| .acquire contextId promoteRecency =>
    acquire options outside contextId promoteRecency
| .release lease => modify (releaseLease lease)
| .remove contextId reason => do
    let _ ← remove outside contextId reason
    pure ()
| .markSemanticWork contextId context =>
    modify (markSemanticWork contextId context)
| .recordRebuildCost contextId context rebuildCostMs =>
    recordRebuildCost contextId context rebuildCostMs
| .applyMemoryPressure level => do
    let _ ← applyMemoryPressure options outside level
    pure ()
| .dispose reason => disposeAll outside reason

/- A call, and what it meets outside. -/
abbrev CoordinatorEvent (Context : Type) :=
  CoordinatorCall Context × Surroundings Context

def answer
    (state : SemanticCoordinator Context)
    (event : CoordinatorEvent Context) :
    EStateM.Result CoordinatorFault
      (SemanticCoordinator Context) Unit :=
  perform options event.2 event.1 state

/- The state after a call, also after one that has thrown. -/
def stateAfter
    (state : SemanticCoordinator Context)
    (event : CoordinatorEvent Context) :
    SemanticCoordinator Context :=
  match answer options state event with
  | .ok _ next => next
  | .error _ next => next

end Calls

end Semantic

end ArktsServer
