import ArktsServer.Client.CatalogStatus

/-
  One catalog run of the client: what it does with events,
  with the answers to its requests and with an abort.

  A failed check leaves what the client has done before it;
  such a step returns the run of that moment with the error.

  Key definitions include:
    * `Client.CatalogRun`
    * `Client.reportCatalogProgress`
    * `Client.acceptCatalogEvent`
    * `Client.beginCatalog`, `Client.cancelCatalog`
-/

----------
-- Runs
----------

namespace ArktsServer

namespace Client

open Sidecar

/-
  `reported`, `resolved` and `rejected` log the calls of
  `report`, `resolve` and `reject`; `cancelRequests` are the
  cancel requests on their way to the sidecar.
-/
structure CatalogRun where
  bufferedEvents : List Json := []
  generation : Option Nat := none
  abortRequested : Bool := false
  cancelStarted : Bool := false
  lastProgress : Option CatalogProgressMark := none
  settled : Bool := false
  reported : List WorkspaceIndexProgress := []
  resolved : Nat := 0
  rejected : List String := []
  cancelRequests : List Nat := []

/- A step of a run, or the run at its protocol error. -/
abbrev RunStep := Except (CatalogRun × String) CatalogRun

/- A check in the middle of a run. -/
def CatalogRun.check
    {α : Type}
    (run : CatalogRun)
    (checked : Checked α) :
    Except (CatalogRun × String) α :=
  checked.mapError fun message => (run, message)

namespace CatalogRun

variable (run : CatalogRun)

def validateCatalogGeneration
    (mapped : MappedCatalogStatus) : Checked Unit :=
  if run.generation = none then
    throw
      "index sidecar catalog status arrived before generation"
  else if mapped.terminal = false then
    if mapped.buildingGeneration ≠ run.generation then
      throw
        "index sidecar catalog status used the wrong generation"
    else
      pure ()
  else if (mapped.phase = .ready ∨ mapped.phase = .partial_) ∧
      some mapped.committedGeneration ≠ run.generation then
    throw
      ("index sidecar catalog terminal committed the " ++
        "wrong generation")
  else if mapped.phase = .cancelled ∧
      run.cancelStarted = false then
    throw
      ("index sidecar cancelled a catalog that was not " ++
        "cancelled")
  else
    pure ()

def advanceCatalogWatchdog
    (mark : CatalogProgressMark) : RunStep := do
  match run.lastProgress with
  | some previous =>
      run.check (assertMonotonicCatalogProgress previous mark)
  | none => pure ()
  pure { run with lastProgress := some mark }

def reportCatalogProgress
    (mapped : MappedCatalogStatus) : RunStep :=
  if run.settled then
    pure run
  else
    let run :=
      { run with
        reported := run.reported ++ [mapped.progress] }
    if mapped.terminal = false then
      if run.cancelStarted ∧ mapped.phase = .cancelling then
        pure run
      else
        run.advanceCatalogWatchdog mapped.mark
    else
      pure
        { run with
          settled := true
          resolved := run.resolved + 1 }

def reportCatalogStatus
    (value : Option Json) : RunStep := do
  let mapped ← run.check (mapCatalogStatus value)
  run.check (run.validateCatalogGeneration mapped)
  run.reportCatalogProgress mapped

/- The parameters of a protocol event. -/
def eventParam (event : Json) (key : String) : Option Json :=
  (event.field "params").bind fun params => params.field key

def applyCatalogEvent
    (event : Json) : RunStep :=
  run.reportCatalogStatus (eventParam event "status")

/- The identity that an event carries. -/
def eventIdentity (event : Json) : Option String :=
  match eventParam event "workspaceIdentity" with
  | some (.str identity) => some identity
  | _ => none

def acceptCatalogEvent
    (workspaceIdentity : String)
    (run : CatalogRun)
    (event : Json) : RunStep :=
  if run.settled then
    pure run
  else if eventIdentity event ≠ some workspaceIdentity then
    throw
      (run,
        "index sidecar catalog event used the wrong " ++
          "workspace identity")
  else
    match run.generation with
    | none =>
        pure
          { run with
            bufferedEvents := run.bufferedEvents ++ [event] }
    | some _ => run.applyCatalogEvent event

/- `cancelCatalog` up to its request. -/
def cancelCatalog (run : CatalogRun) : CatalogRun :=
  match run.generation with
  | none => run
  | some generation =>
      if run.settled ∨ run.cancelStarted then
        run
      else
        { run with
          cancelStarted := true
          cancelRequests :=
            run.cancelRequests ++ [generation] }

/- The listener of the abort signal. -/
def onAbort (run : CatalogRun) : CatalogRun :=
  if run.settled then
    run
  else
    { run with abortRequested := true }.cancelCatalog

/- Apply the events that came before the start response. -/
def applyBufferedEvents :
    List Json → CatalogRun → RunStep
| [], run => pure run
| event :: events, run =>
    if run.settled then
      pure run
    else do
      let run ← run.applyCatalogEvent event
      applyBufferedEvents events run

/- `beginCatalog` behind the response to its request. -/
def beginCatalog
    (response : Json) : RunStep := do
  let result ← run.check (asRecord (some response))
  match result.field "accepted",
      isNonNegativeInteger (result.field "generation") with
  | some (.bool _), some generation => do
      let run := { run with generation := some generation }
      let run ← run.reportCatalogStatus (result.field "status")
      let events := run.bufferedEvents
      let run := { run with bufferedEvents := [] }
      let run ← applyBufferedEvents events run
      if run.abortRequested ∧ run.settled = false then
        pure run.cancelCatalog
      else
        pure run
  | _, _ =>
      throw
        (run,
          "index sidecar returned an invalid catalog start " ++
            "result")

/- `cancelCatalog` behind the response to its request. -/
def finishCancel
    (response : Json) : RunStep := do
  let result ← run.check (asRecord (some response))
  match result.field "cancelled",
      result.field "generation" with
  | some (.bool _), some (.num generation) =>
      if some generation = run.generation then
        run.reportCatalogStatus (result.field "status")
      else
        throw
          (run,
            "index sidecar returned an invalid catalog " ++
              "cancel result")
  | _, _ =>
      throw
        (run,
          "index sidecar returned an invalid catalog cancel " ++
            "result")

def rejectCatalog
    (message : String) : CatalogRun :=
  if run.settled then
    run
  else
    { run with
      settled := true
      rejected := run.rejected ++ [message] }

end CatalogRun

end Client

end ArktsServer
