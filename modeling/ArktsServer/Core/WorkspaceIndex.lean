import ArktsServer.Core.DocumentMetadata
import ArktsServer.Core.SymbolRanking

/-
  The workspace index in front of a symbol store: a refresh
  parses the changed documents, sends one batch to the store
  and reports what the store accepted.

  Key definitions include:
    * `refreshBatch`, `refreshReport`
    * `WorkspaceIndex.refresh`
    * `ensureNewerGeneration`
-/

----------
-- Reports
----------

namespace ArktsServer

structure RefreshReport where
  indexedDocuments : Nat
  rejectedDocuments : List String
  committedGeneration : Nat
  state : IndexState
deriving DecidableEq

/- A store that rejected something is degraded. -/
def stateOfRejected (rejected : List String) : IndexState :=
  if rejected.isEmpty then .ready else .degraded

def refreshReport
    (indexedDocuments : Nat)
    (receipt : CommitReceipt) : RefreshReport where
  indexedDocuments := indexedDocuments
  rejectedDocuments := receipt.rejectedDocuments
  committedGeneration := receipt.committedGeneration
  state := stateOfRejected receipt.rejectedDocuments

def ensureNewerGeneration
    (current next : Nat) : Except StoreError Unit :=
  if current < next then
    Except.ok ()
  else
    Except.error
      ⟨.invalidGeneration,
        "generation " ++ toString next ++
          " must be newer than committed generation " ++
          toString current⟩

----------
-- Refreshing
----------

/- Sort and remove duplicates. -/
def sortedUnique (uris : List String) : List String :=
  (OrderedSet.ofList uris).toList

/- The batch that a refresh sends to the store. -/
def refreshBatch
    (unicode : Unicode)
    (generation : Nat)
    (changedDocuments : List Document)
    (removedUris : List String) : RefreshBatch where
  generation := generation
  replacements :=
    changedDocuments.filterMap (parseDocumentSymbols unicode)
  removedUris := sortedUnique removedUris
  rejectedUris :=
    sortedUnique
      ((changedDocuments.filter fun document =>
        (parseDocumentSymbols unicode document).isNone).map
          (·.uri))

/- `WorkspaceIndex::refresh` over a store's `apply_batch`. -/
def WorkspaceIndex.refresh
    (unicode : Unicode)
    (applyBatch :
      RefreshBatch → Except StoreError CommitReceipt)
    (generation : Nat)
    (changedDocuments : List Document)
    (removedUris : List String) :
    Except StoreError RefreshReport :=
  let batch :=
    refreshBatch unicode generation changedDocuments
      removedUris
  (applyBatch batch).map
    (refreshReport batch.replacements.length)

end ArktsServer
