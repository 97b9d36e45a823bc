import Mathlib.Data.List.Basic

/-
  Values that several parts of the server pass around, each
  as its source declares it.

  Key definitions include:
    * `SemanticTextRange`, `MembershipStatus`
    * `FailureReason`
    * `CatalogStage`, `CatalogBuildProgress`
-/

namespace ArktsServer

/- `Number.MAX_SAFE_INTEGER`. -/
def maxSafeInteger : Nat := 9007199254740991

----------
-- Semantics
----------

structure SemanticTextRange where
  startLine : Nat
  startColumn : Nat
  endLine : Nat
  endColumn : Nat
deriving DecidableEq

inductive MembershipStatus where
| complete
| partially
deriving DecidableEq

/- Why a search for references is incomplete. -/
inductive FailureReason where
| projectMembershipIncomplete
| resourceBudgetExceeded
| sourceOutsideWorkspace
| sourceUnavailable
| sourceUnmappable
deriving DecidableEq

----------
-- Catalogs
----------

inductive CatalogStage where
| writing
| committing
| checkpointing
| validating
| publishing
| checking
| reusing
deriving DecidableEq

def CatalogStage.name : CatalogStage → String
| .writing => "writing"
| .committing => "committing"
| .checkpointing => "checkpointing"
| .validating => "validating"
| .publishing => "publishing"
| .checking => "checking"
| .reusing => "reusing"

/- What a catalog build reports to its observer. -/
structure CatalogBuildProgress where
  stage : CatalogStage
  writtenDocuments : Nat
  writtenRows : Nat
  checkpointedFrames : Nat
  walFrames : Nat
deriving DecidableEq

end ArktsServer
