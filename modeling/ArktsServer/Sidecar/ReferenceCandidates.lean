import ArktsServer.Lib.Json
import ArktsServer.Core.BindingSources

/-
  The `references/candidates` method of the sidecar: which
  parameters it accepts, and how it writes the result of the
  store.

  Key definitions include:
    * `ProtocolError`, `Completeness`
    * `ReferenceCandidatesParams`
    * `checkReferenceCandidates`
    * `referenceCandidatesJson`
-/

----------
-- Protocol Errors
----------

namespace ArktsServer

namespace Sidecar

/- An error of the protocol, as it is sent. -/
structure ProtocolError where
  code : String
  message : String
deriving DecidableEq

def invalidParams (message : String) : ProtocolError :=
  ⟨"invalid_params", message⟩

def notInitialized : ProtocolError :=
  ⟨"not_initialized",
    "initialize must succeed before this method"⟩

/- Each kind of store error has a code of its own. -/
def storeErrorCode : StoreErrorKind → String
| .busy => "busy"
| .corrupt => "corrupt"
| .incompatible => "incompatible"
| .workspaceMismatch => "workspace_mismatch"
| .invalidData => "invalid_data"
| .invalidGeneration => "invalid_generation"
| .io => "io"
| .internal => "internal"

def protocolStoreError (error : StoreError) : ProtocolError :=
  ⟨storeErrorCode error.kind, error.message⟩

/- How far the index of the workspace is. -/
inductive Completeness where
| stale
| partial_
| ready
deriving DecidableEq

def Completeness.name : Completeness → String
| .stale => "stale"
| .partial_ => "partial"
| .ready => "ready"

----------
-- Parameters
----------

/- The bounds of the parameters. -/
def maxExcludedUris : Nat := 256
def maxExcludedUriBytes : Nat := 4096
def maxExcludedUriTotalBytes : Nat := 64 * 1024
def maxReferenceCandidates : Nat := 65536
def maxReferenceSourceResolutions : Nat := 4096
def maxReferenceSourceSpecifierBytes : Nat := 4096
def maxReferenceSourceResolutionBytes : Nat :=
  8 * 1024 * 1024

/- One entry of a bounded URI list, with the bytes so far. -/
def excludedUriStep
    (totalBytes : Nat)
    (uri : String) : Except ProtocolError Nat :=
  if uri = "" ∨ maxExcludedUriBytes < byteLength uri then
    Except.error
      (invalidParams
        ("each excludedUris entry must contain 1..=" ++
          toString maxExcludedUriBytes ++ " UTF-8 bytes"))
  else if maxExcludedUriTotalBytes <
      totalBytes + byteLength uri then
    Except.error
      (invalidParams
        ("excludedUris must contain at most " ++
          toString maxExcludedUriTotalBytes ++
          " UTF-8 bytes"))
  else
    Except.ok (totalBytes + byteLength uri)

/- A URI list has few entries, and few bytes in all. -/
def validateExcludedUris
    (uris : List String) : Except ProtocolError Unit :=
  if maxExcludedUris < uris.length then
    Except.error
      (invalidParams
        ("excludedUris must contain at most " ++
          toString maxExcludedUris ++ " entries"))
  else do
    let _ ← uris.foldlM excludedUriStep 0
    pure ()

/- Admitted roots are told as one error, and are files. -/
def validateAdmittedRootUris
    (uris : List String) : Except ProtocolError Unit :=
  match validateExcludedUris uris with
  | Except.error _ =>
      Except.error
        (invalidParams
          ("admittedRootUris must contain at most " ++
            toString maxExcludedUris ++
            " bounded URI entries"))
  | Except.ok _ =>
      if uris.any fun uri => !startsWith uri "file://" then
        Except.error
          (invalidParams
            "each admittedRootUris entry must be a file URI")
      else
        Except.ok ()

/- Exactly one target, of a valid form. -/
def validResolutionTarget
    (resolution : ReferenceSourceResolution) : Bool :=
  match resolution.resolvedSourceUri,
      resolution.externalTerminalIdentity with
  | some uri, none =>
      uri != "" &&
        decide (byteLength uri ≤ maxExcludedUriBytes)
  | none, some identity =>
      validExternalTerminalIdentity identity &&
        validSdkModuleSpecifier resolution.sourceSpecifier
  | _, _ => false

/- What a resolution counts towards the byte bound. -/
def resolutionBytes
    (resolution : ReferenceSourceResolution) : Nat :=
  byteLength resolution.bindingUri +
    byteLength resolution.sourceSpecifier +
    (resolution.resolvedSourceUri.map byteLength).getD 0 +
    (resolution.externalTerminalIdentity.map
      byteLength).getD 0

/- One resolution, with the bytes so far. -/
def resolutionStep
    (totalBytes : Nat)
    (resolution : ReferenceSourceResolution) : Option Nat :=
  if resolution.bindingUri = "" ∨
      maxExcludedUriBytes <
        byteLength resolution.bindingUri ∨
      resolution.sourceSpecifier = "" ∨
      maxReferenceSourceSpecifierBytes <
        byteLength resolution.sourceSpecifier then
    none
  else if validResolutionTarget resolution = false then
    none
  else if maxReferenceSourceResolutionBytes <
      totalBytes + resolutionBytes resolution then
    none
  else
    some (totalBytes + resolutionBytes resolution)

def validReferenceSourceResolutions
    (resolutions : List ReferenceSourceResolution) : Bool :=
  decide (resolutions.length ≤
      maxReferenceSourceResolutions) &&
    (resolutions.foldlM resolutionStep 0).isSome

/- The parameters of the method, as they are decoded. -/
structure ReferenceCandidatesParams where
  declarationUri : String
  declarationPosition : Position
  limit : Nat
  sourceResolutions : List ReferenceSourceResolution
  admittedRootUris : List String

/- The checks in front of the store call. -/
def checkReferenceCandidates
    (params : ReferenceCandidatesParams) :
    Except ProtocolError ReferenceCandidateQuery := do
  validateAdmittedRootUris params.admittedRootUris
  if params.declarationUri = "" ∨
      maxExcludedUriBytes <
        byteLength params.declarationUri ∨
      params.limit = 0 ∨
      maxReferenceCandidates < params.limit ∨
      validReferenceSourceResolutions
        params.sourceResolutions = false then
    throw
      (invalidParams
        ("declarationUri must contain 1..=" ++
          toString maxExcludedUriBytes ++
          " UTF-8 bytes and limit must be in 1..=" ++
          toString maxReferenceCandidates ++
          "; sourceResolutions must contain bounded " ++
          "binding/specifier pairs with exactly one " ++
          "valid target"))
  else
    pure
      ⟨params.declarationUri, params.declarationPosition,
        params.limit⟩

----------
-- Responses
----------

/- The names that the protocol has for the enumerations. -/
def referenceBindingKindName : ReferenceBindingKind → String
| .import_ => "import"
| .reExport => "reexport"

def referenceBindingResolutionName :
    ReferenceBindingResolution → String
| .unique => "unique"
| .external => "external"
| .unresolved => "unresolved"
| .ambiguous => "ambiguous"
| .unsupported => "unsupported"

/- An external identity is left out where there is none. -/
def referenceBindingJson (binding : ReferenceBinding) : Json :=
  .obj
    ([("kind", .str (referenceBindingKindName binding.kind)),
      ("uri", .str binding.uri),
      ("importedName", .str binding.importedName),
      ("localName", .str binding.localName),
      ("sourceSpecifier", .str binding.sourceSpecifier),
      ("sourceResolution",
        .str (referenceBindingResolutionName
          binding.sourceResolution)),
      ("resolvedSourceUri",
        .ofOption .str binding.resolvedSourceUri)] ++
      Json.optionalField "externalTerminalIdentity" .str
        binding.externalTerminalIdentity)

/-
  The response.  Only the two completeness fields are masked
  by the completeness of the runtime.
-/
def referenceCandidatesJson
    (completeness : Completeness)
    (result : ReferenceCandidateSearchResult) : Json :=
  .obj
    [("supported", .bool result.supported),
      ("complete",
        .bool
          (result.complete &&
            decide (completeness = .ready))),
      ("identityComplete",
        .bool
          (result.identityComplete &&
            decide (completeness = .ready))),
      ("identityUris", .strings result.identityUris),
      ("narrowedUris", .strings result.narrowedUris),
      ("declarationUri",
        .ofOption .str result.declarationUri),
      ("declarationIdentity",
        .ofOption .str result.declarationIdentity),
      ("names", .strings result.names),
      ("uris", .strings result.uris),
      ("bindings",
        .arr (result.bindings.map referenceBindingJson)),
      ("servedGeneration", .num result.servedGeneration),
      ("completeness", .str completeness.name)]

end Sidecar

end ArktsServer
