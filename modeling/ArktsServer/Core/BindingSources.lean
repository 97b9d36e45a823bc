import Mathlib.Data.List.Sort
import Mathlib.Data.Prod.Lex
import ArktsServer.Core.Types

/-
  Where the source of a binding lives.  A relative specifier
  names a short list of candidate document URIs; a binding
  is unique when exactly one of them is indexed.  Callers
  may add resolutions of their own for the remaining
  bindings.

  Key definitions include:
    * `relativeSourceUriCandidates`
    * `referenceUriAdmitted`
    * `applyReferenceSourceResolutions`
-/

----------
-- Text Operations
----------

namespace ArktsServer

/- `str::starts_with`. -/
def startsWith (text pattern : String) : Bool :=
  pattern.toList.isPrefixOf text.toList

/- `str::ends_with`. -/
def endsWith (text pattern : String) : Bool :=
  pattern.toList.isSuffixOf text.toList

/- `str::strip_prefix`. -/
def stripPrefix (text pattern : String) : Option String :=
  if startsWith text pattern then
    some (String.ofList
      (text.toList.drop pattern.toList.length))
  else
    none

/- `str::contains` for a set of characters. -/
def containsAny (text : String) (chars : List Char) : Bool :=
  text.toList.any (fun char => chars.contains char)

/- `str::len`: the number of UTF-8 bytes. -/
def byteLength (text : String) : Nat :=
  text.toList.foldr
    (fun char total => char.utf8Size + total) 0

----------
-- Relative Source Candidates
----------

/- One hexadecimal digit of `{byte:02X}`. -/
def upperHexDigit (value : Nat) : Char :=
  if value < 10 then
    Char.ofNat ('0'.toNat + value)
  else
    Char.ofNat ('A'.toNat + (value - 10))

/- A byte of `percent_encode_uri_path` that stays itself. -/
def isUriPathByte (byte : UInt8) : Bool :=
  let char := Char.ofNat byte.toNat
  decide (byte.toNat < 128) &&
    (char.isAlphanum ||
      ['-', '.', '_', '~', '/', ':'].contains char)

def percentEncodeUriPath (chars : List Char) : List Char :=
  (chars.flatMap String.utf8EncodeChar).flatMap fun byte =>
    if isUriPathByte byte then
      [Char.ofNat byte.toNat]
    else
      ['%', upperHexDigit (byte.toNat / 16),
        upperHexDigit (byte.toNat % 16)]

/-
  Normalise path segments: empty and `.` segments vanish and
  `..` removes the segment before it, failing at the root.
-/
def normalizeSegments
    (segments : List (List Char)) :
    Option (List (List Char)) :=
  segments.foldlM
    (fun kept segment =>
      if segment = [] ∨ segment = ['.'] then
        some kept
      else if segment = ['.', '.'] then
        if kept = [] then none else some kept.dropLast
      else
        some (kept ++ [segment]))
    []

/- `segments.join("/")`. -/
def joinSegments (segments : List (List Char)) : List Char :=
  (segments.intersperse ['/']).flatten

def sourceSuffixes : List String :=
  [".ets", ".ts", ".d.ets", ".d.ts"]

def sourceExtensions : List String :=
  [".ets", ".ts", ".d.ets", ".d.ts",
    "/index.ets", "/index.ts", "/index.d.ets",
    "/index.d.ts"]

/- The directory part of a path, without its last slash. -/
def parentPath (path : List Char) : List Char :=
  ((path.reverse.dropWhile (· ≠ '/')).drop 1).reverse

/-
  The documents a relative specifier may denote, or `none`
  when the owner is no file or the specifier is not
  relative.
-/
def relativeSourceUriCandidates
    (ownerUri source : String) : Option (List String) :=
  if !startsWith ownerUri "file:///" ||
      !(startsWith source "./" || startsWith source "../") ||
      containsAny source ['?', '#', '\\'] then
    none
  else do
    let ownerPath ← stripPrefix ownerUri "file://"
    let combined :=
      parentPath ownerPath.toList ++
        '/' :: percentEncodeUriPath source.toList
    let segments ← normalizeSegments (combined.splitOn '/')
    let base :=
      "file:///" ++ String.ofList (joinSegments segments)
    if sourceSuffixes.any (endsWith base) then
      some [base]
    else
      some (sourceExtensions.map (base ++ ·))

----------
-- Admission
----------

/- Whether a document lies inside the admitted URI roots. -/
def referenceUriAdmitted
    (uri declarationUri : String)
    (roots : List String) : Bool :=
  uri == declarationUri ||
    roots.isEmpty ||
    roots.any fun root =>
      uri == root ||
        match stripPrefix uri root with
        | some suffix =>
            endsWith root "/" || startsWith suffix "/"
        | none => false

----------
-- Source Resolution
----------

/- `sdk:` followed by 64 lower-case hexadecimal digits. -/
def validExternalTerminalIdentity
    (identity : String) : Bool :=
  byteLength identity == 68 &&
    startsWith identity "sdk:" &&
    (identity.toList.drop 4).all fun char =>
      char.isDigit || decide ('a' ≤ char ∧ char ≤ 'f')

def validSdkModuleSpecifier (specifier : String) : Bool :=
  !containsAny specifier ['/', '\\'] &&
    (startsWith specifier "@ohos." ||
      startsWith specifier "@system." ||
      startsWith specifier "@kit." ||
      startsWith specifier "@arkts.")

/- What a caller's resolution points at. -/
inductive ResolutionTarget where
| workspace (uri : String)
| external (identity : String)
deriving DecidableEq

variable (documentUris : OrderedSet String)

/- The target of a resolution, if it is a valid one. -/
def resolutionTarget
    (resolution : ReferenceSourceResolution) :
    Option ResolutionTarget :=
  match resolution.resolvedSourceUri,
      resolution.externalTerminalIdentity with
  | some uri, none =>
      if uri ∈ documentUris ∨ startsWith uri "file:///" then
        some (.workspace uri)
      else
        none
  | none, some identity =>
      if validExternalTerminalIdentity identity ∧
          validSdkModuleSpecifier
            resolution.sourceSpecifier then
        some (.external identity)
      else
        none
  | _, _ => none

/-
  Targets by binding URI and specifier.  `some none` marks a
  key with contradicting resolutions.
-/
abbrev ResolutionTargets :=
  String × String → Option (Option ResolutionTarget)

/- Record one resolution. -/
def recordResolution
    (resolved : ResolutionTargets)
    (resolution : ReferenceSourceResolution) :
    ResolutionTargets :=
  match resolutionTarget documentUris resolution with
  | none => resolved
  | some target =>
      let key :=
        (resolution.bindingUri, resolution.sourceSpecifier)
      let value :=
        match resolved key with
        | none => some target
        | some previous =>
            if previous = some target then previous else none
      Function.update resolved key (some value)

def resolutionTargets
    (resolutions : List ReferenceSourceResolution) :
    ResolutionTargets :=
  resolutions.foldl (recordResolution documentUris)
    (fun _ => none)

def applyReferenceSourceResolution
    (targets : ResolutionTargets)
    (binding : ReferenceBinding) : ReferenceBinding :=
  if binding.sourceResolution = .unique then
    binding
  else
    match targets (binding.uri, binding.sourceSpecifier) with
    | some (some (.workspace uri)) =>
        { binding with
          sourceResolution := .unique
          resolvedSourceUri := some uri
          externalTerminalIdentity := none }
    | some (some (.external identity)) =>
        { binding with
          sourceResolution := .external
          resolvedSourceUri := none
          externalTerminalIdentity := some identity }
    | _ => binding

def applyReferenceSourceResolutions
    (bindings : List ReferenceBinding)
    (resolutions : List ReferenceSourceResolution)
    (documentUris : OrderedSet String) :
    List ReferenceBinding :=
  bindings.map
    (applyReferenceSourceResolution
      (resolutionTargets documentUris resolutions))

end ArktsServer
