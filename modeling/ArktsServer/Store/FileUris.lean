import ArktsServer.Core.BindingSources
import ArktsServer.Lib.PathSegments
import ArktsServer.Workspace.UriIdentity

/-
  File URIs in the sidecar on Unix: one encoder for any
  bytes of a path, the decoder with which the cache
  collector finds the root of a cache, and the reader that
  admits the URIs of sources inside a workspace.

  Key definitions include:
    * `Store.pathToFileUri`
    * `Store.components`, `Store.joinPath`
    * `Store.root`
    * `Store.admittedPath`

  Correctness is proven by:
    * `Store.root_pathToFileUri`
    * `Store.admittedPath_spec`
    * `Store.fileUris_roundTrip`
-/

namespace ArktsServer

namespace Store

open PercentEncoding Utf8
open Workspace (pathKeeps pathKeeps_encoder)

----------
-- Paths
----------

def slash : UInt8 := 0x2f

def dot : UInt8 := 0x2e

/- What `Path::components` yields on Unix. -/
inductive Component where
| rootDir
| curDir
| parentDir
| normal (name : List UInt8)
deriving DecidableEq

/- A segment that is neither empty nor a single dot. -/
def bodyComponent (segment : List UInt8) : Option Component :=
  if segment = [] ∨ segment = [dot] then
    none
  else if segment = [dot, dot] then
    some .parentDir
  else
    some (.normal segment)

/- What the beginning of a path adds to its segments. -/
def leadingComponent (path : List UInt8) : List Component :=
  if path.head? = some slash then
    [.rootDir]
  else if (path.splitOn slash).head? = some [dot] then
    [.curDir]
  else
    []

/- `Path::components`. -/
def components (path : List UInt8) : List Component :=
  leadingComponent path
    ++ (path.splitOn slash).filterMap bodyComponent

/- `Path::join`. -/
def joinPath (root relative : List UInt8) : List UInt8 :=
  if relative.head? = some slash then
    relative
  else if root = [] ∨ root.getLast? = some slash then
    root ++ relative
  else
    root ++ slash :: relative

/- A path that the system can name, from its root. -/
structure AbsoluteUnixPath where
  bytes : List UInt8
  absolute : bytes.head? = some slash
  noNul : 0 ∉ bytes

/- Below or at a root, through names only. -/
def Inside (root path : List UInt8) : Prop :=
  ∃ names : List (List UInt8),
    components path =
      components root ++ names.map Component.normal

----------
-- Encoder and Decoders
----------

/- `path_to_file_uri` on Unix, for any bytes. -/
def pathToFileUri (path : List UInt8) : String :=
  String.ofList
    ("file://".toList ++
      percentEncode pathKeeps (path.map UInt8.toNat))

/- `root` of the cache collector. -/
def root (identity : String) : Option (List UInt8) := do
  let encoded ← stripPrefix identity "file:///"
  let bytes ← percentDecode (fun _ => true) (asBytes encoded)
  let text ← fromUtf8 bytes
  if containsAny text ['\x00'] then none else
  let path := slash :: asBytes text
  if Component.parentDir ∈ components path then none else
  some path

/- The bytes that the source reader takes from an escape. -/
def admittedByte (byte : UInt8) : Bool :=
  !(byte == 0 || byte == slash || byte == 0x5c)

def Component.isNormal : Component → Bool
| .normal _ => true
| _ => false

/- `admitted_path` of the class-binding source reader. -/
def admittedPath
    (root : List UInt8)
    (workspaceIdentity uri : String) :
    Option (List UInt8) := do
  let behind ← stripPrefix uri workspaceIdentity
  let relative ← stripPrefix behind "/"
  let decoded ← percentDecode admittedByte (asBytes relative)
  let text ← fromUtf8 decoded
  if containsAny text ['\\', '\x00'] then none else
  let path := asBytes text
  if (components path).any (fun part => !part.isNormal)
  then none else
  let candidate := joinPath root path
  if pathToFileUri candidate = uri then some candidate
  else none

----------
-- Round Trip
----------

theorem pathToFileUri_injective :
    Function.Injective pathToFileUri := by
  intro left right hSame
  unfold pathToFileUri at hSame
  have hTexts :=
    List.append_cancel_left (String.ofList_injective hSame)
  apply encodedBytes_injective pathKeeps_encoder
  unfold encodedBytes
  rw [hTexts]

/- The rest of the URI of an absolute path. -/
theorem stripPrefix_pathToFileUri
    (rest : List UInt8) :
    stripPrefix (pathToFileUri (slash :: rest)) "file:///" =
      some (String.ofList
        (percentEncode pathKeeps
          (rest.map UInt8.toNat))) := by
  have hText :
      (pathToFileUri (slash :: rest)).toList =
        "file:///".toList ++
          percentEncode pathKeeps (rest.map UInt8.toNat) := by
    unfold pathToFileUri
    rw [String.toList_ofList]
    rfl
  unfold stripPrefix startsWith
  rw [hText, if_pos, List.drop_left]
  rw [List.isPrefixOf_iff_prefix]
  exact List.prefix_append _ _

/- The rest of a valid text behind its first slash. -/
theorem fromUtf8_rest
    {rest : List UInt8}
    (hValid : (fromUtf8 (slash :: rest)).isSome) :
    ∃ text, rest = asBytes text := by
  have hBytes :
      (slash :: rest).toByteArray.IsValidUTF8 := by
    unfold fromUtf8 String.fromUTF8? at hValid
    split at hValid
    · assumption
    · cases hValid
  have hSplit :
      (slash :: rest).toByteArray =
        ['/'].utf8Encode ++ rest.toByteArray := by
    rw [List.utf8Encode_singleton, ← List.toByteArray_append]
    rfl
  rw [hSplit,
    ByteArray.isValidUTF8_utf8Encode_singleton_append_iff]
    at hBytes
  refine ⟨String.fromUTF8 rest.toByteArray hBytes, ?_⟩
  apply fromUtf8_eq_some_iff.mp
  unfold fromUtf8 String.fromUTF8?
  rw [dif_pos hBytes]

/- A NUL in a text is a NUL in its bytes. -/
theorem nul_mem_asBytes
    {text : String}
    (hNul : containsAny text ['\x00'] = true) :
    0 ∈ asBytes text := by
  unfold containsAny at hNul
  rw [List.any_eq_true] at hNul
  rcases hNul with ⟨char, hMem, hChar⟩
  have hSame : char = '\x00' := by simpa using hChar
  unfold asBytes charBytes
  rw [List.mem_flatMap]
  refine ⟨char, hMem, ?_⟩
  rw [hSame]
  decide

/- The collector's decoder reads the encoder's URIs. -/
theorem root_pathToFileUri
    (path : AbsoluteUnixPath)
    (hValid : (fromUtf8 path.bytes).isSome)
    (hNames : Component.parentDir ∉ components path.bytes) :
    root (pathToFileUri path.bytes) = some path.bytes := by
  rcases path with ⟨bytes, hAbsolute, hNul⟩
  dsimp only at hValid hNames ⊢
  cases bytes with
  | nil => cases hAbsolute
  | cons first rest =>
    rw [List.head?_cons, Option.some.injEq] at hAbsolute
    subst hAbsolute
    rcases fromUtf8_rest hValid with ⟨text, rfl⟩
    have hDecode :
        percentDecode (fun _ => true)
            (asBytes (String.ofList
              (percentEncode pathKeeps
                ((asBytes text).map UInt8.toNat))))
          = some (asBytes text) := by
      rw [asBytes_ofList]
      exact
        percentDecode_encode pathKeeps_encoder
          fun _ _ => Or.inr rfl
    have hPlain : ¬ containsAny text ['\x00'] = true :=
      fun hSome =>
        hNul (List.mem_cons_of_mem _ (nul_mem_asBytes hSome))
    unfold root
    rw [stripPrefix_pathToFileUri]
    simp only [Option.bind_eq_bind, Option.bind_some,
      hDecode, fromUtf8_asBytes]
    rw [if_neg hPlain, if_neg hNames]

----------
-- Containment
----------

theorem components_append_slash
    {root rest : List UInt8}
    (hRoot : root ≠ []) :
    components (root ++ slash :: rest) =
      components root
        ++ (rest.splitOn slash).filterMap bodyComponent := by
  have hLeading :
      leadingComponent (root ++ slash :: rest) =
        leadingComponent root := by
    unfold leadingComponent
    rw [List.splitOn_append_cons_self]
    have hSplit := List.splitOn_ne_nil slash root
    rw [List.head?_append_of_ne_nil _ hRoot,
      List.head?_append_of_ne_nil _ hSplit]
  unfold components
  rw [hLeading, List.splitOn_append_cons_self,
    List.filterMap_append, List.append_assoc]

/- Joining names to a root adds them to its components. -/
theorem components_joinPath
    {root relative : List UInt8}
    (hNames :
      ∀ part ∈ components relative, part.isNormal = true) :
    components (joinPath root relative) =
      components root ++ components relative := by
  have hLeading : leadingComponent relative = [] := by
    unfold components at hNames
    unfold leadingComponent at hNames ⊢
    split
    · next hHead =>
      rw [if_pos hHead] at hNames
      exact nomatch hNames .rootDir (by simp)
    · next hHead =>
      rw [if_neg hHead] at hNames
      split
      · next hDot =>
        rw [if_pos hDot] at hNames
        exact nomatch hNames .curDir (by simp)
      · rfl
  have hBody :
      components relative =
        (relative.splitOn slash).filterMap bodyComponent := by
    unfold components
    rw [hLeading, List.nil_append]
  have hHead : relative.head? ≠ some slash := by
    intro hSlash
    unfold leadingComponent at hLeading
    rw [if_pos hSlash] at hLeading
    cases hLeading
  unfold joinPath
  rw [if_neg hHead]
  by_cases hEmpty : root = []
  · subst hEmpty
    rw [if_pos (Or.inl rfl), List.nil_append]
    rfl
  · by_cases hLast : root.getLast? = some slash
    · rw [if_pos (Or.inr hLast)]
      rcases List.getLast?_eq_some_iff.mp hLast with
        ⟨front, rfl⟩
      by_cases hFront : front = []
      · subst hFront
        rw [hBody]
        unfold components leadingComponent
        simp [List.splitOn_cons_eq_if_modifyHead, bodyComponent]
      · rw [List.append_assoc, List.singleton_append,
          components_append_slash hFront,
          components_append_slash hFront, hBody]
        simp [bodyComponent]
    · rw [if_neg (not_or.mpr ⟨hEmpty, hLast⟩),
        components_append_slash hEmpty, hBody]

theorem normal_names
    {parts : List Component}
    (hNames : ∀ part ∈ parts, part.isNormal = true) :
    ∃ names : List (List UInt8),
      parts = names.map Component.normal := by
  induction parts with
  | nil => exact ⟨[], rfl⟩
  | cons part parts ih =>
    rw [List.forall_mem_cons] at hNames
    rcases ih hNames.2 with ⟨names, rfl⟩
    cases part with
    | normal name => exact ⟨name :: names, rfl⟩
    | rootDir => cases hNames.1
    | curDir => cases hNames.1
    | parentDir => cases hNames.1

/- What the source reader admits it also encodes. -/
theorem admittedPath_spec
    {root candidate : List UInt8}
    {workspaceIdentity uri : String}
    (hAdmitted :
      admittedPath root workspaceIdentity uri =
        some candidate) :
    uri = pathToFileUri candidate ∧
      Inside root candidate := by
  unfold admittedPath at hAdmitted
  simp only [Option.bind_eq_bind,
    Option.bind_eq_some_iff] at hAdmitted
  rcases hAdmitted with
    ⟨behind, hBehind, relative, hRelative, decoded, hDecoded,
      text, hText, hRest⟩
  split at hRest
  · cases hRest
  · split at hRest
    · cases hRest
    · next hParts =>
      split at hRest
      · next hUri =>
        cases hRest
        refine ⟨hUri.symm, ?_⟩
        have hNames :
            ∀ part ∈ components (asBytes text),
              part.isNormal = true := by
          simpa using hParts
        rcases normal_names hNames with ⟨names, hMap⟩
        refine ⟨names, ?_⟩
        rw [components_joinPath hNames, hMap]
      · cases hRest

/-
  File URIs round-trip through the collector's decoder, name
  one path each, and are admitted for paths inside the root
  only.
-/
theorem fileUris_roundTrip :
    (∀ path : AbsoluteUnixPath,
      (fromUtf8 path.bytes).isSome →
        Component.parentDir ∉ components path.bytes →
        root (pathToFileUri path.bytes) =
          some path.bytes) ∧
      Function.Injective pathToFileUri ∧
      ∀ workspaceRoot workspaceIdentity uri candidate,
        admittedPath workspaceRoot workspaceIdentity uri =
            some candidate →
          uri = pathToFileUri candidate ∧
            Inside workspaceRoot candidate :=
  ⟨root_pathToFileUri, pathToFileUri_injective,
    fun _ _ _ _ hAdmitted => admittedPath_spec hAdmitted⟩

theorem admittedPath_space :
    admittedPath (asBytes "/w") "file:///w"
        "file:///w/a%20b"
      = some (asBytes "/w/a b") := by
  have hBehind :
      stripPrefix "file:///w/a%20b" "file:///w" =
        some "/a%20b" := by
    decide
  have hRelative :
      stripPrefix "/a%20b" "/" = some "a%20b" := by
    decide
  have hDecoded :
      percentDecode admittedByte (asBytes "a%20b") =
        some (asBytes "a b") := by
    decide
  unfold admittedPath
  simp only [hBehind, hRelative, hDecoded, fromUtf8_asBytes,
    Option.bind_eq_bind, Option.bind_some]
  decide +kernel

theorem fileUris_roundTrip_space :
    root (pathToFileUri (asBytes "/w/a b")) =
        some (asBytes "/w/a b") ∧
      "file:///w/a%20b" =
        pathToFileUri (asBytes "/w/a b") ∧
      Inside (asBytes "/w") (asBytes "/w/a b") :=
  ⟨fileUris_roundTrip.1
      ⟨asBytes "/w/a b", by decide, by decide⟩
      (by rw [fromUtf8_asBytes]; rfl) (by decide),
    fileUris_roundTrip.2.2 _ _ _ _ admittedPath_space⟩

end Store

end ArktsServer
