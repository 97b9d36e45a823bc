import ArktsServer.Lib.PercentEncoding
import ArktsServer.Lib.TextOrder
import ArktsServer.Lib.UnixPath

/-
  The URIs of the files of a workspace on Unix: the client
  moves a document's URI from the editor's root to the
  canonical one and encodes the path with Node, the sidecar
  encodes the paths of its walk itself.

  Key definitions include:
    * `UrlHost`, `relativeResourcePath`
    * `pathToFileUrl`, `pathToFileUri`
    * `tryRebaseFileUri`, `tryWorkspaceIdentityUri`
    * `NamesFile`

  Correctness is proven by:
    * `tryWorkspaceIdentityUri_eq`
    * `workspaceIdentityUri_agrees_iff`
-/

namespace ArktsServer

namespace Workspace

open PercentEncoding TextOrder UnixPath

----------
-- Hosts
----------

/- What the modules `path`, `fs` and `url` answer. -/
structure UrlHost where
  cwd : List Char
  realpath : List Char → Option (List Char)
  dirname : List Char → List Char
  basename : List Char → List Char
  fileURLToPath : String → Option (List Char)

structure WorkspaceUriIdentity where
  clientRootUri : String
  workspaceIdentity : String

----------
-- Encoders
----------

/-
  What `pathToFileURL` keeps: neither control characters nor
  spaces, nothing beyond ASCII, and none of the characters
  that mean something in the path of a URL. Node 22 encodes
  the tilde, the brackets, the caret and the bar as well.
-/
def urlKeeps (byte : Nat) : Bool :=
  decide (0x20 < byte) && decide (byte < 0x7f) &&
    !("%\\\"#<>?\x60\x7b\x7d".toList.map
      Char.toNat).contains byte

def isAsciiAlphanumeric (byte : Nat) : Bool :=
  (decide (0x30 ≤ byte) && decide (byte ≤ 0x39)) ||
    (decide (0x41 ≤ byte) && decide (byte ≤ 0x5a)) ||
    (decide (0x61 ≤ byte) && decide (byte ≤ 0x7a))

/- What `percent_encode_path` keeps. -/
def pathKeeps (byte : Nat) : Bool :=
  isAsciiAlphanumeric byte ||
    ("-._~/:".toList.map Char.toNat).contains byte

/- `path_to_file_uri` of the sidecar on Unix. -/
def pathToFileUri (path : List Char) : String :=
  String.ofList
    ("file://".toList ++
      percentEncode pathKeeps (bytesOf path))

section Client

variable (host : UrlHost)

/- `pathToFileURL(...).href` of Node on Unix. -/
def pathToFileUrl (path : List Char) : String :=
  let resolved := resolve host.cwd path
  let full :=
    if path.getLast? = some '/' ∧
        resolved.getLast? ≠ some '/'
    then resolved ++ ['/']
    else resolved
  String.ofList
    ("file://".toList ++
      percentEncode urlKeeps (bytesOf full))

----------
-- Rebasing
----------

def relativePathWithinRoot
    (rootPath candidatePath : List Char) :
    Option (List Char) :=
  relativeWithin (resolve host.cwd rootPath)
    (resolve host.cwd candidatePath)

/- A path in the root, or one that leads into it. -/
def relativeResourcePath
    (rootPath candidatePath : List Char) :
    Option (List Char) :=
  match relativePathWithinRoot host rootPath candidatePath with
  | some relative => some relative
  | none => do
      let root ← host.realpath rootPath
      let candidate ←
        match host.realpath candidatePath with
        | some candidate => some candidate
        | none =>
            (host.realpath (host.dirname candidatePath)).map
              fun parent =>
                join parent (host.basename candidatePath)
      relativePathWithinRoot host root candidate

def tryRebaseFileUri
    (documentUri sourceRootUri targetRootUri : String) :
    Option String := do
  let sourceRoot ← host.fileURLToPath sourceRootUri
  let documentPath ← host.fileURLToPath documentUri
  let relative ←
    relativeResourcePath host sourceRoot documentPath
  let targetRoot ← host.fileURLToPath targetRootUri
  some (pathToFileUrl host (join targetRoot relative))

def tryWorkspaceIdentityUri
    (identity : WorkspaceUriIdentity)
    (uri : String) : Option String :=
  (tryRebaseFileUri host uri identity.clientRootUri
    identity.workspaceIdentity).or
      (tryRebaseFileUri host uri identity.workspaceIdentity
        identity.workspaceIdentity)

----------
-- Files of a Workspace
----------

/-
  A URI of a file below the canonical root: the editor
  spells the file with its own root, or with the canonical
  one when that lies outside of its own.
-/
inductive NamesFile
    (clientRoot root below : AbsolutePath)
    (uri : String) : Prop
| client
    (hUri :
      host.fileURLToPath uri =
        some (clientRoot.append below).text)
| canonical
    (hUri :
      host.fileURLToPath uri =
        some (root.append below).text)
    (hOutside :
      relativeWithin clientRoot.text (root.append below).text
        = none)
    (hRoot :
      ∀ real,
        host.realpath clientRoot.text = some real →
        real = root.text)
    (hFile :
      host.realpath (root.append below).text =
        some (root.append below).text)

/- The canonical root, the editor's root and their URIs. -/
structure Roots
    (identity : WorkspaceUriIdentity)
    (clientRoot root : AbsolutePath) : Prop where
  canonical :
    host.fileURLToPath identity.workspaceIdentity =
      some root.text
  client :
    host.fileURLToPath identity.clientRootUri =
      some clientRoot.text

variable {host}

theorem relativePathWithinRoot_text
    {root below : AbsolutePath}
    (hBelow : below.segments ≠ []) :
    relativePathWithinRoot host root.text
        (root.append below).text
      = some below.relativeText := by
  unfold relativePathWithinRoot
  rw [AbsolutePath.resolve_text, AbsolutePath.resolve_text,
    AbsolutePath.relativeWithin_text hBelow]

/- A document in the source root moves to the target root. -/
theorem tryRebaseFileUri_text
    {documentUri sourceRootUri targetRootUri : String}
    {source target below : AbsolutePath}
    (hSource :
      host.fileURLToPath sourceRootUri = some source.text)
    (hTarget :
      host.fileURLToPath targetRootUri = some target.text)
    (hUri :
      host.fileURLToPath documentUri =
        some (source.append below).text)
    (hBelow : below.segments ≠ []) :
    tryRebaseFileUri host documentUri sourceRootUri
        targetRootUri
      = some (pathToFileUrl host
        (target.append below).text) := by
  unfold tryRebaseFileUri relativeResourcePath
  rw [hSource, hTarget, hUri]
  simp only [Option.bind_eq_bind, Option.bind_some,
    relativePathWithinRoot_text hBelow,
    AbsolutePath.join_text hBelow]

/- The client sends the URI of the canonical path. -/
theorem tryWorkspaceIdentityUri_eq
    {identity : WorkspaceUriIdentity}
    {clientRoot root below : AbsolutePath}
    {uri : String}
    (hRoots : Roots host identity clientRoot root)
    (hBelow : below.segments ≠ [])
    (hNames : NamesFile host clientRoot root below uri) :
    tryWorkspaceIdentityUri host identity uri =
      some (pathToFileUrl host
        (root.append below).text) := by
  unfold tryWorkspaceIdentityUri
  cases hNames with
  | client hUri =>
    rw [tryRebaseFileUri_text hRoots.client
      hRoots.canonical hUri hBelow]
    rfl
  | canonical hUri hOutside hRoot hFile =>
    have hSecond :=
      tryRebaseFileUri_text hRoots.canonical
        hRoots.canonical hUri hBelow
    have hLexical :
        relativePathWithinRoot host clientRoot.text
            (root.append below).text
          = none := by
      unfold relativePathWithinRoot
      rw [AbsolutePath.resolve_text,
        AbsolutePath.resolve_text, hOutside]
    -- The first attempt asks for the real paths.
    cases hReal : host.realpath clientRoot.text with
    | none =>
      have hFirst :
          tryRebaseFileUri host uri
              identity.clientRootUri
              identity.workspaceIdentity
            = none := by
        unfold tryRebaseFileUri relativeResourcePath
        rw [hRoots.client, hUri]
        simp only [Option.bind_eq_bind,
          Option.bind_some, hLexical, hReal,
          Option.bind_none]
      rw [hFirst, hSecond]
      rfl
    | some real =>
      have hFirst :
          tryRebaseFileUri host uri
              identity.clientRootUri
              identity.workspaceIdentity
            = some (pathToFileUrl host
              (root.append below).text) := by
        unfold tryRebaseFileUri relativeResourcePath
        rw [hRoots.client, hUri, hRoots.canonical]
        simp only [Option.bind_eq_bind,
          Option.bind_some, hLexical, hReal, hFile,
          hRoot real hReal,
          relativePathWithinRoot_text hBelow,
          AbsolutePath.join_text hBelow]
      rw [hFirst]
      rfl

----------
-- Agreement
----------

/- The characters that only one of the encoders keeps. -/
def disputedCharacters : List Char :=
  "!$&'()*+,;=@[]^|".toList

theorem urlKeeps_encoder : Encoder urlKeeps := by
  constructor
  · intro byte hKept
    unfold urlKeeps at hKept
    simp only [Bool.and_eq_true, decide_eq_true_eq] at hKept
    exact Nat.lt_trans hKept.1.2 (by decide)
  · decide

theorem pathKeeps_encoder : Encoder pathKeeps := by
  constructor
  · intro byte hKept
    unfold pathKeeps isAsciiAlphanumeric at hKept
    simp at hKept
    omega
  · decide

theorem keeps_ascii :
    ∀ code < 128,
      urlKeeps code = pathKeeps code ↔
        Char.ofNat code ∉ disputedCharacters := by
  decide +kernel

theorem not_kept
    {keep : Nat → Bool}
    (hEncoder : Encoder keep)
    {byte : Nat}
    (hHigh : 128 ≤ byte) :
    keep byte = false := by
  cases hKeep : keep byte with
  | false => rfl
  | true =>
    exact
      absurd (hEncoder.ascii byte hKeep) (Nat.not_lt_of_le hHigh)

/- The bytes of a character beyond ASCII are, too. -/
theorem codeBytes_high
    {code byte : Nat}
    (hHigh : 128 ≤ code)
    (hByte : byte ∈ codeBytes code) :
    128 ≤ byte := by
  unfold codeBytes at hByte
  rw [if_neg (Nat.not_lt_of_le hHigh)] at hByte
  split at hByte
  · simp at hByte
    omega
  · split at hByte
    · simp at hByte
      omega
    · simp at hByte
      omega

theorem disputed_ascii
    {char : Char}
    (hDisputed : char ∈ disputedCharacters) :
    char.toNat < 128 := by
  have hAll :
      disputedCharacters.all (fun char => char.toNat < 128)
        = true := by
    decide
  exact
    of_decide_eq_true (List.all_eq_true.mp hAll char hDisputed)

/- A character is encoded alike unless it is disputed. -/
theorem keeps_character
    (char : Char) :
    (∀ byte ∈ codeBytes char.toNat,
      urlKeeps byte = pathKeeps byte) ↔
      char ∉ disputedCharacters := by
  by_cases hAscii : char.toNat < 128
  · have hBytes : codeBytes char.toNat = [char.toNat] := by
      unfold codeBytes
      rw [if_pos hAscii]
    have hKeeps := keeps_ascii char.toNat hAscii
    rw [Char.ofNat_toNat] at hKeeps
    rw [hBytes, List.forall_mem_singleton]
    exact hKeeps
  · constructor
    · intro _ hDisputed
      exact hAscii (disputed_ascii hDisputed)
    · intro _ byte hByte
      have hHigh := codeBytes_high (Nat.le_of_not_lt hAscii) hByte
      rw [not_kept urlKeeps_encoder hHigh,
        not_kept pathKeeps_encoder hHigh]

theorem getLast_text
    {root below : AbsolutePath}
    (hBelow : below.segments ≠ []) :
    (root.append below).text.getLast? ≠ some '/' := by
  have hSome : (root.append below).segments ≠ [] := by
    unfold AbsolutePath.append
    simp [hBelow]
  unfold AbsolutePath.text render
  rw [if_neg hSome]
  exact getLast_slashed (root.append below).proper

/-
  The client and the sidecar name a file of the workspace
  alike exactly when no character of its path is disputed.
-/
theorem workspaceIdentityUri_agrees_iff
    {identity : WorkspaceUriIdentity}
    {clientRoot root below : AbsolutePath}
    {uri : String}
    (hRoots : Roots host identity clientRoot root)
    (hBelow : below.segments ≠ [])
    (hNames : NamesFile host clientRoot root below uri) :
    tryWorkspaceIdentityUri host identity uri =
        some (pathToFileUri (root.append below).text) ↔
      ∀ char ∈ (root.append below).text,
        char ∉ disputedCharacters := by
  rw [tryWorkspaceIdentityUri_eq hRoots hBelow hNames]
  unfold pathToFileUrl pathToFileUri
  simp only [AbsolutePath.resolve_text,
    getLast_text hBelow, false_and, if_false,
    Option.some.injEq, String.ofList_inj,
    List.append_cancel_left_eq]
  rw [percentEncode_eq_iff urlKeeps_encoder
    pathKeeps_encoder]
  unfold bytesOf
  simp only [List.forall_mem_flatMap, keeps_character]

end Client

----------
-- A Disputed Name
----------

/- The workspace `/w` and two of its files. -/
def oneRootHost : UrlHost where
  cwd := ['/']
  realpath := some
  dirname _ := "/w".toList
  basename path := path.drop 3
  fileURLToPath uri :=
    ["/w", "/w/a.ets", "/w/a+b.ets"].findSome? fun path =>
      if uri = "file://" ++ path then some path.toList
      else none

def oneRoot : WorkspaceUriIdentity :=
  ⟨"file:///w", "file:///w"⟩

def workspaceRoot : AbsolutePath :=
  ⟨["w".toList], by decide⟩

theorem plainName_undisputed
    {char : Char}
    (hChar : char ∈ "/w/a.ets".toList) :
    char ∉ disputedCharacters := by
  have hAll :
      "/w/a.ets".toList.all
          (fun char => char ∉ disputedCharacters)
        = true := by
    decide
  exact of_decide_eq_true (List.all_eq_true.mp hAll char hChar)

theorem workspaceIdentityUri_agrees_plainName :
    tryWorkspaceIdentityUri oneRootHost oneRoot
        "file:///w/a.ets"
      = some (pathToFileUri "/w/a.ets".toList) :=
  (@workspaceIdentityUri_agrees_iff oneRootHost oneRoot
    workspaceRoot workspaceRoot
    ⟨["a.ets".toList], by decide⟩ "file:///w/a.ets"
    ⟨by decide +kernel, by decide +kernel⟩ (by decide)
    (.client (by decide +kernel))).mpr
      fun _ => plainName_undisputed

/- A plus sign is encoded by the sidecar only. -/
theorem workspaceIdentityUri_disagrees_plusName :
    tryWorkspaceIdentityUri oneRootHost oneRoot
        "file:///w/a+b.ets"
      ≠ some (pathToFileUri "/w/a+b.ets".toList) := by
  decide +kernel

end Workspace

end ArktsServer
