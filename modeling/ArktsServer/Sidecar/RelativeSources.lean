import ArktsServer.Store.FileUris

/-
  Relative specifiers on URIs and on paths: the sidecar
  normalizes the encoded segments of an owner's URI, and the
  candidates are the URIs of the paths that the same walk
  over the plain segments leads to.

  Key definitions include:
    * `pathMarks`, `uriMarks`, `encodePathByte`
    * `candidatePaths`
    * `ProperUri`
    * `CommutesWithEncoding`

  Correctness is proven by:
    * `relativeSourceUriCandidates_eq`
    * `commutesWithEncoding_iff`
-/

namespace ArktsServer

open PathSegments PercentEncoding Utf8 Store
open Workspace (pathKeeps)

----------
-- Law
----------

def pathMarks : Marks UInt8 where
  slash := slash
  dot := dot

def uriMarks : Marks Char where
  slash := '/'
  dot := '.'

/- The sources that a normal path may stand for. -/
def candidatePaths (path : List UInt8) : List (List UInt8) :=
  if sourceSuffixes.any
      (fun suffix => (asBytes suffix).isSuffixOf path) then
    [path]
  else
    sourceExtensions.map (path ++ asBytes ·)

/- No segment behind the scheme is empty or dotted. -/
def ProperUri (uri : String) : Prop :=
  ∃ rest, uri.toList = "file:///".toList ++ rest ∧
    ∀ segment ∈ rest.splitOn '/',
      segment ≠ [] ∧ segment ≠ ['.'] ∧ segment ≠ ['.', '.']

/-
  The candidates of a specifier are the URIs of the paths it
  leads to, unless the walk climbs above the root, and none
  of them has an empty or a dotted segment.
-/
structure CommutesWithEncoding
    (owner : NormalPath pathMarks)
    (source : String) : Prop where
  none_iff :
    relativeSourceUriCandidates
        (pathToFileUri owner.text) source
      = none ↔
    Climbs (moveOf pathMarks) (owner.walk (asBytes source))
  candidates :
    ∀ path, owner.follow (asBytes source) = some path →
      relativeSourceUriCandidates
          (pathToFileUri owner.text) source
        = some ((candidatePaths path.text).map pathToFileUri)
  proper :
    ∀ uris,
      relativeSourceUriCandidates
          (pathToFileUri owner.text) source
        = some uris →
      ∀ uri ∈ uris, ProperUri uri

----------
-- Encoded Bytes
----------

def encodePathByte (byte : UInt8) : List Char :=
  encodeByte pathKeeps byte.toNat

theorem percentEncode_eq (path : List UInt8) :
    percentEncode pathKeeps (path.map UInt8.toNat) =
      path.flatMap encodePathByte := by
  unfold percentEncode
  rw [List.flatMap_map]
  rfl

theorem encodeByte_marks :
    ∀ byte < 256,
      encodeByte pathKeeps byte ≠ [] ∧
        ('/' ∈ encodeByte pathKeeps byte → byte = 0x2f) ∧
        ('.' ∈ encodeByte pathKeeps byte → byte = 0x2e) := by
  decide +kernel

theorem encodePathByte_respects :
    Respects pathMarks uriMarks encodePathByte where
  nonempty byte := (encodeByte_marks _ byte.toNat_lt).1
  slash := by decide
  dot := by decide
  onlySlash byte hMem :=
    UInt8.toNat_inj.mp
      ((encodeByte_marks _ byte.toNat_lt).2.1 hMem)
  onlyDot byte hMem :=
    UInt8.toNat_inj.mp
      ((encodeByte_marks _ byte.toNat_lt).2.2 hMem)

/- The letters of the suffixes of sources. -/
def suffixLetters : List UInt8 :=
  asBytes ".etsd"

theorem encodeByte_letters :
    ∀ letter ∈ suffixLetters,
      encodePathByte letter =
          [Char.ofNat letter.toNat] ∧
        ∀ byte < 256,
          Char.ofNat letter.toNat
              ∈ encodeByte pathKeeps byte →
            byte = letter.toNat := by
  decide +kernel

theorem suffixLetters_plain :
    ∀ letter ∈ suffixLetters,
      Plain encodePathByte letter := by
  intro letter hMem
  rcases encodeByte_letters letter hMem with ⟨hCode, hOnly⟩
  refine ⟨Char.ofNat letter.toNat, hCode, ?_⟩
  intro other hOther
  exact
    UInt8.toNat_inj.mp (hOnly other.toNat other.toNat_lt hOther)

theorem uriPathByte_eq :
    ∀ byte < 256,
      (if isUriPathByte (UInt8.ofNat byte) then
        [Char.ofNat (UInt8.ofNat byte).toNat]
      else
        ['%', upperHexDigit ((UInt8.ofNat byte).toNat / 16),
          upperHexDigit ((UInt8.ofNat byte).toNat % 16)])
        = encodeByte pathKeeps byte := by
  decide +kernel

/- Both encoders of the sidecar write the same text. -/
theorem percentEncodeUriPath_eq (source : String) :
    percentEncodeUriPath source.toList =
      (asBytes source).flatMap encodePathByte := by
  unfold percentEncodeUriPath
  congr 1
  funext byte
  have hByte := uriPathByte_eq byte.toNat byte.toNat_lt
  rw [UInt8.ofNat_toNat] at hByte
  exact hByte

theorem normalizeSegments_eq (segments : List (List Char)) :
    normalizeSegments segments =
      normalizeWalk (moveOf uriMarks) segments := by
  unfold normalizeSegments normalizeWalk
  congr 1
  funext kept segment
  have hDot : uriMarks.dot = '.' := rfl
  unfold step moveOf
  simp only [hDot]
  by_cases hStay : segment = [] ∨ segment = ['.']
  · rw [if_pos hStay, if_pos hStay]
  · rw [if_neg hStay, if_neg hStay]
    by_cases hUp : segment = ['.', '.']
    · rw [if_pos hUp, if_pos hUp]
      cases kept <;> rfl
    · rw [if_neg hUp, if_neg hUp]

----------
-- Walks
----------

theorem parentPath_append
    {last : List Char}
    (hLast : '/' ∉ last)
    (front : List Char) :
    parentPath (front ++ '/' :: last) = front := by
  have hDrop :
      (last.reverse ++ '/' :: front.reverse).dropWhile
          (fun char => decide (char ≠ '/'))
        = '/' :: front.reverse := by
    rw [List.dropWhile_append_of_pos]
    · simp
    · intro char hMem
      rw [decide_eq_true_eq]
      rintro rfl
      exact hLast (List.mem_reverse.mp hMem)
  unfold parentPath
  rw [List.reverse_append, List.reverse_cons,
    List.append_assoc, List.singleton_append, hDrop]
  simp

/- The directory of a path and its last name. -/
theorem text_split (owner : NormalPath pathMarks) :
    ∃ front last,
      owner.text = front ++ slash :: last ∧
        slash ∉ last ∧
        segmentsOf pathMarks front =
          [] :: owner.segments.dropLast := by
  have hMark : pathMarks.slash = slash := rfl
  unfold NormalPath.text segmentsOf
  rw [hMark]
  rcases List.eq_nil_or_concat' owner.segments with
    hNil | ⟨init, last, hSegments⟩
  · refine ⟨[], [], ?_, List.not_mem_nil, ?_⟩
    · rw [hNil]
      rfl
    · rw [hNil]
      rfl
  · have hNames := owner.names
    rw [hSegments] at hNames ⊢
    have hLast : slash ∉ last := (hNames last (by simp)).slashless
    rw [List.dropLast_concat]
    by_cases hInit : init = []
    · subst hInit
      exact ⟨[], last, by simp, hLast, rfl⟩
    · refine
        ⟨slash :: [slash].intercalate init, last, ?_, hLast, ?_⟩
      · rw [intercalate_snoc slash hInit]
        rfl
      · rw [List.splitOn_cons_eq_if_modifyHead]
        simp only [BEq.rfl, if_true]
        rw [List.splitOn_intercalate slash
          (fun name hMem =>
            (hNames name (List.mem_append_left _ hMem)).slashless)
          hInit]

variable (owner : NormalPath pathMarks)

/- The segments of the combined text are those of a walk. -/
theorem combined_segments
    (source : String) :
    (parentPath (owner.text.flatMap encodePathByte)
        ++ '/' :: percentEncodeUriPath source.toList).splitOn
        '/'
      = [] :: (owner.walk (asBytes source)).map
        (List.flatMap encodePathByte) := by
  rcases text_split owner with
    ⟨front, last, hText, hLast, hFront⟩
  have hCode : '/' ∉ last.flatMap encodePathByte := by
    intro hMem
    rcases List.mem_flatMap.mp hMem with
      ⟨byte, hByte, hSlash⟩
    have hSame : byte = slash :=
      encodePathByte_respects.onlySlash byte hSlash
    exact hLast (hSame ▸ hByte)
  have hEncoded :
      owner.text.flatMap encodePathByte =
        front.flatMap encodePathByte
          ++ '/' :: last.flatMap encodePathByte := by
    have hSlash := encodePathByte_respects.slash
    rw [hText, List.flatMap_append, List.flatMap_cons,
      show encodePathByte slash = ['/'] from hSlash]
    rfl
  rw [hEncoded, parentPath_append hCode,
    List.splitOn_append_cons_self, percentEncodeUriPath_eq]
  have hLeft := splitOn_encode encodePathByte_respects front
  have hRight :=
    splitOn_encode encodePathByte_respects (asBytes source)
  have hMark : uriMarks.slash = '/' := rfl
  rw [hFront] at hLeft
  unfold segmentsOf at hLeft hRight
  rw [hMark] at hLeft hRight
  rw [hLeft, hRight]
  unfold NormalPath.walk segmentsOf
  rw [List.map_append, List.map_cons]
  rfl

theorem normalizeSegments_combined
    (source : String) :
    normalizeSegments
        ((parentPath (owner.text.flatMap encodePathByte)
          ++ '/' :: percentEncodeUriPath
            source.toList).splitOn '/')
      = (normalizeWalk (moveOf pathMarks)
          (owner.walk (asBytes source))).map
        (List.map (List.flatMap encodePathByte)) := by
  rw [combined_segments, normalizeSegments_eq,
    ← normalizeWalk_encode encodePathByte_respects]
  rfl

----------
-- Candidates
----------

theorem pathToFileUri_eq (path : List UInt8) :
    pathToFileUri path =
      String.ofList
        ("file://".toList
          ++ path.flatMap encodePathByte) := by
  unfold pathToFileUri
  rw [percentEncode_eq]

theorem base_eq (path : NormalPath pathMarks) :
    "file:///" ++ String.ofList
        (joinSegments
          (path.segments.map
            (List.flatMap encodePathByte)))
      = pathToFileUri path.text := by
  have hJoin :=
    intercalate_encode encodePathByte_respects path.segments
  have hSlash : encodePathByte slash = ['/'] :=
    encodePathByte_respects.slash
  have hText :
      path.text.flatMap encodePathByte =
        '/' :: joinSegments
          (path.segments.map (List.flatMap encodePathByte)) := by
    unfold NormalPath.text
    rw [List.flatMap_cons, hJoin,
      show encodePathByte pathMarks.slash = ['/'] from hSlash]
    rfl
  rw [pathToFileUri_eq, hText, ← String.toList_inj]
  simp

theorem encode_extension :
    ∀ ending ∈ sourceExtensions,
      (asBytes ending).flatMap encodePathByte =
        ending.toList := by
  decide +kernel

theorem pathToFileUri_append
    {ending : String}
    (hEnding : ending ∈ sourceExtensions)
    (path : List UInt8) :
    pathToFileUri path ++ ending =
      pathToFileUri (path ++ asBytes ending) := by
  rw [pathToFileUri_eq, pathToFileUri_eq,
    List.flatMap_append, encode_extension ending hEnding,
    ← String.toList_inj]
  simp

theorem sourceSuffixes_plain :
    ∀ suffix ∈ sourceSuffixes,
      (∀ letter ∈ asBytes suffix, letter ∈ suffixLetters) ∧
        suffix ∈ sourceExtensions ∧
        slash ∉ asBytes suffix ∧ '/' ∉ suffix.toList := by
  decide +kernel

/- An ending without slashes ends what the slash starts. -/
theorem suffix_behind_slash
    {mark : Char}
    {ending front rest : List Char}
    (hEnding : mark ∉ ending) :
    ending <:+ front ++ mark :: rest ↔
      ending <:+ mark :: rest := by
  constructor
  · intro hSuffix
    rcases List.suffix_or_suffix_of_suffix hSuffix
      (List.suffix_append front (mark :: rest)) with
      hShort | hLong
    · exact hShort
    · exact absurd (hLong.subset List.mem_cons_self) hEnding
  · exact fun hSuffix =>
      hSuffix.trans (List.suffix_append _ _)

theorem endsWith_pathToFileUri
    {suffix : String}
    (hSuffix : suffix ∈ sourceSuffixes)
    (path : NormalPath pathMarks) :
    endsWith (pathToFileUri path.text) suffix =
      (asBytes suffix).isSuffixOf path.text := by
  rcases sourceSuffixes_plain suffix hSuffix with
    ⟨hLetters, hExtension, _, hSlash⟩
  have hSplit :
      ∃ rest,
        path.text.flatMap encodePathByte = '/' :: rest := by
    refine
      ⟨([slash].intercalate path.segments).flatMap
        encodePathByte, ?_⟩
    have hCode : encodePathByte slash = ['/'] :=
      encodePathByte_respects.slash
    unfold NormalPath.text
    rw [List.flatMap_cons,
      show encodePathByte pathMarks.slash = ['/'] from hCode]
    rfl
  rcases hSplit with ⟨rest, hRest⟩
  have hIff :=
    suffix_encode_iff encodePathByte_respects.nonempty
      (fun letter hMem =>
        suffixLetters_plain letter (hLetters letter hMem))
      path.text
  unfold endsWith
  rw [pathToFileUri_eq, String.toList_ofList,
    Bool.eq_iff_iff, List.isSuffixOf_iff_suffix,
    List.isSuffixOf_iff_suffix, ← hIff,
    encode_extension suffix hExtension, hRest]
  exact suffix_behind_slash hSlash

theorem startsWith_pathToFileUri
    (path : NormalPath pathMarks) :
    startsWith (pathToFileUri path.text) "file:///" =
      true := by
  rw [← base_eq]
  unfold startsWith
  rw [List.isPrefixOf_iff_prefix, String.toList_append]
  exact List.prefix_append _ _

theorem stripPrefix_scheme (path : List UInt8) :
    stripPrefix (pathToFileUri path) "file://" =
      some (String.ofList
        (path.flatMap encodePathByte)) := by
  have hText :
      (pathToFileUri path).toList =
        "file://".toList ++ path.flatMap encodePathByte := by
    rw [pathToFileUri_eq, String.toList_ofList]
  unfold stripPrefix startsWith
  rw [hText, if_pos, List.drop_left]
  rw [List.isPrefixOf_iff_prefix]
  exact List.prefix_append _ _

/- The candidates are the URIs of candidate paths. -/
theorem relativeSourceUriCandidates_eq
    {source : String}
    (hRelative :
      startsWith source "./" = true ∨
        startsWith source "../" = true)
    (hPlain :
      containsAny source ['?', '#', '\\'] = false) :
    relativeSourceUriCandidates
        (pathToFileUri owner.text) source
      = (owner.follow (asBytes source)).map
        fun path =>
          (candidatePaths path.text).map pathToFileUri := by
  have hGuard :
      (!startsWith (pathToFileUri owner.text) "file:///" ||
        !(startsWith source "./" ||
          startsWith source "../") ||
        containsAny source ['?', '#', '\\']) = false := by
    rw [startsWith_pathToFileUri, hPlain]
    rcases hRelative with hOne | hOne <;> simp [hOne]
  unfold relativeSourceUriCandidates
  rw [hGuard]
  simp only [Bool.false_eq_true, if_false,
    stripPrefix_scheme, Option.bind_eq_bind,
    Option.bind_some, String.toList_ofList,
    normalizeSegments_combined]
  cases hFollow : owner.follow (asBytes source) with
  | none =>
    have hNone :=
      (NormalPath.follow_eq_none_iff owner
        (asBytes source)).mp hFollow
    rw [(normalizeWalk_eq_none_iff _ _).mpr hNone]
    rfl
  | some path =>
    rw [NormalPath.normalizeWalk_of_follow hFollow]
    simp only [Option.map_some, Option.bind_some, base_eq]
    unfold candidatePaths
    have hAny :
        sourceSuffixes.any
            (endsWith (pathToFileUri path.text))
          = sourceSuffixes.any fun suffix =>
            (asBytes suffix).isSuffixOf path.text := by
      rw [Bool.eq_iff_iff, List.any_eq_true, List.any_eq_true]
      refine exists_congr fun suffix =>
        and_congr_right fun hMem => ?_
      rw [endsWith_pathToFileUri hMem]
    rw [hAny]
    split
    · rfl
    · rw [List.map_map]
      congr 1
      apply List.map_congr_left
      intro ending hMem
      exact pathToFileUri_append hMem path.text

----------
-- Proper Candidates
----------

theorem down_of_last
    {segment : List UInt8}
    {last : UInt8}
    (hLast : segment.getLast? = some last)
    (hDot : last ≠ dot) :
    moveOf pathMarks segment = .down := by
  have hMark : pathMarks.dot = dot := rfl
  unfold moveOf
  rw [hMark, if_neg, if_neg]
  · rintro rfl
    exact hDot (Option.some.inj hLast).symm
  · rintro (rfl | rfl)
    · cases hLast
    · exact hDot (Option.some.inj hLast).symm

/- A source extension goes on with a name or starts one. -/
theorem sourceExtensions_shape :
    ∀ ending ∈ sourceExtensions,
      (slash ∉ asBytes ending ∧
        (asBytes ending).getLast? = some 0x73) ∨
      (asBytes ending =
          slash :: (asBytes ending).tail ∧
        slash ∉ (asBytes ending).tail ∧
        (asBytes ending).tail.getLast? = some 0x73) := by
  decide +kernel

variable {path : NormalPath pathMarks}

/- Below the root, every candidate is a normal path. -/
theorem candidate_normal
    (hSegments : path.segments ≠ [])
    {ending : String}
    (hEnding : ending ∈ sourceExtensions) :
    ∃ candidate : NormalPath pathMarks,
      candidate.text = path.text ++ asBytes ending ∧
        candidate.segments ≠ [] := by
  rcases List.eq_nil_or_concat' path.segments with
    hNil | ⟨init, last, hConcat⟩
  · exact absurd hNil hSegments
  · have hNames := path.names
    rw [hConcat] at hNames
    rcases sourceExtensions_shape ending hEnding with
      ⟨hSlash, hLast⟩ | ⟨hHead, hSlash, hLast⟩
    · refine ⟨⟨init ++ [last ++ asBytes ending], ?_⟩, ?_, ?_⟩
      · intro segment hMem
        rcases List.mem_append.mp hMem with hOld | hNew
        · exact hNames segment (List.mem_append_left _ hOld)
        · rw [List.mem_singleton] at hNew
          subst hNew
          constructor
          · intro hIn
            rcases List.mem_append.mp hIn with hOld | hNew
            · exact (hNames last (by simp)).slashless hOld
            · exact hSlash hNew
          · refine @down_of_last _ 0x73 ?_ (by decide)
            rw [List.getLast?_append, hLast]
            rfl
      · unfold NormalPath.text
        rw [hConcat, intercalate_extend]
        rfl
      · simp
    · refine
        ⟨⟨path.segments ++ [(asBytes ending).tail], ?_⟩, ?_, ?_⟩
      · intro segment hMem
        rcases List.mem_append.mp hMem with hOld | hNew
        · exact path.names segment hOld
        · rw [List.mem_singleton] at hNew
          subst hNew
          exact ⟨hSlash, down_of_last hLast (by decide)⟩
      · unfold NormalPath.text
        rw [intercalate_snoc pathMarks.slash hSegments, hHead]
        rfl
      · simp

/- The URI of a normal path below the root is proper. -/
theorem properUri_of_normal
    (hSegments : path.segments ≠ []) :
    ProperUri (pathToFileUri path.text) := by
  have hMark : uriMarks.slash = '/' := rfl
  have hJoin :=
    intercalate_encode encodePathByte_respects path.segments
  refine
    ⟨joinSegments
      (path.segments.map (List.flatMap encodePathByte)),
      ?_, ?_⟩
  · rw [← base_eq, String.toList_append]
    exact congrArg _ String.toList_ofList
  · intro segment hMem
    have hSplit :=
      splitOn_encode encodePathByte_respects
        ([slash].intercalate path.segments)
    unfold segmentsOf at hSplit
    rw [show pathMarks.slash = slash from rfl,
      List.splitOn_intercalate slash
        (fun name hName => (path.names name hName).slashless)
        hSegments, hMark] at hSplit
    rw [show pathMarks.slash = slash from rfl] at hJoin
    rw [show joinSegments
          (path.segments.map (List.flatMap encodePathByte))
        = ([slash].intercalate path.segments).flatMap
          encodePathByte from hJoin.symm, hSplit] at hMem
    rcases List.mem_map.mp hMem with ⟨name, hName, rfl⟩
    have hDown := (path.names name hName).down
    rw [← moveOf_encode encodePathByte_respects] at hDown
    have hDot : uriMarks.dot = '.' := rfl
    unfold moveOf at hDown
    simp only [hDot] at hDown
    split at hDown
    · cases hDown
    · next hStay =>
      split at hDown
      · cases hDown
      · next hUp =>
        rw [not_or] at hStay
        exact ⟨hStay.1, hStay.2, hUp⟩

theorem proper_candidates
    (hSegments : path.segments ≠ []) :
    ∀ uri ∈ (candidatePaths path.text).map pathToFileUri,
      ProperUri uri := by
  intro uri hMem
  rcases List.mem_map.mp hMem with ⟨candidate, hPath, rfl⟩
  unfold candidatePaths at hPath
  split at hPath
  · rw [List.mem_singleton] at hPath
    subst hPath
    exact properUri_of_normal hSegments
  · rcases List.mem_map.mp hPath with ⟨ending, hEnding, rfl⟩
    rcases candidate_normal hSegments hEnding with
      ⟨normal, hText, hBelow⟩
    rw [← hText]
    exact properUri_of_normal hBelow

/- At the root, the index sources follow an empty segment. -/
theorem rootIndex_not_proper :
    ¬ ProperUri
      (pathToFileUri (slash :: asBytes "/index.ets")) := by
  rintro ⟨rest, hText, hNames⟩
  have hUri :
      (pathToFileUri
          (slash :: asBytes "/index.ets")).toList
        = "file:///".toList ++ "/index.ets".toList := by
    decide +kernel
  rw [hUri] at hText
  have hRest := List.append_cancel_left hText
  subst hRest
  exact (hNames [] (by decide)).1 rfl

theorem not_commutes_at_root
    {owner path : NormalPath pathMarks}
    {source : String}
    (hFollow : owner.follow (asBytes source) = some path)
    (hRoot : path.segments = []) :
    ¬ CommutesWithEncoding owner source := by
  intro hCommutes
  apply rootIndex_not_proper
  refine
    hCommutes.proper _ (hCommutes.candidates path hFollow) _ ?_
  have hText : path.text = [slash] := by
    unfold NormalPath.text
    rw [hRoot]
    rfl
  rw [hText]
  decide +kernel

/-
  Specifiers commute with the encoding exactly when they do
  not lead to the root directory itself.
-/
theorem commutesWithEncoding_iff
    (owner : NormalPath pathMarks)
    (source : String)
    (hRelative :
      startsWith source "./" = true ∨
        startsWith source "../" = true)
    (hPlain :
      containsAny source ['?', '#', '\\'] = false) :
    CommutesWithEncoding owner source ↔
      ∀ path, owner.follow (asBytes source) = some path →
        path.segments ≠ [] := by
  have hCandidates :=
    relativeSourceUriCandidates_eq owner hRelative hPlain
  constructor
  · intro hCommutes path hFollow hRoot
    exact not_commutes_at_root hFollow hRoot hCommutes
  · intro hBelow
    constructor
    · rw [hCandidates, Option.map_eq_none_iff]
      exact NormalPath.follow_eq_none_iff owner _
    · intro path hFollow
      rw [hCandidates, hFollow]
      rfl
    · intro uris hUris
      rw [hCandidates, Option.map_eq_some_iff] at hUris
      rcases hUris with ⟨path, hFollow, rfl⟩
      exact proper_candidates (hBelow path hFollow)

/- The file `/main.ets`. -/
def mainAtRoot : NormalPath pathMarks where
  segments := [asBytes "main.ets"]
  names := by
    intro segment hMem
    rw [List.mem_singleton] at hMem
    subst hMem
    exact ⟨by decide, by decide⟩

theorem commutesWithEncoding_sibling :
    CommutesWithEncoding mainAtRoot "./a b" := by
  refine
    (commutesWithEncoding_iff mainAtRoot "./a b"
      (by decide) (by decide)).mpr ?_
  intro path hFollow hRoot
  have hSegments := NormalPath.normalizeWalk_of_follow hFollow
  rw [hRoot] at hSegments
  exact absurd hSegments (by decide)

/- `./` beside a file at the root names the root itself. -/
theorem commutesWithEncoding_fails_at_root :
    ¬ CommutesWithEncoding mainAtRoot "./" :=
  @not_commutes_at_root mainAtRoot
    ⟨[], List.forall_mem_nil _⟩ "./" (by rfl) rfl

end ArktsServer
