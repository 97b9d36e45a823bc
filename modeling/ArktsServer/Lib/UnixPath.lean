import Mathlib.Data.List.Basic
import Mathlib.Tactic.Common

/-
  Absolute Unix paths as texts, and what normalizing,
  joining and cutting off a root do to them.  An absolute
  path is a list of proper segments, so its text is already
  in normal form.

  Main declarations:
    * `UnixPath.splitSlash`, `UnixPath.resolve`,
      `UnixPath.join`, `UnixPath.relative`
    * `UnixPath.relativeWithin`
    * `UnixPath.AbsolutePath`
    * `UnixPath.AbsolutePath.resolve_text`
    * `UnixPath.resolve_resolve`
    * `UnixPath.AbsolutePath.relativeWithin_text`
    * `UnixPath.AbsolutePath.join_text`
-/

namespace ArktsServer

namespace UnixPath

----------
-- Operations on Texts
----------

/- The pieces between the slashes. -/
def splitSlash : List Char → List (List Char)
| [] => [[]]
| char :: rest =>
    if char = '/' then
      [] :: splitSlash rest
    else
      match splitSlash rest with
      | [] => [[char]]
      | segment :: segments => (char :: segment) :: segments

/- Go on from a list of segments to the next one. -/
def pushSegment
    (segments : List (List Char))
    (segment : List Char) : List (List Char) :=
  if segment = [] ∨ segment = ['.'] then
    segments
  else if segment = ['.', '.'] then
    segments.dropLast
  else
    segments ++ [segment]

/- The segments of an absolute path in normal form. -/
def normalSegments (path : List Char) :
    List (List Char) :=
  (splitSlash path).foldl pushSegment []

/- A slash in front of every segment. -/
def slashed (segments : List (List Char)) : List Char :=
  segments.flatMap fun segment => '/' :: segment

def render (segments : List (List Char)) : List Char :=
  if segments = [] then ['/'] else slashed segments

/- `path.resolve` of one path. -/
def resolve (cwd path : List Char) : List Char :=
  if path.head? = some '/' then
    render (normalSegments path)
  else
    render (normalSegments (cwd ++ '/' :: path))

/- `path.join` behind an absolute path. -/
def join (root relative : List Char) : List Char :=
  let joined :=
    if relative = [] then root else root ++ '/' :: relative
  let normal := render (normalSegments joined)
  if joined.getLast? = some '/' ∧ normal.getLast? ≠ some '/'
  then normal ++ ['/']
  else normal

/- Up from one list of segments, and down to another. -/
def relativeSegments :
    List (List Char) → List (List Char) → List (List Char)
| first :: start, second :: target =>
    if first = second then
      relativeSegments start target
    else
      (first :: start).map (fun _ => ['.', '.'])
        ++ second :: target
| start, target => start.map (fun _ => ['.', '.']) ++ target

/- `path.relative`. -/
def relative (cwd start target : List Char) : List Char :=
  (slashed
    (relativeSegments (normalSegments (resolve cwd start))
      (normalSegments (resolve cwd target)))).tail

/- Whether a relative path leads to no directory above. -/
def staysBelow (relativePath : List Char) : Bool :=
  relativePath != ['.', '.']
    && !(['.', '.', '/'].isPrefixOf relativePath)
    && relativePath.head? != some '/'

/- The rest of a path behind a root. -/
def relativeWithin
    (root candidate : List Char) : Option (List Char) :=
  if candidate = root then
    some []
  else
    let start :=
      if root.getLast? = some '/' then root
      else root ++ ['/']
    if start.isPrefixOf candidate then
      some (candidate.drop start.length)
    else
      none

----------
-- Absolute Paths
----------

/- A name between two slashes. -/
structure Proper (segment : List Char) : Prop where
  nonempty : segment ≠ []
  slashless : '/' ∉ segment
  notDot : segment ≠ ['.']
  notDotDot : segment ≠ ['.', '.']

instance (segment : List Char) :
    Decidable (Proper segment) :=
  decidable_of_iff
    (segment ≠ [] ∧ '/' ∉ segment ∧ segment ≠ ['.'] ∧
      segment ≠ ['.', '.'])
    ⟨fun hAll => ⟨hAll.1, hAll.2.1, hAll.2.2.1, hAll.2.2.2⟩,
      fun hProper =>
        ⟨hProper.nonempty, hProper.slashless,
          hProper.notDot, hProper.notDotDot⟩⟩

structure AbsolutePath where
  segments : List (List Char)
  proper : ∀ segment ∈ segments, Proper segment

namespace AbsolutePath

def text (path : AbsolutePath) : List Char :=
  render path.segments

/- The segments of a path behind those of another. -/
def append (root rest : AbsolutePath) : AbsolutePath where
  segments := root.segments ++ rest.segments
  proper := by
    intro segment hMem
    rcases List.mem_append.mp hMem with hRoot | hRest
    · exact root.proper segment hRoot
    · exact rest.proper segment hRest

/- The text of a path relative to where it starts. -/
def relativeText (path : AbsolutePath) : List Char :=
  (slashed path.segments).tail

end AbsolutePath

----------
-- Normal Forms
----------

theorem splitSlash_ne_nil (path : List Char) :
    splitSlash path ≠ [] := by
  cases path with
  | nil => exact List.cons_ne_nil _ _
  | cons char rest =>
    unfold splitSlash
    split
    · exact List.cons_ne_nil _ _
    · split <;> exact List.cons_ne_nil _ _

variable {segment : List Char}

theorem splitSlash_slashless
    (hSlashless : '/' ∉ segment) :
    splitSlash segment = [segment] := by
  induction segment with
  | nil => rfl
  | cons char rest ih =>
    simp only [List.mem_cons, not_or] at hSlashless
    unfold splitSlash
    rw [if_neg (Ne.symm hSlashless.1), ih hSlashless.2]

theorem splitSlash_append
    (hSlashless : '/' ∉ segment)
    (rest : List Char) :
    splitSlash (segment ++ '/' :: rest) =
      segment :: splitSlash rest := by
  induction segment with
  | nil =>
    rw [List.nil_append, splitSlash, if_pos rfl]
  | cons char others ih =>
    simp only [List.mem_cons, not_or] at hSlashless
    rw [List.cons_append, splitSlash,
      if_neg (Ne.symm hSlashless.1), ih hSlashless.2]

variable {segments : List (List Char)}

theorem splitSlash_slashed
    (hProper : ∀ segment ∈ segments, Proper segment) :
    splitSlash (slashed segments) = [] :: segments := by
  induction segments with
  | nil => rfl
  | cons segment segments ih =>
    have hOwn := hProper segment List.mem_cons_self
    have hRest := ih fun other hOther =>
      hProper other (List.mem_cons_of_mem _ hOther)
    have hSlashed :
        slashed (segment :: segments) =
          '/' :: (segment ++ slashed segments) := rfl
    rw [hSlashed, splitSlash, if_pos rfl]
    cases segments with
    | nil =>
      have hNone : slashed [] = [] := rfl
      rw [hNone, List.append_nil,
        splitSlash_slashless hOwn.slashless]
    | cons next others =>
      have hNext :
          slashed (next :: others) =
            '/' :: (next ++ slashed others) := rfl
      rw [hNext, splitSlash, if_pos rfl] at hRest
      injection hRest with _ hTail
      rw [hNext, splitSlash_append hOwn.slashless, hTail]

theorem pushSegment_proper
    (hProper : Proper segment) :
    pushSegment segments segment = segments ++ [segment] := by
  unfold pushSegment
  rw [if_neg, if_neg hProper.notDotDot]
  rintro (hEmpty | hDot)
  · exact hProper.nonempty hEmpty
  · exact hProper.notDot hDot

theorem foldl_pushSegment
    (hProper : ∀ segment ∈ segments, Proper segment)
    (before : List (List Char)) :
    segments.foldl pushSegment before =
      before ++ segments := by
  induction segments generalizing before with
  | nil => rw [List.foldl_nil, List.append_nil]
  | cons segment segments ih =>
    rw [List.foldl_cons,
      pushSegment_proper (hProper segment List.mem_cons_self),
      ih fun other hOther =>
        hProper other (List.mem_cons_of_mem _ hOther),
      List.append_assoc]
    rfl

/- Proper segments stay as they are. -/
theorem normalSegments_slashed
    (hProper : ∀ segment ∈ segments, Proper segment) :
    normalSegments (slashed segments) = segments := by
  unfold normalSegments
  rw [splitSlash_slashed hProper, List.foldl_cons]
  exact foldl_pushSegment hProper []

theorem normalSegments_render
    (hProper : ∀ segment ∈ segments, Proper segment) :
    normalSegments (render segments) = segments := by
  unfold render
  by_cases hRoot : segments = []
  · rw [if_pos hRoot, hRoot]
    rfl
  · rw [if_neg hRoot]
    exact normalSegments_slashed hProper

theorem head_render (segments : List (List Char)) :
    (render segments).head? = some '/' := by
  unfold render
  cases segments with
  | nil => rfl
  | cons segment segments => rfl

/- Only the root itself ends in a slash. -/
theorem getLast_slashed
    (hProper : ∀ segment ∈ segments, Proper segment) :
    (slashed segments).getLast? ≠ some '/' := by
  induction segments with
  | nil =>
    intro hLast
    cases hLast
  | cons segment segments ih =>
    intro hLast
    have hOwn := hProper segment List.mem_cons_self
    have hSlashed :
        slashed (segment :: segments) =
          ('/' :: segment) ++ slashed segments := rfl
    rw [hSlashed] at hLast
    cases segments with
    | nil =>
      have hNone : slashed [] = [] := rfl
      rw [hNone, List.append_nil] at hLast
      cases segment with
      | nil => exact hOwn.nonempty rfl
      | cons char others =>
        rw [List.getLast?_cons_cons] at hLast
        exact hOwn.slashless (List.mem_of_getLast? hLast)
    | cons next others =>
      have hSome : slashed (next :: others) ≠ [] :=
        List.cons_ne_nil _ _
      rw [List.getLast?_append_of_ne_nil _ hSome] at hLast
      exact
        ih (fun other hOther =>
          hProper other (List.mem_cons_of_mem _ hOther))
          hLast

theorem slashed_append
    (first second : List (List Char)) :
    slashed (first ++ second) =
      slashed first ++ slashed second := by
  unfold slashed
  exact List.flatMap_append

namespace AbsolutePath

/- A path in normal form resolves to itself. -/
theorem resolve_text
    (cwd : List Char)
    (path : AbsolutePath) :
    resolve cwd path.text = path.text := by
  unfold resolve text
  rw [if_pos (head_render _), normalSegments_render path.proper]

end AbsolutePath

theorem slashless_of_mem_splitSlash
    {path segment : List Char}
    (hSegment : segment ∈ splitSlash path) :
    '/' ∉ segment := by
  induction path generalizing segment with
  | nil =>
    rw [splitSlash, List.mem_singleton] at hSegment
    rw [hSegment]
    exact List.not_mem_nil
  | cons char rest ih =>
    unfold splitSlash at hSegment
    split at hSegment
    · rcases List.mem_cons.mp hSegment with hHere | hLater
      · rw [hHere]
        exact List.not_mem_nil
      · exact ih hLater
    · rename_i hChar
      cases hSplit : splitSlash rest with
      | nil => exact absurd hSplit (splitSlash_ne_nil rest)
      | cons first segments =>
        rw [hSplit] at hSegment
        rcases List.mem_cons.mp hSegment with
          hHere | hLater
        · have hFirst : '/' ∉ first := by
            apply ih
            rw [hSplit]
            exact List.mem_cons_self
          rw [hHere]
          exact
            List.not_mem_cons_of_ne_of_not_mem
              (Ne.symm hChar) hFirst
        · apply ih
          rw [hSplit]
          exact List.mem_cons_of_mem _ hLater

theorem pushSegment_mem
    {segment other : List Char}
    (hSlashless : '/' ∉ segment)
    (hOther : other ∈ pushSegment segments segment) :
    other ∈ segments ∨ Proper other := by
  unfold pushSegment at hOther
  split at hOther
  · exact Or.inl hOther
  · rename_i hNamed
    split at hOther
    · exact Or.inl (List.dropLast_subset _ hOther)
    · rename_i hDown
      rcases List.mem_append.mp hOther with hOld | hNew
      · exact Or.inl hOld
      · rw [List.mem_singleton.mp hNew]
        rcases not_or.mp hNamed with ⟨hSome, hDot⟩
        exact Or.inr ⟨hSome, hSlashless, hDot, hDown⟩

/- The segments of any path are proper ones. -/
theorem normalSegments_proper (path : List Char) :
    ∀ segment ∈ normalSegments path, Proper segment := by
  have hWalk : ∀ segments before : List (List Char),
      (∀ segment ∈ segments, '/' ∉ segment) →
        (∀ segment ∈ before, Proper segment) →
        ∀ segment ∈ segments.foldl pushSegment before,
          Proper segment := by
    intro segments
    induction segments with
    | nil => exact fun before _ hBefore => hBefore
    | cons first segments ih =>
      intro before hSlashless hBefore
      rw [List.forall_mem_cons] at hSlashless
      refine ih _ hSlashless.2 ?_
      intro segment hSegment
      rcases pushSegment_mem hSlashless.1 hSegment with
        hOld | hProper
      · exact hBefore segment hOld
      · exact hProper
  refine hWalk _ _ ?_ ?_
  · exact fun segment => slashless_of_mem_splitSlash
  · intro segment hSegment
    cases hSegment

theorem resolve_resolve (cwd path : List Char) :
    resolve cwd (resolve cwd path) = resolve cwd path := by
  have hNormal : ∀ text,
      resolve cwd (render (normalSegments text)) =
        render (normalSegments text) := fun text =>
    AbsolutePath.resolve_text cwd
      ⟨normalSegments text, normalSegments_proper text⟩
  by_cases hAbsolute : path.head? = some '/'
  · have hPath :
        resolve cwd path = render (normalSegments path) := by
      unfold resolve
      rw [if_pos hAbsolute]
    rw [hPath]
    exact hNormal path
  · have hPath :
        resolve cwd path =
          render (normalSegments (cwd ++ '/' :: path)) := by
      unfold resolve
      rw [if_neg hAbsolute]
    rw [hPath]
    exact hNormal (cwd ++ '/' :: path)

namespace AbsolutePath

theorem slashed_eq
    {path : AbsolutePath}
    (hBelow : path.segments ≠ []) :
    slashed path.segments = '/' :: path.relativeText := by
  unfold relativeText
  cases hSegments : path.segments with
  | nil => exact absurd hSegments hBelow
  | cons segment segments => rfl

variable {root rest : AbsolutePath}

/- The text of a path below another one. -/
theorem text_append
    (hBelow : rest.segments ≠ []) :
    (root.append rest).text =
      slashed root.segments ++ '/' :: rest.relativeText := by
  have hSome : (root.append rest).segments ≠ [] := by
    unfold append
    simp [hBelow]
  unfold text render
  rw [if_neg hSome, ← slashed_eq hBelow, ← slashed_append]
  rfl

theorem relativeText_ne_nil
    {path : AbsolutePath}
    (hBelow : path.segments ≠ []) :
    path.relativeText ≠ [] := by
  intro hNil
  cases hSegments : path.segments with
  | nil => exact hBelow hSegments
  | cons segment segments =>
    have hOwn := path.proper segment (by rw [hSegments]; simp)
    have hText :
        path.relativeText = segment ++ slashed segments := by
      unfold relativeText
      rw [hSegments]
      rfl
    rw [hText] at hNil
    exact hOwn.nonempty (List.append_eq_nil_iff.mp hNil).1

/- Cutting a root off leaves the text behind it. -/
theorem relativeWithin_text
    (hBelow : rest.segments ≠ []) :
    relativeWithin root.text (root.append rest).text =
      some rest.relativeText := by
  rw [text_append hBelow]
  unfold relativeWithin text render
  by_cases hRoot : root.segments = []
  · have hSome := relativeText_ne_nil hBelow
    simp [hRoot, slashed, hSome]
  · have hLast := getLast_slashed root.proper
    simp [hRoot, hLast]

/- Joining a root and the text behind it. -/
theorem join_text
    (hBelow : rest.segments ≠ []) :
    join root.text rest.relativeText =
      (root.append rest).text := by
  have hNormal :
      normalSegments (root.text ++ '/' :: rest.relativeText)
        = (root.append rest).segments := by
    rw [← slashed_eq hBelow]
    by_cases hRoot : root.segments = []
    · have hText : root.text = ['/'] := by
        unfold text render
        rw [if_pos hRoot]
      have hSegments :
          (root.append rest).segments = rest.segments := by
        change root.segments ++ rest.segments = rest.segments
        rw [hRoot, List.nil_append]
      unfold normalSegments
      rw [hText, hSegments, List.singleton_append, splitSlash,
        if_pos rfl, splitSlash_slashed rest.proper,
        List.foldl_cons, List.foldl_cons]
      exact foldl_pushSegment rest.proper []
    · have hText : root.text = slashed root.segments := by
        unfold text render
        rw [if_neg hRoot]
      rw [hText, ← slashed_append]
      exact normalSegments_slashed (root.append rest).proper
  have hLast :
      (root.text ++ '/' :: rest.relativeText).getLast?
        ≠ some '/' := by
    have hEnd := getLast_slashed rest.proper
    rw [slashed_eq hBelow] at hEnd
    rw [List.getLast?_append]
    simpa using hEnd
  unfold join
  simp only [relativeText_ne_nil hBelow, if_false, hNormal,
    hLast, false_and]
  rfl

end AbsolutePath

end UnixPath

end ArktsServer
