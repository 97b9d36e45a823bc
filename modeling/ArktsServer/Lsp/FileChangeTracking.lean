import ArktsServer.Lsp.WorkspaceFileChangeCoordinator
import Mathlib.Data.List.Nodup

/-
  Which file of which root an event is about.  Configuration
  files belong to the innermost root that the client sees them
  in, other files to the innermost root that they really lie
  in; the coordinator finds that root unless a root lies
  directly in the path of the event or is kept behind one
  that it is nested in.

  Key definitions include:
    * `Innermost`, `InnerFirst`, `Owns`
    * `Tracking`, `Tracks`, `Unambiguous`

  Correctness is proven by:
    * `isInside_iff`, `domain_unique`
    * `find_innermost_iff`, `rootFor_iff`
    * `acceptOne_cases`
-/

namespace ArktsServer

namespace FileChanges

open UnixPath

----------
-- Paths
----------

theorem isInside_iff
    {root candidate : AbsolutePath} :
    isInside root candidate = true ↔
      candidate.Below root ∨ candidate.ParentOf root := by
  unfold isInside
  simp only [Bool.and_eq_true, Bool.not_eq_true',
    bne_iff_ne, ne_eq, List.isEmpty_eq_false_iff]
  constructor
  · rintro ⟨⟨hSome, hUp⟩, _⟩
    by_contra hNone
    rcases not_or.mp hNone with ⟨hBelow, hParent⟩
    rcases AbsolutePath.relative_outside ['/'] hBelow
        hParent with hNil | hPrefix
    · exact hSome hNil
    · rw [hUp] at hPrefix
      cases hPrefix
  · rintro (hBelow | hParent)
    · rcases AbsolutePath.relative_below ['/'] hBelow with
        ⟨hSome, hUp, hHead⟩
      exact ⟨⟨hSome, hUp⟩, hHead⟩
    · rw [AbsolutePath.relative_parent ['/'] hParent]
      decide

theorem foldl_pushSegment_undotted
    {segments : List (List Char)}
    (hUndotted :
      ∀ segment ∈ segments,
        segment ≠ ['.'] ∧ segment ≠ ['.', '.'])
    (before : List (List Char)) :
    segments.foldl pushSegment before =
      before ++ segments.filter (!·.isEmpty) := by
  induction segments generalizing before with
  | nil => simp
  | cons segment segments ih =>
    have hOwn := hUndotted segment List.mem_cons_self
    have hRest := ih fun other hOther =>
      hUndotted other (List.mem_cons_of_mem _ hOther)
    rw [List.foldl_cons, hRest]
    unfold pushSegment
    by_cases hEmpty : segment = []
    · simp [hEmpty]
    · simp [hEmpty, hOwn]

/- The base name of a file is the last name of its path. -/
theorem basename_eq (file : FileText) :
    basename file.text =
      (file.resolve.segments.getLast?).getD [] := by
  have hSegments :
      file.resolve.segments =
        (splitSlash file.text).filter (!·.isEmpty) :=
    (foldl_pushSegment_undotted file.undotted []).trans
      (List.nil_append _)
  rw [hSegments]
  rfl

/- Names of one path are of one domain. -/
theorem domain_unique
    {file other : FileText}
    {domain otherDomain : Domain}
    (hResolve : file.resolve = other.resolve)
    (hDomain : workspaceFileDomain file.text = some domain)
    (hOther :
      workspaceFileDomain other.text = some otherDomain) :
    domain = otherDomain := by
  have hName : basename file.text = basename other.text := by
    rw [basename_eq, basename_eq, hResolve]
  have hConfiguration :
      isProjectConfiguration file.text =
        isProjectConfiguration other.text := by
    unfold isProjectConfiguration
    rw [hName]
  have hSource :
      hasSourceExtension file.text =
        hasSourceExtension other.text := by
    unfold hasSourceExtension extname
    rw [hName]
  unfold workspaceFileDomain at hDomain hOther
  rw [← hConfiguration, ← hSource] at hOther
  split at hDomain
  · rename_i hThis
    rw [if_pos hThis] at hOther
    exact Option.some.inj (hDomain.symm.trans hOther)
  · rename_i hThis
    rw [if_neg hThis] at hOther
    split at hDomain
    · rename_i hSuffix
      rw [if_pos hSuffix] at hOther
      exact Option.some.inj (hDomain.symm.trans hOther)
    · rename_i hSuffix
      rw [if_neg hSuffix] at hOther
      split at hDomain
      · split at hOther
        · exact Option.some.inj (hDomain.symm.trans hOther)
        · cases hOther
      · cases hDomain

/- A canonical path has no zero character: the key is cut. -/
theorem pendingKey_injective
    {Uri : Type}
    {root other : Root Uri}
    {path otherPath : AbsolutePath}
    (hRoot : '\x00' ∉ root.canonicalPath.text)
    (hOther : '\x00' ∉ other.canonicalPath.text)
    (hKey :
      Coordinator.pendingKey root path =
        Coordinator.pendingKey other otherPath) :
    root.canonicalPath = other.canonicalPath ∧
      path = otherPath := by
  unfold Coordinator.pendingKey at hKey
  have hCut : ∀ first second rest others : List Char,
      '\x00' ∉ first → '\x00' ∉ second →
        first ++ '\x00' :: rest =
            second ++ '\x00' :: others →
          first = second ∧ rest = others := by
    intro first
    induction first with
    | nil =>
      intro second rest others _ hSecond hSame
      cases second with
      | nil =>
        injection hSame with _ hRest
        exact ⟨rfl, hRest⟩
      | cons char second =>
        injection hSame with hChar _
        exact absurd (hChar ▸ List.mem_cons_self) hSecond
    | cons char first ih =>
      intro second rest others hFirst hSecond hSame
      cases second with
      | nil =>
        injection hSame with hChar _
        exact absurd (hChar ▸ List.mem_cons_self) hFirst
      | cons otherChar second =>
        injection hSame with hChar hTail
        have hBoth :=
          ih second rest others
            (fun hMem =>
              hFirst (List.mem_cons_of_mem _ hMem))
            (fun hMem =>
              hSecond (List.mem_cons_of_mem _ hMem))
            hTail
        exact ⟨by rw [hChar, hBoth.1], hBoth.2⟩
  have hBoth := hCut _ _ _ _ hRoot hOther hKey
  exact
    ⟨AbsolutePath.text_injective hBoth.1,
      AbsolutePath.text_injective hBoth.2⟩

----------
-- Roots
----------

/- A path is longer than those it lies in. -/
theorem length_of_below
    {path root : AbsolutePath}
    (hBelow : path.Below root) :
    LineIndex.utf16Length root.text <
      LineIndex.utf16Length path.text := by
  rcases hBelow with ⟨⟨rest, hRest⟩, hOther⟩
  have hSome : rest ≠ [] := by
    intro hNil
    rw [hNil, List.append_nil] at hRest
    exact hOther hRest
  have hPath :
      path.text = slashed root.segments ++ slashed rest := by
    unfold AbsolutePath.text render
    rw [if_neg, ← hRest, slashed_append]
    rw [← hRest]
    simp [hSome]
  have hLonger :
      1 < LineIndex.utf16Length (slashed rest) := by
    cases rest with
    | nil => exact absurd rfl hSome
    | cons name rest =>
      have hName : Proper name :=
        path.proper name (by
          rw [← hRest]
          simp)
      have hSlashed :
          slashed (name :: rest) =
            ['/'] ++ (name ++ slashed rest) := rfl
      have hNamed := LineIndex.utf16Length_pos hName.nonempty
      have hSlash : LineIndex.utf16Length ['/'] = 1 := by decide
      rw [hSlashed, LineIndex.utf16Length_append,
        LineIndex.utf16Length_append, hSlash]
      omega
  rw [hPath, LineIndex.utf16Length_append]
  unfold AbsolutePath.text render
  by_cases hRoot : root.segments = []
  · have hSlash : LineIndex.utf16Length ['/'] = 1 := by
      decide
    rw [if_pos hRoot, hSlash]
    omega
  · rw [if_neg hRoot]
    omega

section Roots

variable {Uri : Type}

/- The innermost of the roots that a path lies in. -/
structure Innermost
    (roots : List (Root Uri))
    (placeOf : Root Uri → AbsolutePath)
    (path : AbsolutePath)
    (root : Root Uri) : Prop where
  listed : root ∈ roots
  inside : path.Below (placeOf root)
  inner :
    ∀ other ∈ roots,
      path.Below (placeOf other) →
        (placeOf other).segments <+: (placeOf root).segments

/- Inner roots come first in the list. -/
def InnerFirst
    (roots : List (Root Uri))
    (placeOf : Root Uri → AbsolutePath)
    (path : AbsolutePath) : Prop :=
  roots.Pairwise fun first second =>
    ¬ (path.Below (placeOf second) ∧
        (placeOf second).Below (placeOf first))

variable {placeOf : Root Uri → AbsolutePath}
variable {roots : List (Root Uri)}
variable {path : AbsolutePath}
variable {root : Root Uri}

theorem find_innermost
    (hOrder : InnerFirst roots placeOf path)
    (hParent :
      ∀ other ∈ roots, ¬ path.ParentOf (placeOf other))
    (hFound :
      (roots.find? fun entry =>
        isInside (placeOf entry) path) = some root) :
    Innermost roots placeOf path root := by
  rcases List.find?_eq_some_iff_append.mp hFound with
    ⟨hInside, before, after, hRoots, hBefore⟩
  have hListed : root ∈ roots := by
    rw [hRoots]
    simp
  have hBelow : path.Below (placeOf root) :=
    (isInside_iff.mp hInside).resolve_right (hParent root hListed)
  refine ⟨hListed, hBelow, ?_⟩
  intro other hOther hThere
  rw [hRoots] at hOther
  rcases List.mem_append.mp hOther with hFirst | hRest
  · have hNot := hBefore other hFirst
    rw [isInside_iff.mpr (Or.inl hThere)] at hNot
    cases hNot
  · rcases List.mem_cons.mp hRest with rfl | hLater
    · exact List.prefix_rfl
    · rcases AbsolutePath.below_total hThere hBelow with
        hPrefix | hNested
      · exact hPrefix
      · unfold InnerFirst at hOrder
        rw [hRoots] at hOrder
        have hCons := (List.pairwise_append.mp hOrder).2.1
        exact
          absurd ⟨hThere, hNested⟩
            (List.rel_of_pairwise_cons hCons hLater)

theorem find_innermost_iff
    (hOrder : InnerFirst roots placeOf path)
    (hParent :
      ∀ other ∈ roots, ¬ path.ParentOf (placeOf other))
    (hPlaces :
      ∀ first ∈ roots, ∀ second ∈ roots,
        placeOf first = placeOf second → first = second) :
    (roots.find? fun entry =>
        isInside (placeOf entry) path) = some root ↔
      Innermost roots placeOf path root := by
  refine ⟨find_innermost hOrder hParent, ?_⟩
  intro hRoot
  have hSome :
      ((roots.find? fun entry =>
        isInside (placeOf entry) path)).isSome = true :=
    List.find?_isSome.mpr
      ⟨root, hRoot.listed, isInside_iff.mpr (Or.inl hRoot.inside)⟩
  rcases Option.isSome_iff_exists.mp hSome with
    ⟨found, hFound⟩
  have hOther := find_innermost hOrder hParent hFound
  have hFirst := hRoot.inner found hOther.listed hOther.inside
  have hSecond := hOther.inner root hRoot.listed hRoot.inside
  have hSame : found = root :=
    hPlaces found hOther.listed root hRoot.listed
      (AbsolutePath.ext_segments
        (hFirst.eq_of_length_le hSecond.length_le))
  rw [hFound, hSame]

theorem find_none_iff
    (hParent :
      ∀ other ∈ roots, ¬ path.ParentOf (placeOf other)) :
    (roots.find? fun entry =>
        isInside (placeOf entry) path) = none ↔
      ∀ other ∈ roots, ¬ path.Below (placeOf other) := by
  rw [List.find?_eq_none]
  refine forall₂_congr fun other hOther => ?_
  rw [isInside_iff]
  constructor
  · intro hNeither hBelow
    exact hNeither (Or.inl hBelow)
  · rintro hBelow (hThere | hUp)
    · exact hBelow hThere
    · exact hParent other hOther hUp

end Roots

----------
-- Tracked Events
----------

section Tracking

variable {Uri Url World : Type}

/-
  The root of a file: configuration files belong where the
  client sees them, other files where they really are.
-/
def Owns
    (host : Host Uri Url World)
    (world : World)
    (roots : List (Root Uri))
    (candidate : FileText)
    (root : Root Uri) : Prop :=
  if isProjectConfiguration candidate.text then
    Innermost roots (·.path) candidate.resolve root ∨
      (∀ other ∈ roots,
          ¬ candidate.resolve.Below other.path) ∧
        Innermost roots (·.canonicalPath)
          (Coordinator.linkPath host world candidate.resolve)
          root
  else
    Innermost roots (·.canonicalPath)
      (canonicalPath host world candidate.resolve) root

/- What an event says of a file of a root. -/
structure Tracking (Uri : Type) where
  root : Root Uri
  path : AbsolutePath
  domain : Domain
  kind : Kind

/- An event on a tracked file strictly inside a root. -/
def Tracks
    (host : Host Uri Url World)
    (coordinator : Coordinator Uri World)
    (event : WorkspaceFileEvent Uri × World)
    (tracking : Tracking Uri) : Prop :=
  ∃ candidate,
    filePath host event.1.uri = some candidate ∧
      candidate.resolve = tracking.path ∧
      workspaceFileDomain candidate.text =
        some tracking.domain ∧
      changeKind event.1.type = some tracking.kind ∧
      Owns host event.2 coordinator.roots candidate
        tracking.root ∧
      (tracking.domain = .arkuiResource →
        Coordinator.isResource coordinator.isResourceFile
            event.2 tracking.root event.1.uri candidate =
          true)

/-
  No root lies directly in the path of the event, and inner
  roots are looked at first.
-/
def Unambiguous
    (host : Host Uri Url World)
    (roots : List (Root Uri))
    (event : WorkspaceFileEvent Uri × World) : Prop :=
  ∀ candidate,
    filePath host event.1.uri = some candidate →
      if isProjectConfiguration candidate.text then
        (∀ root ∈ roots,
            ¬ candidate.resolve.ParentOf root.path) ∧
          InnerFirst roots (·.path) candidate.resolve ∧
          ((∀ root ∈ roots,
              ¬ candidate.resolve.Below root.path) →
            ∀ root ∈ roots,
              ¬ (Coordinator.linkPath host event.2
                  candidate.resolve).ParentOf
                    root.canonicalPath)
      else
        workspaceFileDomain candidate.text ≠ none →
          ∀ root ∈ roots,
            ¬ (canonicalPath host event.2
                candidate.resolve).ParentOf
                  root.canonicalPath

/- The roots of a coordinator. -/
structure Rooted
    (host : Host Uri Url World)
    (roots : List (Root Uri)) : Prop where
  named :
    ∀ root ∈ roots,
      (filePath host root.uri).map (·.resolve) =
        some root.path
  canonical :
    ∃ world, ∀ root ∈ roots,
      root.canonicalPath =
        canonicalPath host world root.path
  sorted :
    roots.Pairwise fun first second =>
      LineIndex.utf16Length second.canonicalPath.text
        ≤ LineIndex.utf16Length first.canonicalPath.text
  distinct : (roots.map (·.canonicalPath)).Nodup
  plain : ∀ root ∈ roots, '\x00' ∉ root.canonicalPath.text

variable {host : Host Uri Url World}
variable {roots : List (Root Uri)}

theorem Rooted.canonical_injective
    (hRoots : Rooted host roots) :
    ∀ first ∈ roots, ∀ second ∈ roots,
      first.canonicalPath = second.canonicalPath →
        first = second := by
  intro first hFirst second hSecond hSame
  exact
    List.inj_on_of_nodup_map hRoots.distinct hFirst hSecond hSame

theorem Rooted.path_injective
    (hRoots : Rooted host roots) :
    ∀ first ∈ roots, ∀ second ∈ roots,
      first.path = second.path → first = second := by
  intro first hFirst second hSecond hSame
  rcases hRoots.canonical with ⟨world, hCanonical⟩
  refine hRoots.canonical_injective first hFirst second hSecond ?_
  rw [hCanonical first hFirst, hCanonical second hSecond, hSame]

theorem Rooted.uri_injective
    (hRoots : Rooted host roots) :
    ∀ first ∈ roots, ∀ second ∈ roots,
      first.uri = second.uri → first = second := by
  intro first hFirst second hSecond hSame
  refine hRoots.path_injective first hFirst second hSecond ?_
  have hNamed := hRoots.named first hFirst
  rw [hSame, hRoots.named second hSecond] at hNamed
  exact (Option.some.inj hNamed).symm

/- Longer canonical paths come first, so inner ones do. -/
theorem Rooted.innerFirst
    (hRoots : Rooted host roots)
    (path : AbsolutePath) :
    InnerFirst roots (·.canonicalPath) path := by
  refine hRoots.sorted.imp ?_
  rintro first second hLength ⟨_, hNested⟩
  exact absurd (length_of_below hNested) (Nat.not_lt.mpr hLength)

variable {event : WorkspaceFileEvent Uri × World}

/- The root that is found is the one that owns the file. -/
theorem rootFor_iff
    {candidate : FileText}
    {root : Root Uri}
    (hRoots : Rooted host roots)
    (hEvent : Unambiguous host roots event)
    (hFile : filePath host event.1.uri = some candidate)
    (hDomain : workspaceFileDomain candidate.text ≠ none) :
    Coordinator.rootFor host event.2 roots candidate =
        some root ↔
      Owns host event.2 roots candidate root := by
  have hThis := hEvent candidate hFile
  unfold Coordinator.rootFor Owns
  split
  · rename_i hConfiguration
    rw [if_pos hConfiguration] at hThis
    rcases hThis with ⟨hParent, hOrder, hLink⟩
    rw [Option.or_eq_some_iff,
      find_innermost_iff hOrder hParent hRoots.path_injective,
      find_none_iff hParent]
    refine or_congr_right (and_congr_right fun hNone => ?_)
    exact
      find_innermost_iff (hRoots.innerFirst _) (hLink hNone)
        hRoots.canonical_injective
  · rename_i hConfiguration
    rw [if_neg hConfiguration] at hThis
    exact
      find_innermost_iff (hRoots.innerFirst _)
        (hThis hDomain) hRoots.canonical_injective

variable {coordinator : Coordinator Uri World}
variable {first second : Tracking Uri}

theorem Tracks.unique
    (hRoots : Rooted host coordinator.roots)
    (hEvent : Unambiguous host coordinator.roots event)
    (hFirst : Tracks host coordinator event first)
    (hSecond : Tracks host coordinator event second) :
    first = second := by
  rcases hFirst with
    ⟨candidate, hFile, hPath, hDomain, hKind, hOwns, _⟩
  rcases hSecond with
    ⟨other, hFile', hPath', hDomain', hKind', hOwns', _⟩
  rw [hFile] at hFile'
  injection hFile' with hSame
  subst hSame
  have hTracked :
      workspaceFileDomain candidate.text ≠ none := by
    rw [hDomain]
    exact Option.some_ne_none _
  have hRoot : first.root = second.root :=
    Option.some.inj
      (((rootFor_iff hRoots hEvent hFile hTracked).mpr
        hOwns).symm.trans
        ((rootFor_iff hRoots hEvent hFile hTracked).mpr hOwns'))
  have hDomains : first.domain = second.domain :=
    Option.some.inj (hDomain.symm.trans hDomain')
  have hKinds : first.kind = second.kind :=
    Option.some.inj (hKind.symm.trans hKind')
  have hPaths : first.path = second.path :=
    hPath.symm.trans hPath'
  cases first
  cases second
  cases hRoot
  cases hDomains
  cases hKinds
  cases hPaths
  rfl

/- One path is of one domain, whoever says so. -/
theorem Tracks.same_domain
    {event other : WorkspaceFileEvent Uri × World}
    (hFirst : Tracks host coordinator event first)
    (hSecond : Tracks host coordinator other second)
    (hPath : first.path = second.path) :
    first.domain = second.domain := by
  rcases hFirst with ⟨candidate, _, hPath₁, hDomain, _⟩
  rcases hSecond with ⟨another, _, hPath₂, hDomain', _⟩
  refine domain_unique ?_ hDomain hDomain'
  rw [hPath₁, hPath₂, hPath]

theorem Owns.listed
    {world : World}
    {candidate : FileText}
    {root : Root Uri}
    (hOwns : Owns host world roots candidate root) :
    root ∈ roots := by
  unfold Owns at hOwns
  split at hOwns
  · rcases hOwns with hOwns | ⟨_, hOwns⟩
    · exact hOwns.listed
    · exact hOwns.listed
  · exact hOwns.listed

theorem Tracks.listed
    {tracking : Tracking Uri}
    (hTracks : Tracks host coordinator event tracking) :
    tracking.root ∈ coordinator.roots := by
  rcases hTracks with ⟨_, _, _, _, _, hOwns, _⟩
  exact hOwns.listed

----------
-- Accepting One Event
----------

/- The change that an event is kept as. -/
def changeOf
    (event : WorkspaceFileEvent Uri × World)
    (tracking : Tracking Uri) : PendingChange Uri :=
  { root := tracking.root
    domain := tracking.domain
    uri := event.1.uri
    kind := tracking.kind }

/- All that an event on a tracked file can do. -/
inductive Accepted
    (coordinator : Coordinator Uri World)
    (event : WorkspaceFileEvent Uri × World)
    (tracking : Tracking Uri) :
    Coordinator Uri World → Prop where
| configuration (marked : List (List Char)) :
    tracking.domain = .source →
      Accepted coordinator event tracking
        ({ coordinator with
            configurationChangedRoots :=
              marked }.markRootDirty
          tracking.root tracking.domain)
| dirty :
    coordinator.isDirty tracking.root tracking.domain =
        true →
      Accepted coordinator event tracking coordinator
| enqueued :
    coordinator.isDirty tracking.root tracking.domain =
        false →
      Accepted coordinator event tracking
        (coordinator.enqueue
          (Coordinator.pendingKey tracking.root tracking.path)
          (changeOf event tracking))

/- What is not tracked changes nothing. -/
theorem acceptOne_cases
    (hRoots : Rooted host coordinator.roots)
    (hEvent : Unambiguous host coordinator.roots event) :
    ((∀ tracking, ¬ Tracks host coordinator event tracking) ∧
        coordinator.acceptOne host event = coordinator) ∨
      ∃ tracking,
        Tracks host coordinator event tracking ∧
          Accepted coordinator event tracking
            (coordinator.acceptOne host event) := by
  by_cases hTracked :
      ∃ tracking, Tracks host coordinator event tracking
  · rcases hTracked with ⟨tracking, hTracks⟩
    refine Or.inr ⟨tracking, hTracks, ?_⟩
    rcases hTracks with
      ⟨candidate, hFile, hPath, hDomain, hKind, hOwns, hResource⟩
    have hRoot :
        Coordinator.rootFor host event.2 coordinator.roots
            candidate = some tracking.root :=
      (rootFor_iff hRoots hEvent hFile (by
        rw [hDomain]
        exact Option.some_ne_none _)).mpr hOwns
    unfold Coordinator.acceptOne
    simp only [hFile, hKind, hDomain, hRoot]
    split
    · rename_i hConfiguration
      have hSource : tracking.domain = .source := by
        unfold workspaceFileDomain at hDomain
        rw [if_pos hConfiguration] at hDomain
        exact (Option.some.inj hDomain).symm
      rw [← hSource]
      exact Accepted.configuration _ hSource
    · split
      · rename_i hDirty
        exact Accepted.dirty hDirty
      · rename_i hClean
        rw [if_neg]
        · rw [hPath]
          exact Accepted.enqueued (Bool.not_eq_true _ ▸ hClean)
        · rintro ⟨hArkui, hNone⟩
          rw [hResource hArkui] at hNone
          cases hNone
  · refine Or.inl ⟨fun tracking hTracks => ?_, ?_⟩
    · exact hTracked ⟨tracking, hTracks⟩
    unfold Coordinator.acceptOne
    split
    · rename_i candidate kind hFile hKind
      split
      · rename_i domain root hDomain hRoot
        have hOwns :=
          (rootFor_iff hRoots hEvent hFile (by
            rw [hDomain]
            exact Option.some_ne_none _)).mp hRoot
        have hNone :
            ¬ (domain = .arkuiResource →
              Coordinator.isResource
                  coordinator.isResourceFile event.2 root
                  event.1.uri candidate = true) := by
          intro hResource
          exact
            hTracked
              ⟨⟨root, candidate.resolve, domain, kind⟩,
                candidate, hFile, rfl, hDomain, hKind, hOwns,
                hResource⟩
        rcases Classical.not_imp.mp hNone with
          ⟨hArkui, hRefused⟩
        rw [Bool.not_eq_true] at hRefused
        split
        · rename_i hConfiguration
          unfold workspaceFileDomain at hDomain
          rw [if_pos hConfiguration, hArkui] at hDomain
          cases hDomain
        · split
          · rfl
          · rw [if_pos ⟨hArkui, hRefused⟩]
      · rfl
    · rfl

end Tracking

end FileChanges

end ArktsServer
