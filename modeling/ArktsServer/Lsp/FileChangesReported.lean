import ArktsServer.Lib.Transition
import ArktsServer.Lsp.FileChangeTracking

/-
  File events are never lost: whatever a coordinator accepts
  between two calls of `drain` is reported by the second one,
  by a flag of the root for the domain or by one change of the
  file with its last kind.  What lies in no root is not
  reported, unless a root lies directly in it.

  Key definitions include:
    * `LastOf`, `Keeps`
    * `batchOf`, `Delivered`
    * `Call`, `sinceDrain`

  Correctness is proven by:
    * `acceptOne_keeps`, `run_keeps`
    * `mem_drain_iff`, `drain_delivered`
    * `file_events_reported`
    * `parent_reported`
-/

namespace ArktsServer

namespace FileChanges

open UnixPath

section Reports

variable {Uri Url World : Type}

----------
-- Dirty Roots
----------

theorem has_add
    (set : List (List Char))
    (path other : List Char) :
    has (add set path) other =
      (has set other || path == other) := by
  unfold add
  split
  · rename_i hThere
    by_cases hSame : path = other
    · subst hSame
      rw [hThere, Bool.true_or]
    · rw [beq_false_of_ne hSame, Bool.or_false]
  · unfold has
    rw [List.any_append, List.any_cons, List.any_nil,
      Bool.or_false]

theorem isDirty_markRootDirty
    (coordinator : Coordinator Uri World)
    (root other : Root Uri)
    (domain otherDomain : Domain) :
    (coordinator.markRootDirty root domain).isDirty other
        otherDomain =
      (coordinator.isDirty other otherDomain
        || root.canonicalPath.text
              == other.canonicalPath.text
            && domain == otherDomain) := by
  cases domain with
  | source =>
    cases otherDomain with
    | source =>
      rw [beq_self_eq_true, Bool.and_true]
      exact has_add _ _ _
    | arkuiResource =>
      have hApart :
          (Domain.source == Domain.arkuiResource) = false := rfl
      rw [hApart, Bool.and_false, Bool.or_false]
      rfl
  | arkuiResource =>
    cases otherDomain with
    | source =>
      have hApart :
          (Domain.arkuiResource == Domain.source) = false := rfl
      rw [hApart, Bool.and_false, Bool.or_false]
      rfl
    | arkuiResource =>
      rw [beq_self_eq_true, Bool.and_true]
      exact has_add _ _ _

/- What is left and what is as before. -/
theorem markRootDirty_kept
    (coordinator : Coordinator Uri World)
    (root : Root Uri)
    (domain : Domain) :
    let after := coordinator.markRootDirty root domain
    after.roots = coordinator.roots ∧
      after.maxPendingPaths = coordinator.maxPendingPaths ∧
      after.isResourceFile = coordinator.isResourceFile ∧
      after.pending =
        coordinator.pending.filter fun entry =>
          !(entry.2.root.canonicalPath.text
                == root.canonicalPath.text
              && entry.2.domain == domain) := by
  cases domain with
  | source => exact ⟨rfl, rfl, rfl, rfl⟩
  | arkuiResource => exact ⟨rfl, rfl, rfl, rfl⟩

----------
-- Histories
----------

/- The change that the last event on the file is kept as. -/
def LastOf
    (host : Host Uri Url World)
    (coordinator : Coordinator Uri World)
    (events : List (WorkspaceFileEvent Uri × World))
    (tracking : Tracking Uri)
    (change : Change Uri) : Prop :=
  ∃ before event after,
    events = before ++ event :: after ∧
      Tracks host coordinator event tracking ∧
      change =
        { uri := event.1.uri, kind := tracking.kind } ∧
      ∀ later ∈ after, ∀ other,
        Tracks host coordinator later other →
          ¬ (other.root = tracking.root ∧
              other.path = tracking.path)

/-
  What a coordinator keeps of the events since it was
  drained.
-/
structure Keeps
    (host : Host Uri Url World)
    (coordinator : Coordinator Uri World)
    (events : List (WorkspaceFileEvent Uri × World))
    (state : Coordinator Uri World) : Prop where
  roots : state.roots = coordinator.roots
  limit : state.maxPendingPaths = coordinator.maxPendingPaths
  resource :
    state.isResourceFile = coordinator.isResourceFile
  limited :
    state.pending.entries.length
      ≤ coordinator.maxPendingPaths
  pending :
    ∀ key change,
      state.pending.get key = some change →
        ∃ tracking,
          key =
              Coordinator.pendingKey tracking.root
                tracking.path ∧
            change.root = tracking.root ∧
            change.domain = tracking.domain ∧
            LastOf host coordinator events tracking
              change.toChange ∧
            state.isDirty tracking.root tracking.domain =
              false
  marked :
    ∀ root ∈ coordinator.roots, ∀ domain,
      state.isDirty root domain = true →
        ∃ event ∈ events, ∃ tracking,
          Tracks host coordinator event tracking ∧
            tracking.root = root ∧
            tracking.domain = domain
  covered :
    ∀ event ∈ events, ∀ tracking,
      Tracks host coordinator event tracking →
        state.isDirty tracking.root tracking.domain = true ∨
          ∃ change,
            state.pending.get
                (Coordinator.pendingKey tracking.root
                  tracking.path) =
              some change

variable {events : List (WorkspaceFileEvent Uri × World)}
variable {host : Host Uri Url World}
variable {tracking : Tracking Uri}

variable {coordinator : Coordinator Uri World}
variable {change : Change Uri}

theorem LastOf.tracks
    (hLast :
      LastOf host coordinator events tracking change) :
    ∃ event ∈ events,
      Tracks host coordinator event tracking ∧
        change =
          { uri := event.1.uri, kind := tracking.kind } := by
  rcases hLast with
    ⟨before, event, after, rfl, hTracks, hChange, _⟩
  exact
    ⟨event,
      List.mem_append_right _ List.mem_cons_self, hTracks,
      hChange⟩

variable {event : WorkspaceFileEvent Uri × World}

/- An event on another file leaves the last one. -/
theorem LastOf.extend
    (hLast : LastOf host coordinator events tracking change)
    (hOther :
      ∀ other,
        Tracks host coordinator event other →
          ¬ (other.root = tracking.root ∧
              other.path = tracking.path)) :
    LastOf host coordinator (events ++ [event]) tracking
      change := by
  rcases hLast with
    ⟨before, found, after, rfl, hTracks, hChange, hAfter⟩
  refine
    ⟨before, found, after ++ [event], ?_, hTracks, hChange, ?_⟩
  · rw [List.append_assoc, List.cons_append]
  · intro later hLater
    rcases List.mem_append.mp hLater with hOld | hNew
    · exact hAfter later hOld
    · rw [List.mem_singleton.mp hNew]
      exact hOther

theorem LastOf.latest
    (events : List (WorkspaceFileEvent Uri × World))
    (hTracks : Tracks host coordinator event tracking) :
    LastOf host coordinator (events ++ [event]) tracking
      (changeOf event tracking).toChange :=
  ⟨events, event, [], rfl, hTracks, rfl,
    fun _ hLater => absurd hLater List.not_mem_nil⟩

variable {coordinator state : Coordinator Uri World}

/- An event that no pending change is about. -/
theorem Keeps.ignore
    (hState : Keeps host coordinator events state)
    (hOther :
      ∀ tracking,
        Tracks host coordinator event tracking →
          state.isDirty tracking.root tracking.domain =
            true) :
    Keeps host coordinator (events ++ [event]) state := by
  refine
    ⟨hState.roots, hState.limit, hState.resource,
      hState.limited, ?_, ?_, ?_⟩
  · intro key change hPending
    rcases hState.pending key change hPending with
      ⟨tracking, hKey, hRoot, hDomain, hLast, hClean⟩
    refine
      ⟨tracking, hKey, hRoot, hDomain, hLast.extend ?_, hClean⟩
    rintro other hTracks ⟨hSameRoot, hSamePath⟩
    have hDirty := hOther other hTracks
    rcases hLast.tracks with ⟨found, _, hFound, _⟩
    rw [hSameRoot, hTracks.same_domain hFound hSamePath,
      hClean] at hDirty
    cases hDirty
  · intro root hRoot domain hDirty
    rcases hState.marked root hRoot domain hDirty with
      ⟨found, hFound, hRest⟩
    exact ⟨found, List.mem_append_left _ hFound, hRest⟩
  · intro found hFound tracking hTracks
    rcases List.mem_append.mp hFound with hOld | hNew
    · exact hState.covered found hOld tracking hTracks
    · rw [List.mem_singleton.mp hNew] at hTracks
      exact Or.inl (hOther tracking hTracks)

/- The flag of a root stands for the paths of the domain. -/
theorem Keeps.mark
    (hRoots : Rooted host coordinator.roots)
    (hEvent : Unambiguous host coordinator.roots event)
    (hState : Keeps host coordinator events state)
    (hTracks : Tracks host coordinator event tracking) :
    Keeps host coordinator (events ++ [event])
      (state.markRootDirty tracking.root
        tracking.domain) := by
  rcases markRootDirty_kept state tracking.root
      tracking.domain with
    ⟨hSameRoots, hSameLimit, hSameResource, hPending⟩
  have hDirty := isDirty_markRootDirty state tracking.root
  refine
    ⟨hSameRoots.trans hState.roots,
      hSameLimit.trans hState.limit,
      hSameResource.trans hState.resource, ?_, ?_, ?_, ?_⟩
  · rw [hPending]
    exact (List.length_filter_le _ _).trans hState.limited
  · intro key change hThere
    rw [hPending, OrderedMap.get_filter] at hThere
    rcases hState.pending key change hThere.1 with
      ⟨found, hKey, hRoot, hDomain, hLast, hClean⟩
    have hApart :
        (tracking.root.canonicalPath.text
              == found.root.canonicalPath.text
            && tracking.domain == found.domain) = false := by
      have hKept := hThere.2
      simp only [Bool.not_eq_true', hRoot, hDomain] at hKept
      rw [← hKept, Bool.beq_comm,
        @Bool.beq_comm _ _ _ tracking.domain]
    refine ⟨found, hKey, hRoot, hDomain, hLast.extend ?_, ?_⟩
    · rintro other hOther ⟨hSameRoot, hSamePath⟩
      rcases hLast.tracks with ⟨old, _, hOld, _⟩
      have hSame := hOther.unique hRoots hEvent hTracks
      have hDomains := hOther.same_domain hOld hSamePath
      rw [← hSameRoot, ← hDomains, hSame, beq_self_eq_true,
        beq_self_eq_true] at hApart
      cases hApart
    · rw [hDirty, hClean, hApart]
      rfl
  · intro root hRoot domain hMarked
    rw [hDirty, Bool.or_eq_true] at hMarked
    rcases hMarked with hOld | hNew
    · rcases hState.marked root hRoot domain hOld with
        ⟨found, hFound, hRest⟩
      exact ⟨found, List.mem_append_left _ hFound, hRest⟩
    · rw [Bool.and_eq_true, beq_iff_eq, beq_iff_eq] at hNew
      refine
        ⟨event, List.mem_append_right _ List.mem_cons_self,
          tracking, hTracks, ?_, hNew.2⟩
      exact
        hRoots.canonical_injective _ hTracks.listed _ hRoot
          (AbsolutePath.text_injective hNew.1)
  · intro found hFound other hOther
    rcases List.mem_append.mp hFound with hOld | hNew
    · rcases hState.covered found hOld other hOther with
        hWas | ⟨change, hChange⟩
      · rw [hDirty, hWas]
        exact Or.inl rfl
      · by_cases hKept :
            (tracking.root.canonicalPath.text
                  == other.root.canonicalPath.text
                && tracking.domain == other.domain) = true
        · rw [hDirty, hKept, Bool.or_true]
          exact Or.inl rfl
        · refine Or.inr ⟨change, ?_⟩
          rw [hPending, OrderedMap.get_filter]
          refine ⟨hChange, ?_⟩
          rcases hState.pending _ change hChange with
            ⟨kept, hKey, hRoot, hDomain, hLast, _⟩
          rcases hLast.tracks with ⟨last, _, hThis, _⟩
          rcases pendingKey_injective
              (hRoots.plain _ hOther.listed)
              (hRoots.plain _ hThis.listed) hKey with
            ⟨hCanonical, hPath⟩
          have hDomains := hOther.same_domain hThis hPath
          simp only [hRoot, hDomain]
          rw [← hCanonical, ← hDomains, Bool.not_eq_true',
            ← Bool.not_eq_true]
          intro hSame
          refine hKept ?_
          rw [← hSame, Bool.beq_comm,
            @Bool.beq_comm _ _ _ tracking.domain]
    · rw [List.mem_singleton.mp hNew] at hOther
      rw [hOther.unique hRoots hEvent hTracks, hDirty,
        beq_self_eq_true, beq_self_eq_true]
      exact Or.inl (Bool.or_true _)

variable {change : PendingChange Uri}

/- The same change, told again. -/
theorem Keeps.update
    (hRoots : Rooted host coordinator.roots)
    (hEvent : Unambiguous host coordinator.roots event)
    (hState : Keeps host coordinator events state)
    (hTracks : Tracks host coordinator event tracking)
    (hClean :
      state.isDirty tracking.root tracking.domain = false)
    (hRoot : change.root = tracking.root)
    (hDomain : change.domain = tracking.domain)
    (hChange :
      change.toChange = (changeOf event tracking).toChange)
    (hRoom :
      (state.pending.set
          (Coordinator.pendingKey tracking.root tracking.path)
          change).entries.length
        ≤ coordinator.maxPendingPaths) :
    Keeps host coordinator (events ++ [event])
      { state with
        pending :=
          state.pending.set
            (Coordinator.pendingKey tracking.root tracking.path)
            change } := by
  refine
    ⟨hState.roots, hState.limit, hState.resource, hRoom, ?_,
      ?_, ?_⟩
  · intro key found hThere
    simp only [OrderedMap.get_set] at hThere
    split at hThere
    · rename_i hKey
      injection hThere with hFound
      refine ⟨tracking, hKey, ?_, ?_, ?_, hClean⟩
      · rw [← hFound]
        exact hRoot
      · rw [← hFound]
        exact hDomain
      · rw [← hFound, hChange]
        exact LastOf.latest events hTracks
    · rename_i hKey
      rcases hState.pending key found hThere with
        ⟨kept, hSame, hKeptRoot, hKeptDomain, hLast, hKeptClean⟩
      refine
        ⟨kept, hSame, hKeptRoot, hKeptDomain,
          hLast.extend ?_, hKeptClean⟩
      rintro other hOther ⟨hSameRoot, hSamePath⟩
      have hThis := hOther.unique hRoots hEvent hTracks
      rw [hThis] at hSameRoot hSamePath
      rw [hSame, hSameRoot, hSamePath] at hKey
      exact hKey rfl
  · intro root hListed domain hDirty
    rcases hState.marked root hListed domain hDirty with
      ⟨found, hFound, hRest⟩
    exact ⟨found, List.mem_append_left _ hFound, hRest⟩
  · intro found hFound other hOther
    simp only [OrderedMap.get_set]
    rcases List.mem_append.mp hFound with hOld | hNew
    · rcases hState.covered found hOld other hOther with
        hDirty | ⟨kept, hKept⟩
      · exact Or.inl hDirty
      · refine Or.inr ?_
        split
        · exact ⟨change, rfl⟩
        · exact ⟨kept, hKept⟩
    · rw [List.mem_singleton.mp hNew] at hOther
      rw [hOther.unique hRoots hEvent hTracks, if_pos rfl]
      exact Or.inr ⟨change, rfl⟩

theorem Keeps.enqueue
    (hRoots : Rooted host coordinator.roots)
    (hEvent : Unambiguous host coordinator.roots event)
    (hState : Keeps host coordinator events state)
    (hTracks : Tracks host coordinator event tracking)
    (hClean :
      state.isDirty tracking.root tracking.domain = false) :
    Keeps host coordinator (events ++ [event])
      (state.enqueue
        (Coordinator.pendingKey tracking.root tracking.path)
        (changeOf event tracking)) := by
  unfold Coordinator.enqueue
  cases hExisting :
      state.pending.get
        (Coordinator.pendingKey tracking.root tracking.path) with
  | some existing =>
    rcases hState.pending _ existing hExisting with
      ⟨kept, hKey, hRoot, hDomain, hLast, _⟩
    rcases hLast.tracks with ⟨last, _, hKept, _⟩
    rcases pendingKey_injective
        (hRoots.plain _ hTracks.listed)
        (hRoots.plain _ hKept.listed) hKey with
      ⟨hCanonical, hPath⟩
    have hSameRoot : tracking.root = kept.root :=
      hRoots.canonical_injective _ hTracks.listed _
        hKept.listed hCanonical
    refine
      hState.update hRoots hEvent hTracks hClean
        (hRoot.trans hSameRoot.symm) ?_ rfl ?_
    · exact
        hDomain.trans (hTracks.same_domain hKept hPath).symm
    · have hLength :=
        congrArg List.length
          (OrderedMap.keys_set_of_some hExisting
            { existing with
              uri := (changeOf event tracking).uri
              kind := (changeOf event tracking).kind })
      unfold OrderedMap.keys at hLength
      rw [List.length_map, List.length_map] at hLength
      rw [hLength]
      exact hState.limited
  | none =>
    simp only
    split
    · exact hState.mark hRoots hEvent hTracks
    · rename_i hRoom
      refine
        hState.update hRoots hEvent hTracks hClean rfl rfl rfl ?_
      rw [OrderedMap.entries_set_of_none hExisting,
        List.length_append, List.length_singleton,
        ← hState.limit]
      omega

/- One more event is kept. -/
theorem acceptOne_keeps
    (hRoots : Rooted host coordinator.roots)
    (hEvent : Unambiguous host coordinator.roots event)
    (hState : Keeps host coordinator events state) :
    Keeps host coordinator (events ++ [event])
      (state.acceptOne host event) := by
  have hSame : ∀ tracking,
      Tracks host state event tracking ↔
        Tracks host coordinator event tracking := by
    intro tracking
    unfold Tracks
    rw [hState.roots, hState.resource]
  have hTheirs : Rooted host state.roots := by
    rw [hState.roots]
    exact hRoots
  have hThere : Unambiguous host state.roots event := by
    rw [hState.roots]
    exact hEvent
  rcases acceptOne_cases hTheirs hThere with
    ⟨hNone, hAfter⟩ | ⟨tracking, hTracks, hAfter⟩
  · rw [hAfter]
    refine hState.ignore ?_
    intro tracking hTracks
    exact absurd ((hSame tracking).mpr hTracks) (hNone tracking)
  · have hTracks := (hSame tracking).mp hTracks
    generalize state.acceptOne host event = after at hAfter
    cases hAfter with
    | configuration marked hSource =>
      have hMarked :
          Keeps host coordinator events
            { state with
              configurationChangedRoots := marked } :=
                { hState with }
      exact hMarked.mark hRoots hEvent hTracks
    | dirty hDirty =>
      refine hState.ignore ?_
      intro other hOther
      rw [hOther.unique hRoots hEvent hTracks]
      exact hDirty
    | enqueued hClean =>
      exact hState.enqueue hRoots hEvent hTracks hClean

----------
-- Batches
----------

/- The pending changes that a root reports one by one. -/
def reportedOf
    (state : Coordinator Uri World)
    (root : Root Uri)
    (changes : List (PendingChange Uri)) :
    List (PendingChange Uri) :=
  changes.filter fun change =>
    change.root.canonicalPath.text
        == root.canonicalPath.text
      && !state.isDirty change.root change.domain

/- The batch of a root. -/
def batchOf
    (state : Coordinator Uri World)
    (root : Root Uri)
    (changes : List (PendingChange Uri)) :
    Option (Batch Uri) :=
  let dirty :=
    state.isDirty root .source
      || state.isDirty root .arkuiResource
  let reported := reportedOf state root changes
  if !dirty && reported.isEmpty then
    none
  else
    some
      { rootUri := root.uri
        rootDirty := state.isDirty root .source
        configurationChanged :=
          dirty
            && has state.configurationChangedRoots
              root.canonicalPath.text
        resourceDirty := state.isDirty root .arkuiResource
        resourceChanged :=
          state.isDirty root .arkuiResource
            || reported.any (·.domain == .arkuiResource)
        changes := reported.map (·.toChange) }

variable {root : Root Uri}

variable {state : Coordinator Uri World}

/- The dirty roots come first. -/
theorem get_dirtyBatches
    {roots : List (Root Uri)}
    (hSame :
      ∀ other ∈ roots,
        other.canonicalPath.text = root.canonicalPath.text →
          other = root)
    (batches : OrderedMap (List Char) (Batch Uri)) :
    (root ∈ roots ∧
        (roots.foldl state.dirtyBatch batches).get
            root.canonicalPath.text =
          (batchOf state root []).or
            (batches.get root.canonicalPath.text)) ∨
      (root ∉ roots ∧
        (roots.foldl state.dirtyBatch batches).get
            root.canonicalPath.text =
          batches.get root.canonicalPath.text) := by
  induction roots generalizing batches with
  | nil => exact Or.inr ⟨List.not_mem_nil, rfl⟩
  | cons first roots ih =>
    have hRest :=
      ih (fun other hOther =>
        hSame other (List.mem_cons_of_mem _ hOther))
        (state.dirtyBatch batches first)
    have hFirst := hSame first List.mem_cons_self
    have hOwn :
        (state.dirtyBatch batches root).get
            root.canonicalPath.text =
          (batchOf state root []).or
            (batches.get root.canonicalPath.text) := by
      unfold Coordinator.dirtyBatch batchOf
      simp only [reportedOf, List.filter_nil,
        List.isEmpty_nil, Bool.and_true, Bool.not_or,
        List.any_nil, Bool.or_false, List.map_nil]
      cases hSource : state.isDirty root .source with
      | false =>
        cases hResource : state.isDirty root .arkuiResource with
        | false => rfl
        | true => simp
      | true => simp
    rw [List.foldl_cons]
    by_cases hThis : first = root
    · subst hThis
      refine Or.inl ⟨List.mem_cons_self, ?_⟩
      rcases hRest with ⟨_, hGet⟩ | ⟨_, hGet⟩
      · rw [hGet, hOwn]
        cases batchOf state first [] with
        | none => rfl
        | some batch => rfl
      · rw [hGet, hOwn]
    · have hOther :
          (state.dirtyBatch batches first).get
              root.canonicalPath.text =
            batches.get root.canonicalPath.text := by
        unfold Coordinator.dirtyBatch
        simp only
        split
        · rfl
        · rw [OrderedMap.get_set, if_neg]
          intro hText
          exact hThis (hFirst hText.symm)
      rcases hRest with ⟨hMem, hGet⟩ | ⟨hNot, hGet⟩
      · refine Or.inl ⟨List.mem_cons_of_mem _ hMem, ?_⟩
        rw [hGet, hOther]
      · refine Or.inr ⟨?_, hGet.trans hOther⟩
        intro hMem
        rcases List.mem_cons.mp hMem with hSelf | hLater
        · exact hThis hSelf.symm
        · exact hNot hLater

variable {batches : OrderedMap (List Char) (Batch Uri)}

/- Every pending change goes to the batch of its root. -/
theorem get_pendingBatches
    (hDirty :
      batches.get root.canonicalPath.text =
        batchOf state root [])
    (changes : List (PendingChange Uri))
    (hSame :
      ∀ change ∈ changes,
        change.root.canonicalPath.text =
            root.canonicalPath.text →
          change.root = root) :
    (changes.foldl state.pendingBatch batches).get
        root.canonicalPath.text =
      batchOf state root changes := by
  induction changes using List.reverseRecOn with
  | nil => exact hDirty
  | append_singleton changes change ih =>
    have hBefore :=
      ih fun other hOther =>
        hSame other (List.mem_append_left _ hOther)
    have hRoot :=
      hSame change (List.mem_append_right _ List.mem_cons_self)
    rw [List.foldl_append, List.foldl_cons, List.foldl_nil]
    generalize
      changes.foldl state.pendingBatch batches = before
      at hBefore ⊢
    unfold Coordinator.pendingBatch
    by_cases hClean :
        state.isDirty change.root change.domain = true
    · have hSkipped :
          reportedOf state root (changes ++ [change]) =
            reportedOf state root changes := by
        unfold reportedOf
        rw [List.filter_append]
        simp [hClean]
      rw [if_pos hClean, hBefore]
      unfold batchOf
      rw [hSkipped]
    · rw [Bool.not_eq_true] at hClean
      rw [if_neg (by rw [hClean]; exact Bool.false_ne_true)]
      simp only [OrderedMap.get_set]
      by_cases hThis :
          change.root.canonicalPath.text = root.canonicalPath.text
      · have hOwn := hRoot hThis
        have hReported :
            reportedOf state root (changes ++ [change]) =
              reportedOf state root changes ++ [change] := by
          unfold reportedOf
          rw [List.filter_append]
          simp [hThis, hClean]
        rw [if_pos hThis.symm, hThis, hBefore]
        unfold batchOf
        rw [hReported]
        cases hNone :
            (!(state.isDirty root .source
                  || state.isDirty root .arkuiResource)
              && (reportedOf state root
                changes).isEmpty) with
        | false =>
          have hFull :
              (reportedOf state root changes
                  ++ [change]).isEmpty = false := by
            simp
          simp only [hNone, hFull, Bool.and_false,
            Bool.false_eq_true, ↓reduceIte,
            Option.getD_some, List.map_append,
            List.any_append, List.map_cons, List.map_nil,
            List.any_cons, List.any_nil, Bool.or_false,
            Bool.or_assoc]
        | true =>
          rw [Bool.and_eq_true, Bool.not_eq_true',
            Bool.or_eq_false_iff,
            List.isEmpty_iff] at hNone
          rcases hNone with
            ⟨⟨hSource, hResource⟩, hEmpty⟩
          simp [hSource, hResource, hEmpty, hOwn]
      · have hSkipped :
            reportedOf state root (changes ++ [change]) =
              reportedOf state root changes := by
          unfold reportedOf
          rw [List.filter_append]
          simp [hThis]
        rw [if_neg (Ne.symm hThis), hBefore]
        unfold batchOf
        rw [hSkipped]

variable {key : List Char}

theorem keys_foldl
    {Item : Type}
    {keyOf : Item → List Char}
    {step :
      OrderedMap (List Char) (Batch Uri) → Item →
        OrderedMap (List Char) (Batch Uri)}
    (hStep :
      ∀ batches item key,
        key ∈ (step batches item).keys →
          key = keyOf item ∨ key ∈ batches.keys)
    {items : List Item}
    (hKey : key ∈ (items.foldl step batches).keys) :
    (∃ item ∈ items, key = keyOf item) ∨
      key ∈ batches.keys := by
  induction items generalizing batches with
  | nil => exact Or.inr hKey
  | cons item items ih =>
    rcases ih hKey with ⟨found, hFound, hSame⟩ | hOld
    · exact
        Or.inl ⟨found, List.mem_cons_of_mem _ hFound, hSame⟩
    · rcases hStep batches item key hOld with hNew | hOlder
      · exact Or.inl ⟨item, List.mem_cons_self, hNew⟩
      · exact Or.inr hOlder

variable {batch : Batch Uri}

theorem mem_keys_set
    {key other : List Char}
    (hKey : key ∈ (batches.set other batch).keys) :
    key = other ∨ key ∈ batches.keys := by
  rcases OrderedMap.mem_keys_iff.mp hKey with ⟨found, hFound⟩
  rw [OrderedMap.get_set] at hFound
  split at hFound
  · rename_i hSame
    exact Or.inl hSame
  · exact Or.inr (OrderedMap.mem_keys_iff.mpr ⟨found, hFound⟩)

theorem keys_batches
    (hPending :
      ∀ change ∈ state.pending.values,
        change.root ∈ state.roots)
    (hKey : key ∈ state.batches.keys) :
    ∃ root ∈ state.roots, key = root.canonicalPath.text := by
  unfold Coordinator.batches at hKey
  have hPendingStep :
      ∀ (batches : OrderedMap (List Char) (Batch Uri))
          change key,
        key ∈ (state.pendingBatch batches change).keys →
          key = change.root.canonicalPath.text ∨
            key ∈ batches.keys := by
    intro batches change key hThere
    unfold Coordinator.pendingBatch at hThere
    split at hThere
    · exact Or.inr hThere
    · exact mem_keys_set hThere
  have hDirtyStep :
      ∀ (batches : OrderedMap (List Char) (Batch Uri))
          root key,
        key ∈ (state.dirtyBatch batches root).keys →
          key = root.canonicalPath.text ∨ key ∈ batches.keys := by
    intro batches root key hThere
    unfold Coordinator.dirtyBatch at hThere
    simp only at hThere
    split at hThere
    · exact Or.inr hThere
    · exact mem_keys_set hThere
  rcases keys_foldl hPendingStep hKey with
    ⟨change, hChange, hSame⟩ | hDirty
  · exact ⟨change.root, hPending change hChange, hSame⟩
  · rcases keys_foldl hDirtyStep hDirty with
      ⟨root, hRoot, hSame⟩ | hEmpty
    · exact ⟨root, hRoot, hSame⟩
    · rw [OrderedMap.keys_empty] at hEmpty
      cases hEmpty

theorem mem_batches_iff
    (hRoots : Rooted host state.roots)
    (hPending :
      ∀ change ∈ state.pending.values,
        change.root ∈ state.roots)
    {batch : Batch Uri} :
    (key, batch) ∈ state.batches.entries ↔
      ∃ root ∈ state.roots,
        key = root.canonicalPath.text ∧
          batchOf state root state.pending.values =
            some batch := by
  have hText :
      ∀ first ∈ state.roots, ∀ second ∈ state.roots,
        first.canonicalPath.text =
            second.canonicalPath.text →
          first = second :=
    fun first hFirst second hSecond hSame =>
      hRoots.canonical_injective first hFirst second hSecond
        (AbsolutePath.text_injective hSame)
  have hGet : ∀ root ∈ state.roots,
      state.batches.get root.canonicalPath.text =
        batchOf state root state.pending.values := by
    intro root hRoot
    refine get_pendingBatches ?_ _ ?_
    · have hDirty :=
        @get_dirtyBatches _ _ root state state.roots
          (fun other hOther =>
            hText other hOther root hRoot)
          OrderedMap.empty
      rcases hDirty with ⟨_, hThis⟩ | ⟨hNot, _⟩
      · rw [hThis, OrderedMap.get_empty]
        cases batchOf state root [] with
        | none => rfl
        | some batch => rfl
      · exact absurd hRoot hNot
    · intro change hChange
      exact hText _ (hPending change hChange) root hRoot
  rw [← OrderedMap.get_eq_some_iff]
  constructor
  · intro hThere
    rcases keys_batches hPending
        (OrderedMap.mem_keys_iff.mpr ⟨batch, hThere⟩) with
      ⟨root, hRoot, rfl⟩
    exact ⟨root, hRoot, rfl, (hGet root hRoot).symm.trans hThere⟩
  · rintro ⟨root, hRoot, rfl, hBatch⟩
    exact (hGet root hRoot).trans hBatch

/- What is drained: the batch of each root that has one. -/
theorem mem_drain_iff
    (hRoots : Rooted host state.roots)
    (hPending :
      ∀ change ∈ state.pending.values,
        change.root ∈ state.roots)
    {batch : Batch Uri} :
    batch ∈ state.drain.1 ↔
      ∃ root ∈ state.roots,
        batchOf state root state.pending.values =
          some batch := by
  unfold Coordinator.drain
  simp only [List.mem_map, List.mem_mergeSort]
  constructor
  · rintro ⟨⟨key, found⟩, hEntry, rfl⟩
    rcases (mem_batches_iff hRoots hPending).mp hEntry with
      ⟨root, hRoot, _, hBatch⟩
    exact ⟨root, hRoot, hBatch⟩
  · rintro ⟨root, hRoot, hBatch⟩
    exact
      ⟨(root.canonicalPath.text, batch),
        (mem_batches_iff hRoots hPending).mpr
          ⟨root, hRoot, rfl, hBatch⟩,
        rfl⟩

----------
-- Delivery
----------

def Batch.dirty (batch : Batch Uri) : Domain → Bool
| .source => batch.rootDirty
| .arkuiResource => batch.resourceDirty

/- The changes of a batch that are about a file. -/
def entriesOf
    (host : Host Uri Url World)
    (batch : Batch Uri)
    (path : AbsolutePath) : List (Change Uri) :=
  batch.changes.filter fun change =>
    (filePath host change.uri).any fun candidate =>
      candidate.resolve.text == path.text

/-
  Every event on a tracked file is reported by its root, by
  the flag of its domain or by one change that carries the
  last event on the file; nothing else is reported.
-/
structure Delivered
    (host : Host Uri Url World)
    (coordinator : Coordinator Uri World)
    (events : List (WorkspaceFileEvent Uri × World))
    (batches : List (Batch Uri)) : Prop where
  reported :
    ∀ event ∈ events, ∀ tracking,
      Tracks host coordinator event tracking →
        ∃ batch ∈ batches,
          batch.rootUri = tracking.root.uri ∧
            if batch.dirty tracking.domain then
              entriesOf host batch tracking.path = []
            else
              ∃ last change,
                last.root = tracking.root ∧
                  last.path = tracking.path ∧
                  LastOf host coordinator events last
                    change ∧
                  entriesOf host batch tracking.path =
                    [change]
  grounded :
    ∀ batch ∈ batches, ∃ root ∈ coordinator.roots,
      batch.rootUri = root.uri ∧
        (batch.rootDirty = true ∨ batch.resourceDirty = true ∨
          batch.changes ≠ []) ∧
        (∀ domain, batch.dirty domain = true →
          ∃ event ∈ events, ∃ tracking,
            Tracks host coordinator event tracking ∧
              tracking.root = root ∧
              tracking.domain = domain) ∧
        ∀ change ∈ batch.changes,
          ∃ event ∈ events, ∃ tracking,
            Tracks host coordinator event tracking ∧
              tracking.root = root ∧
              change =
                { uri := event.1.uri
                  kind := tracking.kind }
  distinct : (batches.map (·.rootUri)).Nodup

/- A pending change is about the file of its key. -/
theorem Keeps.about_iff
    (hRoots : Rooted host coordinator.roots)
    (hState : Keeps host coordinator events state)
    (hThere : state.pending.get key = some change)
    (hRoot : root ∈ coordinator.roots)
    (path : AbsolutePath) :
    (change.root.canonicalPath.text
            == root.canonicalPath.text
          && !state.isDirty change.root change.domain
        && (filePath host change.uri).any fun candidate =>
            candidate.resolve.text == path.text) =
      decide (key = Coordinator.pendingKey root path) := by
  rcases hState.pending key change hThere with
    ⟨found, hKey, hFoundRoot, hDomain, hLast, hClean⟩
  rcases hLast.tracks with ⟨event, _, hTracks, hChange⟩
  have hListed := hTracks.listed
  rcases hTracks with
    ⟨candidate, hFile, hPath, _, _, _, _⟩
  have hUri : change.uri = event.1.uri :=
    congrArg Change.uri hChange
  rw [hFoundRoot, hDomain, hClean, hUri, hFile,
    Option.any_some, hPath, Bool.not_false, Bool.and_true]
  rw [Bool.eq_iff_iff, Bool.and_eq_true, beq_iff_eq,
    beq_iff_eq, decide_eq_true_iff, hKey]
  constructor
  · rintro ⟨hCanonical, hText⟩
    rw [AbsolutePath.text_injective hText,
      hRoots.canonical_injective _ hListed _ hRoot
        (AbsolutePath.text_injective hCanonical)]
  · intro hSame
    rcases pendingKey_injective (hRoots.plain _ hListed)
        (hRoots.plain _ hRoot) hSame with
      ⟨hCanonical, hText⟩
    exact ⟨congrArg _ hCanonical, congrArg _ hText⟩

theorem Keeps.entries
    (hRoots : Rooted host coordinator.roots)
    (hState : Keeps host coordinator events state)
    (hRoot : root ∈ coordinator.roots)
    (hBatch :
      batch.changes =
        (reportedOf state root state.pending.values).map
          (·.toChange))
    (path : AbsolutePath) :
    entriesOf host batch path =
      ((state.pending.get
          (Coordinator.pendingKey root path)).map
        (·.toChange)).toList := by
  have hFilter :
      state.pending.entries.filter
          (fun entry =>
            ((filePath host entry.2.uri).any fun candidate =>
                candidate.resolve.text == path.text)
              && (entry.2.root.canonicalPath.text
                    == root.canonicalPath.text
                  && !state.isDirty entry.2.root
                    entry.2.domain)) =
        state.pending.entries.filter
          (fun entry =>
            decide
              (entry.1 = Coordinator.pendingKey root path)) := by
    refine List.filter_congr ?_
    intro entry hEntry
    rw [Bool.and_comm]
    exact
      hState.about_iff hRoots
        (OrderedMap.get_eq_some_iff.mpr hEntry) hRoot path
  unfold entriesOf
  rw [hBatch]
  unfold reportedOf OrderedMap.values
  rw [List.filter_map, List.filter_map, List.filter_map,
    List.filter_filter]
  simp only [Function.comp_def]
  rw [hFilter, OrderedMap.filter_key]
  cases state.pending.get (Coordinator.pendingKey root path) with
  | none => rfl
  | some change => rfl

variable {changes : List (PendingChange Uri)}

/- The batch of a root that is dirty or has changes. -/
theorem batchOf_eq_some
    (hBatch : batchOf state root changes = some batch) :
    batch.rootUri = root.uri ∧
      (∀ domain,
        batch.dirty domain = state.isDirty root domain) ∧
      batch.changes =
        (reportedOf state root changes).map
          (·.toChange) ∧
      (batch.rootDirty = true ∨ batch.resourceDirty = true ∨
        batch.changes ≠ []) := by
  unfold batchOf at hBatch
  simp only at hBatch
  split at hBatch
  · cases hBatch
  · rename_i hSome
    injection hBatch with hBatch
    subst hBatch
    refine ⟨rfl, ?_, rfl, ?_⟩
    · intro domain
      cases domain with
      | source => rfl
      | arkuiResource => rfl
    · simp only [Bool.and_eq_true, Bool.not_eq_true',
        Bool.or_eq_false_iff, List.isEmpty_iff,
        not_and_or, Bool.not_eq_false] at hSome
      rcases hSome with (hSource | hResource) | hChanges
      · exact Or.inl hSource
      · exact Or.inr (Or.inl hResource)
      · refine Or.inr (Or.inr ?_)
        intro hNil
        exact hChanges (List.map_eq_nil_iff.mp hNil)

theorem batchOf_isSome
    (hSome :
      (∃ domain, state.isDirty root domain = true) ∨
        reportedOf state root changes ≠ []) :
    ∃ batch, batchOf state root changes = some batch := by
  unfold batchOf
  simp only
  rw [if_neg]
  · exact ⟨_, rfl⟩
  · intro hNone
    rw [Bool.and_eq_true, Bool.not_eq_true',
      Bool.or_eq_false_iff, List.isEmpty_iff] at hNone
    rcases hSome with ⟨domain, hDirty⟩ | hReported
    · cases domain with
      | source =>
        rw [hNone.1.1] at hDirty
        cases hDirty
      | arkuiResource =>
        rw [hNone.1.2] at hDirty
        cases hDirty
    · exact hReported hNone.2

theorem Keeps.listed
    (hState : Keeps host coordinator events state)
    (hChange : change ∈ state.pending.values) :
    change.root ∈ state.roots := by
  rcases List.mem_map.mp hChange with
    ⟨⟨key, found⟩, hEntry, rfl⟩
  rcases hState.pending key found
      (OrderedMap.get_eq_some_iff.mpr hEntry) with
    ⟨tracking, _, hRoot, _, hLast, _⟩
  rcases hLast.tracks with ⟨event, _, hTracks, _⟩
  rw [hState.roots, hRoot]
  exact hTracks.listed

/- No root has two batches. -/
theorem drain_distinct
    (hRoots : Rooted host state.roots)
    (hPending :
      ∀ change ∈ state.pending.values,
        change.root ∈ state.roots) :
    (state.drain.1.map (·.rootUri)).Nodup := by
  have hEntries :
      ((state.batches.entries.map Prod.snd).map
        (·.rootUri)).Nodup := by
    rw [List.map_map]
    refine
      List.pairwise_map.mpr (state.batches.distinct.imp_of_mem ?_)
    rintro ⟨key, batch⟩ ⟨otherKey, other⟩ hFirst hSecond hKeys
      hUri
    rcases (mem_batches_iff hRoots hPending).mp hFirst with
      ⟨root, hRoot, rfl, hBatch⟩
    rcases (mem_batches_iff hRoots hPending).mp hSecond with
      ⟨otherRoot, hOther, rfl, hOtherBatch⟩
    refine hKeys ?_
    have hUris : root.uri = otherRoot.uri :=
      (batchOf_eq_some hBatch).1.symm.trans
        (hUri.trans (batchOf_eq_some hOtherBatch).1)
    rw [hRoots.uri_injective root hRoot otherRoot hOther hUris]
  exact
    ((((List.mergeSort_perm _ _).map _).map
      _).nodup_iff).mpr hEntries

/- What is drained reports what was kept. -/
theorem drain_delivered
    (hRoots : Rooted host coordinator.roots)
    (hState : Keeps host coordinator events state) :
    Delivered host coordinator events state.drain.1 := by
  have hTheirs : Rooted host state.roots := by
    rw [hState.roots]
    exact hRoots
  have hDrain : ∀ batch,
      batch ∈ state.drain.1 ↔
        ∃ root ∈ coordinator.roots,
          batchOf state root state.pending.values =
            some batch := by
    intro batch
    rw [mem_drain_iff hTheirs fun _ hChange =>
      hState.listed hChange, hState.roots]
  refine ⟨?_, ?_, ?_⟩
  · intro event hEvent tracking hTracks
    have hListed := hTracks.listed
    cases hDirty :
        state.isDirty tracking.root tracking.domain with
    | true =>
      have hMarked :=
        @batchOf_isSome _ _ tracking.root state
          state.pending.values
          (Or.inl ⟨tracking.domain, hDirty⟩)
      rcases hMarked with ⟨batch, hBatch⟩
      rcases batchOf_eq_some hBatch with
        ⟨hUri, hFlags, hChanges, _⟩
      refine
        ⟨batch, (hDrain batch).mpr ⟨_, hListed, hBatch⟩, hUri, ?_⟩
      rw [hFlags, hDirty, if_pos rfl,
        hState.entries hRoots hListed hChanges]
      cases hPending :
          state.pending.get
            (Coordinator.pendingKey tracking.root
              tracking.path) with
      | none => rfl
      | some change =>
        rcases hState.pending _ change hPending with
          ⟨found, hKey, _, _, hLast, hClean⟩
        rcases hLast.tracks with ⟨last, _, hFound, _⟩
        rcases pendingKey_injective
            (hRoots.plain _ hListed)
            (hRoots.plain _ hFound.listed) hKey with
          ⟨hCanonical, hPath⟩
        have hSameRoot :=
          hRoots.canonical_injective _ hListed _
            hFound.listed hCanonical
        have hSameDomain := hTracks.same_domain hFound hPath
        rw [← hSameRoot, ← hSameDomain, hDirty] at hClean
        cases hClean
    | false =>
      rcases hState.covered event hEvent tracking hTracks with
        hNever | ⟨change, hPending⟩
      · rw [hDirty] at hNever
        cases hNever
      rcases hState.pending _ change hPending with
        ⟨found, hKey, hRoot, hDomain, hLast, hClean⟩
      rcases hLast.tracks with ⟨last, _, hFound, _⟩
      rcases pendingKey_injective
          (hRoots.plain _ hListed)
          (hRoots.plain _ hFound.listed) hKey with
        ⟨hCanonical, hPath⟩
      have hSameRoot :=
        hRoots.canonical_injective _ hListed _
          hFound.listed hCanonical
      have hReported :
          change ∈
            reportedOf state tracking.root
              state.pending.values := by
        refine List.mem_filter.mpr ⟨?_, ?_⟩
        · exact
            List.mem_map.mpr
              ⟨_, OrderedMap.get_eq_some_iff.mp hPending, rfl⟩
        · rw [hRoot, hDomain, hClean, hSameRoot,
            beq_self_eq_true]
          rfl
      rcases batchOf_isSome
          (Or.inr (List.ne_nil_of_mem hReported)) with
        ⟨batch, hBatch⟩
      rcases batchOf_eq_some hBatch with
        ⟨hUri, hFlags, hChanges, _⟩
      refine
        ⟨batch, (hDrain batch).mpr ⟨_, hListed, hBatch⟩, hUri, ?_⟩
      rw [hFlags, hDirty, if_neg Bool.false_ne_true,
        hState.entries hRoots hListed hChanges, hPending]
      exact
        ⟨found, change.toChange, hSameRoot.symm, hPath.symm,
          hLast, rfl⟩
  · intro batch hBatch
    rcases (hDrain batch).mp hBatch with
      ⟨root, hListed, hThis⟩
    rcases batchOf_eq_some hThis with
      ⟨hUri, hFlags, hChanges, hSome⟩
    refine ⟨root, hListed, hUri, hSome, ?_, ?_⟩
    · intro domain hDirty
      rw [hFlags] at hDirty
      exact hState.marked root hListed domain hDirty
    · intro change hChange
      rw [hChanges] at hChange
      rcases List.mem_map.mp hChange with
        ⟨kept, hKept, rfl⟩
      rcases List.mem_filter.mp hKept with ⟨hValue, hOwn⟩
      rcases List.mem_map.mp hValue with
        ⟨⟨key, found⟩, hEntry, rfl⟩
      rcases hState.pending key found
          (OrderedMap.get_eq_some_iff.mpr hEntry) with
        ⟨tracking, _, hRoot, _, hLast, _⟩
      rcases hLast.tracks with
        ⟨event, hEvent, hTracks, hSame⟩
      refine ⟨event, hEvent, tracking, hTracks, ?_, hSame⟩
      rw [Bool.and_eq_true, beq_iff_eq, hRoot] at hOwn
      exact
        hRoots.canonical_injective _ hTracks.listed _ hListed
          (AbsolutePath.text_injective hOwn.1)
  · exact
      drain_distinct hTheirs fun _ hChange =>
        hState.listed hChange

----------
-- Runs
----------

inductive Call (Uri World : Type) where
| accept (events : List (WorkspaceFileEvent Uri × World))
| drain

def Coordinator.call
    (host : Host Uri Url World)
    (coordinator : Coordinator Uri World) :
    Call Uri World → Coordinator Uri World
| .accept events => coordinator.accept host events
| .drain => coordinator.drain.2

/- The events since the last call of `drain`. -/
def sinceDrain
    (calls : List (Call Uri World)) :
    List (WorkspaceFileEvent Uri × World) :=
  calls.foldl
    (fun events call =>
      match call with
      | .accept more => events ++ more
      | .drain => [])
    []

theorem accept_keeps
    {events more : List (WorkspaceFileEvent Uri × World)}
    (hRoots : Rooted host coordinator.roots)
    (hMore :
      ∀ event ∈ more,
        Unambiguous host coordinator.roots event)
    (hState : Keeps host coordinator events state) :
    Keeps host coordinator (events ++ more)
      (state.accept host more) := by
  unfold Coordinator.accept
  induction more generalizing events state with
  | nil =>
    rw [List.append_nil]
    exact hState
  | cons event more ih =>
    rw [List.forall_mem_cons] at hMore
    have hNext := acceptOne_keeps hRoots hMore.1 hState
    rw [List.append_cons, List.foldl_cons]
    exact ih hMore.2 hNext

theorem drain_keeps
    (hState : Keeps host coordinator events state) :
    Keeps host coordinator [] state.drain.2 := by
  refine
    ⟨hState.roots, hState.limit, hState.resource,
      Nat.zero_le _, ?_, ?_, ?_⟩
  · intro key change hNever
    cases hNever
  · intro root _ domain hNever
    cases domain with
    | source => cases hNever
    | arkuiResource => cases hNever
  · intro event hNever
    cases hNever

theorem run_keeps
    {calls : List (Call Uri World)}
    (hRoots : Rooted host coordinator.roots)
    (hStart : Keeps host coordinator [] coordinator)
    (hCalls :
      ∀ events, .accept events ∈ calls →
        ∀ event ∈ events,
          Unambiguous host coordinator.roots event) :
    Keeps host coordinator (sinceDrain calls)
      (Transition.run (Coordinator.call host) coordinator
        calls) := by
  induction calls using List.reverseRecOn with
  | nil => exact hStart
  | append_singleton calls call ih =>
    have hBefore :=
      ih fun events hEvents =>
        hCalls events (List.mem_append_left _ hEvents)
    unfold sinceDrain
    rw [Transition.run_append, List.foldl_append]
    cases call with
    | accept more =>
      exact
        accept_keeps hRoots
          (hCalls more
            (List.mem_append_right _ List.mem_cons_self))
          hBefore
    | drain => exact drain_keeps hBefore

/- A new coordinator has its roots in order. -/
theorem create_rooted
    {world : World}
    {rootUris : List Uri}
    {maxPendingPaths : Option Int}
    {isResourceFile : Option (World → Uri → Uri → Bool)}
    (hCreate :
      Coordinator.create host world rootUris maxPendingPaths
          isResourceFile = some coordinator)
    (hDistinct :
      (coordinator.roots.map (·.canonicalPath)).Nodup)
    (hPlain :
      ∀ root ∈ coordinator.roots,
        '\x00' ∉ root.canonicalPath.text) :
    Rooted host coordinator.roots ∧
      Keeps host coordinator [] coordinator := by
  unfold Coordinator.create at hCreate
  rcases Option.map_eq_some_iff.mp hCreate with
    ⟨limit, _, rfl⟩
  have hRoot : ∀ root ∈ Coordinator.rootsOf host world rootUris,
      ∃ rootPath,
        filePath host root.uri = some rootPath ∧
          root.path = rootPath.resolve ∧
          root.canonicalPath =
            canonicalPath host world rootPath.resolve := by
    intro root hListed
    unfold Coordinator.rootsOf at hListed
    rw [List.mem_mergeSort] at hListed
    rcases List.mem_filterMap.mp hListed with
      ⟨entry, _, hEntry⟩
    rcases Option.map_eq_some_iff.mp hEntry with
      ⟨rootPath, hPath, rfl⟩
    exact ⟨rootPath, hPath, rfl, rfl⟩
  refine ⟨⟨?_, ⟨world, ?_⟩, ?_, hDistinct, hPlain⟩, ?_⟩
  · intro root hListed
    rcases hRoot root hListed with ⟨rootPath, hPath, hThis, _⟩
    rw [hPath, hThis]
    rfl
  · intro root hListed
    rcases hRoot root hListed with
      ⟨rootPath, _, hThis, hCanonical⟩
    rw [hThis]
    exact hCanonical
  · have hSorted :=
      @List.pairwise_mergeSort (Root Uri)
        (fun left right =>
          decide
            (LineIndex.utf16Length right.canonicalPath.text
              ≤ LineIndex.utf16Length
                left.canonicalPath.text))
        (by
          intro first second third hFirst hSecond
          rw [decide_eq_true_iff] at hFirst hSecond ⊢
          exact hSecond.trans hFirst)
        (by
          intro first second
          rw [Bool.or_eq_true, decide_eq_true_iff,
            decide_eq_true_iff]
          exact Nat.le_total _ _)
    exact (hSorted _).imp fun hLength =>
      of_decide_eq_true hLength
  · refine ⟨rfl, rfl, rfl, Nat.zero_le _, ?_, ?_, ?_⟩
    · intro key change hNever
      cases hNever
    · intro root _ domain hNever
      cases domain with
      | source => cases hNever
      | arkuiResource => cases hNever
    · intro event hNever
      cases hNever

/-
  Whatever happens since the last call of `drain`, the next
  one reports it, as long as no root lies directly in the path
  of an event and inner roots are looked at first.
-/
theorem file_events_reported
    {host : Host Uri Url World}
    {world : World}
    {rootUris : List Uri}
    {maxPendingPaths : Option Int}
    {isResourceFile : Option (World → Uri → Uri → Bool)}
    {coordinator : Coordinator Uri World}
    {calls : List (Call Uri World)}
    (hCreate :
      Coordinator.create host world rootUris maxPendingPaths
          isResourceFile = some coordinator)
    (hDistinct :
      (coordinator.roots.map (·.canonicalPath)).Nodup)
    (hPlain :
      ∀ root ∈ coordinator.roots,
        '\x00' ∉ root.canonicalPath.text)
    (hCalls :
      ∀ events, .accept events ∈ calls →
        ∀ event ∈ events,
          Unambiguous host coordinator.roots event) :
    let state :=
      Transition.run (Coordinator.call host) coordinator calls
    Delivered host coordinator (sinceDrain calls)
        state.drain.1 ∧
      state.pending.entries.length
        ≤ coordinator.maxPendingPaths := by
  rcases create_rooted hCreate hDistinct hPlain with
    ⟨hRoots, hStart⟩
  have hState := run_keeps hRoots hStart hCalls
  exact ⟨drain_delivered hRoots hState, hState.limited⟩

end Reports

----------
-- A Root Inside a Watched Path
----------

def sampleFile : Nat → Option FileText
| 0 => some ⟨"/w/lib.ts/app".toList, by decide, by decide⟩
| 1 => some ⟨"/w/lib.ts".toList, by decide, by decide⟩
| 2 => some ⟨"/w/lib.ts/app/a.ts".toList, by decide, by decide⟩
| _ => none

/- Files without links. -/
def sampleHost : Host Nat Nat Unit where
  URL := some
  protocol := fun _ => "file:"
  fileURLToPath := sampleFile
  realpath := fun _ path => some path

def samplePath : AbsolutePath :=
  ⟨["w".toList, "lib.ts".toList, "app".toList], by decide⟩

def sampleCoordinator : Coordinator Nat Unit where
  roots :=
    [{ uri := 0
       path := samplePath
       canonicalPath := samplePath
       order := 0 }]
  maxPendingPaths := 1024
  isResourceFile := none
  pending := OrderedMap.empty
  sourceDirtyRoots := []
  configurationChangedRoots := []
  resourceDirtyRoots := []

theorem sample_create :
    Coordinator.create sampleHost () [0] none none =
      some sampleCoordinator := by
  unfold Coordinator.create Coordinator.rootsOf
  rw [List.zipIdx_singleton]
  have hRoots :
      ([((0 : Nat), 0)].filterMap fun entry =>
        (filePath sampleHost entry.1).map fun rootPath =>
          ({ uri := entry.1
             path := rootPath.resolve
             canonicalPath :=
              FileChanges.canonicalPath sampleHost ()
                rootPath.resolve
             order := entry.2 } : Root Nat)) =
        sampleCoordinator.roots := rfl
  rw [hRoots]
  unfold sampleCoordinator
  simp only [List.mergeSort_singleton]
  rfl

def outerPath : AbsolutePath :=
  ⟨["w".toList, "lib.ts".toList], by decide⟩

def nestedCoordinator : Coordinator Nat Unit :=
  { sampleCoordinator with
    roots :=
      sampleCoordinator.roots ++
        [{ uri := 1
           path := outerPath
           canonicalPath := outerPath
           order := 1 }] }

theorem nested_create :
    Coordinator.create sampleHost () [0, 1] none none =
      some nestedCoordinator := by
  unfold Coordinator.create Coordinator.rootsOf
  have hRoots :
      ([0, 1].zipIdx.filterMap fun entry : Nat × Nat =>
        (filePath sampleHost entry.1).map fun rootPath =>
          ({ uri := entry.1
             path := rootPath.resolve
             canonicalPath :=
              FileChanges.canonicalPath sampleHost ()
                rootPath.resolve
             order := entry.2 } : Root Nat)) =
        nestedCoordinator.roots := rfl
  rw [hRoots, List.mergeSort_of_pairwise (by decide)]
  rfl

/- A file of the inner root is created and changed. -/
def nestedCalls : List (Call Nat Unit) :=
  [.accept [(⟨2, 1⟩, ())], .accept [(⟨2, 2⟩, ())]]

theorem file_events_reported_sample :
    let state :=
      Transition.run (Coordinator.call sampleHost)
        nestedCoordinator nestedCalls
    Delivered sampleHost nestedCoordinator
        [(⟨2, 1⟩, ()), (⟨2, 2⟩, ())] state.drain.1 ∧
      state.pending.entries.length ≤ 1024 := by
  refine
    @file_events_reported Nat Nat Unit sampleHost () [0, 1]
      none none nestedCoordinator nestedCalls nested_create
      (List.Nodup.of_map UnixPath.AbsolutePath.segments
        (by decide))
      (by decide) ?_
  rintro events hEvents ⟨event, ⟨⟩⟩ hEvent candidate
    hCandidate
  have hUri : event.uri = 2 := by
    simp only [nestedCalls, List.mem_cons, List.not_mem_nil,
      or_false, Call.accept.injEq] at hEvents
    rcases hEvents with rfl | rfl <;>
      cases List.mem_singleton.mp hEvent <;> rfl
  rw [hUri] at hCandidate
  have hFour :
      ∀ file ∈ filePath sampleHost 2,
        ¬ isProjectConfiguration file.text ∧
          (FileChanges.canonicalPath sampleHost ()
            file.resolve).segments.length = 4 := by
    decide
  rcases hFour candidate hCandidate with ⟨hSource, hLength⟩
  rw [if_neg hSource]
  rintro _ root hRoot ⟨name, hName⟩
  have hLonger :
      ∀ root ∈ nestedCoordinator.roots,
        root.canonicalPath.segments.length < 4 := by
    decide
  have hSum := congrArg List.length hName
  rw [List.length_append, List.length_singleton] at hSum
  have hShort := hLonger root hRoot
  rw [hSum] at hShort
  rw [hLength] at hShort
  exact absurd hShort (by decide)

/-
  The root lies directly in the path of the event: what
  happens outside of it is reported as its change.
-/
theorem parent_reported :
    Coordinator.create sampleHost () [0] none none =
        some sampleCoordinator ∧
      (sampleCoordinator.roots.map
        (·.canonicalPath)).Nodup ∧
      ¬ Delivered sampleHost sampleCoordinator
          [(⟨1, 3⟩, ())]
          (sampleCoordinator.accept sampleHost
            [(⟨1, 3⟩, ())]).drain.1 := by
  refine
    ⟨sample_create, List.nodup_singleton _, ?_⟩
  intro hDelivered
  have hBatch :
      (sampleCoordinator.accept sampleHost
          [(⟨1, 3⟩, ())]).drain.1 =
        [{ rootUri := 0
           rootDirty := false
           changes := [{ uri := 1, kind := .deleted }] }] := by
    unfold Coordinator.drain
    have hEntries :
        (sampleCoordinator.accept sampleHost
            [(⟨1, 3⟩, ())]).batches.entries =
          [(samplePath.text,
            { rootUri := 0
              rootDirty := false
              changes :=
                [{ uri := 1, kind := .deleted }] })] := by
      rfl
    rw [hEntries, List.mergeSort_singleton]
    rfl
  rcases hDelivered.grounded _ (by
      rw [hBatch]
      exact List.mem_cons_self) with
    ⟨root, hRoot, _, _, _, hChanges⟩
  rcases hChanges _ List.mem_cons_self with
    ⟨event, hEvent, tracking, hTracks, _, _⟩
  rcases hTracks with
    ⟨candidate, hFile, hPath, _, _, hOwns, _⟩
  rw [List.mem_singleton.mp hEvent] at hFile hOwns
  injection hFile with hFile
  subst hFile
  have hInside :
      Innermost sampleCoordinator.roots (·.canonicalPath) _ _ :=
    hOwns
  have hBelow := hInside.inside
  rw [List.mem_singleton.mp hInside.listed] at hBelow
  revert hBelow
  decide

end FileChanges

end ArktsServer
