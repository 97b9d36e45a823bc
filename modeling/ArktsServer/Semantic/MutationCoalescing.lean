import ArktsServer.Semantic.WorkerProtocol
import Mathlib.Data.List.Nodup

/-
  The coalescing of queued mutations: which queued record a
  new mutation joins, and what the joined record says.

  Key definitions include:
    * `Semantic.findCoalescingMutation`
    * `Semantic.mergeDocumentMutations`
    * `Semantic.mergeWorkspaceInvalidations`
    * `Semantic.netEffect`

  Correctness is proven by:
    * `Semantic.mergedEffect_eq_netEffect_iff`
    * `Semantic.getFileChange_merge`
-/

namespace ArktsServer

namespace Semantic

----------
-- Queued Mutations
----------

/-
  A queued mutation.  `promise` names its completion, which
  is also the identity of the record.
-/
structure MutationRecord where
  promise : Nat
  input : RootSemanticWorkerMutationInput
  documentKey : Option Uri
  textBytes : Nat
  wire : Option SemanticWorkerMutation := none
deriving DecidableEq

def RootSemanticWorkerMutationInput.documentKey :
    RootSemanticWorkerMutationInput → Option Uri
| .document mutation => some mutation.uri
| .workspaceFilesChanged _ => none

def mutationTextBytes :
    RootSemanticWorkerMutationInput → Nat
| .document mutation =>
    if mutation.kind = .closed then
      0
    else
      byteLength mutation.text
| .workspaceFilesChanged _ => 0

/- The backward scan for a document mutation. -/
def findDocumentMutation
    (mutation : DocumentMutation) :
    List MutationRecord → Option MutationRecord
| [] => none
| record :: earlier =>
    match record.input with
    | .workspaceFilesChanged _ => none
    | .document previous =>
        if record.documentKey = some mutation.uri then
          if previous.kind = .closed
              ∨ mutation.kind = .closed then
            none
          else
            some record
        else
          findDocumentMutation mutation earlier

/- The tail of the queue, if it is a workspace mutation. -/
def findWorkspaceMutation
    (pending : List MutationRecord) :
    Option MutationRecord :=
  match pending.getLast? with
  | none => none
  | some tail =>
      match tail.input with
      | .workspaceFilesChanged _ => some tail
      | .document _ => none

/-
  Full-text updates may coalesce, but close always ends a
  document lifetime.
-/
def findCoalescingMutation
    (pending : List MutationRecord) :
    RootSemanticWorkerMutationInput → Option MutationRecord
| .document mutation =>
    findDocumentMutation mutation pending.reverse
| .workspaceFilesChanged _ => findWorkspaceMutation pending

----------
-- File Changes
----------

def mergeWorkspaceFileChange
    (previous : Option FileChangeKind)
    (next : FileChangeKind) :
    FileChangeKind :=
  match previous with
  | none => next
  | some .created =>
      if next = .changed then .created else next
  | some .deleted =>
      if next = .created then .changed else next
  | some .changed =>
      if next = .created then .changed else next

abbrev FileChanges := List SemanticWorkerWorkspaceFileChange

variable (uri : Uri)

/- `Map.get` on the changes by URI. -/
def getFileChange
    (changes : FileChanges) :
    Option FileChangeKind :=
  (changes.find? (fun change => change.uri = uri)).map
    SemanticWorkerWorkspaceFileChange.kind

/- `Map.set`, which keeps the place of a present key. -/
def setFileChange
    (uri : Uri)
    (kind : FileChangeKind) :
    FileChanges → FileChanges
| [] => [⟨uri, kind⟩]
| change :: changes =>
    if change.uri = uri then
      ⟨uri, kind⟩ :: changes
    else
      change :: setFileChange uri kind changes

def fileChangeMap
    (changes : FileChanges) :
    FileChanges :=
  changes.foldl
    (fun entries change =>
      setFileChange change.uri change.kind entries)
    []

def mergeFileChanges
    (previous next : FileChanges) :
    FileChanges :=
  next.foldl
    (fun entries change =>
      setFileChange change.uri
        (mergeWorkspaceFileChange
          (getFileChange change.uri entries) change.kind)
        entries)
    (fileChangeMap previous)

/- The joined invalidation, before it is checked again. -/
def joinWorkspaceInvalidations
    (previous next : WorkspaceFilesChanged) :
    WorkspaceFilesChanged :=
  { rootUri := previous.rootUri
    rootDirty := previous.rootDirty || next.rootDirty
    configurationChanged :=
      if previous.configurationChanged = some true
          ∨ next.configurationChanged = some true then
        some true
      else
        none
    resourceDirty :=
      previous.resourceDirty || next.resourceDirty
    resourceChanged :=
      previous.resourceChanged || next.resourceChanged
    changes :=
      mergeFileChanges previous.changes next.changes }

def joinDocumentMutations
    (previous next : DocumentMutation) :
    DocumentMutation :=
  if previous.kind ≠ .opened ∨ next.kind ≠ .changed then
    next
  else
    { next with kind := .opened }

section Merge

variable (protocol : WorkerProtocol)

def mergeWorkspaceInvalidations
    (epoch : Nat)
    (previous next : WorkspaceFilesChanged) :
    Except SemanticWorkerProtocolError
      RootSemanticWorkerMutationInput :=
  canonicalMutationInput protocol epoch
    (.workspaceFilesChanged
      (joinWorkspaceInvalidations previous next))

def mergeDocumentMutations
    (epoch : Nat)
    (previous next : DocumentMutation) :
    Except SemanticWorkerProtocolError
      RootSemanticWorkerMutationInput :=
  if previous.kind ≠ .opened ∨ next.kind ≠ .changed then
    .ok (.document next)
  else
    canonicalMutationInput protocol epoch
      (.document { next with kind := .opened })

/- The input of the record that takes a mutation up. -/
def joinMutations :
    RootSemanticWorkerMutationInput →
      RootSemanticWorkerMutationInput →
      RootSemanticWorkerMutationInput
| .workspaceFilesChanged previous, .workspaceFilesChanged next =>
    .workspaceFilesChanged
      (joinWorkspaceInvalidations previous next)
| .document previous, .document next =>
    .document (joinDocumentMutations previous next)
| _, next => next

/- The choice of the merge in `mutate`. -/
def mergeMutations
    (epoch : Nat) :
    RootSemanticWorkerMutationInput →
      RootSemanticWorkerMutationInput →
      Except SemanticWorkerProtocolError
        RootSemanticWorkerMutationInput
| .workspaceFilesChanged previous, .workspaceFilesChanged next =>
    mergeWorkspaceInvalidations protocol epoch previous next
| .document previous, .document next =>
    mergeDocumentMutations protocol epoch previous next
| _, next => .ok next

/- A merge that is accepted gives the joined input. -/
theorem mergeMutations_eq
    {epoch : Nat}
    {previous next merged : RootSemanticWorkerMutationInput}
    (hMerge :
      mergeMutations protocol epoch previous next
        = .ok merged) :
    merged = joinMutations previous next := by
  cases previous with
  | document previous =>
    cases next with
    | document next =>
      simp only [mergeMutations, mergeDocumentMutations] at hMerge
      simp only [joinMutations, joinDocumentMutations]
      split at hMerge
      · rename_i hKinds
        rw [if_pos hKinds]
        cases hMerge
        rfl
      · rename_i hKinds
        rw [if_neg hKinds]
        exact canonicalMutationInput_eq protocol hMerge
    | workspaceFilesChanged next =>
      cases hMerge
      rfl
  | workspaceFilesChanged previous =>
    cases next with
    | document next =>
      cases hMerge
      rfl
    | workspaceFilesChanged next =>
      exact canonicalMutationInput_eq protocol hMerge

end Merge

----------
-- Net Effects
----------

/-
  What happened to one file over a run of events: whether it
  is gone, is new, or has only changed.
-/
def netEffect : List FileChangeKind → Option FileChangeKind
| [] => none
| first :: events =>
    if (first :: events).getLast? = some .deleted then
      some .deleted
    else if first = .created then
      some .created
    else
      some .changed

variable (prior : Option FileChangeKind)

/- What the merge makes of the same events. -/
def mergedEffect
    (events : List FileChangeKind) :
    Option FileChangeKind :=
  events.foldl
    (fun prior event =>
      some (mergeWorkspaceFileChange prior event))
    prior

/-
  A file that is created, deleted and then back again within
  one run of events.
-/
def Resurrected
    (events : List FileChangeKind) :
    Prop :=
  events.head? = some .created
    ∧ .deleted ∈ events
    ∧ events.getLast? ≠ some .deleted

theorem netEffect_cons
    (first : FileChangeKind)
    (events : List FileChangeKind) :
    netEffect (first :: events)
      = if (first :: events).getLast? = some .deleted then
          some .deleted
        else if first = .created then
          some .created
        else
          some .changed := rfl

@[simp]
theorem mergedEffect_nil
    (prior : Option FileChangeKind) :
    mergedEffect prior [] = prior := rfl

@[simp]
theorem mergedEffect_cons
    (event : FileChangeKind)
    (events : List FileChangeKind) :
    mergedEffect prior (event :: events)
      = mergedEffect
        (some (mergeWorkspaceFileChange prior event))
        events := rfl

theorem mergedEffect_append
    (events more : List FileChangeKind) :
    mergedEffect prior (events ++ more)
      = mergedEffect (mergedEffect prior events) more := by
  unfold mergedEffect
  rw [List.foldl_append]

/-
  From `created` the merge keeps `created` as long as no
  deletion comes.
-/
theorem mergedEffect_created
    {events : List FileChangeKind}
    (hKept : .deleted ∉ events) :
    mergedEffect (some .created) events
      = some .created := by
  induction events with
  | nil => rfl
  | cons event events ih =>
    have hTail : .deleted ∉ events := by
      intro hMem
      exact hKept (List.mem_cons_of_mem _ hMem)
    rw [mergedEffect_cons]
    cases event with
    | created => exact ih hTail
    | changed => exact ih hTail
    | deleted =>
      exact absurd List.mem_cons_self hKept

/-
  Past the start the merge only tells a deletion at the end
  from everything else.
-/
theorem mergedEffect_existing
    {prior : FileChangeKind}
    (hPrior : prior ≠ .created)
    (events : List FileChangeKind) :
    mergedEffect (some prior) events
      = some
        (if (events.getLast?.getD prior) = .deleted then
          .deleted
        else
          .changed) := by
  induction events generalizing prior with
  | nil =>
    cases prior with
    | created => exact absurd rfl hPrior
    | changed => rfl
    | deleted => rfl
  | cons event events ih =>
    rw [mergedEffect_cons]
    have hNext :
        ∃ next,
          mergeWorkspaceFileChange (some prior) event = next
            ∧ next ≠ .created
            ∧ (next = .deleted ↔ event = .deleted) := by
      cases prior <;> cases event <;>
        simp_all [mergeWorkspaceFileChange]
    obtain ⟨next, hMerge, hCreated, hDeleted⟩ := hNext
    rw [hMerge, ih hCreated]
    congr 1
    cases events with
    | nil =>
      by_cases hEvent : event = .deleted
      · simp [hEvent, hDeleted.mpr hEvent]
      · simp [hEvent, mt hDeleted.mp hEvent]
    | cons later events =>
      rw [List.getLast?_cons_cons]
      simp [List.getLast?_eq_some_getLast]

/- A deletion in a run that starts with `created`. -/
theorem mergedEffect_created_deleted
    {events : List FileChangeKind}
    (hDeleted : .deleted ∈ events) :
    mergedEffect (some .created) events
      = some
        (if events.getLast? = some .deleted then
          .deleted
        else
          .changed) := by
  induction events with
  | nil => cases hDeleted
  | cons event events ih =>
    rw [mergedEffect_cons]
    by_cases hEvent : event = .deleted
    · subst hEvent
      have hMerge :
          mergeWorkspaceFileChange (some .created) .deleted
            = .deleted := rfl
      rw [hMerge, mergedEffect_existing (by decide)]
      cases events with
      | nil => rfl
      | cons later events =>
        rw [List.getLast?_cons_cons]
        simp [List.getLast?_eq_some_getLast]
    · have hTail : .deleted ∈ events := by
        rcases List.mem_cons.mp hDeleted with hHead | hTail
        · exact absurd hHead.symm hEvent
        · exact hTail
      have hMerge :
          mergeWorkspaceFileChange (some .created) event
            = .created := by
        cases event <;> simp_all [mergeWorkspaceFileChange]
      rw [hMerge, ih hTail]
      cases events with
      | nil => cases hTail
      | cons later events =>
        rw [List.getLast?_cons_cons]

/-
  The merge reports the net effect of a run of events
  exactly when the file is not deleted and back again after
  a creation.
-/
theorem mergedEffect_eq_netEffect_iff
    (events : List FileChangeKind) :
    mergedEffect none events = netEffect events
      ↔ ¬ Resurrected events := by
  cases events with
  | nil => simp [netEffect, Resurrected]
  | cons first events =>
    have hFirst :
        mergeWorkspaceFileChange none first = first := rfl
    rw [mergedEffect_cons, hFirst]
    have hLast :
        (first :: events).getLast?
          = some (events.getLast?.getD first) := by
      cases events with
      | nil => rfl
      | cons later events =>
        rw [List.getLast?_cons_cons]
        simp [List.getLast?_eq_some_getLast]
    unfold Resurrected
    rw [netEffect_cons, hLast, List.head?_cons]
    by_cases hCreated : first = .created
    · subst hCreated
      by_cases hDeleted : .deleted ∈ events
      · have hSome : events ≠ [] :=
          List.ne_nil_of_mem hDeleted
        rw [mergedEffect_created_deleted hDeleted,
          List.getLast?_eq_some_getLast hSome,
          Option.getD_some]
        have hMem :
            .deleted ∈ FileChangeKind.created :: events :=
          List.mem_cons_of_mem _ hDeleted
        by_cases hEnd : events.getLast hSome = .deleted
        · simp only [hEnd, if_true, ne_eq,
            not_true_eq_false, and_false, not_false_eq_true]
        · simp only [Option.some.injEq, hEnd, if_false,
            ne_eq, not_false_eq_true, hMem, and_self,
            not_true_eq_false, if_true, reduceCtorEq]
      · rw [mergedEffect_created hDeleted]
        have hEnd :
            events.getLast?.getD .created ≠ .deleted := by
          intro hEnd
          cases hTail : events.getLast? with
          | none =>
            rw [hTail] at hEnd
            cases hEnd
          | some last =>
            rw [hTail] at hEnd
            have hMem := List.mem_of_getLast? hTail
            exact hDeleted (hEnd ▸ hMem)
        have hMem :
            .deleted ∉ FileChangeKind.created :: events := by
          intro hMem
          rcases List.mem_cons.mp hMem with hHead | hTail
          · cases hHead
          · exact hDeleted hTail
        simp only [Option.some.injEq, hEnd, if_false,
          if_true, hMem, false_and, and_false,
          not_false_eq_true]
    · rw [mergedEffect_existing hCreated]
      by_cases hEnd : events.getLast?.getD first = .deleted
      · simp only [hEnd, if_true, ne_eq,
          not_true_eq_false, and_false, not_false_eq_true]
      · simp only [Option.some.injEq, hEnd, if_false,
          hCreated, false_and, not_false_eq_true]

----------
-- Merged Changes
----------

/- The events of one URI, in order. -/
def eventsOf
    (changes : FileChanges) :
    List FileChangeKind :=
  (changes.filter (fun change => change.uri = uri)).map
    SemanticWorkerWorkspaceFileChange.kind

/- The URIs that a batch of changes lists. -/
def changedUris
    (changes : FileChanges) :
    List Uri :=
  changes.map SemanticWorkerWorkspaceFileChange.uri

@[simp]
theorem getFileChange_nil
    (uri : Uri) :
    getFileChange uri [] = none := rfl

theorem getFileChange_cons
    (change : SemanticWorkerWorkspaceFileChange)
    (changes : FileChanges) :
    getFileChange uri (change :: changes)
      = if change.uri = uri then
          some change.kind
        else
          getFileChange uri changes := by
  unfold getFileChange
  rw [List.find?_cons]
  by_cases hUri : change.uri = uri <;> simp [hUri]

theorem getFileChange_set
    (uri other : Uri)
    (kind : FileChangeKind)
    (changes : FileChanges) :
    getFileChange other (setFileChange uri kind changes)
      = if other = uri then
          some kind
        else
          getFileChange other changes := by
  induction changes with
  | nil =>
    simp only [setFileChange, getFileChange_cons,
      getFileChange_nil]
    by_cases hUri : other = uri
    · simp [hUri]
    · simp [hUri, Ne.symm hUri]
  | cons change changes ih =>
    unfold setFileChange
    by_cases hHead : change.uri = uri
    · rw [if_pos hHead, getFileChange_cons]
      by_cases hUri : other = uri
      · simp [hUri]
      · rw [getFileChange_cons]
        simp [hUri, Ne.symm hUri, hHead]
    · rw [if_neg hHead, getFileChange_cons, ih,
        getFileChange_cons]
      by_cases hUri : other = uri
      · subst hUri
        simp [hHead]
      · simp [hUri]

theorem changedUris_set
    (kind : FileChangeKind)
    (changes : FileChanges) :
    changedUris (setFileChange uri kind changes)
      = if uri ∈ changedUris changes then
          changedUris changes
        else
          changedUris changes ++ [uri] := by
  induction changes with
  | nil => simp [setFileChange, changedUris]
  | cons change changes ih =>
    unfold setFileChange
    by_cases hHead : change.uri = uri
    · simp [changedUris, hHead]
    · rw [if_neg hHead]
      have hRest :
          changedUris
              (change :: setFileChange uri kind changes)
            = change.uri
              :: changedUris
                (setFileChange uri kind changes) := rfl
      rw [hRest, ih]
      have hCons :
          changedUris (change :: changes)
            = change.uri :: changedUris changes := rfl
      rw [hCons]
      by_cases hMem : uri ∈ changedUris changes
      · simp [hMem]
      · simp [hMem, Ne.symm hHead]

variable {changes : FileChanges}

/- A `Map` has each key once. -/
theorem nodup_setFileChange
    (kind : FileChangeKind)
    (hNodup : (changedUris changes).Nodup) :
    (changedUris (setFileChange uri kind changes)).Nodup := by
  rw [changedUris_set]
  split
  · exact hNodup
  · rename_i hNew
    rw [List.nodup_append]
    refine ⟨hNodup, List.nodup_singleton _, ?_⟩
    intro other hMem later hLater hEq
    rw [List.mem_singleton] at hLater
    subst hEq hLater
    exact hNew hMem

/- With each key once, membership is `Map.get`. -/
theorem mem_iff_getFileChange
    (hNodup : (changedUris changes).Nodup)
    (uri : Uri)
    (kind : FileChangeKind) :
    ⟨uri, kind⟩ ∈ changes
      ↔ getFileChange uri changes = some kind := by
  induction changes with
  | nil => simp
  | cons change changes ih =>
    have hSplit := List.nodup_cons.mp hNodup
    rw [getFileChange_cons, List.mem_cons, ih hSplit.2]
    by_cases hUri : change.uri = uri
    · rw [if_pos hUri]
      constructor
      · intro hMem
        rcases hMem with hHead | hTail
        · rw [← hHead]
        · exfalso
          apply hSplit.1
          rw [hUri]
          exact List.mem_map_of_mem ((ih hSplit.2).mpr hTail)
      · intro hKind
        left
        cases change
        simp_all
    · rw [if_neg hUri]
      constructor
      · intro hMem
        rcases hMem with hHead | hTail
        · exact absurd (by rw [← hHead]) hUri
        · exact hTail
      · intro hGet
        exact Or.inr hGet

theorem eventsOf_cons
    (change : SemanticWorkerWorkspaceFileChange)
    (changes : FileChanges) :
    eventsOf uri (change :: changes)
      = if change.uri = uri then
          change.kind :: eventsOf uri changes
        else
          eventsOf uri changes := by
  unfold eventsOf
  rw [List.filter_cons]
  by_cases hUri : change.uri = uri <;> simp [hUri]

theorem eventsOf_append
    (changes more : FileChanges) :
    eventsOf uri (changes ++ more)
      = eventsOf uri changes ++ eventsOf uri more := by
  unfold eventsOf
  rw [List.filter_append, List.map_append]

/- In a batch with each URI once, the event is the entry. -/
theorem mergedEffect_eventsOf
    (hNodup : (changedUris changes).Nodup)
    (uri : Uri) :
    mergedEffect none (eventsOf uri changes)
      = getFileChange uri changes := by
  induction changes with
  | nil => rfl
  | cons change changes ih =>
    have hSplit := List.nodup_cons.mp hNodup
    rw [eventsOf_cons, getFileChange_cons]
    by_cases hUri : change.uri = uri
    · rw [if_pos hUri, if_pos hUri]
      have hRest : eventsOf uri changes = [] := by
        unfold eventsOf
        rw [List.map_eq_nil_iff, List.filter_eq_nil_iff]
        intro other hMem hOther
        apply hSplit.1
        rw [hUri, ← of_decide_eq_true hOther]
        exact List.mem_map_of_mem hMem
      rw [hRest]
      rfl
    · rw [if_neg hUri, if_neg hUri, ih hSplit.2]

theorem getFileChange_fileChangeMap
    (hNodup : (changedUris changes).Nodup)
    (uri : Uri) :
    getFileChange uri (fileChangeMap changes)
        = getFileChange uri changes
      ∧ (changedUris (fileChangeMap changes)).Nodup := by
  have hLoop :
      ∀ (rest entries : FileChanges),
        (changedUris rest).Nodup →
        (changedUris entries).Nodup →
        getFileChange uri
            (rest.foldl
              (fun entries change =>
                setFileChange change.uri change.kind entries)
              entries)
            = (getFileChange uri rest).or
              (getFileChange uri entries)
          ∧ (changedUris
            (rest.foldl
              (fun entries change =>
                setFileChange change.uri change.kind entries)
              entries)).Nodup := by
    intro rest
    induction rest with
    | nil =>
      intro entries _ hEntries
      exact ⟨rfl, hEntries⟩
    | cons change rest ih =>
      intro entries hRest hEntries
      have hSplit := List.nodup_cons.mp hRest
      obtain ⟨hGet, hKeys⟩ :=
        ih (setFileChange change.uri change.kind entries)
          hSplit.2
          (nodup_setFileChange _ _ hEntries)
      refine ⟨?_, hKeys⟩
      rw [List.foldl_cons, hGet, getFileChange_set,
        getFileChange_cons]
      by_cases hUri : change.uri = uri
      · have hNone : getFileChange uri rest = none := by
          cases hRestGet : getFileChange uri rest with
          | none => rfl
          | some kind =>
            exfalso
            have hMem :=
              (mem_iff_getFileChange hSplit.2
                uri kind).mpr hRestGet
            apply hSplit.1
            rw [hUri]
            exact List.mem_map_of_mem hMem
        simp [hUri, hNone]
      · simp [hUri, Ne.symm hUri]
  obtain ⟨hGet, hKeys⟩ := hLoop changes [] hNodup List.nodup_nil
  refine ⟨?_, hKeys⟩
  rw [fileChangeMap, hGet]
  simp

/-
  The merge of two batches: each URI goes on from its entry
  with the events of the later batch.
-/
theorem getFileChange_merge
    {previous : FileChanges}
    (hNodup : (changedUris previous).Nodup)
    (next : FileChanges)
    (uri : Uri) :
    getFileChange uri (mergeFileChanges previous next)
        = mergedEffect (getFileChange uri previous)
          (eventsOf uri next)
      ∧ (changedUris
        (mergeFileChanges previous next)).Nodup := by
  have hLoop :
      ∀ (rest entries : FileChanges),
        (changedUris entries).Nodup →
        getFileChange uri
            (rest.foldl
              (fun entries change =>
                setFileChange change.uri
                  (mergeWorkspaceFileChange
                    (getFileChange change.uri entries)
                    change.kind)
                  entries)
              entries)
            = mergedEffect (getFileChange uri entries)
              (eventsOf uri rest)
          ∧ (changedUris
            (rest.foldl
              (fun entries change =>
                setFileChange change.uri
                  (mergeWorkspaceFileChange
                    (getFileChange change.uri entries)
                    change.kind)
                  entries)
              entries)).Nodup := by
    intro rest
    induction rest with
    | nil =>
      intro entries hEntries
      exact ⟨rfl, hEntries⟩
    | cons change rest ih =>
      intro entries hEntries
      obtain ⟨hGet, hKeys⟩ :=
        ih
          (setFileChange change.uri
            (mergeWorkspaceFileChange
              (getFileChange change.uri entries)
              change.kind)
            entries)
          (nodup_setFileChange _ _ hEntries)
      refine ⟨?_, hKeys⟩
      rw [List.foldl_cons, hGet, getFileChange_set, eventsOf_cons]
      by_cases hUri : change.uri = uri
      · rw [if_pos hUri.symm, if_pos hUri,
          mergedEffect_cons, hUri]
      · rw [if_neg (Ne.symm hUri), if_neg hUri]
  obtain ⟨hGet, hKeys⟩ := getFileChange_fileChangeMap hNodup uri
  obtain ⟨hMerged, hNew⟩ :=
    hLoop next (fileChangeMap previous) hKeys
  refine ⟨?_, hNew⟩
  rw [mergeFileChanges, hMerged, hGet]

end Semantic

end ArktsServer
