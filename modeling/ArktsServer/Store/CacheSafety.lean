import ArktsServer.Store.CacheCollection

/-
  What a collection of caches takes away, it may take away:
  the entry is not leased, its source is what the inspection
  saw, and the clock, the budget or an observation made long
  enough ago gives a reason.  This holds whatever other
  processes do between the stages of a collection.

  Key definitions include:
    * `SameAt`
    * `Leased`, `Confirms`, `Collectable`
    * `Justified`

  Correctness is proven by:
    * `inspectAll_candidates`
    * `decideOne_moved`
    * `collect_justified`
    * `collect_oldest`
-/

namespace ArktsServer

namespace CacheGc

open Chunking

----------
-- States
----------

theorem require_eq_ok
    {condition : Bool}
    {error : String}
    {result : Unit} :
    require condition error = Except.ok result ↔
      condition = true := by
  unfold require
  cases condition with
  | false =>
    constructor
    · intro hOk
      cases hOk
    · intro hTrue
      cases hTrue
  | true => exact ⟨fun _ => rfl, fun _ => rfl⟩

theorem okOr_eq_ok
    {Value : Type}
    {value : Option Value}
    {error : String}
    {result : Value} :
    okOr value error = Except.ok result ↔
      value = some result := by
  cases value with
  | none =>
    constructor
    · intro hOk
      cases hOk
    · intro hSome
      cases hSome
  | some found =>
    constructor
    · intro hOk
      injection hOk with hResult
      rw [hResult]
    · intro hSome
      injection hSome with hResult
      rw [hResult]
      rfl

namespace Directory

def error
    {Content : Type} : Directory Content → Option String
| .faulty error _ => some error
| _ => none

@[simp] theorem error_update
    (change : StateFiles → StateFiles)
    (state : State) :
    (state.update change).error = state.error := by
  cases state <;> rfl

variable {change : StateFiles → StateFiles}
variable {key : String}

theorem observation_update
    (hChange :
      ∀ files,
        (change files).observation key
          = files.observation key)
    (state : State) :
    (state.update change).files.observation key
      = state.files.observation key := by
  cases state with
  | absent => rfl
  | faulty _ content => exact hChange content
  | present content => exact hChange content

theorem active_update
    (hChange :
      ∀ files, (change files).active key = files.active key)
    (state : State) :
    (state.update change).files.active key
      = state.files.active key := by
  cases state with
  | absent => rfl
  | faulty _ content => exact hChange content
  | present content => exact hChange content

end Directory

namespace StateFiles

variable (files : StateFiles)
variable {key other : String}

theorem setObservation_other
    (hOther : other ≠ key)
    (file : Option (MetadataFile Missing)) :
    (files.setObservation key file).observation other
      = files.observation other :=
  if_neg hOther

@[simp] theorem setObservation_own
    (key : String)
    (file : Option (MetadataFile Missing)) :
    (files.setObservation key file).observation key = file :=
  if_pos rfl

theorem setActive_other
    (hOther : other ≠ key)
    (file : Option (MetadataFile Active)) :
    (files.setActive key file).active other
      = files.active other :=
  if_neg hOther

end StateFiles

/- Two states that an entry cannot tell apart. -/
structure SameAt
    (key : String)
    (left right : State) : Prop where
  observation :
    left.files.observation key = right.files.observation key
  active : left.files.active key = right.files.active key
  error : left.error = right.error

namespace SameAt

variable {key : String}
variable {left middle right : State}

theorem refl (key : String) (state : State) :
    SameAt key state state :=
  ⟨rfl, rfl, rfl⟩

theorem symm (hSame : SameAt key left right) :
    SameAt key right left :=
  ⟨hSame.observation.symm, hSame.active.symm, hSame.error.symm⟩

theorem trans
    (hFirst : SameAt key left middle)
    (hSecond : SameAt key middle right) :
    SameAt key left right :=
  ⟨hFirst.observation.trans hSecond.observation,
    hFirst.active.trans hSecond.active,
    hFirst.error.trans hSecond.error⟩

variable {other : String}

theorem setObservation
    (hOther : other ≠ key)
    (file : Option (MetadataFile Missing))
    (state : State) :
    SameAt other
      (state.update (·.setObservation key file)) state where
  observation :=
    Directory.observation_update
      (fun files => files.setObservation_other hOther file)
      state
  active := by
    refine Directory.active_update ?_ state
    exact fun files => rfl
  error := Directory.error_update _ state

theorem setActive
    (hOther : other ≠ key)
    (file : Option (MetadataFile Active))
    (state : State) :
    SameAt other
      (state.update (·.setActive key file)) state where
  observation := by
    refine Directory.observation_update ?_ state
    exact fun files => rfl
  active :=
    Directory.active_update
      (fun files => files.setActive_other hOther file) state
  error := Directory.error_update _ state

end SameAt

section Inspection

variable (host : Host)

theorem approvedLegacyGrace_eq
    (state : State)
    (key : String) :
    approvedLegacyGrace host state key =
      match state.error with
      | some _ => none
      | none =>
        ((MetadataFile.readJson
            (state.files.observation key)).toOption.filter
              fun found =>
                found.schema == 1 && found.legacyOptIn &&
                  host.key found.identity == key).map
          (·.graceMs) := by
  cases state <;> rfl

theorem lastSeen_eq
    (state : State)
    (key identity : String) :
    lastSeen host state key identity =
      match state.error with
      | some error => Except.error error
      | none =>
        lastSeen host (.present state.files) key
          identity := by
  cases state <;> rfl

theorem lastSeen_present
    {files files' : StateFiles}
    {key : String}
    (hActive : files.active key = files'.active key)
    (identity : String) :
    lastSeen host (.present files) key identity
      = lastSeen host (.present files') key identity := by
  unfold lastSeen
  simp only [hActive]

variable {policy : Policy}
variable {around : Surroundings}
variable {key : String}
variable {left right : State}

theorem SameAt.approvedLegacyGrace
    (hSame : SameAt key left right) :
    approvedLegacyGrace host left key
      = approvedLegacyGrace host right key := by
  rw [approvedLegacyGrace_eq, approvedLegacyGrace_eq,
    hSame.error, hSame.observation]

theorem SameAt.lastSeen
    (hSame : SameAt key left right)
    (identity : String) :
    lastSeen host left key identity
      = lastSeen host right key identity := by
  rw [lastSeen_eq host left, lastSeen_eq host right,
    hSame.error, lastSeen_present host hSame.active]

/- An inspection reads the files of its own entry only. -/
theorem SameAt.inspectEntry
    (hSame : SameAt key left right)
    (evidence : Stage → Evidence) :
    inspectEntry host policy left evidence key
      = inspectEntry host policy right evidence key := by
  unfold CacheGc.inspectEntry candidate lastUse
  simp only [hSame.approvedLegacyGrace host, hSame.lastSeen host]

/- What an inspection has seen of an entry. -/
structure Seen
    (evidence : Stage → Evidence)
    (name : String)
    (found : Candidate) : Prop where
  named : validateName name = true
  key : found.entry.key = name
  outcome : found.entry.outcome = "protected"
  bytes : found.entry.bytes = found.snapshot.bytes
  snapshot :
    (evidence .inspecting).snapshot
      = Except.ok found.snapshot
  source :
    (evidence .inspecting).prove found.root found.identity
      = Except.ok found.source

theorem inspectEntry_seen
    {state : State}
    {evidence : Stage → Evidence}
    {name : String}
    {found : Candidate}
    (hInspect :
      inspectEntry host policy state evidence name
        = Except.ok found) :
    Seen evidence name found ∧
      lastUse host state (evidence .inspecting) name
        found.identity = Except.ok found.lastUsed := by
  rcases bind_eq_ok.mp hInspect with ⟨_, hName, hInspect⟩
  rcases bind_eq_ok.mp hInspect with ⟨_, _, hInspect⟩
  rcases bind_eq_ok.mp hInspect with
    ⟨before, hBefore, hInspect⟩
  rcases bind_eq_ok.mp hInspect with ⟨_, _, hInspect⟩
  rcases bind_eq_ok.mp hInspect with ⟨_, _, hInspect⟩
  rcases bind_eq_ok.mp hInspect with
    ⟨identity, _, hInspect⟩
  rcases bind_eq_ok.mp hInspect with ⟨_, _, hInspect⟩
  rcases bind_eq_ok.mp hInspect with
    ⟨lastUsed, hUse, hInspect⟩
  rcases bind_eq_ok.mp hInspect with ⟨root, _, hInspect⟩
  rcases bind_eq_ok.mp hInspect with
    ⟨source, hSource, hInspect⟩
  rcases bind_eq_ok.mp hInspect with ⟨_, _, hInspect⟩
  rcases bind_eq_ok.mp hInspect with ⟨_, _, hFound⟩
  injection hFound with hFound
  subst hFound
  exact
    ⟨⟨require_eq_ok.mp hName, rfl, rfl, rfl, hBefore, hSource⟩,
      hUse⟩

end Inspection

----------
-- The First Loop
----------

section FirstLoop

variable (host : Host)
variable (policy : Policy)
variable (around : Surroundings)

theorem recordActivity_same
    {name identity other : String}
    (hOther : other ≠ name)
    {state next : State}
    (hRecord :
      recordActivity around name identity state
        = Except.ok next) :
    SameAt other next state := by
  unfold recordActivity at hRecord
  split at hRecord
  · cases hRecord
  · cases hRecord
  · cases hRecord
  · injection hRecord with hNext
    subst hNext
    exact SameAt.setActive hOther _ state

variable {name other : String}

theorem protectEntry_same
    (hOther : other ≠ name)
    (reason : String)
    (gathered : Inspection) :
    SameAt other
      (protectEntry host policy around name reason
        gathered).state
      gathered.state := by
  unfold protectEntry
  simp only
  split
  · rename_i state hRecorded
    split at hRecorded
    · split at hRecorded
      · exact recordActivity_same around hOther hRecorded
      · injection hRecorded with hState
        rw [hState]
        exact SameAt.refl other state
    · injection hRecorded with hState
      rw [hState]
      exact SameAt.refl other state
  · exact SameAt.refl other gathered.state

/- The first loop writes about entries that are no candidates. -/
theorem inspectOne_same
    {gathered : Inspection}
    (hOther :
      other ≠ name ∨
        ∃ found,
          inspectEntry host policy gathered.state
            (around.evidence · name) name
              = Except.ok found) :
    SameAt other
      (inspectOne host policy around gathered name).state
      gathered.state := by
  unfold inspectOne
  cases hInspect :
      inspectEntry host policy gathered.state
        (around.evidence · name) name with
  | ok found => exact SameAt.refl other gathered.state
  | error reason =>
    rcases hOther with hOther | ⟨found, hFound⟩
    · exact
        protectEntry_same host policy around hOther reason
          gathered
    · rw [hInspect] at hFound
      cases hFound

/- What the inspection of a name finds in a state. -/
def inspected
    (state : State)
    (name : String) : Option Candidate :=
  (inspectEntry host policy state (around.evidence · name)
    name).toOption

variable {name : String}
variable {state : State}

theorem inspected_eq_some
    {found : Candidate} :
    inspected host policy around state name = some found ↔
      inspectEntry host policy state (around.evidence · name)
        name = Except.ok found := by
  unfold inspected
  cases inspectEntry host policy state
      (around.evidence · name) name with
  | error reason =>
    constructor
    · intro hSome
      cases hSome
    · intro hOk
      cases hOk
  | ok other =>
    constructor
    · intro hSome
      injection hSome with hFound
      rw [hFound]
    · intro hOk
      injection hOk with hFound
      rw [hFound]
      rfl

theorem inspected_named
    {found : Candidate}
    (hFound :
      inspected host policy around state name = some found) :
    validateName name = true ∧ found.entry.key = name := by
  have hSeen :=
    (inspectEntry_seen host
      ((inspected_eq_some host policy around).mp hFound)).1
  exact ⟨hSeen.named, hSeen.key⟩

theorem inspected_invalid
    (hName : validateName name = false)
    (state : State) :
    inspected host policy around state name = none := by
  unfold inspected inspectEntry require
  rw [hName]
  rfl

theorem SameAt.inspected
    {key : String}
    {left right : State}
    (hSame : SameAt key left right) :
    inspected host policy around left key
      = inspected host policy around right key := by
  unfold CacheGc.inspected
  rw [hSame.inspectEntry host]

/- A name whose turn comes is seen as it was at the start. -/
theorem inspected_start
    {start state : State}
    (hSame :
      validateName name = true → SameAt name state start) :
    inspected host policy around state name
      = inspected host policy around start name := by
  cases hName : validateName name with
  | true => exact (hSame hName).inspected host policy around
  | false =>
    rw [inspected_invalid host policy around hName,
      inspected_invalid host policy around hName]

theorem inspectOne_candidates
    (gathered : Inspection)
    (name : String) :
    (inspectOne host policy around gathered name).candidates =
      gathered.candidates ++
        (inspected host policy around gathered.state
          name).toList := by
  unfold inspectOne inspected
  cases inspectEntry host policy gathered.state
      (around.evidence · name) name with
  | ok found => rfl
  | error reason => exact (List.append_nil _).symm

/- A valid name does not come twice. -/
theorem valid_cons
    {names : List String}
    (hDistinct :
      ((name :: names).filter validateName).Nodup) :
    (names.filter validateName).Nodup ∧
      ∀ other ∈ names,
        validateName other = true → other ≠ name := by
  constructor
  · refine hDistinct.sublist ?_
    exact (List.sublist_cons_self name names).filter _
  · intro other hOther hValid hSameName
    subst hSameName
    rw [List.filter_cons_of_pos hValid] at hDistinct
    exact
      (List.nodup_cons.mp hDistinct).1
        (List.mem_filter.mpr ⟨hOther, hValid⟩)

/-
  The candidates are those of the state that the loop starts
  in, and the files of a candidate stay as they were.
-/
theorem inspect_spec
    {start : State}
    {names : List String}
    (hDistinct : (names.filter validateName).Nodup)
    {gathered : Inspection}
    (hSame :
      ∀ name ∈ names,
        validateName name = true →
        SameAt name gathered.state start) :
    (names.foldl (inspectOne host policy around)
        gathered).candidates
      = gathered.candidates ++
          names.filterMap
            (inspected host policy around start) ∧
      ∀ key,
        validateName key = true →
        key ∉ names ∨
          (inspected host policy around start key).isSome
            = true →
        SameAt key
          (names.foldl (inspectOne host policy around)
            gathered).state
          gathered.state := by
  induction names generalizing gathered with
  | nil =>
    refine ⟨(List.append_nil _).symm, ?_⟩
    intro key _ _
    exact SameAt.refl key gathered.state
  | cons name names ih =>
    rcases valid_cons hDistinct with ⟨hRest, hFresh⟩
    have hHere :=
      inspected_start host policy around
        (hSame name List.mem_cons_self)
    rcases
        @ih hRest (inspectOne host policy around gathered name)
          (fun other hOther hValid =>
            (inspectOne_same host policy around
              (Or.inl (hFresh other hOther hValid))).trans
              (hSame other (List.mem_cons_of_mem _ hOther)
                hValid)) with
      ⟨hCandidates, hState⟩
    rw [List.foldl_cons]
    refine ⟨?_, ?_⟩
    · rw [hCandidates, inspectOne_candidates, hHere]
      cases hFound : inspected host policy around start name with
      | none => simp [hFound]
      | some found => simp [hFound]
    · intro key hValid hKey
      have hLater :
          key ∉ names ∨
            (inspected host policy around start key).isSome
              = true :=
        hKey.imp_left fun hNot hIn =>
          hNot (List.mem_cons_of_mem _ hIn)
      refine (hState key hValid hLater).trans ?_
      refine inspectOne_same host policy around ?_
      by_cases hName : key = name
      · right
        subst hName
        rcases hKey with hNot | hSome
        · exact absurd List.mem_cons_self hNot
        · rw [← hHere] at hSome
          rcases Option.isSome_iff_exists.mp hSome with
            ⟨found, hFound⟩
          exact
            ⟨found,
              (inspected_eq_some host policy around).mp hFound⟩
      · exact Or.inl hName

end FirstLoop

----------
-- The Second Loop
----------

section SecondLoop

variable (host : Host)
variable (policy : Policy)
variable (around : Surroundings)

variable {key other : String}
variable {state next : State}

theorem cancelObservation_same
    (hOther : other ≠ key)
    (hCancel :
      cancelObservation policy around key state
        = Except.ok next) :
    SameAt other next state := by
  unfold cancelObservation at hCancel
  split at hCancel
  · split at hCancel
    · injection hCancel with hNext
      rw [hNext]
      exact SameAt.refl other next
    · injection hCancel with hNext
      rw [hNext]
      exact SameAt.refl other next
    · cases hCancel
    · cases hCancel
    · split at hCancel
      · cases hCancel
      · injection hCancel with hNext
        subst hNext
        exact SameAt.setObservation hOther none state
  · injection hCancel with hNext
    rw [hNext]
    exact SameAt.refl other next

theorem writeObservation_same
    (hOther : other ≠ key)
    {value : Missing}
    (hWrite :
      writeObservation around key value state
        = Except.ok next) :
    SameAt other next state := by
  unfold writeObservation at hWrite
  split at hWrite
  · cases hWrite
  · cases hWrite
  · cases hWrite
  · injection hWrite with hNext
    subst hNext
    exact SameAt.setObservation hOther _ state

variable {found : Candidate}

theorem eligibility_same
    (hOther : other ≠ found.entry.key)
    (complete : Bool)
    (remaining : Nat)
    (state : State) :
    SameAt other
      (eligibility host policy around complete remaining state
        found).state
      state := by
  unfold eligibility
  simp only
  cases found.source with
  | unavailable => exact SameAt.refl other state
  | present =>
    simp only
    split
    · exact SameAt.refl other state
    · rename_i cancelled hCancel
      exact cancelObservation_same policy around hOther hCancel
  | missing anchor =>
    simp only
    split
    · split
      · exact SameAt.refl other state
      · exact SameAt.refl other state
    · split
      · split
        · exact SameAt.refl other state
        · rename_i written hWrite
          exact writeObservation_same around hOther hWrite
      · exact SameAt.refl other state

theorem cleanObservation_same
    (hOther : other ≠ key)
    (state : State) :
    SameAt other (cleanObservation around key state).1
      state := by
  unfold cleanObservation
  split
  · split
    · exact SameAt.setObservation hOther none state
    · exact SameAt.refl other state
  · exact SameAt.refl other state

theorem cleanActive_same
    (hOther : other ≠ key)
    (state : State) :
    SameAt other (cleanActive around key state).1 state := by
  unfold cleanActive
  split
  · split
    · exact SameAt.setActive hOther none state
    · exact SameAt.refl other state
  · exact SameAt.refl other state

theorem retireEligible_same
    {eligible : Decision}
    (hOther : other ≠ eligible.candidate.entry.key) :
    SameAt other (retireEligible around eligible).state
      eligible.state := by
  unfold retireEligible
  simp only
  split
  · exact SameAt.refl other eligible.state
  · split
    · exact SameAt.refl other eligible.state
    · exact
        (cleanActive_same around hOther _).trans
          (cleanObservation_same around hOther _)

/- A decision writes about its own entry only. -/
theorem decideOne_same
    (hOther : other ≠ found.entry.key)
    (complete : Bool)
    (remaining : Nat)
    (state : State) :
    SameAt other
      (decideOne host policy around complete remaining state
        found).state
      state := by
  have hVerdict :=
    eligibility_same host policy around hOther complete
      remaining state
  unfold decideOne
  simp only
  split
  · exact SameAt.refl other state
  · split
    · exact hVerdict
    · split
      · refine SameAt.trans ?_ hVerdict
        exact retireEligible_same around hOther
      · exact hVerdict

theorem retireEligible_candidate
    (eligible : Decision) :
    (retireEligible around eligible).candidate
        = eligible.candidate ∧
      (retireEligible around eligible).remaining
        = eligible.remaining := by
  unfold retireEligible
  simp only
  split
  · exact ⟨rfl, rfl⟩
  · split
    · exact ⟨rfl, rfl⟩
    · exact ⟨rfl, rfl⟩

theorem decideOne_candidate
    (complete : Bool)
    (remaining : Nat)
    (state : State)
    (found : Candidate) :
    (decideOne host policy around complete remaining state
        found).candidate = found ∧
      (decideOne host policy around complete remaining state
        found).remaining = remaining := by
  unfold decideOne
  simp only
  split
  · exact ⟨rfl, rfl⟩
  · split
    · exact ⟨rfl, rfl⟩
    · split
      · exact retireEligible_candidate around _
      · exact ⟨rfl, rfl⟩

variable {complete : Bool}
variable {remaining : Nat}

/- An entry is moved after all checks have passed. -/
theorem decideOne_moved
    {state : State}
    (hMoved :
      (decideOne host policy around complete remaining state
        found).moved = true) :
    proven (around.evidence · found.entry.key) found
        = Except.ok () ∧
      (∃ reason,
        (eligibility host policy around complete remaining
          state found).result = Except.ok reason) ∧
      unchanged (around.evidence · found.entry.key) found
        = Except.ok () := by
  unfold decideOne at hMoved
  simp only at hMoved
  split at hMoved
  · cases hMoved
  · rename_i hProven
    split at hMoved
    · cases hMoved
    · rename_i reason hReason
      split at hMoved
      · unfold retireEligible at hMoved
        simp only at hMoved
        split at hMoved
        · cases hMoved
        · rename_i hUnchanged
          exact ⟨hProven, ⟨reason, hReason⟩, hUnchanged⟩
      · cases hMoved

theorem decideAll_candidates
    (complete : Bool)
    (candidates : List Candidate)
    (remaining : Nat)
    (state : State) :
    (decideAll host policy around complete candidates
        remaining state).map (·.candidate) = candidates := by
  induction candidates generalizing remaining state with
  | nil => rfl
  | cons found rest ih =>
    unfold decideAll
    rw [List.map_cons, ih,
      (decideOne_candidate host policy around complete
        remaining state found).1]

/- The decision that comes after some others. -/
theorem decideAll_split
    {candidates : List Candidate}
    {state : State}
    (hDistinct :
      (candidates.map (·.entry.key)).Nodup)
    {before after : List Decision}
    {decision : Decision}
    (hSplit :
      decideAll host policy around complete candidates
        remaining state = before ++ decision :: after) :
    ∃ reached,
      SameAt decision.candidate.entry.key reached state ∧
        decision =
          decideOne host policy around complete
            (remaining - (before.map (·.freed)).sum) reached
            decision.candidate := by
  induction before generalizing candidates remaining state with
  | nil =>
    cases candidates with
    | nil => cases hSplit
    | cons found rest =>
      injection hSplit with hHead _
      subst hHead
      refine ⟨state, SameAt.refl _ state, ?_⟩
      rw [(decideOne_candidate host policy around complete
        remaining state found).1]
      rfl
  | cons first before ih =>
    cases candidates with
    | nil => cases hSplit
    | cons found rest =>
      injection hSplit with hHead hTail
      subst hHead
      rw [List.map_cons] at hDistinct
      rcases List.nodup_cons.mp hDistinct with
        ⟨hFresh, hRest⟩
      rcases ih hRest hTail with
        ⟨reached, hSame, hDecision⟩
      have hOther :
          decision.candidate.entry.key ≠ found.entry.key := by
        intro hKey
        apply hFresh
        rw [← hKey]
        refine List.mem_map_of_mem ?_
        rw [← decideAll_candidates host policy around complete
          rest, hTail]
        refine List.mem_map_of_mem ?_
        exact List.mem_append_right _ List.mem_cons_self
      refine ⟨reached, hSame.trans ?_, ?_⟩
      · exact
          decideOne_same host policy around hOther complete
            remaining state
      · rw [List.map_cons, List.sum_cons, ← Nat.sub_sub]
        exact hDecision

end SecondLoop

----------
-- Reasons
----------

/- Somebody holds the lease of an entry. -/
def Leased (evidence : Evidence) : Prop :=
  match evidence.leases with
  | .absent => False
  | .faulty _ lease => lease = .held
  | .present lease => lease = .held

theorem exclusive_not_leased
    {evidence : Evidence}
    (hExclusive : exclusive evidence = Except.ok ()) :
    ¬ Leased evidence := by
  rcases bind_eq_ok.mp hExclusive with ⟨_, _, hLease⟩
  unfold Leased
  cases hLeases : evidence.leases with
  | absent => exact id
  | faulty error lease =>
    rw [hLeases] at hLease
    cases hLease
  | present lease =>
    rw [hLeases] at hLease
    intro hHeld
    change lease = .held at hHeld
    rw [hHeld] at hLease
    cases hLease

/- An observation of the same source and files, long ago. -/
structure Confirms
    (policy : Policy)
    (clock : Readings)
    (anchor : Anchor)
    (found : Candidate)
    (old : Missing) : Prop where
  schema : old.schema = 1
  identity : old.identity = found.identity
  anchor : old.anchor = anchor
  files : old.files = found.snapshot
  earlier : old.sinceMs ≤ clock.since
  unused :
    ∀ last, found.lastUsed = some last → last ≤ old.sinceMs
  waited :
    max policy.graceMs old.graceMs
      ≤ clock.grace - old.sinceMs

/- Used long enough ago, and in the way of the budget. -/
structure Idle
    (policy : Policy)
    (clock : Readings)
    (complete : Prop)
    (remaining : Nat)
    (found : Candidate) : Prop where
  used :
    ∃ last,
      found.lastUsed = some last ∧
        policy.idleMs ≤ clock.idle - last ∧
        last ≤ clock.future
  budget :
    ∀ most,
      policy.maxBytes = some most →
        complete ∧ most < remaining

/- The reasons that let an entry go, by its source. -/
def Collectable
    (policy : Policy)
    (clock : Readings)
    (complete : Prop)
    (remaining : Nat)
    (recorded : Option (MetadataFile Missing))
    (found : Candidate) : Prop :=
  match found.source with
  | .unavailable => False
  | .present => Idle policy clock complete remaining found
  | .missing anchor =>
      ∃ old,
        MetadataFile.readJson recorded = Except.ok old ∧
          Confirms policy clock anchor found old

variable {found : Candidate}
variable {clock : Readings}

theorem idleVerdict_eq_ok
    {policy : Policy}
    {complete : Bool}
    {remaining : Nat}
    {reason : String}
    (hVerdict :
      idleVerdict policy clock complete remaining
        found.lastUsed = Except.ok reason) :
    Idle policy clock (complete = true) remaining found := by
  rcases bind_eq_ok.mp hVerdict with
    ⟨last, hLast, hVerdict⟩
  rcases bind_eq_ok.mp hVerdict with ⟨_, hIdle, hVerdict⟩
  rcases bind_eq_ok.mp hVerdict with
    ⟨_, hComplete, hVerdict⟩
  rcases bind_eq_ok.mp hVerdict with ⟨_, hBudget, _⟩
  have hUsed := of_decide_eq_true (require_eq_ok.mp hIdle)
  refine ⟨⟨last, okOr_eq_ok.mp hLast, hUsed.1, hUsed.2⟩, ?_⟩
  intro most hMost
  have hComplete := require_eq_ok.mp hComplete
  have hBudget := require_eq_ok.mp hBudget
  rw [hMost] at hComplete hBudget
  exact ⟨hComplete, of_decide_eq_true hBudget⟩

variable {state : State}

theorem validObservation_eq_some
    {anchor : Anchor}
    {old : Missing}
    (hValid :
      validObservation clock state anchor found = some old) :
    MetadataFile.readJson
        (state.files.observation found.entry.key)
          = Except.ok old ∧
      old.schema = 1 ∧
      old.identity = found.identity ∧
      old.anchor = anchor ∧
      old.files = found.snapshot ∧
      old.sinceMs ≤ clock.since ∧
      ∀ last,
        found.lastUsed = some last → last ≤ old.sinceMs := by
  unfold validObservation at hValid
  rcases Option.filter_eq_some_iff.mp hValid with
    ⟨hRead, hChecks⟩
  simp only [Bool.and_eq_true, beq_iff_eq,
    decide_eq_true_eq] at hChecks
  rcases hChecks with
    ⟨⟨⟨⟨⟨hSchema, hIdentity⟩, hAnchor⟩, hFiles⟩, hSince⟩, hUnused⟩
  refine ⟨?_, hSchema, hIdentity, hAnchor, hFiles, hSince, ?_⟩
  · cases hFile :
        MetadataFile.readJson
          (state.files.observation found.entry.key) with
    | error error =>
      rw [hFile] at hRead
      cases hRead
    | ok value =>
      rw [hFile] at hRead
      injection hRead with hValue
      rw [hValue]
  · intro last hLast
    rw [hLast] at hUnused
    exact of_decide_eq_true hUnused

theorem eligibility_collectable
    {host : Host}
    {policy : Policy}
    {around : Surroundings}
    {complete : Bool}
    {remaining : Nat}
    {reason : String}
    (hEligible :
      (eligibility host policy around complete remaining state
        found).result = Except.ok reason) :
    Collectable policy (around.clock found.entry.key)
      (complete = true) remaining
      (state.files.observation found.entry.key) found := by
  unfold eligibility at hEligible
  unfold Collectable
  simp only at hEligible
  cases hSource : found.source with
  | unavailable =>
    rw [hSource] at hEligible
    cases hEligible
  | present =>
    rw [hSource] at hEligible
    simp only at hEligible
    split at hEligible
    · cases hEligible
    · exact idleVerdict_eq_ok hEligible
  | missing anchor =>
    rw [hSource] at hEligible
    simp only at hEligible
    split at hEligible
    · rename_i old hValid
      rcases validObservation_eq_some hValid with
        ⟨hRead, hSchema, hIdentity, hAnchor, hFiles, hSince,
          hUnused⟩
      split at hEligible
      · cases hEligible
      · rename_i hWaited
        exact
          ⟨old, hRead, hSchema, hIdentity, hAnchor, hFiles,
            hSince, hUnused, Nat.not_lt.mp hWaited⟩
    · split at hEligible
      · split at hEligible
        · cases hEligible
        · cases hEligible
      · cases hEligible

theorem unchanged_eq_ok
    {evidence : Stage → Evidence}
    (hUnchanged : unchanged evidence found = Except.ok ()) :
    (evidence .retiring).snapshot
        = Except.ok found.snapshot ∧
      (evidence .retiring).prove found.root found.identity
        = Except.ok found.source := by
  rcases bind_eq_ok.mp hUnchanged with
    ⟨snapshot, hSnapshot, hUnchanged⟩
  rcases bind_eq_ok.mp hUnchanged with
    ⟨_, hSame, hUnchanged⟩
  rcases bind_eq_ok.mp hUnchanged with
    ⟨source, hSource, hUnchanged⟩
  rw [beq_iff_eq.mp (require_eq_ok.mp hSame)] at hSnapshot
  rw [beq_iff_eq.mp (require_eq_ok.mp hUnchanged)] at hSource
  exact ⟨hSnapshot, hSource⟩

/- What holds of an entry that is moved away. -/
structure Justified
    (host : Host)
    (policy : Policy)
    (around : Surroundings)
    (state : State)
    (complete : Prop)
    (remaining : Nat)
    (found : Candidate) : Prop where
  inspected :
    inspectEntry host policy state
      (around.evidence · found.entry.key) found.entry.key
        = Except.ok found
  free : ¬ Leased (around.evidence .proving found.entry.key)
  snapshot :
    (around.evidence .retiring found.entry.key).snapshot
      = Except.ok found.snapshot
  source :
    (around.evidence .retiring found.entry.key).prove
      found.root found.identity = Except.ok found.source
  collectable :
    Collectable policy (around.clock found.entry.key) complete
      remaining (state.files.observation found.entry.key)
      found

----------
-- Whole Collections
----------

section Collections

variable {host : Host}
variable {policy : Policy}
variable {around : Surroundings}

/- A collection with decisions has swept an inventory. -/
theorem collect_cases
    (state : State) :
    (collect host policy around state).decisions = [] ∨
      ∃ listing trashResults opened,
        around.workspaces = .present listing ∧
          (∀ key, SameAt key opened state) ∧
          collect host policy around state =
            sweep host policy around trashResults
              listing.names opened := by
  have hEntries :
      ∀ trashResults opened,
        (∀ key, SameAt key opened state) →
        (collectEntries host policy around trashResults
            opened).decisions = [] ∨
          ∃ listing results reached,
            around.workspaces = .present listing ∧
              (∀ key, SameAt key reached state) ∧
              collectEntries host policy around trashResults
                  opened =
                sweep host policy around results listing.names
                  reached := by
    intro trashResults opened hSame
    unfold collectEntries
    cases hNames : around.workspaces with
    | absent => exact Or.inl rfl
    | faulty error names => exact Or.inl rfl
    | present listing =>
      exact
        Or.inr ⟨listing, trashResults, opened, rfl, hSame, rfl⟩
  unfold collect
  split
  · exact Or.inl rfl
  · split
    · exact Or.inl rfl
    · exact Or.inl rfl
    · split
      · split
        · exact Or.inl rfl
        · exact Or.inl rfl
        · exact Or.inl rfl
        · exact hEntries _ _ fun key => ⟨rfl, rfl, rfl⟩
        · exact hEntries _ _ fun key => SameAt.refl key _
      · exact hEntries _ _ fun key => SameAt.refl key _

variable (host policy around)

theorem pending_distinct
    (listing : Listing) :
    (((pendingNames policy listing.names).take
        policy.limit).filter validateName).Nodup := by
  have hSorted :
      ((listing.names.insertionSort (· ≤ ·)).filter
          validateName).Nodup :=
    ((List.perm_insertionSort _ _).filter _).nodup_iff.mpr
      listing.distinct
  refine hSorted.sublist ?_
  refine List.Sublist.filter _ ?_
  exact (List.take_sublist _ _).trans List.filter_sublist

variable (listing : Listing)

/- The candidates of an inventory, in the order of names. -/
theorem inspectAll_candidates
    (state : State) :
    (inspectAll host policy around state
        listing.names).candidates =
      ((pendingNames policy listing.names).take
        policy.limit).filterMap
          (inspected host policy around state) := by
  have hSpec :=
    (@inspect_spec host policy around state _
      (pending_distinct policy listing)
      { state := state } fun name _ _ => SameAt.refl name _).1
  exact hSpec

theorem candidates_distinct
    (state : State) :
    ((sortCandidates
        (inspectAll host policy around state
          listing.names).candidates).map
            (·.entry.key)).Nodup := by
  have hPerm :=
    List.perm_insertionSort
      (fun left right =>
        candidateOrder left ≤ candidateOrder right)
      (inspectAll host policy around state
        listing.names).candidates
  refine (hPerm.map _).nodup_iff.mpr ?_
  rw [inspectAll_candidates, List.map_filterMap]
  have hKeys :
      ∀ names : List String,
        names.filterMap
            (fun name =>
              (inspected host policy around state name).map
                (·.entry.key))
          = names.filter fun name =>
              (inspected host policy around state
                name).isSome := by
    intro names
    induction names with
    | nil => rfl
    | cons name names ih =>
      cases hFound : inspected host policy around state name with
      | none => simp [hFound, ih]
      | some found =>
        have hKey := (inspected_named host policy around hFound).2
        simp [hFound, ih, hKey]
  rw [hKeys]
  refine (pending_distinct policy listing).sublist ?_
  refine List.monotone_filter_right _ ?_
  intro name hSome
  rcases Option.isSome_iff_exists.mp hSome with
    ⟨found, hFound⟩
  exact (inspected_named host policy around hFound).1

/- Inspecting keeps the files of every candidate. -/
theorem inspectAll_same
    (state : State)
    {found : Candidate}
    (hFound :
      found ∈
        (inspectAll host policy around state
          listing.names).candidates) :
    inspected host policy around state found.entry.key
        = some found ∧
      SameAt found.entry.key
        (inspectAll host policy around state
          listing.names).state
        state := by
  rw [inspectAll_candidates] at hFound
  rcases List.mem_filterMap.mp hFound with
    ⟨name, _, hInspected⟩
  rcases inspected_named host policy around hInspected with
    ⟨hValid, hKey⟩
  rw [hKey]
  refine ⟨hInspected, ?_⟩
  refine
    (@inspect_spec host policy around state _
      (pending_distinct policy listing)
      { state := state }
      fun name _ _ => SameAt.refl name _).2 name hValid ?_
  exact Or.inr (Option.isSome_iff_exists.mpr ⟨found, hInspected⟩)

/- The inventory was read from its start, and all of it. -/
def Report.Complete
    (report : Report)
    (policy : Policy) : Prop :=
  report.nextCursor = none ∧ policy.after = "" ∧
    report.sizeUnknownEntries = 0

theorem inventoryComplete_iff
    {names : List String}
    {gathered : Inspection} :
    inventoryComplete policy names gathered = true ↔
      nextCursor policy names = none ∧ policy.after = "" ∧
        gathered.sizeUnknownEntries = 0 := by
  unfold inventoryComplete
  simp only [Bool.and_eq_true, beq_iff_eq,
    Option.isNone_iff_eq_none]
  exact and_assoc

variable {before after : List Decision}
variable {decision : Decision}

/- The state and the budget that a decision is taken with. -/
theorem sweep_split
    (trashResults : List (String × String))
    (state : State)
    (hSplit :
      (sweep host policy around trashResults listing.names
          state).decisions = before ++ decision :: after) :
    let gathered :=
      inspectAll host policy around state listing.names
    let found := decision.candidate
    found ∈ gathered.candidates ∧
      ∃ reached,
        SameAt found.entry.key reached state ∧
          decision =
            decideOne host policy around
              (inventoryComplete policy listing.names gathered)
              (gathered.observedBytes -
                (before.map (·.freed)).sum)
              reached found := by
  have hMem :
      decision.candidate ∈
        (inspectAll host policy around state
          listing.names).candidates := by
    have hSorted :=
      decideAll_candidates host policy around
        (inventoryComplete policy listing.names
          (inspectAll host policy around state listing.names))
        (sortCandidates
          (inspectAll host policy around state
            listing.names).candidates)
        (inspectAll host policy around state
          listing.names).observedBytes
        (inspectAll host policy around state listing.names).state
    refine
      (List.perm_insertionSort
        (fun left right =>
          candidateOrder left ≤ candidateOrder right)
        _).mem_iff.mp ?_
    change decision.candidate ∈ sortCandidates _
    rw [← hSorted]
    refine List.mem_map_of_mem ?_
    change decision ∈ (sweep _ _ _ trashResults _ _).decisions
    rw [hSplit]
    exact List.mem_append_right _ List.mem_cons_self
  rcases
      decideAll_split host policy around
        (candidates_distinct host policy around listing state)
        hSplit with
    ⟨reached, hSame, hDecision⟩
  exact
    ⟨hMem, reached,
      hSame.trans
        (inspectAll_same host policy around listing state hMem).2,
      hDecision⟩

/-
  Whatever happens around a collection, each entry that it
  moves away was free, had the source that was inspected, and
  had a reason to go.
-/
theorem collect_justified
    (hSplit :
      (collect host policy around state).decisions
        = before ++ decision :: after)
    (hMoved : decision.moved = true) :
    ∃ report,
      (collect host policy around state).report
          = Except.ok report ∧
        Justified host policy around state
          (report.Complete policy)
          (report.observedBytes - (before.map (·.freed)).sum)
          decision.candidate := by
  rcases @collect_cases host policy around state with
    hNone | ⟨listing, results, opened, _, hSame, hSweep⟩
  · rw [hNone] at hSplit
    exact absurd hSplit.symm (by simp)
  · rw [hSweep] at hSplit ⊢
    rcases
        sweep_split host policy around listing results opened
          hSplit with
      ⟨hMem, reached, hReached, hDecision⟩
    rw [hDecision] at hMoved
    rcases decideOne_moved host policy around hMoved with
      ⟨hProven, ⟨reason, hReason⟩, hUnchanged⟩
    rcases unchanged_eq_ok hUnchanged with
      ⟨hSnapshot, hSource⟩
    rcases bind_eq_ok.mp hProven with ⟨_, hExclusive, _⟩
    have hInspected :=
      (inspectAll_same host policy around listing opened hMem).1
    refine ⟨_, rfl, ?_, ?_, hSnapshot, hSource, ?_⟩
    · rw [((hSame _).inspected host policy around)]
        at hInspected
      exact (inspected_eq_some host policy around).mp hInspected
    · exact exclusive_not_leased hExclusive
    · have hCollectable := eligibility_collectable hReason
      rw [hReached.observation, (hSame _).observation]
        at hCollectable
      rw [inventoryComplete_iff] at hCollectable
      exact hCollectable

/- An entry used before a collected one had its turn before. -/
theorem collect_oldest
    {decision other : Decision}
    (hSplit :
      (collect host policy around state).decisions
        = before ++ decision :: after)
    (hSource : decision.candidate.source = .present)
    (hOther :
      other ∈ (collect host policy around state).decisions)
    (hOtherSource : other.candidate.source = .present)
    (hOlder :
      other.candidate.lastUsed.getD 0
        < decision.candidate.lastUsed.getD 0) :
    ∃ earlier later, before = earlier ++ other :: later := by
  have hSorted :
      ((collect host policy around state).decisions.map
          (·.candidate)).Pairwise
        fun left right =>
          candidateOrder left ≤ candidateOrder right := by
    rcases @collect_cases host policy around state with
      hNone | ⟨listing, results, opened, _, _, hSweep⟩
    · rw [hNone]
      exact List.Pairwise.nil
    · rw [hSweep]
      unfold sweep
      simp only
      rw [decideAll_candidates]
      exact List.pairwise_insertionSort _ _
  have hLess :
      candidateOrder other.candidate
        < candidateOrder decision.candidate := by
    unfold candidateOrder
    rw [hSource, hOtherSource]
    exact Prod.Lex.toLex_lt_toLex.mpr (Or.inr ⟨rfl, hOlder⟩)
  rw [hSplit] at hSorted hOther
  rw [List.map_append, List.map_cons] at hSorted
  rcases List.mem_append.mp hOther with hBefore | hLater
  · exact List.append_of_mem hBefore
  · exfalso
    rcases List.mem_cons.mp hLater with hSelf | hAfter
    · rw [hSelf] at hLess
      exact lt_irrefl _ hLess
    · have hTail := (List.pairwise_append.mp hSorted).2.1
      have hLe :=
        (List.pairwise_cons.mp hTail).1 other.candidate
          (List.mem_map_of_mem hAfter)
      exact not_lt_of_ge hLe hLess

end Collections

end CacheGc

end ArktsServer
