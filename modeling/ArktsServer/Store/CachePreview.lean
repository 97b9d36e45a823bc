import ArktsServer.Store.CacheSafety

/-
  A preview reports what an application would take away.  As
  long as nothing fails and nothing else moves, and the files
  that only an application writes are as it leaves them, the
  entries that a preview calls eligible are those that the
  application removes.

  Key definitions include:
    * `Quiet`, `Kept`
    * `Reported`, `Moved`

  Correctness is proven by:
    * `inspect_both`, `decideAll_both`
    * `preview_honest`
-/

namespace ArktsServer

namespace CacheGc

open Chunking

----------
-- Quiet Surroundings
----------

def Policy.preview (policy : Policy) : Policy :=
  { policy with apply := false }

def Policy.applied (policy : Policy) : Policy :=
  { policy with apply := true }

/- No writing operation fails, and nobody else acts. -/
structure Quiet (around : Surroundings) : Prop where
  still :
    ∀ stage key,
      around.evidence stage key
        = around.evidence .inspecting key
  lock : around.runLock ≠ .held
  removal : ∀ key, (around.io key).removeObservation = none
  proof : ∀ key, (around.io key).writeProof = none
  rename : ∀ key, (around.io key).rename = none
  moved :
    ∀ key,
      (around.io key).moved
        = (around.evidence .inspecting key).snapshot
  delete : ∀ key, (around.io key).delete = none

/- The collector's own files are as it would write them. -/
structure Kept
    (host : Host)
    (policy : Policy)
    (around : Surroundings)
    (state : State) : Prop where
  lock : ∀ error, around.runLock ≠ .faulty error
  files : state.error = none
  trash : around.trash.error = none
  observations :
    ∀ key found,
      inspected host policy around state key = some found →
      found.source = .present →
        state.files.observation key ≠ some .linked ∧
          state.files.observation key ≠ some .directory

/- An entry of a report with an outcome. -/
def Reported
    (outcome : String)
    (collection : Collection)
    (key : String) : Prop :=
  ∃ report,
    collection.report = Except.ok report ∧
      ∃ entry ∈ report.entries,
        entry.key = key ∧ entry.outcome = outcome

def reportedKeys
    (outcome : String)
    (collection : Collection) : List String :=
  match collection.report with
  | Except.error _ => []
  | Except.ok report =>
      (report.entries.filter
        (·.outcome == outcome)).map (·.key)

variable {collection : Collection}

theorem mem_reportedKeys
    {outcome : String}
    {key : String} :
    key ∈ reportedKeys outcome collection ↔
      Reported outcome collection key := by
  unfold reportedKeys Reported
  cases collection.report with
  | error error =>
    constructor
    · intro hMem
      cases hMem
    · rintro ⟨report, hReport, _⟩
      cases hReport
  | ok report =>
    simp only [List.mem_map, List.mem_filter, beq_iff_eq]
    constructor
    · rintro ⟨entry, ⟨hEntry, hOutcome⟩, hKey⟩
      exact ⟨report, rfl, entry, hEntry, hKey, hOutcome⟩
    · rintro ⟨other, hSame, entry, hEntry, hKey, hOutcome⟩
      injection hSame with hSame
      subst hSame
      exact ⟨entry, ⟨hEntry, hOutcome⟩, hKey⟩

instance
    (outcome : String)
    (collection : Collection)
    (key : String) :
    Decidable (Reported outcome collection key) :=
  decidable_of_iff _ mem_reportedKeys

/- An entry that a collection has moved away. -/
def Moved
    (collection : Collection)
    (key : String) : Prop :=
  ∃ decision ∈ collection.decisions,
    decision.moved = true ∧
      decision.candidate.entry.key = key

----------
-- One Decision
----------

section Decisions

theorem protectOnError_outcome
    (error : String)
    (decision : Decision) :
    (protectOnError error decision).outcome ≠ "eligible" ∧
      (protectOnError error decision).outcome
        ≠ "removed" := by
  unfold protectOnError
  simp only
  split
  · exact ⟨by decide, by decide⟩
  · split
    · exact ⟨by decide, by decide⟩
    · exact ⟨by decide, by decide⟩

variable {host : Host}
variable {policy : Policy}
variable {around : Surroundings}
variable {complete : Bool}
variable {remaining : Nat}
variable {state : State}
variable {found : Candidate}

/- An entry that is not proven or not eligible stays. -/
theorem decideOne_stays
    (hError :
      ∀ reason,
        proven (around.evidence · found.entry.key) found
            = Except.ok () →
        (eligibility host policy around complete remaining
            state found).result ≠ Except.ok reason) :
    let decision :=
      decideOne host policy around complete remaining state found
    decision.outcome ≠ "eligible" ∧
      decision.outcome ≠ "removed" ∧
      decision.moved = false := by
  unfold decideOne
  simp only
  split
  · rename_i error _
    have hOutcome := protectOnError_outcome error
    exact ⟨(hOutcome _).1, (hOutcome _).2, rfl⟩
  · rename_i hProven
    split
    · rename_i error _
      have hOutcome := protectOnError_outcome error
      exact ⟨(hOutcome _).1, (hOutcome _).2, rfl⟩
    · rename_i reason hReason
      exact absurd hReason (hError reason hProven)

theorem decideOne_preview
    {reason : String}
    (hApply : policy.apply = false)
    (hProven :
      proven (around.evidence · found.entry.key) found
        = Except.ok ())
    (hReason :
      (eligibility host policy around complete remaining state
          found).result = Except.ok reason) :
    (decideOne host policy around complete remaining state
      found).outcome = "eligible" := by
  unfold decideOne
  simp only [hProven, hReason, hApply, Bool.false_eq_true,
    if_false]

/- Retiring goes through when nothing fails or changes. -/
theorem retire_quiet
    (hQuiet : Quiet around)
    (hTrash : around.trash.error = none)
    {key : String}
    {snapshot : Snapshot}
    (hSnapshot :
      (around.evidence .inspecting key).snapshot
        = Except.ok snapshot) :
    ∃ issues,
      retire around key snapshot
        = ⟨Except.ok issues, true⟩ := by
  have hDelete :
      ∃ issues,
        deleteRetired (around.io key) snapshot
          = Except.ok issues := by
    refine
      ⟨_, bind_eq_ok.mpr
        ⟨snapshot, (hQuiet.moved key).trans hSnapshot,
          bind_eq_ok.mpr
            ⟨(), require_eq_ok.mpr (beq_self_eq_true _),
              bind_eq_ok.mpr ⟨(), ?_, rfl⟩⟩⟩⟩
    rw [hQuiet.delete key]
    rfl
  rcases hDelete with ⟨issues, hIssues⟩
  refine ⟨issues, ?_⟩
  unfold retire
  simp only [hQuiet.proof key, hQuiet.rename key]
  cases hDirectory : around.trash with
  | faulty error content =>
    rw [hDirectory] at hTrash
    cases hTrash
  | absent => simp only [hIssues]
  | present content => simp only [hIssues]

theorem unchanged_quiet
    (hQuiet : Quiet around)
    {name : String}
    (hSeen : Seen (around.evidence · name) name found) :
    unchanged (around.evidence · found.entry.key) found
      = Except.ok () := by
  rw [hSeen.key]
  unfold unchanged
  simp only [hQuiet.still .retiring]
  refine bind_eq_ok.mpr ⟨found.snapshot, hSeen.snapshot, ?_⟩
  refine
    bind_eq_ok.mpr
      ⟨(), require_eq_ok.mpr (beq_self_eq_true _), ?_⟩
  refine bind_eq_ok.mpr ⟨found.source, hSeen.source, ?_⟩
  exact require_eq_ok.mpr (beq_self_eq_true _)

theorem decideOne_applied
    (hQuiet : Quiet around)
    (hTrash : around.trash.error = none)
    {name reason : String}
    (hSeen : Seen (around.evidence · name) name found)
    (hApply : policy.apply = true)
    (hProven :
      proven (around.evidence · found.entry.key) found
        = Except.ok ())
    (hReason :
      (eligibility host policy around complete remaining state
          found).result = Except.ok reason) :
    let decision :=
      decideOne host policy around complete remaining state found
    decision.outcome = "removed" ∧ decision.moved = true := by
  have hSnapshot := hSeen.snapshot
  rw [← hSeen.key] at hSnapshot
  rcases retire_quiet hQuiet hTrash hSnapshot with
    ⟨issues, hRetire⟩
  have hUnchanged := unchanged_quiet hQuiet hSeen
  unfold decideOne
  simp only [hProven, hReason, hApply, if_true]
  unfold retireEligible
  simp only [hUnchanged, hRetire]
  exact ⟨trivial, trivial⟩

end Decisions

----------
-- Both Collections
----------

section Both

variable {host : Host}
variable {policy : Policy}
variable {around : Surroundings}
variable {complete : Bool}
variable {remaining : Nat}
variable {left right : State}
variable {found : Candidate}

/- The observation can be withdrawn, if there is one. -/
theorem cancelObservation_quiet
    (hQuiet : Quiet around)
    {key : String}
    {state : State}
    (hPlain :
      state.files.observation key ≠ some .linked ∧
        state.files.observation key ≠ some .directory) :
    ∃ next,
      cancelObservation policy around key state
        = Except.ok next := by
  unfold cancelObservation
  simp only [hQuiet.removal key]
  split
  · split
    · exact ⟨_, rfl⟩
    · exact ⟨_, rfl⟩
    · rename_i hLinked
      exact absurd hLinked hPlain.1
    · rename_i hDirectory
      exact absurd hDirectory hPlain.2
    · exact ⟨_, rfl⟩
  · exact ⟨_, rfl⟩

/- Both find the same reason, or none. -/
theorem eligibility_both
    (hQuiet : Quiet around)
    (hSame : SameAt found.entry.key right left)
    (hPlain :
      found.source = .present →
        left.files.observation found.entry.key
            ≠ some .linked ∧
          left.files.observation found.entry.key
            ≠ some .directory)
    (reason : String) :
    (eligibility host policy.preview around complete remaining
          left found).result = Except.ok reason ↔
      (eligibility host policy.applied around complete
          remaining right found).result
            = Except.ok reason := by
  unfold eligibility
  simp only
  cases hSource : found.source with
  | unavailable => exact Iff.rfl
  | present =>
    have hRight := hPlain hSource
    rw [← hSame.observation] at hRight
    rcases
        @cancelObservation_quiet policy.preview around
          hQuiet found.entry.key left (hPlain hSource) with
      ⟨first, hFirst⟩
    rcases
        @cancelObservation_quiet policy.applied around
          hQuiet found.entry.key right hRight with
      ⟨second, hSecond⟩
    simp only [hFirst, hSecond]
    exact Iff.rfl
  | missing anchor =>
    have hValid :
        validObservation (around.clock found.entry.key) right
            anchor found
          = validObservation (around.clock found.entry.key)
              left anchor found := by
      unfold validObservation
      rw [hSame.observation]
    simp only [hValid]
    cases validObservation (around.clock found.entry.key) left
        anchor found with
    | none =>
      simp only [Policy.preview, Policy.applied,
        Bool.false_eq_true, if_false, if_true]
      constructor
      · intro hLeft
        cases hLeft
      · intro hRight
        split at hRight
        · cases hRight
        · cases hRight
    | some old =>
      by_cases hWaited :
          (around.clock found.entry.key).grace
              - old.sinceMs
            < max policy.graceMs old.graceMs
      · simp only [Policy.preview, Policy.applied, hWaited,
          if_true]
      · simp only [Policy.preview, Policy.applied, hWaited,
          if_false]

/- What the decisions on one entry have in common. -/
structure Agree
    (previewed applied : Decision) : Prop where
  candidate : previewed.candidate = applied.candidate
  outcome :
    previewed.outcome = "eligible" ↔
      applied.outcome = "removed"
  moved :
    applied.moved = true ↔ applied.outcome = "removed"
  freed : previewed.freed = applied.freed

variable {decision : Decision}

theorem freed_of_outcome
    (hOutcome :
      decision.outcome = "eligible" ∨
        decision.outcome = "removed") :
    decision.freed = decision.candidate.entry.bytes := by
  unfold Decision.freed
  rcases hOutcome with hEligible | hRemoved
  · rw [hEligible]
    rfl
  · rw [hRemoved]
    rfl

theorem freed_of_stays
    (hEligible : decision.outcome ≠ "eligible")
    (hRemoved : decision.outcome ≠ "removed") :
    decision.freed = 0 := by
  unfold Decision.freed
  rw [beq_false_of_ne hEligible, beq_false_of_ne hRemoved]
  rfl

theorem decideOne_both
    (hQuiet : Quiet around)
    (hTrash : around.trash.error = none)
    {name : String}
    (hSeen : Seen (around.evidence · name) name found)
    (hSame : SameAt found.entry.key right left)
    (hPlain :
      found.source = .present →
        left.files.observation found.entry.key
            ≠ some .linked ∧
          left.files.observation found.entry.key
            ≠ some .directory) :
    Agree
      (decideOne host policy.preview around complete remaining
        left found)
      (decideOne host policy.applied around complete remaining
        right found) := by
  have hBoth :=
    @eligibility_both host policy around complete remaining
      left right found hQuiet hSame hPlain
  have hLeft :=
    decideOne_candidate host policy.preview around complete
      remaining left found
  have hRight :=
    decideOne_candidate host policy.applied around complete
      remaining right found
  by_cases hReason :
      proven (around.evidence · found.entry.key) found
          = Except.ok () ∧
        ∃ reason,
          (eligibility host policy.preview around complete
              remaining left found).result = Except.ok reason
  · rcases hReason with ⟨hProven, reason, hReason⟩
    have hPreview :=
      @decideOne_preview host policy.preview around complete
        remaining left found reason rfl hProven hReason
    have hApplied :=
      @decideOne_applied host policy.applied around complete
        remaining right found hQuiet hTrash name reason hSeen
        rfl hProven ((hBoth reason).mp hReason)
    refine ⟨hLeft.1.trans hRight.1.symm, ?_, ?_, ?_⟩
    · exact ⟨fun _ => hApplied.1, fun _ => hPreview⟩
    · exact ⟨fun _ => hApplied.1, fun _ => hApplied.2⟩
    · rw [freed_of_outcome (Or.inl hPreview),
        freed_of_outcome (Or.inr hApplied.1), hLeft.1,
        hRight.1]
  · have hPreview :=
      @decideOne_stays host policy.preview around complete
        remaining left found fun reason hProven hOk =>
          hReason ⟨hProven, reason, hOk⟩
    have hApplied :=
      @decideOne_stays host policy.applied around complete
        remaining right found fun reason hProven hOk =>
          hReason ⟨hProven, reason, (hBoth reason).mpr hOk⟩
    refine ⟨hLeft.1.trans hRight.1.symm, ?_, ?_, ?_⟩
    · exact
        ⟨fun hYes => absurd hYes hPreview.1,
          fun hYes => absurd hYes hApplied.2.1⟩
    · rw [hApplied.2.2]
      constructor
      · intro hYes
        cases hYes
      · intro hYes
        exact absurd hYes hApplied.2.1
    · rw [freed_of_stays hPreview.1 hPreview.2.1,
        freed_of_stays hApplied.1 hApplied.2.1]

/- The second loops run side by side. -/
theorem decideAll_both
    (hQuiet : Quiet around)
    (hTrash : around.trash.error = none)
    {candidates : List Candidate}
    (hDistinct : (candidates.map (·.entry.key)).Nodup)
    (hSeen :
      ∀ found ∈ candidates,
        ∃ name, Seen (around.evidence · name) name found)
    (hSame :
      ∀ found ∈ candidates,
        SameAt found.entry.key right left)
    (hPlain :
      ∀ found ∈ candidates,
        found.source = .present →
          left.files.observation found.entry.key
              ≠ some .linked ∧
            left.files.observation found.entry.key
              ≠ some .directory) :
    List.Forall₂ Agree
      (decideAll host policy.preview around complete candidates
        remaining left)
      (decideAll host policy.applied around complete candidates
        remaining right) := by
  induction candidates generalizing remaining left right with
  | nil => exact List.Forall₂.nil
  | cons found rest ih =>
    rw [List.map_cons] at hDistinct
    rcases List.nodup_cons.mp hDistinct with
      ⟨hFresh, hRest⟩
    rcases hSeen found List.mem_cons_self with
      ⟨name, hFound⟩
    have hAgree :=
      @decideOne_both host policy around complete remaining
        left right found hQuiet hTrash name hFound
        (hSame found List.mem_cons_self)
        (hPlain found List.mem_cons_self)
    have hLeft :
        ∀ other ∈ rest,
          SameAt other.entry.key
            (decideOne host policy.preview around complete
              remaining left found).state
            left := by
      intro other hOther
      refine decideOne_same host policy.preview around ?_ _ _ _
      intro hKey
      exact hFresh (hKey ▸ List.mem_map_of_mem hOther)
    have hRight :
        ∀ other ∈ rest,
          SameAt other.entry.key
            (decideOne host policy.applied around complete
              remaining right found).state
            right := by
      intro other hOther
      refine decideOne_same host policy.applied around ?_ _ _ _
      intro hKey
      exact hFresh (hKey ▸ List.mem_map_of_mem hOther)
    unfold decideAll
    refine List.Forall₂.cons hAgree ?_
    rw [hAgree.freed]
    refine ih hRest ?_ ?_ ?_
    · exact fun other hOther =>
        hSeen other (List.mem_cons_of_mem _ hOther)
    · intro other hOther
      exact
        ((hRight other hOther).trans
          (hSame other (List.mem_cons_of_mem _ hOther))).trans
          (hLeft other hOther).symm
    · intro other hOther hSource
      rw [(hLeft other hOther).observation]
      exact hPlain other (List.mem_cons_of_mem _ hOther) hSource

/- What the two inventories have in common. -/
structure SameInventory
    (previewed applied : Inspection) : Prop where
  observedBytes :
    previewed.observedBytes = applied.observedBytes
  sizeUnknownEntries :
    previewed.sizeUnknownEntries = applied.sizeUnknownEntries
  entries : previewed.entries = applied.entries
  candidates : previewed.candidates = applied.candidates

variable {previewed applied : Inspection}

theorem inspectOne_both
    {name : String}
    (hSame : SameInventory previewed applied)
    (hFound :
      inspectEntry host policy.preview previewed.state
          (around.evidence · name) name
        = inspectEntry host policy.applied applied.state
            (around.evidence · name) name) :
    SameInventory
      (inspectOne host policy.preview around previewed name)
      (inspectOne host policy.applied around applied name) := by
  unfold inspectOne
  rw [hFound]
  split
  · rename_i found _
    refine ⟨?_, hSame.sizeUnknownEntries, hSame.entries, ?_⟩
    · exact
        congrArg
          (Store.saturatingAdd · found.entry.bytes)
          hSame.observedBytes
    · exact congrArg (· ++ [found]) hSame.candidates
  · unfold protectEntry
    refine ⟨?_, ?_, ?_, hSame.candidates⟩
    · exact
        congrArg (Store.saturatingAdd · _) hSame.observedBytes
    · exact congrArg (· + _) hSame.sizeUnknownEntries
    · exact congrArg (· ++ _) hSame.entries

/- The first loops run side by side. -/
theorem inspect_both
    {start : State}
    {names : List String}
    (hDistinct : (names.filter validateName).Nodup)
    (hInventory : SameInventory previewed applied)
    (hPreviewed :
      ∀ name ∈ names,
        validateName name = true →
        SameAt name previewed.state start)
    (hApplied :
      ∀ name ∈ names,
        validateName name = true →
        SameAt name applied.state start) :
    SameInventory
      (names.foldl (inspectOne host policy.preview around)
        previewed)
      (names.foldl (inspectOne host policy.applied around)
        applied) := by
  induction names generalizing previewed applied with
  | nil => exact hInventory
  | cons name names ih =>
    rcases valid_cons hDistinct with ⟨hRest, hFresh⟩
    have hFound :
        inspectEntry host policy.preview previewed.state
            (around.evidence · name) name
          = inspectEntry host policy.applied applied.state
              (around.evidence · name) name := by
      cases hName : validateName name with
      | true =>
        have hBoth :
            SameAt name previewed.state applied.state :=
          (hPreviewed name List.mem_cons_self hName).trans
            (hApplied name List.mem_cons_self hName).symm
        exact hBoth.inspectEntry host _
      | false =>
        unfold inspectEntry require
        rw [hName]
        rfl
    refine ih hRest (inspectOne_both hInventory hFound) ?_ ?_
    · intro other hOther hValid
      exact
        (inspectOne_same host policy.preview around
          (Or.inl (hFresh other hOther hValid))).trans
          (hPreviewed other (List.mem_cons_of_mem _ hOther)
            hValid)
    · intro other hOther hValid
      exact
        (inspectOne_same host policy.applied around
          (Or.inl (hFresh other hOther hValid))).trans
          (hApplied other (List.mem_cons_of_mem _ hOther) hValid)

end Both

----------
-- Honest Previews
----------

section Reports

variable (host : Host)
variable (policy : Policy)
variable (around : Surroundings)

theorem inspect_protected
    (names : List String)
    {gathered : Inspection}
    (hEntries :
      ∀ entry ∈ gathered.entries,
        entry.outcome = "protected") :
    ∀ entry ∈
        (names.foldl (inspectOne host policy around)
          gathered).entries,
      entry.outcome = "protected" := by
  induction names generalizing gathered with
  | nil => exact hEntries
  | cons name names ih =>
    rw [List.foldl_cons]
    refine ih ?_
    unfold inspectOne
    split
    · exact hEntries
    · intro entry hEntry
      rcases List.mem_append.mp hEntry with hOld | hNew
      · exact hEntries entry hOld
      · rw [List.mem_singleton.mp hNew]

/- Beside protected entries, a report lists its decisions. -/
theorem reported_sweep
    (results : List (String × String))
    (names : List String)
    (state : State)
    {outcome : String}
    (hOutcome : outcome ≠ "protected")
    (key : String) :
    Reported outcome
        (sweep host policy around results names state) key ↔
      ∃ decision ∈
          (sweep host policy around results names
            state).decisions,
        decision.outcome = outcome ∧
          decision.candidate.entry.key = key := by
  have hSorted :
      ∀ entries entry,
        entry ∈ sortEntries entries ↔ entry ∈ entries :=
    fun entries entry =>
      (List.perm_insertionSort _ entries).mem_iff
  constructor
  · rintro ⟨report, hReport, entry, hEntry, hKey, hSame⟩
    injection hReport with hReport
    subst hReport
    rcases List.mem_append.mp ((hSorted _ _).mp hEntry) with
      hProtected | hDecided
    · exfalso
      apply hOutcome
      rw [← hSame]
      refine
        inspect_protected host policy around _ ?_ entry hProtected
      intro other hOther
      cases hOther
    · rcases List.mem_map.mp hDecided with
        ⟨decision, hDecision, rfl⟩
      exact ⟨decision, hDecision, hSame, hKey⟩
  · rintro ⟨decision, hDecision, hSame, hKey⟩
    refine ⟨_, rfl, decision.entry, ?_, hKey, hSame⟩
    refine (hSorted _ _).mpr (List.mem_append_right _ ?_)
    exact List.mem_map_of_mem hDecision

theorem exists_agree
    {previewed applied : List Decision}
    (hAgree : List.Forall₂ Agree previewed applied)
    (key : String) :
    ((∃ decision ∈ previewed,
        decision.outcome = "eligible" ∧
          decision.candidate.entry.key = key) ↔
      ∃ decision ∈ applied,
        decision.outcome = "removed" ∧
          decision.candidate.entry.key = key) ∧
      ((∃ decision ∈ applied,
          decision.moved = true ∧
            decision.candidate.entry.key = key) ↔
        ∃ decision ∈ applied,
          decision.outcome = "removed" ∧
            decision.candidate.entry.key = key) := by
  induction hAgree with
  | nil => simp
  | cons hHead _ ih =>
    simp only [List.exists_mem_cons_iff]
    rw [ih.1, ih.2, hHead.candidate, hHead.outcome, hHead.moved]
    exact ⟨Iff.rfl, Iff.rfl⟩

variable {policy around}

/- Two sweeps from states that no entry can tell apart. -/
theorem sweep_both
    (hQuiet : Quiet around)
    (listing : Listing)
    (results : List (String × String))
    {state left right : State}
    (hKept : Kept host policy around state)
    (hLeft : ∀ key, SameAt key left state)
    (hRight : ∀ key, SameAt key right state) :
    List.Forall₂ Agree
      (sweep host policy.preview around [] listing.names
        left).decisions
      (sweep host policy.applied around results listing.names
        right).decisions := by
  have hInventory :
      SameInventory
        (inspectAll host policy.preview around left listing.names)
        (inspectAll host policy.applied around right
          listing.names) :=
    inspect_both (pending_distinct policy listing)
      ⟨rfl, rfl, rfl, rfl⟩ (fun name _ _ => hLeft name)
      fun name _ _ => hRight name
  have hComplete :
      inventoryComplete policy.applied listing.names
          (inspectAll host policy.applied around right
            listing.names)
        = inventoryComplete policy.preview listing.names
            (inspectAll host policy.preview around left
              listing.names) := by
    unfold inventoryComplete
    rw [hInventory.sizeUnknownEntries]
    rfl
  have hMem :
      ∀ found,
        found ∈
            sortCandidates
              (inspectAll host policy.preview around left
                listing.names).candidates ↔
          found ∈
            (inspectAll host policy.preview around left
              listing.names).candidates :=
    fun found => (List.perm_insertionSort _ _).mem_iff
  unfold sweep
  simp only [hComplete, ← hInventory.candidates,
    ← hInventory.observedBytes]
  refine
    decideAll_both hQuiet hKept.trash
      (candidates_distinct host policy.preview around listing
        left) ?_ ?_ ?_
  · intro found hFound
    have hSeen :=
      (inspectAll_same host policy.preview around listing left
        ((hMem found).mp hFound)).1
    exact
      ⟨_, (inspectEntry_seen host
        ((inspected_eq_some host policy.preview around).mp
          hSeen)).1⟩
  · intro found hFound
    have hHere := (hMem found).mp hFound
    have hThere := hHere
    rw [hInventory.candidates] at hThere
    exact
      ((inspectAll_same host policy.applied around listing
          right hThere).2.trans
        ((hRight _).trans (hLeft _).symm)).trans
        (inspectAll_same host policy.preview around listing
          left hHere).2.symm
  · intro found hFound hSource
    have hHere :=
      inspectAll_same host policy.preview around listing left
        ((hMem found).mp hFound)
    rw [(hHere.2.trans (hLeft _)).observation]
    refine hKept.observations _ found ?_ hSource
    rw [← (hLeft _).inspected host policy around]
    exact hHere.1

/- A collection that looks at no entry. -/
structure Idles (collection : Collection) : Prop where
  report :
    ∀ report,
      collection.report = Except.ok report →
        report.entries = []
  decisions : collection.decisions = []

theorem Idles.not_reported
    (hIdles : Idles collection)
    (outcome key : String) :
    ¬ Reported outcome collection key := by
  rintro ⟨report, hReport, entry, hEntry, _⟩
  rw [hIdles.report report hReport] at hEntry
  cases hEntry

theorem Idles.not_moved
    (hIdles : Idles collection)
    (key : String) :
    ¬ Moved collection key := by
  rintro ⟨decision, hDecision, _⟩
  rw [hIdles.decisions] at hDecision
  cases hDecision

theorem idles_error
    (error : String)
    (state : State) :
    Idles
      { report := Except.error error
        state := state } := by
  refine ⟨?_, rfl⟩
  intro report hReport
  cases hReport

theorem idles_ok
    {report : Report}
    (hEntries : report.entries = [])
    (state : State) :
    Idles
      { report := Except.ok report
        state := state } := by
  refine ⟨?_, rfl⟩
  intro other hOther
  injection hOther with hSame
  rw [← hSame]
  exact hEntries

variable {host}

theorem collectEntries_idles
    (hListing :
      ∀ listing, around.workspaces ≠ .present listing)
    (results : List (String × String))
    (state : State) :
    Idles
      (collectEntries host policy around results state) := by
  unfold collectEntries
  cases hNames : around.workspaces with
  | absent => exact idles_ok rfl state
  | faulty error listing => exact idles_error error state
  | present listing => exact absurd hNames (hListing listing)

theorem collectEntries_sweep
    {listing : Listing}
    (hListing : around.workspaces = .present listing)
    (results : List (String × String))
    (state : State) :
    collectEntries host policy around results state =
      sweep host policy around results listing.names state := by
  unfold collectEntries
  rw [hListing]

variable {content : Unit}

/- An open cache is entered by previews and applications. -/
theorem collect_preview_eq
    (hLimit : policy.limit ≠ 0)
    (hCache : around.cache = .present content)
    (state : State) :
    collect host policy.preview around state =
      collectEntries host policy.preview around [] state := by
  unfold collect
  have hPreview : policy.preview.limit ≠ 0 := hLimit
  rw [if_neg hPreview, hCache]
  rfl

theorem collect_applied_eq
    (hQuiet : Quiet around)
    {state : State}
    (hKept : Kept host policy around state)
    (hLimit : policy.limit ≠ 0)
    (hCache : around.cache = .present content) :
    ∃ right,
      (∀ key, SameAt key right state) ∧
        collect host policy.applied around state =
          collectEntries host policy.applied around
            around.trashResults right := by
  have hApplied : policy.applied.limit ≠ 0 := hLimit
  have hFiles := hKept.files
  cases state with
  | faulty error files => cases hFiles
  | absent =>
    refine
      ⟨.present StateFiles.none, fun key => ⟨rfl, rfl, rfl⟩, ?_⟩
    unfold collect
    rw [if_neg hApplied, hCache]
    cases hLock : around.runLock with
    | faulty error => exact absurd hLock (hKept.lock error)
    | held => exact absurd hLock hQuiet.lock
    | absent => rfl
    | free => rfl
  | present files =>
    refine ⟨.present files, fun key => SameAt.refl key _, ?_⟩
    unfold collect
    rw [if_neg hApplied, hCache]
    cases hLock : around.runLock with
    | faulty error => exact absurd hLock (hKept.lock error)
    | held => exact absurd hLock hQuiet.lock
    | absent => rfl
    | free => rfl

/- Without a cache there is nothing to preview or to apply. -/
theorem collect_closed
    (hClosed :
      policy.limit = 0 ∨
        ∀ content, around.cache ≠ .present content)
    (state : State) :
    Idles (collect host policy around state) := by
  unfold collect
  rcases hClosed with hLimit | hCache
  · rw [if_pos hLimit]
    exact idles_error _ state
  · split
    · exact idles_error _ state
    · cases hDirectory : around.cache with
      | faulty error content => exact idles_error _ state
      | absent => exact idles_ok rfl state
      | present content =>
        exact absurd hDirectory (hCache content)

theorem honest_of_idles
    {previewed applied : Collection}
    (hPreviewed : Idles previewed)
    (hApplied : Idles applied)
    (key : String) :
    (Reported "eligible" previewed key ↔
      Reported "removed" applied key) ∧
      (Moved applied key ↔ Reported "removed" applied key) := by
  have hFirst := hPreviewed.not_reported "eligible" key
  have hSecond := hApplied.not_reported "removed" key
  exact
    ⟨iff_of_false hFirst hSecond,
      iff_of_false (hApplied.not_moved key) hSecond⟩

/-
  When nothing fails or changes and the collector's files are
  in order, a preview names exactly what an application would
  remove, and exactly that is moved away.
-/
theorem preview_honest
    (hQuiet : Quiet around)
    {state : State}
    (hKept : Kept host policy around state)
    (key : String) :
    (Reported "eligible"
        (collect host policy.preview around state) key ↔
      Reported "removed"
        (collect host policy.applied around state) key) ∧
      (Moved (collect host policy.applied around state) key ↔
        Reported "removed"
          (collect host policy.applied around state)
          key) := by
  by_cases hClosed :
      policy.limit = 0 ∨
        ∀ content, around.cache ≠ .present content
  · have hPreview :=
      @collect_closed host policy.preview around hClosed state
    have hApplied :=
      @collect_closed host policy.applied around hClosed state
    exact honest_of_idles hPreview hApplied key
  · rw [not_or, not_forall] at hClosed
    rcases hClosed with ⟨hLimit, content, hCache⟩
    rw [not_not] at hCache
    rcases
        collect_applied_eq hQuiet hKept hLimit hCache with
      ⟨right, hSame, hApplied⟩
    rw [hApplied, collect_preview_eq hLimit hCache]
    by_cases hListing :
        ∃ listing, around.workspaces = .present listing
    · rcases hListing with ⟨listing, hListing⟩
      rw [collectEntries_sweep hListing,
        collectEntries_sweep hListing]
      have hAgree :=
        exists_agree
          (sweep_both host hQuiet listing around.trashResults
            hKept (fun key => SameAt.refl key state) hSame) key
      rw [reported_sweep host _ around _ _ _ (by decide),
        reported_sweep host _ around _ _ _ (by decide)]
      exact hAgree
    · have hNone :
          ∀ listing, around.workspaces ≠ .present listing :=
        fun listing hSome => hListing ⟨listing, hSome⟩
      exact
        honest_of_idles (collectEntries_idles hNone _ _)
          (collectEntries_idles hNone _ _) key

end Reports

end CacheGc

end ArktsServer
