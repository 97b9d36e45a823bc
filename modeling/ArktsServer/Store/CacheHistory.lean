import ArktsServer.Lib.Transition
import ArktsServer.Store.CachePreview

/-
  Collections one after the other.  An observation that lets
  an entry without a source go was written by an earlier
  application, which saw the same identity, the same anchor
  and the same files, and no later policy shortens the time
  that this one has set.

  Key definitions include:
    * `Round`, `stateAfter`
    * `Noted`, `Unobserved`

  Correctness is proven by:
    * `collect_observation`
    * `observed_before`
    * `collections_safe_and_honest`
-/

namespace ArktsServer

namespace CacheGc

open Chunking
open Transition

----------
-- Rounds
----------

/- One call of `collect`. -/
structure Round where
  policy : Policy
  around : Surroundings

section Rounds

variable (host : Host)

def Round.collect (round : Round) (state : State) : Collection :=
  CacheGc.collect host round.policy round.around state

/- The files that some rounds leave under `.gc-state`. -/
def stateAfter (start : State) (rounds : List Round) : State :=
  run (fun state round => (round.collect host state).state)
    start rounds

theorem stateAfter_append
    (start : State)
    (rounds : List Round)
    (round : Round) :
    stateAfter host start (rounds ++ [round]) =
      (round.collect host
        (stateAfter host start rounds)).state := by
  unfold stateAfter
  rw [run_append]
  rfl

/- An application has seen a missing source, and noted it. -/
def Noted
    (round : Round)
    (state : State)
    (key : String)
    (old : Missing) : Prop :=
  round.policy.apply = true ∧
    ∃ found anchor,
      inspectEntry host round.policy state
          (round.around.evidence · key) key
            = Except.ok found ∧
        found.source = .missing anchor ∧
        old.identity = found.identity ∧
        old.anchor = anchor ∧
        old.files = found.snapshot ∧
        old.sinceMs = (round.around.clock key).record ∧
        round.policy.graceMs ≤ old.graceMs

end Rounds

----------
-- Writing Observations
----------

section Writing

variable (host : Host)
variable (policy : Policy)
variable (around : Surroundings)

/- The first loop leaves all observations alone. -/
theorem inspectOne_observation
    (gathered : Inspection)
    (name key : String) :
    (inspectOne host policy around gathered
        name).state.files.observation key
      = gathered.state.files.observation key := by
  unfold inspectOne
  split
  · rfl
  · unfold protectEntry
    simp only
    split
    · rename_i state hRecorded
      have hRecord :
          ∀ identity,
            recordActivity around name identity gathered.state
                = Except.ok state →
              state.files.observation key
                = gathered.state.files.observation key := by
        intro identity hRecord
        unfold recordActivity at hRecord
        split at hRecord
        · cases hRecord
        · cases hRecord
        · cases hRecord
        · injection hRecord with hNext
          subst hNext
          refine Directory.observation_update ?_ gathered.state
          exact fun files => rfl
      split at hRecorded
      · split at hRecorded
        · exact hRecord _ hRecorded
        · injection hRecorded with hState
          rw [hState]
      · injection hRecorded with hState
        rw [hState]
    · rfl

theorem inspectAll_observation
    (names : List String)
    (state : State)
    (key : String) :
    (inspectAll host policy around state
        names).state.files.observation key
      = state.files.observation key := by
  unfold inspectAll
  have hFold :
      ∀ (pending : List String) (gathered : Inspection),
        (pending.foldl (inspectOne host policy around)
            gathered).state.files.observation key
          = gathered.state.files.observation key := by
    intro pending
    induction pending with
    | nil => exact fun gathered => rfl
    | cons name pending ih =>
      intro gathered
      rw [List.foldl_cons, ih, inspectOne_observation]
  exact hFold _ _

/- What a decision may leave as its entry's observation. -/
def Leaves
    (found : Candidate)
    (before after : Option (MetadataFile Missing)) : Prop :=
  after = before ∨ after = none ∨
    ∃ state anchor,
      policy.apply = true ∧ found.source = .missing anchor ∧
        after =
          some
            (.plain
              (Except.ok
                (newObservation host policy
                  (around.clock found.entry.key) state anchor
                  found)))

theorem update_observation_own
    {key : String}
    {file : Option (MetadataFile Missing)}
    (state : State) :
    (state.update (·.setObservation key file)).files.observation
        key = file ∨
      (state.update
          (·.setObservation key file)).files.observation key
        = none := by
  cases state with
  | absent => exact Or.inr rfl
  | faulty error files =>
    exact Or.inl (files.setObservation_own key file)
  | present files =>
    exact Or.inl (files.setObservation_own key file)

theorem cancelObservation_leaves
    {found : Candidate}
    {state next : State}
    (hCancel :
      cancelObservation policy around found.entry.key state
        = Except.ok next) :
    Leaves host policy around found
      (state.files.observation found.entry.key)
      (next.files.observation found.entry.key) := by
  unfold cancelObservation at hCancel
  split at hCancel
  · split at hCancel
    · injection hCancel with hNext
      rw [hNext]
      exact Or.inl rfl
    · injection hCancel with hNext
      rw [hNext]
      exact Or.inl rfl
    · cases hCancel
    · cases hCancel
    · split at hCancel
      · cases hCancel
      · injection hCancel with hNext
        subst hNext
        rcases
            @update_observation_own found.entry.key none state
          with hNone | hNone
        · exact Or.inr (Or.inl hNone)
        · exact Or.inr (Or.inl hNone)
  · injection hCancel with hNext
    rw [hNext]
    exact Or.inl rfl

theorem eligibility_leaves
    (complete : Bool)
    (remaining : Nat)
    (state : State)
    (found : Candidate) :
    Leaves host policy around found
      (state.files.observation found.entry.key)
      ((eligibility host policy around complete remaining
          state found).state.files.observation
        found.entry.key) := by
  unfold eligibility
  simp only
  cases hSource : found.source with
  | unavailable => exact Or.inl rfl
  | present =>
    simp only
    split
    · exact Or.inl rfl
    · rename_i cancelled hCancel
      exact cancelObservation_leaves host policy around hCancel
  | missing anchor =>
    simp only
    split
    · split
      · exact Or.inl rfl
      · exact Or.inl rfl
    · split
      · rename_i hApply
        split
        · exact Or.inl rfl
        · rename_i written hWrite
          unfold writeObservation at hWrite
          split at hWrite
          · cases hWrite
          · cases hWrite
          · cases hWrite
          · injection hWrite with hWritten
            subst hWritten
            rcases
                @update_observation_own found.entry.key
                  (some (.plain (Except.ok _))) state with
              hOwn | hNone
            · exact
                Or.inr
                  (Or.inr ⟨state, anchor, hApply, hSource, hOwn⟩)
            · exact Or.inr (Or.inl hNone)
      · exact Or.inl rfl

/- Cleaning up can only take an observation away. -/
theorem retireEligible_observation
    (eligible : Decision) :
    (retireEligible around
          eligible).state.files.observation
            eligible.candidate.entry.key
        = eligible.state.files.observation
            eligible.candidate.entry.key ∨
      (retireEligible around
          eligible).state.files.observation
            eligible.candidate.entry.key = none := by
  unfold retireEligible
  simp only
  split
  · exact Or.inl rfl
  · split
    · exact Or.inl rfl
    · have hActive :
          ∀ state : State,
            (cleanActive around
                eligible.candidate.entry.key
                state).1.files.observation
                  eligible.candidate.entry.key
              = state.files.observation
                  eligible.candidate.entry.key := by
        intro state
        unfold cleanActive
        split
        · split
          · refine Directory.observation_update ?_ state
            exact fun files => rfl
          · rfl
        · rfl
      rw [hActive]
      unfold cleanObservation
      split
      · split
        · rcases
              @update_observation_own
                eligible.candidate.entry.key none
                eligible.state with
            hNone | hNone
          · exact Or.inr hNone
          · exact Or.inr hNone
        · exact Or.inl rfl
      · exact Or.inl rfl

theorem decideOne_leaves
    (complete : Bool)
    (remaining : Nat)
    (state : State)
    (found : Candidate) :
    Leaves host policy around found
      (state.files.observation found.entry.key)
      ((decideOne host policy around complete remaining state
          found).state.files.observation
        found.entry.key) := by
  have hVerdict :=
    eligibility_leaves host policy around complete remaining
      state found
  unfold decideOne
  simp only
  split
  · exact Or.inl rfl
  · split
    · exact hVerdict
    · split
      · rename_i reason _ _
        rcases
            retireEligible_observation around
              { candidate := found
                remaining := remaining
                outcome := "eligible"
                reason := reason
                moved := false
                issues := []
                state :=
                  (eligibility host policy around complete
                    remaining state found).state } with
          hKept | hNone
        · rw [hKept]
          exact hVerdict
        · exact Or.inr (Or.inl hNone)
      · exact hVerdict

end Writing

----------
-- Where Observations Come From
----------

section Origins

variable (host : Host)

/- The state that the second loop leaves. -/
def finalState
    (decisions : List Decision)
    (state : State) : State :=
  match decisions.getLast? with
  | some last => last.state
  | none => state

theorem finalState_cons
    (decision : Decision)
    (rest : List Decision)
    (state : State) :
    finalState (decision :: rest) state
      = finalState rest decision.state := by
  unfold finalState
  rw [List.getLast?_cons]
  cases rest.getLast? with
  | none => rfl
  | some last => rfl

variable {key : String}
variable {old : Missing}

/- A new observation is one of a candidate's decision. -/
theorem decideAll_observation
    (policy : Policy)
    (around : Surroundings)
    (complete : Bool)
    {candidates : List Candidate}
    (remaining : Nat)
    (state : State)
    (hRead :
      MetadataFile.readJson
          ((finalState
              (decideAll host policy around complete candidates
                remaining state)
              state).files.observation key)
        = Except.ok old) :
    MetadataFile.readJson (state.files.observation key)
        = Except.ok old ∨
      ∃ found ∈ candidates,
        ∃ before anchor,
          found.entry.key = key ∧ policy.apply = true ∧
            found.source = .missing anchor ∧
            old =
              newObservation host policy (around.clock key)
                before anchor found := by
  induction candidates generalizing remaining state with
  | nil => exact Or.inl hRead
  | cons found rest ih =>
    unfold decideAll at hRead
    rw [finalState_cons] at hRead
    rcases ih _ _ hRead with
      hHere | ⟨other, hOther, hNew⟩
    · by_cases hKey : key = found.entry.key
      · subst hKey
        rcases
            decideOne_leaves host policy around complete
              remaining state found with
          hSame | hNone |
            ⟨before, anchor, hApply, hSource, hWritten⟩
        · rw [hSame] at hHere
          exact Or.inl hHere
        · rw [hNone] at hHere
          cases hHere
        · rw [hWritten] at hHere
          injection hHere with hOld
          exact
            Or.inr
              ⟨found, List.mem_cons_self, before, anchor, rfl,
                hApply, hSource, hOld.symm⟩
      · have hSame :=
          decideOne_same host policy around hKey complete
            remaining state
        rw [hSame.observation] at hHere
        exact Or.inl hHere
    · exact
        Or.inr ⟨other, List.mem_cons_of_mem _ hOther, hNew⟩

/- What a collection adds, it has noted itself. -/
theorem collect_observation
    (round : Round)
    (state : State)
    (hRead :
      MetadataFile.readJson
          ((round.collect host
              state).state.files.observation key)
        = Except.ok old) :
    MetadataFile.readJson (state.files.observation key)
        = Except.ok old ∨
      Noted host round state key old := by
  have hEntries :
      ∀ results opened,
        (∀ key, SameAt key opened state) →
        MetadataFile.readJson
            ((collectEntries host round.policy round.around
                results opened).state.files.observation key)
          = Except.ok old →
        MetadataFile.readJson (state.files.observation key)
            = Except.ok old ∨
          Noted host round state key old := by
    intro results opened hSame hRead
    unfold collectEntries at hRead
    split at hRead
    · rw [(hSame key).observation] at hRead
      exact Or.inl hRead
    · rw [(hSame key).observation] at hRead
      exact Or.inl hRead
    · rename_i listing _
      rcases
          decideAll_observation host round.policy round.around _
            _ _ hRead with
        hBefore |
          ⟨found, hFound, before, anchor, hKey, hApply, hSource,
            hOld⟩
      · rw [inspectAll_observation, (hSame key).observation]
          at hBefore
        exact Or.inl hBefore
      · have hMem :
            found ∈
              (inspectAll host round.policy round.around opened
                listing.names).candidates :=
          (List.perm_insertionSort _ _).mem_iff.mp hFound
        have hInspected :=
          (inspectAll_same host round.policy round.around
            listing opened hMem).1
        rw [(hSame _).inspected host round.policy round.around,
          hKey] at hInspected
        refine
          Or.inr
            ⟨hApply, found, anchor,
              (inspected_eq_some host round.policy
                round.around).mp hInspected,
              hSource, ?_⟩
        rw [hOld]
        exact
          ⟨rfl, rfl, rfl, rfl, le_max_left round.policy.graceMs _⟩
  unfold Round.collect CacheGc.collect at hRead
  split at hRead
  · exact Or.inl hRead
  · split at hRead
    · exact Or.inl hRead
    · exact Or.inl hRead
    · split at hRead
      · split at hRead
        · exact Or.inl hRead
        · exact Or.inl hRead
        · exact Or.inl hRead
        · exact
            hEntries _ (.present StateFiles.none)
              (fun key => ⟨rfl, rfl, rfl⟩) hRead
        · exact
            hEntries _ _ (fun key => SameAt.refl key _) hRead
      · exact hEntries _ _ (fun key => SameAt.refl key _) hRead

/- Nothing under `.gc-state` reads as an observation. -/
def Unobserved (state : State) : Prop :=
  ∀ key old,
    MetadataFile.readJson (state.files.observation key)
      ≠ Except.ok old

/- Each observation goes back to the round that noted it. -/
theorem observed_before
    {start : State}
    (hStart : Unobserved start)
    {rounds : List Round}
    (hRead :
      MetadataFile.readJson
          ((stateAfter host start rounds).files.observation
            key)
        = Except.ok old) :
    ∃ before noted between,
      rounds = before ++ noted :: between ∧
        Noted host noted (stateAfter host start before) key
          old := by
  induction rounds using List.reverseRecOn with
  | nil => exact absurd hRead (hStart key old)
  | append_singleton rounds round ih =>
    rw [stateAfter_append] at hRead
    rcases collect_observation host round _ hRead with
      hEarlier | hNoted
    · rcases ih hEarlier with
        ⟨before, noted, between, rfl, hNoted⟩
      exact ⟨before, noted, between ++ [round], by simp, hNoted⟩
    · exact ⟨rounds, round, [], rfl, hNoted⟩

end Origins

----------
-- Safety and Honesty
----------

/- Less is freed before an earlier decision. -/
theorem freed_before_le
    {before earlier later : List Decision}
    {other : Decision}
    (hSplit : before = earlier ++ other :: later) :
    (earlier.map (·.freed)).sum
      ≤ (before.map (·.freed)).sum := by
  rw [hSplit, List.map_append, List.sum_append]
  exact Nat.le_add_right _ _

/-
  An entry that the budget makes a collection take away was
  preceded by all entries with a source that were used longer
  ago, and the budget let these go as well.
-/
theorem collect_budget
    {host : Host}
    {policy : Policy}
    {around : Surroundings}
    {state : State}
    {before after : List Decision}
    {decision : Decision}
    (hSplit :
      (collect host policy around state).decisions
        = before ++ decision :: after)
    (hMoved : decision.moved = true)
    (hSource : decision.candidate.source = .present)
    {most : Nat}
    (hMost : policy.maxBytes = some most) :
    ∃ report,
      (collect host policy around state).report
          = Except.ok report ∧
        report.Complete policy ∧
        most
          < report.observedBytes
            - (before.map (·.freed)).sum ∧
        ∀ other ∈
            (collect host policy around state).decisions,
          other.candidate.source = .present →
          other.candidate.lastUsed.getD 0
            < decision.candidate.lastUsed.getD 0 →
          ∃ earlier later,
            before = earlier ++ other :: later ∧
              most
                < report.observedBytes
                  - (earlier.map (·.freed)).sum := by
  rcases collect_justified host policy around hSplit hMoved with
    ⟨report, hReport, hJustified⟩
  have hCollectable := hJustified.collectable
  unfold Collectable at hCollectable
  rw [hSource] at hCollectable
  rcases hCollectable.budget most hMost with
    ⟨hComplete, hBudget⟩
  refine ⟨report, hReport, hComplete, hBudget, ?_⟩
  intro other hOther hOtherSource hOlder
  rcases
      collect_oldest host policy around hSplit hSource hOther
        hOtherSource hOlder with
    ⟨earlier, later, hBefore⟩
  refine ⟨earlier, later, hBefore, ?_⟩
  exact
    lt_of_lt_of_le hBudget
      (Nat.sub_le_sub_left (freed_before_le hBefore) _)

/- A preview and an application name the same entries. -/
def Honest
    (host : Host)
    (policy : Policy)
    (around : Surroundings)
    (state : State) : Prop :=
  ∀ key,
    (Reported "eligible"
        (collect host policy.preview around state) key ↔
      Reported "removed"
        (collect host policy.applied around state) key) ∧
      (Moved (collect host policy.applied around state) key ↔
        Reported "removed"
          (collect host policy.applied around state) key)

/- What one collection moves away, in the order it does. -/
structure Safe
    (host : Host)
    (policy : Policy)
    (around : Surroundings)
    (state : State) : Prop where
  justified :
    ∀ before decision after,
      (collect host policy around state).decisions
          = before ++ decision :: after →
      decision.moved = true →
        ∃ report,
          (collect host policy around state).report
              = Except.ok report ∧
            Justified host policy around state
              (report.Complete policy)
              (report.observedBytes
                - (before.map (·.freed)).sum)
              decision.candidate
  oldest :
    ∀ before decision after most,
      (collect host policy around state).decisions
          = before ++ decision :: after →
      decision.moved = true →
      decision.candidate.source = .present →
      policy.maxBytes = some most →
        ∃ report,
          (collect host policy around state).report
              = Except.ok report ∧
            report.Complete policy ∧
            most
              < report.observedBytes
                - (before.map (·.freed)).sum ∧
            ∀ other ∈
                (collect host policy around state).decisions,
              other.candidate.source = .present →
              other.candidate.lastUsed.getD 0
                < decision.candidate.lastUsed.getD 0 →
              ∃ earlier later,
                before = earlier ++ other :: later ∧
                  most
                    < report.observedBytes
                      - (earlier.map (·.freed)).sum

/- Entries without a source go when a round noted that. -/
def Traced
    (host : Host)
    (start : State)
    (rounds : List Round)
    (round : Round) : Prop :=
  ∀ before decision after anchor,
    (round.collect host
        (stateAfter host start rounds)).decisions
      = before ++ decision :: after →
    decision.moved = true →
    decision.candidate.source = .missing anchor →
      ∃ old earlier noted between,
        rounds = earlier ++ noted :: between ∧
          Noted host noted (stateAfter host start earlier)
            decision.candidate.entry.key old ∧
          Confirms round.policy
            (round.around.clock decision.candidate.entry.key)
            anchor decision.candidate old

theorem collections_traced
    {host : Host}
    {start : State}
    (hStart : Unobserved start)
    (rounds : List Round)
    (round : Round) :
    Traced host start rounds round := by
  intro before decision after anchor hSplit hMoved hSource
  rcases
      collect_justified host round.policy round.around hSplit
        hMoved with
    ⟨_, _, hJustified⟩
  have hCollectable := hJustified.collectable
  unfold Collectable at hCollectable
  rw [hSource] at hCollectable
  rcases hCollectable with ⟨old, hRead, hConfirms⟩
  rcases observed_before host hStart hRead with
    ⟨earlier, noted, between, hRounds, hNoted⟩
  exact ⟨old, earlier, noted, between, hRounds, hNoted, hConfirms⟩

/-
  A preview names what an application removes, as long as
  nothing fails or changes and the files that only an
  application writes are in order.  In every collection, and
  whatever happens around it, what is moved away is justified;
  a budget takes the entries away that were used longest ago,
  no more of them than it needs, and on a complete inventory
  only.  The observation that lets an entry without a source
  go was noted by an earlier collection.
-/
theorem collections_safe_and_honest (host : Host) :
    (∀ policy around state,
      Quiet around →
      Kept host policy around state →
        Honest host policy around state) ∧
      (∀ policy around state,
        Safe host policy around state) ∧
      ∀ start rounds round,
        Unobserved start →
          Traced host start rounds round := by
  refine ⟨?_, ?_, ?_⟩
  · intro policy around state hQuiet hKept key
    exact preview_honest hQuiet hKept key
  · intro policy around state
    constructor
    · intro before decision after hSplit hMoved
      exact collect_justified host policy around hSplit hMoved
    · intro before decision after most hSplit hMoved hSource
        hMost
      exact collect_budget hSplit hMoved hSource hMost
  · intro start rounds round hStart
    exact collections_traced hStart rounds round

----------
-- A Linked Observation
----------

/- A key of 64 digits. -/
def someKey : String :=
  "0000000000000000000000000000000000000000000000000000000000000000"

def someHost : Host where
  key := fun _ => someKey
  root := fun _ => some "/work"

/- A cache of one entry, last used at time 1000. -/
def oneEntry (source : Source) : Surroundings where
  cache := .present ()
  runLock := .absent
  trash := .absent
  trashResults := []
  workspaces := .present ⟨[someKey], by decide⟩
  evidence := fun _ _ =>
    { access := .absent
      leases := .absent
      snapshot :=
        Except.ok [⟨"cache-use.json", 80, 1, "1:1"⟩]
      useFile :=
        some (.plain (Except.ok ⟨1, "file:///work", 1000⟩))
      identity := fun _ => Except.ok "file:///work"
      prove := fun _ _ => Except.ok source
      databases := Except.ok () }
  clock := fun _ => ⟨9000, 9000, 9000, 9000, 9000, 9000⟩
  io := fun _ =>
    { moved :=
        Except.ok [⟨"cache-use.json", 80, 1, "1:1"⟩] }

theorem quiet_oneEntry (source : Source) :
    Quiet (oneEntry source) := by
  constructor
  · exact fun _ _ => rfl
  · intro hHeld
    cases hHeld
  · exact fun _ => rfl
  · exact fun _ => rfl
  · exact fun _ => rfl
  · exact fun _ => rfl
  · exact fun _ => rfl

/- An observation file that has a second name. -/
def linkedState : State :=
  .present
    { observation := fun _ => some .linked
      active := fun _ => none }

def goneAnchor : Anchor :=
  ⟨"/tmp", "1:2"⟩

/- An observation of a missing source, made at time 2000. -/
def observedState : State :=
  .present
    { observation := fun _ =>
        some
          (.plain
            (Except.ok
              ⟨1, "file:///work", 2000, goneAnchor,
                [⟨"cache-use.json", 80, 1, "1:1"⟩], false,
                0⟩))
      active := fun _ => none }

def shortPolicy : Policy :=
  { graceMs := 1000, idleMs := 1000, maxBytes := some 10 }

def largePolicy : Policy :=
  { shortPolicy with maxBytes := some 1000000 }

/-
  A preview calls an entry eligible although its observation
  cannot be withdrawn, which an application would insist on.
  And an entry without a source goes whatever the budget is.
-/
theorem collections_linked_or_missing :
    Quiet (oneEntry .present) ∧
      ¬ Honest someHost shortPolicy (oneEntry .present)
        linkedState ∧
      ∃ decision ∈
          (collect someHost largePolicy.applied
            (oneEntry (.missing goneAnchor))
            observedState).decisions,
        decision.moved = true ∧
          largePolicy.maxBytes.any
              (fun most => decide (decision.remaining ≤ most))
            = true := by
  refine ⟨quiet_oneEntry .present, ?_, ?_⟩
  · intro hHonest
    have hEligible :
        Reported "eligible"
          (collect someHost shortPolicy.preview
            (oneEntry .present) linkedState) someKey := by
      decide +kernel
    have hKept :
        ¬ Reported "removed"
          (collect someHost shortPolicy.applied
            (oneEntry .present) linkedState) someKey := by
      decide +kernel
    exact hKept ((hHonest someKey).1.mp hEligible)
  · decide +kernel

theorem kept_oneEntry (source : Source) :
    Kept someHost shortPolicy (oneEntry source) .absent where
  lock := by
    intro error hFaulty
    cases hFaulty
  files := rfl
  trash := rfl
  observations := by
    intro key found _ _
    exact ⟨nofun, nofun⟩

/- Without a linked file, both name the idle entry. -/
theorem collections_safe_sample :
    let around := oneEntry .present
    let gone := oneEntry (.missing goneAnchor)
    Reported "eligible"
        (collect someHost shortPolicy.preview around .absent)
        someKey ∧
      Honest someHost shortPolicy around .absent ∧
      Safe someHost shortPolicy.applied around .absent ∧
      Traced someHost .absent [⟨shortPolicy.applied, gone⟩]
        ⟨shortPolicy.applied, gone⟩ := by
  rcases collections_safe_and_honest someHost with
    ⟨hHonest, hSafe, hTraced⟩
  exact
    ⟨by decide +kernel,
      hHonest _ _ _ (quiet_oneEntry _) (kept_oneEntry _),
      hSafe _ _ _,
      hTraced _ _ _ nofun⟩

end CacheGc

end ArktsServer
