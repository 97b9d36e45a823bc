import ArktsServer.Lib.Transition
import ArktsServer.Semantic.ContextCoordinator

/-
  What the coordinator of the resident contexts maintains
  over all calls: it counts the leases right, its pools stay
  within their limits, a context in use is spared until the
  shutdown, and no context is disposed twice.

  Key definitions include:
    * `Touches`, `Consistent`, `Spared`
    * `Residency`, `CallSafe`

  Correctness is proven by:
    * `Consistent.perform`
    * `residency_maintained`
-/

----------
-- What Is Maintained
----------

namespace ArktsServer

namespace Semantic

variable {Context : Type}

/- A call of `trim` or of `dispose` on a context. -/
def Touches (effect : ContextEffect) (sequence : Nat) : Prop :=
  ∃ returned,
    effect = .trim sequence returned ∨
      effect = .dispose sequence returned

/- After a disposal that returned, a context is left alone. -/
def Settles (earlier later : ContextEffect) : Prop :=
  ∀ sequence,
    earlier = .dispose sequence true →
      ¬ Touches later sequence

/- The pool that an id belongs to has room for one more. -/
def HasRoom
    (options : CoordinatorOptions)
    (contextId : String)
    (state : SemanticCoordinator Context) : Prop :=
  ∀ limit ∈ options.maxResidentContexts,
    (pool options (options.isScanContext contextId)
        state).length <
      poolLimit limit (options.isScanContext contextId)

structure Consistent
    (options : CoordinatorOptions)
    (state : SemanticCoordinator Context) : Prop where
  sequenceBound :
    ∀ id resident,
      state.contexts.get id = some resident →
        resident.sequence ≤ state.creationClock
  sequenceApart :
    ∀ id resident other second,
      state.contexts.get id = some resident →
      state.contexts.get other = some second →
      resident.sequence = second.sequence → id = other
  leaseBound :
    ∀ lease ∈ state.leases,
      lease.sequence ≤ state.creationClock
  leaseHome :
    ∀ lease ∈ state.leases, ∀ id resident,
      state.contexts.get id = some resident →
      lease.sequence = resident.sequence →
        lease.contextId = id
  leaseCount :
    ∀ id resident,
      state.contexts.get id = some resident →
        resident.leaseCount =
          state.unreleased resident.sequence
  disposedBound :
    ∀ sequence,
      ContextEffect.dispose sequence true ∈ state.effects →
        sequence ≤ state.creationClock
  disposedGone :
    ∀ sequence,
      ContextEffect.dispose sequence true ∈ state.effects →
      ∀ id resident,
        state.contexts.get id = some resident →
          resident.sequence ≠ sequence
  settled : state.effects.Pairwise Settles
  pools :
    ∀ limit ∈ options.maxResidentContexts, ∀ scan,
      (pool options scan state).length
        ≤ poolLimit limit scan

/- Only contexts without a lease have been touched since. -/
def Spared (start state : SemanticCoordinator Context) :
    Prop :=
  ∃ effects,
    state.effects = start.effects ++ effects ∧
      ∀ effect ∈ effects, ∀ sequence,
        Touches effect sequence →
          start.unreleased sequence = 0

theorem Spared.refl (state : SemanticCoordinator Context) :
    Spared state state :=
  ⟨[], (List.append_nil _).symm,
    fun _ hEffect => by cases hEffect⟩

variable {effect : ContextEffect}

theorem Spared.log
    {start state : SemanticCoordinator Context}
    (hSpared : Spared start state)
    (hFree :
      ∀ sequence, Touches effect sequence →
        start.unreleased sequence = 0) :
    Spared start (state.log effect) := by
  rcases hSpared with ⟨effects, hEffects, hAll⟩
  refine ⟨effects ++ [effect], ?_, ?_⟩
  · change state.effects ++ [effect] = _
    rw [hEffects, List.append_assoc]
  · intro other hOther
    rcases List.mem_append.mp hOther with hOld | hNew
    · exact hAll other hOld
    · rw [List.mem_singleton.mp hNew]
      exact hFree

theorem not_touches_observe
    {notice : LifecycleNotice}
    {sequence : Nat} :
    ¬ Touches (.observe notice) sequence := by
  rintro ⟨returned, hTrim | hDispose⟩
  · cases hTrim
  · cases hDispose

variable {sequence other : Nat}

theorem touches_dispose
    {returned : Bool} :
    Touches (.dispose sequence returned) other ↔
      other = sequence := by
  constructor
  · rintro ⟨_, hTrim | hDispose⟩
    · cases hTrim
    · injection hDispose with hSame
      exact hSame.symm
  · rintro rfl
    exact ⟨returned, Or.inr rfl⟩

theorem touches_trim
    {returned : Bool} :
    Touches (.trim sequence returned) other ↔
      other = sequence := by
  constructor
  · rintro ⟨_, hTrim | hDispose⟩
    · injection hTrim with hSame
      exact hSame.symm
    · cases hDispose
  · rintro rfl
    exact ⟨returned, Or.inl rfl⟩

----------
-- Counting Leases
----------

variable {state next : SemanticCoordinator Context}

theorem unreleased_append
    {lease : SemanticContextLease Context}
    (hLeases : next.leases = state.leases ++ [lease])
    (hOpen : lease.released = false)
    (sequence : Nat) :
    next.unreleased sequence =
      state.unreleased sequence +
        if lease.sequence = sequence then 1 else 0 := by
  unfold SemanticCoordinator.unreleased
  rw [hLeases, List.countP_append, List.countP_singleton]
  by_cases hSame : lease.sequence = sequence
  · simp [hSame, hOpen]
  · simp [hSame]

/- To release an open lease counts it out. -/
theorem unreleased_release
    {index : Nat}
    {lease : SemanticContextLease Context}
    (hLease : state.leases[index]? = some lease)
    (hOpen : lease.released = false)
    (hLeases :
      next.leases =
        state.leases.set index
          { lease with released := true })
    (sequence : Nat) :
    next.unreleased sequence =
      state.unreleased sequence -
        if lease.sequence = sequence then 1 else 0 := by
  rcases List.getElem?_eq_some_iff.mp hLease with
    ⟨hIndex, hElement⟩
  unfold SemanticCoordinator.unreleased
  rw [hLeases, List.countP_set hIndex, hElement]
  by_cases hSame : lease.sequence = sequence
  · simp [hSame, hOpen]
  · simp [hSame]

----------
-- Steps
----------

section Steps

variable {options : CoordinatorOptions}
variable {state : SemanticCoordinator Context}

theorem consistent_new :
    Consistent options
      (SemanticCoordinator.new : SemanticCoordinator Context)
    where
  sequenceBound _ _ hGet := by cases hGet
  sequenceApart _ _ _ _ hGet := by cases hGet
  leaseBound _ hLease := by cases hLease
  leaseHome _ hLease := by cases hLease
  leaseCount _ _ hGet := by cases hGet
  disposedBound _ hEffect := by cases hEffect
  disposedGone _ hEffect := by cases hEffect
  settled := List.Pairwise.nil
  pools _ _ _ := Nat.zero_le _

/- An effect that disposes nothing for good. -/
theorem Consistent.log
    (hConsistent : Consistent options state)
    (hOpen : ∀ sequence, effect ≠ .dispose sequence true)
    (hResident :
      ∀ sequence, Touches effect sequence →
        ∃ id resident,
          state.contexts.get id = some resident ∧
            resident.sequence = sequence) :
    Consistent options (state.log effect) := by
  have hOld :
      ∀ sequence,
        ContextEffect.dispose sequence true
            ∈ (state.log effect).effects →
          ContextEffect.dispose sequence true
            ∈ state.effects := by
    intro sequence hEffect
    rcases List.mem_append.mp hEffect with hOld | hNew
    · exact hOld
    · exact
        absurd (List.mem_singleton.mp hNew).symm (hOpen sequence)
  constructor
  · exact hConsistent.sequenceBound
  · exact hConsistent.sequenceApart
  · exact hConsistent.leaseBound
  · exact hConsistent.leaseHome
  · exact hConsistent.leaseCount
  · exact fun sequence hEffect =>
      hConsistent.disposedBound sequence (hOld sequence hEffect)
  · exact fun sequence hEffect =>
      hConsistent.disposedGone sequence (hOld sequence hEffect)
  · refine
      List.pairwise_append.mpr
        ⟨hConsistent.settled, List.pairwise_singleton _ _, ?_⟩
    intro earlier hEarlier later hLater sequence hDispose hTouches
    rw [List.mem_singleton.mp hLater] at hTouches
    subst hDispose
    rcases hResident sequence hTouches with
      ⟨id, resident, hGet, hSequence⟩
    exact
      hConsistent.disposedGone sequence hEarlier id resident
        hGet hSequence
  · exact hConsistent.pools

theorem Consistent.observe
    (hConsistent : Consistent options state)
    (notice : LifecycleNotice) :
    Consistent options (state.log (.observe notice)) :=
  hConsistent.log (fun _ => ContextEffect.noConfusion)
    fun _ hTouches => absurd hTouches not_touches_observe

/- Deleting an entry takes it out of its pool. -/
theorem pool_drop
    (scan : Bool)
    (id : String) :
    pool options scan (state.drop id) =
      (pool options scan state).filter (· ≠ id) := by
  unfold pool SemanticCoordinator.drop
  rw [OrderedMap.keys_delete, List.filter_filter,
    List.filter_filter]
  congr 1
  funext key
  exact Bool.and_comm _ _

variable {resident : ResidentContext Context}
variable {id : String}

/- A context is disposed for good, and leaves the map. -/
theorem Consistent.dispose
    (hConsistent : Consistent options state)
    (hGet : state.contexts.get id = some resident) :
    Consistent options
      ((state.log (.dispose resident.sequence true)).drop
        id) := by
  have hStays :
      ∀ other second,
        (state.contexts.delete id).get other = some second →
          other ≠ id ∧
            state.contexts.get other = some second := by
    intro other second hOther
    rw [OrderedMap.get_delete] at hOther
    by_cases hSame : other = id
    · rw [if_pos hSame] at hOther
      cases hOther
    · rw [if_neg hSame] at hOther
      exact ⟨hSame, hOther⟩
  constructor
  · intro other second hOther
    exact
      hConsistent.sequenceBound other second
        (hStays other second hOther).2
  · intro first one second two hFirst hSecond
    exact
      hConsistent.sequenceApart first one second two
        (hStays first one hFirst).2
        (hStays second two hSecond).2
  · exact hConsistent.leaseBound
  · intro lease hLease other second hOther
    exact
      hConsistent.leaseHome lease hLease other second
        (hStays other second hOther).2
  · intro other second hOther
    exact
      hConsistent.leaseCount other second
        (hStays other second hOther).2
  · intro sequence hEffect
    rcases List.mem_append.mp hEffect with hOld | hNew
    · exact hConsistent.disposedBound sequence hOld
    · injection List.mem_singleton.mp hNew with hSame
      rw [hSame]
      exact hConsistent.sequenceBound id resident hGet
  · intro sequence hEffect other second hOther hSame
    rcases hStays other second hOther with ⟨hNe, hBefore⟩
    rcases List.mem_append.mp hEffect with hOld | hNew
    · exact
        hConsistent.disposedGone sequence hOld other second
          hBefore hSame
    · injection List.mem_singleton.mp hNew with hSequence
      exact
        hNe
          (hConsistent.sequenceApart other second id resident
            hBefore hGet (hSame.trans hSequence))
  · refine
      List.pairwise_append.mpr
        ⟨hConsistent.settled, List.pairwise_singleton _ _, ?_⟩
    intro earlier hEarlier later hLater sequence hDispose hTouches
    rw [List.mem_singleton.mp hLater, touches_dispose] at hTouches
    subst hDispose
    exact
      hConsistent.disposedGone sequence hEarlier id resident
        hGet hTouches.symm
  · intro limit hLimit scan
    have hShorter :
        (pool options scan
            ((state.log
              (.dispose resident.sequence true)).drop
              id)).length ≤
          (pool options scan state).length := by
      rw [pool_drop]
      exact List.length_filter_le _ _
    exact hShorter.trans (hConsistent.pools limit hLimit scan)

/-
  Residents stay where they are and keep their numbers, and
  their counts are those of leases of residents.
-/
theorem Consistent.recount
    (hConsistent : Consistent options state)
    {next : SemanticCoordinator Context}
    (hResidents :
      ∀ id resident,
        next.contexts.get id = some resident →
          ∃ old,
            state.contexts.get id = some old ∧
              resident.sequence = old.sequence ∧
                resident.leaseCount =
                  next.unreleased old.sequence)
    (hKeys : next.contexts.keys = state.contexts.keys)
    (hClock : next.creationClock = state.creationClock)
    (hEffects : next.effects = state.effects)
    (hLeases :
      ∀ lease ∈ next.leases,
        (∃ old ∈ state.leases,
          lease.sequence = old.sequence ∧
            lease.contextId = old.contextId) ∨
          ∃ resident,
            state.contexts.get lease.contextId
                = some resident ∧
              lease.sequence = resident.sequence) :
    Consistent options next := by
  constructor
  · intro id resident hGet
    rcases hResidents id resident hGet with
      ⟨old, hOld, hSame, _⟩
    rw [hSame, hClock]
    exact hConsistent.sequenceBound id old hOld
  · intro first one second two hFirst hSecond hEqual
    rcases hResidents first one hFirst with
      ⟨old, hOld, hOne, _⟩
    rcases hResidents second two hSecond with
      ⟨past, hPast, hTwo, _⟩
    rw [hOne, hTwo] at hEqual
    exact
      hConsistent.sequenceApart first old second past hOld
        hPast hEqual
  · intro lease hLease
    rw [hClock]
    rcases hLeases lease hLease with
      ⟨old, hOld, hSame, _⟩ | ⟨resident, hGet, hSame⟩
    · rw [hSame]
      exact hConsistent.leaseBound old hOld
    · rw [hSame]
      exact hConsistent.sequenceBound _ resident hGet
  · intro lease hLease id resident hGet hEqual
    rcases hResidents id resident hGet with
      ⟨past, hPast, hSequence, _⟩
    rw [hSequence] at hEqual
    rcases hLeases lease hLease with
      ⟨old, hOld, hSame, hId⟩ | ⟨home, hHome, hSame⟩
    · rw [hSame] at hEqual
      rw [hId]
      exact hConsistent.leaseHome old hOld id past hPast hEqual
    · rw [hSame] at hEqual
      exact
        hConsistent.sequenceApart _ home id past hHome hPast
          hEqual
  · intro id resident hGet
    rcases hResidents id resident hGet with
      ⟨_, _, hSame, hCount⟩
    rw [hSame]
    exact hCount
  · rw [hEffects, hClock]
    exact hConsistent.disposedBound
  · rw [hEffects]
    intro sequence hEffect id resident hGet
    rcases hResidents id resident hGet with
      ⟨old, hOld, hSame, _⟩
    rw [hSame]
    exact hConsistent.disposedGone sequence hEffect id old hOld
  · rw [hEffects]
    exact hConsistent.settled
  · intro limit hLimit scan
    unfold pool
    rw [hKeys]
    exact hConsistent.pools limit hLimit scan

/- A resident changes in what nothing here depends on. -/
theorem Consistent.put
    (hConsistent : Consistent options state)
    {resident changed : ResidentContext Context}
    (hGet : state.contexts.get id = some resident)
    (hSequence : changed.sequence = resident.sequence)
    (hCount : changed.leaseCount = resident.leaseCount) :
    Consistent options (state.put id changed) := by
  refine
    hConsistent.recount ?_
      (OrderedMap.keys_set_of_some hGet changed) rfl rfl
      fun lease hLease => Or.inl ⟨lease, hLease, rfl, rfl⟩
  intro other second hOther
  change
    (state.contexts.set id changed).get other = some second
      at hOther
  rw [OrderedMap.get_set] at hOther
  by_cases hSame : other = id
  · subst hSame
    rw [if_pos rfl] at hOther
    injection hOther with hOther
    subst hOther
    refine ⟨resident, hGet, hSequence, ?_⟩
    rw [hCount]
    exact hConsistent.leaseCount other resident hGet
  · rw [if_neg hSame] at hOther
    exact
      ⟨second, hOther, rfl,
        hConsistent.leaseCount other second hOther⟩

/- A lease goes out with the count of its resident. -/
theorem Consistent.lease
    (hConsistent : Consistent options state)
    (hGet : state.contexts.get id = some resident)
    (promoteRecency : Bool) :
    Consistent options
      (leaseOut id resident promoteRecency state) := by
  have hCount :
      ∀ sequence,
        (leaseOut id resident promoteRecency
            state).unreleased sequence =
          state.unreleased sequence +
            if resident.sequence = sequence then 1 else 0 := by
    intro sequence
    exact
      @unreleased_append Context state
        (leaseOut id resident promoteRecency state)
        ⟨id, resident.context, resident.sequence, false⟩ rfl
        rfl sequence
  refine
    hConsistent.recount ?_
      (OrderedMap.keys_set_of_some hGet _) rfl rfl ?_
  · intro other second hOther
    unfold leaseOut at hOther
    dsimp only at hOther
    rw [OrderedMap.get_set] at hOther
    by_cases hSame : other = id
    · subst hSame
      rw [if_pos rfl] at hOther
      injection hOther with hOther
      subst hOther
      refine ⟨resident, hGet, rfl, ?_⟩
      rw [hCount, if_pos rfl,
        ← hConsistent.leaseCount other resident hGet]
    · rw [if_neg hSame] at hOther
      refine ⟨second, hOther, rfl, ?_⟩
      rw [hCount, if_neg, Nat.add_zero]
      · exact hConsistent.leaseCount other second hOther
      · intro hEqual
        exact
          hSame
            (hConsistent.sequenceApart id resident other
              second hGet hOther hEqual).symm
  · intro lease hLease
    rcases List.mem_append.mp hLease with hOld | hNew
    · exact Or.inl ⟨lease, hOld, rfl, rfl⟩
    · rw [List.mem_singleton.mp hNew]
      exact Or.inr ⟨resident, hGet, rfl⟩

/- A context that is new comes with a number of its own. -/
theorem Consistent.admitContext
    (hConsistent : Consistent options state)
    (hNone : state.contexts.get id = none)
    (hRoom : HasRoom options id state)
    (context : Context) :
    Consistent options (admitContext id context state) := by
  have hBefore :
      ∀ other second,
        (Semantic.admitContext id context
            state).contexts.get other = some second →
          (other = id ∧
              second =
                newResident context (state.creationClock + 1)) ∨
            state.contexts.get other = some second := by
    intro other second hOther
    unfold Semantic.admitContext at hOther
    dsimp only at hOther
    rw [OrderedMap.get_set] at hOther
    by_cases hSame : other = id
    · rw [if_pos hSame] at hOther
      injection hOther with hOther
      exact Or.inl ⟨hSame, hOther.symm⟩
    · rw [if_neg hSame] at hOther
      exact Or.inr hOther
  have hFresh :
      ∀ {sequence}, sequence ≤ state.creationClock →
        state.creationClock + 1 ≠ sequence :=
    fun hBound =>
      Nat.ne_of_gt (Nat.lt_succ_of_le hBound)
  constructor
  · intro other second hOther
    rcases hBefore other second hOther with ⟨_, rfl⟩ | hOld
    · exact Nat.le_refl _
    · exact
        Nat.le_succ_of_le
          (hConsistent.sequenceBound other second hOld)
  · intro first one second two hFirst hSecond hEqual
    rcases hBefore first one hFirst with ⟨rfl, rfl⟩ | hOne
    · rcases hBefore second two hSecond with ⟨rfl, _⟩ | hTwo
      · rfl
      · exact
          absurd hEqual
            (hFresh (hConsistent.sequenceBound second two hTwo))
    · rcases hBefore second two hSecond with ⟨rfl, rfl⟩ | hTwo
      · exact
          absurd hEqual.symm
            (hFresh (hConsistent.sequenceBound first one hOne))
      · exact
          hConsistent.sequenceApart first one second two hOne
            hTwo hEqual
  · intro lease hLease
    exact Nat.le_succ_of_le (hConsistent.leaseBound lease hLease)
  · intro lease hLease other second hOther hEqual
    rcases hBefore other second hOther with ⟨_, rfl⟩ | hOld
    · exact
        absurd hEqual.symm
          (hFresh (hConsistent.leaseBound lease hLease))
    · exact
        hConsistent.leaseHome lease hLease other second hOld
          hEqual
  · intro other second hOther
    rcases hBefore other second hOther with ⟨_, rfl⟩ | hOld
    · refine (List.countP_eq_zero.mpr ?_).symm
      intro lease hLease hCounted
      rw [Bool.and_eq_true, beq_iff_eq] at hCounted
      exact
        hFresh (hConsistent.leaseBound lease hLease)
          hCounted.1.symm
    · exact hConsistent.leaseCount other second hOld
  · intro sequence hEffect
    exact
      Nat.le_succ_of_le
        (hConsistent.disposedBound sequence hEffect)
  · intro sequence hEffect other second hOther
    rcases hBefore other second hOther with ⟨_, rfl⟩ | hOld
    · exact hFresh (hConsistent.disposedBound sequence hEffect)
    · exact
        hConsistent.disposedGone sequence hEffect other second
          hOld
  · exact hConsistent.settled
  · intro limit hLimit scan
    have hPool :
        pool options scan
            (Semantic.admitContext id context state) =
          pool options scan state
            ++ [id].filter (inPool options scan) := by
      unfold pool Semantic.admitContext
      dsimp only
      rw [OrderedMap.keys_set_of_none hNone, List.filter_append]
    rw [hPool, List.length_append]
    by_cases hScan : options.isScanContext id = scan
    · subst hScan
      have hOne :
          ([id].filter
            (inPool options
              (options.isScanContext id))).length ≤ 1 :=
        List.length_filter_le _ _
      have hLess := hRoom limit hLimit
      omega
    · have hNil :
          [id].filter (inPool options scan) = [] := by
        refine List.filter_cons_of_neg ?_
        simp [inPool, hScan]
      rw [hNil]
      exact hConsistent.pools limit hLimit scan

/- What a release makes of the residents. -/
theorem get_releaseResident
    {lease : SemanticContextLease Context}
    {contexts :
      OrderedMap String (ResidentContext Context)}
    (hGet :
      (releaseResident lease contexts).get id
        = some resident) :
    ∃ old,
      contexts.get id = some old ∧
        resident.sequence = old.sequence ∧
          resident.leaseCount =
            old.leaseCount -
              if id = lease.contextId ∧
                  old.sequence = lease.sequence then 1
              else 0 := by
  unfold releaseResident at hGet
  cases hCurrent : contexts.get lease.contextId with
  | none =>
    simp only [hCurrent] at hGet
    refine ⟨resident, hGet, rfl, ?_⟩
    rw [if_neg]
    · rfl
    · rintro ⟨rfl, _⟩
      rw [hGet] at hCurrent
      cases hCurrent
  | some current =>
    simp only [hCurrent] at hGet
    split at hGet
    · rename_i hIdle
      refine ⟨resident, hGet, rfl, ?_⟩
      by_cases hHit :
        id = lease.contextId ∧ resident.sequence = lease.sequence
      · rcases hHit with ⟨rfl, hSequence⟩
        rw [hGet] at hCurrent
        injection hCurrent with hCurrent
        subst hCurrent
        rcases hIdle with hOther | hZero
        · exact absurd hSequence hOther
        · rw [hZero, Nat.zero_sub]
      · rw [if_neg hHit]
        rfl
    · rename_i hBusy
      rw [not_or, not_not] at hBusy
      rw [OrderedMap.get_set] at hGet
      by_cases hSame : id = lease.contextId
      · rw [if_pos hSame] at hGet
        injection hGet with hGet
        subst hGet
        refine ⟨current, hSame ▸ hCurrent, rfl, ?_⟩
        rw [if_pos ⟨hSame, hBusy.1⟩]
      · rw [if_neg hSame] at hGet
        refine ⟨resident, hGet, rfl, ?_⟩
        rw [if_neg fun hHit => hSame hHit.1]
        rfl

theorem keys_releaseResident
    (lease : SemanticContextLease Context)
    (contexts :
      OrderedMap String (ResidentContext Context)) :
    (releaseResident lease contexts).keys
      = contexts.keys := by
  unfold releaseResident
  cases hCurrent : contexts.get lease.contextId with
  | none => rfl
  | some current =>
    dsimp only
    split
    · rfl
    · exact OrderedMap.keys_set_of_some hCurrent _

/- A release counts its lease out, once. -/
theorem Consistent.release
    (hConsistent : Consistent options state)
    (index : Nat) :
    Consistent options (releaseLease index state) := by
  unfold releaseLease
  cases hLease : state.leases[index]? with
  | none => exact hConsistent
  | some lease =>
    dsimp only
    split
    · exact hConsistent
    · rename_i hOpen
      rw [Bool.not_eq_true] at hOpen
      have hMem : lease ∈ state.leases :=
        List.mem_of_getElem? hLease
      refine
        hConsistent.recount ?_
          (keys_releaseResident lease state.contexts) rfl
          rfl ?_
      · intro id resident hGet
        rcases get_releaseResident hGet with
          ⟨old, hOld, hSame, hCount⟩
        refine ⟨old, hOld, hSame, ?_⟩
        rw [unreleased_release hLease hOpen rfl, hCount,
          hConsistent.leaseCount id old hOld]
        have hHit :
            (id = lease.contextId ∧
                old.sequence = lease.sequence) ↔
              lease.sequence = old.sequence := by
          constructor
          · exact fun hBoth => hBoth.2.symm
          · intro hEqual
            exact
              ⟨(hConsistent.leaseHome lease hMem id old hOld
                  hEqual).symm, hEqual.symm⟩
        simp only [hHit]
      · intro other hOther
        rcases List.mem_or_eq_of_mem_set hOther with
          hOld | rfl
        · exact Or.inl ⟨other, hOld, rfl, rfl⟩
        · exact Or.inl ⟨lease, hMem, rfl, rfl⟩

end Steps

----------
-- Candidates
----------

section Computations

open Interruption

variable {options : CoordinatorOptions}
variable {start state : SemanticCoordinator Context}

/- Residents that can be evicted, each listed once. -/
structure Cold
    (state : SemanticCoordinator Context)
    (candidates : Candidates Context) : Prop where
  present :
    ∀ entry ∈ candidates,
      state.contexts.get entry.1 = some entry.2
  unleased : ∀ entry ∈ candidates, entry.2.leaseCount = 0
  distinct :
    candidates.Pairwise fun left right => left.1 ≠ right.1

theorem Cold.perm
    {candidates others : Candidates Context}
    (hCold : Cold state candidates)
    (hPerm : others.Perm candidates) : Cold state others where
  present entry hEntry :=
    hCold.present entry (hPerm.mem_iff.mp hEntry)
  unleased entry hEntry :=
    hCold.unleased entry (hPerm.mem_iff.mp hEntry)
  distinct :=
    (hPerm.pairwise_iff fun hNe => Ne.symm hNe).mpr hCold.distinct

variable {candidates : Candidates Context}

theorem Cold.filter
    (hCold : Cold state candidates)
    (keep : String × ResidentContext Context → Bool) :
    Cold state (candidates.filter keep) where
  present entry hEntry :=
    hCold.present entry (List.mem_filter.mp hEntry).1
  unleased entry hEntry :=
    hCold.unleased entry (List.mem_filter.mp hEntry).1
  distinct := hCold.distinct.filter keep

theorem cold_coldUnleasedContexts
    (options : CoordinatorOptions)
    (state : SemanticCoordinator Context) :
    Cold state (coldUnleasedContexts options state) := by
  have hFilter :
      Cold state
        (state.contexts.entries.filter fun entry =>
          entry.2.leaseCount == 0) := by
    constructor
    · intro entry hEntry
      exact
        OrderedMap.get_eq_some_iff.mpr
          (List.mem_filter.mp hEntry).1
    · intro entry hEntry
      simpa using (List.mem_filter.mp hEntry).2
    · exact state.contexts.distinct.filter _
  exact hFilter.perm (List.perm_insertionSort _ _)

theorem Cold.rank
    (hCold : Cold state candidates) :
    Cold state (rankByRebuildCost options candidates).1 := by
  unfold rankByRebuildCost
  split
  · exact hCold.perm (List.perm_insertionSort _ _)
  · exact hCold

----------
-- Evictions
----------

variable {outside : Surroundings Context}

/- A context throws and stays, or is disposed and leaves. -/
theorem evict_run
    (outside : Surroundings Context)
    (id : String)
    (resident : ResidentContext Context)
    (reason : String)
    (state : SemanticCoordinator Context) :
    evict outside id resident reason state =
        .error .thrown
          (state.log (.dispose resident.sequence false)) ∨
      ∃ notice,
        evict outside id resident reason state =
          .ok ()
            (((state.log
              (.dispose resident.sequence true)).drop id).log
              (.observe notice)) := by
  unfold evict callContext
  cases hThrows : outside.throws resident.sequence with
  | true => exact Or.inl rfl
  | false => exact Or.inr ⟨_, rfl⟩

/- What the calls since a start have left as it should be. -/
structure Since
    (options : CoordinatorOptions)
    (start state : SemanticCoordinator Context) : Prop where
  consistent : Consistent options state
  leases : state.leases = start.leases
  spared : Spared start state

theorem Since.refl
    (hConsistent : Consistent options start) :
    Since options start start :=
  ⟨hConsistent, rfl, Spared.refl start⟩

variable {resident : ResidentContext Context}
variable {id : String}

/- Nobody has a lease of a resident whose count is zero. -/
theorem Since.free
    (hSince : Since options start state)
    (hGet : state.contexts.get id = some resident)
    (hCold : resident.leaseCount = 0) :
    start.unreleased resident.sequence = 0 := by
  have hCount := hSince.consistent.leaseCount id resident hGet
  unfold SemanticCoordinator.unreleased at hCount ⊢
  rw [← hSince.leases, ← hCount]
  exact hCold

/- A context without a lease was called, and threw. -/
theorem Since.threw
    (hSince : Since options start state)
    (hGet : state.contexts.get id = some resident)
    (hCold : resident.leaseCount = 0)
    (hOpen : ∀ sequence, effect ≠ .dispose sequence true)
    (hTouches :
      ∀ sequence, Touches effect sequence →
        sequence = resident.sequence) :
    Since options start (state.log effect) where
  consistent :=
    hSince.consistent.log hOpen fun sequence hTouch =>
      ⟨id, resident, hGet, (hTouches sequence hTouch).symm⟩
  leases := hSince.leases
  spared :=
    hSince.spared.log fun sequence hTouch => by
      rw [hTouches sequence hTouch]
      exact hSince.free hGet hCold

theorem Since.observe
    (hSince : Since options start state)
    (notice : LifecycleNotice) :
    Since options start (state.log (.observe notice)) where
  consistent := hSince.consistent.observe notice
  leases := hSince.leases
  spared :=
    hSince.spared.log fun _ hTouches =>
      absurd hTouches not_touches_observe

theorem Since.dispose
    (hSince : Since options start state)
    (hGet : state.contexts.get id = some resident)
    (hCold : resident.leaseCount = 0) :
    Since options start
      ((state.log (.dispose resident.sequence true)).drop id)
    where
  consistent := hSince.consistent.dispose hGet
  leases := hSince.leases
  spared :=
    hSince.spared.log fun sequence hTouches => by
      rw [touches_dispose.mp hTouches]
      exact hSince.free hGet hCold

/- The entries that a loop has still to come to. -/
def Present
    (entries : Candidates Context)
    (state : SemanticCoordinator Context) : Prop :=
  ∀ entry ∈ entries,
    state.contexts.get entry.1 = some entry.2

variable {entry : String × ResidentContext Context}
variable {entries : Candidates Context}
variable {next : SemanticCoordinator Context}

/- What one entry becomes does not matter to the others. -/
theorem Present.others
    (hPresent : Present (entry :: entries) state)
    (hDistinct : ∀ other ∈ entries, entry.1 ≠ other.1)
    (hNext :
      ∀ id, id ≠ entry.1 →
        next.contexts.get id = state.contexts.get id) :
    Present entries next := by
  intro other hOther
  rw [hNext other.1 (Ne.symm (hDistinct other hOther))]
  exact hPresent other (List.mem_cons_of_mem _ hOther)

variable {id other : String}

theorem get_drop
    (hOther : other ≠ id) :
    (state.drop id).contexts.get other =
      state.contexts.get other :=
  (OrderedMap.get_delete _ _ _).trans (if_neg hOther)

theorem get_put
    (hOther : other ≠ id) :
    (state.put id resident).contexts.get other =
      state.contexts.get other :=
  (OrderedMap.get_set _ _ _ _).trans (if_neg hOther)

/- An eviction in a loop over candidates without leases. -/
theorem evict_since
    (hCold : entry.2.leaseCount = 0)
    (hDistinct : ∀ other ∈ entries, entry.1 ≠ other.1)
    (reason : String) :
    Meets
      (fun state =>
        Since options start state ∧
          Present (entry :: entries) state)
      (evict outside entry.1 entry.2 reason)
      (fun _ state =>
        Since options start state ∧ Present entries state)
      (Since options start) := by
  rintro state ⟨hSince, hPresent⟩
  have hGet := hPresent entry List.mem_cons_self
  rcases evict_run outside entry.1 entry.2 reason
      state with hRun | ⟨notice, hRun⟩
  · rw [hRun]
    exact
      hSince.threw hGet hCold (by simp)
        fun _ => touches_dispose.mp
  · rw [hRun]
    refine ⟨(hSince.dispose hGet hCold).observe notice, ?_⟩
    exact hPresent.others hDistinct fun _ hOther => get_drop hOther

/- An eviction on its own. -/
theorem evict_single
    (outside : Surroundings Context)
    (hCold : entry.2.leaseCount = 0)
    (reason : String) :
    Meets
      (fun state =>
        Since options start state ∧ Present [entry] state)
      (evict outside entry.1 entry.2 reason)
      (fun _ => Since options start)
      (Since options start) :=
  meets_weaken
    (evict_since hCold
      (fun _ hOther => absurd hOther List.not_mem_nil) reason)
    (fun _ hBefore => hBefore) (fun _ _ hAfter => hAfter.1)
    fun _ hBroken => hBroken

theorem trimResident_since
    (hCold : entry.2.leaseCount = 0)
    (hDistinct : ∀ other ∈ entries, entry.1 ≠ other.1) :
    Meets
      (fun state =>
        Since options start state ∧
          Present (entry :: entries) state)
      (trimResident outside entry.1 entry.2)
      (fun _ state =>
        Since options start state ∧ Present entries state)
      (Since options start) := by
  rintro state ⟨hSince, hPresent⟩
  have hGet := hPresent entry List.mem_cons_self
  unfold trimResident callContext
  by_cases hTrimmed : entry.2.trimmed = true
  · rw [if_pos hTrimmed]
    exact ⟨hSince, hPresent.others hDistinct fun _ _ => rfl⟩
  · rw [if_neg hTrimmed]
    have hLogged :
        ∀ returned,
          Since options start
            (state.log (.trim entry.2.sequence returned)) := by
      intro returned
      exact
        hSince.threw hGet hCold (by simp) fun _ => touches_trim.mp
    cases hThrows : outside.throws entry.2.sequence with
    | true => exact hLogged false
    | false =>
      have hSet :
          Since options start
            ((state.log
              (.trim entry.2.sequence true)).put entry.1
              { entry.2 with trimmed := true }) :=
        ⟨(hLogged true).consistent.put hGet rfl rfl,
          (hLogged true).leases, (hLogged true).spared⟩
      refine ⟨hSet.observe _, ?_⟩
      exact
        hPresent.others hDistinct fun _ hOther =>
          get_put hOther

theorem pressureLoop_since
    {level : MemoryLevel}
    (hCold :
      ∀ entry ∈ candidates, entry.2.leaseCount = 0)
    (hDistinct :
      candidates.Pairwise fun left right =>
        left.1 ≠ right.1)
    (count : Nat) :
    Meets
      (fun state =>
        Since options start state ∧ Present candidates state)
      (pressureLoop options outside level count candidates)
      (fun _ => Since options start)
      (Since options start) := by
  induction candidates generalizing count with
  | nil => exact meets_pure fun _ hBefore => hBefore.1
  | cons entry entries ih =>
    rcases List.pairwise_cons.mp hDistinct with
      ⟨hHead, hTail⟩
    have hEntry := hCold entry List.mem_cons_self
    have hLoop :=
      ih (fun other hOther =>
        hCold other (List.mem_cons_of_mem _ hOther)) hTail
    have hRelieve :
        Meets
          (fun state =>
            Since options start state ∧
              Present (entry :: entries) state)
          (relieve outside level entry)
          (fun _ state =>
            Since options start state ∧ Present entries state)
          (Since options start) :=
      meets_ite
        (fun _ => trimResident_since hEntry hHead)
        fun _ => evict_since hEntry hHead _
    unfold pressureLoop
    refine meets_bind hRelieve fun _ => ?_
    refine meets_ite (fun _ => ?_) fun _ => hLoop _
    cases outside.reading count with
    | none => exact meets_throw fun _ hBefore => hBefore.1
    | some reading =>
      exact
        meets_ite (fun _ => hLoop _) fun _ =>
          meets_pure fun _ hBefore => hBefore.1

theorem applyMemoryPressure_since
    (hStart : Consistent options start)
    (level : MemoryLevel) :
    Meets (· = start)
      (applyMemoryPressure options outside level)
      (fun _ => Since options start)
      (Since options start) := by
  rintro state rfl
  unfold applyMemoryPressure
  by_cases hLow : level = .level0 ∨ level = .level1
  · rw [if_pos hLow]
    exact Since.refl hStart
  · rw [if_neg hLow]
    have hCold :
        Cold state
          (if level = .level3 then
            (rankByRebuildCost options
              (coldUnleasedContexts options state)).1
          else coldUnleasedContexts options state) := by
      split
      · exact (cold_coldUnleasedContexts options state).rank
      · exact cold_coldUnleasedContexts options state
    exact
      pressureLoop_since hCold.unleased hCold.distinct 0 state
        ⟨Since.refl hStart, hCold.present⟩

/- The shutdown keeps everything but the leased contexts. -/
theorem evictAll_consistent
    (hDistinct :
      entries.Pairwise fun left right => left.1 ≠ right.1)
    (reason : String) :
    Meets
      (fun state =>
        Consistent options state ∧ Present entries state)
      (evictAll outside reason entries)
      (fun _ => Consistent options)
      (Consistent options) := by
  induction entries with
  | nil => exact meets_pure fun _ hBefore => hBefore.1
  | cons entry entries ih =>
    rcases List.pairwise_cons.mp hDistinct with
      ⟨hHead, hTail⟩
    unfold evictAll
    refine meets_bind ?_ fun _ => ih hTail
    rintro state ⟨hConsistent, hPresent⟩
    have hGet := hPresent entry List.mem_cons_self
    rcases evict_run outside entry.1 entry.2
        reason state with hRun | ⟨notice, hRun⟩
    · rw [hRun]
      refine hConsistent.log (by simp) fun sequence hTouches => ?_
      exact
        ⟨entry.1, entry.2, hGet,
          (touches_dispose.mp hTouches).symm⟩
    · rw [hRun]
      refine ⟨(hConsistent.dispose hGet).observe notice, ?_⟩
      exact
        hPresent.others hHead fun _ hOther =>
          get_drop hOther

theorem disposeAll_consistent
    (outside : Surroundings Context)
    (hStart : Consistent options start)
    (reason : String) :
    Meets (· = start) (disposeAll outside reason)
      (fun _ => Consistent options)
      (Consistent options) := by
  rintro state rfl
  exact
    evictAll_consistent state.contexts.distinct reason state
      ⟨hStart, fun _ hEntry =>
        OrderedMap.get_eq_some_iff.mpr hEntry⟩

----------
-- Making Room
----------

variable {scan : Bool}
variable {limit : Nat}

/- In a pool with room, the loop ends at once. -/
theorem makeRoomLoop_room
    (hRoom : (pool options scan state).length < limit)
    (fuel : Nat) :
    makeRoomLoop options outside scan limit fuel state =
      .ok () state := by
  cases fuel with
  | zero => rfl
  | succ fuel =>
    change
      (if (pool options scan state).length < limit then
          pure ()
        else _ : Operation Context Unit) state = _
    rw [if_pos hRoom]
    rfl

/- The eviction of a member makes a pool smaller. -/
theorem pool_drop_lt
    (options : CoordinatorOptions)
    (hGet : state.contexts.get id = some resident)
    (hScan : inPool options scan id = true) :
    (pool options scan (state.drop id)).length <
      (pool options scan state).length := by
  rw [pool_drop]
  refine List.length_filter_lt_length_iff_exists.mpr ?_
  refine ⟨id, List.mem_filter.mpr ⟨?_, hScan⟩, by simp⟩
  exact OrderedMap.mem_keys_iff.mpr ⟨resident, hGet⟩

theorem cold_poolCandidates
    (options : CoordinatorOptions)
    (scan : Bool)
    (state : SemanticCoordinator Context) :
    Cold state (poolCandidates options scan state).1 :=
  ((cold_coldUnleasedContexts options state).filter _).rank

theorem inPool_poolCandidates
    (hEntry :
      entry ∈ (poolCandidates options scan state).1) :
    inPool options scan entry.1 = true := by
  unfold poolCandidates rankByRebuildCost at hEntry
  split at hEntry
  · exact
      (List.mem_filter.mp
        ((List.perm_insertionSort _ _).mem_iff.mp hEntry)).2
  · exact (List.mem_filter.mp hEntry).2

/-
  A pool that is full has one context too many at most, so
  the loop is over after its first turn: it finds nothing to
  evict, or it evicts one context of the pool.
-/
theorem makeRoomLoop_full
    (hPool : (pool options scan state).length ≤ limit)
    (hFull : ¬ (pool options scan state).length < limit)
    (fuel : Nat) :
    makeRoomLoop options outside scan limit (fuel + 1) state
        = .error allContextsLeased state ∨
      ∃ entry reason,
        Cold state [entry] ∧
          inPool options scan entry.1 = true ∧
            makeRoomLoop options outside scan limit
                (fuel + 1) state =
              evict outside entry.1 entry.2 reason state := by
  have hTurn :
      makeRoomLoop options outside scan limit (fuel + 1) state
        = EStateM.bind
          (evictFirst outside (poolCandidates options scan state))
          (fun _ =>
            makeRoomLoop options outside scan limit fuel)
          state := by
    change
      (if (pool options scan state).length < limit then
          pure ()
        else _ : Operation Context Unit) state = _
    rw [if_neg hFull]
    rfl
  have hCold := cold_poolCandidates options scan state
  have hMember :
      ∀ entry ∈ (poolCandidates options scan state).1,
        inPool options scan entry.1 = true :=
    fun _ => inPool_poolCandidates
  rw [hTurn]
  unfold evictFirst EStateM.bind
  cases hRanked : (poolCandidates options scan state).1 with
  | nil => exact Or.inl rfl
  | cons candidate rest =>
    right
    rw [hRanked] at hCold hMember
    have hGet := hCold.present candidate List.mem_cons_self
    have hScan := hMember candidate List.mem_cons_self
    have hOne : Cold state [candidate] :=
      ⟨List.forall_mem_singleton.mpr hGet,
        List.forall_mem_singleton.mpr
          (hCold.unleased candidate List.mem_cons_self),
        List.pairwise_singleton _ _⟩
    refine
      ⟨candidate,
        if (poolCandidates options scan state).2 = true then
          "capacity-cost"
        else "capacity-lru", hOne, hScan, ?_⟩
    dsimp only
    rcases evict_run outside candidate.1
        candidate.2
        (if (poolCandidates options scan state).2 = true then
          "capacity-cost"
        else "capacity-lru") state with hRun | ⟨notice, hRun⟩
    · rw [hRun]
    · rw [hRun]
      refine makeRoomLoop_room ?_ fuel
      exact
        lt_of_lt_of_le
          (pool_drop_lt options hGet hScan)
          hPool

/- What room is made, or why there is none. -/
theorem makeRoom_cases
    (outside : Surroundings Context)
    (hConsistent : Consistent options state)
    (id : String) :
    (makeRoom options outside id state = .ok () state ∧
        HasRoom options id state) ∨
      makeRoom options outside id state =
          .error allContextsLeased state ∨
        ∃ entry reason,
          Cold state [entry] ∧
            inPool options (options.isScanContext id) entry.1
                = true ∧
              makeRoom options outside id state =
                evict outside entry.1 entry.2 reason state := by
  unfold HasRoom
  cases hMax : options.maxResidentContexts with
  | none =>
    left
    refine ⟨?_, fun _ hLimit => by cases hLimit⟩
    unfold makeRoom
    simp only [hMax]
    rfl
  | some limit =>
    have hRun :
        makeRoom options outside id state =
          makeRoomLoop options outside
            (options.isScanContext id)
            (poolLimit limit (options.isScanContext id))
            ((pool options (options.isScanContext id)
              state).length + 1) state := by
      unfold makeRoom
      simp only [hMax]
      rfl
    rw [hRun]
    by_cases hRoom :
      (pool options (options.isScanContext id) state).length
        < poolLimit limit (options.isScanContext id)
    · left
      refine ⟨makeRoomLoop_room hRoom _, ?_⟩
      intro other hOther
      injection hOther with hSame
      rw [← hSame]
      exact hRoom
    · right
      exact
        makeRoomLoop_full (hConsistent.pools limit hMax _) hRoom _

/- Where there is room after all, the id is still absent. -/
theorem makeRoom_since
    (hStart : Consistent options start)
    (hNone : start.contexts.get id = none) :
    Meets (· = start) (makeRoom options outside id)
      (fun _ state =>
        Since options start state ∧
          state.contexts.get id = none ∧
            HasRoom options id state)
      (Since options start) := by
  rintro state rfl
  rcases makeRoom_cases outside hStart id with
    ⟨hRun, hRoom⟩ | hRun | ⟨entry, reason, hCold, hScan, hRun⟩
  · rw [hRun]
    exact ⟨Since.refl hStart, hNone, hRoom⟩
  · rw [hRun]
    exact Since.refl hStart
  · have hGet :=
      hCold.present entry (List.mem_singleton_self entry)
    have hZero :=
      hCold.unleased entry (List.mem_singleton_self entry)
    have hEvict :=
      evict_single outside hZero reason state
        ⟨Since.refl hStart, hCold.present⟩
    rw [hRun]
    rcases evict_run outside entry.1 entry.2
        reason state with hThrew | ⟨notice, hDone⟩
    · rw [hThrew] at hEvict ⊢
      exact hEvict
    · rw [hDone] at hEvict ⊢
      refine ⟨hEvict, ?_, ?_⟩
      · have hOther : id ≠ entry.1 := by
          rintro rfl
          rw [hGet] at hNone
          cases hNone
        exact (get_drop hOther).trans hNone
      · intro limit hLimit
        exact
          lt_of_lt_of_le
            (pool_drop_lt options hGet hScan)
            (hStart.pools limit hLimit _)

----------
-- Acquiring
----------

/- What a call leaves, whether it returns or throws. -/
structure Left
    (options : CoordinatorOptions)
    (start state : SemanticCoordinator Context) : Prop where
  consistent : Consistent options state
  spared : Spared start state

theorem Since.left
    (hSince : Since options start state) :
    Left options start state :=
  ⟨hSince.consistent, hSince.spared⟩

theorem leaseResident_left
    (hLeft : Left options start state)
    (hGet : state.contexts.get id = some resident)
    (promoteRecency : Bool)
    (event : LifecycleEvent)
    (reason : String) :
    ∃ next,
      leaseResident id resident promoteRecency event reason
          state = .ok () next ∧
        Left options start next := by
  refine ⟨_, rfl, ?_, ?_⟩
  · exact (hLeft.consistent.lease hGet _).observe _
  · rcases hLeft.spared with ⟨effects, hEffects, hAll⟩
    have hLeased :
        Spared start
          (leaseOut id resident promoteRecency state) :=
      ⟨effects, hEffects, hAll⟩
    exact
      hLeased.log fun _ hTouches =>
        absurd hTouches not_touches_observe

theorem leaseResident_meets
    (promoteRecency : Bool)
    (event : LifecycleEvent)
    (reason : String) :
    Meets
      (fun state =>
        Left options start state ∧
          state.contexts.get id = some resident)
      (leaseResident id resident promoteRecency event reason)
      (fun _ => Left options start)
      (Left options start) := by
  rintro state ⟨hLeft, hGet⟩
  rcases leaseResident_left hLeft hGet promoteRecency event
      reason with ⟨next, hRun, hAfter⟩
  rw [hRun]
  exact hAfter

theorem acquire_run
    (outside : Surroundings Context)
    (hId : id ≠ "")
    (promoteRecency : Bool)
    (state : SemanticCoordinator Context) :
    (∃ resident,
        state.contexts.get id = some resident ∧
          acquire options outside id promoteRecency state =
            leaseResident id resident promoteRecency .reuse
              "acquire" state) ∨
      state.contexts.get id = none ∧
        acquire options outside id promoteRecency state =
          acquireMissing options outside id promoteRecency
            state := by
  unfold acquire
  rw [get_bind, if_neg hId]
  cases hGet : state.contexts.get id with
  | some resident => exact Or.inl ⟨resident, rfl, rfl⟩
  | none => exact Or.inr ⟨rfl, rfl⟩

/- A context that is created is admitted and leased out. -/
theorem acquireMissing_left
    (hStart : Consistent options start)
    (hNone : start.contexts.get id = none)
    (promoteRecency : Bool) :
    Meets (· = start)
      (acquireMissing options outside id promoteRecency)
      (fun _ => Left options start)
      (Left options start) := by
  unfold acquireMissing
  refine
    meets_bind
      (meets_weaken (makeRoom_since hStart hNone)
        (fun _ hBefore => hBefore) (fun _ _ hAfter => hAfter)
        fun _ => Since.left) fun _ => ?_
  cases outside.created with
  | none => exact meets_throw fun _ hBefore => hBefore.1.left
  | some context =>
    have hGet :
        Meets
          (fun state =>
            Since options start state ∧
              state.contexts.get id = none ∧
                HasRoom options id state)
          (get : Operation Context _)
          (fun seen state =>
            seen = state ∧ Since options start state ∧
              state.contexts.get id = none ∧
                HasRoom options id state)
          (Left options start) :=
      meets_get fun _ hBefore => ⟨rfl, hBefore⟩
    refine meets_bind hGet fun seen => ?_
    refine
      meets_bind
        (meets_modify ?_)
        fun _ => leaseResident_meets promoteRecency _ _
    rintro state ⟨rfl, hSince, hGone, hRoom⟩
    refine ⟨⟨?_, hSince.spared⟩, ?_⟩
    · exact hSince.consistent.admitContext hGone hRoom context
    · exact (OrderedMap.get_set _ _ _ _).trans (if_pos rfl)

/- Acquiring leaves things right, or as they were. -/
theorem acquire_left
    (hStart : Consistent options start)
    (id : String)
    (promoteRecency : Bool) :
    Meets (· = start)
      (acquire options outside id promoteRecency)
      (fun _ => Left options start)
      (Left options start) := by
  rintro state rfl
  have hSame : Left options state state :=
    (Since.refl hStart).left
  by_cases hId : id = ""
  · subst hId
    exact hSame
  · rcases acquire_run outside hId promoteRecency
        state with ⟨resident, hGet, hRun⟩ | ⟨hNone, hRun⟩
    · rw [hRun]
      rcases leaseResident_left hSame hGet promoteRecency
          .reuse "acquire" with ⟨next, hLeased, hLeft⟩
      rw [hLeased]
      exact hLeft
    · rw [hRun]
      exact
        acquireMissing_left hStart hNone promoteRecency state rfl

/- Where everything is leased, nothing has happened. -/
theorem acquire_refused
    (hStart : Consistent options start)
    {promoteRecency : Bool}
    (hRefused :
      acquire options outside id promoteRecency start =
        .error allContextsLeased next) :
    next = start := by
  by_cases hId : id = ""
  · subst hId
    injection hRefused with hFault
    exact absurd hFault (by decide)
  · rcases acquire_run outside hId promoteRecency
        start with ⟨resident, _, hRun⟩ | ⟨hNone, hRun⟩
    · rw [hRun] at hRefused
      cases hRefused
    · rw [hRun] at hRefused
      have hBind :
          acquireMissing options outside id promoteRecency
              start =
            EStateM.bind (makeRoom options outside id) _
              start := rfl
      rw [hBind] at hRefused
      unfold EStateM.bind at hRefused
      rcases makeRoom_cases outside hStart id with
        ⟨hRoom, _⟩ | hRoom | ⟨entry, reason, _, _, hRoom⟩
      · rw [hRoom] at hRefused
        cases hCreated : outside.created with
        | none =>
          simp only [hCreated] at hRefused
          cases hRefused
        | some context =>
          simp only [hCreated] at hRefused
          cases hRefused
      · rw [hRoom] at hRefused
        injection hRefused with _ hNext
        exact hNext.symm
      · rw [hRoom] at hRefused
        rcases evict_run outside entry.1 entry.2
            reason start with hThrew | ⟨notice, hDone⟩
        · rw [hThrew] at hRefused
          cases hRefused
        · rw [hDone] at hRefused
          cases hCreated : outside.created with
          | none =>
            simp only [hCreated] at hRefused
            cases hRefused
          | some context =>
            simp only [hCreated] at hRefused
            cases hRefused

----------
-- All Calls
----------

theorem remove_left
    (hStart : Consistent options start)
    (id reason : String) :
    Meets (· = start) (remove outside id reason)
      (fun _ => Left options start)
      (Left options start) := by
  rintro state rfl
  have hSame := (Since.refl hStart).left
  unfold remove
  rw [get_bind]
  cases hGet : state.contexts.get id with
  | none => exact hSame
  | some resident =>
    by_cases hLeased : 0 < resident.leaseCount
    · simp only [if_pos hLeased]
      exact hSame
    · simp only [if_neg hLeased]
      have hZero : resident.leaseCount = 0 :=
        Nat.eq_zero_of_not_pos hLeased
      have hPresent : Present [(id, resident)] state :=
        List.forall_mem_singleton.mpr hGet
      have hTrue :
          Meets (Left options state)
            (pure true : Operation Context Bool)
            (fun _ => Left options state)
            (Left options state) :=
        meets_pure fun _ hLeft => hLeft
      exact
        meets_bind
          (meets_weaken
            (@evict_single _ options state (id, resident)
              outside hZero reason)
            (fun _ hBefore => hBefore)
            (fun _ _ hSince => hSince.left)
            fun _ => Since.left)
          (fun _ => hTrue) state
          ⟨Since.refl hStart, hPresent⟩

theorem spared_of_effects
    (hEffects : next.effects = start.effects) :
    Spared start next :=
  ⟨[], hEffects.trans (List.append_nil _).symm,
    fun _ hEffect => by cases hEffect⟩

theorem effects_releaseLease
    (index : Nat)
    (state : SemanticCoordinator Context) :
    (releaseLease index state).effects = state.effects := by
  unfold releaseLease
  cases state.leases[index]? with
  | none => rfl
  | some lease =>
    dsimp only
    split <;> rfl

variable [DecidableEq Context]

theorem markSemanticWork_left
    (hStart : Consistent options start)
    (id : String)
    (context : Context) :
    Left options start (markSemanticWork id context start) := by
  unfold markSemanticWork
  cases hGet : start.contexts.get id with
  | none => exact (Since.refl hStart).left
  | some resident =>
    dsimp only
    split
    · exact ⟨hStart.put hGet rfl rfl, spared_of_effects rfl⟩
    · exact (Since.refl hStart).left

theorem recordRebuildCost_left
    (hStart : Consistent options start)
    (id : String)
    (context : Context)
    (rebuildCostMs : Option ℚ) :
    Meets (· = start)
      (recordRebuildCost id context rebuildCostMs)
      (fun _ => Left options start)
      (Left options start) := by
  rintro state rfl
  have hSame := (Since.refl hStart).left
  unfold recordRebuildCost
  rw [get_bind]
  cases hGet : state.contexts.get id with
  | none => exact hSame
  | some resident =>
    cases rebuildCostMs with
    | none => exact hSame
    | some cost =>
      by_cases hIdle : resident.context ≠ context ∨ cost ≤ 0
      · simp only [if_pos hIdle]
        exact hSame
      · simp only [if_neg hIdle]
        have hPut :
            Since options state
              (state.put id
                { resident with
                  rebuildCostMs := some cost }) :=
          ⟨hStart.put hGet rfl rfl, rfl, spared_of_effects rfl⟩
        exact (hPut.observe _).left

/- The shutdown is the only call that spares nobody. -/
def IsDispose (call : CoordinatorCall Context) : Prop :=
  ∃ reason, call = .dispose reason

theorem perform_left
    (outside : Surroundings Context)
    (hStart : Consistent options start)
    {call : CoordinatorCall Context}
    (hCall : ¬ IsDispose call) :
    Meets (· = start) (perform options outside call)
      (fun _ => Left options start)
      (Left options start) := by
  cases call with
  | acquire id promoteRecency =>
    exact acquire_left hStart id promoteRecency
  | release lease =>
    rintro state rfl
    exact
      ⟨hStart.release lease,
        spared_of_effects (effects_releaseLease lease _)⟩
  | remove id reason =>
    exact
      meets_bind (remove_left hStart id reason) fun _ =>
        meets_pure fun _ hLeft => hLeft
  | markSemanticWork id context =>
    rintro state rfl
    exact markSemanticWork_left hStart id context
  | recordRebuildCost id context rebuildCostMs =>
    exact recordRebuildCost_left hStart id context rebuildCostMs
  | applyMemoryPressure level =>
    exact
      meets_bind
        (meets_weaken
          (applyMemoryPressure_since hStart level)
          (fun _ hBefore => hBefore)
          (fun _ _ hSince => hSince.left) fun _ =>
            Since.left)
        fun _ => meets_pure fun _ hLeft => hLeft
  | dispose reason => exact absurd ⟨reason, rfl⟩ hCall

theorem stateAfter_left
    (hStart : Consistent options start)
    (event : CoordinatorEvent Context)
    (hCall : ¬ IsDispose event.1) :
    Left options start (stateAfter options start event) := by
  have hMeets := perform_left event.2 hStart hCall start rfl
  unfold stateAfter answer
  cases hRun : perform options event.2 event.1 start with
  | ok _ next =>
    rw [hRun] at hMeets
    exact hMeets
  | error _ next =>
    rw [hRun] at hMeets
    exact hMeets

theorem stateAfter_consistent
    (hStart : Consistent options start)
    (event : CoordinatorEvent Context) :
    Consistent options (stateAfter options start event) := by
  rcases event with ⟨call, outside⟩
  by_cases hCall : IsDispose call
  · rcases hCall with ⟨reason, rfl⟩
    have hMeets :=
      disposeAll_consistent outside hStart reason start rfl
    unfold stateAfter answer perform
    dsimp only
    cases hRun : disposeAll outside reason start with
    | ok _ next =>
      rw [hRun] at hMeets
      exact hMeets
    | error _ next =>
      rw [hRun] at hMeets
      exact hMeets
  · exact
      (stateAfter_left hStart (call, outside) hCall).consistent

end Computations

----------
-- Residency
----------

section Runs

variable (options : CoordinatorOptions)

/- What holds of a coordinator at any time. -/
structure Residency
    (state : SemanticCoordinator Context) : Prop where
  leaseCounts :
    ∀ id resident,
      state.contexts.get id = some resident →
        resident.leaseCount =
          state.unreleased resident.sequence
  interactivePool :
    ∀ limit ∈ options.maxResidentContexts,
      (pool options false state).length ≤ limit
  scanPool :
    options.maxResidentContexts.isSome →
      (pool options true state).length ≤ 1
  numbered :
    ∀ id resident other second,
      state.contexts.get id = some resident →
      state.contexts.get other = some second →
      resident.sequence = second.sequence → id = other
  disposedOnce :
    ∀ sequence,
      state.effects.count (.dispose sequence true) ≤ 1
  leftAlone :
    ∀ earlier sequence later,
      state.effects =
          earlier ++ .dispose sequence true :: later →
        ∀ effect ∈ later, ¬ Touches effect sequence

/- What holds of any call. -/
structure CallSafe
    [DecidableEq Context]
    (state : SemanticCoordinator Context)
    (event : CoordinatorEvent Context) : Prop where
  spared :
    ¬ IsDispose event.1 →
      ∃ effects,
        (stateAfter options state event).effects =
            state.effects ++ effects ∧
          ∀ effect ∈ effects, ∀ sequence,
            Touches effect sequence →
              state.unreleased sequence = 0
  refused :
    ∀ id promoteRecency next,
      event.1 = .acquire id promoteRecency →
      answer options state event =
          .error allContextsLeased next →
        next = state

variable {options}

/- A context that is left alone is not disposed again. -/
theorem count_dispose_le
    {effects : List ContextEffect}
    (hSettled : effects.Pairwise Settles)
    (sequence : Nat) :
    effects.count (.dispose sequence true) ≤ 1 := by
  induction effects with
  | nil => exact Nat.zero_le 1
  | cons effect effects ih =>
    rcases List.pairwise_cons.mp hSettled with
      ⟨hHead, hTail⟩
    by_cases hDispose : effect = .dispose sequence true
    · subst hDispose
      have hNone :
          effects.count
            (ContextEffect.dispose sequence true) = 0 := by
        refine List.count_eq_zero.mpr fun hAgain => ?_
        exact
          hHead _ hAgain sequence rfl (touches_dispose.mpr rfl)
      rw [List.count_cons_self, hNone]
    · rw [List.count_cons_of_ne hDispose]
      exact ih hTail

variable {state : SemanticCoordinator Context}

theorem Consistent.residency
    (hConsistent : Consistent options state) :
    Residency options state where
  leaseCounts := hConsistent.leaseCount
  interactivePool limit hLimit :=
    hConsistent.pools limit hLimit false
  scanPool hSome := by
    rcases Option.isSome_iff_exists.mp hSome with
      ⟨limit, hLimit⟩
    exact hConsistent.pools limit hLimit true
  numbered := hConsistent.sequenceApart
  disposedOnce := count_dispose_le hConsistent.settled
  leftAlone := by
    intro earlier sequence later hEffects effect hEffect
    have hSettled := hConsistent.settled
    rw [hEffects] at hSettled
    exact
      (List.pairwise_cons.mp
        (List.pairwise_append.mp hSettled).2.1).1 effect
        hEffect sequence rfl

variable [DecidableEq Context]

theorem Consistent.callSafe
    (hConsistent : Consistent options state)
    (event : CoordinatorEvent Context) :
    CallSafe options state event := by
  constructor
  · intro hCall
    exact (stateAfter_left hConsistent event hCall).spared
  · intro id promoteRecency next hAcquire hRefused
    unfold answer at hRefused
    rw [hAcquire] at hRefused
    exact acquire_refused hConsistent hRefused

theorem consistent_run
    (options : CoordinatorOptions)
    (events : List (CoordinatorEvent Context)) :
    Consistent options
      (Transition.run (stateAfter options)
        SemanticCoordinator.new events) :=
  @Transition.run_invariant _ _ (stateAfter options)
    (Consistent options)
    (fun _ event hState => stateAfter_consistent hState event)
    _ consistent_new events

/-
  After any calls, whatever contexts, factories and readings
  have done: the lease counts are right, the pools are
  within their limits, and no context was disposed twice.
  Every call but the shutdown spares the contexts in use,
  and an acquisition that is refused changes nothing.
-/
theorem residency_maintained
    (options : CoordinatorOptions)
    (events : List (CoordinatorEvent Context)) :
    Residency options
        (Transition.run (stateAfter options)
          SemanticCoordinator.new events) ∧
      ∀ event : CoordinatorEvent Context,
        CallSafe options
          (Transition.run (stateAfter options)
            SemanticCoordinator.new events) event :=
  ⟨(consistent_run options events).residency,
    (consistent_run options events).callSafe⟩

end Runs

end Semantic

end ArktsServer
