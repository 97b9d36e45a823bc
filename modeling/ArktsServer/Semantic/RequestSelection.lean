import ArktsServer.Semantic.RequestLanes

/-
  Where the next request is taken from: behind which records,
  and with which marker for the pump.

  Key definitions include:
    * `RequestRecord.lane`
    * `TakenFrom`

  Correctness is proven by:
    * `selectRequest_split`
    * `takeNext_split`
-/

----------
-- Selection
----------

namespace ArktsServer

namespace Semantic

def RequestRecord.lane (record : RequestRecord) : RequestClass :=
  requestClass record.input.method

/- The selected index is the head's, or of a first higher one. -/
theorem selectRequest_split
    (records : List RequestRecord)
    (index : Nat)
    (highest : Int)
    (selected : Nat) :
    selectRequest records index highest selected = selected ∨
      ∃ before record after,
        records = before ++ record :: after ∧
          selectRequest records index highest selected =
            index + before.length ∧
          highest < record.priority ∧
          ∀ other ∈ before,
            0 ≤ other.priority ∧
              other.priority < record.priority := by
  induction records generalizing index highest selected with
  | nil => exact Or.inl rfl
  | cons first records ih =>
    unfold selectRequest
    by_cases hGlobal : first.priority < 0
    · rw [if_pos hGlobal]
      exact Or.inl rfl
    · rw [if_neg hGlobal]
      by_cases hHigher : highest < first.priority
      · rw [if_pos hHigher]
        right
        rcases ih (index + 1) first.priority index with
          hHere |
            ⟨before, record, after, hRecords, hIndex, hMore,
              hBefore⟩
        · exact
            ⟨[], first, records, rfl, hHere, hHigher,
              fun other hOther => by cases hOther⟩
        · refine
            ⟨first :: before, record, after, ?_, ?_,
              Int.lt_trans hHigher hMore, ?_⟩
          · rw [hRecords]
            rfl
          · rw [hIndex, List.length_cons]
            omega
          · exact
              List.forall_mem_cons.mpr
                ⟨⟨Int.not_lt.mp hGlobal, hMore⟩, hBefore⟩
      · rw [if_neg hHigher]
        rcases ih (index + 1) highest selected with
          hKept |
            ⟨before, record, after, hRecords, hIndex, hMore,
              hBefore⟩
        · exact Or.inl hKept
        · refine
            Or.inr
              ⟨first :: before, record, after, ?_, ?_, hMore, ?_⟩
          · rw [hRecords]
            rfl
          · rw [hIndex, List.length_cons]
            omega
          · refine
              List.forall_mem_cons.mpr
                ⟨⟨Int.not_lt.mp hGlobal, ?_⟩, hBefore⟩
            exact Int.lt_of_le_of_lt (Int.not_lt.mp hHigher) hMore

/-
  How a request is taken: from where, in front of which
  records, and with which marker.
-/
structure TakenFrom
    (pending : List RequestRecord)
    (detached : Bool)
    (bypassed : Option RequestRecord)
    (record : RequestRecord)
    (before after : List RequestRecord)
    (marker : Option RequestRecord) : Prop where
  split : pending = before ++ record :: after
  ordered : ∀ other ∈ before, other.lane ≠ record.lane
  interactive : detached = true → 0 < record.priority
  notGlobal :
    detached = false →
      ∀ other ∈ before, 0 ≤ other.priority
  head :
    detached = false →
      (before = [] ∧ marker = none) ∨
        ∃ oldest rest,
          before = oldest :: rest ∧ marker = some oldest ∧
            isBypassed oldest bypassed = false
  kept :
    detached = true →
      ∃ oldest later,
        pending = oldest :: later ∧
          marker =
            if isBypassed oldest bypassed then
              bypassed
            else
              none

theorem splice_append
    (before after : List RequestRecord)
    (record : RequestRecord)
    (marker : Option RequestRecord) :
    spliceRequest (before ++ record :: after) before.length
        marker =
      ⟨some record, marker, before ++ after⟩ := by
  unfold spliceRequest
  rw [List.eraseIdx_append_of_length_le (Nat.le_refl _),
    Nat.sub_self, List.eraseIdx_cons_zero,
    List.getElem?_append_right (Nat.le_refl _), Nat.sub_self]
  rfl

theorem lane_ne_of_priority
    {first second : RequestRecord}
    (hPriority : first.priority ≠ second.priority) :
    first.lane ≠ second.lane := by
  intro hLane
  apply hPriority
  unfold RequestRecord.priority
  unfold RequestRecord.lane at hLane
  rw [hLane]

theorem takenFrom_head
    (oldest : RequestRecord)
    (later : List RequestRecord)
    (bypassed : Option RequestRecord) :
    TakenFrom (oldest :: later) false bypassed oldest [] later
      none := by
  refine ⟨rfl, ?_, ?_, ?_, fun _ => Or.inl ⟨rfl, rfl⟩, ?_⟩
  · intro other hOther
    cases hOther
  · intro hDetached
    cases hDetached
  · intro _ other hOther
    cases hOther
  · intro hDetached
    cases hDetached

/- Without a detached reference the head or a bypass is taken. -/
theorem takeNext_attached
    {oldest : RequestRecord}
    {later : List RequestRecord}
    {bypassed : Option RequestRecord} :
    ∃ before record after marker,
      takeNextSemanticWorkerRequest (oldest :: later) false
          bypassed = ⟨some record, marker, before ++ after⟩ ∧
        TakenFrom (oldest :: later) false bypassed record
          before after marker := by
  unfold takeNextSemanticWorkerRequest
  simp only [Bool.false_eq_true, ↓reduceIte]
  by_cases hOpen :
      0 ≤ oldest.priority ∧
        (!isBypassed oldest bypassed) = true
  · rw [if_pos hOpen]
    rcases selectRequest_split later 1 oldest.priority 0 with
      hHead |
        ⟨before, record, after, hLater, hIndex, hMore, hBefore⟩
    · rw [hHead]
      exact
        ⟨[], oldest, later, none, rfl,
          takenFrom_head oldest later bypassed⟩
    · have hFirst :
          1 + before.length = (oldest :: before).length :=
        Nat.add_comm _ _
      have hAll :
          oldest :: (before ++ record :: after) =
            (oldest :: before) ++ record :: after :=
        rfl
      have hSome : 0 < (oldest :: before).length := Nat.succ_pos _
      rw [hIndex, hLater, hFirst]
      unfold takeSelected
      rw [if_pos hSome, hAll, splice_append]
      refine
        ⟨oldest :: before, record, after, some oldest, rfl,
          rfl, ?_, ?_, ?_, fun _ => Or.inr ?_, ?_⟩
      · intro other hOther
        apply lane_ne_of_priority
        rcases List.mem_cons.mp hOther with rfl | hMem
        · exact Int.ne_of_lt hMore
        · exact Int.ne_of_lt (hBefore other hMem).2
      · intro hDetached
        cases hDetached
      · intro _ other hOther
        rcases List.mem_cons.mp hOther with rfl | hMem
        · exact hOpen.1
        · exact (hBefore other hMem).1
      · have hFree := hOpen.2
        rw [Bool.not_eq_true'] at hFree
        exact ⟨oldest, before, rfl, rfl, hFree⟩
      · intro hDetached
        cases hDetached
  · rw [if_neg hOpen]
    exact
      ⟨[], oldest, later, none, rfl,
        takenFrom_head oldest later bypassed⟩

theorem findIdx_split
    {accepts : RequestRecord → Bool}
    {records : List RequestRecord}
    {record : RequestRecord}
    (hFound :
      records[records.findIdx accepts]? = some record) :
    ∃ before after,
      records = before ++ record :: after ∧
        records.findIdx accepts = before.length ∧
        accepts record = true ∧
        ∀ other ∈ before, accepts other = false := by
  induction records with
  | nil => cases hFound
  | cons first records ih =>
    rw [List.findIdx_cons] at hFound ⊢
    cases hFirst : accepts first with
    | true =>
      rw [hFirst] at hFound
      injection hFound with hSame
      subst hSame
      refine ⟨[], records, rfl, rfl, hFirst, ?_⟩
      intro other hOther
      cases hOther
    | false =>
      rw [hFirst] at hFound
      rcases ih hFound with
        ⟨before, after, hRecords, hIndex, hAccepts, hBefore⟩
      refine
        ⟨first :: before, after, ?_, ?_, hAccepts,
          List.forall_mem_cons.mpr ⟨hFirst, hBefore⟩⟩
      · exact congrArg (List.cons first) hRecords
      · exact congrArg Nat.succ hIndex

/- A taken request, whatever the lane. -/
theorem takeNext_split
    {pending : List RequestRecord}
    {detached : Bool}
    {bypassed : Option RequestRecord}
    {record : RequestRecord}
    (hTaken :
      (takeNextSemanticWorkerRequest pending detached
        bypassed).request = some record) :
    ∃ before after,
      (takeNextSemanticWorkerRequest pending detached
          bypassed).rest = before ++ after ∧
        TakenFrom pending detached bypassed record before
          after
          (takeNextSemanticWorkerRequest pending detached
            bypassed).bypassedDiagnostic := by
  cases pending with
  | nil => cases hTaken
  | cons oldest later =>
    cases detached with
    | false =>
      rcases @takeNext_attached oldest later bypassed with
        ⟨before, found, after, marker, hSelection, hFrom⟩
      rw [hSelection] at hTaken ⊢
      injection hTaken with hSame
      subst hSame
      exact ⟨before, after, rfl, hFrom⟩
    | true =>
      unfold takeNextSemanticWorkerRequest at hTaken ⊢
      simp only [↓reduceIte] at hTaken ⊢
      rcases findIdx_split hTaken with
        ⟨before, after, hPending, hIndex, hAccepts, hBefore⟩
      rw [hIndex, hPending, splice_append]
      refine ⟨before, after, rfl, rfl, ?_, ?_, ?_, ?_, ?_⟩
      · intro other hOther
        apply lane_ne_of_priority
        have hLow :
            ¬ 0 < other.priority :=
          of_decide_eq_false (hBefore other hOther)
        have hHigh : 0 < record.priority :=
          of_decide_eq_true hAccepts
        intro hSame
        rw [hSame] at hLow
        exact hLow hHigh
      · intro _
        exact of_decide_eq_true hAccepts
      · intro hAttached
        cases hAttached
      · intro hAttached
        cases hAttached
      · exact fun _ => ⟨oldest, later, hPending.symm, rfl⟩

end Semantic

end ArktsServer
