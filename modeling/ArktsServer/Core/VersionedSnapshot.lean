import ArktsServer.Lib.TextChange

/-
  `VersionedSnapshot`: a text with a short history, so that
  the compiler can be told what changed since an earlier
  snapshot of the same lineage.

  Key definitions include:
    * `difference`
    * `VersionedSnapshot`
    * `getChangeRange`

  Correctness is proven by:
    * `difference_sound`
    * `snapshotAt_changes`
    * `getChangeRange_sound`
-/

namespace ArktsServer

namespace Snapshots

----------
-- Differences
----------

/- A string of JavaScript: its UTF-16 code units. -/
abbrev Text := List UInt16

/- How far two texts agree from the start. -/
def startOfDifference : Text → Text → Nat
| code :: before, other :: after =>
    if code = other then
      startOfDifference before after + 1
    else
      0
| _, _ => 0

/- Where two texts differ for the last time. -/
def endOfDifference
    (before after : Text)
    (start : Nat) : Nat → Nat → Nat × Nat
| oldEnd + 1, newEnd + 1 =>
    if oldEnd + 1 > start ∧ newEnd + 1 > start ∧
        before[oldEnd]? = after[newEnd]? then
      endOfDifference before after start oldEnd newEnd
    else
      (oldEnd + 1, newEnd + 1)
| oldEnd, newEnd => (oldEnd, newEnd)

def difference (before after : Text) : TextChange :=
  let start := startOfDifference before after
  let ends :=
    endOfDifference before after start before.length
      after.length
  { start := start
    length := ends.1 - start
    newLength := ends.2 - start }

theorem startOfDifference_spec
    (before after : Text) :
    startOfDifference before after ≤ before.length ∧
      startOfDifference before after ≤ after.length ∧
      before.take (startOfDifference before after) =
        after.take (startOfDifference before after) := by
  induction before generalizing after with
  | nil => exact ⟨Nat.le_refl _, Nat.zero_le _, rfl⟩
  | cons code before ih =>
    cases after with
    | nil => exact ⟨Nat.zero_le _, Nat.le_refl _, rfl⟩
    | cons other after =>
      unfold startOfDifference
      split
      · rename_i hSame
        rcases ih after with ⟨hBefore, hAfter, hTake⟩
        refine
          ⟨Nat.succ_le_succ hBefore, Nat.succ_le_succ hAfter, ?_⟩
        rw [List.take_succ_cons, List.take_succ_cons,
          hSame, hTake]
      · exact ⟨Nat.zero_le _, Nat.zero_le _, rfl⟩

/- Behind the ends the texts agree as they did before. -/
theorem endOfDifference_spec
    {before after : Text}
    {start oldEnd newEnd : Nat}
    (hOld : start ≤ oldEnd)
    (hNew : start ≤ newEnd)
    (hOldEnd : oldEnd ≤ before.length)
    (hNewEnd : newEnd ≤ after.length)
    (hBack : before.drop oldEnd = after.drop newEnd) :
    let ends := endOfDifference before after start oldEnd newEnd
    start ≤ ends.1 ∧ start ≤ ends.2 ∧
      ends.1 ≤ before.length ∧ ends.2 ≤ after.length ∧
      before.drop ends.1 = after.drop ends.2 := by
  induction oldEnd generalizing newEnd with
  | zero =>
    unfold endOfDifference
    exact ⟨hOld, hNew, hOldEnd, hNewEnd, hBack⟩
  | succ oldEnd ih =>
    cases newEnd with
    | zero =>
      unfold endOfDifference
      exact ⟨hOld, hNew, hOldEnd, hNewEnd, hBack⟩
    | succ newEnd =>
      unfold endOfDifference
      split
      · rename_i hSame
        rcases hSame with ⟨hOldMore, hNewMore, hUnit⟩
        refine
          ih (Nat.le_of_lt_succ hOldMore)
            (Nat.le_of_lt_succ hNewMore)
            (Nat.le_of_succ_le hOldEnd)
            (Nat.le_of_succ_le hNewEnd) ?_
        rw [List.drop_eq_getElem_cons hOldEnd,
          List.drop_eq_getElem_cons hNewEnd, hBack]
        rw [List.getElem?_eq_getElem hOldEnd,
          List.getElem?_eq_getElem hNewEnd] at hUnit
        rw [Option.some.inj hUnit]
      · exact ⟨hOld, hNew, hOldEnd, hNewEnd, hBack⟩

/- The difference of two texts is where they differ. -/
theorem difference_sound (before after : Text) :
    (difference before after).Sound before after := by
  rcases startOfDifference_spec before after with
    ⟨hBefore, hAfter, hFront⟩
  have hEnds :=
    @endOfDifference_spec before after
      (startOfDifference before after) before.length
      after.length hBefore hAfter (Nat.le_refl _)
      (Nat.le_refl _) (by rw [List.drop_length, List.drop_length])
  rcases hEnds with ⟨hOld, hNew, hOldEnd, hNewEnd, hBack⟩
  have hOldSpan :
      (difference before after).start
          + (difference before after).length =
        (endOfDifference before after
          (startOfDifference before after) before.length
          after.length).1 := by
    simp only [difference]
    omega
  have hNewSpan :
      (difference before after).start
          + (difference before after).newLength =
        (endOfDifference before after
          (startOfDifference before after) before.length
          after.length).2 := by
    simp only [difference]
    omega
  refine ⟨?_, ?_, hFront, ?_⟩
  · rw [hOldSpan]
    exact hOldEnd
  · rw [hNewSpan]
    exact hNewEnd
  · rw [hOldSpan, hNewSpan]
    exact hBack

----------
-- Snapshots
----------

/- Objects are numbered as they are created. -/
abbrev ObjectId := Nat

structure Change where
  fromVersion : Nat
  range : TextChange

structure VersionedSnapshot where
  object : ObjectId
  text : Text
  lineage : ObjectId
  version : Nat
  changes : List Change

/- A snapshot of any class. -/
inductive ScriptSnapshot where
| versioned (snapshot : VersionedSnapshot)
| other (object : ObjectId) (text : Text)

def maxChangeRanges : Nat := 8

/- `slice(-count)`. -/
def lastOf {Item : Type} (items : List Item) (count : Nat) :
    List Item :=
  items.drop (items.length - count)

def VersionedSnapshot.new
    (object : ObjectId)
    (text : Text)
    (previous : Option VersionedSnapshot) :
    VersionedSnapshot :=
  match previous with
  | none =>
      { object := object
        text := text
        lineage := object
        version := 0
        changes := [] }
  | some previous =>
      { object := object
        text := text
        lineage := previous.lineage
        version := previous.version + 1
        changes :=
          lastOf
            (previous.changes
              ++ [{ fromVersion := previous.version
                    range := difference previous.text text }])
            maxChangeRanges }

/-
  What changed since another snapshot; the ranges of several
  versions are collapsed by the compiler's own function.
-/
def getChangeRange
    (collapse : List TextChange → TextChange)
    (snapshot : VersionedSnapshot)
    (old : ScriptSnapshot) : Option TextChange :=
  match old with
  | .other _ _ => none
  | .versioned old =>
      if old.object = snapshot.object then
        some { start := 0, length := 0, newLength := 0 }
      else if old.lineage ≠ snapshot.lineage then
        none
      else
        match snapshot.changes.findIdx?
            (fun change => change.fromVersion == old.version) with
        | none => none
        | some index =>
            some
              (collapse
                ((snapshot.changes.drop index).map
                  (·.range)))

----------
-- Linear Chains
----------

/- The snapshots of a linear chain of texts. -/
def snapshotAt (texts : Nat → Text) : Nat → VersionedSnapshot
| 0 => VersionedSnapshot.new 0 (texts 0) none
| index + 1 =>
    VersionedSnapshot.new (index + 1) (texts (index + 1))
      (some (snapshotAt texts index))

def changeAt (texts : Nat → Text) (index : Nat) : Change where
  fromVersion := index
  range := difference (texts index) (texts (index + 1))

variable (texts : Nat → Text)

theorem lastOf_append
    {Item : Type}
    (items : List Item)
    (item : Item)
    (count : Nat) :
    lastOf (lastOf items count ++ [item]) count =
      lastOf (items ++ [item]) count := by
  unfold lastOf
  have hAppend :
      items.drop (items.length - count) ++ [item] =
        (items ++ [item]).drop (items.length - count) :=
    (List.drop_append_of_le_length (Nat.sub_le _ _)).symm
  rw [hAppend, List.drop_drop, List.length_drop,
    List.length_append, List.length_singleton]
  congr 1
  omega

theorem map_lastOf
    {Item Other : Type}
    (convert : Item → Other)
    (items : List Item)
    (count : Nat) :
    (lastOf items count).map convert =
      lastOf (items.map convert) count := by
  unfold lastOf
  rw [List.map_drop, List.length_map]

/- What a snapshot of a chain knows: its last eight steps. -/
theorem snapshotAt_changes
    (index : Nat) :
    (snapshotAt texts index).object = index ∧
      (snapshotAt texts index).text = texts index ∧
      (snapshotAt texts index).lineage = 0 ∧
      (snapshotAt texts index).version = index ∧
      (snapshotAt texts index).changes =
        (lastOf (List.range index) maxChangeRanges).map
          (changeAt texts) := by
  induction index with
  | zero => exact ⟨rfl, rfl, rfl, rfl, rfl⟩
  | succ index ih =>
    rcases ih with ⟨_, hText, hLineage, hVersion, hChanges⟩
    refine ⟨rfl, rfl, hLineage, ?_, ?_⟩
    · unfold snapshotAt VersionedSnapshot.new
      simp only [hVersion]
    · unfold snapshotAt VersionedSnapshot.new
      simp only [hChanges, hVersion, hText]
      rw [List.range_succ, map_lastOf, map_lastOf,
        List.map_append]
      exact lastOf_append _ (changeAt texts index) _

theorem lastOf_range (index : Nat) :
    lastOf (List.range index) maxChangeRanges =
      List.range' (index - maxChangeRanges)
        (index - (index - maxChangeRanges)) := by
  unfold lastOf
  rw [List.length_range, List.range_eq_range',
    List.drop_range', Nat.zero_add, Nat.mul_one]

/- The steps of a chain are sound, one after the other. -/
theorem soundAll_chain
    (count start : Nat) :
    TextChange.SoundAll (texts start)
        ((List.range' (start + 1) count).map texts)
        ((List.range' start count).map fun index =>
          (changeAt texts index).range) ∧
      ((List.range' (start + 1) count).map texts).getLastD
          (texts start) =
        texts (start + count) := by
  induction count generalizing start with
  | zero => exact ⟨trivial, rfl⟩
  | succ count ih =>
    rcases ih (start + 1) with ⟨hRest, hLast⟩
    rw [List.range'_succ, List.range'_succ, List.map_cons,
      List.map_cons, List.getLastD_cons]
    refine ⟨⟨difference_sound _ _, hRest⟩, ?_⟩
    rw [hLast]
    congr 1
    omega

/- Where the step that starts at a version is kept. -/
theorem findIdx_changes
    {first count version : Nat} :
    ((List.range' first count).map
        (changeAt texts)).findIdx?
        (fun change => change.fromVersion == version) =
      if first ≤ version ∧ version < first + count then
        some (version - first)
      else
        none := by
  induction count generalizing first with
  | zero =>
    rw [if_neg (by omega)]
    rfl
  | succ count ih =>
    rw [List.range'_succ, List.map_cons, List.findIdx?_cons]
    by_cases hSame : first = version
    · subst hSame
      rw [if_pos (by simp [changeAt]), if_pos (by omega),
        Nat.sub_self]
    · rw [if_neg (by simp [changeAt, hSame]), ih]
      by_cases hThere :
          first ≤ version ∧ version < first + (count + 1)
      · rw [if_pos (by omega), if_pos hThere, Option.map_some]
        congr 1
        omega
      · rw [if_neg (by omega), if_neg hThere, Option.map_none]

/-
  The range between two snapshots of a chain is sound, and
  there is none if more than eight steps lie between them.
-/
theorem getChangeRange_sound
    {collapse : List TextChange → TextChange}
    (hCollapse :
      ∀ (before : Text) texts changes,
        changes ≠ [] →
          TextChange.SoundAll before texts changes →
            (collapse changes).Sound before
              (texts.getLastD before))
    (texts : Nat → Text)
    {first second : Nat}
    (hOrder : first < second) :
    if second - first > 8 then
      getChangeRange collapse (snapshotAt texts second)
          (.versioned (snapshotAt texts first)) =
        none
    else
      ∃ range,
        getChangeRange collapse (snapshotAt texts second)
            (.versioned (snapshotAt texts first)) =
          some range ∧
        range.Sound (texts first) (texts second) := by
  rcases snapshotAt_changes texts first with
    ⟨hObject, _, hLineage, hVersion, _⟩
  rcases snapshotAt_changes texts second with
    ⟨hOther, _, hSame, _, hChanges⟩
  unfold getChangeRange
  simp only [hObject, hOther, hLineage, hSame, hVersion,
    hChanges, if_neg (Nat.ne_of_lt hOrder), ne_eq,
    not_true_eq_false, if_false, lastOf_range,
    findIdx_changes]
  unfold maxChangeRanges
  split
  · rename_i hFar
    rw [if_neg (by omega)]
  · rename_i hNear
    rw [if_pos (by omega)]
    refine ⟨_, rfl, ?_⟩
    have hStart :
        second - 8 + (first - (second - 8)) = first := by
      omega
    have hCount :
        second - (second - 8) - (first - (second - 8)) =
          second - first := by
      omega
    rw [← List.map_drop, List.map_map, List.drop_range',
      Nat.mul_one, hStart, hCount]
    rcases soundAll_chain texts (second - first) first with
      ⟨hSteps, hLast⟩
    rw [Nat.add_sub_cancel' (Nat.le_of_lt hOrder)] at hLast
    have hRange :=
      hCollapse (texts first) _ _ (by
        rw [Ne, List.map_eq_nil_iff, List.range'_eq_nil_iff]
        omega) hSteps
    rw [hLast] at hRange
    exact hRange

/- A letter is typed, another one replaced, then all of it. -/
def typedText : Nat → Text
| 0 => [97, 98]
| 1 => [97, 99, 98]
| 2 => [97, 99, 97]
| _ => []

theorem getChangeRange_sound_sample :
    if 3 - 0 > 8 then
      getChangeRange TextChange.collapse
          (snapshotAt typedText 3)
          (.versioned (snapshotAt typedText 0)) =
        none
    else
      ∃ range,
        getChangeRange TextChange.collapse
            (snapshotAt typedText 3)
            (.versioned (snapshotAt typedText 0)) =
          some range ∧
        range.Sound (typedText 0) (typedText 3) :=
  getChangeRange_sound
    (fun _ _ _ hSome hChanges =>
      TextChange.collapse_sound hSome hChanges)
    typedText (Nat.succ_pos 2)

end Snapshots

end ArktsServer
