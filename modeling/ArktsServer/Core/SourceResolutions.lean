import ArktsServer.Core.BindingSources
import ArktsServer.Lib.Unanimity

/-
  The resolutions of callers are votes: what they do to the
  bindings depends on which valid resolutions there are, not
  on their order or number, and where two of them disagree
  nothing changes.

  Key definitions include:
    * `resolutionVotes`
    * `ReferenceBinding.Disputed`
    * `ReferenceBinding.Tagged`
    * `ReferenceBinding.SoundResolution`

  Correctness is proven by:
    * `resolutionTargets_eq`
    * `applyReferenceSourceResolutions_congr`
    * `sourceResolutions_orderIndependent`
-/

namespace ArktsServer

open Unanimity

----------
-- Votes
----------

/- The key of a resolution. -/
def ReferenceSourceResolution.key
    (resolution : ReferenceSourceResolution) :
    String × String :=
  (resolution.bindingUri, resolution.sourceSpecifier)

/- The vote of a valid resolution about a key. -/
def resolutionVote
    (documentUris : OrderedSet String)
    (key : String × String)
    (resolution : ReferenceSourceResolution) :
    Option ResolutionTarget :=
  if resolution.key = key then
    resolutionTarget documentUris resolution
  else
    none

def resolutionVotes
    (documentUris : OrderedSet String)
    (resolutions : List ReferenceSourceResolution)
    (key : String × String) :
    List ResolutionTarget :=
  resolutions.filterMap (resolutionVote documentUris key)

/- One resolution casts its vote, if it has one. -/
theorem recordResolution_apply
    (documentUris : OrderedSet String)
    (resolved : ResolutionTargets)
    (resolution : ReferenceSourceResolution)
    (key : String × String) :
    recordResolution documentUris resolved resolution key =
      (resolutionVote documentUris key
          resolution).toList.foldl weigh (resolved key) := by
  unfold recordResolution resolutionVote
  cases hTarget : resolutionTarget documentUris resolution with
  | none => split <;> rfl
  | some target =>
    by_cases hKey : resolution.key = key
    · subst hKey
      rw [if_pos rfl]
      change Function.update resolved resolution.key _ _ = _
      rw [Function.update_self]
      unfold weigh ReferenceSourceResolution.key
      cases resolved
          (resolution.bindingUri, resolution.sourceSpecifier) with
      | none => rfl
      | some previous => rfl
    · rw [if_neg hKey]
      change Function.update resolved resolution.key _ _ = _
      rw [Function.update_of_ne (Ne.symm hKey)]
      rfl

/- The map of the loop holds the verdict on every key. -/
theorem resolutionTargets_eq
    (documentUris : OrderedSet String)
    (resolutions : List ReferenceSourceResolution)
    (key : String × String) :
    resolutionTargets documentUris resolutions key =
      verdict (resolutionVotes documentUris resolutions key) := by
  have hLoop :
      ∀ (resolutions : List ReferenceSourceResolution)
        (resolved : ResolutionTargets),
        resolutions.foldl (recordResolution documentUris)
            resolved key =
          (resolutionVotes documentUris resolutions
            key).foldl weigh (resolved key) := by
    intro resolutions
    induction resolutions with
    | nil =>
      intro resolved
      rfl
    | cons resolution resolutions ih =>
      intro resolved
      have hVotes :
          resolutionVotes documentUris
              (resolution :: resolutions) key =
            (resolutionVote documentUris key
                resolution).toList
              ++ resolutionVotes documentUris resolutions
                key := by
        unfold resolutionVotes
        rw [List.filterMap_cons]
        cases resolutionVote documentUris key resolution with
        | none => rfl
        | some target => rfl
      rw [List.foldl_cons, ih, recordResolution_apply,
        hVotes, List.foldl_append]
  exact hLoop resolutions fun _ => none

variable {left right : List ReferenceSourceResolution}

/- Resolutions with the same members give the same targets. -/
theorem resolutionTargets_congr
    {documentUris : OrderedSet String}
    (hSame :
      ∀ resolution,
        resolution ∈ left ↔ resolution ∈ right) :
    resolutionTargets documentUris left =
      resolutionTargets documentUris right := by
  funext key
  rw [resolutionTargets_eq, resolutionTargets_eq]
  apply verdict_eq_of_mem_iff
  intro vote
  simp only [resolutionVotes, List.mem_filterMap, hSame]

theorem applyReferenceSourceResolutions_congr
    (bindings : List ReferenceBinding)
    (documentUris : OrderedSet String)
    (hSame :
      ∀ resolution,
        resolution ∈ left ↔ resolution ∈ right) :
    applyReferenceSourceResolutions bindings left
        documentUris =
      applyReferenceSourceResolutions bindings right
        documentUris := by
  unfold applyReferenceSourceResolutions
  rw [resolutionTargets_congr hSame]

----------
-- Bindings
----------

namespace ReferenceBinding

def key (binding : ReferenceBinding) : String × String :=
  (binding.uri, binding.sourceSpecifier)

/- Two valid resolutions of the binding disagree. -/
def Disputed
    (documentUris : OrderedSet String)
    (resolutions : List ReferenceSourceResolution)
    (binding : ReferenceBinding) : Prop :=
  ∃ left ∈ resolutions,
    ∃ right ∈ resolutions,
      ∃ one other,
        left.key = binding.key ∧
        right.key = binding.key ∧
        resolutionTarget documentUris left = some one ∧
        resolutionTarget documentUris right = some other ∧
        one ≠ other

/- Each payload stands under its own tag. -/
structure Tagged (binding : ReferenceBinding) : Prop where
  unique_iff :
    binding.resolvedSourceUri.isSome ↔
      binding.sourceResolution = .unique
  external_iff :
    binding.externalTerminalIdentity.isSome ↔
      binding.sourceResolution = .external

/- What resolutions may make of one binding. -/
structure SoundResolution
    (documentUris : OrderedSet String)
    (resolutions : List ReferenceSourceResolution)
    (before after : ReferenceBinding) : Prop where
  unique :
    before.sourceResolution = .unique → after = before
  disputed :
    before.Disputed documentUris resolutions → after = before
  tagged : before.Tagged → after.Tagged

end ReferenceBinding

section

variable {documentUris : OrderedSet String}
variable {resolutions : List ReferenceSourceResolution}
variable {binding : ReferenceBinding}

/- A dispute poisons the key of the binding. -/
theorem resolutionTargets_of_disputed
    (hDisputed : binding.Disputed documentUris resolutions) :
    resolutionTargets documentUris resolutions binding.key =
      some none := by
  rcases hDisputed with
    ⟨left, hLeft, right, hRight, one, other, hLeftKey,
      hRightKey, hOne, hOther, hNe⟩
  rw [resolutionTargets_eq, verdict_eq_contradiction_iff]
  refine ⟨one, ?_, other, ?_, hNe⟩
  · refine List.mem_filterMap.mpr ⟨left, hLeft, ?_⟩
    unfold resolutionVote
    rw [if_pos hLeftKey, hOne]
  · refine List.mem_filterMap.mpr ⟨right, hRight, ?_⟩
    unfold resolutionVote
    rw [if_pos hRightKey, hOther]

variable (targets : ResolutionTargets)

theorem applyReferenceSourceResolution_tagged
    (hTagged : binding.Tagged) :
    (applyReferenceSourceResolution targets
      binding).Tagged := by
  unfold applyReferenceSourceResolution
  split
  · exact hTagged
  · split
    · constructor <;> simp
    · constructor <;> simp
    · exact hTagged

/- A second application finds everything as it would be. -/
theorem applyReferenceSourceResolution_idem
    (binding : ReferenceBinding) :
    applyReferenceSourceResolution targets
        (applyReferenceSourceResolution targets binding) =
      applyReferenceSourceResolution targets binding := by
  unfold applyReferenceSourceResolution
  by_cases hUnique : binding.sourceResolution = .unique
  · simp [hUnique]
  · cases hTarget :
        targets (binding.uri, binding.sourceSpecifier) with
    | none => simp [hUnique, hTarget]
    | some outcome =>
      cases outcome with
      | none => simp [hUnique, hTarget]
      | some target =>
        cases target with
        | workspace uri => simp [hUnique]
        | external identity => simp [hUnique, hTarget]

theorem applyReferenceSourceResolution_sound
    (binding : ReferenceBinding) :
    binding.SoundResolution documentUris resolutions
      (applyReferenceSourceResolution
        (resolutionTargets documentUris resolutions)
        binding) where
  unique := by
    intro hUnique
    unfold applyReferenceSourceResolution
    rw [if_pos hUnique]
  disputed := by
    intro hDisputed
    have hPoisoned := resolutionTargets_of_disputed hDisputed
    unfold ReferenceBinding.key at hPoisoned
    unfold applyReferenceSourceResolution
    rw [hPoisoned, ite_self]
  tagged := applyReferenceSourceResolution_tagged _

end

/-
  Only the set of resolutions counts, applying them twice is
  applying them once, and every binding of the slice is
  treated soundly.
-/
theorem sourceResolutions_orderIndependent
    (bindings : List ReferenceBinding)
    (resolutions : List ReferenceSourceResolution)
    (documentUris : OrderedSet String) :
    (∀ others : List ReferenceSourceResolution,
      (∀ resolution,
        resolution ∈ others ↔ resolution ∈ resolutions) →
      applyReferenceSourceResolutions bindings others
          documentUris =
        applyReferenceSourceResolutions bindings resolutions
          documentUris) ∧
    applyReferenceSourceResolutions
        (applyReferenceSourceResolutions bindings resolutions
          documentUris)
        resolutions documentUris =
      applyReferenceSourceResolutions bindings resolutions
        documentUris ∧
    List.Forall₂
      (ReferenceBinding.SoundResolution documentUris
        resolutions)
      bindings
      (applyReferenceSourceResolutions bindings resolutions
        documentUris) := by
  refine ⟨?_, ?_, ?_⟩
  · intro others hSame
    exact
      applyReferenceSourceResolutions_congr bindings
        documentUris hSame
  · unfold applyReferenceSourceResolutions
    rw [List.map_map]
    apply List.map_congr_left
    intro binding _
    exact applyReferenceSourceResolution_idem _ binding
  · unfold applyReferenceSourceResolutions
    rw [List.forall₂_map_right_iff, List.forall₂_same]
    intro binding _
    exact applyReferenceSourceResolution_sound binding

end ArktsServer
