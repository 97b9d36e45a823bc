import Mathlib.Data.Option.Basic

/-
  Numbered generations of data built from a changing input.

  A build gets a generation above the committed one and
  reads the input from its start on, so that it covers the
  changes before its start.  A reader who knows the newest
  generation of some moment can recognise, by number alone,
  a later generation that covers the changes up to then.

  Main declarations:
    * `Builds`, `Builds.start`, `Builds.commit`
    * `Builds.Certifies`
    * `Builds.certifies_newest`
    * `Builds.Certifies.start`, `Builds.Certifies.commit`
-/

namespace ArktsServer

/- A build under way, and the changes before its start. -/
structure Build where
  generation : Nat
  changes : Nat
deriving DecidableEq

/- `covered` counts the changes that a commit covers. -/
structure Builds where
  committed : Nat := 0
  building : Option Build := none
  covered : Nat := 0
deriving DecidableEq

namespace Builds

----------
-- Operations
----------

def start
    (builds : Builds)
    (generation changes : Nat) : Builds :=
  { builds with building := some ⟨generation, changes⟩ }

def commit
    (builds : Builds)
    (build : Build) : Builds where
  committed := build.generation
  building := none
  covered := max builds.covered build.changes

def abandon (builds : Builds) : Builds :=
  { builds with building := none }

/- A generation made in one step from the present input. -/
def confirm
    (builds : Builds)
    (generation changes : Nat) : Builds :=
  { builds with
    committed := generation
    covered := max builds.covered changes }

/- The newest generation that is known of. -/
def newest (builds : Builds) : Nat :=
  max builds.committed
    ((builds.building.map Build.generation).getD 0)

----------
-- Certification
----------

/- A commit above `baseline` covers the first `count`. -/
structure Certifies
    (builds : Builds)
    (baseline count : Nat) : Prop where
  committed :
    baseline < builds.committed → count ≤ builds.covered
  building :
    ∀ build,
      builds.building = some build →
        baseline < build.generation →
          count ≤ build.changes

/- What exists at a moment is not above its newest. -/
theorem certifies_newest
    (builds : Builds)
    (count : Nat) :
    builds.Certifies builds.newest count where
  committed := by
    intro hAbove
    unfold newest at hAbove
    omega
  building := by
    intro build hBuild hAbove
    unfold newest at hAbove
    rw [hBuild] at hAbove
    simp only [Option.map_some, Option.getD_some] at hAbove
    omega

variable {builds : Builds} {baseline count : Nat}

theorem Certifies.mono
    {higher : Nat}
    (hCertifies : builds.Certifies baseline count)
    (hHigher : baseline ≤ higher) :
    builds.Certifies higher count where
  committed := by
    intro hAbove
    exact hCertifies.committed (Nat.lt_of_le_of_lt hHigher hAbove)
  building := by
    intro build hBuild hAbove
    exact
      hCertifies.building build hBuild
        (Nat.lt_of_le_of_lt hHigher hAbove)

theorem Certifies.start
    {generation changes : Nat}
    (hCertifies : builds.Certifies baseline count)
    (hChanges : count ≤ changes) :
    (builds.start generation changes).Certifies baseline
      count where
  committed := hCertifies.committed
  building := by
    intro build hBuild _
    rw [← Option.some.inj hBuild]
    exact hChanges

/- A commit needs only what holds of the build. -/
theorem certifies_commit
    {build : Build}
    (hBuild :
      baseline < build.generation → count ≤ build.changes) :
    (builds.commit build).Certifies baseline count where
  committed := by
    intro hAbove
    exact Nat.le_trans (hBuild hAbove) (Nat.le_max_right _ _)
  building := by
    intro other hOther
    cases hOther

theorem Certifies.commit
    {build : Build}
    (hCertifies : builds.Certifies baseline count)
    (hBuilding : builds.building = some build) :
    (builds.commit build).Certifies baseline count :=
  certifies_commit (hCertifies.building build hBuilding)

theorem Certifies.abandon
    (hCertifies : builds.Certifies baseline count) :
    builds.abandon.Certifies baseline count where
  committed := hCertifies.committed
  building := by
    intro build hBuild
    cases hBuild

theorem Certifies.confirm
    {generation changes : Nat}
    (hCertifies : builds.Certifies baseline count)
    (hChanges : count ≤ changes) :
    (builds.confirm generation changes).Certifies baseline
      count where
  committed := by
    intro _
    exact Nat.le_trans hChanges (Nat.le_max_right _ _)
  building := hCertifies.building

end Builds

end ArktsServer
