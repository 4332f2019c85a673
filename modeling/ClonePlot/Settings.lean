import ClonePlot.Options
import ClonePlot.Palette
import ClonePlot.Ramp

/-! # View settings

How large the picture is and how it looks. The drawing area is a square of a base size
times a multiplier, up to `maxDrawSize`.
-/
namespace ClonePlot

def maxDrawSize : Nat := 16384

structure DrawSizeTooLarge where
  requested : Nat
  deriving DecidableEq, Repr

def DrawSizeTooLarge.message (e : DrawSizeTooLarge) : String :=
  s!"drawing area of {e.requested}px exceeds the {maxDrawSize}px limit"

/-- The edge of a drawing area; a multiplier of zero counts as one. -/
def drawSize (base multiplier : Nat) : Except DrawSizeTooLarge Nat :=
  let requested := base * max multiplier 1
  if maxDrawSize < requested then .error ⟨requested⟩ else .ok requested

structure Settings where
  baseSize : Nat := 800
  fitToWindow : Bool := true
  multiplier : Nat := 1
  options : DrawOptions := {}
  palette : Palette := .standard
  ramp : Ramp := .standard
  deriving Inhabited

namespace Settings

def drawSize (s : Settings) : Except DrawSizeTooLarge Nat :=
  ClonePlot.drawSize s.baseSize s.multiplier

def cappedSize (s : Settings) : Nat :=
  match s.drawSize with
  | .ok size => size
  | .error _ => maxDrawSize

theorem cappedSize_le (s : Settings) : s.cappedSize ≤ maxDrawSize := by
  unfold cappedSize drawSize ClonePlot.drawSize
  split
  · rename_i h
    dsimp only at h
    split at h
    · simp at h
    · injection h with h
      omega
  · exact Nat.le_refl _

end Settings
end ClonePlot
