import ClonePlot.Color
import ClonePlot.Metric

/-! # Color ramps

Evenly spaced color stops and the colors between them.
-/
namespace ClonePlot

structure Ramp where
  stops : Array Color

namespace Ramp

def standard : Ramp :=
  ⟨#[⟨0, 0, 255, 255⟩, ⟨0, 192, 255, 255⟩, ⟨0, 192, 0, 255⟩, ⟨240, 200, 0, 255⟩, ⟨255, 0, 0, 255⟩]⟩

instance : Inhabited Ramp := ⟨standard⟩

/-- The channel value `t` of the way from `a` to `b`, a half going up. -/
def between (t : Float) (a b : UInt8) : UInt8 :=
  (a.toFloat + (b.toFloat - a.toFloat) * t).round.toUInt8

/-- The color at a ratio, which is cut off at 0 and 1; no number counts as 0. -/
def sample? (ramp : Ramp) (ratio : Float) : Option Color := do
  let first ← ramp.stops[0]?
  let last ← ramp.stops[ramp.stops.size - 1]?
  let r := if ratio.isNaN then 0 else MetricTable.toUnit ratio
  if ramp.stops.size = 1 || r ≤ 0 then return first
  if 1 ≤ r then return last
  let place := r * (ramp.stops.size - 1).toFloat
  let i := place.floor.toUInt64.toNat
  let t := place - i.toFloat
  let a ← ramp.stops[i]?
  let b ← ramp.stops[i + 1]?
  return ⟨between t a.red b.red, between t a.green b.green, between t a.blue b.blue, 255⟩

end Ramp
end ClonePlot
