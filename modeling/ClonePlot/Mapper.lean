import ClonePlot.Layout
import ClonePlot.Point

/-! # Offsets and pixels

A square drawing of `drawSize` pixels shows the offset line along both axes, `zoom`
offsets to a pixel. Pixels come back to offsets as the first offset of their block.
Pixels are signed 64-bit quantities; an offset quotient beyond that range wraps.
-/
namespace ClonePlot

/-- The least number of offsets per pixel with which `total` fits into `drawSize` pixels. -/
def zoomFor (total drawSize : Nat) : Nat :=
  if drawSize = 0 then max total 1 else max ((total + drawSize - 1) / drawSize) 1

theorem zoomFor_pos (total drawSize : Nat) : 0 < zoomFor total drawSize := by
  unfold zoomFor
  split <;> omega

structure Position where
  file : Nat
  offset : Nat
  deriving DecidableEq, Repr

structure Mapper where
  layout : Layout
  drawSize : Nat

namespace Mapper

def empty : Mapper := ⟨.empty, 0⟩

instance : Inhabited Mapper := ⟨empty⟩

def zoom (m : Mapper) : Nat := zoomFor m.layout.total m.drawSize

theorem zoom_pos (m : Mapper) : 0 < m.zoom := zoomFor_pos _ _

/-- The pixel that shows an offset, or the number of whole pixels a length spans. -/
def pixel (m : Mapper) (offset : Nat) : Int := wrap64 (offset / m.zoom : Nat)

def startPixel (m : Mapper) (file : Nat) : Int := m.pixel (m.layout.start file)

def stopPixel (m : Mapper) (file : Nat) : Int := m.pixel (m.layout.stop file)

def extent (m : Mapper) : Int := m.pixel m.layout.total

/-- The place shown at a pixel. Outside the corpus there is none, unless `rounding`
moves the pixel to the nearer end of the line. -/
def position? (m : Mapper) (p : Int) (rounding : Bool) : Option Position :=
  if m.layout.isEmpty then none
  else
    let offset := p * (m.zoom : Int)
    if offset < 0 then
      if rounding then some ⟨0, 0⟩ else none
    else if (m.layout.total : Int) ≤ offset then
      if rounding then
        let last := m.layout.fileCount - 1
        some ⟨last, m.layout.size last⟩
      else none
    else
      (m.layout.containing offset.toNat).map fun file =>
        ⟨file, min (offset.toNat - m.layout.start file) (m.layout.size file)⟩

def file? (m : Mapper) (p : Int) (rounding : Bool) : Option Nat :=
  (m.position? p rounding).map Position.file

end Mapper
end ClonePlot
