import ClonePlot.Change
import ClonePlot.Directory.Box
import ClonePlot.IndexSet
import ClonePlot.Model
import ClonePlot.Scene.Marker

/-! # What a gesture selects

A click selects the innermost directory box around it. A rectangle selects the files along
both of its sides; between one file on each side also the clones it touches and the region
it marks out. The row of a clone is its left file, the column its right file.
-/
namespace ClonePlot

/-- The files from `first` to `last`, both included. -/
structure FileRange where
  first : Nat
  last : Nat
  deriving DecidableEq, Repr

namespace FileRange

def toList (r : FileRange) : List Nat := List.range' r.first (r.last + 1 - r.first)

theorem mem_toList {r : FileRange} {i : Nat} : i ∈ r.toList ↔ r.first ≤ i ∧ i ≤ r.last := by
  simp only [toList, List.mem_range'_1]
  omega

def touches (a b : FileRange) : Bool :=
  b.first ≤ min (a.last + 1) maxOffset && a.first ≤ min (b.last + 1) maxOffset

def merge (a b : FileRange) : List FileRange :=
  if a.touches b then [⟨min a.first b.first, max a.last b.last⟩] else [a, b]

end FileRange

def smallestBox? : List DirectoryBox → Option DirectoryBox
  | [] => none
  | b :: rest =>
    match smallestBox? rest with
    | none => some b
    | some c => if c.extent < b.extent then some c else some b

def boxAt? (boxes : List DirectoryBox) (p : Point) : Option DirectoryBox :=
  let low := min p.x p.y
  let high := max p.x p.y
  smallestBox? (boxes.filter fun b => b.containsPixel low && b.containsPixel high)

/-- Narrower and shorter rectangles are clicks, which must hit a file. -/
def tinyDrag : Int := 2

structure DragSelection where
  rows : Option FileRange := none
  cols : Option FileRange := none
  files : IndexSet := ∅
  deriving DecidableEq

namespace DragSelection

/-- The row and the column file, if the rectangle stays in one file on each side. -/
def singleCell? (d : DragSelection) : Option (Nat × Nat) := do
  let rows ← d.rows
  let cols ← d.cols
  if rows.first = rows.last ∧ cols.first = cols.last then some (rows.first, cols.first) else none

end DragSelection

namespace Mapper

/-- The files shown from pixel `low` to pixel `high`, none if the pixels lie wholly before
the first file or start past the last. -/
def axisFiles? (m : Mapper) (low high : Int) : Option FileRange :=
  if high < 0 then none
  else do
    let low := max low 0
    let _ ← m.position? low false
    let first ← m.file? low true
    let last ← m.file? high true
    return ⟨first, max last first⟩

def selectedFiles : Option FileRange → Option FileRange → IndexSet
  | some rows, some cols => .ofList ((rows.merge cols).flatMap FileRange.toList)
  | some only, none | none, some only => .ofList only.toList
  | none, none => ∅

def isTiny (r : PixelRect) : Except Overflow Bool := do
  if (← r.width) < tinyDrag then return (← r.height) < tinyDrag else return false

def hits (m : Mapper) (r : PixelRect) : Bool :=
  (m.file? r.x0 false).isSome && (m.file? r.y0 false).isSome

def sideFiles (m : Mapper) (r : PixelRect) : DragSelection :=
  let rows := m.axisFiles? r.y0 r.y1
  let cols := m.axisFiles? r.x0 r.x1
  ⟨rows, cols, selectedFiles rows cols⟩

/-- What a rectangle selects; a tiny one has to hit files. -/
def dragSelection (m : Mapper) (r : PixelRect) : Except Overflow DragSelection := do
  if (← isTiny r) && !m.hits r then return {} else return m.sideFiles r

def pairBounds (m : Mapper) (p : ClonePair) : PixelRect :=
  .ofCorners (m.pairStart p) (m.pairStop p)

def checkPair (m : Mapper) (p : ClonePair) : Except Overflow Unit := do
  m.checkStart p
  m.checkStop p

/-- The clones between the first row file and the first column file that a rectangle
touches. -/
def clonesIn (m : Mapper) (model : Model) (r : PixelRect) (d : DragSelection) :
    Except Overflow (List ClonePair) :=
  match d.rows, d.cols with
  | some rows, some cols => do
    let cell := model.rowRange rows.first cols.first (cols.first + 1)
    cell.forM m.checkPair
    return cell.filter fun p => (m.pairBounds p).intersects r
  | _, _ => return []

/-- The offset into a file at which a pixel starts, kept inside the file. -/
def offsetIn (m : Mapper) (p : Int) (file : Nat) : Nat :=
  let start := m.layout.start file
  max start (min ((max p 0).toNat * m.zoom) (m.layout.stop file)) - start

def fragmentIn (m : Mapper) (file : Nat) (first last : Int) : Except Overflow Fragment := do
  return ⟨file, m.offsetIn first file, m.offsetIn (← addPixels last 1) file⟩

/-- The region that a rectangle inside one cell marks out: the row file's fragment, then
the column file's. -/
def region? (m : Mapper) (r : PixelRect) (d : DragSelection) : Except Overflow (Option Change) :=
  match d.singleCell? with
  | none => return none
  | some cell => do
    let a ← m.fragmentIn cell.1 r.y0 r.y1
    let b ← m.fragmentIn cell.2 r.x0 r.x1
    return some (.region a b)

end Mapper
end ClonePlot
