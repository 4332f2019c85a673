import ClonePlot.Clone
import ClonePlot.Mapper
import ClonePlot.Canvas.Line
import ClonePlot.Canvas.Shape

/-! # Markers

A clone pair is a line in the cell of its files, from the starts of its fragments to their
ends: the left fragment along the rows, the right one along the columns. Between two files
too small for a line it is a dot.
-/
namespace ClonePlot

/-- Files of fewer pixels get no line between them. -/
def lineThreshold : Int := 4

def dotSize : Int := 2

inductive Marker
  | dot (p : Point)
  | line (p q : Point)
  deriving DecidableEq, Repr

namespace Mapper

def filePixel (m : Mapper) (file offset : Nat) : Int := m.pixel (m.layout.start file + offset)

def pairStart (m : Mapper) (p : ClonePair) : Point :=
  ⟨m.filePixel p.right.file p.right.start, m.filePixel p.left.file p.left.start⟩

def pairStop (m : Mapper) (p : ClonePair) : Point :=
  ⟨m.filePixel p.right.file p.right.stop, m.filePixel p.left.file p.left.stop⟩

def checkStart (m : Mapper) (p : ClonePair) : Except Overflow Unit := do
  let _ ← m.layout.offset p.right.file p.right.start
  let _ ← m.layout.offset p.left.file p.left.start

def checkStop (m : Mapper) (p : ClonePair) : Except Overflow Unit := do
  let _ ← m.layout.offset p.right.file p.right.stop
  let _ ← m.layout.offset p.left.file p.left.stop

def hasRoom (m : Mapper) (file : Nat) : Bool := lineThreshold ≤ m.pixel (m.layout.size file)

def marker (m : Mapper) (p : ClonePair) : Marker :=
  if m.hasRoom p.right.file || m.hasRoom p.left.file then .line (m.pairStart p) (m.pairStop p)
  else .dot (m.pairStart p)

end Mapper

namespace Marker

def isDot : Marker → Bool
  | dot _ => true
  | line _ _ => false

def draw (c : Canvas) (color : Color) : Marker → Canvas
  | dot p => c.dot p dotSize color
  | line p q => c.line p q color

end Marker

/-- The sums behind a marker; only a line needs to know where its pair stops. -/
def Mapper.checkMarker (m : Mapper) (p : ClonePair) : Except Overflow Unit := do
  m.checkStart p
  if (m.marker p).isDot then return
  m.checkStop p

end ClonePlot
