import ClonePlot.Directory.Box
import ClonePlot.Canvas.Shape

/-! # Box labels

The label of a box stands on a rounded pill in its first corner. A label is left out if
its pill does not fit into the box, or would touch the place of the parent's pill.
-/
namespace ClonePlot

def labelScale : Int := 2

def labelMargin : Int := 2

def labelRadius : Int := 3

/-- The pill of a box, one pixel inside its outline, if it has a label that fits. -/
def DirectoryBox.pill? (b : DirectoryBox) : Option PixelRect :=
  let first : Point := ⟨b.startPixel + 1, b.startPixel + 1⟩
  let last : Point := ⟨first.x + Font.width b.label labelScale + 2 * labelMargin - 1,
    first.y + Font.height labelScale + 2 * labelMargin - 1⟩
  if b.label.isEmpty then none
  else if last.x ≤ b.stopPixel - 2 ∧ last.y ≤ b.stopPixel - 2 then some (.ofCorners first last)
  else none

inductive LabelFate
  | absent
  | suppressed
  | drawn (pill : PixelRect)
  deriving DecidableEq

def labelFate (boxes : Array DirectoryBox) (b : DirectoryBox) : LabelFate :=
  if b.label.isEmpty then .absent
  else match b.pill? with
    | none => .suppressed
    | some pill =>
      match (b.parent.bind (boxes[·]?)).bind DirectoryBox.pill? with
      | some outer => if outer.intersects pill then .suppressed else .drawn pill
      | none => .drawn pill

def drawLabel (c : Canvas) (pill : PixelRect) (label : String) (background ink : Color) : Canvas :=
  (c.roundedRect pill.x0 pill.y0 pill.x1 pill.y1 labelRadius background).text
    ⟨pill.x0 + labelMargin, pill.y0 + labelMargin⟩ labelScale label ink

end ClonePlot
