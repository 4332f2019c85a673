import ClonePlot.IndexSet
import ClonePlot.Frontier
import ClonePlot.Options
import ClonePlot.Palette
import ClonePlot.Ramp
import ClonePlot.Scene.Label
import ClonePlot.Scene.Marker

/-! # Scenes and frames

A scene is all that one frame shows. Its layers are painted from back to front: regions
free of clones, separators between files, directory boxes with their labels, markers, the
selected files, and the rectangle being dragged. A corpus without content shows the
background alone.
-/
namespace ClonePlot

structure Coloring where
  table : MetricTable
  metric : Nat
  ramp : Ramp

def Coloring.color? (c : Coloring) (classId : Nat) : Option Color :=
  (c.table.ratio? c.metric classId).bind c.ramp.sample?

structure Scene where
  model : Model
  mapper : Mapper
  directories : Directories
  boxes : List DirectoryBox
  frontier : List Nat
  options : DrawOptions
  palette : Palette
  coloring : Option Coloring
  selected : IndexSet
  drag : Option PixelRect

structure FrameStats where
  markers : Nat := 0
  dots : Nat := 0
  boxes : Nat := 0
  labelsDrawn : Nat := 0
  labelsSuppressed : Nat := 0
  deriving DecidableEq, Repr

namespace Scene

def color (s : Scene) (slot : PaletteSlot) : Color := s.palette.color slot

def fileCount (s : Scene) : Nat := s.mapper.layout.fileCount

/-- The cells of one row that lie past the frontier, and their reflection. -/
def shadeRow (s : Scene) (c : Canvas) (row frontier : Nat) : Canvas :=
  if s.fileCount ≤ frontier then c
  else
    let y0 := s.mapper.startPixel row
    let y1 := s.mapper.startPixel (row + 1)
    let x0 := s.mapper.startPixel frontier
    let stop := s.mapper.extent
    (c.fillRect x0 y0 stop y1 (s.color .noClone)).fillRect y0 x0 y1 stop (s.color .noClone)

def shade (s : Scene) (c : Canvas) : Canvas :=
  (s.frontier.take s.fileCount).zipIdx.foldl (fun c (frontier, row) => s.shadeRow c row frontier) c

def separator? (s : Scene) (i : Nat) : Option Color :=
  if s.options.gaps && s.directories.isBreak i then some (s.color .gap)
  else if s.options.boundaries then some (s.color .boundary)
  else none

def separate (s : Scene) (c : Canvas) : Canvas :=
  let last := s.mapper.extent - 1
  (List.range' 1 (s.fileCount - 1)).foldl (fun c i =>
    match s.separator? i with
    | none => c
    | some color =>
      let p := s.mapper.startPixel i
      (c.vline p 0 last color).hline 0 last p color) c

def outlineBoxes (s : Scene) (c : Canvas) : Canvas :=
  s.boxes.foldl (fun c b => c.outlineRect b.startPixel b.startPixel (b.stopPixel - 1)
    (b.stopPixel - 1) (s.color .boxOutline)) c

def labelFates (s : Scene) : List (DirectoryBox × LabelFate) :=
  let boxes := s.boxes.toArray
  s.boxes.map fun b => (b, labelFate boxes b)

def labelBoxes (s : Scene) (c : Canvas) : Canvas :=
  s.labelFates.foldl (fun c (b, fate) =>
    match fate with
    | .drawn pill => drawLabel c pill b.label (s.color .labelBackground) (s.color .labelText)
    | _ => c) c

def markedPairs (s : Scene) : List ClonePair :=
  (List.range s.model.fileCount).flatMap s.model.row

def markerColor (s : Scene) (p : ClonePair) : Color :=
  (s.coloring.bind (·.color? p.classId)).getD (s.color .clone)

def mark (s : Scene) (c : Canvas) : Canvas :=
  s.markedPairs.foldl (fun c p => (s.mapper.marker p).draw c (s.markerColor p)) c

/-- The first and last pixel of a run of files, which is never narrower than one pixel. -/
def runSpan (s : Scene) (run : Nat × Nat) : Int × Int :=
  let first := s.mapper.startPixel run.1
  (first, max (s.mapper.startPixel run.2) (first + 1) - 1)

def selectedSpans (s : Scene) : List (Int × Int) :=
  (s.selected.filter (· < s.fileCount)).runs.map s.runSpan

def highlightBlock (s : Scene) (rows cols : Int × Int) (c : Canvas) : Canvas :=
  (c.fillRect cols.1 rows.1 (cols.2 + 1) (rows.2 + 1) (s.color .selectionFill)).outlineRect
    cols.1 rows.1 cols.2 rows.2 (s.color .selectionOutline)

def highlight (s : Scene) (c : Canvas) : Canvas :=
  s.selectedSpans.foldl (fun c rows =>
    s.selectedSpans.foldl (fun c cols => s.highlightBlock rows cols c) c) c

def outlineDrag (s : Scene) (c : Canvas) : Canvas :=
  match s.drag with
  | none => c
  | some r => c.outlineRect r.x0 r.y0 r.x1 r.y1 (s.color .drag)

def drawBoxes (s : Scene) (c : Canvas) : Canvas :=
  let c := s.outlineBoxes c
  if s.options.labels then s.labelBoxes c else c

def paintOn (s : Scene) (c : Canvas) : Canvas :=
  if s.mapper.layout.isEmpty then c
  else
    let c := if s.options.noCloneRegions then s.shade c else c
    let c := s.separate c
    let c := if s.options.directoryBoxes then s.drawBoxes c else c
    s.outlineDrag (s.highlight (s.mark c))

/-- The background, on a used canvas if that has the right size. -/
def backdrop (s : Scene) (target : Option Canvas) : Canvas :=
  let size := s.mapper.drawSize
  match target with
  | some c =>
    if c.width = size ∧ c.height = size then c.fill (s.color .background)
    else .blank size size (s.color .background)
  | none => .blank size size (s.color .background)

theorem backdrop_eq (s : Scene) (target : Option Canvas) :
    s.backdrop target = .blank s.mapper.drawSize s.mapper.drawSize (s.color .background) := by
  unfold backdrop
  cases target with
  | none => rfl
  | some c =>
    dsimp only
    split
    · rename_i h
      rw [Canvas.fill_eq_blank, h.1, h.2]
    · rfl

def frame (s : Scene) (target : Option Canvas) : Canvas := s.paintOn (s.backdrop target)

def checkDrag (s : Scene) : Except Overflow Unit :=
  s.drag.elim (.ok ()) fun r => Canvas.checkOutline r.x0 r.y0 r.x1 r.y1

/-- The sums behind a frame that need not fit; all else is as small as the drawing. -/
def check (s : Scene) : Except Overflow Unit := do
  if s.mapper.layout.isEmpty then return
  s.markedPairs.forM s.mapper.checkMarker
  s.checkDrag

def countLabels (s : Scene) (counts : LabelFate → Bool) : Nat :=
  if s.options.labels then s.labelFates.countP (counts ·.2) else 0

def boxStats (s : Scene) : FrameStats :=
  { boxes := s.boxes.length,
    labelsDrawn := s.countLabels fun fate => fate matches .drawn _,
    labelsSuppressed := s.countLabels (· == .suppressed) }

def stats (s : Scene) : FrameStats :=
  if s.mapper.layout.isEmpty then {}
  else
    let base := if s.options.directoryBoxes then s.boxStats else {}
    { base with
      markers := s.markedPairs.length,
      dots := s.markedPairs.countP fun p => (s.mapper.marker p).isDot }

end Scene
end ClonePlot
