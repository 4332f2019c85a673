import ClonePlot.Gesture
import ClonePlot.Rebuild
import ClonePlot.Selection
import ClonePlot.Settings

/-! # Views

A view shows a model: it keeps the positions computed for it, the selection, a drag in
progress, and the last picture. Changes of model, size, metric or looks redraw at once;
gestures only mark the picture as stale, and it is redrawn when it is next asked for.
-/
namespace ClonePlot

structure Drag where
  anchor : Point
  current : Point
  deriving DecidableEq, Repr

def Drag.rect (d : Drag) : PixelRect := .ofCorners d.anchor d.current

inductive ViewState
  | idle
  | rebuilding
  deriving DecidableEq, Repr

structure View where
  model : Model
  table : Option MetricTable
  metric : Option String
  /-- The clone classes of the model. -/
  known : IndexSet
  settings : Settings
  mapper : Mapper
  directories : Directories
  boxes : List DirectoryBox
  frontier : List Nat
  selection : Selection
  drag : Option Drag
  canvas : Canvas
  scheduler : Scheduler
  counters : RebuildCounters
  state : ViewState := .idle

/-- Places on both axes that one pixel shows. -/
structure PlacePair where
  row : Position
  col : Position
  deriving DecidableEq, Repr

def Model.mapper (m : Model) (size : Nat) : Mapper := ⟨.ofSizes m.sizes, size⟩

def Model.directories (m : Model) : Directories :=
  .ofPaths (m.files.toList.map SourceFile.path)

def Model.classes (m : Model) : IndexSet :=
  .ofList (((List.range m.fileCount).flatMap m.row).map ClonePair.classId)

namespace View

def isStale (v : View) : Bool := v.scheduler.isPending

def drawSize (v : View) : Nat := v.settings.cappedSize

def coloring (v : View) : Option Coloring := do
  let name ← v.metric
  let table ← v.table
  let metric ← table.index? name
  return ⟨table, metric, v.settings.ramp⟩

/-- Brings the positions up to date with what a trigger changed. -/
def place (v : View) (t : Trigger) : View :=
  if t.movesPixels then
    let mapper := v.model.mapper v.drawSize
    let directories := if t = .model then v.model.directories else v.directories
    let frontier := if t = .model then v.model.frontier else v.frontier
    { v with mapper, directories, frontier, boxes := directories.boxes mapper }
  else v

def scene (v : View) : Scene where
  model := v.model
  mapper := v.mapper
  directories := v.directories
  boxes := v.boxes
  frontier := v.frontier
  options := v.settings.options
  palette := v.settings.palette
  coloring := v.coloring
  selected := v.selection.files
  drag := v.drag.map Drag.rect

def canReuse (v : View) : Bool :=
  v.canvas.width == v.mapper.drawSize && v.canvas.height == v.mapper.drawSize

def redraw (v : View) (t : Trigger) : View :=
  let allocations := v.counters.allocations + (if v.canReuse then 0 else 1)
  let target := if v.canReuse then some v.canvas else none
  { v with
    canvas := v.scene.frame target,
    counters := { v.counters.record t v.scene.stats 0 with allocations },
    state := .idle }

def flush (v : View) : View :=
  match v.scheduler.consume with
  | (none, _) => v
  | (some d, scheduler) =>
    (View.place { v with scheduler, state := .rebuilding } d.trigger).redraw d.trigger

def mark (v : View) (t : Trigger) : View := { v with scheduler := v.scheduler.mark t }

def rebuild (v : View) (t : Trigger) : View := (v.mark t).flush

def ofSettings (settings : Settings) : View :=
  View.rebuild
    { model := .empty, table := none, metric := none, known := ∅, settings, mapper := .empty,
      directories := .empty, boxes := [], frontier := [], selection := {}, drag := none,
      canvas := .blank 0 0 (settings.palette.color .background), scheduler := {}, counters := {} }
    .model

def updateModel (v : View) (model : Model) (table : Option MetricTable) : View :=
  View.rebuild { v with model, table, known := model.classes, selection := {}, drag := none } .model

def resize (v : View) (width height : Nat) : View :=
  let base := min width height
  if !v.settings.fitToWindow || base == v.settings.baseSize then v
  else View.rebuild { v with settings := { v.settings with baseSize := base } } .resize

/-- Sets the multiplier of the drawing area unless the area would be too large. -/
def resizeDrawingArea (v : View) (multiplier : Nat) : Except DrawSizeTooLarge View := do
  let _ ← ClonePlot.drawSize v.settings.baseSize multiplier
  return View.rebuild { v with settings := { v.settings with multiplier := max multiplier 1 } } .command

def setMetric (v : View) (metric : Option String) : View :=
  View.rebuild { v with metric } .metric

def setOptions (v : View) (options : DrawOptions) : View :=
  if options = v.settings.options then v
  else View.rebuild { v with settings := { v.settings with options } } .overlay

def toggle (v : View) (overlay : Overlay) : View :=
  v.setOptions (v.settings.options.toggle overlay)

def setPalette (v : View) (palette : Palette) : View :=
  View.rebuild { v with settings := { v.settings with palette } } .overlay

def click (v : View) (p : Point) : View :=
  let files := (boxAt? v.boxes p).elim [] fun b => List.range' b.files.start b.files.size
  View.mark { v with selection := Selection.empty.setFiles files } .selection

def beginDrag (v : View) (p : Point) : View :=
  View.mark { v with drag := some ⟨p, p⟩ } .drag

def dragTo (v : View) (p : Point) : View :=
  match v.drag with
  | none => v
  | some d => View.mark { v with drag := some { d with current := p } } .drag

/-- The rectangle of a drag that ends at a point; without a drag, the point alone. -/
def endRect (v : View) (p : Point) : PixelRect :=
  .ofCorners (v.drag.elim p Drag.anchor) p

def selectRect (v : View) (r : PixelRect) : Except Overflow (DragSelection × View) := do
  let d ← v.mapper.dragSelection r
  let clones ← v.mapper.clonesIn v.model r d
  let selection := (v.selection.setFiles d.files.toList).setPairs clones
  return (d, View.mark { v with selection } .selection)

def dropDrag (v : View) : View := { v with drag := none }

def clearSelection (v : View) : View := View.mark { v with selection := {} } .selection

def filesChange (v : View) : Change := .files v.selection.files.toList

/-- What siblings are told about the files and clones of a rectangle. -/
def rectChanges (v : View) : List Change :=
  v.filesChange ::
    if v.selection.classes.isEmpty then [] else [.classes v.selection.classes.toList]

def placesAt? (v : View) (p : Point) : Option PlacePair := do
  return ⟨← v.mapper.position? p.y false, ← v.mapper.position? p.x false⟩

/-- Takes over a selection made elsewhere, as far as it exists in this model. -/
def receive (v : View) (change : Change) : View :=
  let selection := match change with
    | .files files => v.selection.setFiles files
    | .classes classes => v.selection.setClasses classes
    | .region a b => v.selection.setFiles [a.file, b.file]
  View.mark { v with selection := selection.retain v.model.fileCount v.known } .selection

end View
end ClonePlot
