import ClonePlot.CommandLine
import ClonePlot.Config
import ClonePlot.Corpus
import ClonePlot.Image
import ClonePlot.Json.Printer
import ClonePlot.View.Linked

/-! # Plotting on command

A run loads a configuration and a corpus, performs the gestures asked for on a view, and
yields the picture with a report on it: the layout, the selection, what the view told its
bus, and what lies under a probed point.
-/
namespace ClonePlot

structure Probe where
  places : PlacePair
  rowPath : Option String
  colPath : Option String

structure Report where
  output : String
  files : Nat
  pairs : Nat
  totalSize : Nat
  drawSize : Nat
  zoom : Nat
  metric : Option String
  boxes : List DirectoryBox
  frontier : List Nat
  selectedFiles : IndexSet
  selectedClasses : IndexSet
  broadcasts : List Change
  probe : Option Probe
  rebuilds : Nat

namespace Report

open JsonValue in
def boxDocument (b : DirectoryBox) : JsonValue :=
  record [("label", string b.label), ("begin_file", nat b.files.start),
    ("end_file", nat b.files.stop), ("begin_pixel", int b.startPixel), ("end_pixel", int b.stopPixel)]

open JsonValue in
def changeDocument : Change → JsonValue
  | .files files => record [("kind", string "files"), ("files", list nat files)]
  | .classes classes => record [("kind", string "clone_sets"), ("clone_sets", list nat classes)]
  | .region a b =>
    record [("kind", string "clone_region"), ("file_a", nat a.file), ("begin_a", nat a.start),
      ("end_a", nat a.stop), ("file_b", nat b.file), ("begin_b", nat b.start), ("end_b", nat b.stop)]

open JsonValue in
def probeDocument (p : Probe) : JsonValue :=
  record [("row_file", nat p.places.row.file), ("row_path", optional string p.rowPath),
    ("row_offset", nat p.places.row.offset), ("col_file", nat p.places.col.file),
    ("col_path", optional string p.colPath), ("col_offset", nat p.places.col.offset)]

open JsonValue in
def document (r : Report) : JsonValue :=
  record [("output", string r.output), ("files", nat r.files), ("clone_pairs", nat r.pairs),
    ("total_size", nat r.totalSize), ("draw_size", nat r.drawSize), ("zoom", nat r.zoom),
    ("metric", optional string r.metric), ("boxes", list boxDocument r.boxes),
    ("frontier", list nat r.frontier),
    ("selection", record [("files", list nat r.selectedFiles.toList),
      ("clone_sets", list nat r.selectedClasses.toList)]),
    ("broadcasts", list changeDocument r.broadcasts), ("probe", optional probeDocument r.probe),
    ("rebuilds", nat r.rebuilds)]

end Report

inductive RunError
  | corpus (path : String) (cause : LoadError)
  | drawSize (cause : DrawSizeTooLarge)
  | save (cause : SaveError)
  | overflow (cause : Overflow)
  deriving DecidableEq, Repr

namespace RunError

def message : RunError → String
  | corpus path _ => s!"loading corpus {path}"
  | drawSize cause => cause.message
  | save cause => cause.message
  | overflow cause => cause.message

def cause? : RunError → Option String
  | corpus _ cause => some cause.message
  | _ => none

end RunError

/-- A finished run: the picture, its file, and the report, which follows the file. -/
structure Plot where
  path : String
  canvas : Canvas
  content : ByteArray
  report : Except Overflow Report

namespace Plot

def settings (a : Arguments) (c : Config) : Settings where
  baseSize := a.size.getD c.canvasSize
  fitToWindow := c.fitToWindow
  multiplier := max c.resizeMultiplier 1
  options := c.options
  palette := c.palette

def actions (a : Arguments) : List Action :=
  (a.multiplier.toList.map .resizeDrawingArea) ++
    (a.metric.toList.map fun name => .setMetric (some name)) ++ a.click.toList.map .click ++
    (a.drag.toList.flatMap fun (p, q) => [.beginDrag p, .dragTo q, .endDrag q]) ++ [.frame]

def act (v : LinkedView) (bus : Bus) (action : Action) : Except RunError (LinkedView × Bus) :=
  let o := v.act bus action
  match o.reply with
  | .rejected reason => .error (.drawSize reason)
  | .stopped cause => .error (.overflow cause)
  | _ => .ok (o.linked, o.bus)

def probe? (v : View) (p : Point) : Option Probe :=
  (v.placesAt? p).map fun places =>
    ⟨places, v.model.files[places.row.file]?.map SourceFile.path,
      v.model.files[places.col.file]?.map SourceFile.path⟩

def reportOn (a : Arguments) (v : View) (broadcasts : List Change) : Except Overflow Report := do
  let totalSize ← v.model.totalSize
  return {
    output := a.outputPath
    files := v.model.fileCount
    pairs := v.model.pairCount
    totalSize
    drawSize := v.drawSize
    zoom := v.mapper.zoom
    metric := v.metric
    boxes := v.boxes
    frontier := v.frontier
    selectedFiles := v.selection.files
    selectedClasses := v.selection.classes
    broadcasts
    probe := a.probe.bind (probe? v)
    rebuilds := v.counters.rebuilds }

/-- The plot of a corpus as a command line and a configuration want it. The report listens
on the bus before the view joins it. -/
def ofCorpus (a : Arguments) (c : Config) (corpus : Corpus) : Except RunError Plot := do
  let settings := settings a c
  let _ ← settings.drawSize.mapError .drawSize
  let (listener, bus) := Bus.empty.subscribe "cli_report"
  let (v, bus) ← (.attach :: .updateModel corpus.model corpus.table :: actions a).foldlM
    (fun (v, bus) action => act v bus action) (LinkedView.ofSettings settings, bus)
  let content ← (v.view.canvas.encode a.outputPath).mapError .save
  let broadcasts := (bus.queue listener).map Event.change
  return ⟨a.outputPath, v.view.canvas, content, reportOn a v.view broadcasts⟩

end Plot

def Arguments.run (a : Arguments) (config : Config) (corpus : Option ByteArray) :
    Except RunError Plot := do
  let path := a.corpus.getD ""
  Plot.ofCorpus a config (← (Corpus.load path corpus).mapError (.corpus path))

end ClonePlot
