import ClonePlot.Options
import ClonePlot.Palette
import ClonePlot.Toml.Reader
import ClonePlot.Warning

/-! # Configuration

What a configuration file sets: the canvas, the overlays, the colors and the log filter.
What a file does not set keeps its default, and keys without a meaning do not matter. A
file with a fault anywhere sets nothing. A record is a table, or an array of its fields in
order.
-/
namespace ClonePlot

structure Config where
  size : Nat := 800
  fitToWindow : Bool := true
  resizeMultiplier : Nat := 1
  options : DrawOptions := {}
  /-- The texts given for colors, in the order of `PaletteSlot.all`. -/
  colors : List (PaletteSlot × String) := []
  logFilter : Option String := none
  deriving Inhabited

namespace Config

def canvasSize (c : Config) : Nat := max c.size 1

def palette (c : Config) : Palette :=
  c.colors.foldl (fun p (slot, text) => (Color.ofHex? text).elim p (p.set slot)) .standard

def colorWarnings (c : Config) : List Warning :=
  (c.colors.filter fun (_, text) => (Color.ofHex? text).isNone).map fun (slot, text) =>
    .colorIgnored slot.name text

def integer32? : TomlValue → Option Nat
  | .integer i => if 0 ≤ i ∧ i < UInt32.size then some i.toNat else none
  | _ => none

def boolean? : TomlValue → Option Bool
  | .boolean b => some b
  | _ => none

def string? : TomlValue → Option String
  | .string s => some s
  | _ => none

/-- The fields of a record in the order of `names`, none where not given. A date stands for
a record without fields. -/
def fields? (names : List String) : TomlValue → Option (List (Option TomlValue))
  | .table _ entries =>
    if TomlValue.entriesReadable (entries.filter fun e => !names.contains e.1) then
      some (names.map fun name => entries.lookup name)
    else none
  | .array _ items => some ((List.range names.length).map fun i => items[i]?)
  | .moment => some (names.map fun _ => none)
  | _ => none

def given? (read? : TomlValue → Option α) (field : Option TomlValue) (default : α) : Option α :=
  field.elim (some default) read?

def setCanvas? (c : Config) (v : TomlValue) : Option Config := do
  match ← fields? ["size", "fit_to_window", "resize_multiplier"] v with
  | [size, fit, multiplier] =>
    return { c with
      size := ← given? integer32? size c.size,
      fitToWindow := ← given? boolean? fit c.fitToWindow,
      resizeMultiplier := ← given? integer32? multiplier c.resizeMultiplier }
  | _ => none

def overlayFields : List String :=
  ["show_gaps", "show_boundaries", "show_directory_boxes", "show_no_clone_regions", "show_labels"]

def setOverlay? (c : Config) (v : TomlValue) : Option Config := do
  match ← fields? overlayFields v with
  | [gaps, boundaries, boxes, regions, labels] =>
    let o := c.options
    return { c with options :=
      { gaps := ← given? boolean? gaps o.gaps,
        boundaries := ← given? boolean? boundaries o.boundaries,
        directoryBoxes := ← given? boolean? boxes o.directoryBoxes,
        noCloneRegions := ← given? boolean? regions o.noCloneRegions,
        labels := ← given? boolean? labels o.labels } }
  | _ => none

def setColors? (c : Config) (v : TomlValue) : Option Config := do
  let texts ← (← fields? (PaletteSlot.all.map PaletteSlot.name) v).mapM fun field =>
    given? (fun v => (string? v).map some) field none
  let colors := (PaletteSlot.all.zip texts).filterMap fun (slot, text) => text.map (slot, ·)
  return { c with colors }

def setLogging? (c : Config) (v : TomlValue) : Option Config := do
  match ← fields? ["filter"] v with
  | [filter] => return { c with logFilter := ← given? (fun v => (string? v).map some) filter none }
  | _ => none

/-- The configuration that a document sets, none if anything in it is at fault. -/
def ofText? (text : String) : Option Config := do
  let document ← Toml.read? text
  match ← fields? ["canvas", "overlay", "colors", "logging"] document.toValue with
  | [canvas, overlay, colors, logging] =>
    let c ← canvas.elim (some {}) (setCanvas? {})
    let c ← overlay.elim (some c) c.setOverlay?
    let c ← colors.elim (some c) c.setColors?
    logging.elim (some c) c.setLogging?
  | _ => none

end Config

structure ConfigSource where
  path : String
  text : String
  deriving DecidableEq, Repr

structure LoadedConfig where
  config : Config := {}
  source : Option ConfigSource := none
  warnings : List Warning := []

namespace Config

def fileName : String := "clonescope.toml"

/-- Where the configuration is looked for if no path is given: in the working folder if
there is such a file, else in the user's configuration folder. -/
def defaultPath (isHere : Bool) (userFolder : Option String) : String :=
  match isHere, userFolder with
  | false, some folder => s!"{folder}/clonescope/{fileName}"
  | _, _ => fileName

def load (path : String) (content : Option ByteArray) : LoadedConfig :=
  match content.bind String.fromUTF8? with
  | none => {}
  | some text =>
    match ofText? text with
    | none => { warnings := [.configRefused] }
    | some config => { config, source := some ⟨path, text⟩ }

end Config
end ClonePlot
