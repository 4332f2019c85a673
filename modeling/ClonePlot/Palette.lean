import ClonePlot.Color

/-! # Palettes

A color for each part of the picture.
-/
namespace ClonePlot

inductive PaletteSlot
  | background
  | noClone
  | boundary
  | gap
  | boxOutline
  | labelBackground
  | labelText
  | clone
  | selectionFill
  | selectionOutline
  | drag
  deriving DecidableEq, Repr

namespace PaletteSlot

def all : List PaletteSlot :=
  [background, noClone, boundary, gap, boxOutline, labelBackground, labelText, clone,
    selectionFill, selectionOutline, drag]

def name : PaletteSlot → String
  | background => "background"
  | noClone => "no_clone"
  | boundary => "boundary"
  | gap => "gap"
  | boxOutline => "box_outline"
  | labelBackground => "label_background"
  | labelText => "label_text"
  | clone => "clone"
  | selectionFill => "selection_fill"
  | selectionOutline => "selection_outline"
  | drag => "drag"

end PaletteSlot

structure Palette where
  color : PaletteSlot → Color

namespace Palette

def standard : Palette where
  color
    | .background => ⟨255, 255, 255, 255⟩
    | .noClone => ⟨232, 232, 232, 255⟩
    | .boundary => ⟨208, 208, 224, 255⟩
    | .gap => ⟨160, 160, 192, 255⟩
    | .boxOutline => ⟨96, 96, 160, 255⟩
    | .labelBackground => ⟨255, 255, 224, 200⟩
    | .labelText => ⟨32, 32, 64, 255⟩
    | .clone => ⟨32, 32, 32, 255⟩
    | .selectionFill => ⟨64, 128, 255, 64⟩
    | .selectionOutline => ⟨32, 64, 224, 255⟩
    | .drag => ⟨224, 32, 32, 255⟩

instance : Inhabited Palette := ⟨standard⟩

def set (p : Palette) (slot : PaletteSlot) (color : Color) : Palette :=
  ⟨fun s => if s = slot then color else p.color s⟩

end Palette
end ClonePlot
