import ClonePlot.Image.Bmp
import ClonePlot.Image.Png
import ClonePlot.Path

/-! # Image files

The format of an image file follows the extension of its name; an image without pixels
has no encoding.
-/
namespace ClonePlot

inductive ImageFormat
  | png
  | bmp
  deriving DecidableEq, Repr

/-- The part of a file name after its last dot, none if nothing stands before that dot. -/
def fileExtension? (name : List Char) : Option (List Char) :=
  let stem := (name.reverse.dropWhile (· != '.')).drop 1
  if stem.isEmpty then none else some (name.reverse.takeWhile (· != '.')).reverse

def ImageFormat.ofName? (name : String) : Option ImageFormat := do
  match (← fileExtension? name.toList).map Char.toLower with
  | ['p', 'n', 'g'] => some .png
  | ['b', 'm', 'p'] => some .bmp
  | _ => none

structure SaveError where
  path : String
  deriving DecidableEq, Repr

def SaveError.message (e : SaveError) : String := s!"failed to write plot image to {e.path}"

def Canvas.encode (c : Canvas) (path : String) : Except SaveError ByteArray :=
  if c.width * c.height = 0 then .error ⟨path⟩
  else match (FilePlace.name? path).bind ImageFormat.ofName? with
    | some .png => .ok (Image.encodePng c)
    | some .bmp => .ok (Image.encodeBmp c)
    | none => .error ⟨path⟩

end ClonePlot
