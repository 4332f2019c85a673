import ClonePlot.Directory.Tree
import ClonePlot.Mapper

/-! # Directory boxes

Each folder of the tree is a square on the diagonal of the plot, children before the folder
they are in. A folder whose only child holds all of its files has no box of its own, and neither
has one that holds the whole list.
-/
namespace ClonePlot

structure DirectoryBox where
  label : String
  startPixel : Int
  /-- Just past the last pixel of the box. -/
  stopPixel : Int
  files : FileBlock
  /-- The place of the smallest enclosing box in the list. -/
  parent : Option Nat
  deriving DecidableEq, Repr

namespace DirectoryBox

def extent (b : DirectoryBox) : Int := b.stopPixel - b.startPixel

def containsPixel (b : DirectoryBox) (p : Int) : Bool := b.startPixel ≤ p && p < b.stopPixel

end DirectoryBox

def DirNode.isFolded (node : DirNode) : Bool :=
  match node.children with
  | [child] => child.files = node.files
  | _ => false

def adopt (parent : Nat) (places : List Nat) (boxes : List DirectoryBox) : List DirectoryBox :=
  places.foldl (fun boxes i => boxes.modify i ({ · with parent := some parent })) boxes

namespace Directories

def hasBox (t : Directories) (node : DirNode) : Bool :=
  !node.isFolded && node.files ≠ ⟨0, t.fileCount⟩ && node.files.start < node.files.stop

def box (t : Directories) (m : Mapper) (b : FileBlock) : DirectoryBox :=
  ⟨t.label b, m.startPixel b.start, m.startPixel b.stop, b, none⟩

mutual

/-- Lists the boxes of a node behind others. Along with them come the places of the outermost
ones of the node. -/
def walk (t : Directories) (m : Mapper) (boxes : List DirectoryBox) :
    DirNode → List Nat × List DirectoryBox
  | ⟨name, files, children⟩ =>
    let (tops, boxes) := t.walkAll m boxes children
    if t.hasBox ⟨name, files, children⟩ then
      ([boxes.length], adopt boxes.length tops (boxes ++ [t.box m files]))
    else (tops, boxes)

def walkAll (t : Directories) (m : Mapper) (boxes : List DirectoryBox) :
    List DirNode → List Nat × List DirectoryBox
  | [] => ([], boxes)
  | node :: rest =>
    let (tops, boxes) := t.walk m boxes node
    let (later, boxes) := t.walkAll m boxes rest
    (tops ++ later, boxes)

end

def boxes (t : Directories) (m : Mapper) : List DirectoryBox := (t.walkAll m [] t.root.children).2

end Directories
end ClonePlot
