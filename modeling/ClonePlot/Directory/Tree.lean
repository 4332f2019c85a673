import ClonePlot.Directory

/-! # The folder tree of a file list

Files are entered in the order of the list. A file goes on in the folder opened last if that
folder has the name it needs and held the file before; otherwise it opens the folder anew. So
each node holds files that come one after the other.
-/
namespace ClonePlot

structure DirNode where
  name : String
  files : FileBlock
  children : List DirNode

namespace DirNode

def root : DirNode := ⟨"", ⟨0, 0⟩, []⟩

/-- The child that file `i` goes to, with the children before it. -/
def enter (children : List DirNode) (name : String) (i : Nat) : List DirNode × DirNode :=
  match children.getLast? with
  | some last =>
    if last.name = name ∧ last.files.stop = i then (children.dropLast, last)
    else (children, ⟨name, ⟨i, i⟩, []⟩)
  | none => (children, ⟨name, ⟨i, i⟩, []⟩)

/-- File `i` lies in the folder `dir` of the node. -/
def add (node : DirNode) (i : Nat) : Directory → DirNode
  | [] => { node with files.stop := i + 1 }
  | name :: rest =>
    let (older, child) := enter node.children name i
    { node with files.stop := i + 1, children := older ++ [child.add i rest] }

def build (dirs : List Directory) : DirNode :=
  dirs.zipIdx.foldl (fun node (dir, i) => node.add i dir) root

end DirNode

def Directories.root (t : Directories) : DirNode := DirNode.build t.dirs.toList

end ClonePlot
