import ClonePlot.Text.Split

/-! # Directories of a file list

Each file lies in a directory, the list of its path's components but the last. A block of
neighboring files is labelled by the folder that its first and last file share, with as few
components as tell it from the directories beside it.
-/
namespace ClonePlot

abbrev Directory := List String

/-- The directory of a path. Both slashes separate; empty components do not count. -/
def Directory.ofPath (path : String) : Directory :=
  (((Text.split (fun c => c = '/' || c = '\\') path.toList).filter (!·.isEmpty)).map
    String.ofList).dropLast

/-- A block of files, `stop` not included. -/
structure FileBlock where
  start : Nat
  stop : Nat
  deriving DecidableEq, Repr

namespace FileBlock

def size (b : FileBlock) : Nat := b.stop - b.start

end FileBlock

structure Directories where
  dirs : Array Directory

namespace Directories

def ofPaths (paths : List String) : Directories := ⟨(paths.map Directory.ofPath).toArray⟩

def empty : Directories := ofPaths []

instance : Inhabited Directories := ⟨empty⟩

def fileCount (t : Directories) : Nat := t.dirs.size

def isBreak (t : Directories) (i : Nat) : Bool :=
  0 < i && i < t.fileCount && t.dirs[i]? != t.dirs[i - 1]?

def commonPrefix : Directory → Directory → Directory
  | a :: as, b :: bs => if a = b then a :: commonPrefix as bs else []
  | _, _ => []

/-- The components that the first and the last file of a block share. -/
def shared (t : Directories) (b : FileBlock) : Directory :=
  commonPrefix (t.dirs[b.start]?.getD []) (t.dirs[b.stop - 1]?.getD [])

def neighbors (t : Directories) (b : FileBlock) : List Directory :=
  (if b.start = 0 then [] else t.dirs[b.start - 1]?.toList) ++ t.dirs[b.stop]?.toList

/-- A directory has other components, or none, where `path` has those from `j` on. -/
def differsFrom (path : Directory) (j : Nat) (dir : Directory) : Bool :=
  dir.length < path.length || (dir.take path.length).drop j != path.drop j

/-- The fewest last components of the shared path that both neighbors lack. -/
def label (t : Directories) (b : FileBlock) : String :=
  let path := t.shared b
  let lacking := (List.range path.length).reverse.find? fun j =>
    (t.neighbors b).all (differsFrom path j)
  match lacking with
  | some j => "/".intercalate (path.drop j)
  | none => path.getLastD ""

end Directories
end ClonePlot
