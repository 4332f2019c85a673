import ClonePlot.Clone
import ClonePlot.IndexSet

/-! # Selections

Selected files, selected clone classes, and the clone pairs at hand when classes were
selected by position.
-/
namespace ClonePlot

structure Selection where
  files : IndexSet := ∅
  classes : IndexSet := ∅
  pairs : List ClonePair := []
  deriving DecidableEq, Inhabited

namespace Selection

def empty : Selection := {}

def isEmpty (s : Selection) : Bool := s.files.isEmpty && s.classes.isEmpty

def setFiles (s : Selection) (files : List Nat) : Selection :=
  { s with files := .ofList files }

/-- Selects pairs, and with them their classes. -/
def setPairs (s : Selection) (pairs : List ClonePair) : Selection :=
  { s with classes := .ofList (pairs.map ClonePair.classId), pairs }

def setClasses (s : Selection) (classes : List Nat) : Selection :=
  { s with classes := .ofList classes, pairs := [] }

def size (s : Selection) : Nat := s.files.size + s.classes.size + s.pairs.length

/-- Keeps what refers to the first `fileCount` files and to known classes. -/
def retain (s : Selection) (fileCount : Nat) (known : IndexSet) : Selection where
  files := s.files.filter (· < fileCount)
  classes := s.classes.filter (· ∈ known)
  pairs := s.pairs.filter fun p =>
    p.left.file < fileCount && p.right.file < fileCount && decide (p.classId ∈ known)

def dropped (s : Selection) (fileCount : Nat) (known : IndexSet) : Nat :=
  s.size - (s.retain fileCount known).size

end Selection
end ClonePlot
