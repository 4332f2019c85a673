import ClonePlot.Clone
import ClonePlot.Overflow

/-! # Corpus models

A model holds an ordered list of files and clone pairs inside them. Its rows list, for
each file, the pairs seen from that file, sorted by `ClonePair.rowLe`. Every pair of a
model lies within its files; `Model.ofPairs` refuses a list of pairs at its first fault.
-/
namespace ClonePlot

inductive ModelError
  | fileOutOfRange (pair file count : Nat)
  | emptyFragment (pair start stop : Nat)
  | fragmentOutOfFile (pair file start stop size : Nat)
  deriving DecidableEq, Repr

def ModelError.message : ModelError → String
  | fileOutOfRange pair file count =>
    s!"clone pair {pair} references file {file} but the corpus has {count} files"
  | emptyFragment pair start stop =>
    s!"clone pair {pair} has an empty fragment {start}..{stop}"
  | fragmentOutOfFile pair file start stop size =>
    s!"clone pair {pair} fragment {start}..{stop} exceeds file {file} of size {size}"

def fragmentFault? (files : Array SourceFile) (pair : Nat) (f : Fragment) : Option ModelError :=
  match files[f.file]? with
  | none => some (.fileOutOfRange pair f.file files.size)
  | some file =>
    if f.stop ≤ f.start then some (.emptyFragment pair f.start f.stop)
    else if file.size < f.stop then
      some (.fragmentOutOfFile pair f.file f.start f.stop file.size)
    else none

def pairFault? (files : Array SourceFile) (i : Nat) (p : ClonePair) : Option ModelError :=
  (fragmentFault? files i p.left).or (fragmentFault? files i p.right)

def firstFault? (files : Array SourceFile) (i : Nat) : List ClonePair → Option ModelError
  | [] => none
  | p :: rest => (pairFault? files i p).or (firstFault? files (i + 1) rest)

theorem fragmentFault?_eq_none_iff {files : Array SourceFile} {i : Nat} {f : Fragment} :
    fragmentFault? files i f = none ↔ f.Within files := by
  unfold fragmentFault? Fragment.Within
  cases files[f.file]? with
  | none => simp
  | some file =>
    simp only [Option.some.injEq, exists_eq_left']
    split
    · simp; omega
    · split <;> simp <;> omega

theorem pairFault?_eq_none_iff {files : Array SourceFile} {i : Nat} {p : ClonePair} :
    pairFault? files i p = none ↔ p.Within files := by
  simp [pairFault?, Option.or_eq_none_iff, fragmentFault?_eq_none_iff, ClonePair.Within]

theorem firstFault?_eq_none_iff {files : Array SourceFile} {i : Nat} {pairs : List ClonePair} :
    firstFault? files i pairs = none ↔ ∀ p ∈ pairs, p.Within files := by
  induction pairs generalizing i with
  | nil => simp [firstFault?]
  | cons p rest ih =>
    simp [firstFault?, Option.or_eq_none_iff, pairFault?_eq_none_iff, ih]

def dealRows (n : Nat) (pairs : List ClonePair) : Array (List ClonePair) :=
  pairs.foldr (fun p rows => rows.modify p.left.file (p :: ·)) (Array.replicate n [])

/-- Row `i` holds every view from file `i`, sorted; equal keys keep the order of listing. -/
def sortedRows (n : Nat) (pairs : List ClonePair) : Array (List ClonePair) :=
  (dealRows n (pairs.flatMap ClonePair.orientations)).map (·.mergeSort ClonePair.rowLe)

@[simp] theorem size_dealRows (n : Nat) (pairs : List ClonePair) :
    (dealRows n pairs).size = n := by
  induction pairs with
  | nil => simp [dealRows]
  | cons p rest ih => simpa [dealRows] using ih

theorem getElem?_dealRows (n i : Nat) (pairs : List ClonePair) :
    (dealRows n pairs)[i]? =
      if i < n then some (pairs.filter (·.left.file == i)) else none := by
  induction pairs with
  | nil => simp [dealRows, Array.getElem?_replicate]
  | cons p rest ih =>
    change ((dealRows n rest).modify p.left.file (p :: ·))[i]? = _
    rw [Array.getElem?_modify, ih]
    by_cases hi : i < n <;> by_cases hp : p.left.file = i <;> simp [hi, hp]

structure Model where
  files : Array SourceFile
  pairs : List ClonePair
  pairs_within : ∀ p ∈ pairs, p.Within files
  rows : Array (List ClonePair) := sortedRows files.size pairs
  rows_eq : rows = sortedRows files.size pairs := by rfl

namespace Model

def empty : Model := { files := #[], pairs := [], pairs_within := by simp }

instance : Inhabited Model := ⟨empty⟩

def ofPairs (files : Array SourceFile) (pairs : List ClonePair) : Except ModelError Model :=
  match h : firstFault? files 0 pairs with
  | some fault => .error fault
  | none => .ok { files, pairs, pairs_within := firstFault?_eq_none_iff.1 h }

def fileCount (m : Model) : Nat := m.files.size

/-- The number of pairs listed, each counted once for both its views. -/
def pairCount (m : Model) : Nat := m.pairs.length

def sizes (m : Model) : List Nat := m.files.toList.map SourceFile.size

def totalSize (m : Model) : Except Overflow Nat := m.sizes.foldlM addOffsets 0

def row (m : Model) (i : Nat) : List ClonePair := m.rows[i]?.getD []

theorem row_eq (m : Model) (i : Nat) :
    m.row i = if i < m.fileCount then
      ((m.pairs.flatMap ClonePair.orientations).filter (·.left.file == i)).mergeSort ClonePair.rowLe
    else [] := by
  simp only [row, m.rows_eq, sortedRows, Array.getElem?_map, getElem?_dealRows, fileCount]
  by_cases hi : i < m.files.size <;> simp [hi]

/-- The pairs of row `i` whose other fragment lies in files `start`, …, `stop - 1`. -/
def rowRange (m : Model) (i start stop : Nat) : List ClonePair :=
  (m.row i).filter fun p => start ≤ p.right.file && p.right.file < stop

end Model
end ClonePlot
