import ClonePlot.Overflow

/-! # The offset line

All files of a corpus laid end to end on one line of offsets. Start offsets are the
running sums of the sizes, cut off at `maxOffset`; an empty file shares its start with
its successor. The start table is kept beside the sizes that determine it.
-/
namespace ClonePlot

/-- The last representable offset; longer corpora are cut off there. -/
def maxOffset : Nat := UInt64.size - 1

/-- Running sums from `acc`, one more than there are sizes. -/
def startsFrom (acc : Nat) : List Nat → List Nat
  | [] => [acc]
  | size :: rest => acc :: startsFrom (min (acc + size) maxOffset) rest

@[simp] theorem length_startsFrom (acc : Nat) (sizes : List Nat) :
    (startsFrom acc sizes).length = sizes.length + 1 := by
  induction sizes generalizing acc with
  | nil => rfl
  | cons size rest ih => simp [startsFrom, ih]

structure Layout where
  sizes : List Nat
  starts : Array Nat := (startsFrom 0 sizes).toArray
  starts_eq : starts = (startsFrom 0 sizes).toArray := by rfl

namespace Layout

def ofSizes (sizes : List Nat) : Layout := { sizes }

def empty : Layout := ofSizes []

instance : Inhabited Layout := ⟨empty⟩

def fileCount (l : Layout) : Nat := l.starts.size - 1

@[simp] theorem size_starts (l : Layout) : l.starts.size = l.sizes.length + 1 := by
  simp [l.starts_eq]

@[simp] theorem fileCount_eq (l : Layout) : l.fileCount = l.sizes.length := by
  simp [fileCount]

/-- The first offset of file `i`; past the last file, the end of the line. -/
def start (l : Layout) (i : Nat) : Nat :=
  have inside : min i l.fileCount < l.starts.size := by rw [size_starts, fileCount_eq]; omega
  l.starts[min i l.fileCount]

theorem getElem?_start (l : Layout) (i : Nat) :
    (startsFrom 0 l.sizes)[min i l.sizes.length]? = some (l.start i) := by
  rw [List.getElem?_eq_getElem (by rw [length_startsFrom]; omega)]
  simp [start, l.starts_eq]

def stop (l : Layout) (i : Nat) : Nat := l.start (i + 1)

def size (l : Layout) (i : Nat) : Nat := l.stop i - l.start i

def total (l : Layout) : Nat := l.start l.fileCount

/-- Where an offset into a file lies on the line. -/
def offset (l : Layout) (file offset : Nat) : Except Overflow Nat :=
  addOffsets (l.start file) offset

def isEmpty (l : Layout) : Bool := l.fileCount == 0 || l.total == 0

/-- The file holding an offset: the last one that starts at or before it. -/
def containing (l : Layout) (offset : Nat) : Option Nat :=
  if offset < l.total then some (l.starts.countP (· ≤ offset) - 1) else none

end Layout
end ClonePlot
