/-! # Clone pairs

A clone pair joins two fragments of the same clone class, each in a file at offsets
relative to that file. Every pair can be seen from either side.
-/
namespace ClonePlot

structure SourceFile where
  id : Nat
  path : String
  size : Nat
  deriving DecidableEq, Repr, Inhabited

/-- The half-open range `start..stop` of a file's offsets. -/
structure Fragment where
  file : Nat
  start : Nat
  stop : Nat
  deriving DecidableEq, Repr

structure ClonePair where
  classId : Nat
  left : Fragment
  right : Fragment
  deriving DecidableEq, Repr

def Fragment.Within (files : Array SourceFile) (f : Fragment) : Prop :=
  ∃ file, files[f.file]? = some file ∧ f.start < f.stop ∧ f.stop ≤ file.size

namespace ClonePair

def flipped (p : ClonePair) : ClonePair := ⟨p.classId, p.right, p.left⟩

@[simp] theorem flipped_flipped (p : ClonePair) : p.flipped.flipped = p := rfl

def isInner (p : ClonePair) : Bool := p.left.file == p.right.file

def Within (files : Array SourceFile) (p : ClonePair) : Prop :=
  p.left.Within files ∧ p.right.Within files

/-- Both views of a pair; a pair equal to its flip has one. -/
def orientations (p : ClonePair) : List ClonePair :=
  if p.flipped = p then [p] else [p, p.flipped]

def rowKey (p : ClonePair) : List Nat := [p.right.file, p.left.start, p.right.start, p.classId]

def rowLe (p q : ClonePair) : Bool := (compare p.rowKey q.rowKey).isLE

theorem rowLe_trans (p q r : ClonePair) (hpq : rowLe p q) (hqr : rowLe q r) : rowLe p r :=
  Std.TransCmp.isLE_trans hpq hqr

theorem rowLe_total (p q : ClonePair) : rowLe p q || rowLe q p := by
  unfold rowLe
  rw [Std.OrientedOrd.eq_swap (a := q.rowKey)]
  cases compare p.rowKey q.rowKey <;> rfl

end ClonePair
end ClonePlot
