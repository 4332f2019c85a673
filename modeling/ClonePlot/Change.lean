import ClonePlot.Clone

/-! # Selection changes

What a view tells its siblings: selected files, selected clone classes, or the two
fragments that a rectangle marks out. An event carries the id of its sender.
-/
namespace ClonePlot

inductive Change
  | files (files : List Nat)
  | classes (classes : List Nat)
  | region (a b : Fragment)
  deriving DecidableEq, Repr

structure Event where
  source : Nat
  change : Change
  deriving DecidableEq, Repr

end ClonePlot
