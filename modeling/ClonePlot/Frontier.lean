import ClonePlot.Model

/-! # The clone frontier

For each row, the first column beyond which no clone joins this row or an earlier one.
Cells past the frontier are free of clones on both sides of the diagonal.
-/
namespace ClonePlot

/-- One past the last column that a row reaches on or right of the diagonal; at least `reach`. -/
def rowReach (row : Nat) (pairs : List ClonePair) (reach : Nat) : Nat :=
  pairs.foldl (fun reach p => if row ≤ p.right.file then max reach (p.right.file + 1) else reach) reach

def reachFrom (row reach : Nat) : List (List ClonePair) → List Nat
  | [] => []
  | pairs :: later =>
    let reach := rowReach row pairs reach
    reach :: reachFrom (row + 1) reach later

def Model.frontier (m : Model) : List Nat :=
  (reachFrom 0 0 m.rows.toList).map (min · m.fileCount)

end ClonePlot
