import ClonePlot.Proofs.Canvas.Reflection

/-! # Lines stay beside the segment

A walk that is no taller than wide takes one step along its columns at a time, and none or one
along its rows, so that it is never more than half a pixel beside the segment.
-/
namespace ClonePlot
namespace LineStep

def width (p q : Point) : Nat := (q.x - p.x).natAbs

def height (p q : Point) : Nat := (q.y - p.y).natAbs

/-- How far a walk that has come `i` columns and `j` rows is beyond the segment, in units of
`width p q` to a row. -/
def lead (p q : Point) (i j : Nat) : Int := (width p q : Int) * j - (height p q : Int) * i

theorem lead_column (p q : Point) (i j : Nat) :
    lead p q (i + 1) j = lead p q i j - height p q := by
  unfold lead
  push_cast
  ring

theorem lead_row (p q : Point) (i j : Nat) : lead p q i (j + 1) = lead p q i j + width p q := by
  unfold lead
  push_cast
  ring

/-- The invariant of a walk that is no taller than wide. -/
structure Along (p q : Point) (i j : Nat) (s : LineStep) : Prop where
  place : s.place = ⟨p.x + i * towards p.x q.x, p.y + j * towards p.y q.y⟩
  error : s.error = width p q - height p q + lead p q i j
  low : -(width p q : Int) ≤ 2 * lead p q i j
  high : 2 * lead p q i j ≤ width p q
  columns : i ≤ width p q
  rows : j ≤ height p q

variable {p q : Point} {i j : Nat} {s : LineStep}

theorem along_first (p q : Point) : Along p q 0 0 (first p q) where
  place := by simp [first]
  error := by simp [first, lead, width, height]
  low := by simp [lead]
  high := by simp [lead]
  columns := Nat.zero_le _
  rows := Nat.zero_le _

/-- At the last column nothing but the last row is close enough to the segment. -/
theorem Along.rows_eq (h : Along p q i j s) (hwide : height p q ≤ width p q)
    (hi : i = width p q) : j = height p q := by
  have hlow := h.low
  have hrows := h.rows
  have hlead : lead p q i j = (width p q : Int) * j - width p q * height p q := by
    rw [lead, hi, Int.mul_comm (height p q)]
  by_contra hne
  have hshort : (width p q : Int) * (j + 1) ≤ width p q * height p q :=
    Int.mul_le_mul_of_nonneg_left (by omega) (Int.natCast_nonneg _)
  rw [Int.mul_add, Int.mul_one] at hshort
  omega

theorem add_natAbs_mul_towards (a b : Int) : a + (b - a).natAbs * towards a b = b := by
  unfold towards
  split <;> omega

theorem Along.place_eq (h : Along p q i j s) (hwide : height p q ≤ width p q)
    (hi : i = width p q) : s.place = q := by
  rw [h.place, h.rows_eq hwide hi, hi, width, height, add_natAbs_mul_towards,
    add_natAbs_mul_towards]

theorem rows_le_of_lead (hpos : 0 < width p q) (hi : i ≤ width p q)
    (h : 2 * lead p q i j ≤ width p q) : j ≤ height p q := by
  by_contra hrows
  have hcolumns : (height p q : Int) * i ≤ height p q * width p q :=
    Int.mul_le_mul_of_nonneg_left (by omega) (Int.natCast_nonneg _)
  have hbeyond : (width p q : Int) * (height p q + 1) ≤ width p q * j :=
    Int.mul_le_mul_of_nonneg_left (by omega) (Int.natCast_nonneg _)
  rw [Int.mul_add, Int.mul_one, Int.mul_comm (width p q)] at hbeyond
  unfold lead at h
  omega

theorem next_of_across (hcolumn : -(height p q : Int) ≤ 2 * s.error)
    (hrow : 2 * s.error ≤ width p q) : s.next p q =
      ⟨⟨s.place.x + towards p.x q.x, s.place.y + towards p.y q.y⟩,
        s.error + -height p q + width p q⟩ := by
  unfold width height at *
  simp only [next, if_pos hcolumn, if_pos hrow]

theorem next_of_not_across (hcolumn : -(height p q : Int) ≤ 2 * s.error)
    (hrow : ¬2 * s.error ≤ width p q) : s.next p q =
      ⟨⟨s.place.x + towards p.x q.x, s.place.y⟩, s.error + -height p q⟩ := by
  unfold width height at *
  simp only [next, if_pos hcolumn, if_neg hrow, Int.add_zero]

/-- A step goes to the next column, and to the next row where that is closer to the segment. -/
theorem Along.next (h : Along p q i j s) (hwide : height p q ≤ width p q) (hi : i < width p q) :
    ∃ j', (j' = j ∨ j' = j + 1) ∧ Along p q (i + 1) j' (s.next p q) := by
  have hlow := h.low
  have hhigh := h.high
  have herror := h.error
  -- twice the lead is at least minus the width, which is no less than the height
  have hcolumn : -(height p q : Int) ≤ 2 * s.error := by omega
  have hlead := lead_column p q i j
  have hnext : i + 1 ≤ width p q := hi
  have hstep (n : Nat) (t : Int) : ((n + 1 : Nat) : Int) * t = n * t + t := by
    rw [Int.natCast_add, Int.natCast_one, Int.add_mul, Int.one_mul]
  by_cases hrow : 2 * s.error ≤ width p q
  · rw [next_of_across hcolumn hrow]
    have hlead' := lead_row p q (i + 1) j
    refine ⟨j + 1, .inr rfl, ?_, by dsimp only; omega, by omega, by omega, hnext,
      rows_le_of_lead (by omega) hnext (by omega)⟩
    rw [h.place, hstep, hstep, Int.add_assoc, Int.add_assoc]
  · rw [next_of_not_across hcolumn hrow]
    refine ⟨j, .inl rfl, ?_, by dsimp only; omega, by omega, by omega, hnext, h.rows⟩
    rw [h.place, hstep, Int.add_assoc]

theorem between_of_le_natAbs {a b : Int} {n : Nat} (h : n ≤ (b - a).natAbs) :
    min a b ≤ a + n * towards a b ∧ a + n * towards a b ≤ max a b := by
  unfold towards
  split <;> omega

theorem Along.inside (h : Along p q i j s) : (PixelRect.ofCorners p q).contains s.place := by
  rw [h.place, PixelRect.contains_iff]
  have hx := between_of_le_natAbs h.columns
  have hy := between_of_le_natAbs h.rows
  exact ⟨hx.1, hx.2, hy.1, hy.2⟩

end LineStep

end ClonePlot
