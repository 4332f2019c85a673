import ClonePlot.Frontier
import ClonePlot.Proofs.Model.Rows

/-! # The least clear column

The frontier of a row is the first column from which on no pair joins it or an earlier row. Only
the pairs right of the diagonal are looked at: a pair left of it has its opposite view in an
earlier row. As the reach of a row is the least bound of the columns of its pairs, their order has
no influence.
-/
namespace ClonePlot

theorem rowReach_le_iff {row reach c : Nat} {pairs : List ClonePair} :
    rowReach row pairs reach ≤ c ↔
      reach ≤ c ∧ ∀ p ∈ pairs, row ≤ p.right.file → p.right.file < c := by
  unfold rowReach
  induction pairs generalizing reach with
  | nil => simp
  | cons p rest ih =>
    rw [List.foldl_cons, ih, List.forall_mem_cons]
    by_cases hp : row ≤ p.right.file
    · rw [if_pos hp, Nat.max_le, Nat.succ_le_iff]
      simp only [hp, forall_const, and_assoc]
    · rw [if_neg hp]
      simp only [hp, false_implies, true_and]

theorem rowReach_eq_of_perm {pairs pairs' : List ClonePair} (h : pairs.Perm pairs')
    (row reach : Nat) : rowReach row pairs reach = rowReach row pairs' reach := by
  refine eq_of_forall_ge_iff fun c => ?_
  simp only [rowReach_le_iff, h.mem_iff]

theorem reachFrom_eq_of_perm {rows rows' : List (List ClonePair)}
    (h : List.Forall₂ List.Perm rows rows') (row reach : Nat) :
    reachFrom row reach rows = reachFrom row reach rows' := by
  induction h generalizing row reach with
  | nil => rfl
  | cons hpairs _ ih =>
    unfold reachFrom
    rw [rowReach_eq_of_perm hpairs]
    exact congrArg _ (ih _ _)

theorem length_reachFrom (row reach : Nat) (rows : List (List ClonePair)) :
    (reachFrom row reach rows).length = rows.length := by
  induction rows generalizing row reach with
  | nil => rfl
  | cons pairs later ih => exact congrArg (· + 1) (ih _ _)

/-- The running reach bounds the columns of all rows so far. -/
theorem le_iff_of_getElem?_reachFrom {row reach k c : Nat} {rows : List (List ClonePair)}
    (h : (reachFrom row reach rows)[k]? = some c) (d : Nat) : c ≤ d ↔ reach ≤ d ∧
      ∀ i pairs, i ≤ k → rows[i]? = some pairs →
        ∀ p ∈ pairs, row + i ≤ p.right.file → p.right.file < d := by
  induction rows generalizing row reach k with
  | nil => cases h
  | cons first later ih =>
    cases k with
    | zero =>
      cases h
      rw [rowReach_le_iff]
      refine and_congr_right fun _ => ⟨fun hfirst i pairs hi hpairs => ?_, fun hall => ?_⟩
      · obtain rfl := Nat.le_zero.mp hi
        cases hpairs
        exact hfirst
      · exact hall 0 first le_rfl rfl
    | succ k =>
      rw [ih h, rowReach_le_iff, and_assoc]
      refine and_congr_right fun _ => ⟨?_, fun hall => ⟨hall 0 first (Nat.zero_le _) rfl, ?_⟩⟩
      · rintro ⟨hfirst, hlater⟩ i pairs hi hpairs p hp hright
        cases i with
        | zero =>
          cases hpairs
          exact hfirst p hp hright
        | succ i => exact hlater i pairs (Nat.le_of_succ_le_succ hi) hpairs p hp (by omega)
      · intro i pairs hi hpairs p hp hright
        exact hall (i + 1) pairs (Nat.succ_le_succ hi) hpairs p hp (by omega)

namespace Model

theorem toList_rows (m : Model) : m.rows.toList = (List.range m.fileCount).map m.row := by
  have hsize : m.rows.size = m.fileCount := by simp [m.rows_eq, sortedRows, fileCount]
  refine List.ext_getElem (by simp [hsize]) fun i hi _ => ?_
  have hrow : i < m.rows.size := hi
  simp [row, hrow]

/-- Models of as many files whose rows hold the same pairs have the same frontier. -/
theorem frontier_eq_of_rows {m m' : Model} (hcount : m.fileCount = m'.fileCount)
    (hrows : ∀ i, (m.row i).Perm (m'.row i)) : m.frontier = m'.frontier := by
  have hforall : List.Forall₂ List.Perm m.rows.toList m'.rows.toList := by
    rw [toList_rows, toList_rows, hcount, List.forall₂_map_left_iff, List.forall₂_map_right_iff]
    exact List.forall₂_same.mpr fun i _ => hrows i
  rw [frontier, frontier, reachFrom_eq_of_perm hforall, hcount]

def Joins (m : Model) (i j : Nat) : Prop :=
  ∃ p ∈ m.views, (p.left.file = i ∧ p.right.file = j) ∨ (p.left.file = j ∧ p.right.file = i)

/-- No pair joins a row up to `r` with a column from `c` on. -/
def ClearFrom (m : Model) (r c : Nat) : Prop := ∀ i j, i ≤ r → c ≤ j → ¬m.Joins i j

variable {m : Model} {i j r c : Nat}

/-- Whichever way a pair is listed, both files see it. -/
theorem joins_iff : m.Joins i j ↔ ∃ p ∈ m.row i, p.right.file = j := by
  constructor
  · rintro ⟨p, hp, ⟨rfl, rfl⟩ | ⟨rfl, rfl⟩⟩
    · exact ⟨p, mem_row_iff_mem_views.mpr ⟨hp, rfl⟩, rfl⟩
    · exact ⟨p.flipped, mem_row_iff_mem_views.mpr ⟨flipped_mem_views hp, rfl⟩, rfl⟩
  · rintro ⟨p, hp, rfl⟩
    obtain ⟨hview, hleft⟩ := mem_row_iff_mem_views.mp hp
    exact ⟨p, hview, .inl ⟨hleft, rfl⟩⟩

theorem joins_comm : m.Joins i j ↔ m.Joins j i := by
  unfold Joins
  simp only [or_comm]

theorem joins_lt (h : m.Joins i j) : j < m.fileCount := by
  obtain ⟨p, hp, rfl⟩ := joins_iff.mp h
  exact right_lt_of_mem_views (mem_row_iff_mem_views.mp hp).1

/-- Pairs on or right of the diagonal are enough to look at. -/
theorem clearFrom_iff : m.ClearFrom r c ↔
    ∀ i ≤ r, ∀ p ∈ m.row i, i ≤ p.right.file → p.right.file < c := by
  constructor
  · intro h i hi p hp _
    exact Nat.not_le.mp fun hc => h i _ hi hc (joins_iff.mpr ⟨p, hp, rfl⟩)
  · intro h i j hi hc hjoins
    rcases Nat.le_total i j with hij | hji
    · obtain ⟨p, hp, rfl⟩ := joins_iff.mp hjoins
      exact absurd (h i hi p hp hij) (Nat.not_lt.mpr hc)
    · -- seen from the other side the pair is right of the diagonal, in an earlier row
      obtain ⟨p, hp, rfl⟩ := joins_iff.mp (joins_comm.mp hjoins)
      have hright := h j (hji.trans hi) p hp hji
      omega

theorem length_frontier (m : Model) : m.frontier.length = m.fileCount := by
  rw [frontier, List.length_map, length_reachFrom, toList_rows, List.length_map, List.length_range]

theorem frontier_le_iff (h : m.frontier[r]? = some c) (d : Nat) : c ≤ d ↔ m.ClearFrom r d := by
  have hr : r < m.fileCount := m.length_frontier ▸ (List.getElem?_eq_some_iff.mp h).1
  rw [frontier, List.getElem?_map] at h
  obtain ⟨reach, hreach, rfl⟩ := Option.map_eq_some_iff.mp h
  have hle (d : Nat) : reach ≤ d ↔ m.ClearFrom r d := by
    rw [le_iff_of_getElem?_reachFrom hreach, clearFrom_iff, toList_rows]
    refine ⟨fun hall i hi p hp hright => ?_,
      fun hall => ⟨Nat.zero_le d, fun i pairs hi hpairs => ?_⟩⟩
    · refine hall.2 i (m.row i) hi ?_ p hp (by omega)
      simp [hi.trans_lt hr]
    · have hrow : m.row i = pairs := by simpa [hi.trans_lt hr] using hpairs
      subst hrow
      simpa using hall i hi
  -- no column is as large as the number of files, so that nothing is cut off
  have hcount : reach ≤ m.fileCount :=
    (hle _).mpr fun i j _ hc hjoins => absurd (joins_lt hjoins) (Nat.not_lt.mpr hc)
  rw [Nat.min_eq_left hcount]
  exact hle d

end Model
end ClonePlot
