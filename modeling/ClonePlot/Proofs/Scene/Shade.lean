import ClonePlot.Proofs.Frontier
import ClonePlot.Proofs.Layout
import ClonePlot.Proofs.Scene.Effect
import ClonePlot.View

/-! # Shaded cells are free of clones

The cell of two files is the rectangle of the pixels that show one of them as the row and the
other as the column. What is shaded right of the frontier of a row, and the reflection of it, is
made up of cells whose files no pair joins.
-/
namespace ClonePlot
open Canvas

/-- The pixel shows file `i` as its row and file `j` as its column. -/
def Mapper.InCell (m : Mapper) (i j : Nat) (q : Point) : Prop :=
  InRect (m.startPixel j) (m.startPixel i) (m.startPixel (j + 1)) (m.startPixel (i + 1)) q

namespace Scene

variable {s : Scene} {m : Model} {c : Canvas} {q : Point}

/-- A pixel shaded for one row lies in a cell past the frontier of the row, or in the reflection
of one. -/
theorem exists_inCell_of_shadeCoats_pos {row frontier : Nat} (h : 0 < s.shadeCoats frontier row q) :
    ∃ j, frontier ≤ j ∧ (s.mapper.InCell row j q ∨ s.mapper.InCell j row q) := by
  unfold shadeCoats at h
  split at h
  · exact absurd h (Nat.lt_irrefl 0)
  rename_i hinside
  have hcell : InRect (s.mapper.startPixel frontier) (s.mapper.startPixel row) s.mapper.extent
        (s.mapper.startPixel (row + 1)) q ∨
      InRect (s.mapper.startPixel row) (s.mapper.startPixel frontier)
        (s.mapper.startPixel (row + 1)) s.mapper.extent q := by
    by_contra hnone
    obtain ⟨hright, hbelow⟩ := not_or.mp hnone
    simp only [if_neg hright, if_neg hbelow] at h
    omega
  have hstep {x : Int} (hlow : s.mapper.startPixel frontier ≤ x) (hhigh : x < s.mapper.extent) :
      ∃ j, (frontier ≤ j ∧ j < s.fileCount) ∧
        s.mapper.startPixel j ≤ x ∧ x < s.mapper.startPixel (j + 1) :=
    exists_le_lt_succ (Nat.le_of_not_le hinside) hlow hhigh
  rcases hcell with ⟨hrow, hlow, hhigh⟩ | ⟨⟨hlow, hhigh⟩, hrow⟩
  · obtain ⟨j, hj, hcol⟩ := hstep hlow hhigh
    exact ⟨j, hj.1, .inl ⟨hrow, hcol⟩⟩
  · obtain ⟨j, hj, hcol⟩ := hstep hlow hhigh
    exact ⟨j, hj.1, .inr ⟨hcol, hrow⟩⟩

theorem exists_inCell_of_shaded (hfrontier : s.frontier = m.frontier)
    (h : (s.shade c).pixel? q ≠ c.pixel? q) : ∃ r c j, m.frontier[r]? = some c ∧ c ≤ j ∧
      (s.mapper.InCell r j q ∨ s.mapper.InCell j r q) := by
  have hcoats := (s.coats_shade c).pos_of_pixel?_ne h
  obtain ⟨n, hn, hpos⟩ := List.sum_pos_iff_exists_pos_nat.mp hcoats
  obtain ⟨⟨frontier, row⟩, hrow, rfl⟩ := List.mem_map.mp hn
  rw [hfrontier, List.mem_zipIdx_iff_getElem?, List.getElem?_take,
    Option.ite_none_right_eq_some] at hrow
  obtain ⟨j, hj, hcell⟩ := exists_inCell_of_shadeCoats_pos hpos
  exact ⟨row, frontier, j, hrow.2, hj, hcell⟩

end Scene

namespace Model

theorem pairwise_frontier (m : Model) : m.frontier.Pairwise (· ≤ ·) := by
  refine List.pairwise_iff_getElem.mpr fun r r' hr hr' hrr' => ?_
  have hclear := (frontier_le_iff (List.getElem?_eq_getElem hr') _).mp le_rfl
  exact (frontier_le_iff (List.getElem?_eq_getElem hr) _).mpr
    fun i j hi => hclear i j (hi.trans hrr'.le)

theorem row_eq_nil_iff_not_joins {m : Model} {i : Nat} : m.row i = [] ↔ ∀ j, ¬m.Joins i j := by
  simp only [joins_iff, List.eq_nil_iff_forall_not_mem]
  exact ⟨fun h j ⟨p, hp, _⟩ => h p hp, fun h p hp => h _ ⟨p, hp, rfl⟩⟩

/-- The frontier of a row is the least column from which on no pair joins the row or an earlier
one. What is shaded shows a file of some row and one past the frontier of that row. -/
theorem frontier_isLeast (m : Model) :
    m.frontier.length = m.fileCount ∧ m.frontier.Pairwise (· ≤ ·) ∧
    (∀ r < m.fileCount, ∃ c, m.frontier[r]? = some c ∧ IsLeast {c | m.ClearFrom r c} c ∧
      c ≤ m.fileCount ∧ (c = 0 ↔ ∀ i ≤ r, m.row i = []) ∧ ∀ j, c ≤ j → ¬m.Joins r j) ∧
    ∀ (s : Scene) (c : Canvas) (q : Point), s.frontier = m.frontier →
      (s.shade c).pixel? q ≠ c.pixel? q → ∃ r c j, m.frontier[r]? = some c ∧ c ≤ j ∧
        (s.mapper.InCell r j q ∨ s.mapper.InCell j r q) ∧ ¬m.Joins r j := by
  refine ⟨m.length_frontier, m.pairwise_frontier, fun r hr => ?_, fun s c q hs hq => ?_⟩
  · obtain ⟨c, hc⟩ : ∃ c, m.frontier[r]? = some c :=
      ⟨_, List.getElem?_eq_getElem (m.length_frontier.symm ▸ hr)⟩
    have hle := frontier_le_iff hc
    have hclear : m.ClearFrom r c := (hle c).mp le_rfl
    refine ⟨c, hc, ⟨hclear, fun d hd => (hle d).mpr hd⟩, ?_, ?_, fun j => hclear r j le_rfl⟩
    · exact (hle _).mpr fun i j _ hj hjoins => absurd (joins_lt hjoins) (Nat.not_lt.mpr hj)
    · rw [← Nat.le_zero, hle]
      simp only [row_eq_nil_iff_not_joins]
      exact ⟨fun h i hi j => h i j hi (Nat.zero_le j), fun h i j hi _ => h i hi j⟩
  · obtain ⟨r, c, j, hc, hj, hcell⟩ := Scene.exists_inCell_of_shaded hs hq
    exact ⟨r, c, j, hc, hj, hcell, (frontier_le_iff hc c).mp le_rfl r j le_rfl hj⟩

/-- Four files of ten offsets; the one pair is listed with the later file on the left. -/
def backwards : Model where
  files := #[⟨0, "a", 10⟩, ⟨1, "b", 10⟩, ⟨2, "c", 10⟩, ⟨3, "d", 10⟩]
  pairs := [⟨1, ⟨3, 0, 5⟩, ⟨1, 5, 10⟩⟩]
  pairs_within := firstFault?_eq_none_iff (i := 0).mp (by decide)

theorem frontier_backwards : backwards.frontier = [0, 4, 4, 4] := by cbv

/-- The first row has no pairs, the second reaches the last column. -/
theorem frontier_isLeast_backwards :
    let s : Scene :=
      { model := backwards, mapper := backwards.mapper 4, directories := backwards.directories,
        boxes := [], frontier := [0, 4, 4, 4], options := {}, palette := .standard,
        coloring := none, selected := ∅, drag := none }
    (∃ c, backwards.frontier[1]? = some c ∧ IsLeast {c | backwards.ClearFrom 1 c} c) ∧
      ∃ r c j, backwards.frontier[r]? = some c ∧ c ≤ j ∧
        (s.mapper.InCell r j ⟨2, 0⟩ ∨ s.mapper.InCell j r ⟨2, 0⟩) ∧ ¬backwards.Joins r j := by
  intro s
  obtain ⟨-, -, hleast, hshaded⟩ := frontier_isLeast backwards
  obtain ⟨c, hc, hmin, -⟩ := hleast 1 (by decide)
  have hpixel : (s.shade (.blank 4 4 ⟨255, 255, 255, 255⟩)).pixel? ⟨2, 0⟩ ≠
      (Canvas.blank 4 4 ⟨255, 255, 255, 255⟩).pixel? ⟨2, 0⟩ := by decide
  exact ⟨⟨c, hc, hmin⟩, hshaded s _ _ frontier_backwards.symm hpixel⟩

end Model
end ClonePlot
