import ClonePlot.Proofs.Layout
import ClonePlot.Proofs.Scene.Effect
import ClonePlot.View

/-! # Gaps and boundaries on one pixel

Where gaps and boundaries are both on, every file but the first has a separator: a gap if its
directory is new, a boundary otherwise. Files that are smaller than a pixel share the pixel they
start on, and what is seen there is the separator of the last of them. So a gap can be lost under
the boundary of a later file.
-/
namespace ClonePlot
open Canvas

namespace Scene

variable {s : Scene} {c : Canvas} {q : Point} {i j : Nat} {p : Int}

def SeparatedAt (s : Scene) (p : Int) (i : Nat) : Prop :=
  1 ≤ i ∧ i < s.fileCount ∧ s.mapper.startPixel i = p

instance (s : Scene) (p : Int) (i : Nat) : Decidable (s.SeparatedAt p i) :=
  inferInstanceAs (Decidable (_ ∧ _))

/-- The pixel lies in column `p`, in a row of the plot that is no separator. -/
def CrossedAt (s : Scene) (p : Int) (q : Point) : Prop :=
  q.x = p ∧ (0 ≤ q.y ∧ q.y < s.mapper.extent) ∧ ∀ i, ¬s.SeparatedAt q.y i

def separatorColor (s : Scene) (i : Nat) : Color :=
  if s.directories.isBreak i then s.color .gap else s.color .boundary

theorem separator?_eq_some (hgaps : s.options.gaps) (hboundaries : s.options.boundaries) (i : Nat) :
    s.separator? i = some (s.separatorColor i) := by
  simp only [separator?, separatorColor, hgaps, hboundaries, Bool.true_and]
  split <;> rfl

theorem separatorCoats_swap (i : Nat) (q : Point) :
    s.separatorCoats i q.swap = s.separatorCoats i q := by
  unfold separatorCoats
  exact Nat.add_comm _ _

/-- No separator but those of the column reaches such a pixel, and each of them does once. -/
theorem separatorCoats_of_crossedAt (hq : s.CrossedAt p q) (hi : 1 ≤ i ∧ i < s.fileCount) :
    s.separatorCoats i q = if s.SeparatedAt p i then 1 else 0 := by
  obtain ⟨rfl, ⟨hlow, hhigh⟩, hrow⟩ := hq
  have hrows : ¬(q.y = s.mapper.startPixel i ∧ min 0 (s.mapper.extent - 1) ≤ q.x ∧
      q.x ≤ max 0 (s.mapper.extent - 1)) := fun h => hrow i ⟨hi.1, hi.2, h.1.symm⟩
  have hinside : min 0 (s.mapper.extent - 1) ≤ q.y ∧ q.y ≤ max 0 (s.mapper.extent - 1) := by
    generalize s.mapper.extent = stop at hhigh
    omega
  unfold separatorCoats
  dsimp only
  rw [if_neg hrows, Nat.add_zero]
  refine if_congr ?_ rfl rfl
  rw [and_iff_left hinside, eq_comm]
  exact ⟨fun h => ⟨hi.1, hi.2, h⟩, fun h => h.2.2⟩

theorem separatorCoats_pos_iff (hcross : s.CrossedAt p q ∨ s.CrossedAt p q.swap)
    (hi : 1 ≤ i ∧ i < s.fileCount) : 0 < s.separatorCoats i q ↔ s.SeparatedAt p i := by
  have hcount : s.separatorCoats i q = if s.SeparatedAt p i then 1 else 0 := by
    rcases hcross with hcolumn | hrow
    · exact separatorCoats_of_crossedAt hcolumn hi
    · rw [← separatorCoats_swap]
      exact separatorCoats_of_crossedAt hrow hi
  rw [hcount]
  split <;> simp [*]

/-- The last separator drawn over such a pixel is that of the last file of the column. -/
theorem getLast?_separators (hcross : s.CrossedAt p q ∨ s.CrossedAt p q.swap)
    (hj : IsGreatest {j | s.SeparatedAt p j} j) :
    ((List.range' 1 (s.fileCount - 1)).filter (0 < s.separatorCoats · q)).getLast? = some j := by
  have hlisted {i : Nat} : i ∈ List.range' 1 (s.fileCount - 1) ↔ 1 ≤ i ∧ i < s.fileCount := by
    rw [List.mem_range'_1]
    omega
  apply (getLast?_filter_eq_some_iff List.pairwise_lt_range').mpr
  constructor
  · have hi : 1 ≤ j ∧ j < s.fileCount := ⟨hj.1.1, hj.1.2.1⟩
    exact ⟨hlisted.mpr hi, decide_eq_true ((separatorCoats_pos_iff hcross hi).mpr hj.1)⟩
  · rintro i ⟨hi, hpos⟩
    exact hj.2 ((separatorCoats_pos_iff hcross (hlisted.mp hi)).mp (of_decide_eq_true hpos))

theorem exists_isGreatest_separatedAt (h : s.SeparatedAt p i) :
    ∃ j, IsGreatest {j | s.SeparatedAt p j} j := by
  have hbound : BddAbove {j | s.SeparatedAt p j} := ⟨s.fileCount, fun j hj => hj.2.1.le⟩
  exact ⟨_, Nat.sSup_mem ⟨i, h⟩ hbound, fun j hj => le_csSup hbound hj⟩

theorem pixel?_separate_of_crossedAt (hgaps : s.options.gaps) (hboundaries : s.options.boundaries)
    (hsolid : (s.color .gap).alpha = 255 ∧ (s.color .boundary).alpha = 255) (hq : c.Holds q)
    (hcross : s.CrossedAt p q ∨ s.CrossedAt p q.swap) (hj : IsGreatest {j | s.SeparatedAt p j} j) :
    (s.separate c).pixel? q = some (s.separatorColor j) := by
  have hopaque (i : Nat) : (s.separatorColor i).alpha = 255 := by
    unfold separatorColor
    split
    · exact hsolid.1
    · exact hsolid.2
  have hpixel : c.pixel? q = some _ := dif_pos hq
  rw [(s.painted_separate c).pixel?, hpixel, Option.map_some]
  simp only [separatorEffect, separator?_eq_some hgaps hboundaries]
  rw [foldl_coat_eq_getLast? fun i _ => hopaque i, getLast?_separators hcross hj]
  rfl

/-- Where gaps and boundaries are both on, a line at the start of a file shows the color of the last
file that starts on its pixel. So a gap stays there if that file is in a new directory too. -/
theorem gap_stays_iff (s : Scene) (c : Canvas) (i : Nat) (q : Point)
    (hgaps : s.options.gaps) (hboundaries : s.options.boundaries)
    (hsolid : (s.color .gap).alpha = 255 ∧ (s.color .boundary).alpha = 255)
    (hi : 1 ≤ i ∧ i < s.fileCount) (hq : c.Holds q)
    (hcross : s.CrossedAt (s.mapper.startPixel i) q ∨ s.CrossedAt (s.mapper.startPixel i) q.swap) :
    ∃ j, IsGreatest {j | s.SeparatedAt (s.mapper.startPixel i) j} j ∧
      (s.separate c).pixel? q =
        some (if s.directories.isBreak j then s.color .gap else s.color .boundary) ∧
      ((s.separate c).pixel? q = some (s.color .gap) ↔
        s.directories.isBreak j ∨ s.color .gap = s.color .boundary) := by
  obtain ⟨j, hj⟩ := exists_isGreatest_separatedAt ⟨hi.1, hi.2, rfl⟩
  have hpixel := pixel?_separate_of_crossedAt hgaps hboundaries hsolid hq hcross hj
  refine ⟨j, hj, hpixel, ?_⟩
  rw [hpixel, Option.some.injEq, separatorColor]
  split
  · rename_i hbreak
    simp [hbreak]
  · rename_i hsame
    simp [hsame, eq_comm]

/-- Files of 4, 1 and 3 offsets, drawn two offsets to a pixel. -/
def crowded (first second third : String) : Scene where
  model :=
    { files := #[⟨0, first, 4⟩, ⟨1, second, 1⟩, ⟨2, third, 3⟩], pairs := [], pairs_within := by simp }
  mapper := ⟨.ofSizes [4, 1, 3], 4⟩
  directories := .ofPaths [first, second, third]
  boxes := []
  frontier := [0, 0, 0]
  options := { boundaries := true }
  palette := .standard
  coloring := none
  selected := ∅
  drag := none

theorem separatedAt_crowded {first second third : String} {p : Int} {i : Nat} :
    (crowded first second third).SeparatedAt p i ↔ p = 2 ∧ (i = 1 ∨ i = 2) := by
  have hone : (⟨.ofSizes [4, 1, 3], 4⟩ : Mapper).startPixel 1 = 2 := by decide
  have htwo : (⟨.ofSizes [4, 1, 3], 4⟩ : Mapper).startPixel 2 = 2 := by decide
  constructor
  · rintro ⟨hlow, hhigh, rfl⟩
    have hlt : i < 3 := hhigh
    obtain rfl | rfl : i = 1 ∨ i = 2 := by omega
    · exact ⟨hone, .inl rfl⟩
    · exact ⟨htwo, .inr rfl⟩
  · rintro ⟨rfl, rfl | rfl⟩
    · exact ⟨le_rfl, Nat.lt_succ_of_lt Nat.one_lt_two, hone⟩
    · exact ⟨Nat.one_lt_two.le, Nat.lt_succ_self 2, htwo⟩

theorem crossedAt_crowded (first second third : String) :
    (crowded first second third).CrossedAt 2 ⟨2, 0⟩ := by
  have hextent : (⟨.ofSizes [4, 1, 3], 4⟩ : Mapper).extent = 4 := by decide
  refine ⟨rfl, ⟨le_rfl, hextent.symm ▸ Int.natCast_pos.mpr (Nat.succ_pos 3)⟩, fun i hi => ?_⟩
  exact absurd (separatedAt_crowded.mp hi).1 (by decide)

/-- The last two files start on one pixel, and the directory changes between them. -/
theorem gap_stays_iff_crowded :
    let s := crowded "a/x" "a/y" "b/z"
    let c := Canvas.blank 4 4 ⟨255, 255, 255, 255⟩
    ((s.options.gaps ∧ s.options.boundaries) ∧
      ((s.color .gap).alpha = 255 ∧ (s.color .boundary).alpha = 255) ∧ (1 ≤ 2 ∧ 2 < s.fileCount) ∧
      c.Holds ⟨0, 2⟩ ∧ s.CrossedAt (s.mapper.startPixel 2) (Point.swap ⟨0, 2⟩)) ∧
    (s.separate c).pixel? ⟨0, 2⟩ = some (s.color .gap) := by
  intro s c
  have hstart : s.mapper.startPixel 2 = 2 := by decide
  have hcross : s.CrossedAt (s.mapper.startPixel 2) (Point.swap ⟨0, 2⟩) := by
    rw [hstart]
    exact crossedAt_crowded _ _ _
  have hcount : 1 ≤ 2 ∧ 2 < s.fileCount := by decide
  have hheld : c.Holds ⟨0, 2⟩ := by decide
  obtain ⟨j, hj, -, hgap⟩ :=
    gap_stays_iff s c 2 ⟨0, 2⟩ rfl rfl ⟨rfl, rfl⟩ hcount hheld (.inr hcross)
  have hlast : j = 2 := by
    have hle : 2 ≤ j := hj.2 ⟨hcount.1, hcount.2, rfl⟩
    have hcases := (separatedAt_crowded.mp hj.1).2
    omega
  refine ⟨⟨⟨rfl, rfl⟩, ⟨rfl, rfl⟩, hcount, hheld, hcross⟩, hgap.mpr (.inl ?_)⟩
  rw [hlast]
  decide

/-- The directory changes before the second file, and the boundary of the third covers the gap. -/
theorem boundary_over_gap :
    let s := crowded "a/x" "b/y" "b/z"
    let c := Canvas.blank 4 4 ⟨255, 255, 255, 255⟩
    s.mapper.layout.isEmpty = false ∧ s.options.gaps ∧ s.options.boundaries ∧
      (s.color .gap).alpha = 255 ∧ (s.color .boundary).alpha = 255 ∧
      s.directories.isBreak 1 ∧ c.Holds ⟨2, 0⟩ ∧ s.CrossedAt (s.mapper.startPixel 1) ⟨2, 0⟩ ∧
      (s.separate c).pixel? ⟨2, 0⟩ = some (s.color .boundary) ∧
      s.color .boundary ≠ s.color .gap := by
  intro s c
  have hstart : s.mapper.startPixel 1 = 2 := by decide
  have hcross : s.CrossedAt (s.mapper.startPixel 1) ⟨2, 0⟩ := by
    rw [hstart]
    exact crossedAt_crowded _ _ _
  exact ⟨by decide, rfl, rfl, rfl, rfl, by decide, by decide, hcross, by decide, by decide⟩

end Scene
end ClonePlot
