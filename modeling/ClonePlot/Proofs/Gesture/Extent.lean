import ClonePlot.Proofs.Gesture.Region

/-! # Rectangles that reach the ends of 64 bits

The corners of a rectangle may be any signed 64-bit numbers. Its width and height count both edges,
and a region stops one pixel past the second edge, so these sums can be refused. A side is too long
from the largest number on, and a region has no end where the rectangle stops at that number. A
region that is returned has content.
-/
namespace ClonePlot.Mapper

variable {m : Mapper} {r : PixelRect} {d : DragSelection}

theorem exists_region?_iff (h : m.dragSelection r = .ok d) :
    (∃ region, m.region? r d = .ok region) ↔
      d.singleCell? = none ∨ r.x1 < Int64.maxValue.toInt ∧ r.y1 < Int64.maxValue.toInt := by
  simp only [region?_eq_ok_iff h, exists_and_left, exists_eq, and_true]

theorem nonempty_of_region? (hdraw : m.drawSize < UInt32.size) (h : m.dragSelection r = .ok d)
    {a b : Fragment} (hregion : m.region? r d = .ok (some (.region a b))) :
    a.start < a.stop ∧ b.start < b.stop := by
  obtain ⟨-, hchange⟩ := (region?_eq_ok_iff h).mp hregion
  obtain ⟨cell, hcell, hpair⟩ := Option.map_eq_some_iff.mp hchange.symm
  obtain ⟨hrows, hcols⟩ := sides_of_singleCell? h hcell
  cases hpair
  exact ⟨(covers_stretch hdraw r.y_le hrows).nonempty, (covers_stretch hdraw r.x_le hcols).nonempty⟩

/-- Which sums of a gesture fit, for any rectangle with 64-bit corners. The height is looked at only
if the width is tiny. -/
theorem gestures_fit_iff (l : Layout) (drawSize : UInt32) (x y x' y' : Int64) :
    let m : Mapper := ⟨l, drawSize.toNat⟩
    let r : PixelRect := .ofCorners ⟨x.toInt, y.toInt⟩ ⟨x'.toInt, y'.toInt⟩
    let largest := Int64.maxValue.toInt
    (∀ width, r.width = .ok width ↔ width = r.x1 - r.x0 + 1 ∧ r.x1 - r.x0 < largest) ∧
    (∀ height, r.height = .ok height ↔ height = r.y1 - r.y0 + 1 ∧ r.y1 - r.y0 < largest) ∧
    ((∃ d, m.dragSelection r = .ok d) ↔
      r.x1 - r.x0 < largest ∧ (r.x0 < r.x1 ∨ r.y1 - r.y0 < largest)) ∧
    ∀ d, m.dragSelection r = .ok d →
      ((∃ region, m.region? r d = .ok region) ↔
        d.singleCell? = none ∨ r.x1 < largest ∧ r.y1 < largest) ∧
      ∀ a b, m.region? r d = .ok (some (.region a b)) → a.start < a.stop ∧ b.start < b.stop := by
  intro m r largest
  have hdraw : m.drawSize < UInt32.size := drawSize.toNat_lt_size
  refine ⟨fun width => ?_, fun height => ?_, exists_dragSelection_iff, fun d h =>
    ⟨exists_region?_iff h, fun a b => nonempty_of_region? hdraw h⟩⟩
  · rw [PixelRect.width_eq_ok_iff]
    omega
  · rw [PixelRect.height_eq_ok_iff]
    omega

/-- A rectangle that starts before the drawing and stops just before the largest number. -/
theorem gestures_fit_iff_wide :
    let m : Mapper := ⟨.ofSizes [8], (8 : UInt32).toNat⟩
    let r : PixelRect := .ofCorners ⟨(0 : Int64).toInt, (9223372036854775806 : Int64).toInt⟩
      ⟨(9223372036854775805 : Int64).toInt, (0 : Int64).toInt⟩
    ∃ d, m.dragSelection r = .ok d ∧ m.region? r d = .ok (some (.region ⟨0, 0, 8⟩ ⟨0, 0, 8⟩)) ∧
      0 < 8 := by
  intro m r
  obtain ⟨-, -, hdrag, hsome⟩ :=
    gestures_fit_iff (.ofSizes [8]) 8 0 9223372036854775806 9223372036854775805 0
  obtain ⟨d, hd⟩ := hdrag.mpr (by decide)
  have hsides : m.dragSelection r = .ok (m.sideFiles r) :=
    dragSelection_eq_sideFiles (by decide) (by decide)
  cases hd.symm.trans hsides
  have hregion : m.region? r (m.sideFiles r) = .ok (some (.region ⟨0, 0, 8⟩ ⟨0, 0, 8⟩)) := by
    decide
  exact ⟨_, hd, hregion, ((hsome _ hd).2 _ _ hregion).1⟩

/-- Neither of two rectangles around all of the drawing has a width, and nothing is selected; a
strip that reaches the largest number selects a cell, of which it marks out no region. -/
theorem gestures_refused :
    let m : Mapper := ⟨.ofSizes [8], 8⟩
    let last : Point := ⟨Int64.maxValue.toInt, Int64.maxValue.toInt⟩
    let r : PixelRect := .ofCorners ⟨0, 0⟩ last
    let r' : PixelRect := .ofCorners ⟨-1, -1⟩ last
    let strip : PixelRect := .ofCorners ⟨0, 0⟩ ⟨5, last.y⟩
    m.layout.isEmpty = false ∧ r.width = .error .add ∧ m.dragSelection r = .error .add ∧
      r'.width = .error .subtract ∧ m.dragSelection r' = .error .subtract ∧
      ∃ d, m.dragSelection strip = .ok d ∧ m.region? strip d = .error .add := by
  intro m last r r' strip
  exact ⟨by decide, by decide, by decide, by decide, by decide, _,
    dragSelection_eq_sideFiles (by decide) (by decide), by decide⟩

end ClonePlot.Mapper
