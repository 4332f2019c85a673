import ClonePlot.Proofs.Gesture.Growth

/-! # The region that a rectangle marks out

A rectangle inside one cell marks out a fragment of the row file and one of the column file. A
fragment starts with the first offset whose pixel lies on the side of the rectangle and stops after
the last one. The side may reach beyond the file, before the drawing or past the end of the line.
-/
namespace ClonePlot

namespace Mapper

/-- The fragment consists of the offsets of its file that are shown from pixel `first` to pixel
`last`, at least one. -/
structure Covers (m : Mapper) (f : Fragment) (first last : Int) : Prop where
  nonempty : f.start < f.stop
  stop_le : f.stop ≤ m.layout.size f.file
  mem_iff : ∀ o < m.layout.size f.file, f.start ≤ o ∧ o < f.stop ↔
    first ≤ m.pixel (m.layout.start f.file + o) ∧ m.pixel (m.layout.start f.file + o) ≤ last

variable {m : Mapper} {r : PixelRect} {d : DragSelection} {p low high : Int} {i o : Nat}
  {side : FileRange}

theorem offsetIn_le_size (m : Mapper) (p : Int) (i : Nat) : m.offsetIn p i ≤ m.layout.size i := by
  have hmono : m.layout.start i ≤ m.layout.stop i := m.layout.start_mono (Nat.le_succ i)
  unfold offsetIn Layout.size
  dsimp only
  omega

theorem offsetIn_le_iff (hdraw : m.drawSize < UInt32.size) (ho : o < m.layout.size i) :
    m.offsetIn p i ≤ o ↔ p ≤ m.pixel (m.layout.start i + o) := by
  have hinside : m.layout.start i + o < m.layout.stop i := by
    unfold Layout.size at ho
    omega
  have htotal : m.layout.stop i ≤ m.layout.total := m.layout.start_le_total (i + 1)
  have hoffset : m.offsetIn p i ≤ o ↔ (max p 0).toNat * m.zoom ≤ m.layout.start i + o := by
    unfold offsetIn
    dsimp only
    omega
  rw [hoffset, ← Nat.le_div_iff_mul_le m.zoom_pos, pixel_eq_div hdraw (by omega)]
  generalize (m.layout.start i + o) / m.zoom = n
  omega

def stretch (m : Mapper) (file : Nat) (first last : Int) : Fragment :=
  ⟨file, m.offsetIn first file, m.offsetIn (last + 1) file⟩

/-- A fragment has no end where the side stops at the last pixel number. -/
theorem fragmentIn_eq_ok_iff {file : Nat} {f : Fragment} (hhigh : 0 ≤ high) :
    m.fragmentIn file low high = .ok f ↔
      high < Int64.maxValue.toInt ∧ f = m.stretch file low high := by
  have hmin : Int64.minValue.toInt ≤ 0 := by decide
  simp only [fragmentIn, addPixels, bind_eq_ok_iff, checkPixel_eq_ok_iff]
  constructor
  · rintro ⟨_, ⟨rfl, -, hlast⟩, hf⟩
    cases hf
    exact ⟨Int.lt_iff_add_one_le.mpr hlast, rfl⟩
  · rintro ⟨hlast, rfl⟩
    exact ⟨_, ⟨rfl, by omega, hlast⟩, rfl⟩

/-- The first file along a side has an offset there, that of the first pixel on the drawing. -/
theorem covers_stretch (hdraw : m.drawSize < UInt32.size) (hle : low ≤ high)
    (h : m.axisFiles? low high = some side) :
    m.Covers (m.stretch side.first low high) low high := by
  obtain ⟨hhigh, hfirst, -⟩ := (axisFiles?_eq_some_iff_of_le hle).mp h
  obtain ⟨place, hplace, hfile⟩ := Option.map_eq_some_iff.mp hfirst
  -- the place shown at the first pixel on the drawing keeps the fragment from being empty
  obtain ⟨hsize, -, hpixel⟩ := pixel_of_position? hdraw hplace
  rw [hfile] at hsize hpixel
  have hmem : ∀ o < m.layout.size side.first,
      m.offsetIn low side.first ≤ o ∧ o < m.offsetIn (high + 1) side.first ↔
        low ≤ m.pixel (m.layout.start side.first + o) ∧
          m.pixel (m.layout.start side.first + o) ≤ high := by
    intro o ho
    rw [offsetIn_le_iff hdraw ho, ← Nat.not_le, offsetIn_le_iff hdraw ho, Int.not_le,
      Int.lt_add_one_iff]
  have hshown := (hmem place.offset hsize).mpr
    (hpixel.symm ▸ ⟨le_max_left low 0, max_le hle hhigh⟩)
  exact ⟨hshown.1.trans_lt hshown.2, m.offsetIn_le_size _ _, hmem⟩

/-- The sides of a rectangle in one cell, each in the file that it stays in. -/
theorem sides_of_singleCell? (h : m.dragSelection r = .ok d) {cell : Nat × Nat}
    (hcell : d.singleCell? = some cell) :
    m.axisFiles? r.y0 r.y1 = some ⟨cell.1, cell.1⟩ ∧
      m.axisFiles? r.x0 r.x1 = some ⟨cell.2, cell.2⟩ := by
  obtain ⟨hrows, hcols⟩ := DragSelection.singleCell?_eq_some_iff.mp hcell
  exact ⟨axisFiles?_of_mem_rows h hrows, axisFiles?_of_mem_cols h hcols⟩

theorem region?_eq_ok_iff (h : m.dragSelection r = .ok d) {region : Option Change} :
    m.region? r d = .ok region ↔
      (d.singleCell? = none ∨ r.x1 < Int64.maxValue.toInt ∧ r.y1 < Int64.maxValue.toInt) ∧
        region = d.singleCell?.map fun cell =>
          .region (m.stretch cell.1 r.y0 r.y1) (m.stretch cell.2 r.x0 r.x1) := by
  unfold region?
  cases hcell : d.singleCell? with
  | none =>
    rw [eq_self, true_or, true_and]
    exact ⟨fun h => (Except.ok.inj h).symm, fun h => congrArg _ h.symm⟩
  | some cell =>
    obtain ⟨hrows, hcols⟩ := sides_of_singleCell? h hcell
    have hy : 0 ≤ r.y1 := (axisFiles?_eq_some_iff.mp hrows).1
    have hx : 0 ≤ r.x1 := (axisFiles?_eq_some_iff.mp hcols).1
    simp only [bind_eq_ok_iff, fragmentIn_eq_ok_iff hy, fragmentIn_eq_ok_iff hx]
    constructor
    · rintro ⟨_, ⟨hlast, rfl⟩, _, ⟨hlast', rfl⟩, hregion⟩
      exact ⟨.inr ⟨hlast', hlast⟩, (Except.ok.inj hregion).symm⟩
    · rintro ⟨hlast, rfl⟩
      obtain ⟨hlast', hlast⟩ := hlast.resolve_left nofun
      exact ⟨_, ⟨hlast, rfl⟩, _, ⟨hlast', rfl⟩, rfl⟩

/-- A rectangle that stays in one file on each side marks out the offsets of these files that are
shown on its sides. -/
theorem region?_covers (l : Layout) (drawSize : UInt32) (r : PixelRect)
    (hx : r.x1 < Int64.maxValue.toInt) (hy : r.y1 < Int64.maxValue.toInt) :
    let m : Mapper := ⟨l, drawSize.toNat⟩
    ∀ d, m.dragSelection r = .ok d → ∃ region, m.region? r d = .ok region ∧
      (region.isSome ↔ ∃ i j, d.rows = some ⟨i, i⟩ ∧ d.cols = some ⟨j, j⟩) ∧
      ∀ change, region = some change → ∃ a b, change = .region a b ∧
        d.files = .ofList [a.file, b.file] ∧ m.Covers a r.y0 r.y1 ∧ m.Covers b r.x0 r.x1 := by
  intro m d h
  have hdraw : m.drawSize < UInt32.size := drawSize.toNat_lt_size
  refine ⟨_, (region?_eq_ok_iff h).mpr ⟨.inr ⟨hx, hy⟩, rfl⟩, ?_, fun change hchange => ?_⟩
  · rw [Option.isSome_map, Option.isSome_iff_exists]
    constructor
    · rintro ⟨cell, hcell⟩
      exact ⟨cell.1, cell.2, DragSelection.singleCell?_eq_some_iff.mp hcell⟩
    · rintro ⟨i, j, hcell⟩
      exact ⟨(i, j), DragSelection.singleCell?_eq_some_iff.mpr hcell⟩
  · obtain ⟨cell, hcell, rfl⟩ := Option.map_eq_some_iff.mp hchange
    obtain ⟨hrows, hcols⟩ := sides_of_singleCell? h hcell
    refine ⟨_, _, rfl, IndexSet.ext_mem fun i => ?_, ?_, ?_⟩
    · rw [mem_files_of_singleCell? h hcell]
      simp [stretch]
    · exact covers_stretch hdraw r.y_le hrows
    · exact covers_stretch hdraw r.x_le hcols

/-- Two offsets to a pixel: the first file stops inside a block, and the rectangle reaches past the
end of the line. -/
theorem region?_covers_padded :
    let m : Mapper := ⟨.ofSizes [5, 0, 7], (6 : UInt32).toNat⟩
    let r : PixelRect := .ofCorners ⟨3, 1⟩ ⟨40, 2⟩
    ∃ d, m.dragSelection r = .ok d ∧ m.region? r d = .ok (some (.region ⟨0, 2, 5⟩ ⟨2, 1, 7⟩)) ∧
      m.Covers ⟨0, 2, 5⟩ 1 2 ∧ m.Covers ⟨2, 1, 7⟩ 3 40 := by
  intro m r
  have hd : m.dragSelection r = .ok (m.sideFiles r) :=
    dragSelection_eq_sideFiles (by decide) (by decide)
  have hregion : m.region? r (m.sideFiles r) = .ok (some (.region ⟨0, 2, 5⟩ ⟨2, 1, 7⟩)) := by
    decide
  obtain ⟨region, hok, -, hcovers⟩ :=
    region?_covers (.ofSizes [5, 0, 7]) 6 r (by decide) (by decide) _ hd
  cases hregion.symm.trans hok
  obtain ⟨a, b, hchange, -, ha, hb⟩ := hcovers _ rfl
  cases hchange
  exact ⟨_, hd, hregion, ha, hb⟩

end Mapper
end ClonePlot
