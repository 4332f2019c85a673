import ClonePlot.Overflow

/-! # Pixel coordinates

Points of the pixel plane and rectangles given by their first and last column and row.
-/
namespace ClonePlot

structure Point where
  x : Int
  y : Int
  deriving DecidableEq, Repr

/-- The reflection across the main diagonal. -/
def Point.swap (p : Point) : Point := ⟨p.y, p.x⟩

/-- A rectangle that contains its edges, hence at least one pixel. -/
structure PixelRect where
  x0 : Int
  y0 : Int
  x1 : Int
  y1 : Int
  x_le : x0 ≤ x1 := by omega
  y_le : y0 ≤ y1 := by omega
  deriving DecidableEq

namespace PixelRect

def ofCorners (a b : Point) : PixelRect where
  x0 := min a.x b.x
  y0 := min a.y b.y
  x1 := max a.x b.x
  y1 := max a.y b.y

def span (first last : Int) : Except Overflow Int := do addPixels (← subPixels last first) 1

def width (r : PixelRect) : Except Overflow Int := span r.x0 r.x1

def height (r : PixelRect) : Except Overflow Int := span r.y0 r.y1

def contains (r : PixelRect) (p : Point) : Bool :=
  r.x0 ≤ p.x && p.x ≤ r.x1 && r.y0 ≤ p.y && p.y ≤ r.y1

def intersects (r s : PixelRect) : Bool :=
  r.x0 ≤ s.x1 && s.x0 ≤ r.x1 && r.y0 ≤ s.y1 && s.y0 ≤ r.y1

def swap (r : PixelRect) : PixelRect := ⟨r.y0, r.x0, r.y1, r.x1, r.y_le, r.x_le⟩

theorem span_eq_ok_iff {first last n : Int} (hle : first ≤ last) :
    span first last = .ok n ↔ n = last - first + 1 ∧ n ≤ Int64.maxValue.toInt := by
  have hmin : Int64.minValue.toInt ≤ 0 := by decide
  simp only [span, addPixels, subPixels, bind_eq_ok_iff, checkPixel_eq_ok_iff]
  constructor
  · rintro ⟨steps, ⟨rfl, -⟩, rfl, -, hlast⟩
    exact ⟨rfl, hlast⟩
  · rintro ⟨rfl, hlast⟩
    exact ⟨_, ⟨rfl, by omega, by omega⟩, rfl, by omega, hlast⟩

theorem width_eq_ok_iff {r : PixelRect} {w : Int} :
    r.width = .ok w ↔ w = r.x1 - r.x0 + 1 ∧ w ≤ Int64.maxValue.toInt :=
  span_eq_ok_iff r.x_le

theorem height_eq_ok_iff {r : PixelRect} {h : Int} :
    r.height = .ok h ↔ h = r.y1 - r.y0 + 1 ∧ h ≤ Int64.maxValue.toInt :=
  span_eq_ok_iff r.y_le

theorem contains_iff {r : PixelRect} {p : Point} :
    r.contains p ↔ r.x0 ≤ p.x ∧ p.x ≤ r.x1 ∧ r.y0 ≤ p.y ∧ p.y ≤ r.y1 := by
  simp [contains, and_assoc]

/-- Rectangles intersect exactly when they share a pixel. -/
theorem intersects_iff {r s : PixelRect} :
    r.intersects s ↔ ∃ p, r.contains p ∧ s.contains p := by
  have := r.x_le; have := r.y_le; have := s.x_le; have := s.y_le
  simp only [intersects, contains_iff, Bool.and_eq_true, decide_eq_true_eq]
  constructor
  · rintro ⟨⟨⟨h1, h2⟩, h3⟩, h4⟩
    exact ⟨⟨max r.x0 s.x0, max r.y0 s.y0⟩, by dsimp only; omega, by dsimp only; omega⟩
  · rintro ⟨p, h, k⟩
    omega

end PixelRect
end ClonePlot
