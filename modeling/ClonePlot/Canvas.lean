import ClonePlot.Color
import ClonePlot.Point

/-! # Canvases

A raster of solid colors. Painting blends a color over the pixels of a shape; whatever
lies outside the raster is cut off. `pixel?` is the view of a canvas in which each
painting operation is described.
-/
namespace ClonePlot

structure Canvas where
  width : Nat
  height : Nat
  pixels : Vector Color (width * height)
  deriving DecidableEq

namespace Canvas

def blank (width height : Nat) (color : Color) : Canvas :=
  ⟨width, height, .replicate _ color.solid⟩

def Holds (c : Canvas) (p : Point) : Prop := 0 ≤ p.x ∧ p.x < c.width ∧ 0 ≤ p.y ∧ p.y < c.height

instance (c : Canvas) (p : Point) : Decidable (c.Holds p) :=
  inferInstanceAs (Decidable (_ ∧ _))

def index (c : Canvas) (p : Point) : Nat := p.y.toNat * c.width + p.x.toNat

theorem index_lt {c : Canvas} {p : Point} (h : c.Holds p) : c.index p < c.width * c.height := by
  obtain ⟨hx, hw, hy, hh⟩ := h
  have h1 : p.x.toNat < c.width := by omega
  have h2 : p.y.toNat + 1 ≤ c.height := by omega
  calc p.y.toNat * c.width + p.x.toNat < p.y.toNat * c.width + c.width := by omega
    _ = (p.y.toNat + 1) * c.width := by rw [Nat.add_mul, Nat.one_mul]
    _ ≤ c.height * c.width := Nat.mul_le_mul_right _ h2
    _ = c.width * c.height := Nat.mul_comm _ _

theorem index_inj {c : Canvas} {p q : Point} (hp : c.Holds p) (hq : c.Holds q)
    (h : c.index p = c.index q) : p = q := by
  obtain ⟨hp1, hp2, hp3, hp4⟩ := hp
  obtain ⟨hq1, hq2, hq3, hq4⟩ := hq
  have hpw : p.x.toNat < c.width := by omega
  have hqw : q.x.toNat < c.width := by omega
  have hx : p.x.toNat = q.x.toNat := by
    have := congrArg (· % c.width) h
    simpa [index, Nat.mul_comm _ c.width, Nat.mul_add_mod, Nat.mod_eq_of_lt hpw,
      Nat.mod_eq_of_lt hqw] using this
  have hy : p.y.toNat = q.y.toNat := by
    unfold index at h
    rw [hx] at h
    exact Nat.eq_of_mul_eq_mul_right (by omega : 0 < c.width) (Nat.add_right_cancel h)
  cases p; cases q
  simp only [Point.mk.injEq] at *
  omega

def pixel? (c : Canvas) (p : Point) : Option Color :=
  if h : c.Holds p then
    have := index_lt h
    some c.pixels[c.index p]
  else none

def fill (c : Canvas) (color : Color) : Canvas :=
  { c with pixels := c.pixels.map fun _ => color.solid }

theorem fill_eq_blank (c : Canvas) (color : Color) :
    c.fill color = blank c.width c.height color := by
  unfold fill blank
  congr 1
  ext i hi
  simp

def put (c : Canvas) (p : Point) (color : Color) : Canvas :=
  if h : c.Holds p then
    have := index_lt h
    { c with pixels := c.pixels.set (c.index p) (color.blendOver c.pixels[c.index p]) }
  else c

@[simp] theorem width_put (c : Canvas) (p : Point) (color : Color) :
    (c.put p color).width = c.width := by
  unfold put; split <;> rfl

@[simp] theorem height_put (c : Canvas) (p : Point) (color : Color) :
    (c.put p color).height = c.height := by
  unfold put; split <;> rfl

theorem pixel?_withPixels (c : Canvas) (pixels : Vector Color (c.width * c.height)) (q : Point) :
    pixel? { c with pixels } q =
      if h : c.Holds q then
        have := index_lt h
        some pixels[c.index q]
      else none := rfl

theorem pixel?_put (c : Canvas) (p q : Point) (color : Color) :
    (c.put p color).pixel? q =
      if q = p then (c.pixel? q).map color.blendOver else c.pixel? q := by
  unfold put
  by_cases hp : c.Holds p
  · rw [dif_pos hp, pixel?_withPixels c]
    simp only [pixel?]
    by_cases hq : c.Holds q
    · by_cases hqp : q = p
      · subst hqp
        simp [hq]
      · have hne : c.index p ≠ c.index q := fun h => hqp (index_inj hp hq h).symm
        simp only [dif_pos hq, if_neg hqp]
        congr 1
        exact Vector.getElem_set_ne _ _ hne
    · simp [hq]
  · simp only [dif_neg hp]
    split
    · rename_i h; subst h; simp [pixel?, hp]
    · rfl

/-- Blends a color over the first `n` pixels from `(x, y)` to the right that lie in the shape. -/
def paintRow (shape : Point → Bool) (color : Color) (y x : Int) : Nat → Canvas → Canvas
  | 0, c => c
  | n + 1, c =>
    paintRow shape color y (x + 1) n (if shape ⟨x, y⟩ then c.put ⟨x, y⟩ color else c)

def paintRows (shape : Point → Bool) (color : Color) (x : Int) (count : Nat) (y : Int) :
    Nat → Canvas → Canvas
  | 0, c => c
  | n + 1, c => paintRows shape color x count (y + 1) n (paintRow shape color y x count c)

/-- Blends a color once over every pixel of the half-open rectangle from `(x0, y0)` to
`(x1, y1)` that lies in the shape. -/
def paint (c : Canvas) (shape : Point → Bool) (x0 y0 x1 y1 : Int) (color : Color) : Canvas :=
  let left := max x0 0
  let top := max y0 0
  paintRows shape color left (min x1 c.width - left).toNat top (min y1 c.height - top).toNat c

theorem pixel?_paintRow (shape : Point → Bool) (color : Color) (y x : Int) (n : Nat) (c : Canvas)
    (q : Point) : (paintRow shape color y x n c).pixel? q =
      if shape q ∧ q.y = y ∧ x ≤ q.x ∧ q.x < x + n then (c.pixel? q).map color.blendOver
      else c.pixel? q := by
  induction n generalizing x c with
  | zero =>
    have : ¬ (shape q ∧ q.y = y ∧ x ≤ q.x ∧ q.x < x + (0 : Nat)) := fun h => by omega
    rw [if_neg this, paintRow]
  | succ n ih =>
    rw [paintRow, ih]
    by_cases hq : q = ⟨x, y⟩
    · subst hq
      by_cases hs : shape ⟨x, y⟩
      · have past : ¬ x + 1 ≤ x := by omega
        have inside : x < x + (n + 1 : Int) := by omega
        simp [hs, pixel?_put, past, inside]
      · simp [hs]
    · have hput : (if shape ⟨x, y⟩ then c.put ⟨x, y⟩ color else c).pixel? q = c.pixel? q := by
        split
        · simp [pixel?_put, hq]
        · rfl
      have hne : ¬ (q.x = x ∧ q.y = y) := fun h => hq (by cases q; simp_all)
      rw [hput]
      refine ite_congr (propext ?_) (fun _ => rfl) (fun _ => rfl)
      constructor <;> (rintro ⟨h1, h2, h3, h4⟩; exact ⟨h1, h2, by omega, by omega⟩)

theorem pixel?_paintRows (shape : Point → Bool) (color : Color) (x y : Int) (count n : Nat)
    (c : Canvas) (q : Point) : (paintRows shape color x count y n c).pixel? q =
      if shape q ∧ (y ≤ q.y ∧ q.y < y + n) ∧ x ≤ q.x ∧ q.x < x + count then
        (c.pixel? q).map color.blendOver
      else c.pixel? q := by
  induction n generalizing y c with
  | zero =>
    have : ¬ (shape q ∧ (y ≤ q.y ∧ q.y < y + (0 : Nat)) ∧ x ≤ q.x ∧ q.x < x + count) :=
      fun h => by omega
    rw [if_neg this, paintRows]
  | succ n ih =>
    rw [paintRows, ih, pixel?_paintRow]
    by_cases hy : q.y = y
    · have : ¬ (shape q ∧ (y + 1 ≤ q.y ∧ q.y < y + 1 + n) ∧ x ≤ q.x ∧ q.x < x + count) :=
        fun h => by omega
      rw [if_neg this]
      refine ite_congr (propext ?_) (fun _ => rfl) (fun _ => rfl)
      constructor <;> (rintro ⟨h1, h2, h3⟩; exact ⟨h1, by omega, by omega⟩)
    · have : ¬ (shape q ∧ q.y = y ∧ x ≤ q.x ∧ q.x < x + count) := fun h => hy h.2.1
      rw [if_neg this]
      refine ite_congr (propext ?_) (fun _ => rfl) (fun _ => rfl)
      constructor <;> (rintro ⟨h1, h2, h3⟩; exact ⟨h1, by omega, by omega⟩)

theorem Holds.of_pixel? {c : Canvas} {p : Point} {color : Color} (h : c.pixel? p = some color) :
    c.Holds p := by
  unfold pixel? at h
  split at h
  · assumption
  · simp at h

/-- Painting changes the pixels of the shape in the rectangle, each once, and no other. -/
theorem pixel?_paint (c : Canvas) (shape : Point → Bool) (x0 y0 x1 y1 : Int) (color : Color)
    (q : Point) : (c.paint shape x0 y0 x1 y1 color).pixel? q =
      if shape q ∧ (y0 ≤ q.y ∧ q.y < y1) ∧ x0 ≤ q.x ∧ q.x < x1 then (c.pixel? q).map color.blendOver
      else c.pixel? q := by
  unfold paint
  rw [pixel?_paintRows]
  cases h : c.pixel? q with
  | none => simp
  | some d =>
    obtain ⟨h1, h2, h3, h4⟩ := Holds.of_pixel? h
    refine ite_congr (propext ?_) (fun _ => rfl) (fun _ => rfl)
    constructor <;> (rintro ⟨hs, h5, h6⟩; exact ⟨hs, by omega, by omega⟩)

end Canvas
end ClonePlot
