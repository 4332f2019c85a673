import ClonePlot.Proofs.Canvas.Area

/-! # Drawing on a part of a canvas

A drawing operation does the same to a pixel whatever canvas it belongs to. So it makes no
difference whether a drawing is cropped in the end or made on the small canvas from the start.
-/
namespace ClonePlot

namespace Canvas

variable {c d : Canvas} {w h : Nat}

def crop (c : Canvas) (w h : Nat) : Canvas where
  width := min w c.width
  height := min h c.height
  pixels := .ofFn fun i =>
    (c.pixel? ⟨(i % min w c.width : Nat), (i / min w c.width : Nat)⟩).getD default

theorem holds_crop_iff {q : Point} : (c.crop w h).Holds q ↔ c.Holds q ∧ q.x < w ∧ q.y < h := by
  unfold Holds crop
  dsimp only
  omega

theorem pixel?_eq_none_iff {q : Point} : c.pixel? q = none ↔ ¬c.Holds q := by
  unfold pixel?
  split <;> simp [*]

theorem pixel?_crop (c : Canvas) (w h : Nat) (q : Point) :
    (c.crop w h).pixel? q = if q.x < w ∧ q.y < h then c.pixel? q else none := by
  by_cases hq : (c.crop w h).Holds q
  · obtain ⟨hholds, hinside⟩ := holds_crop_iff.mp hq
    have hcolumn : q.x < (min w c.width : Nat) := hq.2.1
    have hwidth : q.x.toNat < min w c.width := (Int.toNat_lt hq.1).mpr hcolumn
    have hmod : (c.crop w h).index q % min w c.width = q.x.toNat := by
      rw [index, crop, Nat.mul_comm, Nat.mul_add_mod, Nat.mod_eq_of_lt hwidth]
    have hdiv : (c.crop w h).index q / min w c.width = q.y.toNat := by
      rw [index, crop, Nat.mul_comm, Nat.mul_add_div (Nat.zero_lt_of_lt hwidth),
        Nat.div_eq_of_lt hwidth, Nat.add_zero]
    have hplace : (⟨(q.x.toNat : Nat), (q.y.toNat : Nat)⟩ : Point) = q := by
      rw [Int.toNat_of_nonneg hq.1, Int.toNat_of_nonneg hq.2.2.1]
    obtain ⟨color, hcolor⟩ : ∃ color, c.pixel? q = some color := ⟨_, dif_pos hholds⟩
    rw [if_pos hinside, pixel?, dif_pos hq]
    simp only [crop, Vector.getElem_ofFn] at hmod hdiv ⊢
    rw [hmod, hdiv, hplace, hcolor, Option.getD_some]
  · rw [pixel?_eq_none_iff.mpr hq]
    split
    · rename_i hinside
      exact (pixel?_eq_none_iff.mpr fun hholds => hq (holds_crop_iff.mpr ⟨hholds, hinside⟩)).symm
    · rfl

theorem crop_blank (width height : Nat) (color : Color) (w h : Nat) :
    (blank width height color).crop w h = blank (min w width) (min h height) color := by
  refine ext_pixel? rfl rfl fun q => ?_
  have hholds : (blank (min w width) (min h height) color).Holds q ↔
      (blank width height color).Holds q ∧ q.x < w ∧ q.y < h :=
    holds_crop_iff (c := blank width height color)
  rw [pixel?_crop]
  by_cases hq : (blank (min w width) (min h height) color).Holds q
  · obtain ⟨hlarge, hinside⟩ := hholds.mp hq
    rw [if_pos hinside, pixel?_blank hq, pixel?_blank hlarge]
  · rw [pixel?_eq_none_iff.mpr hq]
    split
    · rename_i hinside
      exact pixel?_eq_none_iff.mpr fun hlarge => hq (hholds.mpr ⟨hlarge, hinside⟩)
    · rfl

theorem Painted.crop {effect : Point → Color → Color} (hpaint : Painted effect c d) (w h : Nat) :
    Painted effect (c.crop w h) (d.crop w h) where
  width := congrArg (min w) hpaint.width
  height := congrArg (min h) hpaint.height
  pixel? := by
    intro q
    rw [pixel?_crop, pixel?_crop, hpaint.pixel?]
    split <;> rfl

/-- Operations that look at no other pixel may be carried out on a part of the canvas. -/
theorem crop_foldl {α : Type} {draw : Canvas → α → Canvas} {effect : α → Point → Color → Color}
    (hdraw : ∀ a c, Painted (effect a) c (draw c a)) (l : List α) (c : Canvas) (w h : Nat) :
    (l.foldl draw c).crop w h = l.foldl draw (c.crop w h) :=
  ((Painted.foldl hdraw l c).crop w h).unique (Painted.foldl hdraw l (c.crop w h))

end Canvas

open Canvas

inductive Area
  | rect (x0 y0 x1 y1 : Int)
  | row (x0 x1 y : Int)
  | column (x y0 y1 : Int)
  | border (x0 y0 x1 y1 : Int)
  | dot (p : Point) (size : Int)
  | rounded (x0 y0 x1 y1 radius : Int)
  | text (p : Point) (scale : Int) (text : String)

namespace Area

def draw (c : Canvas) (color : Color) : Area → Canvas
  | rect x0 y0 x1 y1 => c.fillRect x0 y0 x1 y1 color
  | row x0 x1 y => c.hline x0 x1 y color
  | column x y0 y1 => c.vline x y0 y1 color
  | border x0 y0 x1 y1 => c.outlineRect x0 y0 x1 y1 color
  | dot p size => c.dot p size color
  | rounded x0 y0 x1 y1 radius => c.roundedRect x0 y0 x1 y1 radius color
  | text p scale string => c.text p scale string color

def Has (q : Point) : Area → Prop
  | rect x0 y0 x1 y1 => InRect x0 y0 x1 y1 q
  | row x0 x1 y => q.y = y ∧ min x0 x1 ≤ q.x ∧ q.x ≤ max x0 x1
  | column x y0 y1 => q.x = x ∧ min y0 y1 ≤ q.y ∧ q.y ≤ max y0 y1
  | border x0 y0 x1 y1 => OnBorder x0 y0 x1 y1 q
  | dot p size => InRect p.x p.y (p.x + max size 1) (p.y + max size 1) q
  | rounded x0 y0 x1 y1 radius => Rounded x0 y0 x1 y1 (cornerRadius x0 y0 x1 y1 radius) q
  | text p scale string => InText p scale string.toList q

instance (q : Point) (a : Area) : Decidable (a.Has q) := by
  cases a <;> unfold Has <;> infer_instance

theorem covers_draw (a : Area) (color : Color) (c : Canvas) :
    Covers color a.Has c (a.draw c color) := by
  cases a with
  | rect => exact covers_fillRect ..
  | row => exact covers_hline ..
  | column => exact covers_vline ..
  | border => exact covers_outlineRect ..
  | dot => exact covers_dot ..
  | rounded => exact covers_rounded ..
  | text => exact covers_text ..

def drawAll (c : Canvas) (areas : List (Area × Color)) : Canvas :=
  areas.foldl (fun c entry => entry.1.draw c entry.2) c

/-- Every area gets one coat on each of its pixels, and a part of a drawing is what the same areas
give on a part of the canvas. -/
theorem drawn_once :
    (∀ (a : Area) (color : Color) (c : Canvas), (a.draw c color).width = c.width ∧
      (a.draw c color).height = c.height ∧ ∀ q, (a.draw c color).pixel? q =
        if a.Has q then (c.pixel? q).map color.blendOver else c.pixel? q) ∧
    (∀ (areas : List (Area × Color)) (c : Canvas) (w h : Nat),
      (drawAll c areas).crop w h = drawAll (c.crop w h) areas) ∧
    ∀ (width height : Nat) (color : Color) (w h : Nat), (blank width height color).crop w h =
      blank (min w width) (min h height) color := by
  refine ⟨fun a color c => ?_, fun areas c w h => ?_, crop_blank⟩
  · have hcovers := a.covers_draw color c
    exact ⟨hcovers.width, hcovers.height, hcovers.pixel?_eq⟩
  · exact crop_foldl (fun entry c => entry.1.covers_draw entry.2 c) areas c w h

/-- A square of no pixels would leave the canvas as it is. -/
theorem dot_drawn_without_size :
    let c := blank 1 1 ⟨255, 255, 255, 255⟩
    (∀ q, ¬InRect 0 0 (0 + 0) (0 + 0) q) ∧
      ((dot ⟨0, 0⟩ 0).draw c ⟨0, 0, 0, 255⟩).pixel? ⟨0, 0⟩ ≠ c.pixel? ⟨0, 0⟩ := by
  refine ⟨fun q hq => ?_, by decide⟩
  omega

end Area
end ClonePlot
