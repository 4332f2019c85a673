import Mathlib
import ClonePlot.Canvas.Line
import ClonePlot.Canvas.Shape

/-! # Effects of painting

Every drawing operation keeps the size of the canvas and changes each pixel by a function of
its place alone. Operations of one color differ only in how many coats each pixel gets, so
their order does not matter.
-/
namespace ClonePlot

def Color.coat (color : Color) (n : Nat) : Color → Color := color.blendOver^[n]

@[simp] theorem Color.coat_zero (color : Color) : color.coat 0 = fun d => d := rfl

@[simp] theorem Color.coat_one (color : Color) : color.coat 1 = color.blendOver := rfl

theorem Color.coat_add (color : Color) (m n : Nat) (d : Color) :
    color.coat (m + n) d = color.coat n (color.coat m d) := by
  rw [coat, coat, coat, Nat.add_comm, Function.iterate_add_apply]

theorem Color.coat_of_solid {color : Color} (h : color.alpha = 255) {n : Nat} (hn : 0 < n)
    (d : Color) : color.coat n d = color := by
  obtain ⟨k, rfl⟩ := Nat.exists_eq_add_of_lt hn
  rw [coat, Function.iterate_succ_apply', blendOver, if_pos h]

/-- Of opaque coats only the last one is seen. -/
theorem foldl_coat_eq_getLast? {α : Type} {color : α → Color} {count : α → Nat} {l : List α}
    (h : ∀ a ∈ l, (color a).alpha = 255) (d : Color) :
    l.foldl (fun d a => (color a).coat (count a) d) d =
      ((l.filter (0 < count ·)).getLast?.map color).getD d := by
  induction l using List.reverseRecOn with
  | nil => rfl
  | append_singleton l a ih =>
    have hlast : (color a).alpha = 255 := h a (List.mem_append_right l List.mem_cons_self)
    rw [List.foldl_append, List.foldl_cons, List.foldl_nil,
      ih fun b hb => h b (List.mem_append_left [a] hb), List.filter_append]
    by_cases ha : 0 < count a
    · have hseen : [a].filter (0 < count ·) = [a] := List.filter_eq_self.mpr (by simpa using ha)
      rw [Color.coat_of_solid hlast ha, hseen, List.getLast?_concat]
      rfl
    · have hgone : [a].filter (0 < count ·) = [] := List.filter_eq_nil_iff.mpr (by simpa using ha)
      rw [Nat.eq_zero_of_not_pos ha, hgone, List.append_nil, Color.coat_zero]

namespace Canvas

/-- The second canvas is the first with each pixel changed by the effect at its place. -/
structure Painted (effect : Point → Color → Color) (c d : Canvas) : Prop where
  width : d.width = c.width
  height : d.height = c.height
  pixel? (q : Point) : d.pixel? q = (c.pixel? q).map (effect q)

/-- The second canvas is the first under coats of one color, each pixel getting its number. -/
abbrev Coats (color : Color) (count : Point → Nat) (c d : Canvas) : Prop :=
  Painted (fun q => color.coat (count q)) c d

/-- The second canvas is the first with one coat on each pixel of a shape and no other. -/
abbrev Covers (color : Color) (shape : Point → Prop) [DecidablePred shape] (c d : Canvas) : Prop :=
  Coats color (fun q => if shape q then 1 else 0) c d

variable {color : Color} {c d e : Canvas} {effect effect' : Point → Color → Color}

theorem pixel?_blank {width height : Nat} {q : Point} (h : (blank width height color).Holds q) :
    (blank width height color).pixel? q = some color.solid := by
  rw [pixel?, dif_pos h]
  simp [blank]

theorem ext_pixel? (hw : c.width = d.width) (hh : c.height = d.height)
    (hp : ∀ q, c.pixel? q = d.pixel? q) : c = d := by
  obtain ⟨w, h, cs⟩ := c
  obtain ⟨w', h', ds⟩ := d
  obtain rfl : w = w' := hw
  obtain rfl : h = h' := hh
  congr 1
  ext1 k hk
  have hwidth : 0 < w := Nat.pos_of_mul_pos_right (Nat.zero_lt_of_lt hk)
  have hx : k % w < w := Nat.mod_lt k hwidth
  have hy : k / w < h := Nat.div_lt_of_lt_mul hk
  have hindex : k / w * w + k % w = k := by
    rw [Nat.mul_comm]
    exact Nat.div_add_mod k w
  have hpixel := hp ⟨(k % w : Nat), (k / w : Nat)⟩
  have hholds : 0 ≤ ((k % w : Nat) : Int) ∧ ((k % w : Nat) : Int) < w ∧
      0 ≤ ((k / w : Nat) : Int) ∧ ((k / w : Nat) : Int) < h :=
    ⟨Int.natCast_nonneg _, Int.ofNat_lt.mpr hx, Int.natCast_nonneg _, Int.ofNat_lt.mpr hy⟩
  simp only [pixel?, Holds, index, dif_pos hholds, Int.toNat_natCast, hindex,
    Option.some.injEq] at hpixel
  exact hpixel

namespace Painted

theorem refl (c : Canvas) : Painted (fun _ d => d) c c :=
  ⟨rfl, rfl, fun q => by cases c.pixel? q <;> rfl⟩

theorem trans (h : Painted effect c d) (h' : Painted effect' d e) :
    Painted (fun q x => effect' q (effect q x)) c e where
  width := h'.width.trans h.width
  height := h'.height.trans h.height
  pixel? q := by rw [h'.pixel?, h.pixel?, Option.map_map]; rfl

theorem foldl {α : Type} {draw : Canvas → α → Canvas} {effect : α → Point → Color → Color}
    (h : ∀ a c, Painted (effect a) c (draw c a)) (l : List α) (c : Canvas) :
    Painted (fun q x => l.foldl (fun x a => effect a q x) x) c (l.foldl draw c) := by
  induction l generalizing c with
  | nil => exact .refl c
  | cons a l ih => exact (h a c).trans (ih (draw c a))

theorem congr (h : Painted effect c d) (he : ∀ q, effect q = effect' q) : Painted effect' c d :=
  (funext he : effect = effect') ▸ h

theorem unique (h : Painted effect c d) (h' : Painted effect c e) : d = e := by
  refine ext_pixel? (h.width.trans h'.width.symm) (h.height.trans h'.height.symm) fun q => ?_
  rw [h.pixel?, h'.pixel?]

end Painted

namespace Coats
variable {m n : Point → Nat}

theorem refl (color : Color) (c : Canvas) : Coats color (fun _ => 0) c c := Painted.refl c

theorem trans (h : Coats color m c d) (h' : Coats color n d e) :
    Coats color (fun q => m q + n q) c e :=
  (Painted.trans h h').congr fun q => funext fun x => (color.coat_add (m q) (n q) x).symm

theorem foldl {α : Type} {draw : Canvas → α → Canvas} {count : α → Point → Nat}
    (h : ∀ a c, Coats color (count a) c (draw c a)) (l : List α) (c : Canvas) :
    Coats color (fun q => (l.map (count · q)).sum) c (l.foldl draw c) := by
  induction l generalizing c with
  | nil => exact refl color c
  | cons a l ih => exact trans (h a c) (ih (draw c a))

theorem congr (h : Coats color m c d) (hc : ∀ q, m q = n q) : Coats color n c d :=
  (funext hc : m = n) ▸ h

theorem pos_of_pixel?_ne (h : Coats color m c d) {q : Point} (hq : d.pixel? q ≠ c.pixel? q) :
    0 < m q := by
  refine Nat.pos_of_ne_zero fun hnone => hq ?_
  rw [h.pixel?, hnone, Color.coat_zero, Option.map_id_fun', id_eq]

end Coats

namespace Covers
variable {shape shape' : Point → Prop} [DecidablePred shape] [DecidablePred shape']

theorem intro (hw : d.width = c.width) (hh : d.height = c.height)
    (hp : ∀ q, d.pixel? q = if shape q then (c.pixel? q).map color.blendOver else c.pixel? q) :
    Covers color shape c d := by
  refine ⟨hw, hh, fun q => (hp q).trans ?_⟩
  by_cases hq : shape q
  · simp only [if_pos hq, Color.coat_one]
  · simp only [if_neg hq, Color.coat_zero, Option.map_id_fun', id_eq]

theorem refl (color : Color) (c : Canvas) (h : ∀ q, ¬ shape q) : Covers color shape c c :=
  (Coats.refl color c).congr fun q => (if_neg (h q)).symm

/-- Shapes without a common pixel are covered one after the other. -/
theorem union (h : Covers color shape c d) (h' : Covers color shape' d e)
    (hdisj : ∀ q, shape q → ¬ shape' q) : Covers color (fun q => shape q ∨ shape' q) c e := by
  refine (Coats.trans h h').congr fun q => ?_
  by_cases hq : shape q
  · rw [if_pos hq, if_neg (hdisj q hq), if_pos (Or.inl hq)]
  · simp [hq]

theorem congr (h : Covers color shape c d) (hs : ∀ q, shape q ↔ shape' q) :
    Covers color shape' c d :=
  Coats.congr h fun q => if_congr (hs q) rfl rfl

end Covers

theorem size_paintRow (shape : Point → Bool) (color : Color) (y x : Int) (n : Nat) (c : Canvas) :
    (paintRow shape color y x n c).width = c.width ∧
      (paintRow shape color y x n c).height = c.height := by
  induction n generalizing x c with
  | zero => exact ⟨rfl, rfl⟩
  | succ n ih =>
    obtain ⟨hw, hh⟩ := ih (x + 1) (if shape ⟨x, y⟩ then c.put ⟨x, y⟩ color else c)
    rw [paintRow, hw, hh]
    split <;> simp

theorem size_paintRows (shape : Point → Bool) (color : Color) (x y : Int) (count n : Nat)
    (c : Canvas) : (paintRows shape color x count y n c).width = c.width ∧
      (paintRows shape color x count y n c).height = c.height := by
  induction n generalizing y c with
  | zero => exact ⟨rfl, rfl⟩
  | succ n ih =>
    obtain ⟨hw, hh⟩ := ih (y + 1) (paintRow shape color y x count c)
    obtain ⟨hw', hh'⟩ := size_paintRow shape color y x count c
    exact ⟨hw.trans hw', hh.trans hh'⟩

theorem covers_put (c : Canvas) (p : Point) (color : Color) :
    Covers color (· = p) c (c.put p color) :=
  .intro (width_put c p color) (height_put c p color) fun q => pixel?_put c p q color

abbrev InRect (x0 y0 x1 y1 : Int) (q : Point) : Prop := (y0 ≤ q.y ∧ q.y < y1) ∧ x0 ≤ q.x ∧ q.x < x1

/-- The pixel is one of the outermost in the closed rectangle from `(x0, y0)` to `(x1, y1)`. -/
abbrev OnBorder (x0 y0 x1 y1 : Int) (q : Point) : Prop :=
  ((y0 ≤ q.y ∧ q.y ≤ y1) ∧ x0 ≤ q.x ∧ q.x ≤ x1) ∧ ((q.y = y0 ∨ q.y = y1) ∨ q.x = x0 ∨ q.x = x1)

theorem covers_paint (c : Canvas) (shape : Point → Bool) (x0 y0 x1 y1 : Int) (color : Color) :
    Covers color (fun q => shape q ∧ InRect x0 y0 x1 y1 q) c (c.paint shape x0 y0 x1 y1 color) :=
  have hsize := size_paintRows shape color (max x0 0) (max y0 0)
    (min x1 c.width - max x0 0).toNat (min y1 c.height - max y0 0).toNat c
  .intro hsize.1 hsize.2 fun q => pixel?_paint c shape x0 y0 x1 y1 color q

theorem covers_fillRect (c : Canvas) (x0 y0 x1 y1 : Int) (color : Color) :
    Covers color (InRect x0 y0 x1 y1) c (c.fillRect x0 y0 x1 y1 color) :=
  (covers_paint c everywhere x0 y0 x1 y1 color).congr fun q => by simp [everywhere]

theorem covers_hline (c : Canvas) (x0 x1 y : Int) (color : Color) :
    Covers color (fun q => q.y = y ∧ min x0 x1 ≤ q.x ∧ q.x ≤ max x0 x1) c (c.hline x0 x1 y color) :=
  (covers_fillRect c _ _ _ _ color).congr fun q => by omega

theorem covers_vline (c : Canvas) (x y0 y1 : Int) (color : Color) :
    Covers color (fun q => q.x = x ∧ min y0 y1 ≤ q.y ∧ q.y ≤ max y0 y1) c (c.vline x y0 y1 color) :=
  (covers_fillRect c _ _ _ _ color).congr fun q => by omega

/-- A border is covered once, however thin the rectangle is. -/
theorem covers_outlineRect (c : Canvas) (x0 y0 x1 y1 : Int) (color : Color) :
    Covers color (OnBorder x0 y0 x1 y1) c (c.outlineRect x0 y0 x1 y1 color) := by
  unfold outlineRect
  by_cases hempty : x1 < x0 ∨ y1 < y0
  · rw [if_pos hempty]
    exact .refl color c fun q => by omega
  rw [if_neg hempty]
  have htop := covers_hline c x0 x1 y0 color
  by_cases htall : y0 < y1
  · have hrows := htop.union (covers_hline _ x0 x1 y1 color) fun q => by omega
    by_cases hgap : 1 < y1 - y0
    · have hleft := hrows.union (covers_vline _ x0 (y0 + 1) (y1 - 1) color) fun q => by omega
      by_cases hwide : x0 < x1
      · simp only [if_pos htall, if_pos hgap, if_pos hwide]
        have hright := hleft.union (covers_vline _ x1 (y0 + 1) (y1 - 1) color) fun q => by omega
        exact hright.congr fun q => by omega
      · simp only [if_pos htall, if_pos hgap, if_neg hwide]
        exact hleft.congr fun q => by omega
    · simp only [if_pos htall, if_neg hgap]
      exact hrows.congr fun q => by omega
  · have hgap : ¬ 1 < y1 - y0 := by omega
    simp only [if_neg htall, if_neg hgap]
    exact htop.congr fun q => by omega

theorem covers_dot (c : Canvas) (p : Point) (size : Int) (color : Color) :
    Covers color (InRect p.x p.y (p.x + max size 1) (p.y + max size 1)) c (c.dot p size color) :=
  covers_fillRect c _ _ _ _ color

theorem covers_roundedRect (c : Canvas) (x0 y0 x1 y1 radius : Int) (color : Color) :
    Covers color
      (fun q => inRounded x0 y0 x1 y1 (cornerRadius x0 y0 x1 y1 radius) q ∧
        InRect x0 y0 (x1 + 1) (y1 + 1) q) c (c.roundedRect x0 y0 x1 y1 radius color) :=
  covers_paint c _ _ _ _ _ color

/-- A line lays a coat on a pixel each time its walk comes by. -/
theorem coats_line (c : Canvas) (p q : Point) (color : Color) :
    Coats color (fun r => (linePoints p q).count r) c (c.line p q color) := by
  rw [line_eq_foldl]
  have hwalk := Coats.foldl (fun point c => covers_put c point color) (linePoints p q) c
  refine hwalk.congr fun r => ?_
  induction linePoints p q with
  | nil => rfl
  | cons point rest ih =>
    rw [List.map_cons, List.sum_cons, ih, List.count_cons, Nat.add_comm]
    refine congrArg _ (if_congr ?_ rfl rfl)
    rw [beq_iff_eq, eq_comm]

def glyphCoats (p : Point) (scale : Int) (char : Char) (q : Point) : Nat :=
  ((Font.litCells char).map fun cell =>
    if InRect (p.x + cell.1 * scale) (p.y + cell.2 * scale) (p.x + cell.1 * scale + scale)
      (p.y + cell.2 * scale + scale) q then 1 else 0).sum

def textCoats (scale : Int) (q : Point) : Point → List Char → Nat
  | _, [] => 0
  | p, char :: rest =>
    glyphCoats p scale char q + textCoats scale q ⟨p.x + Font.advance * scale, p.y⟩ rest

theorem coats_glyph (c : Canvas) (p : Point) (scale : Int) (color : Color) (char : Char) :
    Coats color (glyphCoats p scale char) c (c.glyph p scale color char) :=
  Coats.foldl (fun _ c => covers_fillRect c _ _ _ _ color) (Font.litCells char) c

theorem coats_glyphs (chars : List Char) (c : Canvas) (p : Point) (scale : Int) (color : Color) :
    Coats color (fun q => textCoats scale q p chars) c (glyphs p scale color chars c) := by
  induction chars generalizing p c with
  | nil => exact Coats.refl color c
  | cons char rest ih => exact Coats.trans (coats_glyph c p scale color char) (ih _ _)

theorem coats_text (c : Canvas) (p : Point) (scale : Int) (text : String) (color : Color) :
    Coats color (fun q => textCoats scale q p text.toList) c (c.text p scale text color) :=
  coats_glyphs text.toList c p scale color

end Canvas
end ClonePlot
