import ClonePlot.Proofs.Canvas.Effect

/-! # The exact shapes of areas

Each area is told by the pixels that belong to it, and drawing it lays one coat on each of them.
For a text this needs that the lit cells of its letters never overlap: the cells of one glyph lie
on a grid, and the next glyph begins one column after the last one ends.
-/
namespace ClonePlot

namespace Font

theorem length_glyph (c : Char) : (glyph c).length = rows := by
  unfold glyph
  split <;> rfl

theorem mem_litCells_iff {c : Char} {cell : Nat × Nat} : cell ∈ litCells c ↔
    cell.1 < columns ∧ ∃ bits, (glyph c)[cell.2]? = some bits ∧
      bits.testBit (columns - 1 - cell.1) := by
  obtain ⟨column, row⟩ := cell
  unfold litCells
  rw [List.mem_flatMap]
  constructor
  · rintro ⟨⟨bits, row'⟩, hbits, hcell⟩
    obtain ⟨column', hcolumn, heq⟩ := List.mem_map.mp hcell
    cases heq
    rw [List.mem_filter, List.mem_range] at hcolumn
    exact ⟨hcolumn.1, bits, List.mk_mem_zipIdx_iff_getElem?.mp hbits, hcolumn.2⟩
  · rintro ⟨hcolumn, bits, hbits, hlit⟩
    refine ⟨(bits, row), List.mk_mem_zipIdx_iff_getElem?.mpr hbits, ?_⟩
    exact List.mem_map_of_mem (List.mem_filter.mpr ⟨List.mem_range.mpr hcolumn, hlit⟩)

theorem lt_of_mem_litCells {c : Char} {cell : Nat × Nat} (h : cell ∈ litCells c) :
    cell.1 < columns ∧ cell.2 < rows := by
  obtain ⟨hcolumn, bits, hbits, -⟩ := mem_litCells_iff.mp h
  obtain ⟨hrow, -⟩ := List.getElem?_eq_some_iff.mp hbits
  exact ⟨hcolumn, length_glyph c ▸ hrow⟩

theorem nodup_litCells (c : Char) : (litCells c).Nodup := by
  unfold litCells
  rw [List.nodup_flatMap]
  constructor
  · intro entry _
    exact (List.nodup_range.filter _).map fun i j hij => congrArg Prod.fst hij
  · have hrows : (glyph c).zipIdx.Pairwise fun a b => a.2 ≠ b.2 :=
      List.pairwise_map.mp (List.nodup_zipIdx_map_snd _)
    refine hrows.imp fun {a b} hne => List.disjoint_left.mpr fun cell ha hb => ?_
    obtain ⟨_, -, rfl⟩ := List.mem_map.mp ha
    obtain ⟨_, -, heq⟩ := List.mem_map.mp hb
    exact hne (congrArg Prod.snd heq).symm

end Font

namespace Canvas

variable {color : Color} {c d : Canvas}

/-- Shapes without common pixels, drawn one after the other. -/
theorem Covers.foldl {α : Type} {draw : Canvas → α → Canvas} {shape : α → Point → Prop}
    [∀ a, DecidablePred (shape a)] (h : ∀ a c, Covers color (shape a) c (draw c a)) {l : List α}
    (hdisj : l.Pairwise fun a b => ∀ q, shape a q → ¬shape b q) (c : Canvas) :
    Covers color (fun q => ∃ a ∈ l, shape a q) c (l.foldl draw c) := by
  induction l generalizing c with
  | nil => exact .refl color c fun q => by simp
  | cons a l ih =>
    obtain ⟨hfirst, hrest⟩ := List.pairwise_cons.mp hdisj
    have hunion := (h a c).union (ih hrest (draw c a)) fun q hq hlater => by
      obtain ⟨b, hb, hq'⟩ := hlater
      exact hfirst b hb q hq hq'
    exact hunion.congr fun q => by simp

theorem Covers.pixel?_eq {shape : Point → Prop} [DecidablePred shape]
    (h : Covers color shape c d) (q : Point) :
    d.pixel? q = if shape q then (c.pixel? q).map color.blendOver else c.pixel? q := by
  rw [h.pixel?]
  by_cases hq : shape q
  · simp only [if_pos hq, Color.coat_one]
  · simp only [if_neg hq, Color.coat_zero, Option.map_id_fun', id_eq]

section Rounded

variable {x0 y0 x1 y1 radius low high v : Int} {q : Point}

def outside (low high v : Int) : Int := max (max (low - v) (v - high)) 0

/-- The pixel lies in the closed rectangle, and not in a corner of side `r` farther than `r` from
the inner end of that corner. -/
abbrev Rounded (x0 y0 x1 y1 r : Int) (q : Point) : Prop :=
  InRect x0 y0 (x1 + 1) (y1 + 1) q ∧
    ¬(0 < outside (x0 + r) (x1 - r) q.x ∧ 0 < outside (y0 + r) (y1 - r) q.y ∧
      r ^ 2 < outside (x0 + r) (x1 - r) q.x ^ 2 + outside (y0 + r) (y1 - r) q.y ^ 2)

theorem cornerRadius_bounds (hx : x0 ≤ x1) (hy : y0 ≤ y1) (radius : Int) :
    0 ≤ cornerRadius x0 y0 x1 y1 radius ∧ 2 * cornerRadius x0 y0 x1 y1 radius ≤ x1 - x0 ∧
      2 * cornerRadius x0 y0 x1 y1 radius ≤ y1 - y0 := by
  unfold cornerRadius
  rw [Int.tdiv_eq_ediv_of_nonneg (by omega), Int.tdiv_eq_ediv_of_nonneg (by omega)]
  omega

theorem sub_clamp_mul_self (h : low ≤ high) (v : Int) :
    (v - max low (min v high)) * (v - max low (min v high)) = outside low high v ^ 2 := by
  have hclamp : v - max low (min v high) = outside low high v ∨
      v - max low (min v high) = -outside low high v := by
    unfold outside
    omega
  rcases hclamp with hclamp | hclamp
  · rw [hclamp, pow_two]
  · rw [hclamp, Int.neg_mul_neg, pow_two]

theorem outside_nonneg (low high v : Int) : 0 ≤ outside low high v := le_max_right _ _

theorem inRounded_iff {r : Int} (hr : 0 ≤ r) (hx : 2 * r ≤ x1 - x0) (hy : 2 * r ≤ y1 - y0)
    (hq : InRect x0 y0 (x1 + 1) (y1 + 1) q) :
    inRounded x0 y0 x1 y1 r q = true ↔
      ¬(0 < outside (x0 + r) (x1 - r) q.x ∧ 0 < outside (y0 + r) (y1 - r) q.y ∧
        r ^ 2 < outside (x0 + r) (x1 - r) q.x ^ 2 + outside (y0 + r) (y1 - r) q.y ^ 2) := by
  have hcolumn : outside (x0 + r) (x1 - r) q.x ≤ r := by
    unfold outside
    omega
  have hrow : outside (y0 + r) (y1 - r) q.y ≤ r := by
    unfold outside
    omega
  have hinside : inRounded x0 y0 x1 y1 r q = true ↔
      outside (x0 + r) (x1 - r) q.x ^ 2 + outside (y0 + r) (y1 - r) q.y ^ 2 ≤ r ^ 2 := by
    unfold inRounded
    dsimp only
    rw [decide_eq_true_eq, sub_clamp_mul_self (by omega), sub_clamp_mul_self (by omega), pow_two r]
  rw [hinside]
  have hcolumn₀ := outside_nonneg (x0 + r) (x1 - r) q.x
  have hrow₀ := outside_nonneg (y0 + r) (y1 - r) q.y
  generalize outside (x0 + r) (x1 - r) q.x = dx at *
  generalize outside (y0 + r) (y1 - r) q.y = dy at *
  constructor
  · intro hle hfar
    exact absurd hfar.2.2 (not_lt.mpr hle)
  · intro hnear
    by_contra hfar
    refine hnear ⟨hcolumn₀.lt_of_ne ?_, hrow₀.lt_of_ne ?_, not_le.mp hfar⟩
    -- off the corners the edge is nearer than the radius
    · rintro rfl
      exact hfar (by simpa using pow_le_pow_left₀ hrow₀ hrow 2)
    · rintro rfl
      exact hfar (by simpa using pow_le_pow_left₀ hcolumn₀ hcolumn 2)

theorem covers_rounded (c : Canvas) (x0 y0 x1 y1 radius : Int) (color : Color) :
    Covers color (Rounded x0 y0 x1 y1 (cornerRadius x0 y0 x1 y1 radius)) c
      (c.roundedRect x0 y0 x1 y1 radius color) := by
  refine (covers_roundedRect c x0 y0 x1 y1 radius color).congr fun q => ?_
  rw [and_comm]
  refine and_congr_right fun hq => ?_
  have hx : x0 ≤ x1 := by omega
  have hy : y0 ≤ y1 := by omega
  obtain ⟨hr, hx', hy'⟩ := cornerRadius_bounds hx hy radius
  exact inRounded_iff hr hx' hy' hq

end Rounded

section Text

variable {p q : Point} {scale : Int} {char : Char} {chars : List Char}

abbrev InGlyph (p : Point) (scale : Int) (char : Char) (q : Point) : Prop :=
  ∃ cell ∈ Font.litCells char, InRect (p.x + cell.1 * scale) (p.y + cell.2 * scale)
    (p.x + cell.1 * scale + scale) (p.y + cell.2 * scale + scale) q

abbrev InText (p : Point) (scale : Int) (chars : List Char) (q : Point) : Prop :=
  ∃ k : Fin chars.length, InGlyph ⟨p.x + k * (Font.advance * scale), p.y⟩ scale chars[k] q

theorem cell_bounds {low v : Int} {i n : Nat} (hi : i < n) (hlow : low + i * scale ≤ v)
    (hhigh : v < low + i * scale + scale) : 0 < scale ∧ low ≤ v ∧ v < low + n * scale := by
  have hscale : 0 < scale := by omega
  have hnext : (i + 1 : Int) * scale ≤ n * scale :=
    Int.mul_le_mul_of_nonneg_right (by omega) hscale.le
  have hfirst : 0 ≤ (i : Int) * scale := Int.mul_nonneg (by omega) hscale.le
  rw [Int.add_mul, Int.one_mul] at hnext
  exact ⟨hscale, by omega, by omega⟩

theorem InGlyph.bounds (h : InGlyph p scale char q) :
    0 < scale ∧ (p.x ≤ q.x ∧ q.x < p.x + Font.columns * scale) ∧
      p.y ≤ q.y ∧ q.y < p.y + Font.rows * scale := by
  obtain ⟨cell, hcell, ⟨htop, hbottom⟩, hleft, hright⟩ := h
  obtain ⟨hcolumn, hrow⟩ := Font.lt_of_mem_litCells hcell
  obtain ⟨hscale, hx⟩ := cell_bounds hcolumn hleft hright
  exact ⟨hscale, hx, (cell_bounds hrow htop hbottom).2⟩

/-- The lit cells of a text keep to its width and height. -/
theorem InText.bounds {text : String} (h : InText p scale text.toList q) :
    (p.x ≤ q.x ∧ q.x < p.x + Font.width text scale) ∧
      p.y ≤ q.y ∧ q.y < p.y + Font.height scale := by
  obtain ⟨k, hk⟩ := h
  obtain ⟨hscale, ⟨hleft, hright⟩, htop, hbottom⟩ := hk.bounds
  dsimp only at hleft hright htop hbottom
  have hlength : k + 1 ≤ text.length := String.length_toList ▸ k.isLt
  have hpen : 0 ≤ (k : Int) * (Font.advance * scale) := by positivity
  -- the pen stands at most one advance before the end
  have hlast : ((k + 1 : Nat) : Int) * (Font.advance * scale) ≤
      text.length * (Font.advance * scale) := by
    have hadvance : 0 ≤ (Font.advance : Int) * scale := by positivity
    exact Int.mul_le_mul_of_nonneg_right (by exact_mod_cast hlength) hadvance
  refine ⟨⟨by omega, ?_⟩, htop, hbottom⟩
  unfold Font.width
  rw [if_neg (by omega)]
  unfold Font.advance Font.columns at *
  push_cast at *
  linarith

theorem cell_unique {low v : Int} {i j : Nat} (hi : low + i * scale ≤ v)
    (hi' : v < low + i * scale + scale) (hj : low + j * scale ≤ v)
    (hj' : v < low + j * scale + scale) : i = j := by
  by_contra hne
  rcases Nat.lt_or_gt_of_ne hne with hij | hji
  · have := (cell_bounds hij hi hi').2.2
    omega
  · have := (cell_bounds hji hj hj').2.2
    omega

theorem covers_glyph (c : Canvas) (p : Point) (scale : Int) (color : Color) (char : Char) :
    Covers color (InGlyph p scale char) c (c.glyph p scale color char) := by
  refine Covers.foldl (fun _ c => covers_fillRect c _ _ _ _ color) ?_ c
  refine (Font.nodup_litCells char).imp fun {a b} hne q ha hb => hne ?_
  exact Prod.ext (cell_unique ha.2.1 ha.2.2 hb.2.1 hb.2.2)
    (cell_unique ha.1.1 ha.1.2 hb.1.1 hb.1.2)

theorem inText_cons_iff : InText p scale (char :: chars) q ↔
    InGlyph p scale char q ∨ InText ⟨p.x + Font.advance * scale, p.y⟩ scale chars q := by
  have hpen (k : Nat) : p.x + (k + 1 : Nat) * (Font.advance * scale) =
      p.x + Font.advance * scale + k * (Font.advance * scale) := by
    push_cast
    ring
  refine Fin.exists_fin_succ.trans (or_congr ?_ (exists_congr fun k => ?_))
  · simp
  · rw [Fin.val_succ, hpen]
    rfl

theorem not_inText_of_inGlyph (h : InGlyph p scale char q) :
    ¬InText ⟨p.x + Font.advance * scale, p.y⟩ scale chars q := by
  rintro ⟨k, hk⟩
  obtain ⟨hscale, ⟨-, hright⟩, -⟩ := h.bounds
  obtain ⟨-, ⟨hleft, -⟩, -⟩ := hk.bounds
  have hpen : 0 ≤ (k : Int) * (Font.advance * scale) := by positivity
  unfold Font.advance Font.columns at *
  push_cast at *
  omega

theorem covers_glyphs (c : Canvas) (p : Point) (scale : Int) (color : Color) (chars : List Char) :
    Covers color (InText p scale chars) c (glyphs p scale color chars c) := by
  induction chars generalizing p c with
  | nil => exact .refl color c fun q h => h.elim fun k _ => k.elim0
  | cons char chars ih =>
    have hunion := (covers_glyph c p scale color char).union
      (ih (c.glyph p scale color char) ⟨p.x + Font.advance * scale, p.y⟩)
      fun q hq => not_inText_of_inGlyph hq
    exact hunion.congr fun q => inText_cons_iff.symm

theorem covers_text (c : Canvas) (p : Point) (scale : Int) (text : String) (color : Color) :
    Covers color (InText p scale text.toList) c (c.text p scale text color) :=
  covers_glyphs c p scale color text.toList

end Text

end Canvas
end ClonePlot
