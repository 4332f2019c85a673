import ClonePlot.Proofs.Gesture
import ClonePlot.Proofs.Scene.Marker

/-! # Picking what is drawn

A rectangle picks a clone by the rectangle between the pixels where its fragments start and where
they stop. A line stays within; a dot has a size of its own and may reach beyond, to the right and
downwards.
-/
namespace ClonePlot
open Canvas

/-- The marker changes a pixel of some canvas, drawn in some color. -/
def Marker.Paints (m : Marker) (q : Point) : Prop :=
  ∃ (c : Canvas) (color : Color), (m.draw c color).pixel? q ≠ c.pixel? q

theorem Marker.Paints.coats_pos {m : Marker} {q : Point} (h : m.Paints q) : 0 < m.coats q := by
  obtain ⟨c, color, hchange⟩ := h
  exact (m.coats_draw c color).pos_of_pixel?_ne hchange

/-- A rectangle that has a pixel past the first of two corners meets theirs unless it starts past
the second. -/
theorem PixelRect.intersects_iff_of_beyond {r : PixelRect} {a b q : Point} (hq : r.contains q)
    (hab : a.x ≤ b.x ∧ a.y ≤ b.y) (haq : a.x ≤ q.x ∧ a.y ≤ q.y) :
    (PixelRect.ofCorners a b).intersects r ↔ r.x0 ≤ b.x ∧ r.y0 ≤ b.y := by
  have hq := PixelRect.contains_iff.mp hq
  unfold intersects ofCorners
  simp only [Bool.and_eq_true, decide_eq_true_eq]
  omega

namespace Mapper

variable {m : Mapper} {p : ClonePair} {r : PixelRect} {q : Point}

theorem intersects_of_line (hq : r.contains q)
    (hpaint : (Marker.line (m.pairStart p) (m.pairStop p)).Paints q) :
    (m.pairBounds p).intersects r := by
  have hpoint : q ∈ linePoints (m.pairStart p) (m.pairStop p) :=
    List.count_pos_iff.mp hpaint.coats_pos
  exact PixelRect.intersects_iff.mpr ⟨q, inside_of_mem_linePoints hpoint, hq⟩

/-- A dot reaches beyond the fragments to the right and downwards, never the other way. -/
theorem intersects_iff_of_dot (hq : r.contains q)
    (hle : (m.pairStart p).x ≤ (m.pairStop p).x ∧ (m.pairStart p).y ≤ (m.pairStop p).y)
    (hpaint : (Marker.dot (m.pairStart p)).Paints q) :
    (m.pairBounds p).intersects r ↔ r.x0 ≤ (m.pairStop p).x ∧ r.y0 ≤ (m.pairStop p).y := by
  by_cases hsquare : InRect (m.pairStart p).x (m.pairStart p).y
      ((m.pairStart p).x + max dotSize 1) ((m.pairStart p).y + max dotSize 1) q
  · exact PixelRect.intersects_iff_of_beyond hq hle ⟨hsquare.2.1, hsquare.1.1⟩
  · have hcoats := hpaint.coats_pos
    rw [Marker.coats, if_neg hsquare] at hcoats
    exact absurd hcoats (Nat.lt_irrefl 0)

/-- A rectangle in which a stored pair has painted a pixel picks the pair, unless the pair is a dot
and the rectangle starts past the pixels where the fragments stop. -/
theorem mem_clonesIn_iff_of_painted (model : Model) (hsum : model.sizes.sum < UInt64.size)
    (drawSize : UInt32) (p : ClonePair) (r : PixelRect) (q : Point) :
    let m := model.mapper drawSize.toNat
    ∀ d, m.dragSelection r = .ok d → p ∈ model.views →
      d.rows.map FileRange.first = some p.left.file →
      d.cols.map FileRange.first = some p.right.file → r.contains q → (m.marker p).Paints q →
      ∃ clones, m.clonesIn model r d = .ok clones ∧ (p ∈ clones ↔
        ((m.marker p).isDot → r.x0 ≤ (m.pairStop p).x ∧ r.y0 ≤ (m.pairStop p).y)) := by
  intro m d _ hp hrow hcol hq hpaint
  have hsize : drawSize.toNat < UInt32.size := drawSize.toNat_lt_size
  obtain ⟨i, -, hstored⟩ := List.mem_flatMap.mp hp
  have hleft := (Model.mem_row.mp hstored).2.1
  obtain ⟨rows, hrows, hfirst⟩ := Option.map_eq_some_iff.mp hrow
  obtain ⟨cols, hcols, hfirst'⟩ := Option.map_eq_some_iff.mp hcol
  obtain ⟨clones, hclones⟩ := exists_clonesIn (pairFits_of_mem_views hsum) r d
  refine ⟨clones, hclones, ?_⟩
  have hpicked : p ∈ clones ↔ (m.pairBounds p).intersects r := by
    rw [mem_clonesIn hclones]
    constructor
    · rintro ⟨_, _, _, _, _, _, hmeets⟩
      exact hmeets
    · intro hmeets
      rw [← hleft, ← hfirst] at hstored
      exact ⟨rows, cols, hrows, hcols, hstored, hfirst'.symm, hmeets⟩
  rw [hpicked]
  have hle := pairStart_le_pairStop hsum hsize (Model.within_of_mem_row hstored)
  unfold marker at hpaint ⊢
  split at hpaint
  · rename_i hroom
    have hmeets := intersects_of_line hq hpaint
    rw [if_pos hroom]
    exact iff_of_true hmeets fun hdot => absurd hdot Bool.false_ne_true
  · rename_i hroom
    rw [if_neg hroom, intersects_iff_of_dot hq hle hpaint]
    exact ⟨fun h _ => h, fun h => h rfl⟩

end Mapper

/-- Drawn two offsets to a pixel, a clone of single offsets is a dot of four pixels. -/
def Model.speck : Model where
  files := #[⟨0, "a", 6⟩]
  pairs := [⟨7, ⟨0, 0, 1⟩, ⟨0, 2, 3⟩⟩]
  pairs_within := firstFault?_eq_none_iff (i := 0).mp (by decide)

namespace Mapper

/-- The left column of the dot is where the fragments are. -/
theorem mem_clonesIn_iff_of_painted_speck :
    let m := Model.speck.mapper (3 : UInt32).toNat
    let p : ClonePair := ⟨7, ⟨0, 0, 1⟩, ⟨0, 2, 3⟩⟩
    let r : PixelRect := .ofCorners ⟨1, 0⟩ ⟨1, 0⟩
    (m.marker p).Paints ⟨1, 0⟩ ∧ ∃ d clones, m.dragSelection r = .ok d ∧
      m.clonesIn .speck r d = .ok clones ∧ p ∈ clones := by
  intro m p r
  have hstored : p ∈ Model.speck.views :=
    List.mem_flatMap.mpr ⟨0, by decide,
      Model.mem_row.mpr ⟨by decide, rfl, p, List.mem_cons_self, by decide⟩⟩
  have hpaint : (m.marker p).Paints ⟨1, 0⟩ :=
    ⟨.blank 3 3 ⟨255, 255, 255, 255⟩, ⟨0, 0, 0, 255⟩, by decide⟩
  have hd : m.dragSelection r = .ok (m.sideFiles r) :=
    dragSelection_eq_sideFiles (by decide) (by decide)
  obtain ⟨clones, hclones, hpicked⟩ := mem_clonesIn_iff_of_painted .speck (by decide) 3 p r ⟨1, 0⟩
    _ hd hstored (by decide) (by decide) (by decide) hpaint
  exact ⟨hpaint, _, clones, hd, hclones, hpicked.mpr fun _ => by decide⟩

/-- The right column of the dot picks nothing. -/
theorem painted_not_picked :
    let m := Model.speck.mapper (3 : UInt32).toNat
    let p : ClonePair := ⟨7, ⟨0, 0, 1⟩, ⟨0, 2, 3⟩⟩
    let r : PixelRect := .ofCorners ⟨2, 0⟩ ⟨2, 0⟩
    p ∈ Model.speck.row 0 ∧ r.contains ⟨2, 0⟩ ∧ (m.marker p).Paints ⟨2, 0⟩ ∧
      ∃ d clones, m.dragSelection r = .ok d ∧ d.rows = some ⟨0, 0⟩ ∧ d.cols = some ⟨0, 0⟩ ∧
        m.clonesIn .speck r d = .ok clones ∧ p ∉ clones := by
  intro m p r
  have hd : m.dragSelection r = .ok (m.sideFiles r) :=
    dragSelection_eq_sideFiles (by decide) (by decide)
  have hsum : Model.speck.sizes.sum < UInt64.size := by decide
  obtain ⟨clones, hclones⟩ := exists_clonesIn (pairFits_of_mem_views hsum) r (m.sideFiles r)
  refine ⟨Model.mem_row.mpr ⟨by decide, rfl, p, List.mem_cons_self, by decide⟩, by decide,
    ⟨.blank 3 3 ⟨255, 255, 255, 255⟩, ⟨0, 0, 0, 255⟩, by decide⟩, _, clones, hd, by decide,
    by decide, hclones, fun hpicked => ?_⟩
  obtain ⟨_, _, _, _, _, _, hmeets⟩ := (mem_clonesIn hclones).mp hpicked
  exact absurd hmeets (by decide)

end Mapper
end ClonePlot
