import ClonePlot.Proofs.Scene.Marker
import ClonePlot.Proofs.View.Accounting
import ClonePlot.Proofs.View.Validity

/-! # Refused pictures

A picture may be refused for a sum behind a marker or behind the outline of a drag. Markers of a
corpus that fits on the line have no such sum. An outline has one if it comes to the last column
or row there is, or has more rows than can be counted.
-/
namespace ClonePlot

/-- The pixels just past the rectangle have numbers, and its rows can be counted. -/
def PixelRect.OutlineFits (r : PixelRect) : Prop :=
  r.x1 < Int64.maxValue.toInt ∧ r.y1 < Int64.maxValue.toInt ∧ r.y1 - r.y0 ≤ Int64.maxValue.toInt

namespace Canvas

theorem checkNext_eq_ok_iff {p : Point} : checkNext p = .ok () ↔
    (Int64.minValue.toInt ≤ p.x + 1 ∧ p.x < Int64.maxValue.toInt) ∧
      Int64.minValue.toInt ≤ p.y + 1 ∧ p.y < Int64.maxValue.toInt := by
  simp only [checkNext, addPixels, bind_eq_ok_iff, checkPixel_eq_ok_iff, and_assoc, exists_eq_left]
  constructor
  · rintro ⟨hlow, hlast, hlow', hlast', -⟩
    exact ⟨hlow, hlast, hlow', hlast'⟩
  · rintro ⟨hlow, hlast, hlow', hlast'⟩
    exact ⟨hlow, hlast, hlow', hlast', rfl⟩

theorem checkOutline_eq_ok_iff {r : PixelRect} (hx : Int64.minValue.toInt ≤ r.x0)
    (hy : Int64.minValue.toInt ≤ r.y0) :
    checkOutline r.x0 r.y0 r.x1 r.y1 = .ok () ↔ r.OutlineFits := by
  have hmin : Int64.minValue.toInt ≤ 0 := by decide
  have hmax : 0 < Int64.maxValue.toInt := by decide
  have hxle := r.x_le
  have hyle := r.y_le
  simp only [checkOutline, checkHline, checkVline, subPixels, bind_eq_ok_iff, checkPixel_eq_ok_iff,
    return_or_eq_ok_iff, checkNext_eq_ok_iff, and_assoc, exists_eq_left, Unique.exists_iff,
    PUnit.default_eq_unit, PixelRect.OutlineFits]
  omega

end Canvas

namespace Scene
variable {s : Scene}

theorem checkDrag_eq_ok_iff
    (hdrag : ∀ r ∈ s.drag, Int64.minValue.toInt ≤ r.x0 ∧ Int64.minValue.toInt ≤ r.y0) :
    s.checkDrag = .ok () ↔ ∀ r ∈ s.drag, r.OutlineFits := by
  unfold checkDrag
  cases h : s.drag with
  | none => exact iff_of_true rfl nofun
  | some r =>
    obtain ⟨hx, hy⟩ := hdrag r h
    rw [Option.elim_some, Canvas.checkOutline_eq_ok_iff hx hy]
    exact ⟨fun hr _ hmem => Option.some.inj hmem ▸ hr, fun hall => hall r rfl⟩

theorem check_eq_ok_iff (hfits : ∀ p ∈ s.markedPairs, s.mapper.PairFits p)
    (hdrag : ∀ r ∈ s.drag, Int64.minValue.toInt ≤ r.x0 ∧ Int64.minValue.toInt ≤ r.y0) :
    s.check = .ok () ↔ s.mapper.layout.isEmpty ∨ ∀ r ∈ s.drag, r.OutlineFits := by
  have hmarks : s.markedPairs.forM s.mapper.checkMarker = .ok () :=
    forM_eq_ok_iff.mpr fun p hp => Mapper.checkMarker_of_pairFits (hfits p hp)
  rw [check, return_or_eq_ok_iff, hmarks, ← checkDrag_eq_ok_iff hdrag, or_iff_not_imp_left]
  rfl

end Scene

namespace View
variable {v : View}

theorem Current.scene_flush (h : v.Current) : v.flush.scene = v.scene := by
  have hfresh : v.flush.freshScene = v.freshScene := by
    unfold View.flush
    split
    · rfl
    · unfold place redraw
      split <;> rfl
  rw [h.flush.placed.scene_eq, hfresh, h.placed.scene_eq]

theorem Placed.check_scene_eq_ok_iff (h : v.Placed) (hsum : v.model.sizes.sum < UInt64.size)
    (hdrag : ∀ d ∈ v.drag, Int64.minValue.toInt ≤ d.rect.x0 ∧ Int64.minValue.toInt ≤ d.rect.y0) :
    v.scene.check = .ok () ↔ v.mapper.layout.isEmpty ∨ ∀ d ∈ v.drag, d.rect.OutlineFits := by
  have hfits : ∀ p ∈ v.scene.markedPairs, v.scene.mapper.PairFits p := by
    intro p hp
    rw [scene, h.mapper]
    exact Mapper.pairFits_of_mem_views hsum p hp
  have hrects : ∀ P : PixelRect → Prop, (∀ r ∈ v.scene.drag, P r) ↔ ∀ d ∈ v.drag, P d.rect :=
    fun P => Option.forall_mem_map
  rw [Scene.check_eq_ok_iff hfits ((hrects _).mpr hdrag), hrects]
  rfl

end View

namespace LinkedView
open View

variable {v : LinkedView} {bus : Bus}

theorem reply_draw_eq_done_iff {view : View} : (v.draw bus view).reply = .done ↔
    view.counters.rebuilds = v.view.counters.rebuilds ∨ view.scene.check = .ok () := by
  unfold draw
  cases hcheck : view.scene.check with
  | error e =>
    by_cases h : view.counters.rebuilds = v.view.counters.rebuilds <;> simp [h]
  | ok _ => simp

/-- After any run on a corpus that fits on the line, the picture asked for is drawn unless it is
stale and the outline of the drag does not fit. -/
theorem frame_drawn_iff_of_run (settings : Settings) (calls : List (Bus × Call)) :
    let linked := (ofSettings settings).run calls
    let v := linked.view
    v.model.sizes.sum < UInt64.size →
      (∀ d ∈ v.drag, Int64.minValue.toInt ≤ d.rect.x0 ∧ Int64.minValue.toInt ≤ d.rect.y0) →
      ((linked.act bus .frame).reply = .done ↔ v.isStale = false ∨ v.mapper.layout.isEmpty ∨
        ∀ d ∈ v.drag, d.rect.OutlineFits) := by
  intro linked v hsum hdrag
  have hv : v.Current := current_run (current_ofSettings settings) calls
  have hsquare : v.Square := hv.height.trans hv.width.symm
  have hrebuilds : v.flush.counters.rebuilds = v.counters.rebuilds ↔ v.isStale = false := by
    rw [(step_flush hsquare).rebuilds]
    cases v.isStale <;> simp
  rw [act, reply_draw_eq_done_iff, hrebuilds, hv.scene_flush,
    hv.placed.check_scene_eq_ok_iff hsum hdrag]

end LinkedView
end ClonePlot
