import ClonePlot.Proofs.Gesture.Growth
import ClonePlot.Proofs.Scene.Reflection

/-! # Mirrored rectangles

A rectangle and its reflection select the same files, rows and columns exchanged, the opposite
views of the same clones, and the same region seen from its other side. The rows of a model hold
what one cell needs: the views between two files are the opposite ones of those between the same
files in the other order. But a wide rectangle is never asked for its height, so one that is too
tall is accepted while its reflection is refused.
-/
namespace ClonePlot

namespace FileRange

theorem touches_comm (a b : FileRange) : a.touches b = b.touches a := Bool.and_comm _ _

theorem mem_merge_comm {a b r : FileRange} : r ∈ a.merge b ↔ r ∈ b.merge a := by
  unfold merge
  rw [touches_comm a b, Nat.min_comm, Nat.max_comm]
  split
  · exact Iff.rfl
  · simp only [List.mem_cons, List.not_mem_nil, or_false]
    exact or_comm

end FileRange

def DragSelection.swap (d : DragSelection) : DragSelection := ⟨d.cols, d.rows, d.files⟩

theorem DragSelection.singleCell?_swap (d : DragSelection) :
    d.swap.singleCell? = d.singleCell?.map Prod.swap := by
  unfold singleCell? swap
  cases d.rows with
  | none => cases d.cols <;> rfl
  | some rows =>
    cases d.cols with
    | none => rfl
    | some cols =>
      by_cases h : rows.first = rows.last ∧ cols.first = cols.last
      · simp [h]
      · have hturned : ¬(cols.first = cols.last ∧ rows.first = rows.last) := fun hc => h hc.symm
        simp [h, hturned]

/-- A region seen from its other side. -/
def Change.swap : Change → Change
  | region a b => region b a
  | change => change

namespace Model

theorem rowRange_succ (m : Model) (i j : Nat) :
    m.rowRange i j (j + 1) = (m.row i).filter (·.right.file == j) := by
  refine List.filter_congr fun p _ => ?_
  rw [Bool.eq_iff_iff]
  simp only [Bool.and_eq_true, decide_eq_true_eq, beq_iff_eq]
  omega

/-- Between two files the one row holds the opposite views of the other. -/
theorem perm_map_flipped_rowRange (m : Model) (i j : Nat) :
    ((m.rowRange i j (j + 1)).map ClonePair.flipped).Perm (m.rowRange j i (i + 1)) := by
  have hcell : ∀ i j, (m.rowRange i j (j + 1)).Perm
      ((m.pairs.flatMap ClonePair.orientations).filter
        fun p => p.right.file == j && p.left.file == i) := by
    intro i j
    rw [rowRange_succ, ← List.filter_filter]
    exact (m.perm_row i).filter _
  have hflip := (ClonePair.perm_map_flipped_flatMap_orientations m.pairs).filter
    fun p => p.right.file == i && p.left.file == j
  rw [List.filter_map] at hflip
  have hturned : (fun p : ClonePair => p.right.file == i && p.left.file == j) ∘ ClonePair.flipped =
      fun p => p.right.file == j && p.left.file == i := by
    funext p
    exact Bool.and_comm _ _
  rw [hturned] at hflip
  exact (((hcell i j).map _).trans hflip).trans (hcell j i).symm

end Model

namespace Mapper

theorem selectedFiles_comm (rows cols : Option FileRange) :
    selectedFiles rows cols = selectedFiles cols rows := by
  cases rows with
  | none => cases cols <;> rfl
  | some rows =>
    cases cols with
    | none => rfl
    | some cols =>
      refine IndexSet.ext_mem fun i => ?_
      simp only [selectedFiles, IndexSet.mem_ofList, List.mem_flatMap, FileRange.mem_merge_comm]

theorem hits_swap (m : Mapper) (r : PixelRect) : m.hits r.swap = m.hits r := Bool.and_comm _ _

theorem sideFiles_swap (m : Mapper) (r : PixelRect) :
    m.sideFiles r.swap = (m.sideFiles r).swap := by
  unfold sideFiles DragSelection.swap
  rw [DragSelection.mk.injEq]
  exact ⟨rfl, rfl, selectedFiles_comm _ _⟩

variable {m : Mapper} {r : PixelRect} {d d' : DragSelection}

theorem swap_of_dragSelection (h : m.dragSelection r = .ok d)
    (h' : m.dragSelection r.swap = .ok d') : d' = d.swap := by
  rw [(dragSelection_eq_ok_iff.mp h).2, (dragSelection_eq_ok_iff.mp h').2, hits_swap,
    sideFiles_swap]
  have hsingle : r.swap.x0 = r.swap.x1 ∧ r.swap.y0 = r.swap.y1 ↔ r.x0 = r.x1 ∧ r.y0 = r.y1 :=
    and_comm
  simp only [hsingle]
  split <;> rfl

/-- A rectangle that can be dragged along can be dragged along mirrored if both extents fit. -/
theorem measured_swap_iff (h : r.Measured) : r.swap.Measured ↔ r.Fits := by
  have hx := r.x_le
  have hy := r.y_le
  unfold PixelRect.Measured PixelRect.Fits PixelRect.swap at *
  dsimp only
  omega

theorem pairBounds_flipped (m : Mapper) (p : ClonePair) :
    m.pairBounds p.flipped = (m.pairBounds p).swap := by
  unfold pairBounds
  rw [pairStart_flipped, pairStop_flipped]
  exact PixelRect.ofCorners_swap _ _

theorem perm_of_clonesIn_swap {model : Model} {clones clones' : List ClonePair}
    (h : m.clonesIn model r d = .ok clones) (h' : m.clonesIn model r.swap d.swap = .ok clones') :
    clones'.Perm (clones.map ClonePair.flipped) := by
  unfold clonesIn DragSelection.swap at *
  cases hrows : d.rows with
  | none =>
    rw [hrows] at h h'
    cases h
    cases hcols : d.cols <;> rw [hcols] at h' <;> cases h' <;> exact .refl _
  | some rows =>
    cases hcols : d.cols with
    | none =>
      rw [hrows, hcols] at h h'
      cases h
      cases h'
      exact .refl _
    | some cols =>
      rw [hrows, hcols] at h h'
      obtain ⟨_, -, h⟩ := bind_eq_ok_iff.mp h
      obtain ⟨_, -, h'⟩ := bind_eq_ok_iff.mp h'
      cases h
      cases h'
      have htouch : (fun p => (m.pairBounds p).intersects r) =
          (fun p => (m.pairBounds p).intersects r.swap) ∘ ClonePair.flipped := by
        funext p
        rw [Function.comp_apply, pairBounds_flipped, PixelRect.intersects_swap]
      rw [htouch, ← List.filter_map]
      exact ((model.perm_map_flipped_rowRange rows.first cols.first).filter _).symm

theorem eq_add_of_fragmentIn {file : Nat} {first last : Int} {e : Overflow}
    (h : m.fragmentIn file first last = .error e) : e = .add := by
  unfold fragmentIn addPixels checkPixel at h
  split at h <;> cases h
  rfl

/-- Two fragments that are refused for one cause can be told in either order. -/
theorem region_comm {a b : Except Overflow Fragment} {cause : Overflow}
    (ha : ∀ e, a = .error e → e = cause) (hb : ∀ e, b = .error e → e = cause) :
    (do return some (.region (← b) (← a)) : Except Overflow (Option Change)) =
      (do return some (.region (← a) (← b)) : Except Overflow (Option Change)).map
        (Option.map Change.swap) := by
  cases a with
  | ok a => cases b <;> rfl
  | error e =>
    cases b with
    | ok b => rfl
    | error e' =>
      rw [ha e rfl, hb e' rfl]
      rfl

theorem region?_swap (m : Mapper) (r : PixelRect) (d : DragSelection) :
    m.region? r.swap d.swap = (m.region? r d).map (Option.map Change.swap) := by
  unfold region?
  rw [DragSelection.singleCell?_swap]
  cases d.singleCell? with
  | none => rfl
  | some cell =>
    exact region_comm (fun _ => eq_add_of_fragmentIn) (fun _ => eq_add_of_fragmentIn)

/-- A rectangle whose extents fit and its reflection select the same files with rows and columns
exchanged, the opposite views of the clones, and the region with its fragments exchanged, if there
is one. Of other rectangles the reflection is refused, if they are not refused themselves. -/
theorem selects_mirrored (model : Model) (hsum : model.sizes.sum < UInt64.size)
    (drawSize : UInt32) (r : PixelRect) :
    let m := model.mapper drawSize.toNat
    (r.Fits → ∃ d d', m.dragSelection r = .ok d ∧ m.dragSelection r.swap = .ok d' ∧
      (d'.rows = d.cols ∧ d'.cols = d.rows ∧ d'.files = d.files) ∧
      (∃ clones clones', m.clonesIn model r d = .ok clones ∧
        m.clonesIn model r.swap d' = .ok clones' ∧
        clones'.Perm (clones.map ClonePair.flipped)) ∧
      m.region? r.swap d' = (m.region? r d).map (Option.map Change.swap)) ∧
    ((∃ d, m.dragSelection r = .ok d) →
      ((∃ d', m.dragSelection r.swap = .ok d') ↔ r.Fits)) := by
  intro m
  refine ⟨fun hfits => ?_, fun hsome => ?_⟩
  · obtain ⟨d, hd⟩ : ∃ d, m.dragSelection r = .ok d := exists_dragSelection_iff.mpr hfits.measured
    obtain ⟨d', hd'⟩ : ∃ d', m.dragSelection r.swap = .ok d' :=
      exists_dragSelection_iff.mpr ((measured_swap_iff hfits.measured).mpr hfits)
    have hpairs : ∀ p ∈ model.views, m.PairFits p := pairFits_of_mem_views hsum
    obtain ⟨clones, hclones⟩ := exists_clonesIn hpairs r d
    obtain ⟨clones', hclones'⟩ := exists_clonesIn hpairs r.swap d'
    cases swap_of_dragSelection hd hd'
    exact ⟨d, _, hd, hd', ⟨rfl, rfl, rfl⟩,
      ⟨clones, clones', hclones, hclones', perm_of_clonesIn_swap hclones hclones'⟩,
      m.region?_swap r d⟩
  · rw [exists_dragSelection_iff] at hsome ⊢
    exact measured_swap_iff hsome

def pairless : Model where
  files := #[⟨0, "a", 8⟩, ⟨1, "b", 8⟩]
  pairs := []
  pairs_within := fun _ h => absurd h List.not_mem_nil

/-- A rectangle that reaches before the drawing marks out a region from both sides. -/
theorem selects_mirrored_pairless :
    let m := pairless.mapper (16 : UInt32).toNat
    let r : PixelRect := .ofCorners ⟨-3, 9⟩ ⟨5, 12⟩
    r.Fits ∧ ∃ d d', m.dragSelection r = .ok d ∧ m.dragSelection r.swap = .ok d' ∧
      d'.files = d.files ∧ m.region? r d = .ok (some (.region ⟨1, 1, 5⟩ ⟨0, 0, 6⟩)) ∧
      m.region? r.swap d' = .ok (some (.region ⟨0, 0, 6⟩ ⟨1, 1, 5⟩)) := by
  intro m r
  have hfits : r.Fits := by decide
  obtain ⟨d, d', hd, hd', ⟨-, -, hfiles⟩, -, hmirrored⟩ :=
    (selects_mirrored pairless (by decide) 16 r).1 hfits
  have hsides : m.dragSelection r = .ok (m.sideFiles r) :=
    dragSelection_eq_sideFiles (by decide) (by decide)
  cases hd.symm.trans hsides
  have hregion : m.region? r (m.sideFiles r) = .ok (some (.region ⟨1, 1, 5⟩ ⟨0, 0, 6⟩)) := by
    decide
  rw [hregion] at hmirrored
  exact ⟨hfits, _, d', hd, hd', hfiles, hregion, hmirrored⟩

/-- A rectangle of six columns that reaches down to the largest number selects files, its
reflection is refused. -/
theorem tall_not_mirrored :
    let m := pairless.mapper (16 : UInt32).toNat
    let r : PixelRect := .ofCorners ⟨0, 0⟩ ⟨5, Int64.maxValue.toInt⟩
    pairless.sizes.sum < UInt64.size ∧
      (∃ d, m.dragSelection r = .ok d ∧ d.rows = some ⟨0, 1⟩ ∧ d.cols = some ⟨0, 0⟩) ∧
      m.dragSelection r.swap = .error .add := by
  intro m r
  exact ⟨by decide, ⟨_, dragSelection_eq_sideFiles (by decide) (by decide), by decide, by decide⟩,
    by decide⟩

end Mapper
end ClonePlot
