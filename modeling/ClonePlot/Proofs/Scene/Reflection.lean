import ClonePlot.Proofs.Canvas.Reflection
import ClonePlot.Proofs.Model.Rows
import ClonePlot.Proofs.Scene.Span
import ClonePlot.View

/-! # Symmetry of the plot

A frame without labels, metric colors and drag looks the same on both sides of the diagonal.
Cells, separators and boxes are painted together with their reflections; markers because the
rows hold both views of each pair equally often; the highlight because its blocks can be
painted in either order.
-/
namespace ClonePlot
open Canvas

namespace Marker

def swap : Marker → Marker
  | dot p => dot p.swap
  | line p q => line p.swap q.swap

theorem coats_swap (m : Marker) (q : Point) : m.swap.coats q.swap = m.coats q := by
  cases m with
  | dot p =>
    have hcell : InRect p.swap.x p.swap.y (p.swap.x + max dotSize 1) (p.swap.y + max dotSize 1)
        q.swap ↔ InRect p.x p.y (p.x + max dotSize 1) (p.y + max dotSize 1) q := and_comm
    exact if_congr hcell rfl rfl
  | line p r => exact count_linePoints_swap p r q

end Marker

namespace Mapper

theorem pairStart_flipped (m : Mapper) (p : ClonePair) :
    m.pairStart p.flipped = (m.pairStart p).swap := by
  simp only [pairStart, ClonePair.flipped, Point.swap]

theorem pairStop_flipped (m : Mapper) (p : ClonePair) :
    m.pairStop p.flipped = (m.pairStop p).swap := by
  simp only [pairStop, ClonePair.flipped, Point.swap]

/-- The other view of a pair is marked at the reflected place. -/
theorem marker_flipped (m : Mapper) (p : ClonePair) : m.marker p.flipped = (m.marker p).swap := by
  have hroom : (m.hasRoom p.flipped.right.file || m.hasRoom p.flipped.left.file) =
      (m.hasRoom p.right.file || m.hasRoom p.left.file) := Bool.or_comm _ _
  rw [marker, marker, hroom, pairStart_flipped, pairStop_flipped]
  split
  · rw [Marker.swap]
  · rw [Marker.swap]

end Mapper

namespace Scene
variable (s : Scene) (c : Canvas)

theorem shadeCoats_swap (frontier row : Nat) (q : Point) :
    s.shadeCoats frontier row q.swap = s.shadeCoats frontier row q := by
  unfold shadeCoats
  split
  · rfl
  · have hcell (x0 y0 x1 y1 : Int) : InRect x0 y0 x1 y1 q.swap ↔ InRect y0 x0 y1 x1 q := and_comm
    simp only [hcell]
    exact Nat.add_comm _ _

theorem reflects_shade : Reflects c (s.shade c) := by
  refine .of_coats (s.coats_shade c) fun q => ?_
  simp only [shadeCoats_swap]

theorem separatorEffect_swap (i : Nat) (q : Point) :
    s.separatorEffect i q.swap = s.separatorEffect i q := by
  have hcoats : s.separatorCoats i q.swap = s.separatorCoats i q := Nat.add_comm _ _
  funext d
  unfold separatorEffect
  rw [hcoats]

theorem reflects_separate : Reflects c (s.separate c) := by
  refine ⟨_, s.painted_separate c, fun q _ _ => ?_⟩
  simp only [separatorEffect_swap]

theorem reflects_outlineBoxes : Reflects c (s.outlineBoxes c) := by
  refine .of_coats (s.coats_outlineBoxes c) fun q => ?_
  have hborder (a b : Int) : OnBorder a a b b q.swap ↔ OnBorder a a b b q := by
    unfold OnBorder Point.swap
    dsimp only
    omega
  simp only [hborder]

def markerCoats (q : Point) : Nat := (s.model.views.map fun p => (s.mapper.marker p).coats q).sum

theorem markerCoats_swap (q : Point) : s.markerCoats q.swap = s.markerCoats q := by
  have hflip (p : ClonePair) :
      (s.mapper.marker p.flipped).coats q.swap = (s.mapper.marker p).coats q := by
    rw [Mapper.marker_flipped, Marker.coats_swap]
  calc s.markerCoats q.swap
      = ((s.model.views.map ClonePair.flipped).map fun p => (s.mapper.marker p).coats q.swap).sum :=
        (s.model.perm_map_flipped_views.map _).sum_eq.symm
    _ = (s.model.views.map fun p => (s.mapper.marker p.flipped).coats q.swap).sum := by
        rw [List.map_map, Function.comp_def]
    _ = s.markerCoats q := by
        simp only [hflip, markerCoats]

theorem reflects_mark (h : s.coloring = none) : Reflects c (s.mark c) := by
  have hcolor (p : ClonePair) : s.markerColor p = s.color .clone := by
    rw [markerColor, h]
    rfl
  have hmark : Coats (s.color .clone) s.markerCoats c (s.mark c) := by
    unfold mark markerCoats
    simp only [hcolor]
    exact Coats.foldl (fun p c => (s.mapper.marker p).coats_draw c _) s.model.views c
  exact .of_coats hmark s.markerCoats_swap

theorem reflects_highlight : Reflects c (s.highlight c) := by
  refine ⟨_, s.painted_highlight c, fun q hx _ => ?_⟩
  funext d
  rw [foldl_blockEffect_eq, foldl_blockEffect_eq, foldl_blockEffect_comm s hx]
  simp only [blockEffect_swap]
  rfl

theorem reflects_paintOn (hlabels : s.options.labels = false) (hcoloring : s.coloring = none)
    (hdrag : s.drag = none) : Reflects c (s.paintOn c) := by
  unfold paintOn drawBoxes outlineDrag
  rw [hlabels, hdrag]
  split
  · exact .refl c
  · have hshade : Reflects c (if s.options.noCloneRegions then s.shade c else c) :=
      .ite (s.reflects_shade c)
    have hboxes (c : Canvas) :
        Reflects c (if s.options.directoryBoxes then s.outlineBoxes c else c) :=
      .ite (s.reflects_outlineBoxes c)
    exact (((hshade.trans (s.reflects_separate _)).trans (hboxes _)).trans
      (s.reflects_mark _ hcoloring)).trans (s.reflects_highlight _)

/-- The plot is symmetric about the diagonal. -/
theorem pixel?_frame_swap (hlabels : s.options.labels = false) (hcoloring : s.coloring = none)
    (hdrag : s.drag = none) (target : Option Canvas) (p : Point) :
    (s.frame target).pixel? p.swap = (s.frame target).pixel? p := by
  have hback : (s.backdrop target).Symmetric := by
    rw [backdrop_eq]
    exact symmetric_blank _ _
  exact (s.reflects_paintOn _ hlabels hcoloring hdrag).symmetric hback p

/-- A file whose halves are clones of each other, the file selected. -/
theorem pixel?_frame_swap_halves :
    let m := Model.halves.mapper 8
    let scene : Scene :=
      { model := .halves, mapper := m, directories := Model.halves.directories,
        boxes := Model.halves.directories.boxes m, frontier := Model.halves.frontier,
        options := { labels := false }, palette := .standard, coloring := none,
        selected := .range 0 1, drag := none }
    (scene.options.labels = false ∧ scene.coloring = none ∧ scene.drag = none) ∧
      ∀ p : Point, (scene.frame none).pixel? p.swap = (scene.frame none).pixel? p := by
  intro m scene
  exact ⟨⟨rfl, rfl, rfl⟩, pixel?_frame_swap scene rfl rfl rfl none⟩

end Scene
end ClonePlot
