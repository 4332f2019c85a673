import ClonePlot.Proofs.Canvas.Effect
import ClonePlot.Scene

/-! # Effects of the layers

What each layer of a scene does to a single pixel. A layer never looks at other pixels, so a
frame is known once its effect is known at every place; and no layer changes the size.
-/
namespace ClonePlot
open Canvas

def Marker.coats (q : Point) : Marker → Nat
  | dot p => if InRect p.x p.y (p.x + max dotSize 1) (p.y + max dotSize 1) q then 1 else 0
  | line p r => (linePoints p r).count q

theorem Marker.coats_draw (m : Marker) (c : Canvas) (color : Color) :
    Coats color (fun q => m.coats q) c (Marker.draw c color m) := by
  cases m with
  | dot p => exact covers_dot c p dotSize color
  | line p r => exact coats_line c p r color

namespace Scene
variable (s : Scene) (c : Canvas)

def shadeCoats (frontier row : Nat) (q : Point) : Nat :=
  if s.fileCount ≤ frontier then 0
  else
    let y0 := s.mapper.startPixel row
    let y1 := s.mapper.startPixel (row + 1)
    let x0 := s.mapper.startPixel frontier
    let stop := s.mapper.extent
    (if InRect x0 y0 stop y1 q then 1 else 0) + (if InRect y0 x0 y1 stop q then 1 else 0)

theorem coats_shadeRow (row frontier : Nat) :
    Coats (s.color .noClone) (s.shadeCoats frontier row) c (s.shadeRow c row frontier) := by
  unfold shadeRow shadeCoats
  by_cases h : s.fileCount ≤ frontier
  · simp only [if_pos h]
    exact Coats.refl _ c
  · simp only [if_neg h]
    exact Coats.trans (covers_fillRect c _ _ _ _ _) (covers_fillRect _ _ _ _ _ _)

theorem coats_shade : Coats (s.color .noClone)
    (fun q => ((s.frontier.take s.fileCount).zipIdx.map fun cell =>
      s.shadeCoats cell.1 cell.2 q).sum) c (s.shade c) :=
  Coats.foldl (fun cell c => s.coats_shadeRow c cell.2 cell.1) _ c

/-- The coats of a separator on a pixel: one along each axis. -/
def separatorCoats (i : Nat) (q : Point) : Nat :=
  let last := s.mapper.extent - 1
  let p := s.mapper.startPixel i
  (if q.x = p ∧ min 0 last ≤ q.y ∧ q.y ≤ max 0 last then 1 else 0) +
    (if q.y = p ∧ min 0 last ≤ q.x ∧ q.x ≤ max 0 last then 1 else 0)

def separatorEffect (i : Nat) (q : Point) (d : Color) : Color :=
  match s.separator? i with
  | none => d
  | some color => color.coat (s.separatorCoats i q) d

theorem painted_separate : Painted
    (fun q d => (List.range' 1 (s.fileCount - 1)).foldl (fun d i => s.separatorEffect i q d) d)
    c (s.separate c) := by
  refine Painted.foldl (fun i c => ?_) _ c
  unfold separatorEffect
  cases s.separator? i with
  | none => exact .refl c
  | some color => exact Coats.trans (covers_vline c _ _ _ color) (covers_hline _ _ _ _ color)

theorem coats_outlineBoxes : Coats (s.color .boxOutline)
    (fun q => (s.boxes.map fun b => if OnBorder b.startPixel b.startPixel (b.stopPixel - 1)
      (b.stopPixel - 1) q then 1 else 0).sum) c (s.outlineBoxes c) :=
  Coats.foldl (fun _ c => covers_outlineRect c _ _ _ _ _) s.boxes c

def labelEffect (b : DirectoryBox) (q : Point) (d : Color) : LabelFate → Color
  | .drawn pill =>
    (s.color .labelText).coat
      (textCoats labelScale q ⟨pill.x0 + labelMargin, pill.y0 + labelMargin⟩ b.label.toList)
      ((s.color .labelBackground).coat
        (if inRounded pill.x0 pill.y0 pill.x1 pill.y1
            (cornerRadius pill.x0 pill.y0 pill.x1 pill.y1 labelRadius) q ∧
          InRect pill.x0 pill.y0 (pill.x1 + 1) (pill.y1 + 1) q then 1 else 0) d)
  | _ => d

theorem painted_labelBoxes : Painted
    (fun q d => s.labelFates.foldl (fun d entry => s.labelEffect entry.1 q d entry.2) d)
    c (s.labelBoxes c) := by
  refine Painted.foldl (fun entry c => ?_) _ c
  obtain ⟨b, fate⟩ := entry
  cases fate with
  | drawn pill => exact Painted.trans (covers_roundedRect c _ _ _ _ _ _) (coats_text _ _ _ _ _)
  | absent => exact .refl c
  | suppressed => exact .refl c

theorem painted_mark : Painted
    (fun q d => s.markedPairs.foldl
      (fun d p => (s.markerColor p).coat ((s.mapper.marker p).coats q) d) d) c (s.mark c) :=
  Painted.foldl (fun p c => (s.mapper.marker p).coats_draw c (s.markerColor p)) s.markedPairs c

/-- The effect of one highlighted block: a filling inside, an outline on its border. -/
def blockEffect (rows cols : Int × Int) (q : Point) (d : Color) : Color :=
  (s.color .selectionOutline).coat (if OnBorder cols.1 rows.1 cols.2 rows.2 q then 1 else 0)
    ((s.color .selectionFill).coat
      (if InRect cols.1 rows.1 (cols.2 + 1) (rows.2 + 1) q then 1 else 0) d)

theorem painted_highlightBlock (rows cols : Int × Int) :
    Painted (s.blockEffect rows cols) c (s.highlightBlock rows cols c) := by
  have hfill := covers_fillRect c cols.1 rows.1 (cols.2 + 1) (rows.2 + 1) (s.color .selectionFill)
  have houtline := covers_outlineRect (c.fillRect cols.1 rows.1 (cols.2 + 1) (rows.2 + 1)
    (s.color .selectionFill)) cols.1 rows.1 cols.2 rows.2 (s.color .selectionOutline)
  have h := Painted.trans hfill houtline
  exact h

theorem painted_highlight : Painted
    (fun q d => s.selectedSpans.foldl (fun d rows =>
      s.selectedSpans.foldl (fun d cols => s.blockEffect rows cols q d) d) d)
    c (s.highlight c) :=
  Painted.foldl (fun rows c =>
    Painted.foldl (fun cols c => s.painted_highlightBlock c rows cols) s.selectedSpans c)
    s.selectedSpans c

theorem painted_outlineDrag : ∃ effect, Painted effect c (s.outlineDrag c) := by
  unfold outlineDrag
  cases s.drag with
  | none => exact ⟨_, .refl c⟩
  | some r => exact ⟨_, covers_outlineRect c _ _ _ _ _⟩

/-- A frame is its background, each pixel changed by itself. -/
theorem painted_paintOn : ∃ effect, Painted effect c (s.paintOn c) := by
  unfold paintOn drawBoxes
  by_cases hempty : s.mapper.layout.isEmpty
  · simp only [if_pos hempty]
    exact ⟨_, .refl c⟩
  simp only [if_neg hempty]
  have hshade : ∃ effect, Painted effect c (if s.options.noCloneRegions then s.shade c else c) := by
    split
    · exact ⟨_, s.coats_shade c⟩
    · exact ⟨_, .refl c⟩
  have hboxes (c : Canvas) : ∃ effect, Painted effect c
      (if s.options.directoryBoxes then
        (if s.options.labels then s.labelBoxes (s.outlineBoxes c) else s.outlineBoxes c)
      else c) := by
    split
    · split
      · exact ⟨_, Painted.trans (s.coats_outlineBoxes c) (s.painted_labelBoxes _)⟩
      · exact ⟨_, s.coats_outlineBoxes c⟩
    · exact ⟨_, .refl c⟩
  obtain ⟨_, h1⟩ := hshade
  have h2 := h1.trans (s.painted_separate _)
  obtain ⟨_, h3⟩ := hboxes (s.separate (if s.options.noCloneRegions then s.shade c else c))
  have h4 := (h3.trans (s.painted_mark _)).trans (s.painted_highlight _)
  obtain ⟨_, h5⟩ := s.painted_outlineDrag _
  exact ⟨_, (h2.trans h4).trans h5⟩

theorem width_frame (target : Option Canvas) : (s.frame target).width = s.mapper.drawSize := by
  obtain ⟨_, h⟩ := s.painted_paintOn (s.backdrop target)
  rw [frame, h.width, backdrop_eq]
  rfl

theorem height_frame (target : Option Canvas) : (s.frame target).height = s.mapper.drawSize := by
  obtain ⟨_, h⟩ := s.painted_paintOn (s.backdrop target)
  rw [frame, h.height, backdrop_eq]
  rfl

/-- The canvas that a frame is painted over leaves no trace. -/
theorem frame_eq_frame_none (target : Option Canvas) : s.frame target = s.frame none := by
  rw [frame, frame, backdrop_eq, backdrop_eq]

end Scene
end ClonePlot
