import ClonePlot.Proofs.Canvas.Area
import ClonePlot.Proofs.Scene.Label

/-! # Labels stay in their boxes

A pill is as large as its text and a margin, and is drawn only where it fits between the outlines
of its box. So nothing of a label leaves the box, and its letters stay off the edge of the pill.
Every box has a name, hence a label that is either drawn or suppressed.
-/
namespace ClonePlot

open Canvas

namespace PixelRect

variable {pill : PixelRect} {label : String} {q : Point}

abbrev OnPill (pill : PixelRect) (q : Point) : Prop :=
  Rounded pill.x0 pill.y0 pill.x1 pill.y1
    (cornerRadius pill.x0 pill.y0 pill.x1 pill.y1 labelRadius) q

abbrev OnLetters (pill : PixelRect) (label : String) (q : Point) : Prop :=
  InText ⟨pill.x0 + labelMargin, pill.y0 + labelMargin⟩ labelScale label.toList q

theorem covers_drawLabel (c : Canvas) (pill : PixelRect) (label : String) (background ink : Color) :
    ∃ d, Covers background pill.OnPill c d ∧
      Covers ink (pill.OnLetters label) d (drawLabel c pill label background ink) :=
  ⟨_, covers_rounded c _ _ _ _ _ background, covers_text _ _ _ label ink⟩

end PixelRect

namespace DirectoryBox

variable {b : DirectoryBox} {pill : PixelRect} {q : Point}

theorem onPill_within (hpill : b.pill? = some pill) (hq : pill.OnPill q) :
    (b.startPixel + 1 ≤ q.x ∧ q.x ≤ b.stopPixel - 2) ∧
      b.startPixel + 1 ≤ q.y ∧ q.y ≤ b.stopPixel - 2 := by
  obtain ⟨hlabel, hfits, rfl⟩ := pill?_eq_some_iff.mp hpill
  have hwidth := ten_le_pillWidth hlabel
  have hheight : pillHeight = 14 := rfl
  obtain ⟨⟨⟨htop, hbottom⟩, hleft, hright⟩, -⟩ := hq
  unfold PixelRect.ofCorners at htop hbottom hleft hright
  dsimp only at htop hbottom hleft hright
  omega

theorem onLetters_within (hpill : b.pill? = some pill) (hq : pill.OnLetters b.label q) :
    (pill.x0 + 2 ≤ q.x ∧ q.x ≤ pill.x1 - 2) ∧ pill.y0 + 2 ≤ q.y ∧ q.y ≤ pill.y1 - 2 := by
  obtain ⟨hlabel, hfits, rfl⟩ := pill?_eq_some_iff.mp hpill
  have hwidth := ten_le_pillWidth hlabel
  obtain ⟨⟨hleft, hright⟩, htop, hbottom⟩ := hq.bounds
  unfold pillWidth pillHeight at *
  unfold PixelRect.ofCorners labelMargin at *
  dsimp only at *
  omega

theorem onPill_of_onLetters (hpill : b.pill? = some pill) (hq : pill.OnLetters b.label q) :
    pill.OnPill q := by
  obtain ⟨⟨hleft, hright⟩, htop, hbottom⟩ := onLetters_within hpill hq
  have hradius : cornerRadius pill.x0 pill.y0 pill.x1 pill.y1 labelRadius ≤ 3 := by
    unfold cornerRadius labelRadius
    omega
  refine ⟨⟨⟨by omega, by omega⟩, by omega, by omega⟩, ?_⟩
  generalize cornerRadius pill.x0 pill.y0 pill.x1 pill.y1 labelRadius = r at *
  rintro ⟨hcolumn, hrow, hfar⟩
  -- the margin keeps letters two pixels nearer to the centre than the edges are
  have hdx : outside (pill.x0 + r) (pill.x1 - r) q.x ≤ r - 2 := by
    unfold outside at hcolumn ⊢
    omega
  have hdy : outside (pill.y0 + r) (pill.y1 - r) q.y ≤ r - 2 := by
    unfold outside at hrow ⊢
    omega
  obtain rfl : r = 3 := by omega
  have hdx' : outside (pill.x0 + 3) (pill.x1 - 3) q.x = 1 := by omega
  have hdy' : outside (pill.y0 + 3) (pill.y1 - 3) q.y = 1 := by omega
  rw [hdx', hdy'] at hfar
  exact absurd hfar (by decide)

end DirectoryBox

namespace Scene

variable {s : Scene}

/-- Where every box has a name, each label is drawn or suppressed. -/
theorem labelsDrawn_add_labelsSuppressed (hnames : ∀ b ∈ s.boxes, b.label ≠ "")
    (hcontent : s.mapper.layout.isEmpty = false) (hshown : s.options.directoryBoxes)
    (hlabels : s.options.labels) :
    s.stats.labelsDrawn + s.stats.labelsSuppressed = s.boxes.length := by
  have hlength : s.labelFates.length = s.boxes.length := List.length_map _
  unfold stats boxStats countLabels
  rw [hcontent, hshown, hlabels]
  simp only [Bool.false_eq_true, if_false, if_true]
  rw [← hlength]
  -- suppressed are those that are not drawn
  refine (congrArg (_ + ·) (List.countP_congr fun entry hentry => ?_)).trans
    (List.length_eq_countP_add_countP _).symm
  obtain ⟨b, fate⟩ := entry
  obtain ⟨hb, hfate⟩ := mem_labelFates.mp hentry
  cases fate with
  | absent => exact absurd hfate (labelFate_ne_absent (hnames b hb))
  | suppressed => simp
  | drawn pill => simp

theorem labels_inside (paths : List String) (m : Mapper) (s : Scene)
    (hboxes : s.boxes = (Directories.ofPaths paths).boxes m)
    (hcontent : s.mapper.layout.isEmpty = false) (hshown : s.options.directoryBoxes)
    (hlabels : s.options.labels) :
    (∀ b pill, (b, .drawn pill) ∈ s.labelFates →
      (∀ (c : Canvas) (background ink : Color), ∃ d, Covers background pill.OnPill c d ∧
        Covers ink (pill.OnLetters b.label) d (drawLabel c pill b.label background ink)) ∧
      (∀ q, pill.OnPill q ∨ pill.OnLetters b.label q →
        (b.startPixel + 1 ≤ q.x ∧ q.x ≤ b.stopPixel - 2) ∧
          b.startPixel + 1 ≤ q.y ∧ q.y ≤ b.stopPixel - 2) ∧
      ∀ q, pill.OnLetters b.label q → pill.OnPill q ∧
        (pill.x0 + 2 ≤ q.x ∧ q.x ≤ pill.x1 - 2) ∧ pill.y0 + 2 ≤ q.y ∧ q.y ≤ pill.y1 - 2) ∧
    (∀ b ∈ s.boxes, b.label ≠ "") ∧
    s.stats.labelsDrawn + s.stats.labelsSuppressed = s.boxes.length := by
  have hnames : ∀ b ∈ s.boxes, b.label ≠ "" := by
    rw [hboxes]
    exact fun b hb => Directories.label_ne_empty_of_mem_boxes hb
  refine ⟨fun b pill hdrawn => ?_, hnames,
    labelsDrawn_add_labelsSuppressed hnames hcontent hshown hlabels⟩
  have hpill := pill?_of_drawn hdrawn
  refine ⟨fun c => pill.covers_drawLabel c b.label, fun q hq => ?_, fun q hq => ?_⟩
  · rcases hq with hq | hq
    · exact DirectoryBox.onPill_within hpill hq
    · exact DirectoryBox.onPill_within hpill (DirectoryBox.onPill_of_onLetters hpill hq)
  · exact ⟨DirectoryBox.onPill_of_onLetters hpill hq, DirectoryBox.onLetters_within hpill hq⟩

/-- Of three nested folders two have their labels drawn. -/
theorem labels_inside_nestedFolders :
    let s := nestedFolders
    let b : DirectoryBox := ⟨"c", 0, 16, ⟨0, 1⟩, some 1⟩
    let pill : PixelRect := .ofCorners ⟨1, 1⟩ ⟨10, 14⟩
    (s.boxes = (Directories.ofPaths ["g/pp/c/x", "g/pp/y", "g/z", "w"]).boxes s.mapper ∧
      s.mapper.layout.isEmpty = false ∧ s.options.directoryBoxes ∧ s.options.labels ∧
      (b, .drawn pill) ∈ s.labelFates) ∧
    (∀ q, pill.OnPill q ∨ pill.OnLetters b.label q →
      (1 ≤ q.x ∧ q.x ≤ 14) ∧ 1 ≤ q.y ∧ q.y ≤ 14) ∧
    s.stats.labelsDrawn + s.stats.labelsSuppressed = 3 := by
  intro s b pill
  have hdrawn : (b, .drawn pill) ∈ s.labelFates := labelFates_nestedFolders ▸ by decide
  obtain ⟨hlabels, -, hcount⟩ := labels_inside ["g/pp/c/x", "g/pp/y", "g/z", "w"] s.mapper s
    boxes_nestedFolders (by decide) rfl rfl
  have hboxes : s.boxes.length = 3 := by cbv
  exact ⟨⟨boxes_nestedFolders, by decide, rfl, rfl, hdrawn⟩, (hlabels b pill hdrawn).2.1, hcount.trans hboxes⟩

end Scene
end ClonePlot
