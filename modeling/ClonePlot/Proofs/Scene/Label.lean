import ClonePlot.Proofs.Directory.Label
import ClonePlot.Proofs.Mapper
import ClonePlot.View

/-! # Labels that overlap

A pill stands in the first corner of its box and ends within, so labels of boxes beside each other
are apart. A label inside of another box keeps off the pill of its parent only. Where all boxes on
the way outwards have theirs drawn, two steps lead out of the reach of any pill; so labels overlap
only across a box whose own label is suppressed.
-/
namespace ClonePlot

namespace DirectoryBox

variable {a b : DirectoryBox} {p r : PixelRect}

def pillWidth (b : DirectoryBox) : Int := Font.width b.label labelScale + 2 * labelMargin

/-- All pills are equally high. -/
def pillHeight : Int := Font.height labelScale + 2 * labelMargin

theorem pill?_eq_some_iff : b.pill? = some p ↔
    b.label.isEmpty = false ∧ b.startPixel + max b.pillWidth pillHeight ≤ b.stopPixel - 2 ∧
      p = .ofCorners ⟨b.startPixel + 1, b.startPixel + 1⟩
        ⟨b.startPixel + b.pillWidth, b.startPixel + pillHeight⟩ := by
  have hlast (n : Int) : b.startPixel + 1 + n + 2 * labelMargin - 1 =
      b.startPixel + (n + 2 * labelMargin) := by omega
  unfold pill? pillWidth pillHeight
  dsimp only
  rw [hlast, hlast]
  cases b.label.isEmpty with
  | true => simp
  | false =>
    simp only [Bool.false_eq_true, if_false, Option.ite_none_right_eq_some, Option.some.injEq,
      true_and, eq_comm (a := p)]
    refine and_congr_left' ?_
    omega

theorem ten_le_pillWidth (h : b.label.isEmpty = false) : 10 ≤ b.pillWidth := by
  have hlength : b.label.length ≠ 0 := by
    intro hzero
    rw [String.length_eq_zero_iff.mp hzero] at h
    cases h
  -- a single letter takes six pixels, the margins four
  unfold pillWidth Font.width Font.advance Font.columns labelScale labelMargin
  rw [if_neg hlength]
  omega

/-- How far pills reach past the start of their box in both directions. -/
def reach (b : DirectoryBox) : Int := min b.pillWidth pillHeight

theorem ten_le_reach (h : b.pill? = some p) : 10 ≤ b.reach :=
  le_min (ten_le_pillWidth (pill?_eq_some_iff.mp h).1) (by decide)

theorem reach_le : b.reach ≤ 14 := min_le_right _ _

theorem intersects_iff_of_le (ha : a.pill? = some p) (hb : b.pill? = some r)
    (hle : a.startPixel ≤ b.startPixel) :
    p.intersects r ↔ b.startPixel < a.startPixel + a.reach := by
  obtain ⟨hlabel, -, rfl⟩ := pill?_eq_some_iff.mp ha
  obtain ⟨hlabel', -, rfl⟩ := pill?_eq_some_iff.mp hb
  have hwidth := ten_le_pillWidth hlabel
  have hwidth' := ten_le_pillWidth hlabel'
  have hheight : pillHeight = 14 := rfl
  unfold PixelRect.intersects PixelRect.ofCorners reach
  simp only [Bool.and_eq_true, decide_eq_true_eq]
  omega

theorem not_intersects_of_apart (ha : a.pill? = some p) (hb : b.pill? = some r)
    (hapart : a.stopPixel ≤ b.startPixel) : ¬p.intersects r := by
  obtain ⟨hlabel, hfits, -⟩ := pill?_eq_some_iff.mp ha
  have hheight : pillHeight = 14 := rfl
  rw [intersects_iff_of_le ha hb (by omega)]
  unfold reach
  omega

end DirectoryBox

theorem PixelRect.intersects_comm (r s : PixelRect) : r.intersects s = s.intersects r := by
  unfold intersects
  rw [Bool.eq_iff_iff]
  simp only [Bool.and_eq_true, decide_eq_true_eq]
  tauto

theorem labelFate_eq_drawn_iff {boxes : Array DirectoryBox} {b : DirectoryBox} {p : PixelRect} :
    labelFate boxes b = .drawn p ↔ b.pill? = some p ∧
      ∀ r, (b.parent.bind (boxes[·]?)).bind DirectoryBox.pill? = some r → ¬r.intersects p := by
  unfold labelFate
  cases hlabel : b.label.isEmpty with
  | true =>
    have hnone : b.pill? = none := if_pos hlabel
    simp [hnone]
  | false =>
    cases b.pill? with
    | none => simp
    | some pill =>
      cases (b.parent.bind (boxes[·]?)).bind DirectoryBox.pill? with
      | none => simp
      | some r =>
        by_cases hmeets : r.intersects pill
        · simp only [Bool.false_eq_true, if_false, if_pos hmeets, reduceCtorEq, Option.some.injEq,
            false_iff, not_and]
          rintro rfl hoff
          exact hoff r rfl hmeets
        · simp only [Bool.false_eq_true, if_false, if_neg hmeets, LabelFate.drawn.injEq,
            Option.some.injEq, iff_self_and]
          rintro rfl _ rfl
          exact hmeets

theorem labelFate_ne_absent {boxes : Array DirectoryBox} {b : DirectoryBox} (h : b.label ≠ "") :
    labelFate boxes b ≠ .absent := by
  unfold labelFate
  rw [String.isEmpty_eq_false_iff.mpr h, if_neg Bool.false_ne_true]
  split
  · exact LabelFate.noConfusion
  · split
    · split <;> exact LabelFate.noConfusion
    · exact LabelFate.noConfusion

namespace Scene

variable {s : Scene} {t : Directories} {m : Mapper} {outer parent inner : DirectoryBox}
  {p r : PixelRect}

theorem mem_labelFates {b : DirectoryBox} {fate : LabelFate} :
    (b, fate) ∈ s.labelFates ↔ b ∈ s.boxes ∧ labelFate s.boxes.toArray b = fate := by
  unfold labelFates
  rw [List.mem_map]
  constructor
  · rintro ⟨b', hb, heq⟩
    cases heq
    exact ⟨hb, rfl⟩
  · rintro ⟨hb, rfl⟩
    exact ⟨b, hb, rfl⟩

theorem pill?_of_drawn (h : (inner, .drawn p) ∈ s.labelFates) : inner.pill? = some p :=
  (labelFate_eq_drawn_iff.mp (mem_labelFates.mp h).2).1

theorem intersects_iff_of_encloses (hboxes : s.boxes = t.boxes m)
    (hdraw : m.drawSize < UInt32.size) (houter : (outer, .drawn p) ∈ s.labelFates)
    (hinner : (inner, .drawn r) ∈ s.labelFates) (h : outer.files.Encloses inner.files) :
    p.intersects r ↔ inner.startPixel < outer.startPixel + outer.reach := by
  refine DirectoryBox.intersects_iff_of_le (pill?_of_drawn houter) (pill?_of_drawn hinner) ?_
  exact (Directories.pixels_of_encloses hdraw (hboxes ▸ (mem_labelFates.mp houter).1)
    (hboxes ▸ (mem_labelFates.mp hinner).1) h).1

theorem not_intersects_of_apart (hboxes : s.boxes = t.boxes m) (hdraw : m.drawSize < UInt32.size)
    {a b : DirectoryBox} (ha : (a, .drawn p) ∈ s.labelFates) (hb : (b, .drawn r) ∈ s.labelFates)
    (hapart : a.files.stop ≤ b.files.start) : ¬p.intersects r := by
  refine DirectoryBox.not_intersects_of_apart (pill?_of_drawn ha) (pill?_of_drawn hb) ?_
  exact Directories.stopPixel_le_startPixel hdraw (hboxes ▸ (mem_labelFates.mp ha).1)
    (hboxes ▸ (mem_labelFates.mp hb).1) hapart

theorem add_reach_le_of_drawn (hparent : inner.parent.bind (s.boxes[·]?) = some parent)
    (hle : parent.startPixel ≤ inner.startPixel) (hinner : (inner, .drawn p) ∈ s.labelFates)
    (hpill : parent.pill? = some r) : parent.startPixel + parent.reach ≤ inner.startPixel := by
  obtain ⟨hpill', hoff⟩ := labelFate_eq_drawn_iff.mp (mem_labelFates.mp hinner).2
  simp only [List.getElem?_toArray] at hoff
  have hapart := hoff r (by rw [hparent, Option.bind_some, hpill])
  rwa [DirectoryBox.intersects_iff_of_le hpill hpill' hle, Int.not_lt] at hapart

/-- A drawn label starts out of the reach of the parent's, if that has a place for one. -/
theorem exists_parent_reach (hboxes : s.boxes = t.boxes m) (hdraw : m.drawSize < UInt32.size)
    (houter : outer ∈ s.boxes) (hpill : outer.pill? = some r)
    (hinner : (inner, .drawn p) ∈ s.labelFates) (henclosed : outer.files.Encloses inner.files)
    (hdrawn : ∀ mid ∈ s.boxes, outer.files.Encloses mid.files → mid.files.Encloses inner.files →
      ∃ pill, (mid, .drawn pill) ∈ s.labelFates) :
    ∃ parent ∈ s.boxes, (parent = outer ∨ outer.files.Encloses parent.files) ∧
      parent.files.Encloses inner.files ∧ outer.startPixel ≤ parent.startPixel ∧
        10 ≤ parent.reach ∧ parent.startPixel + parent.reach ≤ inner.startPixel := by
  have hlisted := (mem_labelFates.mp hinner).1
  rw [hboxes] at houter hlisted
  obtain ⟨parent, hmem, hparent, hin, hout⟩ :=
    Directories.exists_parent houter hlisted henclosed
  have hstart := (Directories.pixels_of_encloses hdraw hmem hlisted hin).1
  rw [← hboxes] at hparent hmem
  have hplace : outer.startPixel ≤ parent.startPixel ∧ ∃ pill, parent.pill? = some pill := by
    rcases hout with rfl | hout
    · exact ⟨le_rfl, r, hpill⟩
    · obtain ⟨pill, hpill⟩ := hdrawn parent hmem hout hin
      rw [hboxes] at hmem
      exact ⟨(Directories.pixels_of_encloses hdraw houter hmem hout).1, pill,
        pill?_of_drawn hpill⟩
  obtain ⟨hfirst, pill, hpill'⟩ := hplace
  exact ⟨parent, hmem, hout, hin, hfirst, DirectoryBox.ten_le_reach hpill',
    add_reach_le_of_drawn hparent hstart hinner hpill'⟩

/-- Outwards over drawn labels, the second step leaves the reach of any label. -/
theorem exists_suppressed_of_intersects (hboxes : s.boxes = t.boxes m)
    (hlabels : ∀ b ∈ s.boxes, b.label ≠ "") (hdraw : m.drawSize < UInt32.size)
    (houter : (outer, .drawn p) ∈ s.labelFates) (hinner : (inner, .drawn r) ∈ s.labelFates)
    (henclosed : outer.files.Encloses inner.files) (hmeet : p.intersects r) :
    ∃ mid, (mid, .suppressed) ∈ s.labelFates ∧ outer.files.Encloses mid.files ∧
      mid.files.Encloses inner.files := by
  by_contra hnone
  have hdrawn (mid : DirectoryBox) (hmid : mid ∈ s.boxes) (hout : outer.files.Encloses mid.files)
      (hin : mid.files.Encloses inner.files) : ∃ pill, (mid, .drawn pill) ∈ s.labelFates := by
    cases hfate : labelFate s.boxes.toArray mid with
    | absent => exact absurd hfate (labelFate_ne_absent (hlabels mid hmid))
    | suppressed => exact absurd ⟨mid, mem_labelFates.mpr ⟨hmid, hfate⟩, hout, hin⟩ hnone
    | drawn pill => exact ⟨pill, mem_labelFates.mpr ⟨hmid, hfate⟩⟩
  have hreach := (intersects_iff_of_encloses hboxes hdraw houter hinner henclosed).mp hmeet
  have hlisted := (mem_labelFates.mp houter).1
  have hpill := pill?_of_drawn houter
  obtain ⟨first, hfirst, hout, hin, -, hten, hapart⟩ :=
    exists_parent_reach hboxes hdraw hlisted hpill hinner henclosed hdrawn
  rcases hout with rfl | hout
  · omega
  -- each of two steps is ten pixels or more, and no pill reaches past fourteen
  · obtain ⟨pill, hdrawn'⟩ := hdrawn first hfirst hout hin
    obtain ⟨second, -, -, -, hstart, hten', hapart'⟩ :=
      exists_parent_reach hboxes hdraw hlisted hpill hdrawn' hout
        fun mid hmid hout hin' => hdrawn mid hmid hout (hin'.trans hin)
    have hlimit := outer.reach_le
    omega

/-- Drawn labels share a pixel only if their boxes are nested, with a suppressed label between
them, and the inner box starts within reach of the outer label. -/
theorem labels_overlap_iff (paths : List String) (sizes : List Nat) (drawSize : UInt32) (s : Scene)
    (hboxes : s.boxes = (Directories.ofPaths paths).boxes ⟨.ofSizes sizes, drawSize.toNat⟩)
    (a b : DirectoryBox) (p r : PixelRect) (hne : a ≠ b) (ha : (a, .drawn p) ∈ s.labelFates)
    (hb : (b, .drawn r) ∈ s.labelFates) :
    ((∃ q, p.contains q ∧ r.contains q) → ∃ mid, (mid, .suppressed) ∈ s.labelFates ∧
      (a.files.Encloses mid.files ∧ mid.files.Encloses b.files ∨
        b.files.Encloses mid.files ∧ mid.files.Encloses a.files)) ∧
    (a.files.Encloses b.files → ((∃ q, p.contains q ∧ r.contains q) ↔
      b.startPixel < a.startPixel + min a.pillWidth DirectoryBox.pillHeight)) := by
  have hdraw : drawSize.toNat < UInt32.size := drawSize.toNat_lt_size
  have hlabels : ∀ box ∈ s.boxes, box.label ≠ "" := by
    rw [hboxes]
    exact fun box hbox => Directories.label_ne_empty_of_mem_boxes hbox
  have hmema := hboxes ▸ (mem_labelFates.mp ha).1
  have hmemb := hboxes ▸ (mem_labelFates.mp hb).1
  rw [← PixelRect.intersects_iff]
  refine ⟨fun hshared => ?_, intersects_iff_of_encloses hboxes hdraw ha hb⟩
  rcases Directories.apart_or_nested_of_mem_boxes hmema hmemb hne with
    (hapart | hapart) | henclosed | henclosed
  · exact absurd hshared (not_intersects_of_apart hboxes hdraw ha hb hapart)
  · rw [PixelRect.intersects_comm] at hshared
    exact absurd hshared (not_intersects_of_apart hboxes hdraw hb ha hapart)
  · obtain ⟨mid, hmid, hbetween⟩ :=
      exists_suppressed_of_intersects hboxes hlabels hdraw ha hb henclosed hshared
    exact ⟨mid, hmid, .inl hbetween⟩
  · rw [PixelRect.intersects_comm] at hshared
    obtain ⟨mid, hmid, hbetween⟩ :=
      exists_suppressed_of_intersects hboxes hlabels hdraw hb ha henclosed hshared
    exact ⟨mid, hmid, .inr hbetween⟩

end Scene

/-- Three folders that begin together. The name of the middle one does not fit into its box. -/
def Model.nestedFolders : Model where
  files := #[⟨0, "g/pp/c/x", 16⟩, ⟨1, "g/pp/y", 1⟩, ⟨2, "g/z", 1⟩, ⟨3, "w", 1⟩]
  pairs := []
  pairs_within _ h := absurd h List.not_mem_nil

namespace Scene

def nestedFolders : Scene where
  model := .nestedFolders
  mapper := Model.nestedFolders.mapper 19
  directories := Model.nestedFolders.directories
  boxes := Model.nestedFolders.directories.boxes (Model.nestedFolders.mapper 19)
  frontier := Model.nestedFolders.frontier
  options := {}
  palette := .standard
  coloring := none
  selected := ∅
  drag := none

theorem mapper_nestedFolders :
    nestedFolders.mapper = ⟨.ofSizes [16, 1, 1, 1], (19 : UInt32).toNat⟩ := rfl

theorem boxes_nestedFolders : nestedFolders.boxes =
    (Directories.ofPaths ["g/pp/c/x", "g/pp/y", "g/z", "w"]).boxes nestedFolders.mapper := by
  have hdirectories : Model.nestedFolders.directories =
      .ofPaths ["g/pp/c/x", "g/pp/y", "g/z", "w"] := rfl
  rw [nestedFolders, hdirectories]

theorem labelFates_nestedFolders : nestedFolders.labelFates =
    [(⟨"c", 0, 16, ⟨0, 1⟩, some 1⟩, .drawn (.ofCorners ⟨1, 1⟩ ⟨10, 14⟩)),
      (⟨"pp", 0, 17, ⟨0, 2⟩, some 2⟩, .suppressed),
      (⟨"g", 0, 18, ⟨0, 3⟩, none⟩, .drawn (.ofCorners ⟨1, 1⟩ ⟨10, 14⟩))] := by
  cbv

theorem labels_overlap_iff_nestedFolders :
    let s := nestedFolders
    let a : DirectoryBox := ⟨"g", 0, 18, ⟨0, 3⟩, none⟩
    let b : DirectoryBox := ⟨"c", 0, 16, ⟨0, 1⟩, some 1⟩
    let pill : PixelRect := .ofCorners ⟨1, 1⟩ ⟨10, 14⟩
    (s.boxes = (Directories.ofPaths ["g/pp/c/x", "g/pp/y", "g/z", "w"]).boxes
      ⟨.ofSizes [16, 1, 1, 1], (19 : UInt32).toNat⟩ ∧ a ≠ b ∧
      (a, .drawn pill) ∈ s.labelFates ∧ (b, .drawn pill) ∈ s.labelFates) ∧
    ∃ mid, (mid, .suppressed) ∈ s.labelFates ∧
      (a.files.Encloses mid.files ∧ mid.files.Encloses b.files ∨
        b.files.Encloses mid.files ∧ mid.files.Encloses a.files) := by
  intro s a b pill
  have hne : a ≠ b := by decide
  have ha : (a, .drawn pill) ∈ s.labelFates := labelFates_nestedFolders ▸ by decide
  have hb : (b, .drawn pill) ∈ s.labelFates := labelFates_nestedFolders ▸ by decide
  have hoverlap := labels_overlap_iff ["g/pp/c/x", "g/pp/y", "g/z", "w"] [16, 1, 1, 1] 19 s
    (mapper_nestedFolders ▸ boxes_nestedFolders) a b pill pill hne ha hb
  exact ⟨⟨mapper_nestedFolders ▸ boxes_nestedFolders, hne, ha, hb⟩, hoverlap.1 ⟨⟨1, 1⟩, by decide⟩⟩

/-- The label of the innermost folder is drawn over that of the outermost. -/
theorem labels_overlap_drawn :
    let s := nestedFolders
    s.options.directoryBoxes ∧ s.options.labels ∧
      s.boxes = (Directories.ofPaths ["g/pp/c/x", "g/pp/y", "g/z", "w"]).boxes
        ⟨.ofSizes [16, 1, 1, 1], (19 : UInt32).toNat⟩ ∧
      ∃ a b p r, a ≠ b ∧ (a, .drawn p) ∈ s.labelFates ∧ (b, .drawn r) ∈ s.labelFates ∧
        ∃ q, p.contains q ∧ r.contains q := by
  intro s
  refine ⟨rfl, rfl, mapper_nestedFolders ▸ boxes_nestedFolders, ⟨"g", 0, 18, ⟨0, 3⟩, none⟩,
    ⟨"c", 0, 16, ⟨0, 1⟩, some 1⟩, .ofCorners ⟨1, 1⟩ ⟨10, 14⟩, .ofCorners ⟨1, 1⟩ ⟨10, 14⟩,
    by decide, ?_, ?_, ⟨5, 5⟩, by decide⟩
  · exact labelFates_nestedFolders ▸ by decide
  · exact labelFates_nestedFolders ▸ by decide

end Scene
end ClonePlot
