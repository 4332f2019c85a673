import ClonePlot.Proofs.Mapper
import ClonePlot.Proofs.View.Selected

/-! # Clicks and probes

A click asks which boxes contain a pixel, a probe which file it shows. A box reaches from the
pixel of its first offset to that of the first offset after it, so it contains the pixels whose
last offset it holds; a probe goes by the first. The two agree unless exactly one end of the box
falls inside the block of the pixel.
-/
namespace ClonePlot

/-- On the diagonal a click finds a box exactly if there is one around the pixel. -/
theorem exists_boxAt?_iff {boxes : List DirectoryBox} {p : Int} :
    (∃ b, boxAt? boxes ⟨p, p⟩ = some b) ↔ ∃ b ∈ boxes, b.containsPixel p := by
  rw [← Option.ne_none_iff_exists', ne_eq, boxAt?_eq_none_iff]
  simp [DirectoryBox.Contains]

theorem containsPixel_of_boxAt? {boxes : List DirectoryBox} {p : Int} {b : DirectoryBox}
    (h : boxAt? boxes ⟨p, p⟩ = some b) : b.containsPixel p := (contains_of_boxAt? h).1

namespace Mapper

variable {m : Mapper} {p : Int}

/-- File `i` starts in the block of a pixel, but not with it. -/
def Splits (m : Mapper) (p : Int) (i : Nat) : Prop :=
  p * m.zoom < m.layout.start i ∧ (m.layout.start i : Int) < (p + 1) * m.zoom

instance (m : Mapper) (p : Int) (i : Nat) : Decidable (m.Splits p i) :=
  inferInstanceAs (Decidable (_ ∧ _))

theorem startPixel_le_iff (hdraw : m.drawSize < UInt32.size) {i : Nat} :
    m.startPixel i ≤ p ↔ (m.layout.start i : Int) < (p + 1) * m.zoom := by
  have hzoom : (0 : Int) < m.zoom := Int.natCast_pos.mpr m.zoom_pos
  rw [startPixel, pixel_eq_div hdraw (m.layout.start_le_total i), Int.natCast_ediv,
    ← Int.lt_add_one_iff, Int.ediv_lt_iff_lt_mul hzoom]

theorem lt_startPixel_iff (hdraw : m.drawSize < UInt32.size) {i : Nat} :
    p < m.startPixel i ↔ (p + 1) * m.zoom ≤ m.layout.start i := by
  rw [← Int.not_le, startPixel_le_iff hdraw, Int.not_lt]

/-- A probe names a file of a block exactly if the first offset of the pixel lies in the block. -/
theorem exists_file?_mem_iff {b : FileBlock} :
    (∃ i ∈ b, m.file? p false = some i) ↔
      m.layout.start b.start ≤ p * m.zoom ∧ p * m.zoom < m.layout.start b.stop := by
  constructor
  · rintro ⟨i, hi, hfile⟩
    obtain ⟨place, hplace, rfl⟩ := Option.map_eq_some_iff.mp hfile
    obtain ⟨-, hlow, hhigh⟩ := isSome_position?_false.mp (Option.isSome_of_eq_some hplace)
    obtain ⟨o, ho⟩ := Int.eq_ofNat_of_zero_le hlow
    obtain ⟨place', hplace', hinside, -⟩ := exists_position? ho (by omega) false
    cases hplace.symm.trans hplace'
    obtain ⟨-, hstart, hstop⟩ := Layout.containing_eq_some_iff.mp hinside
    have hbefore := m.layout.start_mono hi.1
    have hafter := m.layout.start_mono (Nat.add_one_le_iff.mpr hi.2)
    omega
  · rintro ⟨hstart, hstop⟩
    obtain ⟨o, ho⟩ := Int.eq_ofNat_of_zero_le ((Int.natCast_nonneg _).trans hstart)
    have htotal := m.layout.start_le_total b.stop
    obtain ⟨place, hplace, hinside, -⟩ := exists_position? ho (by omega) false
    obtain ⟨-, hlow, hhigh⟩ := Layout.containing_eq_some_iff.mp hinside
    refine ⟨place.file, ⟨Nat.not_lt.mp fun hi => ?_, Nat.not_le.mp fun hi => ?_⟩,
      congrArg (Option.map Position.file) hplace⟩
    · have hmono := m.layout.start_mono (Nat.add_one_le_iff.mpr hi)
      omega
    · have hmono := m.layout.start_mono hi
      omega

end Mapper

namespace Directories

variable {t : Directories} {m : Mapper} {b : DirectoryBox} {p : Int}

/-- A box contains a pixel exactly if it holds the last offset of the pixel's block. -/
theorem containsPixel_iff (hdraw : m.drawSize < UInt32.size) (h : b ∈ t.boxes m) :
    b.containsPixel p ↔ (m.layout.start b.files.start : Int) < (p + 1) * m.zoom ∧
      (p + 1) * m.zoom ≤ m.layout.start b.files.stop := by
  obtain ⟨hstart, hstop⟩ := edges_of_mem_boxes h
  rw [DirectoryBox.containsPixel_iff, hstart, hstop, Mapper.startPixel_le_iff hdraw,
    Mapper.lt_startPixel_iff hdraw]

theorem containsPixel_iff_probed_iff (hdraw : m.drawSize < UInt32.size) (h : b ∈ t.boxes m) :
    (b.containsPixel p ↔ ∃ i ∈ b.files, m.file? p false = some i) ↔
      (m.Splits p b.files.start ↔ m.Splits p b.files.stop) := by
  rw [containsPixel_iff hdraw h, Mapper.exists_file?_mem_iff]
  have hmono := m.layout.start_mono (nonempty_of_mem_boxes h).le
  have hblock : p * m.zoom < (p + 1) * m.zoom := by
    have hzoom := m.zoom_pos
    rw [Int.add_mul]
    omega
  unfold Mapper.Splits
  -- the products are opaque from here on
  generalize p * (m.zoom : Int) = first at *
  generalize (p + 1) * (m.zoom : Int) = next at *
  omega

end Directories

/-- Two files of five offsets, each in a folder of its own, two offsets to a pixel. -/
def Model.folders : Model where
  files := #[⟨0, "a/x", 5⟩, ⟨1, "b/y", 5⟩]
  pairs := []
  pairs_within _ h := absurd h List.not_mem_nil

namespace View

variable {v : View}

theorem placesAt?_diagonal {p : Int} {places : PlacePair} :
    v.placesAt? ⟨p, p⟩ = some places ↔
      v.mapper.position? p false = some places.row ∧ places.col = places.row := by
  unfold placesAt?
  cases v.mapper.position? p false with
  | none => simp
  | some place =>
    cases places
    simp only [Option.bind_eq_bind, Option.bind_some, Option.pure_def, Option.some.injEq,
      PlacePair.mk.injEq]
    constructor
    · rintro ⟨rfl, rfl⟩
      exact ⟨rfl, rfl⟩
    · rintro ⟨rfl, rfl⟩
      exact ⟨rfl, rfl⟩

def foldersView : View := (View.ofSettings { baseSize := 5 }).updateModel .folders none

theorem placed_foldersView : foldersView.Placed := (current_updateModel _ .folders none).placed

theorem mapper_foldersView : foldersView.mapper = Model.folders.mapper (5 : UInt32).toNat :=
  placed_foldersView.mapper

theorem boxes_foldersView :
    foldersView.boxes = [⟨"a", 0, 2, ⟨0, 1⟩, none⟩, ⟨"b", 2, 5, ⟨1, 2⟩, none⟩] := by
  refine placed_foldersView.boxes.trans ?_
  cbv

/-- A box contains a pixel exactly if the pixel shows one of its files, unless exactly one of its
ends falls inside the block of the pixel. Where this happens to no box, a click selects the file
that the pixel shows, if any box holds that file, and nothing otherwise. -/
theorem click_meets_probe (model : Model) (drawSize : UInt32) {v : View}
    (hmapper : v.mapper = model.mapper drawSize.toNat)
    (hboxes : v.boxes = model.directories.boxes v.mapper) (p : Int) :
    (∀ b ∈ v.boxes, (b.containsPixel p ↔ ∃ i ∈ b.files, v.mapper.file? p false = some i) ↔
      (v.mapper.Splits p b.files.start ↔ v.mapper.Splits p b.files.stop)) ∧
    ((∀ b ∈ v.boxes, v.mapper.Splits p b.files.start ↔ v.mapper.Splits p b.files.stop) →
      (∀ b, boxAt? v.boxes ⟨p, p⟩ = some b →
        ∃ places, v.placesAt? ⟨p, p⟩ = some places ∧ places.row.file ∈ b.files) ∧
      ∀ places, v.placesAt? ⟨p, p⟩ = some places → ∀ b ∈ v.boxes, places.row.file ∈ b.files →
        b.containsPixel p ∧ places.row.file ∈ (v.click ⟨p, p⟩).selection.files) := by
  have hdraw : v.mapper.drawSize < UInt32.size := by
    rw [hmapper]
    exact drawSize.toNat_lt_size
  have hiff : ∀ b ∈ v.boxes, (b.containsPixel p ↔ ∃ i ∈ b.files, v.mapper.file? p false = some i) ↔
      (v.mapper.Splits p b.files.start ↔ v.mapper.Splits p b.files.stop) :=
    fun b hb => Directories.containsPixel_iff_probed_iff hdraw (hboxes ▸ hb)
  refine ⟨hiff, fun hwhole => ?_⟩
  have hmeet : ∀ b ∈ v.boxes, b.containsPixel p ↔ ∃ i ∈ b.files, v.mapper.file? p false = some i :=
    fun b hb => (hiff b hb).mpr (hwhole b hb)
  have hclicked : ∀ b, boxAt? v.boxes ⟨p, p⟩ = some b →
      ∃ i ∈ b.files, v.mapper.file? p false = some i :=
    fun b hb => (hmeet b (mem_of_boxAt? hb)).mp (containsPixel_of_boxAt? hb)
  constructor
  · intro b hb
    obtain ⟨i, hi, hfile⟩ := hclicked b hb
    obtain ⟨place, hplace, rfl⟩ := Option.map_eq_some_iff.mp hfile
    exact ⟨⟨place, place⟩, placesAt?_diagonal.mpr ⟨hplace, rfl⟩, hi⟩
  · intro places hplaces b hb hfile
    have hshown : v.mapper.file? p false = some places.row.file :=
      congrArg (Option.map Position.file) (placesAt?_diagonal.mp hplaces).1
    have hcontains : b.containsPixel p := (hmeet b hb).mpr ⟨_, hfile, hshown⟩
    -- the click may select a smaller box, which shows the same file
    obtain ⟨inner, hinner⟩ := exists_boxAt?_iff.mpr ⟨b, hb, hcontains⟩
    obtain ⟨i, hi, hshown'⟩ := hclicked inner hinner
    cases hshown.symm.trans hshown'
    exact ⟨hcontains, mem_files_click.mpr ⟨inner, hinner, hi⟩⟩

/-- Pixel 3 starts inside the second file, whose folder it selects. -/
theorem click_meets_probe_folders :
    ∃ places, foldersView.placesAt? ⟨3, 3⟩ = some places ∧ places.row.file = 1 ∧
      places.row.file ∈ (foldersView.click ⟨3, 3⟩).selection.files := by
  have hwhole : ∀ b ∈ foldersView.boxes,
      foldersView.mapper.Splits 3 b.files.start ↔ foldersView.mapper.Splits 3 b.files.stop := by
    rw [boxes_foldersView, mapper_foldersView]
    decide
  have hshown : foldersView.placesAt? ⟨3, 3⟩ = some ⟨⟨1, 1⟩, ⟨1, 1⟩⟩ := by
    rw [placesAt?_diagonal, mapper_foldersView]
    decide
  have hlisted : ⟨"b", 2, 5, ⟨1, 2⟩, none⟩ ∈ foldersView.boxes := by
    rw [boxes_foldersView]
    decide
  obtain ⟨-, hmeet⟩ := click_meets_probe .folders 5 mapper_foldersView
    (placed_foldersView.boxes.trans (congrArg _ mapper_foldersView.symm)) 3
  have hclick := (hmeet hwhole).2 _ hshown _ hlisted ⟨le_rfl, Nat.one_lt_two⟩
  exact ⟨_, hshown, rfl, hclick.2⟩

/-- The block of pixel 2 holds the last offset of the first file and the first of the second: it
shows the first file, and lies in the folder of the second. -/
theorem click_beside_probe :
    (∃ b ∈ foldersView.boxes, b.containsPixel 2 ∧
      ¬∃ i ∈ b.files, foldersView.mapper.file? 2 false = some i) ∧
    foldersView.placesAt? ⟨2, 2⟩ = some ⟨⟨0, 4⟩, ⟨0, 4⟩⟩ ∧
    1 ∈ (foldersView.click ⟨2, 2⟩).selection.files ∧
    0 ∉ (foldersView.click ⟨2, 2⟩).selection.files := by
  have hfile : foldersView.mapper.file? 2 false = some 0 := by
    rw [mapper_foldersView]
    decide
  have hbox : boxAt? foldersView.boxes ⟨2, 2⟩ = some ⟨"b", 2, 5, ⟨1, 2⟩, none⟩ := by
    rw [boxes_foldersView]
    decide
  refine ⟨⟨_, mem_of_boxAt? hbox, containsPixel_of_boxAt? hbox, ?_⟩, ?_, ?_, ?_⟩
  · rintro ⟨i, hi, hshown⟩
    cases hfile.symm.trans hshown
    exact absurd hi.1 (by decide)
  · rw [placesAt?_diagonal, mapper_foldersView]
    decide
  · exact mem_files_click.mpr ⟨_, hbox, le_rfl, Nat.one_lt_two⟩
  · intro hselected
    obtain ⟨b, hb, hfirst⟩ := mem_files_click.mp hselected
    cases hbox.symm.trans hb
    exact absurd hfirst.1 (by decide)

end View
end ClonePlot
