import ClonePlot.Gesture
import ClonePlot.Proofs.Directory.Box
import ClonePlot.Proofs.Mapper
import ClonePlot.Proofs.Model.Rows
import ClonePlot.Proofs.Scene.Marker

/-! # Gestures select what exists

Whatever point or rectangle a gesture names, the files it selects are files of the corpus and
the clones it selects are among the pairs of the model.
-/
namespace ClonePlot

theorem Directories.stop_le_of_mem_boxes {t : Directories} {m : Mapper} {b : DirectoryBox}
    (h : b ∈ t.boxes m) : b.files.stop ≤ t.fileCount := by
  obtain ⟨d, -, hrun⟩ := isRun_of_mem_boxes h
  exact hrun.stop_le

theorem mem_of_smallestBox? {boxes : List DirectoryBox} {b : DirectoryBox}
    (h : smallestBox? boxes = some b) : b ∈ boxes := by
  induction boxes generalizing b with
  | nil => cases h
  | cons first rest ih =>
    unfold smallestBox? at h
    cases hrest : smallestBox? rest with
    | none =>
      rw [hrest] at h
      cases h
      exact List.mem_cons_self
    | some inner =>
      rw [hrest] at h
      dsimp only at h
      split at h
      · cases h
        exact List.mem_cons_of_mem _ (ih hrest)
      · cases h
        exact List.mem_cons_self

theorem mem_of_boxAt? {boxes : List DirectoryBox} {p : Point} {b : DirectoryBox}
    (h : boxAt? boxes p = some b) : b ∈ boxes :=
  (List.mem_filter.mp (mem_of_smallestBox? h)).1

theorem smallestBox?_eq_none_iff {boxes : List DirectoryBox} :
    smallestBox? boxes = none ↔ boxes = [] := by
  cases boxes with
  | nil => exact ⟨fun _ => rfl, fun _ => rfl⟩
  | cons b rest =>
    refine ⟨fun h => ?_, fun h => absurd h (List.cons_ne_nil b rest)⟩
    unfold smallestBox? at h
    split at h
    · cases h
    · split at h <;> cases h

namespace DirectoryBox

theorem containsPixel_iff {b : DirectoryBox} {x : Int} :
    b.containsPixel x ↔ b.startPixel ≤ x ∧ x < b.stopPixel := by
  rw [containsPixel, Bool.and_eq_true, decide_eq_true_eq, decide_eq_true_eq]

def Contains (b : DirectoryBox) (p : Point) : Prop := b.containsPixel p.x ∧ b.containsPixel p.y

instance (b : DirectoryBox) (p : Point) : Decidable (b.Contains p) :=
  inferInstanceAs (Decidable (_ ∧ _))

end DirectoryBox

theorem boxAt?_eq (boxes : List DirectoryBox) (p : Point) :
    boxAt? boxes p = smallestBox? (boxes.filter (·.Contains p)) := by
  unfold boxAt?
  refine congrArg _ (List.filter_congr fun b _ => ?_)
  rw [Bool.eq_iff_iff, Bool.and_eq_true, decide_eq_true_eq, DirectoryBox.Contains]
  rcases Int.le_total p.x p.y with hle | hle
  · rw [min_eq_left hle, max_eq_right hle]
  · rw [min_eq_right hle, max_eq_left hle]
    exact and_comm

variable {boxes : List DirectoryBox} {b : DirectoryBox} {p : Point}

theorem contains_of_boxAt? (h : boxAt? boxes p = some b) : b.Contains p := by
  rw [boxAt?_eq] at h
  exact of_decide_eq_true (List.mem_filter.mp (mem_of_smallestBox? h)).2

theorem boxAt?_eq_none_iff : boxAt? boxes p = none ↔ ∀ b ∈ boxes, ¬b.Contains p := by
  rw [boxAt?_eq, smallestBox?_eq_none_iff, List.filter_eq_nil_iff]
  simp only [decide_eq_true_eq]

instance : Membership Nat FileRange := ⟨fun r i => r.first ≤ i ∧ i ≤ r.last⟩

namespace FileRange

theorem mem_iff {r : FileRange} {i : Nat} : i ∈ r ↔ r.first ≤ i ∧ i ≤ r.last := Iff.rfl

/-- Merging adds no file, as ranges that touch leave none out between them. -/
theorem exists_mem_merge_iff {a b : FileRange} {i : Nat} :
    (∃ r ∈ a.merge b, i ∈ r) ↔ i ∈ a ∨ i ∈ b := by
  unfold merge
  split
  · rename_i htouch
    simp only [touches, Bool.and_eq_true, decide_eq_true_eq] at htouch
    simp only [List.mem_singleton, exists_eq_left, mem_iff]
    omega
  · simp only [List.mem_cons, List.not_mem_nil, or_false, exists_eq_or_imp, exists_eq_left]

end FileRange

namespace PixelRect

/-- The width fits, and so does the height if it is asked for. -/
def Measured (r : PixelRect) : Prop :=
  r.x1 - r.x0 < Int64.maxValue.toInt ∧ (r.x0 < r.x1 ∨ r.y1 - r.y0 < Int64.maxValue.toInt)

instance (r : PixelRect) : Decidable r.Measured := inferInstanceAs (Decidable (_ ∧ _))

end PixelRect

namespace DragSelection

def InRows (d : DragSelection) (i : Nat) : Prop := ∃ rows ∈ d.rows, i ∈ rows

def InCols (d : DragSelection) (i : Nat) : Prop := ∃ cols ∈ d.cols, i ∈ cols

theorem singleCell?_eq_some_iff {d : DragSelection} {cell : Nat × Nat} :
    d.singleCell? = some cell ↔
      d.rows = some ⟨cell.1, cell.1⟩ ∧ d.cols = some ⟨cell.2, cell.2⟩ := by
  simp only [singleCell?, Option.bind_eq_bind, Option.bind_eq_some_iff,
    Option.ite_none_right_eq_some, Option.some.injEq]
  constructor
  · rintro ⟨⟨row, last⟩, hrows, ⟨col, last'⟩, hcols, ⟨hrow, hcol⟩, rfl⟩
    dsimp only at hrow hcol
    subst hrow hcol
    exact ⟨hrows, hcols⟩
  · rintro ⟨hrows, hcols⟩
    exact ⟨_, hrows, _, hcols, ⟨rfl, rfl⟩, rfl⟩

end DragSelection

namespace Mapper

variable {m : Mapper} {r : PixelRect} {d : DragSelection} {low high : Int} {side : FileRange}
  {i : Nat}

theorem axisFiles?_eq_some_iff : m.axisFiles? low high = some side ↔
    0 ≤ high ∧ (m.position? (max low 0) false).isSome ∧
      m.file? (max low 0) true = some side.first ∧
      ∃ last, m.file? high true = some last ∧ side.last = max last side.first := by
  unfold axisFiles?
  split
  · rename_i hneg
    exact iff_of_false nofun fun h => absurd h.1 (Int.not_le.mpr hneg)
  · rename_i hhigh
    simp only [Option.bind_eq_bind, Option.bind_eq_some_iff, Option.pure_def, Option.some.injEq,
      Option.isSome_iff_exists]
    constructor
    · rintro ⟨place, hplace, first, hfirst, last, hlast, rfl⟩
      exact ⟨Int.not_lt.mp hhigh, ⟨place, hplace⟩, hfirst, last, hlast, rfl⟩
    · rintro ⟨-, ⟨place, hplace⟩, hfirst, last, hlast, hmax⟩
      exact ⟨place, hplace, side.first, hfirst, last, hlast, by rw [← hmax]⟩

theorem lt_fileCount_of_axisFiles? (h : m.axisFiles? low high = some side) :
    side.first < m.layout.fileCount ∧ side.last < m.layout.fileCount := by
  obtain ⟨-, -, hfirst, last, hlast, hmax⟩ := axisFiles?_eq_some_iff.mp h
  have hfirst := lt_fileCount_of_file? hfirst
  have hlast := lt_fileCount_of_file? hlast
  exact ⟨hfirst, hmax ▸ Nat.max_lt.mpr ⟨hlast, hfirst⟩⟩

theorem mem_selectedFiles {rows cols : Option FileRange} :
    i ∈ selectedFiles rows cols ↔ (∃ r ∈ rows, i ∈ r) ∨ ∃ r ∈ cols, i ∈ r := by
  cases rows with
  | none =>
    cases cols with
    | none => simp [selectedFiles]
    | some cols => simp [selectedFiles, FileRange.mem_toList, FileRange.mem_iff]
  | some rows =>
    cases cols with
    | none => simp [selectedFiles, FileRange.mem_toList, FileRange.mem_iff]
    | some cols =>
      have hmerge := FileRange.exists_mem_merge_iff (a := rows) (b := cols) (i := i)
      simpa [selectedFiles, FileRange.mem_toList, FileRange.mem_iff] using hmerge

/-- Tiny is a single pixel. -/
theorem isTiny_eq_ok_iff {tiny : Bool} : isTiny r = .ok tiny ↔
    r.Measured ∧ (tiny = true ↔ r.x0 = r.x1 ∧ r.y0 = r.y1) := by
  have hx := r.x_le
  have hy := r.y_le
  unfold isTiny PixelRect.Measured
  rw [bind_eq_ok_iff]
  constructor
  · rintro ⟨width, hwidth, h⟩
    obtain ⟨rfl, hwidth⟩ := PixelRect.width_eq_ok_iff.mp hwidth
    unfold tinyDrag at h
    split at h
    · obtain ⟨height, hheight, h⟩ := bind_eq_ok_iff.mp h
      obtain ⟨rfl, hheight⟩ := PixelRect.height_eq_ok_iff.mp hheight
      cases h
      rw [decide_eq_true_eq]
      omega
    · cases h
      rw [Bool.false_eq_true, false_iff]
      omega
  · rintro ⟨⟨hwidth, hheight⟩, htiny⟩
    refine ⟨_, PixelRect.width_eq_ok_iff.mpr ⟨rfl, by omega⟩, ?_⟩
    unfold tinyDrag
    split
    · refine bind_eq_ok_iff.mpr ⟨_, PixelRect.height_eq_ok_iff.mpr ⟨rfl, by omega⟩, ?_⟩
      refine congrArg Except.ok ?_
      rw [Bool.eq_iff_iff, htiny, decide_eq_true_eq]
      omega
    · refine congrArg Except.ok ?_
      rw [Bool.eq_iff_iff, htiny, Bool.false_eq_true, false_iff]
      omega

/-- A rectangle selects something unless it is a pixel that hits nothing. -/
theorem dragSelection_eq_ok_iff : m.dragSelection r = .ok d ↔ r.Measured ∧
    d = if (r.x0 = r.x1 ∧ r.y0 = r.y1) ∧ m.hits r = false then {} else m.sideFiles r := by
  unfold dragSelection
  rw [bind_eq_ok_iff]
  constructor
  · rintro ⟨tiny, htiny, h⟩
    obtain ⟨hmeasured, htiny⟩ := isTiny_eq_ok_iff.mp htiny
    refine ⟨hmeasured, ?_⟩
    simp only [Bool.and_eq_true, Bool.not_eq_true', htiny] at h
    split at h <;> cases h <;> rename_i hmiss
    · rw [if_pos hmiss]
    · rw [if_neg hmiss]
  · rintro ⟨hmeasured, rfl⟩
    refine ⟨decide (r.x0 = r.x1 ∧ r.y0 = r.y1),
      isTiny_eq_ok_iff.mpr ⟨hmeasured, decide_eq_true_iff⟩, ?_⟩
    simp only [Bool.and_eq_true, Bool.not_eq_true', decide_eq_true_eq]
    split <;> rfl

theorem dragSelection_eq_sideFiles (hmeasured : r.Measured)
    (hhits : r.x0 = r.x1 ∧ r.y0 = r.y1 → m.hits r) : m.dragSelection r = .ok (m.sideFiles r) := by
  refine dragSelection_eq_ok_iff.mpr ⟨hmeasured, (if_neg fun h => ?_).symm⟩
  exact absurd (hhits h.1) (by rw [h.2]; exact Bool.false_ne_true)

theorem exists_dragSelection_iff : (∃ d, m.dragSelection r = .ok d) ↔ r.Measured := by
  simp only [dragSelection_eq_ok_iff, exists_and_left, exists_eq, and_true]

theorem eq_of_dragSelection (h : m.dragSelection r = .ok d) : d = {} ∨ d = m.sideFiles r := by
  rw [(dragSelection_eq_ok_iff.mp h).2]
  split
  · exact .inl rfl
  · exact .inr rfl

theorem mem_files_of_dragSelection (h : m.dragSelection r = .ok d) :
    i ∈ d.files ↔ d.InRows i ∨ d.InCols i := by
  obtain rfl | rfl := eq_of_dragSelection h
  · simp [DragSelection.InRows, DragSelection.InCols]
  · exact mem_selectedFiles

theorem axisFiles?_of_mem_rows (h : m.dragSelection r = .ok d) (hside : side ∈ d.rows) :
    m.axisFiles? r.y0 r.y1 = some side := by
  obtain rfl | rfl := eq_of_dragSelection h
  · cases hside
  · exact hside

theorem axisFiles?_of_mem_cols (h : m.dragSelection r = .ok d) (hside : side ∈ d.cols) :
    m.axisFiles? r.x0 r.x1 = some side := by
  obtain rfl | rfl := eq_of_dragSelection h
  · cases hside
  · exact hside

theorem lt_fileCount_of_dragSelection (h : m.dragSelection r = .ok d) (hi : i ∈ d.files) :
    i < m.layout.fileCount := by
  rcases (mem_files_of_dragSelection h).mp hi with ⟨side, hside, hi⟩ | ⟨side, hside, hi⟩
  · exact hi.2.trans_lt (lt_fileCount_of_axisFiles? (axisFiles?_of_mem_rows h hside)).2
  · exact hi.2.trans_lt (lt_fileCount_of_axisFiles? (axisFiles?_of_mem_cols h hside)).2

theorem mem_files_of_singleCell? (h : m.dragSelection r = .ok d) {cell : Nat × Nat}
    (hcell : d.singleCell? = some cell) (i : Nat) : i ∈ d.files ↔ i = cell.1 ∨ i = cell.2 := by
  obtain ⟨hrows, hcols⟩ := DragSelection.singleCell?_eq_some_iff.mp hcell
  rw [mem_files_of_dragSelection h, DragSelection.InRows, DragSelection.InCols, hrows, hcols]
  simp only [Option.mem_def, Option.some.injEq, exists_eq_left', FileRange.mem_iff]
  omega

theorem checkPair_eq_ok_iff {p : ClonePair} : m.checkPair p = .ok () ↔ m.PairFits p := by
  rw [checkPair, bind_eq_ok_iff]
  constructor
  · rintro ⟨_, hstart, hstop⟩
    obtain ⟨hright, hleft⟩ := checkStart_eq_ok_iff.mp hstart
    obtain ⟨hright', hleft'⟩ := checkStop_eq_ok_iff.mp hstop
    exact ⟨⟨hleft, hleft'⟩, hright, hright'⟩
  · rintro ⟨⟨hleft, hleft'⟩, hright, hright'⟩
    exact ⟨(), checkStart_eq_ok_iff.mpr ⟨hright, hleft⟩, checkStop_eq_ok_iff.mpr ⟨hright', hleft'⟩⟩

theorem eq_add_of_checkPair {p : ClonePair} {e : Overflow} (h : m.checkPair p = .error e) :
    e = .add := by
  rw [checkPair, bind_eq_error_iff] at h
  rcases h with h | ⟨_, -, h⟩
  · exact eq_add_of_checkStart h
  · exact eq_add_of_checkStop h

theorem mem_clonesIn {model : Model} {clones : List ClonePair} {p : ClonePair}
    (h : m.clonesIn model r d = .ok clones) : p ∈ clones ↔ ∃ rows cols, d.rows = some rows ∧
      d.cols = some cols ∧ p ∈ model.row rows.first ∧ p.right.file = cols.first ∧
      (m.pairBounds p).intersects r := by
  unfold clonesIn at h
  cases hrows : d.rows with
  | none =>
    rw [hrows] at h
    cases h
    simp
  | some rows =>
    cases hcols : d.cols with
    | none =>
      rw [hrows, hcols] at h
      cases h
      simp
    | some cols =>
      rw [hrows, hcols] at h
      obtain ⟨_, -, hclones⟩ := bind_eq_ok_iff.mp h
      cases hclones
      have hcol : cols.first ≤ p.right.file ∧ p.right.file < cols.first + 1 ↔
          p.right.file = cols.first := by omega
      simp only [Model.rowRange, List.mem_filter, Bool.and_eq_true, decide_eq_true_eq, hcol,
        Option.some.injEq, and_assoc]
      constructor
      · exact fun h => ⟨rows, cols, rfl, rfl, h⟩
      · rintro ⟨_, _, rfl, rfl, h⟩
        exact h

theorem mem_views_of_mem_clonesIn {model : Model} {clones : List ClonePair} {p : ClonePair}
    (h : m.clonesIn model r d = .ok clones) (hp : p ∈ clones) : p ∈ model.views := by
  obtain ⟨rows, _, _, _, hrow, _⟩ := (mem_clonesIn h).mp hp
  exact Model.mem_views.mpr ⟨rows.first, hrow⟩

/-- Where the sums of all pairs fit, no clone stops the search. -/
theorem exists_clonesIn {model : Model} (hfits : ∀ p ∈ model.views, m.PairFits p) (r : PixelRect)
    (d : DragSelection) : ∃ clones, m.clonesIn model r d = .ok clones := by
  unfold clonesIn
  split
  · rename_i rows cols _ _
    refine ⟨_, bind_eq_ok_iff.mpr ⟨(), forM_eq_ok_iff.mpr fun p hp => ?_, rfl⟩⟩
    have hrow : p ∈ model.row rows.first := List.mem_of_mem_filter hp
    exact checkPair_eq_ok_iff.mpr (hfits p (Model.mem_views.mpr ⟨_, hrow⟩))
  · exact ⟨[], rfl⟩

end Mapper
end ClonePlot
