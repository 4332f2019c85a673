import ClonePlot.Proofs.Gesture.Region
import ClonePlot.Proofs.View.Freshness

/-! # What views select and take over

A gesture selects files and classes of the model. A receiver of the same model therefore takes
over what it is told without loss, one part of its selection at a time: files replace files,
classes replace classes, and a region repeats its two files.
-/
namespace ClonePlot

namespace IndexSet

@[simp] theorem ofList_toList (s : IndexSet) : ofList s.toList = s :=
  ext_mem fun _ => mem_ofList

theorem isEmpty_iff (s : IndexSet) : s.isEmpty ↔ s = ∅ := by
  rw [isEmpty, List.isEmpty_iff]
  exact ⟨fun h => ext_toList h, fun h => h ▸ rfl⟩

theorem filter_eq_self {s : IndexSet} {keep : Nat → Bool} (h : ∀ i ∈ s, keep i) :
    s.filter keep = s := ext_toList (List.filter_eq_self.mpr h)

end IndexSet

/-- The selected files and classes are files and classes of the model. -/
structure Selection.Inside (s : Selection) (m : Model) : Prop where
  files : ∀ i ∈ s.files, i < m.fileCount
  classes : ∀ k ∈ s.classes, k ∈ m.classes

theorem Selection.isEmpty_iff {s : Selection} : s.isEmpty ↔ s.files = ∅ ∧ s.classes = ∅ := by
  rw [isEmpty, Bool.and_eq_true, IndexSet.isEmpty_iff, IndexSet.isEmpty_iff]

theorem Selection.Inside.of_isEmpty {s : Selection} (h : s.isEmpty) (m : Model) : s.Inside m := by
  rw [isEmpty_iff] at h
  refine ⟨fun i hi => ?_, fun k hk => ?_⟩
  · rw [h.1] at hi
    exact absurd hi (IndexSet.not_mem_empty i)
  · rw [h.2] at hk
    exact absurd hk (IndexSet.not_mem_empty k)

namespace Model

theorem fileCount_mapper (m : Model) (size : Nat) :
    (m.mapper size).layout.fileCount = m.fileCount := by
  rw [Layout.fileCount_eq]
  simp [Model.mapper, Layout.ofSizes, Model.sizes, Model.fileCount]

theorem fileCount_directories (m : Model) : m.directories.fileCount = m.fileCount := by
  simp [Model.directories, Directories.ofPaths, Directories.fileCount, Model.fileCount]

end Model

namespace View

variable {v : View}

theorem mem_files_click {p : Point} {i : Nat} :
    i ∈ (v.click p).selection.files ↔ ∃ b, boxAt? v.boxes p = some b ∧ i ∈ b.files := by
  have hclick : i ∈ (v.click p).selection.files ↔
      i ∈ (boxAt? v.boxes p).elim [] fun b => List.range' b.files.start b.files.size :=
    IndexSet.mem_ofList
  rw [hclick]
  cases boxAt? v.boxes p with
  | none => simp
  | some b =>
    simp only [Option.elim_some, List.mem_range'_1, Option.some.injEq, exists_eq_left',
      FileBlock.mem_iff, FileBlock.size]
    omega

theorem inside_click (h : v.Placed) (p : Point) : (v.click p).selection.Inside v.model := by
  refine ⟨fun i hi => ?_, fun k hk => absurd hk (IndexSet.not_mem_empty k)⟩
  obtain ⟨b, hbox, hi⟩ := mem_files_click.mp hi
  have hb := mem_of_boxAt? hbox
  rw [h.boxes] at hb
  have hstop := Directories.stop_le_of_mem_boxes hb
  rw [Model.fileCount_directories] at hstop
  exact hi.2.trans_le hstop

section
variable {r : PixelRect} {d : DragSelection} {after : View}

theorem model_of_selectRect (h : v.selectRect r = .ok (d, after)) : after.model = v.model := by
  obtain ⟨-, _, -, rfl⟩ := selectRect_eq_ok_iff.mp h
  rfl

theorem mapper_of_selectRect (h : v.selectRect r = .ok (d, after)) : after.mapper = v.mapper := by
  obtain ⟨-, _, -, rfl⟩ := selectRect_eq_ok_iff.mp h
  rfl

theorem files_of_selectRect (h : v.selectRect r = .ok (d, after)) :
    after.selection.files = d.files := by
  obtain ⟨-, clones, -, rfl⟩ := selectRect_eq_ok_iff.mp h
  exact IndexSet.ofList_toList _

theorem mem_classes_of_selectRect (h : v.selectRect r = .ok (d, after)) {p : ClonePair}
    (hp : p ∈ after.selection.pairs) : p.classId ∈ after.selection.classes := by
  obtain ⟨-, clones, -, rfl⟩ := selectRect_eq_ok_iff.mp h
  exact IndexSet.mem_ofList.mpr (List.mem_map_of_mem hp)

theorem inside_of_selectRect (hv : v.Placed) (h : v.selectRect r = .ok (d, after)) :
    after.selection.Inside v.model := by
  refine ⟨fun i hi => ?_, fun k hk => ?_⟩
  · rw [files_of_selectRect h] at hi
    have hd := (selectRect_eq_ok_iff.mp h).1
    rw [hv.mapper] at hd
    exact Model.fileCount_mapper v.model v.drawSize ▸ Mapper.lt_fileCount_of_dragSelection hd hi
  · obtain ⟨-, clones, hclones, rfl⟩ := selectRect_eq_ok_iff.mp h
    obtain ⟨p, hp, hclass⟩ := List.mem_map.mp (IndexSet.mem_ofList.mp hk)
    exact IndexSet.mem_ofList.mpr
      (List.mem_map.mpr ⟨p, Mapper.mem_views_of_mem_clonesIn hclones hp, hclass⟩)

theorem Placed.dropDrag (h : v.Placed) : v.dropDrag.Placed :=
  ⟨h.known, h.mapper, h.directories, h.boxes, h.frontier⟩

/-- The rectangle of all pixels of a file selects the clone between its halves. -/
theorem selectRect_halves (hmodel : v.model = .halves) (hmapper : v.mapper = Model.halves.mapper 8)
    (hr : r = .ofCorners ⟨0, 0⟩ ⟨7, 7⟩) : ∃ d after, v.selectRect r = .ok (d, after) ∧
      ⟨7, ⟨0, 0, 4⟩, ⟨0, 4, 8⟩⟩ ∈ after.selection.pairs := by
  subst hr
  have hsum : Model.halves.sizes.sum < UInt64.size := by decide
  have hd := Mapper.dragSelection_eq_sideFiles (m := Model.halves.mapper 8)
    (r := .ofCorners ⟨0, 0⟩ ⟨7, 7⟩) (by decide) (by decide)
  obtain ⟨clones, hclones⟩ := Mapper.exists_clonesIn (m := Model.halves.mapper 8)
    (Mapper.pairFits_of_mem_views hsum) (.ofCorners ⟨0, 0⟩ ⟨7, 7⟩) _
  refine ⟨_, _, selectRect_eq_ok_iff.mpr ⟨hmapper ▸ hd, clones, ?_, rfl⟩, ?_⟩
  · rw [hmapper, hmodel]
    exact hclones
  · exact (Mapper.mem_clonesIn hclones).mpr ⟨⟨0, 0⟩, ⟨0, 0⟩, rfl, rfl,
      Model.mem_row.mpr ⟨by decide, rfl, _, List.mem_cons_self, by decide⟩, rfl, by decide⟩

end

/-- A view of a model that has selected given files and classes. -/
structure Shows (v : View) (m : Model) (files classes : IndexSet) : Prop where
  model : v.model = m
  known : v.known = m.classes
  files : v.selection.files = files
  classes : v.selection.classes = classes

variable {m : Model} {files files' classes classes' : IndexSet}

theorem Shows.receive_files (h : v.Shows m files classes) {list : List Nat}
    (hlist : IndexSet.ofList list = files') (hfiles : ∀ i ∈ files', i < m.fileCount)
    (hclasses : ∀ k ∈ classes, k ∈ m.classes) :
    (v.receive (.files list)).Shows m files' classes := by
  refine ⟨h.model, h.known, ?_, ?_⟩
  · change (IndexSet.ofList list).filter (· < v.model.fileCount) = files'
    rw [hlist, h.model]
    exact IndexSet.filter_eq_self fun i hi => decide_eq_true (hfiles i hi)
  · change v.selection.classes.filter (· ∈ v.known) = classes
    rw [h.classes, h.known]
    exact IndexSet.filter_eq_self fun k hk => decide_eq_true (hclasses k hk)

theorem Shows.receive_classes (h : v.Shows m files classes) (hfiles : ∀ i ∈ files, i < m.fileCount)
    (hclasses : ∀ k ∈ classes', k ∈ m.classes) :
    (v.receive (.classes classes'.toList)).Shows m files classes' := by
  refine ⟨h.model, h.known, ?_, ?_⟩
  · change v.selection.files.filter (· < v.model.fileCount) = files
    rw [h.files, h.model]
    exact IndexSet.filter_eq_self fun i hi => decide_eq_true (hfiles i hi)
  · change (IndexSet.ofList classes'.toList).filter (· ∈ v.known) = classes'
    rw [IndexSet.ofList_toList, h.known]
    exact IndexSet.filter_eq_self fun k hk => decide_eq_true (hclasses k hk)

/-- A region repeats what is known about the files. -/
theorem Shows.receive_region (h : v.Shows m files classes) {a b : Fragment}
    (hregion : ∀ i, i ∈ files ↔ i = a.file ∨ i = b.file) (hfiles : ∀ i ∈ files, i < m.fileCount)
    (hclasses : ∀ k ∈ classes, k ∈ m.classes) :
    (v.receive (.region a b)).Shows m files classes := by
  have hsame : IndexSet.ofList [a.file, b.file] = files := by
    refine IndexSet.ext_mem fun i => ?_
    rw [hregion, IndexSet.mem_ofList]
    simp
  exact h.receive_files hsame hfiles hclasses

/-- The classes last heard of, when there are none now. -/
def latest (heard now : IndexSet) : IndexSet := if now.isEmpty then heard else now

theorem mem_latest {heard now : IndexSet} {k : Nat} (h : k ∈ latest heard now) :
    k ∈ heard ∨ k ∈ now := by
  unfold latest at h
  split at h
  · exact .inl h
  · exact .inr h

theorem latest_eq_now (heard now : IndexSet) : now = ∅ ∨ latest heard now = now := by
  unfold latest
  split
  · rename_i hnone
    exact .inl ((IndexSet.isEmpty_iff _).mp hnone)
  · exact .inr rfl

theorem latest_eq_heard {heard now : IndexSet} (h : now = ∅ ∨ heard = now) :
    latest heard now = heard := by
  rcases h with rfl | rfl
  · rfl
  · unfold latest
    split <;> rfl

theorem latest_eq_empty_iff (heard now : IndexSet) :
    latest heard now = ∅ ↔ now = ∅ ∧ heard = ∅ := by
  unfold latest
  split
  · rename_i hnow
    simp [(now.isEmpty_iff).mp hnow]
  · rename_i hnow
    rw [IndexSet.isEmpty_iff] at hnow
    simp [hnow]

/-- What a receiver shows after a rectangle was selected elsewhere. -/
theorem Shows.hear_rect {w before view : View} (h : w.Shows m before.selection.files classes)
    (hview : view.Placed) (hm : view.model = m) (hclasses : ∀ k ∈ classes, k ∈ m.classes)
    (hagree : before.selection.classes = ∅ ∨ classes = before.selection.classes) (r : PixelRect) :
    let o := RectOutcome.of before view r
    (o.told.foldl receive w).Shows m o.view.selection.files
      (latest classes o.view.selection.classes) := by
  unfold RectOutcome.of
  cases hselect : view.selectRect r with
  | error e =>
    change w.Shows m before.selection.files (latest classes before.selection.classes)
    rw [latest_eq_heard hagree]
    exact h
  | ok selected =>
    obtain ⟨d, after⟩ := selected
    obtain ⟨hin, hin'⟩ := hm ▸ inside_of_selectRect hview hselect
    have hfiles := h.receive_files (IndexSet.ofList_toList _) hin hclasses
    have hboth : (after.rectChanges.foldl receive w).Shows m after.selection.files
        (latest classes after.selection.classes) ∧
        ∀ k ∈ latest classes after.selection.classes, k ∈ m.classes := by
      unfold rectChanges latest
      split
      · exact ⟨hfiles, hclasses⟩
      · exact ⟨hfiles.receive_classes hin hin', hin'⟩
    dsimp only
    split
    · exact hboth.1
    · rename_i region hregion
      cases region with
      | none => exact (List.append_nil _).symm ▸ hboth.1
      | some change =>
        have hd := (selectRect_eq_ok_iff.mp hselect).1
        rw [mapper_of_selectRect hselect] at hregion
        obtain ⟨cell, hcell, rfl⟩ := Option.map_eq_some_iff.mp
          ((Mapper.region?_eq_ok_iff hd).mp hregion).2.symm
        rw [List.foldl_append]
        refine hboth.1.receive_region (fun i => ?_) hin hboth.2
        rw [files_of_selectRect hselect]
        exact Mapper.mem_files_of_singleCell? hd hcell i

end View
end ClonePlot
