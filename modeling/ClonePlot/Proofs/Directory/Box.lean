import ClonePlot.Proofs.Directory.Walk
import ClonePlot.Proofs.Mapper

/-! # Boxes and the runs around them

The boxes of a file list are its runs of directories, all but the run of all files, each once. The
parent of a box is the smallest box around it.
-/
namespace ClonePlot

namespace Directories

theorem mem_map_files_boxes {t : Directories} {m : Mapper} {b : FileBlock} :
    b ∈ (t.boxes m).map (·.files) ↔ IsRun t.dirs.toList b ∧ b ≠ ⟨0, t.fileCount⟩ :=
  (t.flattened_boxes m).mem_iff b

theorem nested_boxes (t : Directories) (m : Mapper) : Nested ((t.boxes m).map (·.files)) :=
  (t.flattened_boxes m).nested

theorem isRun_of_mem_boxes {t : Directories} {m : Mapper} {b : DirectoryBox} (h : b ∈ t.boxes m) :
    IsRun t.dirs.toList b.files :=
  (mem_map_files_boxes.mp (List.mem_map_of_mem h)).1

theorem getElem?_boxes {t : Directories} {m : Mapper} {k : Nat} {box : DirectoryBox}
    (h : (t.boxes m)[k]? = some box) : ((t.boxes m).map (·.files))[k]? = some box.files ∧
      (parentsFrom 0 ((t.boxes m).map (·.files)))[k]? = some box.parent := by
  rw [← (t.flattened_boxes m).parents, List.getElem?_map, List.getElem?_map, h]
  exact ⟨rfl, rfl⟩

theorem fields_of_mem_boxes {t : Directories} {m : Mapper} {b : DirectoryBox}
    (h : b ∈ t.boxes m) : b.label = t.label b.files ∧
      b.startPixel = m.startPixel b.files.start ∧ b.stopPixel = m.startPixel b.files.stop :=
  (t.flattened_boxes m).fields b h

theorem edges_of_mem_boxes {t : Directories} {m : Mapper} {b : DirectoryBox} (h : b ∈ t.boxes m) :
    b.startPixel = m.startPixel b.files.start ∧ b.stopPixel = m.startPixel b.files.stop :=
  (fields_of_mem_boxes h).2

theorem stopPixel_le_startPixel {t : Directories} {m : Mapper} {a b : DirectoryBox}
    (hdraw : m.drawSize < UInt32.size) (ha : a ∈ t.boxes m) (hb : b ∈ t.boxes m)
    (h : a.files.stop ≤ b.files.start) : a.stopPixel ≤ b.startPixel := by
  rw [(edges_of_mem_boxes ha).2, (edges_of_mem_boxes hb).1]
  exact Mapper.startPixel_le_startPixel hdraw h

theorem pixels_of_encloses {t : Directories} {m : Mapper} {outer inner : DirectoryBox}
    (hdraw : m.drawSize < UInt32.size) (houter : outer ∈ t.boxes m) (hinner : inner ∈ t.boxes m)
    (h : outer.files.Encloses inner.files) :
    outer.startPixel ≤ inner.startPixel ∧ inner.stopPixel ≤ outer.stopPixel := by
  obtain ⟨hstart, hstop⟩ := edges_of_mem_boxes houter
  obtain ⟨hstart', hstop'⟩ := edges_of_mem_boxes hinner
  rw [hstart, hstop, hstart', hstop']
  exact ⟨Mapper.startPixel_le_startPixel hdraw h.1, Mapper.startPixel_le_startPixel hdraw h.2.1⟩

theorem nonempty_of_mem_boxes {t : Directories} {m : Mapper} {b : DirectoryBox}
    (h : b ∈ t.boxes m) : b.files.start < b.files.stop :=
  (isRun_of_mem_boxes h).nonempty

theorem apart_or_nested_of_mem_boxes {t : Directories} {m : Mapper} {a b : DirectoryBox}
    (ha : a ∈ t.boxes m) (hb : b ∈ t.boxes m) (hne : a ≠ b) :
    (a.files.stop ≤ b.files.start ∨ b.files.stop ≤ a.files.start) ∨
      a.files.Encloses b.files ∨ b.files.Encloses a.files := by
  obtain ⟨i, hi⟩ := List.getElem?_of_mem ha
  obtain ⟨j, hj⟩ := List.getElem?_of_mem hb
  have hblock := (getElem?_boxes hi).1
  have hblock' := (getElem?_boxes hj).1
  rcases Nat.lt_trichotomy i j with hij | rfl | hji
  · rcases (t.nested_boxes m).apart_or_encloses hblock hblock' hij with hapart | henclosed
    · exact .inl (.inl hapart)
    · exact .inr (.inr henclosed)
  · exact absurd (Option.some.inj (hi.symm.trans hj)) hne
  · rcases (t.nested_boxes m).apart_or_encloses hblock' hblock hji with hapart | henclosed
    · exact .inl (.inr hapart)
    · exact .inr (.inl henclosed)

/-- A box inside of another has a parent, which is the other or inside of it. -/
theorem exists_parent {t : Directories} {m : Mapper} {outer inner : DirectoryBox}
    (houter : outer ∈ t.boxes m) (hinner : inner ∈ t.boxes m)
    (h : outer.files.Encloses inner.files) :
    ∃ parent ∈ t.boxes m, inner.parent.bind ((t.boxes m)[·]?) = some parent ∧
      parent.files.Encloses inner.files ∧
        (parent = outer ∨ outer.files.Encloses parent.files) := by
  obtain ⟨k, hk⟩ := List.getElem?_of_mem hinner
  obtain ⟨i, hi⟩ := List.getElem?_of_mem houter
  obtain ⟨hb, hparent⟩ := getElem?_boxes hk
  have hnested := t.nested_boxes m
  obtain ⟨j, hj⟩ : ∃ j, inner.parent = some j := by
    refine Option.ne_none_iff_exists'.mp fun hnone => ?_
    exact (hnested.parent_eq_none_iff hb hparent).mp hnone _ (List.mem_map_of_mem houter) h
  obtain ⟨block, hblock, henclosed, hsmallest⟩ :=
    (hnested.parent_eq_some_iff hb hparent j).mp hj
  rw [List.getElem?_map, Option.map_eq_some_iff] at hblock
  obtain ⟨parent, hplace, rfl⟩ := hblock
  have hmem := List.mem_of_getElem? hplace
  refine ⟨parent, hmem, hj ▸ hplace, henclosed, ?_⟩
  have hfirst : j ≤ i := (hnested.le_iff_size_le (List.mem_map_of_mem hinner)
    (getElem?_boxes hplace).1 (getElem?_boxes hi).1 henclosed h).mpr
      (hsmallest _ (List.mem_map_of_mem houter) h)
  rcases hfirst.eq_or_lt with rfl | hlt
  · exact .inl (Option.some.inj (hplace.symm.trans hi))
  · refine .inr ?_
    rcases hnested.apart_or_encloses (getElem?_boxes hplace).1 (getElem?_boxes hi).1 hlt with
      hapart | houter
    · have hnonempty := hnested.nonempty _ (List.mem_map_of_mem hinner)
      have hstop := henclosed.2.1
      have hstart := h.1
      omega
    · exact houter

/-- The boxes are the runs of directories but for the run of all files. -/
theorem boxes_are_runs (paths : List String) (m : Mapper) :
    let dirs := paths.map Directory.ofPath
    let boxes := (ofPaths paths).boxes m
    let blocks := boxes.map DirectoryBox.files
    (∀ b, b ∈ blocks ↔ IsRun dirs b ∧ b ≠ ⟨0, paths.length⟩) ∧ blocks.Nodup ∧
      blocks.Pairwise (fun a b => a.stop ≤ b.start ∨ b.Encloses a) ∧
      ∀ box ∈ boxes, (∀ j, box.parent = some j ↔ IsParent blocks box.files j) ∧
        (box.parent = none ↔ ∀ outer ∈ blocks, ¬outer.Encloses box.files) := by
  intro dirs boxes blocks
  have hnested : Nested blocks := nested_boxes _ _
  refine ⟨fun b => ?_, hnested.pairwise.imp_of_mem fun ha _ hab heq => ?_, hnested.pairwise,
    fun box hbox => ?_⟩
  · rw [mem_map_files_boxes]
    simp [ofPaths, fileCount, dirs]
  · subst heq
    rcases hab with hapart | ⟨-, -, hne⟩
    · exact absurd hapart (Nat.not_le.mpr (hnested.nonempty _ ha))
    · exact hne rfl
  · obtain ⟨k, hk⟩ := List.getElem?_of_mem hbox
    obtain ⟨hb, hparent⟩ := getElem?_boxes hk
    exact ⟨hnested.parent_eq_some_iff hb hparent, hnested.parent_eq_none_iff hb hparent⟩

/-- The folder of the first two files lies in that of the first four. -/
theorem boxes_are_runs_inner :
    let paths := ["p/a/x.c", "p/a/y.c", "p/b/z.c", "p/w.c", "q/v.c"]
    IsRun (paths.map Directory.ofPath) ⟨0, 2⟩ ∧
      ∃ box ∈ (ofPaths paths).boxes .empty, box.files = ⟨0, 2⟩ ∧ box.parent = some 2 := by
  intro paths
  have hblocks : ((ofPaths paths).boxes .empty).map DirectoryBox.files =
      [⟨0, 2⟩, ⟨2, 3⟩, ⟨0, 4⟩, ⟨4, 5⟩] := by cbv
  obtain ⟨hruns, -, -, hparents⟩ := boxes_are_runs paths .empty
  rw [hblocks] at hruns hparents
  have hlisted : ⟨0, 2⟩ ∈ ((ofPaths paths).boxes .empty).map DirectoryBox.files :=
    hblocks ▸ List.mem_cons_self
  obtain ⟨box, hbox, hfiles⟩ := List.mem_map.mp hlisted
  refine ⟨((hruns ⟨0, 2⟩).mp List.mem_cons_self).1, box, hbox, hfiles, ?_⟩
  refine ((hparents box hbox).1 2).mpr ⟨⟨0, 4⟩, rfl, ?_⟩
  rw [hfiles]
  unfold FileBlock.Encloses
  decide

end Directories
end ClonePlot
