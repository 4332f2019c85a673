import ClonePlot.Proofs.Directory.Label

/-! # Folders that labels name

A label is taken from the folder that the first and the last file of a box share. In a list that
keeps the files of each folder together the files between lie in it as well. In other lists some
may not: the box is then a run of smaller depth, and the folder holds only a part of its files.
-/
namespace ClonePlot

theorem FileBlock.Shares.anti {dirs : List Directory} {b : FileBlock} {d e : Nat} (hde : d ≤ e)
    (h : b.Shares dirs e) : b.Shares dirs d := by
  obtain ⟨path, hlength, hpath⟩ := h
  refine ⟨path.take d, List.length_take_of_le (hlength ▸ hde), fun i hi hi' => ?_⟩
  obtain ⟨dir, hdir, hprefix⟩ := hpath i hi hi'
  exact ⟨dir, hdir, (List.take_prefix d path).trans hprefix⟩

/-- Whatever lies between two files of a folder lies in the folder. -/
def Grouped (dirs : List Directory) : Prop :=
  ∀ (folder : Directory) (i k j : Nat), i ≤ k → k ≤ j →
    LiesIn dirs folder i → LiesIn dirs folder j → LiesIn dirs folder k

namespace Directories

variable {t : Directories} {b : FileBlock}

/-- The shared folder holds the whole block if and only if the block is a run of its depth. -/
theorem forall_liesIn_shared_iff (h : IsRun t.dirs.toList b) :
    (∀ i ∈ b, LiesIn t.dirs.toList (t.shared b) i) ↔
      IsRunOf t.dirs.toList (t.shared b).length b := by
  have ⟨d, _, hrun⟩ := h
  constructor
  · intro hall
    refine ⟨hrun.nonempty, ⟨_, rfl, fun i hi hi' => hall i ⟨hi, hi'⟩⟩, fun c hstart hstop hc => ?_⟩
    -- a longer block that shares more would share the run's own folders
    obtain ⟨path, rfl, hpath⟩ := hrun.shares
    have hdepth := (prefix_shared_of_forall h fun i hi => hpath i hi.1 hi.2).length_le
    exact hrun.maximal c hstart hstop (hc.anti hdepth)
  · intro hdeep
    obtain ⟨path, hlength, hpath⟩ := hdeep.shares
    have hall : ∀ i ∈ b, LiesIn t.dirs.toList path i := fun i hi => hpath i hi.1 hi.2
    rwa [(prefix_shared_of_forall h hall).eq_of_length hlength] at hall

theorem liesIn_shared_of_grouped (h : IsRun t.dirs.toList b) (hgrouped : Grouped t.dirs.toList) :
    ∀ i ∈ b, LiesIn t.dirs.toList (t.shared b) i := by
  obtain ⟨hfirst, hlast⟩ := (prefix_shared_iff h).mp (List.prefix_refl _)
  intro i hi
  exact hgrouped _ b.start i (b.stop - 1) hi.1 (Nat.le_sub_one_of_lt hi.2) hfirst hlast

/-- A label ends the path of the deepest folder that the first and the last file lie in. -/
theorem label_names_folder (paths : List String) (m : Mapper) (box : DirectoryBox)
    (hbox : box ∈ (ofPaths paths).boxes m) :
    let dirs := paths.map Directory.ofPath
    let b := box.files
    ∃ folder : Directory,
      (∀ other, other <+: folder ↔ LiesIn dirs other b.start ∧ LiesIn dirs other (b.stop - 1)) ∧
      (∃ j < folder.length, box.label = "/".intercalate (folder.drop j)) ∧
      ((∀ i ∈ b, LiesIn dirs folder i) ↔ IsRunOf dirs folder.length b) ∧
      (Grouped dirs → ∀ i ∈ b, LiesIn dirs folder i) := by
  intro dirs b
  have hb : IsRun (ofPaths paths).dirs.toList b := isRun_of_mem_boxes hbox
  obtain ⟨hlabel, -⟩ := fields_of_mem_boxes hbox
  obtain ⟨j, hj, hname⟩ := exists_label_eq hb
  exact ⟨(ofPaths paths).shared b, fun other => prefix_shared_iff hb,
    ⟨j, hj, hlabel.trans hname⟩, forall_liesIn_shared_iff hb, liesIn_shared_of_grouped hb⟩

/-- Two folders of one name need a longer label. -/
theorem label_names_folder_foo :
    let paths := ["src/a/foo/x.c", "src/a/foo/z.c", "src/b/foo/y.c"]
    let dirs := paths.map Directory.ofPath
    let box : DirectoryBox := ⟨"a/foo", 0, 2, ⟨0, 2⟩, none⟩
    (box ∈ (ofPaths paths).boxes ⟨.ofSizes [1, 1, 1], 3⟩ ∧ Grouped dirs) ∧
      ∃ folder : Directory, (∃ j < folder.length, "a/foo" = "/".intercalate (folder.drop j)) ∧
        ∀ i < 2, LiesIn dirs folder i := by
  intro paths dirs box
  have hboxes : (ofPaths paths).boxes ⟨.ofSizes [1, 1, 1], 3⟩ =
      [⟨"a/foo", 0, 2, ⟨0, 2⟩, none⟩, ⟨"b/foo", 2, 3, ⟨2, 3⟩, none⟩] := by cbv
  have hbox : box ∈ (ofPaths paths).boxes ⟨.ofSizes [1, 1, 1], 3⟩ := hboxes ▸ by decide
  have hsame : dirs[0]? = dirs[1]? := by cbv
  have hgrouped : Grouped dirs := by
    intro folder i k j hik hkj hi hj
    have hlast : j < 3 := hj.lt_length
    rcases Nat.eq_or_lt_of_le hik with rfl | hik
    · exact hi
    rcases Nat.eq_or_lt_of_le hkj with rfl | hkj
    · exact hj
    -- what is left is the second file, which lies where the first one does
    obtain rfl : i = 0 := by omega
    obtain rfl : k = 1 := by omega
    obtain ⟨dir, hdir, hprefix⟩ := hi
    exact ⟨dir, hsame ▸ hdir, hprefix⟩
  obtain ⟨folder, -, hname, -, hheld⟩ := label_names_folder paths _ box hbox
  exact ⟨⟨hbox, hgrouped⟩, folder, hname, fun i hi => hheld hgrouped i ⟨Nat.zero_le i, hi⟩⟩

/-- The second file does not lie in the folder `a/b`, from which the label is taken. -/
theorem label_names_part :
    let paths := ["a/b/x", "a/y", "a/b/z", "q"]
    let dirs := paths.map Directory.ofPath
    let box : DirectoryBox := ⟨"b", 0, 3, ⟨0, 3⟩, none⟩
    box ∈ (ofPaths paths).boxes ⟨.ofSizes [1, 1, 1, 1], 4⟩ ∧
      ∀ folder : Directory, (∀ i ∈ box.files, LiesIn dirs folder i) →
        ∀ j < folder.length, box.label ≠ "/".intercalate (folder.drop j) := by
  intro paths dirs box
  have hboxes : (ofPaths paths).boxes ⟨.ofSizes [1, 1, 1, 1], 4⟩ =
      [⟨"b", 0, 1, ⟨0, 1⟩, some 2⟩, ⟨"b", 2, 3, ⟨2, 3⟩, some 2⟩, ⟨"b", 0, 3, ⟨0, 3⟩, none⟩] := by cbv
  refine ⟨hboxes ▸ by decide, fun folder hall j hj => ?_⟩
  obtain ⟨dir, hdir, hprefix⟩ := hall 1 ⟨Nat.zero_le 1, by decide⟩
  have hsecond : dirs[1]? = some ["a"] := by decide
  obtain rfl : dir = ["a"] := Option.some.inj (hdir.symm.trans hsecond)
  have hlength : folder.length = 1 :=
    Nat.le_antisymm hprefix.length_le (Nat.lt_of_le_of_lt (Nat.zero_le j) hj)
  obtain rfl : folder = ["a"] := hprefix.eq_of_length hlength
  obtain rfl : j = 0 := by omega
  decide

end Directories
end ClonePlot
