import ClonePlot.Proofs.Directory.Label

/-! # Labels tell a box from its neighbors

A file beside a box does not lie in the folder that the ends of the box share, since the run of the
box would go on to it. So the path of that folder always differs from what the neighbors have in its
place, and the search for the shortest end of the path that differs comes to one.
-/
namespace ClonePlot

def FileBlock.Beside (b : FileBlock) (i : Nat) : Prop := i + 1 = b.start ∨ i = b.stop

/-- Each directory beside the block is shorter than the folder or has other components where the
folder has those from `j` on. -/
def LackedBeside (dirs : List Directory) (b : FileBlock) (folder : Directory) (j : Nat) : Prop :=
  ∀ i dir, b.Beside i → dirs[i]? = some dir →
    dir.length < folder.length ∨ dir.extract j folder.length ≠ folder.drop j

/-- The first folders change where a run ends. -/
theorem IsRunOf.topAt_ne_of_beside {dirs : List Directory} {d i : Nat} {b : FileBlock}
    (h : IsRunOf dirs d b) (hi : b.Beside i) : topAt dirs d i ≠ topAt dirs d b.start := by
  rcases hi with hbefore | rfl
  · exact h.isLevel.before i hbefore
  · exact h.isLevel.after

namespace Directories

variable {t : Directories} {b : FileBlock} {i j : Nat} {dir folder : Directory}

theorem differsFrom_iff : differsFrom folder j dir = true ↔
    dir.length < folder.length ∨ dir.extract j folder.length ≠ folder.drop j := by
  simp [differsFrom, List.extract_eq_take_drop, List.drop_take]

theorem mem_neighbors : dir ∈ t.neighbors b ↔ ∃ i, b.Beside i ∧ t.dirs.toList[i]? = some dir := by
  have hbefore : dir ∈ (if b.start = 0 then [] else t.dirs[b.start - 1]?.toList) ↔
      ∃ i, i + 1 = b.start ∧ t.dirs[i]? = some dir := by
    cases b.start with
    | zero => simp
    | succ start => simp
  rw [neighbors, List.mem_append, hbefore]
  simp [FileBlock.Beside, or_and_right, exists_or]

theorem all_differsFrom_iff : (t.neighbors b).all (differsFrom folder j) = true ↔
    LackedBeside t.dirs.toList b folder j := by
  simp only [List.all_eq_true, mem_neighbors, differsFrom_iff]
  constructor
  · intro h i dir hi hdir
    exact h dir ⟨i, hi, hdir⟩
  · rintro h dir ⟨i, hi, hdir⟩
    exact h i dir hi hdir

/-- Otherwise the run would go on to the file. -/
theorem not_liesIn_shared_of_beside (h : IsRun t.dirs.toList b) (hi : b.Beside i) :
    ¬LiesIn t.dirs.toList (t.shared b) i := by
  have ⟨d, _, hrun⟩ := h
  obtain ⟨path, hlength, hpath⟩ := hrun.shares
  have hshared : path <+: t.shared b := prefix_shared_of_forall h fun i hi => hpath i hi.1 hi.2
  rintro ⟨dir, hdir, hprefix⟩
  apply hrun.topAt_ne_of_beside hi
  rw [topAt_eq_some_iff.mpr ⟨hlength, dir, hdir, hshared.trans hprefix⟩,
    topAt_eq_some_iff.mpr ⟨hlength, hpath b.start le_rfl hrun.nonempty⟩]

/-- The whole path is enough to tell the block from both sides. -/
theorem lackedBeside_zero (h : IsRun t.dirs.toList b) :
    LackedBeside t.dirs.toList b (t.shared b) 0 := by
  intro i dir hi hdir
  by_contra hhas
  push Not at hhas
  obtain ⟨-, hsame⟩ := hhas
  apply not_liesIn_shared_of_beside h hi
  refine ⟨dir, hdir, List.prefix_iff_eq_take.mpr ?_⟩
  simpa [List.extract_eq_take_drop] using hsame.symm

theorem exists_isGreatest_lacked (h : IsRun t.dirs.toList b) :
    ∃ j, IsGreatest {j | j < (t.shared b).length ∧
        LackedBeside t.dirs.toList b (t.shared b) j} j ∧
      t.label b = "/".intercalate ((t.shared b).drop j) := by
  have hpos : 0 < (t.shared b).length := List.length_pos_of_ne_nil (shared_ne_nil h)
  have hfound : ((List.range (t.shared b).length).reverse.find? fun j =>
      (t.neighbors b).all (differsFrom (t.shared b) j)).isSome := by
    apply List.find?_isSome.mpr
    exact ⟨0, by simpa using hpos, all_differsFrom_iff.mpr (lackedBeside_zero h)⟩
  obtain ⟨j, hj⟩ := Option.isSome_iff_exists.mp hfound
  refine ⟨j, ?_, by simp only [label, hj]⟩
  -- the first place from the right is the last one from the left
  rw [← List.head?_filter, List.filter_reverse, List.head?_reverse,
    getLast?_filter_eq_some_iff List.pairwise_lt_range] at hj
  simpa only [List.mem_range, all_differsFrom_iff] using hj

/-- The label of a box is the shortest end of the shared path that both neighbors lack. The whole
path is one, so there always is such an end. -/
theorem label_tells_apart (paths : List String) (m : Mapper) (box : DirectoryBox)
    (hbox : box ∈ (ofPaths paths).boxes m) :
    let dirs := paths.map Directory.ofPath
    let b := box.files
    ∃ folder : Directory,
      (∀ other, other <+: folder ↔ LiesIn dirs other b.start ∧ LiesIn dirs other (b.stop - 1)) ∧
      1 ≤ folder.length ∧ LackedBeside dirs b folder 0 ∧
      ∃ j, IsGreatest {j | j < folder.length ∧ LackedBeside dirs b folder j} j ∧
        box.label = "/".intercalate (folder.drop j) := by
  intro dirs b
  have hb : IsRun (ofPaths paths).dirs.toList b := isRun_of_mem_boxes hbox
  obtain ⟨hlabel, -⟩ := fields_of_mem_boxes hbox
  obtain ⟨j, hj, hname⟩ := exists_isGreatest_lacked hb
  exact ⟨(ofPaths paths).shared b, fun other => prefix_shared_iff hb,
    List.length_pos_of_ne_nil (shared_ne_nil hb), lackedBeside_zero hb, j, hj, hlabel.trans hname⟩

/-- The box is a run of `a` and its ends share `a/b`. The directory after it ends in `b` as well. -/
theorem label_tells_apart_longer :
    let paths := ["a/b/x", "a/y", "a/b/z", "q/b/w"]
    let dirs := paths.map Directory.ofPath
    let box : DirectoryBox := ⟨"a/b", 0, 3, ⟨0, 3⟩, none⟩
    box ∈ (ofPaths paths).boxes ⟨.ofSizes [1, 1, 1, 1], 4⟩ ∧
      ∃ folder : Directory, LackedBeside dirs ⟨0, 3⟩ folder 0 ∧
        ∃ j, IsGreatest {j | j < folder.length ∧ LackedBeside dirs ⟨0, 3⟩ folder j} j ∧
          "a/b" = "/".intercalate (folder.drop j) := by
  intro paths dirs box
  have hboxes : (ofPaths paths).boxes ⟨.ofSizes [1, 1, 1, 1], 4⟩ =
      [⟨"b", 0, 1, ⟨0, 1⟩, some 2⟩, ⟨"a/b", 2, 3, ⟨2, 3⟩, some 2⟩, ⟨"a/b", 0, 3, ⟨0, 3⟩, none⟩,
        ⟨"q/b", 3, 4, ⟨3, 4⟩, none⟩] := by cbv
  have hbox : box ∈ (ofPaths paths).boxes ⟨.ofSizes [1, 1, 1, 1], 4⟩ := hboxes ▸ by decide
  obtain ⟨folder, -, -, hwhole, hgreatest⟩ := label_tells_apart paths _ box hbox
  exact ⟨hbox, folder, hwhole, hgreatest⟩

end Directories
end ClonePlot
