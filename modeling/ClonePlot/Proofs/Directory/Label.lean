import ClonePlot.Proofs.Directory.Box

/-! # Names of boxes

The files of a box share at least one folder, and every folder has a name. So there is always
something to write on a box.
-/
namespace ClonePlot

theorem Directory.ne_empty_of_mem_ofPath {path name : String} (h : name ∈ ofPath path) :
    name ≠ "" := by
  obtain ⟨chars, hchars, rfl⟩ := List.mem_map.mp (List.mem_of_mem_dropLast h)
  have hnonempty := (List.mem_filter.mp hchars).2
  intro hname
  rw [String.ofList_eq_empty_iff.mp hname] at hnonempty
  cases hnonempty

theorem intercalate_ne_empty {sep name : String} {rest : List String} (h : name ≠ "") :
    sep.intercalate (name :: rest) ≠ "" := by
  cases rest with
  | nil => rwa [String.intercalate_singleton]
  | cons next rest =>
    rw [String.intercalate_cons_cons, String.append_assoc]
    exact fun hempty => h (String.append_eq_empty_iff.mp hempty).1

/-- File `i` lies in the folder, at any depth. -/
def LiesIn (dirs : List Directory) (folder : Directory) (i : Nat) : Prop :=
  ∃ dir, dirs[i]? = some dir ∧ folder <+: dir

theorem LiesIn.lt_length {dirs : List Directory} {folder : Directory} {i : Nat}
    (h : LiesIn dirs folder i) : i < dirs.length := by
  obtain ⟨_, hdir, -⟩ := h
  exact (List.getElem?_eq_some_iff.mp hdir).1

namespace Directories

variable {t : Directories} {b : FileBlock}

theorem prefix_commonPrefix_iff {path dir dir' : Directory} :
    path <+: commonPrefix dir dir' ↔ path <+: dir ∧ path <+: dir' := by
  induction dir generalizing path dir' with
  | nil =>
    simp only [commonPrefix, List.prefix_nil]
    exact ⟨fun h => ⟨h, h ▸ List.nil_prefix⟩, And.left⟩
  | cons name dir ih =>
    cases dir' with
    | nil =>
      simp only [commonPrefix, List.prefix_nil]
      exact ⟨fun h => ⟨h ▸ List.nil_prefix, h⟩, And.right⟩
    | cons name' dir' =>
      cases path with
      | nil => simp only [List.nil_prefix, and_self]
      | cons first path =>
        unfold commonPrefix
        by_cases hname : name = name'
        · subst hname
          rw [if_pos rfl, List.cons_prefix_cons, List.cons_prefix_cons, List.cons_prefix_cons, ih]
          exact and_and_left
        · rw [if_neg hname, List.prefix_nil, List.cons_prefix_cons, List.cons_prefix_cons]
          exact iff_of_false (List.cons_ne_nil first path)
            fun h => hname (h.1.1.symm.trans h.2.1)

/-- The shared path is the longest that both ends of the block lie in. -/
theorem prefix_shared_iff (h : IsRun t.dirs.toList b) {folder : Directory} : folder <+: t.shared b ↔
    LiesIn t.dirs.toList folder b.start ∧ LiesIn t.dirs.toList folder (b.stop - 1) := by
  have ⟨d, _, hrun⟩ := h
  have hnonempty := hrun.nonempty
  have hstop := hrun.stop_le
  rw [Array.length_toList] at hstop
  have hfirst : b.start < t.dirs.size := by omega
  have hlast : b.stop - 1 < t.dirs.size := by omega
  rw [shared, prefix_commonPrefix_iff]
  simp [LiesIn, hfirst, hlast]

theorem prefix_shared_of_forall (h : IsRun t.dirs.toList b) {folder : Directory}
    (hall : ∀ i ∈ b, LiesIn t.dirs.toList folder i) : folder <+: t.shared b := by
  have hnonempty := h.nonempty
  apply (prefix_shared_iff h).mpr
  exact ⟨hall _ ⟨le_rfl, hnonempty⟩, hall _ ⟨Nat.le_sub_one_of_lt hnonempty, by omega⟩⟩

theorem shared_ne_nil (h : IsRun t.dirs.toList b) : t.shared b ≠ [] := by
  have ⟨d, hd, hrun⟩ := h
  obtain ⟨path, rfl, hpath⟩ := hrun.shares
  have hshared := prefix_shared_of_forall h fun i hi => hpath i hi.1 hi.2
  intro hnone
  rw [hnone, List.prefix_nil] at hshared
  rw [hshared] at hd
  exact absurd hd (Nat.not_succ_le_zero 0)

theorem mem_of_mem_shared {name : String} (h : name ∈ t.shared b) :
    ∃ dir ∈ t.dirs.toList, name ∈ dir := by
  have hfirst := (prefix_commonPrefix_iff.mp (List.prefix_refl (t.shared b))).1.subset h
  cases hdir : t.dirs[b.start]? with
  | none =>
    rw [hdir] at hfirst
    exact absurd hfirst List.not_mem_nil
  | some dir =>
    rw [hdir] at hfirst
    exact ⟨dir, Array.mem_toList_iff.mpr (Array.mem_of_getElem? hdir), hfirst⟩

/-- A label is made of the last components of the shared path, at least one of them. -/
theorem exists_label_eq (h : IsRun t.dirs.toList b) :
    ∃ j < (t.shared b).length, t.label b = "/".intercalate ((t.shared b).drop j) := by
  have hsome := List.length_pos_of_ne_nil (shared_ne_nil h)
  unfold label
  dsimp only
  split
  · rename_i j hj
    exact ⟨j, List.mem_range.mp (List.mem_reverse.mp (List.mem_of_find?_eq_some hj)), rfl⟩
  · refine ⟨(t.shared b).length - 1, by omega, ?_⟩
    rw [List.drop_length_sub_one (shared_ne_nil h), String.intercalate_singleton,
      List.getLastD_eq_getLast?, List.getLast?_eq_some_getLast (shared_ne_nil h), Option.getD_some]

theorem label_ne_empty {paths : List String} (h : IsRun (ofPaths paths).dirs.toList b) :
    (ofPaths paths).label b ≠ "" := by
  have hname {name : String} (hshared : name ∈ (ofPaths paths).shared b) : name ≠ "" := by
    obtain ⟨dir, hdir, hmem⟩ := mem_of_mem_shared hshared
    obtain ⟨path, -, rfl⟩ := List.mem_map.mp hdir
    exact Directory.ne_empty_of_mem_ofPath hmem
  obtain ⟨j, hj, hlabel⟩ := exists_label_eq h
  rw [hlabel, List.drop_eq_getElem_cons hj]
  exact intercalate_ne_empty (hname (List.getElem_mem hj))

theorem label_ne_empty_of_mem_boxes {paths : List String} {m : Mapper} {box : DirectoryBox}
    (h : box ∈ (ofPaths paths).boxes m) : box.label ≠ "" := by
  rw [(fields_of_mem_boxes h).1]
  exact label_ne_empty (isRun_of_mem_boxes h)

end Directories
end ClonePlot
