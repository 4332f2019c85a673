import ClonePlot.Proofs.Directory.Box

/-! # Breaks between directories

Neighboring files lie in different directories exactly where a box starts or stops. Of two
directories one has a folder that the other lacks, and the run of that folder ends between them. As
there are files on both sides, that run is never the run of all files.
-/
namespace ClonePlot

section Level

variable {α : Type} {f : Nat → Option α} {n i k : Nat}

theorem exists_start_same (f : Nat → Option α) (k : Nat) :
    ∃ start ≤ k, (∀ i, start ≤ i → i ≤ k → f i = f k) ∧ ∀ i, i + 1 = start → f i ≠ f k := by
  induction k with
  | zero =>
    refine ⟨0, le_rfl, fun i _ hi => ?_, fun i hi => absurd hi (Nat.succ_ne_zero i)⟩
    rw [Nat.le_zero.mp hi]
  | succ k ih =>
    -- either the block before goes on, or a new one starts at `k + 1`
    by_cases hsame : f k = f (k + 1)
    · obtain ⟨start, hle, hinside, hbefore⟩ := ih
      refine ⟨start, Nat.le_succ_of_le hle, fun i hi hi' => ?_, fun i hi => hsame ▸ hbefore i hi⟩
      rcases hi'.eq_or_lt with rfl | hlt
      · rfl
      · exact (hinside i hi (Nat.le_of_lt_succ hlt)).trans hsame
    · refine ⟨k + 1, le_rfl, fun i hi hi' => ?_, fun i hi => ?_⟩
      · rw [le_antisymm hi' hi]
      · rw [Nat.succ.inj hi]
        exact hsame

theorem exists_stop_same (hend : ∃ stop, k < stop ∧ f stop ≠ f k) :
    ∃ stop, k < stop ∧ f stop ≠ f k ∧ ∀ i, k ≤ i → i < stop → f i = f k := by
  classical
  obtain ⟨hlt, hafter⟩ := Nat.find_spec hend
  refine ⟨Nat.find hend, hlt, hafter, fun i hi hi' => ?_⟩
  by_contra hne
  rcases hi.eq_or_lt with rfl | hi
  · exact hne rfl
  · exact Nat.find_min hend hi' ⟨hi, hne⟩

/-- A place with a value lies in a longest block of it, if the values end somewhere. -/
theorem exists_isLevel (hend : ∀ i, n ≤ i → f i = none) (hk : f k ≠ none) :
    ∃ b, IsLevel f b ∧ k ∈ b := by
  obtain ⟨start, hstart, hback, hbefore⟩ := exists_start_same f k
  obtain ⟨stop, hstop, hafter, hforth⟩ := exists_stop_same (f := f) (k := k)
    ⟨max n (k + 1), Nat.le_max_right _ _, (hend _ (Nat.le_max_left _ _)).trans_ne hk.symm⟩
  have hfirst := hback start le_rfl hstart
  refine ⟨⟨start, stop⟩, ⟨hstart.trans_lt hstop, ?_, ?_, ?_, ?_⟩, hstart, hstop⟩
  · dsimp only
    rwa [hfirst]
  · intro i hi hi'
    refine Eq.trans ?_ hfirst.symm
    rcases Nat.le_total i k with hik | hki
    · exact hback i hi hik
    · exact hforth i hki hi'
  · dsimp only
    rwa [hfirst]
  · intro i hi
    dsimp only
    rw [hfirst]
    exact hbefore i hi

/-- Values change between two places exactly if a block stops or starts there. -/
theorem exists_isLevel_edge_iff (hend : ∀ i, n ≤ i → f i = none) :
    (∃ b, IsLevel f b ∧ (b.start = i + 1 ∨ b.stop = i + 1)) ↔ f i ≠ f (i + 1) := by
  constructor
  · rintro ⟨b, hb, hstart | hstop⟩
    · exact hstart ▸ hb.before i hstart.symm
    · have hnonempty := hb.nonempty
      rw [← hstop, hb.inside i (by omega) (by omega)]
      exact hb.after.symm
  · intro hne
    rcases eq_or_ne (f (i + 1)) none with hnone | hsome
    · -- no block starts after the break, so one stops there
      obtain ⟨b, hb, hlow, hhigh⟩ := exists_isLevel hend (hnone ▸ hne)
      refine ⟨b, hb, .inr (le_antisymm (Nat.not_lt.mp fun hlt => hne ?_) hhigh)⟩
      rw [hb.inside i hlow hhigh, hb.inside (i + 1) (by omega) hlt]
    · obtain ⟨b, hb, hlow, hhigh⟩ := exists_isLevel hend hsome
      refine ⟨b, hb, .inl (le_antisymm hlow (Nat.not_lt.mp fun hlt => hne ?_))⟩
      rw [hb.inside i (by omega) (by omega), hb.inside (i + 1) hlow hhigh]

end Level

variable {dirs : List Directory} {a b : Directory} {i j : Nat}

theorem eq_of_topAt_length_eq (ha : dirs[i]? = some a) (hb : dirs[j]? = some b)
    (hle : a.length ≤ b.length) (h : topAt dirs b.length i = topAt dirs b.length j) : a = b := by
  have hwhole : topAt dirs b.length j = some b :=
    topAt_eq_some_iff.mpr ⟨rfl, b, hb, List.prefix_rfl⟩
  obtain ⟨-, dir, hdir, hpart⟩ := topAt_eq_some_iff.mp (h.trans hwhole)
  cases ha.symm.trans hdir
  exact (hpart.eq_of_length_le hle).symm

theorem eq_iff_forall_topAt_eq (ha : dirs[i]? = some a) (hb : dirs[j]? = some b) :
    a = b ↔ ∀ d, 1 ≤ d → topAt dirs d i = topAt dirs d j := by
  constructor
  · rintro rfl d -
    rw [topAt, topAt, ha, hb]
  · intro hsame
    -- at the depth of the longer one both are whole; depth zero says nothing
    rcases Nat.eq_zero_or_pos (max a.length b.length) with hzero | hpos
    · rw [List.length_eq_zero_iff.mp (by omega : a.length = 0),
        List.length_eq_zero_iff.mp (by omega : b.length = 0)]
    · rcases Nat.le_total a.length b.length with hle | hle
      · exact eq_of_topAt_length_eq ha hb hle (hsame _ (by omega))
      · exact (eq_of_topAt_length_eq hb ha hle (hsame _ (by omega)).symm).symm

namespace Directories

variable {t : Directories}

theorem isBreak_succ_iff (h : i + 1 < t.fileCount) :
    t.isBreak (i + 1) ↔ t.dirs.toList[i]? ≠ t.dirs.toList[i + 1]? := by
  unfold isBreak
  rw [Nat.add_sub_cancel, decide_eq_true (Nat.succ_pos i), decide_eq_true h, Bool.true_and,
    Bool.true_and, bne_iff_ne, Array.getElem?_toList, Array.getElem?_toList]
  exact ne_comm

theorem isBreak_succ_iff_exists_isRun (h : i + 1 < t.fileCount) : t.isBreak (i + 1) ↔
    ∃ b, IsRun t.dirs.toList b ∧ (b.start = i + 1 ∨ b.stop = i + 1) := by
  have hlast : i + 1 < t.dirs.toList.length := h
  have hfirst : i < t.dirs.toList.length := Nat.lt_of_succ_lt hlast
  have hend (d : Nat) : ∀ i, t.dirs.toList.length ≤ i → topAt t.dirs.toList d i = none :=
    fun i => topAt_eq_none_of_le
  rw [isBreak_succ_iff h, List.getElem?_eq_getElem hfirst, List.getElem?_eq_getElem hlast,
    ne_eq, Option.some.injEq, eq_iff_forall_topAt_eq (List.getElem?_eq_getElem hfirst)
      (List.getElem?_eq_getElem hlast)]
  constructor
  · intro hdiffer
    push Not at hdiffer
    obtain ⟨d, hd, hne⟩ := hdiffer
    obtain ⟨b, hb, hedge⟩ := (exists_isLevel_edge_iff (hend d)).mpr hne
    exact ⟨b, ⟨d, hd, hb.isRunOf⟩, hedge⟩
  · rintro ⟨b, ⟨d, hd, hb⟩, hedge⟩ hsame
    exact (exists_isLevel_edge_iff (hend d)).mp ⟨b, hb.isLevel, hedge⟩ (hsame d hd)

/-- A file lies in another directory than the file before it exactly if a box starts or stops
between the two. -/
theorem isBreak_iff_exists_edge (paths : List String) (m : Mapper) (i : Nat) (hpos : 0 < i)
    (hlt : i < paths.length) : (ofPaths paths).isBreak i ↔
      ∃ b ∈ (ofPaths paths).boxes m, b.files.start = i ∨ b.files.stop = i := by
  have hcount : (ofPaths paths).fileCount = paths.length := by simp [ofPaths, fileCount]
  obtain ⟨i, rfl⟩ := Nat.exists_eq_succ_of_ne_zero hpos.ne'
  rw [Nat.succ_eq_add_one, isBreak_succ_iff_exists_isRun (hcount ▸ hlt)]
  constructor
  · rintro ⟨b, hrun, hedge⟩
    have hpart : b ≠ ⟨0, (ofPaths paths).fileCount⟩ := by
      rintro rfl
      dsimp only at hedge
      omega
    obtain ⟨box, hbox, rfl⟩ := List.mem_map.mp (mem_map_files_boxes (m := m).mpr ⟨hrun, hpart⟩)
    exact ⟨box, hbox, hedge⟩
  · rintro ⟨box, hbox, hedge⟩
    exact ⟨box.files, isRun_of_mem_boxes hbox, hedge⟩

/-- All files share a folder, which has no box. The break is where the box inside stops. -/
theorem isBreak_iff_exists_edge_inner :
    let t := ofPaths ["p/a/x.c", "p/a/y.c", "p/z.c"]
    t.isBreak 2 ∧ ∃ b ∈ t.boxes .empty, b.files.start = 2 ∨ b.files.stop = 2 := by
  intro t
  have hbreak : t.isBreak 2 := by decide
  exact ⟨hbreak, (isBreak_iff_exists_edge _ .empty 2 Nat.two_pos (by decide)).mp hbreak⟩

end Directories
end ClonePlot
