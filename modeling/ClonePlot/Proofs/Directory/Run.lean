import Mathlib
import ClonePlot.Directory

/-! # Runs of directories

A run of depth `d` is a longest block of files that all lie `d` folders deep or deeper and agree on
the first `d` folders. A file added at the end makes the last run of each of its depths longer as
far as it shares its folders with the file before it, and starts a run below that.
-/
namespace ClonePlot

instance : Membership Nat FileBlock := ⟨fun b i => b.start ≤ i ∧ i < b.stop⟩

theorem FileBlock.mem_iff {b : FileBlock} {i : Nat} : i ∈ b ↔ b.start ≤ i ∧ i < b.stop := Iff.rfl

attribute [ext] FileBlock

/-- All files of the block have the same first `d` folders. -/
def FileBlock.Shares (dirs : List Directory) (d : Nat) (b : FileBlock) : Prop :=
  ∃ path : Directory, path.length = d ∧
    ∀ i, b.start ≤ i → i < b.stop → ∃ dir, dirs[i]? = some dir ∧ path <+: dir

/-- A longest block that shares its first `d` folders. -/
structure IsRunOf (dirs : List Directory) (d : Nat) (b : FileBlock) : Prop where
  nonempty : b.start < b.stop
  shares : b.Shares dirs d
  maximal : ∀ c : FileBlock, c.start ≤ b.start → b.stop ≤ c.stop → c.Shares dirs d → c = b

def IsRun (dirs : List Directory) (b : FileBlock) : Prop := ∃ d, 1 ≤ d ∧ IsRunOf dirs d b

/-- The first `d` folders of file `i`, if there are as many. -/
def topAt (dirs : List Directory) (d i : Nat) : Option Directory :=
  (dirs[i]?.filter (d ≤ ·.length)).map (·.take d)

theorem topAt_eq_some_iff {dirs : List Directory} {d i : Nat} {path : Directory} :
    topAt dirs d i = some path ↔
      path.length = d ∧ ∃ dir, dirs[i]? = some dir ∧ path <+: dir := by
  simp only [topAt, Option.map_eq_some_iff, Option.filter_eq_some_iff, decide_eq_true_eq]
  constructor
  · rintro ⟨dir, ⟨hdir, hdeep⟩, rfl⟩
    exact ⟨List.length_take_of_le hdeep, dir, hdir, List.take_prefix d dir⟩
  · rintro ⟨rfl, dir, hdir, hprefix⟩
    exact ⟨dir, ⟨hdir, hprefix.length_le⟩, (List.prefix_iff_eq_take.mp hprefix).symm⟩

/-- A block where `f` has one value, not to be extended on either side. -/
structure IsLevel {α : Type} (f : Nat → Option α) (b : FileBlock) : Prop where
  nonempty : b.start < b.stop
  isSome : f b.start ≠ none
  inside : ∀ k, b.start ≤ k → k < b.stop → f k = f b.start
  after : f b.stop ≠ f b.start
  before : ∀ k, k + 1 = b.start → f k ≠ f b.start

namespace IsLevel

variable {α : Type} {f g : Nat → Option α} {n : Nat} {b : FileBlock}

theorem stop_le (h : IsLevel f b) (hend : ∀ k, n ≤ k → f k = none) : b.stop ≤ n := by
  have hnonempty := h.nonempty
  by_contra hlong
  refine h.isSome ?_
  rw [← h.inside (b.stop - 1) (by omega) (by omega), hend _ (by omega)]

/-- It matters only what comes up to the end of the block. -/
theorem congr (h : IsLevel f b) (hsame : ∀ k, k < b.stop → g k = f k)
    (hafter : g b.stop ≠ f b.start) : IsLevel g b := by
  have hnonempty := h.nonempty
  have hstart : g b.start = f b.start := hsame _ hnonempty
  refine ⟨hnonempty, hstart ▸ h.isSome, fun k hk hk' => ?_, hstart ▸ hafter, fun k hk => ?_⟩
  · rw [hsame k hk', hstart]
    exact h.inside k hk hk'
  · rw [hsame k (by omega), hstart]
    exact h.before k hk

theorem congr_of_lt (h : IsLevel f b) (hstop : b.stop < n) (hsame : ∀ k, k < n → g k = f k) :
    IsLevel g b := by
  refine h.congr (fun k hk => hsame k (hk.trans hstop)) ?_
  rw [hsame _ hstop]
  exact h.after

/-! A value is added at `n`, where the values ended so far. -/

variable (hend : ∀ k, n ≤ k → f k = none) (hend' : ∀ k, n < k → g k = none)
  (hsame : ∀ k, k < n → g k = f k) (hvalue : g n ≠ none)
include hend hend' hsame hvalue

/-- Unless it goes on with the value before it, it makes a block of its own. -/
theorem iff_of_break (hbreak : ∀ k, k + 1 = n → f k ≠ g n) :
    IsLevel g b ↔ IsLevel f b ∨ b = ⟨n, n + 1⟩ := by
  constructor
  · intro h
    have hnonempty := h.nonempty
    have hstop : b.stop ≤ n + 1 := h.stop_le hend'
    rcases hstop.eq_or_lt with hstop | hstop
    · have hfirst : g n = g b.start := h.inside n (by omega) (by omega)
      have hstart : b.start = n := by
        by_contra hne
        refine hbreak (n - 1) (by omega) ?_
        rw [hfirst, ← hsame _ (by omega)]
        exact h.inside _ (by omega) (by omega)
      exact .inr (FileBlock.ext hstart hstop)
    · have hstart : f b.start = g b.start := (hsame _ (by omega)).symm
      refine .inl (h.congr (fun k hk => (hsame k (by omega)).symm) ?_)
      rcases (Nat.le_of_lt_succ hstop).eq_or_lt with hstop | hstop
      · rw [hend _ hstop.ge]
        exact h.isSome.symm
      · rw [← hsame _ hstop]
        exact h.after
  · rintro (h | rfl)
    · have hnonempty := h.nonempty
      have hstop := h.stop_le hend
      refine h.congr (fun k hk => hsame k (by omega)) ?_
      rcases hstop.eq_or_lt with rfl | hstop
      · intro hgoes
        refine hbreak (b.stop - 1) (by omega) ?_
        rw [hgoes]
        exact h.inside _ (by omega) (by omega)
      · rw [hsame _ hstop]
        exact h.after
    · refine ⟨Nat.lt_succ_self n, hvalue, fun k hk hk' => ?_, ?_, fun k hk => ?_⟩
      · rw [Nat.le_antisymm (Nat.le_of_lt_succ hk') hk]
      · rw [hend' _ (Nat.lt_succ_self n)]
        exact hvalue.symm
      · rw [hsame k (Nat.lt_of_succ_le hk.le)]
        exact hbreak k hk

/-- If it goes on with the value before it, the last block grows. -/
theorem iff_of_same (hpos : 0 < n) (hgoes : f (n - 1) = g n) : IsLevel g b ↔
    (b.stop = n + 1 ∧ IsLevel f ⟨b.start, n⟩) ∨ (b.stop ≠ n ∧ IsLevel f b) := by
  have hlast : g (n - 1) = g n := (hsame _ (by omega)).trans hgoes
  constructor
  · intro h
    have hnonempty := h.nonempty
    have hstop : b.stop ≤ n + 1 := h.stop_le hend'
    have hne : b.stop ≠ n := by
      rintro rfl
      exact h.after (hlast.symm.trans (h.inside _ (by omega) (by omega)))
    rcases hstop.eq_or_lt with hstop | hstop
    · have hstart : b.start < n := by
        by_contra hlate
        refine h.before (n - 1) (by omega) ?_
        rw [hlast, show n = b.start by omega]
      have hvalue' : f b.start = g b.start := (hsame _ hstart).symm
      refine .inl ⟨hstop, hstart, hvalue' ▸ h.isSome, fun k hk hk' => ?_, ?_, fun k hk => ?_⟩
      · rw [← hsame k hk', hvalue']
        exact h.inside k hk (hk'.trans (hstop ▸ Nat.lt_succ_self n))
      · rw [hend n le_rfl, hvalue']
        exact h.isSome.symm
      · rw [← hsame k (by dsimp only at hk; omega), hvalue']
        exact h.before k hk
    · exact .inr ⟨hne, h.congr_of_lt (n := n) (by omega) fun k hk => (hsame k hk).symm⟩
  · rintro (⟨hstop, h⟩ | ⟨hne, h⟩)
    · have hstart : b.start < n := h.nonempty
      have hvalue' : g b.start = f b.start := hsame _ hstart
      have hlevel : g n = f b.start := by
        rw [← hgoes]
        exact h.inside (n - 1) (Nat.le_sub_one_of_lt hstart) (Nat.sub_lt hpos Nat.one_pos)
      refine ⟨by omega, hvalue' ▸ h.isSome, fun k hk hk' => ?_, ?_, fun k hk => ?_⟩
      · rw [hvalue']
        rcases (Nat.le_of_lt_succ (hstop ▸ hk')).eq_or_lt with rfl | hk'
        · exact hlevel
        · rw [hsame k hk']
          exact h.inside k hk hk'
      · rw [hstop, hend' _ (Nat.lt_succ_self n), hvalue']
        exact h.isSome.symm
      · rw [hsame k (by omega), hvalue']
        exact h.before k hk
    · have hstop := h.stop_le hend
      exact h.congr_of_lt (n := n) (by omega) hsame

end IsLevel

variable {dirs : List Directory} {dir : Directory} {b : FileBlock} {d i : Nat}

theorem shares_iff {dirs : List Directory} {b : FileBlock} : b.Shares dirs d ↔
    ∃ path : Directory, path.length = d ∧
      ∀ i, b.start ≤ i → i < b.stop → topAt dirs d i = some path := by
  constructor
  · rintro ⟨path, hlength, hpath⟩
    exact ⟨path, hlength, fun i hi hi' => topAt_eq_some_iff.mpr ⟨hlength, hpath i hi hi'⟩⟩
  · rintro ⟨path, hlength, hpath⟩
    exact ⟨path, hlength, fun i hi hi' => (topAt_eq_some_iff.mp (hpath i hi hi')).2⟩

theorem IsLevel.isRunOf {dirs : List Directory} {b : FileBlock}
    (h : IsLevel (topAt dirs d) b) : IsRunOf dirs d b := by
  obtain ⟨path, hpath⟩ := Option.ne_none_iff_exists'.mp h.isSome
  have hinside := fun i hi hi' => (h.inside i hi hi').trans hpath
  refine ⟨h.nonempty, shares_iff.mpr ⟨path, (topAt_eq_some_iff.mp hpath).1, hinside⟩, ?_⟩
  intro c hstart hstop hc
  obtain ⟨path', -, hc⟩ := shares_iff.mp hc
  have hnonempty := h.nonempty
  have hsame := hc b.start hstart (by omega)
  -- a file of `c` just before or just after `b` would have the same first folders
  have hlow : c.start = b.start := by
    by_contra hne
    exact h.before (b.start - 1) (by omega)
      ((hc (b.start - 1) (by omega) (by omega)).trans hsame.symm)
  have hhigh : c.stop = b.stop := by
    by_contra hne
    exact h.after ((hc b.stop (by omega) (by omega)).trans hsame.symm)
  exact FileBlock.ext hlow hhigh

namespace IsRunOf

variable {dirs : List Directory} {b : FileBlock}

theorem topAt_eq (h : IsRunOf dirs d b) {i : Nat} (hi : b.start ≤ i) (hi' : i < b.stop) :
    topAt dirs d i = topAt dirs d b.start := by
  obtain ⟨path, -, hpath⟩ := shares_iff.mp h.shares
  rw [hpath i hi hi', hpath b.start le_rfl h.nonempty]

theorem eq_of_topAt_eq (h : IsRunOf dirs d b) {c : FileBlock} (hstart : c.start ≤ b.start)
    (hstop : b.stop ≤ c.stop)
    (hc : ∀ i, c.start ≤ i → i < c.stop → topAt dirs d i = topAt dirs d b.start) : c = b := by
  obtain ⟨path, hlength, hpath⟩ := shares_iff.mp h.shares
  refine h.maximal c hstart hstop (shares_iff.mpr ⟨path, hlength, fun i hi hi' => ?_⟩)
  rw [hc i hi hi', hpath b.start le_rfl h.nonempty]

theorem isLevel (h : IsRunOf dirs d b) : IsLevel (topAt dirs d) b where
  nonempty := h.nonempty
  isSome := by
    obtain ⟨path, -, hpath⟩ := shares_iff.mp h.shares
    simp [hpath b.start le_rfl h.nonempty]
  inside _ hk hk' := h.topAt_eq hk hk'
  after := by
    intro hafter
    have heq : (⟨b.start, b.stop + 1⟩ : FileBlock) = b := by
      refine h.eq_of_topAt_eq le_rfl (Nat.le_succ _) fun i hi hi' => ?_
      rcases Nat.eq_or_lt_of_le (Nat.le_of_lt_succ hi') with rfl | hi'
      · exact hafter
      · exact h.topAt_eq hi hi'
    exact absurd (congrArg FileBlock.stop heq) (Nat.succ_ne_self _)
  before := by
    intro k hk hbefore
    have heq : (⟨k, b.stop⟩ : FileBlock) = b := by
      refine h.eq_of_topAt_eq (hk ▸ Nat.le_succ k) le_rfl fun i hi hi' => ?_
      rcases Nat.eq_or_lt_of_le hi with rfl | hi
      · exact hbefore
      · exact h.topAt_eq (hk ▸ hi) hi'
    exact absurd (hk.trans (congrArg FileBlock.start heq).symm) (Nat.succ_ne_self k)

theorem stop_le (h : IsRunOf dirs d b) : b.stop ≤ dirs.length := by
  obtain ⟨path, -, hpath⟩ := h.shares
  have hnonempty := h.nonempty
  obtain ⟨dir, hdir, -⟩ := hpath (b.stop - 1) (by omega) (by omega)
  obtain ⟨hlast, -⟩ := List.getElem?_eq_some_iff.mp hdir
  omega

end IsRunOf

theorem isRunOf_iff_isLevel : IsRunOf dirs d b ↔ IsLevel (topAt dirs d) b :=
  ⟨IsRunOf.isLevel, IsLevel.isRunOf⟩

theorem topAt_eq_none_of_le (h : dirs.length ≤ i) : topAt dirs d i = none := by
  rw [topAt, List.getElem?_eq_none h]
  rfl

theorem topAt_append_of_lt (h : i < dirs.length) :
    topAt (dirs ++ [dir]) d i = topAt dirs d i := by
  rw [topAt, topAt, List.getElem?_append_left h]

theorem topAt_append_length :
    topAt (dirs ++ [dir]) d dirs.length = if d ≤ dir.length then some (dir.take d) else none := by
  by_cases hdeep : d ≤ dir.length
  · simp [topAt, hdeep]
  · rw [if_neg hdeep]
    simpa [topAt] using hdeep

theorem topAt_append_of_length_lt (h : dir.length < d) :
    topAt (dirs ++ [dir]) d = topAt dirs d := by
  funext i
  rcases Nat.lt_trichotomy i dirs.length with hi | rfl | hi
  · exact topAt_append_of_lt hi
  · rw [topAt_append_length, if_neg (Nat.not_le.mpr h), topAt_eq_none_of_le le_rfl]
  · rw [topAt_eq_none_of_le hi.le, topAt_eq_none_of_le (by simpa using hi)]

def EndsIn (dirs : List Directory) (folder : Directory) : Prop :=
  ∃ dir ∈ dirs.getLast?, folder <+: dir

theorem endsIn_iff_topAt_eq {folder : Directory} : EndsIn dirs folder ↔
    0 < dirs.length ∧ topAt dirs folder.length (dirs.length - 1) = some folder := by
  rw [topAt_eq_some_iff, EndsIn, List.getLast?_eq_getElem?]
  refine ⟨fun h => ⟨?_, rfl, h⟩, fun h => h.2.2⟩
  obtain ⟨dir, hdir, -⟩ := h
  obtain ⟨hlast, -⟩ := List.getElem?_eq_some_iff.mp hdir
  omega

theorem isRunOf_append_of_length_lt (h : dir.length < d) :
    IsRunOf (dirs ++ [dir]) d b ↔ IsRunOf dirs d b := by
  rw [isRunOf_iff_isLevel, isRunOf_iff_isLevel, topAt_append_of_length_lt h]

section Deep

variable (hdeep : d ≤ dir.length)
include hdeep

theorem isRunOf_append_of_endsIn (h : EndsIn dirs (dir.take d)) : IsRunOf (dirs ++ [dir]) d b ↔
    (b.stop = dirs.length + 1 ∧ IsRunOf dirs d ⟨b.start, dirs.length⟩) ∨
      (b.stop ≠ dirs.length ∧ IsRunOf dirs d b) := by
  have hvalue : topAt (dirs ++ [dir]) d dirs.length = some (dir.take d) := by
    rw [topAt_append_length, if_pos hdeep]
  rw [endsIn_iff_topAt_eq, List.length_take_of_le hdeep] at h
  simp only [isRunOf_iff_isLevel]
  exact IsLevel.iff_of_same (fun k => topAt_eq_none_of_le)
    (fun k hk => topAt_eq_none_of_le (by simpa using hk)) (fun k => topAt_append_of_lt)
    (by simp [hvalue]) h.1 (h.2.trans hvalue.symm)

theorem isRunOf_append_of_not_endsIn (h : ¬EndsIn dirs (dir.take d)) :
    IsRunOf (dirs ++ [dir]) d b ↔ IsRunOf dirs d b ∨ b = ⟨dirs.length, dirs.length + 1⟩ := by
  have hvalue : topAt (dirs ++ [dir]) d dirs.length = some (dir.take d) := by
    rw [topAt_append_length, if_pos hdeep]
  rw [endsIn_iff_topAt_eq, List.length_take_of_le hdeep] at h
  simp only [isRunOf_iff_isLevel]
  refine IsLevel.iff_of_break (fun k => topAt_eq_none_of_le)
    (fun k hk => topAt_eq_none_of_le (by simpa using hk)) (fun k => topAt_append_of_lt)
    (by simp [hvalue]) fun k hk hgoes => h ⟨by omega, ?_⟩
  rw [show dirs.length - 1 = k by omega, hgoes, hvalue]

end Deep

theorem IsRun.nonempty {dirs : List Directory} {b : FileBlock} (h : IsRun dirs b) :
    b.start < b.stop := by
  obtain ⟨d, -, h⟩ := h
  exact h.nonempty

end ClonePlot
