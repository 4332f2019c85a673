import ClonePlot.Proofs.Layout

/-! # Finding the file of an offset

The start table is sorted, so the file that holds an offset is found by halving the table until only
the first start beyond the offset is left, and stepping back by one. The table begins with zero, so
there is always something to step back to. Files without content, and those that begin where the line
has been cut off, share their start with the file after them; the step never ends on one of these.
-/
namespace ClonePlot

/-- The first entry beyond `o`, all entries before `low` being at most `o` and none from `high` on. -/
def firstBeyond (entries : Array Nat) (o low high : Nat) (hhigh : high ≤ entries.size) : Nat :=
  if h : low < high then
    let mid := (low + high) / 2
    have hmid : mid < entries.size := by omega
    if entries[mid] ≤ o then firstBeyond entries o (mid + 1) high hhigh
    else firstBeyond entries o low mid hmid.le
  else low
termination_by high - low

theorem firstBeyond_eq_countP {entries : Array Nat} {o low high : Nat}
    (hsorted : entries.toList.Pairwise (· ≤ ·)) (hhigh : high ≤ entries.size)
    (hlow : low ≤ entries.countP (· ≤ o)) (hcount : entries.countP (· ≤ o) ≤ high) :
    firstBeyond entries o low high hhigh = entries.countP (· ≤ o) := by
  have hat (mid : Nat) (hmid : mid < entries.size) :
      mid < entries.countP (· ≤ o) ↔ entries[mid] ≤ o := by
    rw [← Array.countP_toList]
    apply lt_countP_iff hsorted
    simp [hmid]
  fun_induction firstBeyond entries o low high hhigh with
  | case1 low high hhigh hlt mid hmid hle ih =>
    exact ih ((hat mid hmid).mpr hle) hcount
  | case2 low high hhigh hlt mid hmid hnot ih =>
    apply ih hlow
    exact Nat.not_lt.mp ((hat mid hmid).not.mpr hnot)
  | case3 low high hhigh hdone => omega

namespace Layout

variable {l : Layout} {o i j : Nat}

/-- Offset `o` lies between the ends of file `i`. -/
def Holds (l : Layout) (i o : Nat) : Prop := i < l.sizes.length ∧ l.start i ≤ o ∧ o < l.stop i

/-- Looks up the file of an offset by halving; a step back from the start of the table fails. -/
def search? (l : Layout) (o : Nat) : Option (Option Nat) :=
  if o < l.total then (firstBeyond l.starts o 0 l.starts.size le_rfl).ppred.map some else some none

theorem pairwise_starts (l : Layout) : l.starts.toList.Pairwise (· ≤ ·) := by
  rw [l.starts_eq]
  exact pairwise_startsFrom (Nat.zero_le _)

theorem search?_eq (l : Layout) (o : Nat) : l.search? o = some (l.containing o) := by
  have hfound : firstBeyond l.starts o 0 l.starts.size le_rfl = l.starts.countP (· ≤ o) :=
    firstBeyond_eq_countP l.pairwise_starts le_rfl (Nat.zero_le _) Array.countP_le_size
  unfold search? containing
  split
  · obtain ⟨k, hk⟩ := Nat.exists_eq_succ_of_ne_zero (l.countP_starts_pos o).ne'
    rw [hfound, hk]
    rfl
  · rfl

theorem containing_eq_some_iff_holds : l.containing o = some i ↔ l.Holds i o := by
  rw [containing_eq_some_iff, fileCount_eq, Holds, stop]

theorem exists_holds_iff : (∃ i, l.Holds i o) ↔ o < l.total := by
  simp only [← containing_eq_some_iff_holds, containing]
  split <;> simp_all

theorem Holds.unique (hi : l.Holds i o) (hj : l.Holds j o) : i = j := by
  rw [← containing_eq_some_iff_holds] at hi hj
  exact Option.some.inj (hi.symm.trans hj)

theorem Holds.size_pos (h : l.Holds i o) : 0 < l.size i :=
  Nat.sub_pos_of_lt (h.2.1.trans_lt h.2.2)

/-- For any sizes the starts are the running sums of the sizes as far as the line goes, in order, and
an offset is looked up in the one file that holds it. There is one exactly on the line, and it has
content. -/
theorem containing_exact (sizes : List Nat) :
    let l := ofSizes sizes
    l.starts.size = sizes.length + 1 ∧ l.starts.toList.Pairwise (· ≤ ·) ∧
      (∀ i, l.start i = min (sizes.take i).sum maxOffset) ∧
      ∀ o, (∀ i, l.containing o = some i ↔ l.Holds i o) ∧
        ((∃ i, l.Holds i o) ↔ o < l.total) ∧
        (∀ i j, l.Holds i o → l.Holds j o → i = j) ∧
        (∀ i, l.Holds i o → 0 < l.size i) ∧
        l.search? o = some (l.containing o) := by
  intro l
  refine ⟨l.size_starts, l.pairwise_starts, l.start_eq_min, fun o => ?_⟩
  refine ⟨fun i => containing_eq_some_iff_holds, exists_holds_iff, ?_, ?_, l.search?_eq o⟩
  · intro i j hi hj
    exact hi.unique hj
  · intro i hi
    exact hi.size_pos

/-- The line is cut off inside of the third file, the second and the fourth have no content. -/
theorem containing_exact_full :
    let l := ofSizes [10, 0, maxOffset, 5]
    l.Holds 2 10 ∧ 0 < l.size 2 ∧ l.search? 10 = some (some 2) ∧ ¬∃ i, l.Holds i maxOffset := by
  intro l
  obtain ⟨-, -, -, hlookup⟩ := containing_exact [10, 0, maxOffset, 5]
  obtain ⟨hfound, -, -, hcontent, hsearch⟩ := hlookup 10
  have hholds : l.Holds 2 10 := by unfold Holds; decide
  refine ⟨hholds, hcontent 2 hholds, ?_, ?_⟩
  · rw [hsearch, (hfound 2).mpr hholds]
  · rw [(hlookup maxOffset).2.1]
    decide

end Layout
end ClonePlot
