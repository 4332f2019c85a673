import ClonePlot.Proofs.Layout
import ClonePlot.Proofs.Model.Rows

/-! # Sizes of long corpora

A model is refused its total if its sizes leave a 64-bit word on the way, the offset line is cut
off at the last offset. So the two agree about every corpus whose total is known, and about a longer
one the line goes on by itself; there a fragment at the end of its file can stop past the end of the
line.
-/
namespace ClonePlot

theorem Fragment.Within.sizes {files : Array SourceFile} {f : Fragment} (h : f.Within files) :
    f.start < f.stop ∧
      ∃ size, (files.toList.map SourceFile.size)[f.file]? = some size ∧ f.stop ≤ size := by
  obtain ⟨file, hfile, hlt, hle⟩ := h
  refine ⟨hlt, file.size, ?_, hle⟩
  rw [List.getElem?_map, Array.getElem?_toList, hfile, Option.map_some]

namespace Model

variable {m : Model} {f : Fragment}

theorem foldlM_addOffsets_eq_ok_iff {sizes : List Nat} {acc n : Nat} (hacc : acc ≤ maxOffset) :
    sizes.foldlM addOffsets acc = .ok n ↔ n = acc + sizes.sum ∧ n ≤ maxOffset := by
  induction sizes generalizing acc with
  | nil =>
    rw [List.foldlM_nil, List.sum_nil, Nat.add_zero]
    exact ⟨fun h => Except.ok.inj h ▸ ⟨rfl, hacc⟩, fun h => congrArg _ h.1.symm⟩
  | cons size rest ih =>
    rw [List.foldlM_cons, bind_eq_ok_iff, List.sum_cons, ← Nat.add_assoc]
    constructor
    · rintro ⟨_, hadd, hrest⟩
      obtain ⟨rfl, hfits⟩ := addOffsets_eq_ok_iff.mp hadd
      exact (ih (Nat.le_pred_of_lt hfits)).mp hrest
    · rintro ⟨rfl, hle⟩
      have hfits : acc + size ≤ maxOffset := (Nat.le_add_right _ _).trans hle
      exact ⟨_, addOffsets_eq_ok_iff.mpr ⟨rfl, Nat.lt_of_le_pred (by decide) hfits⟩,
        (ih hfits).mpr ⟨rfl, hle⟩⟩

/-- A total that is known is the length of the line. -/
theorem totalSize_eq_ok_iff {n : Nat} : m.totalSize = .ok n ↔
    n = (Layout.ofSizes m.sizes).total ∧ m.sizes.sum ≤ maxOffset := by
  have htotal : (Layout.ofSizes m.sizes).total = min m.sizes.sum maxOffset := Layout.total_eq_min _
  rw [totalSize, foldlM_addOffsets_eq_ok_iff (Nat.zero_le _), htotal]
  omega

/-- All files up to that of a fragment are together no longer than the corpus. -/
theorem sum_take_add_stop_le (hf : f.Within m.files) :
    (m.sizes.take f.file).sum + f.stop ≤ m.sizes.sum := by
  obtain ⟨-, size, hsize, hle⟩ := hf.sizes
  obtain ⟨hfile, hentry⟩ := List.getElem?_eq_some_iff.mp hsize
  have hnext : (m.sizes.take (f.file + 1)).sum = (m.sizes.take f.file).sum + size :=
    hentry ▸ List.sum_take_succ _ _ hfile
  have hall := (List.take_sublist (f.file + 1) m.sizes).sum_le_sum fun _ _ => Nat.zero_le _
  omega

/-- A fragment that stops within a word starts before the line is cut off, as it has content. -/
theorem stop_fits_iff (hf : f.Within m.files) :
    let stop := (Layout.ofSizes m.sizes).start f.file + f.stop
    (stop < UInt64.size ↔ (m.sizes.take f.file).sum + f.stop ≤ maxOffset) ∧
      (stop < UInt64.size → stop ≤ (Layout.ofSizes m.sizes).total) := by
  have hcontent : f.start < f.stop := hf.sizes.1
  have hend := sum_take_add_stop_le hf
  have hstart : (Layout.ofSizes m.sizes).start f.file =
      min (m.sizes.take f.file).sum maxOffset := Layout.start_eq_min _ _
  have htotal : (Layout.ofSizes m.sizes).total = min m.sizes.sum maxOffset := Layout.total_eq_min _
  dsimp only
  rw [hstart, htotal]
  unfold maxOffset UInt64.size
  omega

/-- A model and its offset line agree on a corpus that fits into a word. A longer one has no total,
and a fragment of it stops on the line exactly if the sizes before its file leave room for it. -/
theorem sizes_agree_iff (m : Model) :
    let l := Layout.ofSizes m.sizes
    (m.sizes.sum ≤ maxOffset → m.totalSize = .ok l.total ∧
      ∀ p ∈ m.views, ∀ f ∈ [p.left, p.right],
        l.offset f.file f.stop = .ok (l.start f.file + f.stop) ∧
          l.start f.file + f.stop ≤ l.total) ∧
    (∀ n, m.totalSize = .ok n ↔ n = l.total ∧ m.sizes.sum ≤ maxOffset) ∧
    ∀ p ∈ m.views, ∀ f ∈ [p.left, p.right],
      ((∃ stop, l.offset f.file f.stop = .ok stop) ↔
        (m.sizes.take f.file).sum + f.stop ≤ maxOffset) ∧
      ∀ stop, l.offset f.file f.stop = .ok stop → stop = l.start f.file + f.stop ∧
        stop ≤ l.total := by
  intro l
  have hwithin : ∀ p ∈ m.views, ∀ f ∈ [p.left, p.right], f.Within m.files := by
    intro p hp
    obtain ⟨i, hrow⟩ := mem_views.mp hp
    simpa [ClonePair.Within] using within_of_mem_row hrow
  refine ⟨fun hsum => ⟨totalSize_eq_ok_iff.mpr ⟨rfl, hsum⟩, fun p hp f hf => ?_⟩,
    fun n => totalSize_eq_ok_iff, fun p hp f hf => ⟨?_, fun stop hstop => ?_⟩⟩
  · obtain ⟨hfits, hon⟩ := stop_fits_iff (hwithin p hp f hf)
    have hword := hfits.mpr ((sum_take_add_stop_le (hwithin p hp f hf)).trans hsum)
    exact ⟨addOffsets_eq_ok_iff.mpr ⟨rfl, hword⟩, hon hword⟩
  · rw [← (stop_fits_iff (hwithin p hp f hf)).1]
    simp only [Layout.offset, addOffsets_eq_ok_iff, exists_eq_left, l]
  · obtain ⟨rfl, hword⟩ := addOffsets_eq_ok_iff.mp hstop
    exact ⟨rfl, (stop_fits_iff (hwithin p hp f hf)).2 hword⟩

/-- The second of two files of `2 ^ 63` offsets has one past the end of the line. -/
def long : Model where
  files := #[⟨0, "a", 9223372036854775808⟩, ⟨1, "b", 9223372036854775808⟩]
  pairs := [⟨7, ⟨1, 0, 9223372036854775807⟩, ⟨1, 1, 9223372036854775808⟩⟩]
  pairs_within := firstFault?_eq_none_iff (i := 0).mp (by decide)

theorem mem_views_long :
    ⟨7, ⟨1, 0, 9223372036854775807⟩, ⟨1, 1, 9223372036854775808⟩⟩ ∈ long.views :=
  mem_views.mpr ⟨1, mem_row.mpr ⟨by decide, rfl, _, List.mem_cons_self, by decide⟩⟩

/-- The first fragment stops at the last offset, the second one has no stop on the line. -/
theorem sizes_agree_iff_long :
    let l := Layout.ofSizes long.sizes
    (∃ p ∈ long.views, (∃ stop, l.offset p.left.file p.left.stop = .ok stop ∧ stop ≤ l.total) ∧
      ¬∃ stop, l.offset p.right.file p.right.stop = .ok stop) ∧
    ∀ n, long.totalSize ≠ .ok n := by
  intro l
  obtain ⟨-, htotal, hstop⟩ := sizes_agree_iff long
  have hstop := hstop _ mem_views_long
  obtain ⟨hleft, hon⟩ := hstop _ List.mem_cons_self
  obtain ⟨stop, hoffset⟩ := hleft.mpr (by decide)
  refine ⟨⟨_, mem_views_long, ⟨stop, hoffset, (hon stop hoffset).2⟩, ?_⟩, fun n => ?_⟩
  · exact (hstop _ (List.mem_cons_of_mem _ List.mem_cons_self)).1.not.mpr (by decide)
  · exact (htotal n).not.mpr fun h => absurd h.2 (by decide)

/-- Neither the total nor the stop of a fragment can be added up, though the line has a length. -/
theorem sizes_differ :
    let l := Layout.ofSizes long.sizes
    long.totalSize = .error .add ∧ l.total = maxOffset ∧
      ∃ p ∈ long.views, l.offset p.right.file p.right.stop = .error .add := by
  intro l
  exact ⟨by decide, by decide, _, mem_views_long, by decide⟩

end Model
end ClonePlot
