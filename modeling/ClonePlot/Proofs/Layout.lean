import Mathlib
import ClonePlot.Mapper

/-! # Order on the offset line

Start offsets do not decrease and stay within 64 bits, also where the line has been cut off. An
offset on the line lies between the ends of exactly one file, the one that contains it. Pixels
inherit the order as long as they do not wrap; a pixel that has not wrapped has no wrapped pixel
before it.
-/
namespace ClonePlot

/-- A number in the upper half of the 64-bit words wraps to a negative one. -/
theorem wrap64_natCast {n : Nat} (h : n ≤ maxOffset) :
    wrap64 n = if n < 9223372036854775808 then (n : Int) else n - 18446744073709551616 := by
  unfold maxOffset UInt64.size at h
  unfold wrap64 UInt64.size
  rw [Int.bmod_def]
  have hmod : (n : Int) % (18446744073709551616 : Nat) = n := by omega
  rw [hmod]
  split <;> split <;> omega

theorem bounds_of_mem_startsFrom {acc x : Nat} {sizes : List Nat} (hacc : acc ≤ maxOffset)
    (hx : x ∈ startsFrom acc sizes) : acc ≤ x ∧ x ≤ maxOffset := by
  induction sizes generalizing acc with
  | nil =>
    cases List.mem_singleton.mp hx
    exact ⟨le_rfl, hacc⟩
  | cons size rest ih =>
    rcases List.mem_cons.mp hx with rfl | hx
    · exact ⟨le_rfl, hacc⟩
    · have h := ih (Nat.min_le_right _ _) hx
      omega

theorem pairwise_startsFrom {acc : Nat} {sizes : List Nat} (hacc : acc ≤ maxOffset) :
    (startsFrom acc sizes).Pairwise (· ≤ ·) := by
  induction sizes generalizing acc with
  | nil => exact List.pairwise_singleton _ _
  | cons size rest ih =>
    refine .cons (fun x hx => ?_) (ih (Nat.min_le_right _ _))
    have h := bounds_of_mem_startsFrom (Nat.min_le_right _ _) hx
    omega

/-- A start offset is the sum of the sizes before, cut off at the last offset. -/
theorem getElem?_startsFrom {acc k : Nat} {sizes : List Nat} (hacc : acc ≤ maxOffset)
    (hk : k ≤ sizes.length) :
    (startsFrom acc sizes)[k]? = some (min (acc + (sizes.take k).sum) maxOffset) := by
  induction sizes generalizing acc k with
  | nil =>
    cases Nat.le_zero.mp hk
    exact congrArg some (Nat.min_eq_left hacc).symm
  | cons size rest ih =>
    cases k with
    | zero => exact congrArg some (Nat.min_eq_left hacc).symm
    | succ k =>
      rw [startsFrom, List.getElem?_cons_succ,
        ih (Nat.min_le_right _ _) (Nat.le_of_succ_le_succ hk), List.take_succ_cons, List.sum_cons]
      exact congrArg some (by omega)

theorem lt_countP_iff {l : List Nat} (h : l.Pairwise (· ≤ ·)) {k x : Nat} (hx : l[k]? = some x)
    (o : Nat) : k < l.countP (· ≤ o) ↔ x ≤ o := by
  induction l generalizing k with
  | nil => cases hx
  | cons a rest ih =>
    obtain ⟨ha, hrest⟩ := List.pairwise_cons.mp h
    by_cases hao : a ≤ o
    · rw [List.countP_cons, if_pos (decide_eq_true hao)]
      cases k with
      | zero =>
        cases hx
        exact ⟨fun _ => hao, fun _ => Nat.succ_pos _⟩
      | succ k => rw [Nat.succ_lt_succ_iff, ih hrest hx]
    · -- nothing after an entry beyond `o` can be at most `o`
      have hbeyond : ∀ y ∈ a :: rest, ¬ y ≤ o := by
        intro y hy
        rcases List.mem_cons.mp hy with rfl | hy
        · exact hao
        · exact fun hyo => hao ((ha y hy).trans hyo)
      have hnone : (a :: rest).countP (· ≤ o) = 0 :=
        List.countP_eq_zero.mpr fun y hy hyo => hbeyond y hy (of_decide_eq_true hyo)
      rw [hnone]
      exact ⟨fun hk => absurd hk (Nat.not_lt_zero k),
        fun hxo => absurd hxo (hbeyond x (List.mem_of_getElem? hx))⟩

/-- In a strictly increasing list the last entry of a kind is the greatest one. -/
theorem getLast?_filter_eq_some_iff {l : List Nat} (h : l.Pairwise (· < ·)) {p : Nat → Bool}
    {j : Nat} : (l.filter p).getLast? = some j ↔ IsGreatest {i | i ∈ l ∧ p i} j := by
  constructor
  · intro hlast
    obtain ⟨before, hsplit⟩ := List.getLast?_eq_some_iff.mp hlast
    have hsorted : (before ++ [j]).Pairwise (· < ·) := hsplit ▸ h.filter p
    have hmem (i : Nat) : i ∈ before ++ [j] ↔ i ∈ l ∧ p i := by rw [← hsplit, List.mem_filter]
    refine ⟨(hmem j).mp (List.mem_append_right before List.mem_cons_self), fun i hi => ?_⟩
    rcases List.mem_append.mp ((hmem i).mpr hi) with hbefore | hj
    · exact ((List.pairwise_append.mp hsorted).2.2 i hbefore j List.mem_cons_self).le
    · exact (List.mem_singleton.mp hj).le
  · rintro ⟨hj, hgreatest⟩
    obtain ⟨before, after, hsplit⟩ := List.append_of_mem (List.mem_filter.mpr hj)
    cases after with
    | nil => rw [hsplit, List.getLast?_concat]
    | cons k after =>
      -- an entry of the kind after `j` would be greater
      have hk : k ∈ l.filter p := by simp [hsplit]
      have hsorted := (List.pairwise_append.mp (hsplit ▸ h.filter p)).2.1
      have hlt : j < k := (List.pairwise_cons.mp hsorted).1 k List.mem_cons_self
      exact absurd (hgreatest (List.mem_filter.mp hk)) (Nat.not_le.mpr hlt)

/-- A sequence that gets past `x` gets past it in one step. -/
theorem exists_le_lt_succ {f : Nat → Int} {a b : Nat} {x : Int} (hab : a ≤ b) (ha : f a ≤ x)
    (hb : x < f b) : ∃ j, (a ≤ j ∧ j < b) ∧ f j ≤ x ∧ x < f (j + 1) := by
  induction b, hab using Nat.le_induction with
  | base => omega
  | succ b hab ih =>
    by_cases hx : x < f b
    · obtain ⟨j, hj, hstep⟩ := ih hx
      exact ⟨j, ⟨hj.1, Nat.lt_succ_of_lt hj.2⟩, hstep⟩
    · exact ⟨b, ⟨hab, Nat.lt_succ_self b⟩, Int.not_lt.mp hx, hb⟩

namespace Layout

theorem start_le_maxOffset (l : Layout) (i : Nat) : l.start i ≤ maxOffset :=
  (bounds_of_mem_startsFrom (Nat.zero_le _) (List.mem_of_getElem? (l.getElem?_start i))).2

theorem start_mono (l : Layout) {i j : Nat} (hij : i ≤ j) : l.start i ≤ l.start j := by
  obtain ⟨hi, hi'⟩ := List.getElem?_eq_some_iff.mp (l.getElem?_start i)
  obtain ⟨hj, hj'⟩ := List.getElem?_eq_some_iff.mp (l.getElem?_start j)
  have hsorted := List.pairwise_iff_getElem.mp
    (pairwise_startsFrom (Nat.zero_le maxOffset) : (startsFrom 0 l.sizes).Pairwise (· ≤ ·))
  rcases Nat.lt_or_ge (min i l.sizes.length) (min j l.sizes.length) with hlt | hge
  · exact hi' ▸ hj' ▸ hsorted _ _ hi hj hlt
  · have heq : min i l.sizes.length = min j l.sizes.length := by omega
    have hsame : l.start i = l.start j := by
      rw [← hi', ← hj']
      congr 1
    exact hsame.le

variable {l : Layout} {o i : Nat}

theorem start_zero (l : Layout) : l.start 0 = 0 := by
  have hstart := l.getElem?_start 0
  rw [Nat.zero_min] at hstart
  cases hsizes : l.sizes with
  | nil =>
    rw [hsizes] at hstart
    exact (Option.some.inj hstart).symm
  | cons size rest =>
    rw [hsizes] at hstart
    exact (Option.some.inj hstart).symm

theorem start_le_total (l : Layout) (i : Nat) : l.start i ≤ l.total := by
  rcases Nat.le_total i l.fileCount with hi | hi
  · exact l.start_mono hi
  · have hstart := l.getElem?_start i
    have htotal := l.getElem?_start l.fileCount
    rw [← fileCount_eq, Nat.min_eq_right hi] at hstart
    rw [← fileCount_eq, Nat.min_self] at htotal
    exact (Option.some.inj (hstart.symm.trans htotal)).le

theorem start_eq_min (l : Layout) (i : Nat) :
    l.start i = min (l.sizes.take i).sum maxOffset := by
  have h := l.getElem?_start i
  rw [getElem?_startsFrom (Nat.zero_le _) (Nat.min_le_right _ _), Nat.zero_add,
    ← List.take_eq_take_min] at h
  exact (Option.some.inj h).symm

theorem total_eq_min (l : Layout) : l.total = min l.sizes.sum maxOffset := by
  rw [total, start_eq_min, fileCount_eq, List.take_length]

/-- On a line that is not cut off the files before a file are as long as they are together. -/
theorem start_eq_sum (hsum : l.sizes.sum ≤ maxOffset) (i : Nat) :
    l.start i = (l.sizes.take i).sum := by
  have hle := (List.take_sublist i l.sizes).sum_le_sum fun _ _ => Nat.zero_le _
  rw [start_eq_min, Nat.min_eq_left (hle.trans hsum)]

theorem start_succ {l : Layout} {i : Nat} (hsum : l.sizes.sum ≤ maxOffset)
    (hi : i < l.sizes.length) : l.start (i + 1) = l.start i + l.sizes[i] := by
  rw [start_eq_sum hsum, start_eq_sum hsum, List.sum_take_succ _ _ hi]

theorem lt_countP_starts_iff (hi : i ≤ l.fileCount) :
    i < l.starts.countP (· ≤ o) ↔ l.start i ≤ o := by
  have hstart := l.getElem?_start i
  rw [Nat.min_eq_left (l.fileCount_eq ▸ hi)] at hstart
  rw [l.starts_eq, List.countP_toArray]
  exact lt_countP_iff (pairwise_startsFrom (Nat.zero_le _)) hstart o

theorem countP_starts_pos (l : Layout) (o : Nat) : 0 < l.starts.countP (· ≤ o) := by
  apply (lt_countP_starts_iff (Nat.zero_le _)).mpr
  simp [start_zero]

/-- The file that contains an offset is the one between whose ends it lies. -/
theorem containing_eq_some_iff :
    l.containing o = some i ↔ i < l.fileCount ∧ l.start i ≤ o ∧ o < l.start (i + 1) := by
  have hfirst := l.countP_starts_pos o
  unfold containing
  constructor
  · intro h
    split at h
    · rename_i htotal
      cases h
      have hlast := (lt_countP_starts_iff (o := o) l.fileCount.le_refl).not.mpr (Nat.not_le.mpr htotal)
      have hi : l.starts.countP (· ≤ o) - 1 < l.fileCount := by omega
      refine ⟨hi, (lt_countP_starts_iff hi.le).mp (by omega), ?_⟩
      exact Nat.not_le.mp ((lt_countP_starts_iff hi).not.mp (by omega))
    · cases h
  · rintro ⟨hi, hlow, hhigh⟩
    have hat := (lt_countP_starts_iff hi.le).mpr hlow
    have hpast := (lt_countP_starts_iff (o := o) hi).not.mpr (Nat.not_le.mpr hhigh)
    rw [if_pos (hhigh.trans_le (l.start_le_total _))]
    exact congrArg some (by omega)

theorem containing_mono {o' j : Nat} (hle : o ≤ o') (hi : l.containing o = some i)
    (hj : l.containing o' = some j) : i ≤ j := by
  obtain ⟨-, hlow, -⟩ := containing_eq_some_iff.mp hi
  obtain ⟨-, -, hhigh⟩ := containing_eq_some_iff.mp hj
  by_contra hji
  have hstart := l.start_mono (Nat.add_one_le_iff.mpr (Nat.not_le.mp hji))
  omega

theorem isEmpty_eq_false_of_lt (h : o < l.total) : l.isEmpty = false := by
  have htotal : l.total ≠ 0 := by omega
  have hfiles : l.fileCount ≠ 0 := by
    intro hnone
    rw [total, hnone, start_zero] at h
    omega
  rw [isEmpty, beq_false_of_ne htotal, beq_false_of_ne hfiles, Bool.or_false]

end Layout

namespace Mapper

theorem pixel_mono (m : Mapper) {a b : Nat} (hab : a ≤ b) (hb : b ≤ maxOffset)
    (h : 0 ≤ m.pixel b) : 0 ≤ m.pixel a ∧ m.pixel a ≤ m.pixel b := by
  have hle : a / m.zoom ≤ b / m.zoom := Nat.div_le_div_right hab
  have hmax : b / m.zoom ≤ maxOffset := (Nat.div_le_self b m.zoom).trans hb
  unfold pixel at *
  rw [wrap64_natCast hmax] at *
  rw [wrap64_natCast (hle.trans hmax)]
  have hword : maxOffset = 18446744073709551615 := rfl
  generalize a / m.zoom = x at *
  generalize b / m.zoom = y at *
  split at h <;> split <;> omega

theorem startPixel_mono (m : Mapper) {i j : Nat} (hij : i ≤ j) (h : 0 ≤ m.startPixel j) :
    0 ≤ m.startPixel i ∧ m.startPixel i ≤ m.startPixel j :=
  m.pixel_mono (m.layout.start_mono hij) (m.layout.start_le_maxOffset j) h

end Mapper
end ClonePlot
