import Mathlib
import ClonePlot.Model

/-! # What the rows of a model hold

The rows together hold each view of each listed pair as often as it is listed. Turning every
view around gives the same collection. A row is sorted, and holds a view exactly as often as
the row of the other file holds the opposite view.
-/
namespace ClonePlot

/-- A list dealt out by a key below `n` and gathered again. -/
theorem perm_flatMap_filter {α : Type} (key : α → Nat) (n : Nat) (l : List α) :
    ((List.range n).flatMap fun i => l.filter (key · == i)).Perm (l.filter (key · < n)) := by
  induction n with
  | zero => simp
  | succ n ih =>
    rw [List.range_succ, List.flatMap_append, List.flatMap_singleton]
    have hsplit := List.filter_append_perm (key · < n) (l.filter (key · < n + 1))
    have hlow : (l.filter (key · < n + 1)).filter (key · < n) = l.filter (key · < n) := by
      rw [List.filter_filter]
      refine List.filter_congr fun a _ => ?_
      simp only [← Bool.decide_and]
      exact decide_eq_decide.mpr (by omega)
    have hhigh : (l.filter (key · < n + 1)).filter (fun a => ! decide (key a < n)) =
        l.filter (key · == n) := by
      rw [List.filter_filter]
      refine List.filter_congr fun a _ => ?_
      rw [Bool.eq_iff_iff]
      simp
      omega
    rw [hlow, hhigh] at hsplit
    exact (ih.append_right _).trans hsplit

namespace ClonePair

theorem rowLe_iff {p q : ClonePair} : p.rowLe q ↔ p.rowKey ≤ q.rowKey := by
  unfold rowLe rowKey
  simp only [List.compare_cons_cons, Ordering.isLE_then_iff_or, Nat.compare_eq_lt,
    Nat.compare_eq_eq, Std.compare_self, Ordering.isLE_eq, le_iff_lt_or_eq,
    List.cons_lt_cons_iff, List.cons.injEq, List.not_lt_nil]
  tauto

theorem flipped_injective : Function.Injective flipped := by
  intro p q h
  rw [← p.flipped_flipped, h, q.flipped_flipped]

theorem perm_map_flipped_orientations (p : ClonePair) :
    (p.orientations.map flipped).Perm p.orientations := by
  unfold orientations
  by_cases h : p.flipped = p
  · rw [if_pos h, List.map_singleton, h]
  · simp only [if_neg h, List.map_cons, List.map_nil, flipped_flipped]
    exact .swap _ _ _

theorem perm_map_flipped_flatMap_orientations (pairs : List ClonePair) :
    ((pairs.flatMap orientations).map flipped).Perm (pairs.flatMap orientations) := by
  rw [List.map_flatMap]
  exact List.Perm.flatMap_left _ fun p _ => p.perm_map_flipped_orientations

/-- The second views come from the pairs that differ from their flip. -/
theorem perm_flatMap_orientations (pairs : List ClonePair) :
    (pairs.flatMap orientations).Perm
      (pairs ++ (pairs.filter fun p => p.flipped != p).map flipped) := by
  induction pairs with
  | nil => exact .refl _
  | cons p rest ih =>
    rw [List.flatMap_cons, List.cons_append]
    by_cases h : p.flipped = p
    · rw [orientations, if_pos h, List.filter_cons_of_neg (by simpa using h)]
      exact ih.cons p
    · rw [orientations, if_neg h, List.filter_cons_of_pos (by simpa using h)]
      exact ((ih.cons p.flipped).trans List.perm_middle.symm).cons p

theorem mem_orientations_iff {p q : ClonePair} : q ∈ p.orientations ↔ q = p ∨ q = p.flipped := by
  unfold orientations
  split
  · rename_i hself
    simp [hself]
  · simp

theorem Within.flipped {files : Array SourceFile} {p : ClonePair} (h : p.Within files) :
    p.flipped.Within files := ⟨h.2, h.1⟩

theorem Within.of_mem_orientations {files : Array SourceFile} {p q : ClonePair}
    (h : p.Within files) (hq : q ∈ p.orientations) : q.Within files := by
  rcases mem_orientations_iff.mp hq with rfl | rfl
  · exact h
  · exact h.flipped

theorem Within.left_lt_of_mem {files : Array SourceFile} {p q : ClonePair} (h : p.Within files)
    (hq : q ∈ p.orientations) : q.left.file < files.size := by
  obtain ⟨⟨_, hleft, _⟩, -⟩ := h.of_mem_orientations hq
  exact (Array.getElem?_eq_some_iff.mp hleft).1

end ClonePair

namespace Model

theorem mem_row {m : Model} {i : Nat} {p : ClonePair} :
    p ∈ m.row i ↔ i < m.fileCount ∧ p.left.file = i ∧ ∃ q ∈ m.pairs, p ∈ q.orientations := by
  rw [row_eq]
  by_cases hi : i < m.fileCount
  · rw [if_pos hi, List.mem_mergeSort, List.mem_filter, List.mem_flatMap, beq_iff_eq]
    exact ⟨fun h => ⟨hi, h.2, h.1⟩, fun h => ⟨h.2.2, h.2.1⟩⟩
  · rw [if_neg hi]
    exact ⟨fun h => absurd h List.not_mem_nil, fun h => absurd h.1 hi⟩

theorem within_of_mem_row {m : Model} {i : Nat} {p : ClonePair} (h : p ∈ m.row i) :
    p.Within m.files := by
  obtain ⟨-, -, q, hq, hp⟩ := mem_row.mp h
  exact (m.pairs_within q hq).of_mem_orientations hp

theorem perm_row (m : Model) (i : Nat) :
    (m.row i).Perm ((m.pairs.flatMap ClonePair.orientations).filter (·.left.file == i)) := by
  rw [row_eq]
  split
  · exact List.mergeSort_perm _ _
  · rename_i hi
    have hnone : (m.pairs.flatMap ClonePair.orientations).filter (·.left.file == i) = [] := by
      refine List.filter_eq_nil_iff.mpr fun q hq hfile => hi ?_
      obtain ⟨p, hp, hq⟩ := List.mem_flatMap.mp hq
      rw [← beq_iff_eq.mp hfile]
      exact (m.pairs_within p hp).left_lt_of_mem hq
    rw [hnone]

theorem pairwise_row (m : Model) (i : Nat) :
    (m.row i).Pairwise fun p q => p.rowKey ≤ q.rowKey := by
  rw [row_eq]
  split
  · exact (List.pairwise_mergeSort ClonePair.rowLe_trans ClonePair.rowLe_total _).imp
      ClonePair.rowLe_iff.mp
  · exact .nil

/-- A view is in the row of its left file as often as there is a listed pair with that view. -/
theorem count_row (m : Model) (q : ClonePair) :
    (m.row q.left.file).count q = (m.pairs.flatMap ClonePair.orientations).count q := by
  rw [(m.perm_row _).count_eq]
  exact List.count_filter (beq_self_eq_true _)

theorem count_row_flipped (m : Model) (q : ClonePair) :
    (m.row q.right.file).count q.flipped = (m.row q.left.file).count q := by
  have hflip := (ClonePair.perm_map_flipped_flatMap_orientations m.pairs).count_eq q.flipped
  rw [List.count_map_of_injective _ _ ClonePair.flipped_injective] at hflip
  rw [m.count_row q, hflip]
  exact m.count_row q.flipped

def views (m : Model) : List ClonePair := (List.range m.fileCount).flatMap m.row

theorem mem_views {m : Model} {p : ClonePair} : p ∈ m.views ↔ ∃ i, p ∈ m.row i := by
  unfold views
  rw [List.mem_flatMap]
  constructor
  · rintro ⟨i, -, hp⟩
    exact ⟨i, hp⟩
  · rintro ⟨i, hp⟩
    exact ⟨i, List.mem_range.mpr (mem_row.mp hp).1, hp⟩

theorem mem_row_iff_mem_views {m : Model} {i : Nat} {p : ClonePair} :
    p ∈ m.row i ↔ p ∈ m.views ∧ p.left.file = i := by
  rw [mem_views]
  constructor
  · exact fun hp => ⟨⟨i, hp⟩, (mem_row.mp hp).2.1⟩
  · rintro ⟨⟨j, hp⟩, rfl⟩
    exact (mem_row.mp hp).2.1 ▸ hp

theorem perm_views (m : Model) : m.views.Perm (m.pairs.flatMap ClonePair.orientations) := by
  have hrows := List.Perm.flatMap_left (List.range m.fileCount) fun i _ => m.perm_row i
  have hall : (m.pairs.flatMap ClonePair.orientations).filter (·.left.file < m.fileCount) =
      m.pairs.flatMap ClonePair.orientations := by
    refine List.filter_eq_self.mpr fun q hq => decide_eq_true ?_
    obtain ⟨p, hp, hq⟩ := List.mem_flatMap.mp hq
    exact (m.pairs_within p hp).left_lt_of_mem hq
  have hdeal := perm_flatMap_filter (·.left.file) m.fileCount
    (m.pairs.flatMap ClonePair.orientations)
  rw [hall] at hdeal
  exact hrows.trans hdeal

theorem perm_map_flipped_views (m : Model) : (m.views.map ClonePair.flipped).Perm m.views :=
  ((m.perm_views.map _).trans (ClonePair.perm_map_flipped_flatMap_orientations _)).trans
    m.perm_views.symm

theorem flipped_mem_views {m : Model} {p : ClonePair} (h : p ∈ m.views) : p.flipped ∈ m.views :=
  m.perm_map_flipped_views.mem_iff.mp (List.mem_map_of_mem h)

theorem left_lt_of_mem_views {m : Model} {p : ClonePair} (h : p ∈ m.views) :
    p.left.file < m.fileCount := by
  obtain ⟨i, hp⟩ := mem_views.mp h
  obtain ⟨hi, hleft, -⟩ := mem_row.mp hp
  exact hleft ▸ hi

theorem right_lt_of_mem_views {m : Model} {p : ClonePair} (h : p ∈ m.views) :
    p.right.file < m.fileCount := left_lt_of_mem_views (flipped_mem_views h)

theorem eq_of_ofPairs {files : Array SourceFile} {pairs : List ClonePair} {m : Model}
    (h : ofPairs files pairs = .ok m) : m.files = files ∧ m.pairs = pairs := by
  unfold ofPairs at h
  split at h
  · cases h
  · cases h
    exact ⟨rfl, rfl⟩

/-- Row `i` holds the pairs listed with `i` on the left and the flips of those listed with `i` on
the right, except where the flip is the pair itself. It is sorted, and holds each view as often
as the row of the other file holds the opposite view. -/
theorem row_of_ofPairs {files : Array SourceFile} {pairs : List ClonePair} {m : Model}
    (h : ofPairs files pairs = .ok m) (i : Nat) :
    (m.row i).Perm (pairs.filter (·.left.file == i) ++
        (pairs.filter fun p => p.right.file == i && p.flipped != p).map ClonePair.flipped) ∧
      (m.row i).Pairwise (fun p q => p.rowKey ≤ q.rowKey) ∧
      ∀ q ∈ m.row i, (m.row i).count q = (m.row q.right.file).count q.flipped := by
  refine ⟨?_, m.pairwise_row i, fun q hq => ?_⟩
  · have hviews := (ClonePair.perm_flatMap_orientations pairs).filter (·.left.file == i)
    rw [List.filter_append, List.filter_map, List.filter_filter] at hviews
    rw [← (eq_of_ofPairs h).2] at hviews ⊢
    exact (m.perm_row i).trans hviews
  · have hleft : q.left.file = i := (mem_row.mp hq).2.1
    rw [m.count_row_flipped q, hleft]

/-- A pair between two files is listed twice, another pair is its own flip. -/
theorem row_of_ofPairs_repeated :
    let p : ClonePair := ⟨3, ⟨0, 2, 5⟩, ⟨1, 0, 3⟩⟩
    let q : ClonePair := ⟨4, ⟨1, 1, 2⟩, ⟨1, 1, 2⟩⟩
    ∃ m, ofPairs #[⟨0, "a", 8⟩, ⟨1, "b", 4⟩] [p, q, p] = .ok m ∧
      (m.row 1).Perm [q, p.flipped, p.flipped] ∧ (m.row 0).count p = 2 := by
  intro p q
  have haccepted : ∃ m, ofPairs #[⟨0, "a", 8⟩, ⟨1, "b", 4⟩] [p, q, p] = .ok m := ⟨_, rfl⟩
  obtain ⟨m, hm⟩ := haccepted
  refine ⟨m, hm, (row_of_ofPairs hm 1).1, ?_⟩
  rw [(row_of_ofPairs hm 0).1.count_eq]
  decide

/-- A file whose halves are clones of each other. -/
def halves : Model where
  files := #[⟨0, "a", 8⟩]
  pairs := [⟨7, ⟨0, 0, 4⟩, ⟨0, 4, 8⟩⟩]
  pairs_within := firstFault?_eq_none_iff (i := 0).mp (by decide)

end Model
end ClonePlot
