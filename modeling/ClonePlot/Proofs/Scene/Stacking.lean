import ClonePlot.Proofs.Scene.Reflection

/-! # Which marker lies on top

Markers are drawn row by row, and each row in its own order. So of the markers that reach a pixel
the one of the greatest pair lies on top: by the left file, then by the right one, then by where
the left and the right fragment start. At the reflected pixel the same pairs are compared from
their other side. Opaque colors of a measure are symmetric exactly where both comparisons lead to
the same color.
-/
namespace ClonePlot
open Canvas

namespace ClonePair

/-- What the markers are drawn in the order of. -/
def paintKey (p : ClonePair) : List Nat := p.left.file :: p.rowKey

theorem paintKey_le_iff {p q : ClonePair} : p.paintKey ≤ q.paintKey ↔
    p.left.file < q.left.file ∨ p.left.file = q.left.file ∧ p.rowKey ≤ q.rowKey := by
  simp only [paintKey, le_iff_lt_or_eq, List.cons_lt_cons_iff, List.cons.injEq]
  tauto

theorem classId_eq_of_paintKey_eq {p q : ClonePair} (h : p.paintKey = q.paintKey) :
    p.classId = q.classId := by
  simp only [paintKey, rowKey, List.cons.injEq] at h
  exact h.2.2.2.2.1

end ClonePair

theorem Model.pairwise_views (m : Model) :
    m.views.Pairwise fun p q => p.paintKey ≤ q.paintKey := by
  unfold views
  refine List.pairwise_flatMap.mpr ⟨fun i _ => ?_, ?_⟩
  · refine (m.pairwise_row i).imp_of_mem fun {p q} hp hq hle => ?_
    have hfile : p.left.file = q.left.file := (mem_row.mp hp).2.1.trans (mem_row.mp hq).2.1.symm
    exact ClonePair.paintKey_le_iff.mpr (.inr ⟨hfile, hle⟩)
  · refine List.pairwise_lt_range.imp fun {i j} hij p hp q hq => ?_
    refine ClonePair.paintKey_le_iff.mpr (.inl ?_)
    rwa [(mem_row.mp hp).2.1, (mem_row.mp hq).2.1]

namespace Scene

variable {s : Scene} {c : Canvas} {q : Point} {p r : ClonePair} {key : ClonePair → List Nat}

def Reaches (s : Scene) (p : ClonePair) (q : Point) : Prop := 0 < (s.mapper.marker p).coats q

instance (s : Scene) (p : ClonePair) (q : Point) : Decidable (s.Reaches p q) :=
  inferInstanceAs (Decidable (0 < (s.mapper.marker p).coats q))

/-- The pair whose marker is drawn last on a pixel. -/
def top? (s : Scene) (q : Point) : Option ClonePair :=
  (s.markedPairs.filter (s.Reaches · q)).getLast?

/-- None of the pairs that reach the pixel has a greater key. -/
structure IsFront (s : Scene) (key : ClonePair → List Nat) (q : Point) (p : ClonePair) : Prop where
  mem : p ∈ s.model.views
  reaches : s.Reaches p q
  greatest : ∀ r ∈ s.model.views, s.Reaches r q → key r ≤ key p

theorem reaches_flipped_swap : s.Reaches p.flipped q.swap ↔ s.Reaches p q := by
  unfold Reaches
  rw [Mapper.marker_flipped, Marker.coats_swap]

theorem IsFront.flipped (h : s.IsFront key q.swap p) :
    s.IsFront (fun r => key r.flipped) q p.flipped where
  mem := Model.flipped_mem_views h.mem
  reaches := reaches_flipped_swap.mp h.reaches
  greatest r hr hreach :=
    h.greatest r.flipped (Model.flipped_mem_views hr) (reaches_flipped_swap.mpr hreach)

theorem IsFront.key_eq (hp : s.IsFront key q p) (hr : s.IsFront key q r) : key p = key r :=
  le_antisymm (hr.greatest p hp.mem hp.reaches) (hp.greatest r hr.mem hr.reaches)

theorem isFront_of_top? (h : s.top? q = some p) : s.IsFront ClonePair.paintKey q p := by
  obtain ⟨before, hpile⟩ := List.getLast?_eq_some_iff.mp h
  have hmem (r : ClonePair) :
      r ∈ before ++ [p] ↔ r ∈ s.model.views ∧ s.Reaches r q := by
    rw [← hpile, List.mem_filter, decide_eq_true_eq]
    rfl
  have hp := (hmem p).mp (List.mem_append_right before List.mem_cons_self)
  refine ⟨hp.1, hp.2, fun r hr hreach => ?_⟩
  have hsorted : (before ++ [p]).Pairwise fun p q => p.paintKey ≤ q.paintKey :=
    hpile ▸ s.model.pairwise_views.filter _
  rcases List.mem_append.mp ((hmem r).mpr ⟨hr, hreach⟩) with hbefore | hlast
  · exact (List.pairwise_append.mp hsorted).2.2 r hbefore p List.mem_cons_self
  · rw [List.mem_singleton.mp hlast]

theorem exists_top?_iff : (∃ p, s.top? q = some p) ↔ 0 < s.markerCoats q := by
  rw [← Option.isSome_iff_exists, top?, List.getLast?_isSome, ne_eq, List.eq_nil_iff_forall_not_mem,
    not_forall_not, markerCoats,
    List.sum_pos_iff_exists_pos_nat]
  simp only [List.mem_filter, decide_eq_true_eq, List.mem_map, exists_exists_and_eq_and]
  rfl

theorem markerColor_congr (h : p.classId = r.classId) : s.markerColor p = s.markerColor r := by
  rw [markerColor, markerColor, h]

theorem pixel?_mark_of_top? (hsolid : ∀ p ∈ s.model.views, (s.markerColor p).alpha = 255)
    (hq : c.Holds q) (h : s.top? q = some p) :
    (s.mark c).pixel? q = some (s.markerColor p) := by
  have hpixel : c.pixel? q = some _ := dif_pos hq
  have hseen (d : Color) : s.markedPairs.foldl
      (fun d p => (s.markerColor p).coat ((s.mapper.marker p).coats q) d) d =
        ((s.top? q).map s.markerColor).getD d := foldl_coat_eq_getLast? hsolid d
  rw [(s.painted_mark c).pixel?, hpixel, Option.map_some, hseen, h]
  rfl

/-- A painted pixel shows the pair that is greatest by the key, its reflection the one greatest by
the key of the other side. -/
theorem markerColor_mirrored_iff (s : Scene) (c : Canvas) (q : Point)
    (hsquare : c.width = c.height) (hq : c.Holds q)
    (hsolid : ∀ p ∈ s.model.views, (s.markerColor p).alpha = 255)
    (hpainted : 0 < s.markerCoats q) :
    ∃ p p', s.top? q = some p ∧ s.top? q.swap = some p' ∧
      (s.mark c).pixel? q = some (s.markerColor p) ∧
      (s.mark c).pixel? q.swap = some (s.markerColor p') ∧
      (s.markerColor p = s.markerColor p' ↔
        ∃ r r', s.IsFront ClonePair.paintKey q r ∧ s.IsFront (·.flipped.paintKey) q r' ∧
          s.markerColor r = s.markerColor r') := by
  obtain ⟨p, hp⟩ := exists_top?_iff.mpr hpainted
  obtain ⟨p', hp'⟩ := exists_top?_iff.mpr ((s.markerCoats_swap q).symm ▸ hpainted)
  have hfront := isFront_of_top? hp
  have hback := (isFront_of_top? hp').flipped
  have hq' : c.Holds q.swap := by
    obtain ⟨hx, hx', hy, hy'⟩ := hq
    exact ⟨hy, hsquare ▸ hy', hx, hsquare ▸ hx'⟩
  refine ⟨p, p', hp, hp', pixel?_mark_of_top? hsolid hq hp, pixel?_mark_of_top? hsolid hq' hp',
    fun hcolor => ⟨p, p'.flipped, hfront, hback, hcolor⟩, ?_⟩
  rintro ⟨r, r', hr, hr', hcolor⟩
  have hclass : p.classId = r.classId := ClonePair.classId_eq_of_paintKey_eq (hfront.key_eq hr)
  have hclass' : p'.classId = r'.classId :=
    ClonePair.classId_eq_of_paintKey_eq (p := p') (q := r'.flipped) (hback.key_eq hr')
  rw [markerColor_congr hclass, hcolor, markerColor_congr hclass'.symm]

end Scene

/-- Two dots of two classes on one pixel. Along both files the second class comes later. -/
def Model.aligned : Model where
  files := #[⟨0, "a", 4⟩, ⟨1, "b", 4⟩]
  pairs := [⟨1, ⟨0, 0, 1⟩, ⟨1, 0, 1⟩⟩, ⟨2, ⟨0, 1, 2⟩, ⟨1, 1, 2⟩⟩]
  pairs_within := firstFault?_eq_none_iff (i := 0).mp (by decide)

/-- The same dots, but along the second file the first class comes later. -/
def Model.crossed : Model where
  files := #[⟨0, "a", 4⟩, ⟨1, "b", 4⟩]
  pairs := [⟨1, ⟨0, 0, 1⟩, ⟨1, 1, 2⟩⟩, ⟨2, ⟨0, 1, 2⟩, ⟨1, 0, 1⟩⟩]
  pairs_within := firstFault?_eq_none_iff (i := 0).mp (by decide)

namespace Scene

/-- The first two classes in blue and in red. -/
def ofTwoClasses (m : Model) : Scene where
  model := m
  mapper := m.mapper 4
  directories := m.directories
  boxes := []
  frontier := m.frontier
  options := {}
  palette := .standard
  coloring := some ⟨.ofRows #["len"] [(1, #[0]), (2, #[1])], 0, .standard⟩
  selected := ∅
  drag := none

theorem alpha_markerColor_ofTwoClasses {m : Model}
    (h : ∀ p ∈ m.views, p.classId = 1 ∨ p.classId = 2) :
    ∀ p ∈ m.views, ((ofTwoClasses m).markerColor p).alpha = 255 := by
  intro p hp
  unfold markerColor
  rcases h p hp with hclass | hclass
  · rw [hclass]
    rfl
  · rw [hclass]
    rfl

/-- The pair of the second class comes last along both axes. -/
theorem markerColor_mirrored_iff_aligned :
    let s := ofTwoClasses .aligned
    let c := Canvas.blank 4 4 ⟨255, 255, 255, 255⟩
    (c.width = c.height ∧ c.Holds ⟨2, 0⟩ ∧ (∀ p ∈ s.model.views, (s.markerColor p).alpha = 255) ∧
      0 < s.markerCoats ⟨2, 0⟩) ∧
    ∃ p p', s.top? ⟨2, 0⟩ = some p ∧ s.top? ⟨0, 2⟩ = some p' ∧
      s.markerColor p = s.markerColor p' := by
  intro s c
  have hviews : s.model.views = [⟨1, ⟨0, 0, 1⟩, ⟨1, 0, 1⟩⟩, ⟨2, ⟨0, 1, 2⟩, ⟨1, 1, 2⟩⟩,
    ⟨1, ⟨1, 0, 1⟩, ⟨0, 0, 1⟩⟩, ⟨2, ⟨1, 1, 2⟩, ⟨0, 1, 2⟩⟩] := by cbv
  have hsolid : ∀ p ∈ s.model.views, (s.markerColor p).alpha = 255 :=
    alpha_markerColor_ofTwoClasses (hviews ▸ by decide)
  have hpainted : 0 < s.markerCoats ⟨2, 0⟩ := by
    rw [markerCoats, hviews]
    decide
  have hheld : c.Holds ⟨2, 0⟩ := by decide
  have hfront (key : ClonePair → List Nat)
      (hkey : key ⟨1, ⟨0, 0, 1⟩, ⟨1, 0, 1⟩⟩ ≤ key ⟨2, ⟨0, 1, 2⟩, ⟨1, 1, 2⟩⟩) :
      s.IsFront key ⟨2, 0⟩ ⟨2, ⟨0, 1, 2⟩, ⟨1, 1, 2⟩⟩ := by
    refine ⟨by rw [hviews]; decide, by decide, ?_⟩
    rw [hviews]
    simp only [List.mem_cons, List.not_mem_nil, or_false, forall_eq_or_imp, forall_eq]
    exact ⟨fun _ => hkey, fun _ => le_rfl, fun h => absurd h (by decide),
      fun h => absurd h (by decide)⟩
  obtain ⟨p, p', hp, hp', -, -, hcolor⟩ :=
    markerColor_mirrored_iff s c ⟨2, 0⟩ rfl hheld hsolid hpainted
  exact ⟨⟨rfl, hheld, hsolid, hpainted⟩, p, p', hp, hp',
    hcolor.mpr ⟨_, _, hfront _ (by decide), hfront _ (by decide), rfl⟩⟩

/-- The pair that comes last along the rows comes first along the columns. -/
theorem markerColor_not_mirrored :
    let s := ofTwoClasses .crossed
    let c := Canvas.blank 4 4 ⟨255, 255, 255, 255⟩
    (∀ p ∈ s.model.views, (s.markerColor p).alpha = 255) ∧ 0 < s.markerCoats ⟨2, 0⟩ ∧
      c.Holds ⟨2, 0⟩ ∧
      s.top? ⟨2, 0⟩ = some ⟨2, ⟨0, 1, 2⟩, ⟨1, 0, 1⟩⟩ ∧
      s.top? ⟨0, 2⟩ = some ⟨1, ⟨1, 1, 2⟩, ⟨0, 0, 1⟩⟩ ∧
      (s.mark c).pixel? ⟨2, 0⟩ = some ⟨255, 0, 0, 255⟩ ∧
      (s.mark c).pixel? ⟨0, 2⟩ = some ⟨0, 0, 255, 255⟩ := by
  intro s c
  have hviews : s.model.views = [⟨1, ⟨0, 0, 1⟩, ⟨1, 1, 2⟩⟩, ⟨2, ⟨0, 1, 2⟩, ⟨1, 0, 1⟩⟩,
    ⟨2, ⟨1, 0, 1⟩, ⟨0, 1, 2⟩⟩, ⟨1, ⟨1, 1, 2⟩, ⟨0, 0, 1⟩⟩] := by cbv
  have hsolid : ∀ p ∈ s.model.views, (s.markerColor p).alpha = 255 :=
    alpha_markerColor_ofTwoClasses (hviews ▸ by decide)
  have hpainted : 0 < s.markerCoats ⟨2, 0⟩ := by
    rw [markerCoats, hviews]
    decide
  have htop (q : Point) : s.top? q = (s.model.views.filter (s.Reaches · q)).getLast? := rfl
  have habove : s.top? ⟨2, 0⟩ = some ⟨2, ⟨0, 1, 2⟩, ⟨1, 0, 1⟩⟩ := by
    rw [htop, hviews]
    decide
  have hbelow : s.top? ⟨0, 2⟩ = some ⟨1, ⟨1, 1, 2⟩, ⟨0, 0, 1⟩⟩ := by
    rw [htop, hviews]
    decide
  exact ⟨hsolid, hpainted, by decide, habove, hbelow,
    pixel?_mark_of_top? hsolid (by decide) habove, pixel?_mark_of_top? hsolid (by decide) hbelow⟩

end Scene
end ClonePlot
