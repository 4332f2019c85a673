import ClonePlot.Proofs.Gesture

/-! # Larger rectangles select more

A rectangle selects the files along its rows and those along its columns, whether or not the two
touch. Each side begins with the file shown at its first pixel on the drawing and ends with the
file at its last one, pixels past the end of the line standing for the last file; so a longer side
takes in all the files of a shorter one. Tiny rectangles are no exception, as they contain no
others.
-/
namespace ClonePlot

attribute [ext] PixelRect

namespace PixelRect

variable {r r' : PixelRect}

def Fits (r : PixelRect) : Prop :=
  r.x1 - r.x0 + 1 ≤ Int64.maxValue.toInt ∧ r.y1 - r.y0 + 1 ≤ Int64.maxValue.toInt

instance (r : PixelRect) : Decidable r.Fits := inferInstanceAs (Decidable (_ ∧ _))

theorem contained_iff : (∀ p, r.contains p → r'.contains p) ↔
    (r'.x0 ≤ r.x0 ∧ r.x1 ≤ r'.x1) ∧ r'.y0 ≤ r.y0 ∧ r.y1 ≤ r'.y1 := by
  have hx := r.x_le
  have hy := r.y_le
  simp only [contains_iff]
  constructor
  · intro h
    have hfirst := h ⟨r.x0, r.y0⟩ ⟨le_rfl, hx, le_rfl, hy⟩
    have hlast := h ⟨r.x1, r.y1⟩ ⟨hx, le_rfl, hy, le_rfl⟩
    dsimp only at hfirst hlast
    omega
  · intro h p hp
    omega

theorem Fits.measured (h : r.Fits) : r.Measured :=
  ⟨Int.lt_iff_add_one_le.mpr h.1, .inr (Int.lt_iff_add_one_le.mpr h.2)⟩

theorem eq_of_contained_of_single (hsingle : r'.x0 = r'.x1 ∧ r'.y0 = r'.y1)
    (hsub : ∀ p, r.contains p → r'.contains p) : r = r' := by
  have hx := r.x_le
  have hy := r.y_le
  have hbounds := contained_iff.mp hsub
  exact PixelRect.ext (by omega) (by omega) (by omega) (by omega)

end PixelRect

namespace Mapper

variable {m : Mapper} {low high low' high' : Int} {side : FileRange} {i : Nat}

/-- The first file is shown at the first pixel that is not before the drawing, the last file at
the last pixel. -/
theorem axisFiles?_eq_some_iff_of_le (hle : low ≤ high) : m.axisFiles? low high = some side ↔
    0 ≤ high ∧ m.file? (max low 0) false = some side.first ∧
      m.file? high true = some side.last := by
  rw [axisFiles?_eq_some_iff]
  constructor
  · rintro ⟨hhigh, hshown, hfirst, last, hlast, hmax⟩
    have hmono := file?_true_mono (max_le hle hhigh) hfirst hlast
    rw [← Option.isSome_map (f := Position.file)] at hshown
    obtain ⟨first, hshown⟩ := Option.isSome_iff_exists.mp hshown
    cases hfirst.symm.trans (file?_true_of_file?_false hshown)
    exact ⟨hhigh, hshown, hmax.trans (max_eq_left hmono) ▸ hlast⟩
  · rintro ⟨hhigh, hfirst, hlast⟩
    have hrounded := file?_true_of_file?_false hfirst
    have hmono := file?_true_mono (max_le hle hhigh) hrounded hlast
    have hshown := Option.isSome_of_eq_some hfirst
    rw [file?, Option.isSome_map] at hshown
    exact ⟨hhigh, hshown, hrounded, side.last, hlast, (max_eq_left hmono).symm⟩

theorem isSome_file?_false_of_le {p q : Int} (hp : 0 ≤ p) (hpq : p ≤ q)
    (h : (m.file? q false).isSome) : (m.file? p false).isSome := by
  have hzoom : (0 : Int) ≤ m.zoom := Int.natCast_nonneg _
  obtain ⟨hcontent, -, hlt⟩ := isSome_file?_false.mp h
  have hscaled := Int.mul_le_mul_of_nonneg_right hpq hzoom
  exact isSome_file?_false.mpr ⟨hcontent, Int.mul_nonneg hp hzoom, hscaled.trans_lt hlt⟩

theorem axisFiles?_mono (hle : low ≤ high) (hlow : low' ≤ low) (hhigh : high ≤ high')
    (h : m.axisFiles? low high = some side) : ∃ side', m.axisFiles? low' high' = some side' ∧
      side'.first ≤ side.first ∧ side.last ≤ side'.last := by
  obtain ⟨hpos, hfirst, hlast⟩ := (axisFiles?_eq_some_iff_of_le hle).mp h
  have hstart : max low' 0 ≤ max low 0 := max_le_max hlow le_rfl
  obtain ⟨first, hfirst'⟩ := Option.isSome_iff_exists.mp
    (isSome_file?_false_of_le (le_max_right _ _) hstart (Option.isSome_of_eq_some hfirst))
  obtain ⟨last, hlast'⟩ : ∃ last, m.file? high' true = some last := by
    rw [← Option.isSome_iff_exists, file?, Option.isSome_map, isSome_position?_true]
    exact (isSome_file?_false.mp (Option.isSome_of_eq_some hfirst)).1
  refine ⟨⟨first, last⟩, (axisFiles?_eq_some_iff_of_le (hlow.trans (hle.trans hhigh))).mpr
    ⟨hpos.trans hhigh, hfirst', hlast'⟩, ?_, file?_true_mono hhigh hlast hlast'⟩
  exact file?_true_mono hstart (file?_true_of_file?_false hfirst')
    (file?_true_of_file?_false hfirst)

theorem exists_mem_axisFiles?_mono (hle : low ≤ high) (hlow : low' ≤ low) (hhigh : high ≤ high')
    (h : ∃ side ∈ m.axisFiles? low high, i ∈ side) :
    ∃ side ∈ m.axisFiles? low' high', i ∈ side := by
  obtain ⟨side, hside, hi⟩ := h
  obtain ⟨side', hside', hfirst, hlast⟩ := axisFiles?_mono hle hlow hhigh hside
  exact ⟨side', hside', hfirst.trans hi.1, hi.2.trans hlast⟩

variable {r r' : PixelRect} {d d' : DragSelection}

theorem inRows_inCols_mono (h : m.dragSelection r = .ok d) (h' : m.dragSelection r' = .ok d')
    (hsub : ∀ p, r.contains p → r'.contains p) :
    (d.InRows i → d'.InRows i) ∧ (d.InCols i → d'.InCols i) := by
  obtain ⟨hx, hy⟩ := PixelRect.contained_iff.mp hsub
  have hd' := (dragSelection_eq_ok_iff.mp h').2
  split at hd'
  · rename_i hmiss
    cases PixelRect.eq_of_contained_of_single hmiss.1 hsub
    cases h.symm.trans h'
    exact ⟨id, id⟩
  · subst hd'
    constructor
    · rintro ⟨rows, hrows, hi⟩
      exact exists_mem_axisFiles?_mono r.y_le hy.1 hy.2 ⟨rows, axisFiles?_of_mem_rows h hrows, hi⟩
    · rintro ⟨cols, hcols, hi⟩
      exact exists_mem_axisFiles?_mono r.x_le hx.1 hx.2 ⟨cols, axisFiles?_of_mem_cols h hcols, hi⟩

/-- A rectangle whose extents fit selects the files along its rows and columns, which are files of
the corpus, and every such rectangle around it selects them too. -/
theorem dragSelection_grows (m : Mapper) (r : PixelRect) :
    (r.Fits → ∃ d, m.dragSelection r = .ok d) ∧
    ∀ d, m.dragSelection r = .ok d →
      (∀ i, i ∈ d.files ↔ d.InRows i ∨ d.InCols i) ∧
      (∀ i ∈ d.files, i < m.layout.fileCount) ∧
      ∀ r' : PixelRect, r'.Fits → (∀ p, r.contains p → r'.contains p) →
        ∃ d', m.dragSelection r' = .ok d' ∧
          ∀ i, (d.InRows i → d'.InRows i) ∧ (d.InCols i → d'.InCols i) ∧
            (i ∈ d.files → i ∈ d'.files) := by
  refine ⟨fun hfits => exists_dragSelection_iff.mpr hfits.measured, fun d h => ?_⟩
  refine ⟨fun i => mem_files_of_dragSelection h, fun i => lt_fileCount_of_dragSelection h, ?_⟩
  intro r' hfits hsub
  obtain ⟨d', h'⟩ := exists_dragSelection_iff.mpr hfits.measured
  refine ⟨d', h', fun i => ?_⟩
  obtain ⟨hrows, hcols⟩ := inRows_inCols_mono (i := i) h h' hsub
  refine ⟨hrows, hcols, fun hi => ?_⟩
  exact (mem_files_of_dragSelection h').mpr
    (((mem_files_of_dragSelection h).mp hi).imp hrows hcols)

/-- A click on the third file, and a strip around it that reaches past both ends of the line. -/
theorem dragSelection_grows_strip :
    let m : Mapper := ⟨.ofSizes [2, 0, 2, 2], 3⟩
    let r : PixelRect := .ofCorners ⟨1, 0⟩ ⟨1, 0⟩
    let r' : PixelRect := .ofCorners ⟨-1, -1⟩ ⟨5, 0⟩
    r.Fits ∧ r'.Fits ∧ (∀ p, r.contains p → r'.contains p) ∧
      ∃ d d', m.dragSelection r = .ok d ∧ m.dragSelection r' = .ok d' ∧ d.InCols 2 ∧
        d'.InCols 2 := by
  intro m r r'
  have hr : r.Fits := by decide
  have hr' : r'.Fits := by decide
  have hsub : ∀ p, r.contains p → r'.contains p := PixelRect.contained_iff.mpr (by decide)
  have hd : m.dragSelection r = .ok (m.sideFiles r) :=
    dragSelection_eq_sideFiles (by decide) (by decide)
  obtain ⟨-, hgrows⟩ := dragSelection_grows m r
  obtain ⟨d', hd', hmono⟩ := (hgrows _ hd).2.2 r' hr' hsub
  have hcols : (m.sideFiles r).InCols 2 := ⟨⟨2, 2⟩, by decide, le_rfl, le_rfl⟩
  exact ⟨hr, hr', hsub, _, d', hd, hd', hcols, (hmono 2).2.1 hcols⟩

end Mapper
end ClonePlot
