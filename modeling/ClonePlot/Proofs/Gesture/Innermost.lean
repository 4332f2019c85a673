import ClonePlot.Proofs.Gesture

/-! # The innermost box around a click

Boxes of files that lie apart share no pixel. So of two boxes around a click one is inside of the
other, and the list names it first. Zoomed out, both may have the same pixels; that the first of
the smallest boxes is taken is what makes it the innermost.
-/
namespace ClonePlot

/-- Of boxes that do not get smaller the first is taken. -/
theorem smallestBox?_eq_head? {boxes : List DirectoryBox}
    (h : boxes.Pairwise (·.extent ≤ ·.extent)) : smallestBox? boxes = boxes.head? := by
  induction boxes with
  | nil => rfl
  | cons b rest ih =>
    obtain ⟨hfirst, hrest⟩ := List.pairwise_cons.mp h
    unfold smallestBox?
    rw [ih hrest]
    cases rest with
    | nil => rfl
    | cons c rest => exact if_neg (Int.not_lt.mpr (hfirst c List.mem_cons_self))

namespace Directories

variable {t : Directories} {m : Mapper} {a b : DirectoryBox} {p : Point}

theorem pairwise_boxes (t : Directories) (m : Mapper) : (t.boxes m).Pairwise fun a b =>
    a.files.stop ≤ b.files.start ∨ b.files.Encloses a.files :=
  List.pairwise_map.mp (t.nested_boxes m).pairwise

theorem not_apart_of_containsPixel (hdraw : m.drawSize < UInt32.size) (ha : a ∈ t.boxes m)
    (hb : b ∈ t.boxes m) {x : Int} (hxa : a.containsPixel x) (hxb : b.containsPixel x) :
    ¬a.files.stop ≤ b.files.start := by
  intro hapart
  have hpixel := stopPixel_le_startPixel hdraw ha hb hapart
  rw [DirectoryBox.containsPixel_iff] at hxa hxb
  omega

theorem extent_le_of_encloses (hdraw : m.drawSize < UInt32.size) (ha : a ∈ t.boxes m)
    (hb : b ∈ t.boxes m) (h : b.files.Encloses a.files) : a.extent ≤ b.extent := by
  obtain ⟨hstart, hstop⟩ := pixels_of_encloses hdraw hb ha h
  unfold DirectoryBox.extent
  omega

/-- The boxes around a point are listed from the inside to the outside. -/
theorem pairwise_encloses_of_contains (hdraw : m.drawSize < UInt32.size) (p : Point) :
    ((t.boxes m).filter (·.Contains p)).Pairwise fun a b => b.files.Encloses a.files := by
  rw [List.pairwise_filter]
  refine (t.pairwise_boxes m).imp_of_mem fun ha hb hab hpa hpb => ?_
  rw [decide_eq_true_eq] at hpa hpb
  exact hab.resolve_left (not_apart_of_containsPixel hdraw ha hb hpa.1 hpb.1)

theorem boxAt?_eq_head? (hdraw : m.drawSize < UInt32.size) :
    boxAt? (t.boxes m) p = ((t.boxes m).filter (·.Contains p)).head? := by
  rw [boxAt?_eq]
  refine smallestBox?_eq_head? ((pairwise_encloses_of_contains hdraw p).imp_of_mem ?_)
  intro a b ha hb hab
  exact extent_le_of_encloses hdraw (List.mem_filter.mp ha).1 (List.mem_filter.mp hb).1 hab

/-- A click finds no box exactly if none is around it, and otherwise one that lies in every box
around it. -/
theorem boxAt?_innermost (paths : List String) (sizes : List Nat) (drawSize : UInt32) (p : Point) :
    let boxes := (ofPaths paths).boxes ⟨.ofSizes sizes, drawSize.toNat⟩
    (boxAt? boxes p = none ↔ ∀ b ∈ boxes, ¬b.Contains p) ∧
      ∀ b, boxAt? boxes p = some b → b ∈ boxes ∧ b.Contains p ∧
        ∀ c ∈ boxes, c.Contains p →
          c.files.start ≤ b.files.start ∧ b.files.stop ≤ c.files.stop := by
  intro boxes
  have hdraw : (⟨.ofSizes sizes, drawSize.toNat⟩ : Mapper).drawSize < UInt32.size :=
    drawSize.toNat_lt_size
  refine ⟨boxAt?_eq_none_iff, fun b hb => ⟨mem_of_boxAt? hb, contains_of_boxAt? hb, ?_⟩⟩
  rw [boxAt?_eq_head? hdraw, List.head?_eq_some_iff] at hb
  obtain ⟨later, haround⟩ := hb
  intro c hc hinside
  have hnested := pairwise_encloses_of_contains (t := ofPaths paths) hdraw p
  have hlisted : c ∈ boxes.filter (·.Contains p) :=
    List.mem_filter.mpr ⟨hc, decide_eq_true hinside⟩
  rw [haround] at hnested hlisted
  rcases List.mem_cons.mp hlisted with rfl | hlater
  · exact ⟨le_rfl, le_rfl⟩
  · have henclosed := List.rel_of_pairwise_cons hnested hlater
    exact ⟨henclosed.1, henclosed.2.1⟩

/-- Four offsets to a pixel, both folders end in the block of the second pixel. -/
theorem boxAt?_innermost_collapsed :
    let boxes := (ofPaths ["p/a/x", "p/y", "z"]).boxes ⟨.ofSizes [4, 1, 3], (2 : UInt32).toNat⟩
    let a : DirectoryBox := ⟨"a", 0, 1, ⟨0, 1⟩, some 1⟩
    let b : DirectoryBox := ⟨"p", 0, 1, ⟨0, 2⟩, none⟩
    boxAt? boxes ⟨0, 0⟩ = some a ∧ (b ∈ boxes ∧ b.Contains ⟨0, 0⟩ ∧ b.extent = a.extent) ∧
      b.files.start ≤ a.files.start ∧ a.files.stop ≤ b.files.stop := by
  intro boxes a b
  have hboxes : boxes = [a, b] := by
    subst boxes a b
    cbv
  have hfound : boxAt? boxes ⟨0, 0⟩ = some a := by
    rw [hboxes]
    decide
  have hlisted : b ∈ boxes := hboxes ▸ by decide
  have hinside : b.Contains ⟨0, 0⟩ := by decide
  obtain ⟨-, hfirst⟩ := boxAt?_innermost ["p/a/x", "p/y", "z"] [4, 1, 3] 2 ⟨0, 0⟩
  exact ⟨hfound, ⟨hlisted, hinside, rfl⟩, (hfirst a hfound).2.2 b hlisted hinside⟩

end Directories
end ClonePlot
