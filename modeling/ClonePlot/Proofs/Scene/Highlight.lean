import ClonePlot.Proofs.Mapper
import ClonePlot.Proofs.Scene.Gap
import ClonePlot.Proofs.Scene.Span

/-! # The highlight covers the selected files

The pixels of a run are those of its files one after the other. A run whose files have no pixel gets
the one it starts on. The blocks of the highlight are all the products of two runs, so together they
are the square of these pixels.
-/
namespace ClonePlot
open Canvas

namespace Scene

variable {s : Scene} {c : Canvas} {q : Point} {x : Int} {rows cols : Int × Int}
  {slot : PaletteSlot} {run : Nat × Nat}

/-- The pixels of the selected files, and the starts of the selected runs that have no pixel. -/
def Highlighted (s : Scene) (x : Int) : Prop :=
  (∃ i ∈ s.selected, i < s.fileCount ∧ s.mapper.startPixel i ≤ x ∧
      x < s.mapper.startPixel (i + 1)) ∨
    ∃ run, (s.selected.filter (· < s.fileCount)).IsRun run ∧
      s.mapper.startPixel run.1 = s.mapper.startPixel run.2 ∧ x = s.mapper.startPixel run.1

/-- The colors that one block lays on a pixel, in order. -/
def blockLayers (rows cols : Int × Int) (q : Point) : List PaletteSlot :=
  (if InRect cols.1 rows.1 (cols.2 + 1) (rows.2 + 1) q then [.selectionFill] else []) ++
    if OnBorder cols.1 rows.1 cols.2 rows.2 q then [.selectionOutline] else []

def highlightLayers (s : Scene) (q : Point) : List PaletteSlot :=
  s.selectedSpans.flatMap fun rows => s.selectedSpans.flatMap fun cols => blockLayers rows cols q

/-- The colors of the slots, each blended over what was there. -/
def lay (s : Scene) (slots : List PaletteSlot) (d : Color) : Color :=
  slots.foldl (fun d slot => (s.color slot).blendOver d) d

theorem blockEffect_eq_lay (s : Scene) (rows cols : Int × Int) (q : Point) (d : Color) :
    s.blockEffect rows cols q d = s.lay (blockLayers rows cols q) d := by
  unfold blockEffect blockLayers
  split_ifs <;> rfl

theorem painted_lay (s : Scene) (c : Canvas) :
    Painted (fun q => s.lay (s.highlightLayers q)) c (s.highlight c) := by
  refine (s.painted_highlight c).congr fun q => funext fun d => ?_
  simp only [blockEffect_eq_lay]
  unfold lay highlightLayers
  simp only [List.foldl_flatMap]

theorem fill_mem_blockLayers (hy : onSpan q.y rows) (hx : onSpan q.x cols) :
    .selectionFill ∈ blockLayers rows cols q := by
  rw [blockLayers, if_pos (inRect_iff_onSpan.mpr ⟨hy, hx⟩)]
  exact List.mem_cons_self

theorem onSpan_of_mem_blockLayers (h : slot ∈ blockLayers rows cols q) :
    onSpan q.y rows ∧ onSpan q.x cols := by
  rw [← inRect_iff_onSpan]
  by_contra houtside
  rw [blockLayers, if_neg houtside, if_neg (not_onBorder_of_not_inRect houtside)] at h
  cases h

theorem onSpan_runSpan_iff (hle : s.mapper.startPixel run.1 ≤ s.mapper.startPixel run.2) :
    onSpan x (s.runSpan run) ↔
      (s.mapper.startPixel run.1 ≤ x ∧ x < s.mapper.startPixel run.2) ∨
        s.mapper.startPixel run.1 = s.mapper.startPixel run.2 ∧ x = s.mapper.startPixel run.1 := by
  rw [onSpan_iff]
  unfold runSpan
  dsimp only
  omega

/-- The spans of the runs are made up of the pixels of their files. -/
theorem exists_onSpan_iff (hdraw : s.mapper.drawSize < UInt32.size) :
    (∃ span ∈ s.selectedSpans, onSpan x span) ↔ s.Highlighted x := by
  have hmono {i j : Nat} (hij : i ≤ j) : s.mapper.startPixel i ≤ s.mapper.startPixel j :=
    Mapper.startPixel_le_startPixel hdraw hij
  constructor
  · rintro ⟨span, hspan, hx⟩
    obtain ⟨run, hrun, rfl⟩ := List.mem_map.mp hspan
    have hmaximal := IndexSet.mem_runs_iff.mp hrun
    rcases (onSpan_runSpan_iff (hmono hmaximal.lt.le)).mp hx with ⟨hlow, hhigh⟩ | hempty
    · obtain ⟨i, ⟨hfirst, hlast⟩, hpixel⟩ := exists_le_lt_succ hmaximal.lt.le hlow hhigh
      obtain ⟨hselected, hcount⟩ := IndexSet.mem_filter.mp (hmaximal.mem i hfirst hlast)
      exact .inl ⟨i, hselected, of_decide_eq_true hcount, hpixel⟩
    · exact .inr ⟨run, hmaximal, hempty⟩
  · rintro (⟨i, hselected, hcount, hlow, hhigh⟩ | ⟨run, hmaximal, hempty⟩)
    · have hlive : i ∈ s.selected.filter (· < s.fileCount) :=
        IndexSet.mem_filter.mpr ⟨hselected, decide_eq_true hcount⟩
      obtain ⟨run, hrun, hfirst, hlast⟩ := IndexSet.mem_iff_exists_run.mp hlive
      refine ⟨s.runSpan run, List.mem_map_of_mem hrun, ?_⟩
      apply (onSpan_runSpan_iff (hmono (by omega))).mpr
      exact .inl ⟨(hmono hfirst).trans hlow, hhigh.trans_le (hmono hlast)⟩
    · refine ⟨s.runSpan run, List.mem_map_of_mem (IndexSet.mem_runs_iff.mpr hmaximal), ?_⟩
      exact (onSpan_runSpan_iff (hmono hmaximal.lt.le)).mpr (.inr hempty)

theorem highlighted_of_mem_highlightLayers (hdraw : s.mapper.drawSize < UInt32.size)
    (h : slot ∈ s.highlightLayers q) : s.Highlighted q.x ∧ s.Highlighted q.y := by
  obtain ⟨rows, hrows, h⟩ := List.mem_flatMap.mp h
  obtain ⟨cols, hcols, h⟩ := List.mem_flatMap.mp h
  obtain ⟨hy, hx⟩ := onSpan_of_mem_blockLayers h
  exact ⟨(exists_onSpan_iff hdraw).mp ⟨cols, hcols, hx⟩,
    (exists_onSpan_iff hdraw).mp ⟨rows, hrows, hy⟩⟩

theorem fill_mem_highlightLayers (hdraw : s.mapper.drawSize < UInt32.size)
    (hx : s.Highlighted q.x) (hy : s.Highlighted q.y) :
    .selectionFill ∈ s.highlightLayers q := by
  obtain ⟨cols, hcols, hx⟩ := (exists_onSpan_iff hdraw).mpr hx
  obtain ⟨rows, hrows, hy⟩ := (exists_onSpan_iff hdraw).mpr hy
  apply List.mem_flatMap.mpr
  exact ⟨rows, hrows, List.mem_flatMap.mpr ⟨cols, hcols, fill_mem_blockLayers hy hx⟩⟩

/-- The highlight covers the square of the selected pixels: it fills every pixel of the square and
leaves all others as they were. -/
theorem highlight_covers_square (s : Scene) (hdraw : s.mapper.drawSize < UInt32.size) (c : Canvas) :
    (s.highlight c).width = c.width ∧ (s.highlight c).height = c.height ∧
      ∀ q, (s.highlight c).pixel? q = (c.pixel? q).map (s.lay (s.highlightLayers q)) ∧
        (s.Highlighted q.x ∧ s.Highlighted q.y → .selectionFill ∈ s.highlightLayers q) ∧
        (¬(s.Highlighted q.x ∧ s.Highlighted q.y) →
          s.highlightLayers q = [] ∧ (s.highlight c).pixel? q = c.pixel? q) := by
  have hpainted := s.painted_lay c
  refine ⟨hpainted.width, hpainted.height, fun q => ⟨hpainted.pixel? q, ?_, fun houtside => ?_⟩⟩
  · rintro ⟨hx, hy⟩
    exact fill_mem_highlightLayers hdraw hx hy
  · have hnone : s.highlightLayers q = [] := List.eq_nil_iff_forall_not_mem.mpr fun slot hslot =>
      houtside (highlighted_of_mem_highlightLayers hdraw hslot)
    refine ⟨hnone, (hpainted.pixel? q).trans ?_⟩
    rw [hnone]
    exact congrFun Option.map_id_fun' _

/-- The second file is selected, which has no pixel of its own, and one that does not exist. -/
theorem highlight_covers_square_crowded :
    let s : Scene := { crowded "x" "y" "z" with selected := ⟨[1, 9], by decide⟩ }
    let c := Canvas.blank 4 4 ⟨255, 255, 255, 255⟩
    s.mapper.drawSize < UInt32.size ∧ s.fileCount = 3 ∧ s.Highlighted 2 ∧ ¬s.Highlighted 3 ∧
      .selectionFill ∈ s.highlightLayers ⟨2, 2⟩ ∧ (s.highlight c).pixel? ⟨2, 3⟩ = c.pixel? ⟨2, 3⟩ := by
  intro s c
  have hdraw : s.mapper.drawSize < UInt32.size := by decide
  have hruns : (s.selected.filter (· < s.fileCount)).runs = [(1, 2)] := by decide
  have hstart : s.mapper.startPixel 1 = 2 ∧ s.mapper.startPixel 2 = 2 := by decide
  have htwo : s.Highlighted 2 := by
    refine .inr ⟨(1, 2), IndexSet.mem_runs_iff.mp ?_, hstart.1.trans hstart.2.symm, hstart.1.symm⟩
    rw [hruns]
    exact List.mem_cons_self
  have hthree : ¬s.Highlighted 3 := by
    rintro (⟨i, hselected, hcount, -, hhigh⟩ | ⟨run, hmaximal, -, hx⟩)
    · have hlt : i < 3 := hcount
      obtain rfl | rfl : i = 1 ∨ i = 9 := by simpa [s, IndexSet.mem_def] using hselected
      · rw [hstart.2] at hhigh
        omega
      · omega
    · have hrun := IndexSet.mem_runs_iff.mpr hmaximal
      rw [hruns] at hrun
      cases List.mem_singleton.mp hrun
      rw [hstart.1] at hx
      omega
  obtain ⟨-, -, hlaid⟩ := highlight_covers_square s hdraw c
  exact ⟨hdraw, by decide, htwo, hthree, (hlaid ⟨2, 2⟩).2.1 ⟨htwo, htwo⟩,
    ((hlaid ⟨2, 3⟩).2.2 fun h => hthree h.2).2⟩

end Scene
end ClonePlot
