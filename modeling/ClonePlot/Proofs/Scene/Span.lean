import ClonePlot.Proofs.IndexSet.Runs
import ClonePlot.Proofs.Layout
import ClonePlot.Proofs.Scene.Effect

/-! # Spans of selected files

Selected runs are apart, but their pixels need not be: a run narrower than a pixel shares it
with its neighbors. Spans that share a pixel have it at their ends, which is what lets the
highlight be painted row by row or column by column with the same result.
-/
namespace ClonePlot
open Canvas

def onSpan (x : Int) (span : Int × Int) : Bool := span.1 ≤ x && x ≤ span.2

def AtEnd (x : Int) (span : Int × Int) : Prop := x = span.1 ∨ x = span.2

theorem onSpan_iff {x : Int} {span : Int × Int} : onSpan x span ↔ span.1 ≤ x ∧ x ≤ span.2 := by
  simp only [onSpan, Bool.and_eq_true, decide_eq_true_eq]

/-- A block holds a pixel whose coordinates lie on its two spans. -/
theorem inRect_iff_onSpan {rows cols : Int × Int} {q : Point} :
    InRect cols.1 rows.1 (cols.2 + 1) (rows.2 + 1) q ↔ onSpan q.y rows ∧ onSpan q.x cols := by
  rw [onSpan_iff, onSpan_iff]
  omega

/-- The border of a block is a part of it. -/
theorem not_onBorder_of_not_inRect {rows cols : Int × Int} {q : Point}
    (h : ¬InRect cols.1 rows.1 (cols.2 + 1) (rows.2 + 1) q) :
    ¬OnBorder cols.1 rows.1 cols.2 rows.2 q := by
  intro hborder
  omega

/-- Loops skip what has no effect. -/
theorem foldl_filter_of_inert {α β : Type} {f : β → α → β} {keep : α → Bool}
    (h : ∀ b a, keep a = false → f b a = b) (l : List α) (b : β) :
    (l.filter keep).foldl f b = l.foldl f b := by
  induction l generalizing b with
  | nil => rfl
  | cons a rest ih =>
    cases ha : keep a with
    | true => rw [List.filter_cons_of_pos ha, List.foldl_cons, List.foldl_cons, ih]
    | false =>
      have hskip : ¬ keep a = true := by simp [ha]
      rw [List.filter_cons_of_neg hskip, List.foldl_cons, h b a ha, ih]

/-- A nested loop whose body always does the same. -/
theorem foldl_foldl_of_same {α β γ : Type} {f : α → β → γ → γ} {same : γ → γ} {l : List α}
    {m : List β} (h : ∀ a ∈ l, ∀ b ∈ m, f a b = same) (c : γ) :
    l.foldl (fun c a => m.foldl (fun c b => f a b c) c) c = same^[m.length * l.length] c := by
  have hinner : ∀ c, ∀ a ∈ l, m.foldl (fun c b => f a b c) c = same^[m.length] c := by
    intro c a ha
    rw [← List.foldl_const]
    exact List.foldl_ext _ _ c fun c b hb => by rw [h a ha b hb]
  rw [Function.iterate_mul, ← List.foldl_const]
  exact List.foldl_ext _ _ c hinner

/-- Two loops can be nested either way if the body always does the same. -/
theorem foldl_foldl_comm_of_same {α β γ : Type} {f : α → β → γ → γ} {same : γ → γ} {l : List α}
    {m : List β} (h : ∀ a ∈ l, ∀ b ∈ m, f a b = same) (c : γ) :
    l.foldl (fun c a => m.foldl (fun c b => f a b c) c) c =
      m.foldl (fun c b => l.foldl (fun c a => f a b c) c) c := by
  have hrows := foldl_foldl_of_same h c
  have hcols := foldl_foldl_of_same (fun b hb a ha => h a ha b hb :
    ∀ b ∈ m, ∀ a ∈ l, (fun b a => f a b) b a = same) c
  rw [hrows, Nat.mul_comm]
  exact hcols.symm

namespace Scene
variable (s : Scene)

theorem atEnd_of_shared {a b : Nat × Nat} {x : Int} (ha : a.1 < a.2) (hab : a.2 < b.1)
    (hb : b.1 < b.2) (hx : 0 ≤ x) (hxa : onSpan x (s.runSpan a)) (hxb : onSpan x (s.runSpan b)) :
    AtEnd x (s.runSpan a) ∧ AtEnd x (s.runSpan b) := by
  rw [onSpan_iff] at hxa hxb
  unfold runSpan at hxa hxb
  unfold AtEnd runSpan
  dsimp only at *
  -- an end that has wrapped would put the whole later span below zero
  have hstart : 0 ≤ s.mapper.startPixel b.1 := by
    by_contra hneg
    have hstop : s.mapper.startPixel b.2 < 0 := by
      by_contra hpos
      exact hneg (s.mapper.startPixel_mono hb.le (Int.not_lt.mp hpos)).1
    omega
  have hmid := s.mapper.startPixel_mono hab.le hstart
  have hlow := s.mapper.startPixel_mono ha.le hmid.1
  omega

/-- Where spans share a pixel they all end. -/
theorem atEnd_of_two {x : Int} (hx : 0 ≤ x)
    (htwo : 2 ≤ (s.selectedSpans.filter (onSpan x)).length) :
    ∀ span ∈ s.selectedSpans.filter (onSpan x), AtEnd x span := by
  have happart := IndexSet.apart_runs (s.selected.filter (· < s.fileCount))
  have hshared : (s.selectedSpans.filter (onSpan x)).Pairwise
      fun a b => AtEnd x a ∧ AtEnd x b := by
    rw [List.pairwise_filter, selectedSpans, List.pairwise_map]
    exact happart.pairwise.imp_of_mem fun ha hb hab hxa hxb =>
      s.atEnd_of_shared (happart.le_of_mem ha).2 hab (happart.le_of_mem hb).2 hx hxa hxb
  cases hspans : s.selectedSpans.filter (onSpan x) with
  | nil =>
    rw [hspans] at htwo
    cases htwo
  | cons first rest =>
    rw [hspans] at htwo hshared
    obtain ⟨hfirst, _⟩ := List.pairwise_cons.mp hshared
    intro span hspan
    rcases List.mem_cons.mp hspan with rfl | hspan
    · obtain ⟨other, hother⟩ : ∃ other, other ∈ rest := by
        cases rest with
        | nil => exact absurd htwo (by simp)
        | cons other _ => exact ⟨other, List.mem_cons_self⟩
      exact (hfirst other hother).1
    · exact (hfirst span hspan).2

theorem blockEffect_of_off {rows cols : Int × Int} {q : Point} {d : Color}
    (h : onSpan q.y rows = false ∨ onSpan q.x cols = false) : s.blockEffect rows cols q d = d := by
  have hinside : ¬InRect cols.1 rows.1 (cols.2 + 1) (rows.2 + 1) q := by
    rw [inRect_iff_onSpan, not_and_or, Bool.not_eq_true, Bool.not_eq_true]
    exact h
  have hborder : ¬OnBorder cols.1 rows.1 cols.2 rows.2 q := not_onBorder_of_not_inRect hinside
  rw [blockEffect, if_neg hborder, if_neg hinside]
  rfl

/-- The reflection of a block is the block with its sides exchanged. -/
theorem blockEffect_swap (rows cols : Int × Int) (q : Point) (d : Color) :
    s.blockEffect rows cols q.swap d = s.blockEffect cols rows q d := by
  have hborder : OnBorder cols.1 rows.1 cols.2 rows.2 q.swap ↔
      OnBorder rows.1 cols.1 rows.2 cols.2 q := by
    unfold OnBorder Point.swap
    dsimp only
    omega
  have hinside : InRect cols.1 rows.1 (cols.2 + 1) (rows.2 + 1) q.swap ↔
      InRect rows.1 cols.1 (rows.2 + 1) (cols.2 + 1) q := by
    unfold InRect Point.swap
    dsimp only
    omega
  simp only [blockEffect, hborder, hinside]

/-- What a block does where it ends. -/
def endEffect (d : Color) : Color :=
  (s.color .selectionOutline).blendOver ((s.color .selectionFill).blendOver d)

theorem blockEffect_of_atEnd {rows cols : Int × Int} {q : Point} (hrows : onSpan q.y rows)
    (hcols : onSpan q.x cols) (hend : AtEnd q.x cols) :
    s.blockEffect rows cols q = s.endEffect := by
  have hinside : InRect cols.1 rows.1 (cols.2 + 1) (rows.2 + 1) q :=
    inRect_iff_onSpan.mpr ⟨hrows, hcols⟩
  have hborder : OnBorder cols.1 rows.1 cols.2 rows.2 q :=
    ⟨⟨onSpan_iff.mp hrows, onSpan_iff.mp hcols⟩, .inr hend⟩
  funext d
  rw [blockEffect, if_pos hborder, if_pos hinside]
  rfl

/-- Only blocks that a pixel lies on count for it. -/
theorem foldl_blockEffect_eq (q : Point) (d : Color) :
    s.selectedSpans.foldl (fun d rows =>
      s.selectedSpans.foldl (fun d cols => s.blockEffect rows cols q d) d) d =
    (s.selectedSpans.filter (onSpan q.y)).foldl (fun d rows =>
      (s.selectedSpans.filter (onSpan q.x)).foldl (fun d cols =>
        s.blockEffect rows cols q d) d) d := by
  have hcols : ∀ rows d, (s.selectedSpans.filter (onSpan q.x)).foldl (fun d cols =>
      s.blockEffect rows cols q d) d =
      s.selectedSpans.foldl (fun d cols => s.blockEffect rows cols q d) d := by
    intro rows d
    have hskip : ∀ d cols, onSpan q.x cols = false → s.blockEffect rows cols q d = d :=
      fun _ _ hoff => s.blockEffect_of_off (.inr hoff)
    exact foldl_filter_of_inert hskip _ d
  have hrows : ∀ d rows, onSpan q.y rows = false →
      s.selectedSpans.foldl (fun d cols => s.blockEffect rows cols q d) d = d := fun d rows hrows =>
    List.foldl_fixed' (fun _ => s.blockEffect_of_off (.inl hrows)) _
  simp only [hcols]
  exact (foldl_filter_of_inert hrows _ d).symm

/-- The blocks can be gone through row by row or column by column. -/
theorem foldl_blockEffect_comm {q : Point} (hx : 0 ≤ q.x) (d : Color) :
    (s.selectedSpans.filter (onSpan q.y)).foldl (fun d rows =>
      (s.selectedSpans.filter (onSpan q.x)).foldl (fun d cols =>
        s.blockEffect rows cols q d) d) d =
    (s.selectedSpans.filter (onSpan q.x)).foldl (fun d cols =>
      (s.selectedSpans.filter (onSpan q.y)).foldl (fun d rows =>
        s.blockEffect rows cols q d) d) d := by
  by_cases htwo : 2 ≤ (s.selectedSpans.filter (onSpan q.x)).length
  · have hend := s.atEnd_of_two hx htwo
    have hsame : ∀ rows ∈ s.selectedSpans.filter (onSpan q.y),
        ∀ cols ∈ s.selectedSpans.filter (onSpan q.x), s.blockEffect rows cols q = s.endEffect :=
      fun rows hrows cols hcols => s.blockEffect_of_atEnd (List.mem_filter.mp hrows).2
        (List.mem_filter.mp hcols).2 (hend cols hcols)
    exact foldl_foldl_comm_of_same hsame d
  -- one column of blocks at most: both ways are the same way
  · cases hcols : s.selectedSpans.filter (onSpan q.x) with
    | nil => exact List.foldl_fixed' (fun _ => rfl) _
    | cons cols rest =>
      cases rest with
      | nil => rfl
      | cons _ _ =>
        rw [hcols] at htwo
        exact absurd htwo (by simp)

end Scene
end ClonePlot
