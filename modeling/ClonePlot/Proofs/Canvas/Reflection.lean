import Mathlib
import ClonePlot.Proofs.Canvas.Effect

/-! # Painting that respects the diagonal

A change of a canvas reflects when it does the same to a pixel and to its reflection. Such
changes keep a symmetric picture symmetric. Lines are no such change by themselves: the
reflection of a line is the line between the reflected ends.
-/
namespace ClonePlot

@[simp] theorem Point.swap_swap (p : Point) : p.swap.swap = p := rfl

theorem Point.swap_injective : Function.Injective Point.swap :=
  Function.LeftInverse.injective Point.swap_swap

theorem Point.swap_eq_iff (p q : Point) : p.swap = q.swap ↔ p = q :=
  Point.swap_injective.eq_iff

namespace PixelRect

theorem ofCorners_swap (a b : Point) : ofCorners a.swap b.swap = (ofCorners a b).swap := rfl

theorem contains_swap (r : PixelRect) (p : Point) : r.swap.contains p.swap = r.contains p := by
  simp only [contains, swap, Point.swap, Bool.and_assoc]
  ac_rfl

theorem intersects_swap (r s : PixelRect) : r.swap.intersects s.swap = r.intersects s := by
  simp only [intersects, swap, Bool.and_assoc]
  ac_rfl

end PixelRect

namespace LineStep

/-- The reflected step. The error term compares the axes, hence its sign. -/
def swap (s : LineStep) : LineStep := ⟨s.place.swap, -s.error⟩

theorem first_swap (p q : Point) : first p.swap q.swap = (first p q).swap := by
  unfold first swap
  simp only [Point.swap, LineStep.mk.injEq, true_and]
  omega

theorem bound_swap (p q : Point) : bound p.swap q.swap = bound p q := Nat.add_comm _ _

theorem next_swap (s : LineStep) (p q : Point) : s.swap.next p.swap q.swap = (s.next p q).swap := by
  unfold next swap
  dsimp only [Point.swap]
  generalize (q.x - p.x).natAbs = dx
  generalize (q.y - p.y).natAbs = dy
  have halong : (-(dx : Int) ≤ 2 * -s.error) ↔ (2 * s.error ≤ dx) := by omega
  have hacross : (2 * -s.error ≤ (dy : Int)) ↔ (-(dy : Int) ≤ 2 * s.error) := by omega
  simp only [halong, hacross, LineStep.mk.injEq, true_and]
  split <;> split <;> omega

theorem walk_swap (p q : Point) (fuel : Nat) (s : LineStep) :
    walk p.swap q.swap fuel s.swap = (walk p q fuel s).map Point.swap := by
  induction fuel generalizing s with
  | zero => rfl
  | succ fuel ih =>
    have hstop : s.swap.place = q.swap ↔ s.place = q := s.place.swap_eq_iff q
    unfold walk
    rw [next_swap, ih]
    simp only [hstop]
    split <;> rfl

end LineStep

theorem linePoints_swap (p q : Point) :
    linePoints p.swap q.swap = (linePoints p q).map Point.swap := by
  rw [linePoints, LineStep.bound_swap, LineStep.first_swap, LineStep.walk_swap]
  rfl

theorem count_linePoints_swap (p q r : Point) :
    (linePoints p.swap q.swap).count r.swap = (linePoints p q).count r := by
  rw [linePoints_swap, List.count_map_of_injective _ _ Point.swap_injective]

namespace Canvas

/-- The second canvas is the first with each pixel changed as its reflection is. What the
change would be outside the first quadrant does not matter, as no canvas reaches there. -/
def Reflects (c d : Canvas) : Prop :=
  ∃ effect, Painted effect c d ∧ ∀ q : Point, 0 ≤ q.x → 0 ≤ q.y → effect q.swap = effect q

def Symmetric (c : Canvas) : Prop := ∀ q : Point, c.pixel? q.swap = c.pixel? q

variable {color : Color} {count : Point → Nat} {c d e : Canvas}

theorem symmetric_blank (size : Nat) (color : Color) : (blank size size color).Symmetric := by
  intro q
  have hholds : (blank size size color).Holds q.swap ↔ (blank size size color).Holds q := by
    unfold Holds blank Point.swap
    dsimp only
    omega
  unfold pixel?
  simp only [hholds]
  simp [blank]

namespace Reflects

theorem refl (c : Canvas) : Reflects c c := ⟨_, .refl c, fun _ _ _ => rfl⟩

theorem trans (h : Reflects c d) (h' : Reflects d e) : Reflects c e := by
  obtain ⟨effect, hpaint, heq⟩ := h
  obtain ⟨effect', hpaint', heq'⟩ := h'
  refine ⟨_, hpaint.trans hpaint', fun q hx hy => ?_⟩
  rw [heq q hx hy, heq' q hx hy]

theorem ite {on : Bool} (h : Reflects c d) : Reflects c (if on then d else c) := by
  cases on with
  | false => exact refl c
  | true => exact h

theorem of_coats (h : Coats color count c d) (hcount : ∀ q, count q.swap = count q) :
    Reflects c d :=
  ⟨_, h, fun q _ _ => by rw [hcount q]⟩

/-- A change that reflects keeps a symmetric picture symmetric. -/
theorem symmetric (h : Reflects c d) (hc : c.Symmetric) : d.Symmetric := by
  obtain ⟨effect, hpaint, heq⟩ := h
  intro q
  rw [hpaint.pixel?, hpaint.pixel?, hc q]
  by_cases hq : c.Holds q
  · rw [heq q hq.1 hq.2.2.1]
  · have hnone : c.pixel? q = none := dif_neg hq
    rw [hnone]
    rfl

end Reflects
end Canvas
end ClonePlot
