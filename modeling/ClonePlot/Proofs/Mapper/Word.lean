import ClonePlot.Proofs.Mapper

/-! # Pixels in machine words

Offsets are 64-bit words, the edge of a drawing is a 32-bit word and pixels are signed 64-bit
numbers. The zoom is just large enough for the line to fit on the drawing, so the pixels of the line
are few and do not come near the sign bit. The other way, the offset of a pixel is formed as a
signed 128-bit product, and cut down to 64 bits only where it lies on the line.
-/
namespace ClonePlot

def wrap128 (i : Int) : Int := Int.bmod i (2 ^ 128)

theorem isLeast_zoomFor {total drawSize : Nat} (hsize : 0 < drawSize) :
    IsLeast {z | 1 ≤ z ∧ total ≤ z * drawSize} (zoomFor total drawSize) := by
  have hceil : zoomFor total drawSize = max (total ⌈/⌉ drawSize) 1 := by
    rw [zoomFor, if_neg hsize.ne', Nat.ceilDiv_eq_add_pred_div]
  have hfits (z : Nat) : total ≤ z * drawSize ↔ total ⌈/⌉ drawSize ≤ z := by
    rw [Nat.mul_comm, ceilDiv_le_iff_le_mul hsize]
  simp only [hceil, hfits]
  exact ⟨⟨le_max_right _ _, le_max_left _ _⟩, fun z hz => max_le hz.2 hz.1⟩

theorem zoomFor_le (total drawSize : Nat) : zoomFor total drawSize ≤ max total 1 := by
  rcases Nat.eq_zero_or_pos drawSize with rfl | hsize
  · exact le_rfl
  · exact (isLeast_zoomFor hsize).2
      ⟨le_max_right _ _, (le_max_left _ _).trans (Nat.le_mul_of_pos_right _ hsize)⟩

namespace Mapper

variable {m : Mapper}

theorem zoom_le_maxOffset (m : Mapper) : m.zoom ≤ maxOffset :=
  (zoomFor_le _ _).trans (max_le (m.layout.start_le_maxOffset _) (by decide))

/-- A 64-bit pixel times a 64-bit zoom needs 127 bits and a sign. -/
theorem wrap128_offset (m : Mapper) (p : Int64) :
    wrap128 (p.toInt * m.zoom) = p.toInt * m.zoom := by
  have hzoom : (m.zoom : Int) ≤ 2 ^ 64 - 1 := by
    have hle := m.zoom_le_maxOffset
    unfold maxOffset UInt64.size at hle
    omega
  have hnonneg : (0 : Int) ≤ m.zoom := Int.natCast_nonneg _
  have hlow : -2 ^ 63 * (2 ^ 64 - 1) ≤ p.toInt * m.zoom := by nlinarith [p.le_toInt]
  have hhigh : p.toInt * m.zoom ≤ 2 ^ 63 * (2 ^ 64 - 1) := by nlinarith [p.toInt_lt]
  exact Int.bmod_eq_of_le_mul_two (by omega) (by omega)

theorem offset_emod {o : Int} (hlow : 0 ≤ o) (hhigh : o < m.layout.total) :
    o % UInt64.size = o := by
  have htotal : m.layout.total ≤ maxOffset := m.layout.start_le_maxOffset _
  unfold maxOffset UInt64.size at htotal
  unfold UInt64.size
  omega

/-- `position?` in machine words, with the product cut down to 128 bits and its offset to 64. -/
def wordPosition? (m : Mapper) (p : Int64) (rounding : Bool) : Option Position :=
  if m.layout.isEmpty then none
  else
    let offset := wrap128 (p.toInt * m.zoom)
    if offset < 0 then
      if rounding then some ⟨0, 0⟩ else none
    else if (m.layout.total : Int) ≤ offset then
      if rounding then
        let last := m.layout.fileCount - 1
        some ⟨last, m.layout.size last⟩
      else none
    else
      let word := (offset % UInt64.size).toNat
      (m.layout.containing word).map fun file =>
        ⟨file, min (word - m.layout.start file) (m.layout.size file)⟩

theorem wordPosition?_eq (m : Mapper) (p : Int64) (rounding : Bool) :
    m.wordPosition? p rounding = m.position? p.toInt rounding := by
  unfold wordPosition? position?
  rw [wrap128_offset]
  dsimp only
  rcases Int.lt_or_le (p.toInt * m.zoom) 0 with hneg | hlow
  · rw [if_pos hneg, if_pos hneg]
  rcases Int.lt_or_le (p.toInt * m.zoom) m.layout.total with hhigh | htotal
  · rw [offset_emod hlow hhigh]
  · rw [if_pos htotal, if_pos htotal]

/-- For any sizes of files, any drawing with a 32-bit edge and any pixel, the zoom is the least one
with which the line fits on the drawing, the pixels of the line are on the drawing and in order, and
the offset of a pixel is exact in machine words. -/
theorem pixels_exact (sizes : List Nat) (drawSize : UInt32) :
    let m : Mapper := ⟨.ofSizes sizes, drawSize.toNat⟩
    let total := m.layout.total
    (1 ≤ drawSize.toNat → m.zoom = zoomFor total drawSize.toNat ∧
      IsLeast {z | 1 ≤ z ∧ total ≤ z * drawSize.toNat} (zoomFor total drawSize.toNat)) ∧
    (∀ o ≤ total, m.pixel o = (o / m.zoom : Nat) ∧
      0 ≤ m.pixel o ∧ m.pixel o ≤ max drawSize.toNat 1) ∧
    (1 ≤ drawSize.toNat → ∀ o < total, m.pixel o < drawSize.toNat) ∧
    MonotoneOn m.pixel (Set.Iic total) ∧
    ∀ p : Int64, wrap128 (p.toInt * m.zoom) = p.toInt * m.zoom ∧
      (0 ≤ p.toInt * m.zoom → p.toInt * m.zoom < total →
        p.toInt * m.zoom % UInt64.size = p.toInt * m.zoom) ∧
      ∀ rounding, m.wordPosition? p rounding = m.position? p.toInt rounding := by
  intro m total
  have hdraw : m.drawSize < UInt32.size := drawSize.toNat_lt_size
  refine ⟨fun hsize => ⟨rfl, isLeast_zoomFor hsize⟩, fun o ho => ?_, fun hsize o ho => ?_,
    fun a _ b hb hab => pixel_le_pixel hdraw hab hb, fun p => ?_⟩
  · have hdiv := pixel_eq_div hdraw ho
    refine ⟨hdiv, pixel_nonneg hdraw ho, ?_⟩
    rw [hdiv]
    exact_mod_cast Nat.div_le_of_le_mul (ho.trans m.total_le_zoom_mul)
  · exact pixel_lt_drawSize hdraw hsize ho
  · exact ⟨m.wrap128_offset p, offset_emod, m.wordPosition?_eq p⟩

/-- A line that has been cut off, on three pixels. Its last offset has the sign bit set. -/
theorem pixels_exact_full :
    let m : Mapper := ⟨.ofSizes [9223372036854775808, 9223372036854775815], (3 : UInt32).toNat⟩
    m.layout.total = maxOffset ∧ m.zoom = 6148914691236517205 ∧
      m.pixel (maxOffset - 1) < 3 ∧
      wrap128 (Int64.minValue.toInt * m.zoom) = -9223372036854775808 * 6148914691236517205 ∧
      m.wordPosition? 2 false = some ⟨1, 3074457345618258602⟩ := by
  intro m
  have htotal : m.layout.total = maxOffset := by decide
  obtain ⟨-, -, hlt, -, hword⟩ := pixels_exact [9223372036854775808, 9223372036854775815] 3
  have hzoom : m.zoom = 6148914691236517205 := by decide
  refine ⟨htotal, hzoom, hlt (by decide) (maxOffset - 1) (htotal ▸ by decide),
    (hword Int64.minValue).1.trans ?_, ((hword 2).2.2 false).trans (by decide)⟩
  rw [hzoom]
  rfl

end Mapper
end ClonePlot
