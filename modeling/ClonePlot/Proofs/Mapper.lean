import ClonePlot.Proofs.Layout

/-! # Pixels and blocks of offsets

A pixel stands for a block of `zoom` offsets and shows the place of the first of them. So pixels
on the line go to places and back unchanged, and an offset comes back as the first one of its
block. With rounding, pixels beyond an end of the line show that end, and the place shown moves
forward with the pixel.
-/
namespace ClonePlot
namespace Mapper

variable {m : Mapper} {p : Int} {o : Nat} {rounding : Bool}

theorem total_le_zoom_mul (m : Mapper) : m.layout.total ≤ m.zoom * max m.drawSize 1 := by
  unfold zoom zoomFor
  split
  · exact (Nat.le_max_left _ 1).trans (Nat.le_mul_of_pos_right _ (by omega))
  · rename_i hpos
    have hdivide := Nat.div_add_mod (m.layout.total + m.drawSize - 1) m.drawSize
    have hrest := Nat.mod_lt (m.layout.total + m.drawSize - 1) (Nat.pos_of_ne_zero hpos)
    have hceil : m.layout.total ≤
        m.drawSize * ((m.layout.total + m.drawSize - 1) / m.drawSize) := by omega
    rw [Nat.mul_comm] at hceil
    exact hceil.trans (Nat.mul_le_mul (Nat.le_max_left _ _) (Nat.le_max_left _ _))

/-- On a drawing with a 32-bit edge no quotient reaches the sign bit. -/
theorem pixel_eq_div (hdraw : m.drawSize < UInt32.size) (ho : o ≤ m.layout.total) :
    m.pixel o = (o / m.zoom : Nat) := by
  have hedge : o / m.zoom ≤ max m.drawSize 1 :=
    Nat.div_le_of_le_mul (ho.trans m.total_le_zoom_mul)
  have hmax : o / m.zoom ≤ maxOffset :=
    (Nat.div_le_self _ _).trans (ho.trans (m.layout.start_le_maxOffset _))
  have hword : UInt32.size = 4294967296 := rfl
  rw [pixel, wrap64_natCast hmax, if_pos (by omega)]

theorem pixel_nonneg (hdraw : m.drawSize < UInt32.size) (ho : o ≤ m.layout.total) :
    0 ≤ m.pixel o := by
  rw [pixel_eq_div hdraw ho]
  exact Int.natCast_nonneg _

theorem pixel_le_pixel (hdraw : m.drawSize < UInt32.size) {a b : Nat} (hab : a ≤ b)
    (hb : b ≤ m.layout.total) : m.pixel a ≤ m.pixel b := by
  rw [pixel_eq_div hdraw (hab.trans hb), pixel_eq_div hdraw hb]
  exact Int.ofNat_le.mpr (Nat.div_le_div_right hab)

theorem startPixel_le_startPixel (hdraw : m.drawSize < UInt32.size) {i j : Nat} (hij : i ≤ j) :
    m.startPixel i ≤ m.startPixel j :=
  pixel_le_pixel hdraw (m.layout.start_mono hij) (m.layout.start_le_total j)

theorem pixel_le_drawSize (hdraw : m.drawSize < UInt32.size) (hpos : 0 < m.drawSize)
    (ho : o ≤ m.layout.total) : m.pixel o ≤ m.drawSize := by
  have htotal := m.total_le_zoom_mul
  rw [Nat.max_eq_left hpos] at htotal
  rw [pixel_eq_div hdraw ho]
  exact Int.ofNat_le.mpr (Nat.div_le_of_le_mul (ho.trans htotal))

/-- An offset before the end of the line is shown on the drawing. -/
theorem pixel_lt_drawSize (hdraw : m.drawSize < UInt32.size) (hpos : 0 < m.drawSize)
    (ho : o < m.layout.total) : m.pixel o < m.drawSize := by
  have htotal := m.total_le_zoom_mul
  rw [Nat.max_eq_left hpos] at htotal
  rw [pixel_eq_div hdraw ho.le]
  exact Int.ofNat_lt.mpr (Nat.div_lt_of_lt_mul (ho.trans_le htotal))

/-- A pixel whose offset lies on the line shows the place of that offset, rounding or not. -/
theorem exists_position? (hp : p * m.zoom = o) (ho : o < m.layout.total) (rounding : Bool) :
    ∃ place, m.position? p rounding = some place ∧
      m.layout.containing o = some place.file ∧ place.offset < m.layout.size place.file ∧
      m.layout.start place.file + place.offset = o := by
  have hinside : m.layout.containing o =
      some (m.layout.starts.countP (· ≤ o) - 1) := if_pos ho
  obtain ⟨file, hfile⟩ := Option.isSome_iff_exists.mp (hinside ▸ rfl : (m.layout.containing o).isSome)
  obtain ⟨-, hlow, hhigh⟩ := Layout.containing_eq_some_iff.mp hfile
  have hsize : o - m.layout.start file < m.layout.size file := by
    unfold Layout.size Layout.stop
    omega
  refine ⟨⟨file, o - m.layout.start file⟩, ?_, hfile, hsize, by dsimp only; omega⟩
  unfold position?
  rw [Layout.isEmpty_eq_false_of_lt ho, if_neg Bool.false_ne_true]
  dsimp only
  rw [hp, if_neg (by omega), if_neg (by omega), Int.toNat_natCast, hfile, Option.map_some,
    Nat.min_eq_left hsize.le]

theorem position?_of_neg (hcontent : m.layout.isEmpty = false) (hp : p * m.zoom < 0) :
    m.position? p rounding = if rounding then some ⟨0, 0⟩ else none := by
  unfold position?
  rw [hcontent, if_neg Bool.false_ne_true]
  exact if_pos hp

theorem position?_of_total_le (hcontent : m.layout.isEmpty = false)
    (hp : m.layout.total ≤ p * m.zoom) : m.position? p rounding =
      if rounding then some ⟨m.layout.fileCount - 1, m.layout.size (m.layout.fileCount - 1)⟩
      else none := by
  unfold position?
  rw [hcontent, if_neg Bool.false_ne_true]
  dsimp only
  rw [if_neg (by omega), if_pos hp]

theorem position?_of_isEmpty (hcontent : m.layout.isEmpty = true) :
    m.position? p rounding = none := if_pos hcontent

/-- Rounding moves a pixel to the nearer end of the line. -/
theorem exists_position?_true (hcontent : m.layout.isEmpty = false) (p : Int) :
    ∃ place, m.position? p true = some place ∧
      ((m.layout.start place.file + place.offset : Nat) : Int) =
        max 0 (min (p * m.zoom) m.layout.total) := by
  rcases Int.lt_or_le (p * m.zoom) 0 with hneg | hlow
  · refine ⟨_, position?_of_neg hcontent hneg, ?_⟩
    rw [Layout.start_zero, max_eq_left (min_le_iff.mpr (.inl hneg.le))]
    rfl
  rcases Int.lt_or_le (p * m.zoom) m.layout.total with hhigh | htotal
  · obtain ⟨o, ho⟩ := Int.eq_ofNat_of_zero_le hlow
    obtain ⟨place, hplace, -, -, hplace'⟩ := exists_position? ho (by omega) true
    exact ⟨place, hplace, by rw [hplace']; omega⟩
  · refine ⟨_, position?_of_total_le hcontent htotal, ?_⟩
    have hfiles : m.layout.fileCount ≠ 0 := by
      intro hnone
      rw [Layout.isEmpty, hnone] at hcontent
      cases hcontent
    have hlast : m.layout.fileCount - 1 + 1 = m.layout.fileCount := by omega
    have hmono := m.layout.start_mono (Nat.sub_le m.layout.fileCount 1)
    have hend : m.layout.start (m.layout.fileCount - 1) +
        m.layout.size (m.layout.fileCount - 1) = m.layout.total := by
      unfold Layout.size Layout.stop
      rw [hlast]
      unfold Layout.total
      omega
    dsimp only
    rw [hend]
    omega

theorem isSome_position?_true : (m.position? p true).isSome ↔ m.layout.isEmpty = false := by
  constructor
  · intro h
    cases hcontent : m.layout.isEmpty with
    | true =>
      rw [position?_of_isEmpty hcontent] at h
      cases h
    | false => rfl
  · intro hcontent
    obtain ⟨place, hplace, -⟩ := exists_position?_true hcontent p
    rw [hplace]
    rfl

theorem isSome_position?_false : (m.position? p false).isSome ↔
    m.layout.isEmpty = false ∧ 0 ≤ p * m.zoom ∧ p * m.zoom < m.layout.total := by
  constructor
  · intro h
    cases hcontent : m.layout.isEmpty with
    | true =>
      rw [position?_of_isEmpty hcontent] at h
      cases h
    | false =>
      refine ⟨rfl, Int.not_lt.mp fun hneg => ?_, Int.not_le.mp fun htotal => ?_⟩
      · rw [position?_of_neg hcontent hneg] at h
        cases h
      · rw [position?_of_total_le hcontent htotal] at h
        cases h
  · rintro ⟨-, hlow, hhigh⟩
    obtain ⟨o, ho⟩ := Int.eq_ofNat_of_zero_le hlow
    obtain ⟨place, hplace, -⟩ := exists_position? ho (by omega) false
    rw [hplace]
    rfl

/-- A pixel shows the first offset of its block, and is the pixel of that offset. -/
theorem pixel_of_position? (hdraw : m.drawSize < UInt32.size) {place : Position}
    (h : m.position? p false = some place) : place.offset < m.layout.size place.file ∧
      ((m.layout.start place.file + place.offset : Nat) : Int) = p * m.zoom ∧
      m.pixel (m.layout.start place.file + place.offset) = p := by
  obtain ⟨-, hlow, hhigh⟩ := isSome_position?_false.mp (Option.isSome_of_eq_some h)
  obtain ⟨o, ho⟩ := Int.eq_ofNat_of_zero_le hlow
  obtain ⟨place', hplace', -, hsize, hstart⟩ := exists_position? ho (by omega) false
  cases h.symm.trans hplace'
  refine ⟨hsize, by rw [hstart, ho], ?_⟩
  have hzoom : (m.zoom : Int) ≠ 0 := Int.natCast_ne_zero.mpr m.zoom_pos.ne'
  rw [hstart, pixel_eq_div hdraw (by omega), Int.natCast_ediv, ← ho]
  exact Int.mul_ediv_cancel p hzoom

/-- The pixel of an offset shows the first offset of the block. -/
theorem exists_position?_pixel (hdraw : m.drawSize < UInt32.size) (ho : o < m.layout.total)
    (rounding : Bool) : ∃ place, m.position? (m.pixel o) rounding = some place ∧
      m.layout.containing (o / m.zoom * m.zoom) = some place.file ∧
      m.layout.start place.file + place.offset = o / m.zoom * m.zoom := by
  have hblock : m.pixel o * m.zoom = (o / m.zoom * m.zoom : Nat) := by
    rw [pixel_eq_div hdraw ho.le, Int.natCast_mul]
  obtain ⟨place, hplace, hfile, -, hstart⟩ :=
    exists_position? hblock ((Nat.div_mul_le_self o m.zoom).trans_lt ho) rounding
  exact ⟨place, hplace, hfile, hstart⟩

theorem position?_true_mono {q : Int} {a b : Position} (hpq : p ≤ q)
    (ha : m.position? p true = some a) (hb : m.position? q true = some b) :
    m.layout.start a.file + a.offset ≤ m.layout.start b.file + b.offset := by
  have hcontent := isSome_position?_true.mp (Option.isSome_of_eq_some ha)
  obtain ⟨a', ha', hplaceA⟩ := exists_position?_true hcontent p
  obtain ⟨b', hb', hplaceB⟩ := exists_position?_true hcontent q
  cases ha.symm.trans ha'
  cases hb.symm.trans hb'
  have hscaled : p * m.zoom ≤ q * m.zoom := Int.mul_le_mul_of_nonneg_right hpq (by omega)
  refine Int.ofNat_le.mp ?_
  rw [hplaceA, hplaceB]
  exact max_le_max le_rfl (min_le_min hscaled le_rfl)

theorem lt_fileCount_of_position? {place : Position}
    (h : m.position? p rounding = some place) : place.file < m.layout.fileCount := by
  unfold position? at h
  split at h
  · cases h
  rename_i hcontent
  have hpos : 0 < m.layout.fileCount := by
    simp only [Layout.isEmpty, Bool.or_eq_true, beq_iff_eq, not_or] at hcontent
    omega
  dsimp only at h
  split at h
  · split at h
    · cases h
      exact hpos
    · cases h
  split at h
  · split at h
    · cases h
      exact Nat.sub_lt hpos Nat.one_pos
    · cases h
  · obtain ⟨file, hfile, rfl⟩ := Option.map_eq_some_iff.mp h
    exact (Layout.containing_eq_some_iff.mp hfile).1

theorem lt_fileCount_of_file? {i : Nat}
    (h : m.file? p rounding = some i) : i < m.layout.fileCount := by
  obtain ⟨place, hplace, rfl⟩ := Option.map_eq_some_iff.mp h
  exact lt_fileCount_of_position? hplace

/-- On the line rounding makes no difference. -/
theorem file?_eq_containing (hp : p * m.zoom = o) (ho : o < m.layout.total) (rounding : Bool) :
    m.file? p rounding = m.layout.containing o := by
  obtain ⟨place, hplace, hfile, -⟩ := exists_position? hp ho rounding
  rw [file?, hplace, hfile, Option.map_some]

theorem file?_false_eq_some_iff {i : Nat} :
    m.file? p false = some i ↔ ∃ o : Nat, p * m.zoom = o ∧ m.layout.containing o = some i := by
  constructor
  · intro h
    obtain ⟨place, hplace, -⟩ := Option.map_eq_some_iff.mp h
    obtain ⟨-, hlow, hhigh⟩ := isSome_position?_false.mp (Option.isSome_of_eq_some hplace)
    obtain ⟨o, ho⟩ := Int.eq_ofNat_of_zero_le hlow
    exact ⟨o, ho, file?_eq_containing ho (by omega) false ▸ h⟩
  · rintro ⟨o, ho, hfile⟩
    have hlast := (Layout.containing_eq_some_iff.mp hfile).2.2
    rw [file?_eq_containing ho (hlast.trans_le (m.layout.start_le_total _)), hfile]

theorem file?_true_of_file?_false {i : Nat} (h : m.file? p false = some i) :
    m.file? p true = some i := by
  obtain ⟨o, ho, hfile⟩ := file?_false_eq_some_iff.mp h
  have hlast := (Layout.containing_eq_some_iff.mp hfile).2.2
  rw [file?_eq_containing ho (hlast.trans_le (m.layout.start_le_total _)), hfile]

theorem isSome_file?_false : (m.file? p false).isSome ↔
    m.layout.isEmpty = false ∧ 0 ≤ p * m.zoom ∧ p * m.zoom < m.layout.total := by
  rw [file?, Option.isSome_map, isSome_position?_false]

/-- With rounding, the files come in the order of the pixels. -/
theorem file?_true_mono {q : Int} {i j : Nat} (hpq : p ≤ q) (hi : m.file? p true = some i)
    (hj : m.file? q true = some j) : i ≤ j := by
  have hscaled : p * m.zoom ≤ q * m.zoom := Int.mul_le_mul_of_nonneg_right hpq (by omega)
  obtain ⟨place, hplace, hfile⟩ := Option.map_eq_some_iff.mp hi
  have hcontent := isSome_position?_true.mp (Option.isSome_of_eq_some hplace)
  rcases Int.lt_or_le (p * m.zoom) 0 with hneg | hlow
  · rw [position?_of_neg hcontent hneg] at hplace
    cases hplace
    exact hfile ▸ Nat.zero_le j
  rcases Int.lt_or_le (q * m.zoom) m.layout.total with hhigh | htotal
  · obtain ⟨o, ho⟩ := Int.eq_ofNat_of_zero_le hlow
    obtain ⟨o', ho'⟩ := Int.eq_ofNat_of_zero_le (hlow.trans hscaled)
    rw [file?_eq_containing ho (by omega)] at hi
    rw [file?_eq_containing ho' (by omega)] at hj
    exact Layout.containing_mono (by omega) hi hj
  · rw [file?, position?_of_total_le hcontent htotal] at hj
    cases hj
    exact Nat.le_pred_of_lt (lt_fileCount_of_file? hi)

/-- Pixels and places for any sizes of files, and any drawing with a 32-bit edge. -/
theorem position?_pixel (sizes : List Nat) (drawSize : UInt32) :
    let m : Mapper := ⟨.ofSizes sizes, drawSize.toNat⟩
    let l := m.layout
    (∀ p, (m.position? p false).isSome ↔
      l.isEmpty = false ∧ 0 ≤ p * m.zoom ∧ p * m.zoom < l.total) ∧
    (∀ p place, m.position? p false = some place →
      place.offset < l.size place.file ∧
        ((l.start place.file + place.offset : Nat) : Int) = p * m.zoom ∧
        m.pixel (l.start place.file + place.offset) = p) ∧
    (∀ o rounding, o < l.total → ∃ place, m.position? (m.pixel o) rounding = some place ∧
      l.containing (o / m.zoom * m.zoom) = some place.file ∧
      l.start place.file + place.offset = o / m.zoom * m.zoom) ∧
    (∀ p, (m.position? p true).isSome ↔ l.isEmpty = false) ∧
    ∀ p q a b, p ≤ q → m.position? p true = some a → m.position? q true = some b →
      l.start a.file + a.offset ≤ l.start b.file + b.offset := by
  intro m l
  have hdraw : m.drawSize < UInt32.size := drawSize.toNat_lt_size
  exact ⟨fun p => isSome_position?_false, fun p place => pixel_of_position? hdraw,
    fun o rounding ho => exists_position?_pixel hdraw ho rounding,
    fun p => isSome_position?_true, fun p q a b => position?_true_mono⟩

/-- Offset 7 lies in the last file, the block of its pixel begins in the first. -/
theorem position?_pixel_unaligned :
    let m : Mapper := ⟨.ofSizes [5, 0, 100], (11 : UInt32).toNat⟩
    7 < m.layout.total ∧ m.layout.containing 7 = some 2 ∧
      ∃ place, m.position? (m.pixel 7) true = some place ∧ place.file = 0 := by
  intro m
  have hlt : 7 < m.layout.total := by decide
  obtain ⟨place, hplace, hfile, -⟩ := (position?_pixel [5, 0, 100] 11).2.2.1 7 true hlt
  refine ⟨hlt, by decide, place, hplace, ?_⟩
  exact (Option.some.inj hfile).symm.trans (by decide)

end Mapper
end ClonePlot
