import ClonePlot.Proofs.Canvas.Line

/-! # Lines are straight

A walk reaches its end after as many steps as the longer axis has, and not before. Each step leads
one pixel on along that axis and at most one along the other, so that no pixel comes twice, and
none is more than half a pixel beside the segment.
-/
namespace ClonePlot
namespace LineStep

def after (p q : Point) (n : Nat) : LineStep := (fun s => s.next p q)^[n] (first p q)

theorem after_succ (p q : Point) (n : Nat) : after p q (n + 1) = (after p q n).next p q :=
  Function.iterate_succ_apply' _ n _

/-- The points of a walk that comes to its end in `n` steps, if there is fuel for as many. -/
theorem walk_eq_map_range {p q : Point} {n fuel : Nat} {s : LineStep} (hfuel : n ≤ fuel)
    (hbefore : ∀ i < n, ((fun s => s.next p q)^[i] s).place ≠ q)
    (hend : ((fun s => s.next p q)^[n] s).place = q) :
    walk p q fuel s = (List.range (n + 1)).map fun i => ((fun s => s.next p q)^[i] s).place := by
  induction n generalizing fuel s with
  | zero =>
    have hstop : s.place = q := hend
    cases fuel with
    | zero => rfl
    | succ fuel =>
      unfold walk
      rw [if_pos hstop]
      rfl
  | succ n ih =>
    obtain ⟨fuel, rfl⟩ : ∃ k, fuel = k + 1 := ⟨fuel - 1, by omega⟩
    have hgoing : s.place ≠ q := hbefore 0 n.succ_pos
    unfold walk
    rw [if_neg hgoing, List.range_succ_eq_map, List.map_cons, List.map_map]
    refine congrArg _ (ih (Nat.le_of_succ_le_succ hfuel) (fun i hi => ?_) hend)
    exact hbefore (i + 1) (Nat.succ_lt_succ hi)

variable {p q : Point} {i j n : Nat} {s : LineStep}

theorem exists_along_after (hwide : height p q ≤ width p q) (hi : i ≤ width p q) :
    ∃ j, Along p q i j (after p q i) := by
  induction i with
  | zero => exact ⟨0, along_first p q⟩
  | succ i ih =>
    obtain ⟨j, halong⟩ := ih (Nat.le_of_succ_le hi)
    obtain ⟨j', -, hnext⟩ := halong.next hwide hi
    exact ⟨j', after_succ p q i ▸ hnext⟩

theorem towards_eq_sign {a b : Int} (h : a ≠ b) : towards a b = (b - a).sign := by
  unfold towards
  split
  · rw [Int.sign_eq_one_of_pos (by omega)]
  · rw [Int.sign_eq_neg_one_of_neg (by omega)]

theorem natCast_mul_towards {a b : Int} (h : n ≤ (b - a).natAbs) :
    (n : Int) * towards a b = n * (b - a).sign := by
  by_cases hab : a = b
  · subst hab
    have hn : n = 0 := by simpa using h
    simp [hn]
  · rw [towards_eq_sign hab]

theorem sub_x_eq (p q : Point) : q.x - p.x = width p q * towards p.x q.x :=
  (Int.sub_eq_iff_eq_add'.mpr (add_natAbs_mul_towards p.x q.x).symm)

theorem sub_y_eq (p q : Point) : q.y - p.y = height p q * towards p.y q.y := sub_x_eq p.swap q.swap

/-- One column towards `q`, and none or one row. -/
def StepsAcross (p q r r' : Point) : Prop :=
  r'.x = r.x + (q.x - p.x).sign ∧ (r'.y = r.y ∨ r'.y = r.y + (q.y - p.y).sign)

/-- The row is at most half a pixel away from where the segment crosses the column. -/
def BesideAcross (p q r : Point) : Prop :=
  |(r.y : ℚ) - (p.y + (q.y - p.y) * ((r.x - p.x) / (q.x - p.x)))| ≤ 1 / 2

/-- A run of places that leads from column to column beside the segment. -/
structure StraightAcross (p q : Point) (n : Nat) (place : Nat → Point) : Prop where
  start : place 0 = p
  stop : place n = q
  step : ∀ i < n, StepsAcross p q (place i) (place (i + 1))
  inside : ∀ i ≤ n, (PixelRect.ofCorners p q).contains (place i)
  beside : ∀ i ≤ n, BesideAcross p q (place i)

theorem Along.place_eq_sign (h : Along p q i j s) :
    s.place = ⟨p.x + i * (q.x - p.x).sign, p.y + j * (q.y - p.y).sign⟩ := by
  rw [h.place, natCast_mul_towards h.columns, natCast_mul_towards h.rows]

theorem Along.stepsAcross {j' : Nat} {s' : LineStep} (h : Along p q i j s)
    (h' : Along p q (i + 1) j' s') (hj : j' = j ∨ j' = j + 1) :
    StepsAcross p q s.place s'.place := by
  have hnext (n : Nat) (start way : Int) : start + (n + 1 : Nat) * way = start + n * way + way := by
    push_cast
    ring
  rw [StepsAcross, h.place_eq_sign, h'.place_eq_sign]
  refine ⟨hnext i p.x _, ?_⟩
  rcases hj with rfl | rfl
  · exact .inl rfl
  · exact .inr (hnext j p.y _)

theorem abs_towards (a b : Int) : |((towards a b : Int) : ℚ)| = 1 := by
  unfold towards
  split <;> simp

theorem Along.besideAcross (h : Along p q i j s) (hwide : height p q ≤ width p q) :
    BesideAcross p q s.place := by
  have hx : (q.x : ℚ) - p.x = width p q * towards p.x q.x := by exact_mod_cast sub_x_eq p q
  have hy : (q.y : ℚ) - p.y = height p q * towards p.y q.y := by exact_mod_cast sub_y_eq p q
  have htx : ((towards p.x q.x : Int) : ℚ) ≠ 0 := by
    rw [← abs_ne_zero, abs_towards]
    exact one_ne_zero
  have hgone : ((p.x + i * towards p.x q.x : Int) : ℚ) - p.x = i * towards p.x q.x := by
    push_cast
    ring
  unfold BesideAcross
  rw [h.place]
  dsimp only
  rw [hgone, hx, hy, mul_div_mul_right _ _ htx]
  rcases Nat.eq_zero_or_pos (width p q) with hpoint | hpos
  · -- a single pixel
    have hheight : height p q = 0 := by omega
    have hj : j = 0 := by
      have := h.rows
      omega
    simp [hheight, hj]
  · have hwidth : (0 : ℚ) < width p q := by exact_mod_cast hpos
    have hlead : ((p.y + j * towards p.y q.y : Int) : ℚ) -
        (p.y + height p q * towards p.y q.y * (i / width p q)) =
          towards p.y q.y * (lead p q i j / width p q) := by
      unfold lead
      push_cast
      field_simp
      ring
    rw [hlead, abs_mul, abs_towards, one_mul, abs_div, abs_of_pos hwidth, div_le_iff₀ hwidth, abs_le]
    have hlow : -(width p q : ℚ) ≤ 2 * lead p q i j := by exact_mod_cast h.low
    have hhigh : 2 * (lead p q i j : ℚ) ≤ width p q := by exact_mod_cast h.high
    constructor <;> linarith

theorem straightAcross_of_wide (hwide : height p q ≤ width p q) :
    StraightAcross p q (width p q) fun i => (after p q i).place where
  start := rfl
  stop := by
    obtain ⟨j, h⟩ := exists_along_after hwide le_rfl
    exact h.place_eq hwide rfl
  step := by
    intro i hi
    obtain ⟨j, h⟩ := exists_along_after hwide hi.le
    obtain ⟨j', hj, h'⟩ := h.next hwide hi
    rw [after_succ]
    exact h.stepsAcross h' hj
  inside := by
    intro i hi
    obtain ⟨j, h⟩ := exists_along_after hwide hi
    exact h.inside
  beside := by
    intro i hi
    obtain ⟨j, h⟩ := exists_along_after hwide hi
    exact h.besideAcross hwide

theorem after_swap (p q : Point) (n : Nat) : after p.swap q.swap n = (after p q n).swap := by
  induction n with
  | zero => exact first_swap p q
  | succ n ih => rw [after_succ, after_succ, ih, next_swap]

theorem straightAcross_of_tall (htall : width p q ≤ height p q) :
    StraightAcross p.swap q.swap (height p q) fun i => (after p q i).place.swap := by
  have hwide : height p.swap q.swap ≤ width p.swap q.swap := htall
  have h := straightAcross_of_wide hwide
  simp only [after_swap] at h
  exact h

namespace StraightAcross

variable {place : Nat → Point}

theorem column_eq (h : StraightAcross p q n place) (hi : i ≤ n) :
    (place i).x = p.x + i * (q.x - p.x).sign := by
  induction i with
  | zero => simp [h.start]
  | succ i ih =>
    rw [(h.step i hi).1, ih (Nat.le_of_succ_le hi)]
    push_cast
    ring

theorem place_injOn (h : StraightAcross p q n place) (hn : n = width p q) (hi : i ≤ n) (hj : j ≤ n)
    (hij : place i = place j) : i = j := by
  have hcolumn := congrArg Point.x hij
  rw [h.column_eq hi, h.column_eq hj, Int.add_right_inj] at hcolumn
  by_cases hx : q.x - p.x = 0
  · unfold width at hn
    omega
  · have hsign : (q.x - p.x).sign ≠ 0 := fun hzero => hx (Int.sign_eq_zero_iff_zero.mp hzero)
    exact Int.ofNat_inj.mp (Int.eq_of_mul_eq_mul_right hsign hcolumn)

end StraightAcross

theorem place_after_injOn (hi : i ≤ max (width p q) (height p q))
    (hj : j ≤ max (width p q) (height p q)) (hij : (after p q i).place = (after p q j).place) :
    i = j := by
  rcases Nat.le_total (height p q) (width p q) with hwide | htall
  · rw [Nat.max_eq_left hwide] at hi hj
    exact (straightAcross_of_wide hwide).place_injOn rfl hi hj hij
  · rw [Nat.max_eq_right htall] at hi hj
    exact (straightAcross_of_tall htall).place_injOn rfl hi hj (congrArg Point.swap hij)

theorem place_after_max (p q : Point) : (after p q (max (width p q) (height p q))).place = q := by
  rcases Nat.le_total (height p q) (width p q) with hwide | htall
  · rw [Nat.max_eq_left hwide]
    exact (straightAcross_of_wide hwide).stop
  · rw [Nat.max_eq_right htall]
    exact Point.swap_injective (straightAcross_of_tall htall).stop

theorem inside_after (hi : i ≤ max (width p q) (height p q)) :
    (PixelRect.ofCorners p q).contains (after p q i).place := by
  rcases Nat.le_total (height p q) (width p q) with hwide | htall
  · rw [Nat.max_eq_left hwide] at hi
    exact (straightAcross_of_wide hwide).inside i hi
  · rw [Nat.max_eq_right htall] at hi
    have hinside := (straightAcross_of_tall htall).inside i hi
    rwa [PixelRect.ofCorners_swap, PixelRect.contains_swap] at hinside

theorem place_after_ne (hi : i < max (width p q) (height p q)) : (after p q i).place ≠ q := by
  intro hstop
  exact hi.ne (place_after_injOn hi.le le_rfl (hstop.trans (place_after_max p q).symm))

theorem walk_first {fuel : Nat} (hfuel : max (width p q) (height p q) ≤ fuel) :
    walk p q fuel (first p q) =
      (List.range (max (width p q) (height p q) + 1)).map fun i => (after p q i).place :=
  walk_eq_map_range hfuel (fun _ hi => place_after_ne hi) (place_after_max p q)

theorem max_le_bound (p q : Point) : max (width p q) (height p q) ≤ bound p q :=
  max_le (Nat.le_add_right _ _) (Nat.le_add_left _ _)

theorem nodup_places (p q : Point) :
    ((List.range (max (width p q) (height p q) + 1)).map fun i => (after p q i).place).Nodup := by
  refine List.Nodup.map_on (fun i hi j hj hij => ?_) List.nodup_range
  exact place_after_injOn (Nat.le_of_lt_succ (List.mem_range.mp hi))
    (Nat.le_of_lt_succ (List.mem_range.mp hj)) hij

end LineStep

open LineStep

theorem linePoints_eq_map_range (p q : Point) : linePoints p q =
    (List.range (max (width p q) (height p q) + 1)).map fun i => (after p q i).place :=
  walk_first (max_le_bound p q)

theorem inside_of_mem_linePoints {p q r : Point} (h : r ∈ linePoints p q) :
    (PixelRect.ofCorners p q).contains r := by
  rw [linePoints_eq_map_range] at h
  obtain ⟨i, hi, rfl⟩ := List.mem_map.mp h
  exact inside_after (Nat.le_of_lt_succ (List.mem_range.mp hi))

/-- A line has a coat for its first point, and no second one. -/
theorem count_linePoints_first (p q : Point) : (linePoints p q).count p = 1 := by
  rw [linePoints_eq_map_range]
  refine List.count_eq_one_of_mem (nodup_places p q) (List.mem_map.mpr ⟨0, ?_, rfl⟩)
  exact List.mem_range.mpr (Nat.succ_pos _)

theorem wrap64_eq_of_natAbs_lt {v : Int} (h : v.natAbs < 2 ^ 63) : wrap64 v = v := by
  have hmax : Int64.maxValue.toInt = 2 ^ 63 - 1 := rfl
  exact wrap64_eq_self (by omega) (by omega)

namespace LineStep

variable {p q : Point} {i : Nat}

def numbers (p q : Point) (s : LineStep) : List Int :=
  [q.x - p.x, q.y - p.y, s.place.x, s.place.y, s.error, 2 * s.error, s.error - height p q]

theorem natAbs_error_le (hi : i ≤ max (width p q) (height p q)) :
    2 * (after p q i).error.natAbs ≤ 3 * max (width p q) (height p q) := by
  rcases Nat.le_total (height p q) (width p q) with hwide | htall
  · rw [Nat.max_eq_left hwide] at hi ⊢
    obtain ⟨j, h⟩ := exists_along_after hwide hi
    have herror := h.error
    have hlow := h.low
    have hhigh := h.high
    omega
  · rw [Nat.max_eq_right htall] at hi ⊢
    have hwide : height p.swap q.swap ≤ width p.swap q.swap := htall
    obtain ⟨j, h⟩ := exists_along_after hwide hi
    rw [after_swap] at h
    have herror : -(after p q i).error = (height p q : Int) - width p q +
        lead p.swap q.swap i j := h.error
    have hlow : -(height p q : Int) ≤ 2 * lead p.swap q.swap i j := h.low
    have hhigh : 2 * lead p.swap q.swap i j ≤ (height p q : Int) := h.high
    omega

theorem natAbs_lt_of_between {a b x : Int} {n : Nat} (ha : a.natAbs < n) (hb : b.natAbs < n)
    (hlow : min a b ≤ x) (hhigh : x ≤ max a b) : x.natAbs < n := by
  have hlower : -(n : Int) < min a b := lt_min (by omega) (by omega)
  have hupper : max a b < n := max_lt (by omega) (by omega)
  generalize min a b = low at *
  generalize max a b = high at *
  omega

theorem natAbs_place_lt {bound : Nat} (hp : p.x.natAbs < bound ∧ p.y.natAbs < bound)
    (hq : q.x.natAbs < bound ∧ q.y.natAbs < bound) (hi : i ≤ max (width p q) (height p q)) :
    (after p q i).place.x.natAbs < bound ∧ (after p q i).place.y.natAbs < bound := by
  obtain ⟨hleft, hright, htop, hbottom⟩ := PixelRect.contains_iff.mp (inside_after hi)
  exact ⟨natAbs_lt_of_between hp.1 hq.1 hleft hright, natAbs_lt_of_between hp.2 hq.2 htop hbottom⟩

theorem natAbs_sub_lt {a b : Int} (ha : a.natAbs < 2 ^ 60) (hb : b.natAbs < 2 ^ 60) :
    (a - b).natAbs < 2 ^ 61 := by
  omega

theorem wrap64_of_mem_numbers (hp : p.x.natAbs < 2 ^ 60 ∧ p.y.natAbs < 2 ^ 60)
    (hq : q.x.natAbs < 2 ^ 60 ∧ q.y.natAbs < 2 ^ 60) (hi : i ≤ max (width p q) (height p q)) :
    ∀ v ∈ numbers p q (after p q i), wrap64 v = v := by
  intro v hv
  have hwidth : width p q < 2 ^ 61 := natAbs_sub_lt hq.1 hp.1
  have hheight : height p q < 2 ^ 61 := natAbs_sub_lt hq.2 hp.2
  have hplace := natAbs_place_lt hp hq hi
  have herror' : (after p q i).error.natAbs < 2 ^ 62 := by
    have herror := natAbs_error_le hi
    have hmax : max (width p q) (height p q) < 2 ^ 61 := max_lt hwidth hheight
    generalize max (width p q) (height p q) = longer at *
    clear hp hq hplace
    omega
  clear hi
  apply wrap64_eq_of_natAbs_lt
  unfold numbers at hv
  simp only [List.mem_cons, List.not_mem_nil, or_false] at hv
  rcases hv with rfl | rfl | rfl | rfl | rfl | rfl | rfl <;> omega

/-- A line visits one pixel more than its longer axis has steps. The walk first meets its end at
the last of them, whatever the fuel, and computes with no number that leaves 64 bits. -/
theorem line_straight (p q : Point) (hp : p.x.natAbs < 2 ^ 60 ∧ p.y.natAbs < 2 ^ 60)
    (hq : q.x.natAbs < 2 ^ 60 ∧ q.y.natAbs < 2 ^ 60) :
    let n := max (width p q) (height p q)
    let place := fun i => (after p q i).place
    let visited := (List.range (n + 1)).map place
    (∀ (c : Canvas) (color : Color),
        c.line p q color = visited.foldl (fun c r => c.put r color) c) ∧
      (∀ fuel, n ≤ fuel → walk p q fuel (first p q) = visited) ∧
      (∀ i < n, place i ≠ q) ∧ visited.Nodup ∧
      (height p q ≤ width p q → StraightAcross p q n place) ∧
      (width p q ≤ height p q → StraightAcross p.swap q.swap n fun i => (place i).swap) ∧
      ∀ i ≤ n, ∀ v ∈ numbers p q (after p q i), wrap64 v = v := by
  intro n place visited
  refine ⟨fun c color => ?_, fun fuel hfuel => walk_first hfuel, fun i hi => place_after_ne hi,
    nodup_places p q, fun hwide => ?_, fun htall => ?_, fun i hi => wrap64_of_mem_numbers hp hq hi⟩
  · rw [Canvas.line_eq_foldl, linePoints_eq_map_range]
  · have hn : n = width p q := Nat.max_eq_left hwide
    rw [hn]
    exact straightAcross_of_wide hwide
  · have hn : n = height p q := Nat.max_eq_right htall
    rw [hn]
    exact straightAcross_of_tall htall

/-- A steep line, upwards to the left. -/
theorem line_straight_steep :
    let p : Point := ⟨1, 6⟩
    let q : Point := ⟨-1, 0⟩
    ((p.x.natAbs < 2 ^ 60 ∧ p.y.natAbs < 2 ^ 60) ∧ q.x.natAbs < 2 ^ 60 ∧ q.y.natAbs < 2 ^ 60) ∧
      linePoints p q = [⟨1, 6⟩, ⟨1, 5⟩, ⟨0, 4⟩, ⟨0, 3⟩, ⟨0, 2⟩, ⟨-1, 1⟩, ⟨-1, 0⟩] ∧
      linePoints p q = (List.range 7).map (fun i => (after p q i).place) ∧
      StraightAcross p.swap q.swap 6 fun i => (after p q i).place.swap := by
  intro p q
  have hp : p.x.natAbs < 2 ^ 60 ∧ p.y.natAbs < 2 ^ 60 := by decide
  have hq : q.x.natAbs < 2 ^ 60 ∧ q.y.natAbs < 2 ^ 60 := by decide
  obtain ⟨-, hwalk, -, -, -, htall, -⟩ := line_straight p q hp hq
  exact ⟨⟨hp, hq⟩, by decide, hwalk (bound p q) (by decide), htall (by decide)⟩

end LineStep
end ClonePlot
