import ClonePlot.Proofs.Canvas.Straight
import ClonePlot.Proofs.Mapper
import ClonePlot.Proofs.Model.Rows
import ClonePlot.Proofs.Scene.Effect
import ClonePlot.View

/-! # Markers lie in their cells

A fragment is shown between the pixels where its file starts and stops. A fragment has content, so
it starts before the end of the line and its first pixel is on the drawing. Its last offset may be
the end of the line, which is shown just past the drawing.
-/
namespace ClonePlot
open Canvas

namespace Mapper

/-- The fragment lies where the line has offsets. -/
def FragmentFits (m : Mapper) (f : Fragment) : Prop :=
  m.layout.start f.file + f.start < UInt64.size ∧ m.layout.start f.file + f.stop < UInt64.size

def PairFits (m : Mapper) (p : ClonePair) : Prop := m.FragmentFits p.left ∧ m.FragmentFits p.right

theorem pairStart_x (m : Mapper) (p : ClonePair) :
    (m.pairStart p).x = m.filePixel p.right.file p.right.start := by
  simp only [pairStart]

theorem pairStart_y (m : Mapper) (p : ClonePair) :
    (m.pairStart p).y = m.filePixel p.left.file p.left.start := by
  simp only [pairStart]

theorem pairStop_x (m : Mapper) (p : ClonePair) :
    (m.pairStop p).x = m.filePixel p.right.file p.right.stop := by
  simp only [pairStop]

theorem pairStop_y (m : Mapper) (p : ClonePair) :
    (m.pairStop p).y = m.filePixel p.left.file p.left.stop := by
  simp only [pairStop]

section
variable {m : Mapper} {p : ClonePair} {e : Overflow}

theorem checkStart_eq_ok_iff : m.checkStart p = .ok () ↔
    m.layout.start p.right.file + p.right.start < UInt64.size ∧
      m.layout.start p.left.file + p.left.start < UInt64.size := by
  simp only [checkStart, Layout.offset, bind_eq_ok_iff, addOffsets_eq_ok_iff, and_assoc,
    exists_eq_left]
  exact and_congr_right' (and_iff_left rfl)

theorem checkStop_eq_ok_iff : m.checkStop p = .ok () ↔
    m.layout.start p.right.file + p.right.stop < UInt64.size ∧
      m.layout.start p.left.file + p.left.stop < UInt64.size := by
  simp only [checkStop, Layout.offset, bind_eq_ok_iff, addOffsets_eq_ok_iff, and_assoc,
    exists_eq_left]
  exact and_congr_right' (and_iff_left rfl)

theorem eq_add_of_checkStart (h : m.checkStart p = .error e) : e = .add := by
  simp only [checkStart, Layout.offset, bind_eq_error_iff] at h
  rcases h with h | ⟨_, -, h | ⟨_, -, ⟨⟩⟩⟩ <;> exact eq_add_of_addOffsets h

theorem eq_add_of_checkStop (h : m.checkStop p = .error e) : e = .add := by
  simp only [checkStop, Layout.offset, bind_eq_error_iff] at h
  rcases h with h | ⟨_, -, h | ⟨_, -, ⟨⟩⟩⟩ <;> exact eq_add_of_addOffsets h

theorem checkMarker_of_pairFits (h : m.PairFits p) : m.checkMarker p = .ok () := by
  obtain ⟨⟨hleft, hleft'⟩, hright, hright'⟩ := h
  rw [checkMarker, bind_eq_ok_iff]
  exact ⟨(), checkStart_eq_ok_iff.mpr ⟨hright, hleft⟩,
    return_or_eq_ok_iff.mpr fun _ => checkStop_eq_ok_iff.mpr ⟨hright', hleft'⟩⟩

theorem eq_add_of_checkMarker (h : m.checkMarker p = .error e) : e = .add := by
  rw [checkMarker, bind_eq_error_iff] at h
  rcases h with h | ⟨_, -, h⟩
  · exact eq_add_of_checkStart h
  · split at h
    · cases h
    · exact eq_add_of_checkStop h

end

variable {model : Model} {size : Nat} {f : Fragment} {p : ClonePair}

theorem start_succ_mapper (hsum : model.sizes.sum < UInt64.size) {file : SourceFile} {i : Nat}
    (hfile : model.files[i]? = some file) : (model.mapper size).layout.start (i + 1) =
      (model.mapper size).layout.start i + file.size := by
  have hlisted : model.sizes[i]? = some file.size := by
    simp only [Model.sizes, List.getElem?_map, Array.getElem?_toList, hfile, Option.map_some]
  obtain ⟨hi, hentry⟩ := List.getElem?_eq_some_iff.mp hlisted
  rw [← hentry]
  exact Layout.start_succ (l := (model.mapper size).layout) (Nat.le_pred_of_lt hsum) hi

/-- Files that fit on the line leave room for all their fragments. -/
theorem fragmentFits_of_within (hsum : model.sizes.sum < UInt64.size) (hf : f.Within model.files) :
    (model.mapper size).FragmentFits f := by
  obtain ⟨file, hfile, hlt, hle⟩ := hf
  have hnext : (model.mapper size).layout.start (f.file + 1) = _ := start_succ_mapper hsum hfile
  have hword := (model.mapper size).layout.start_le_maxOffset (f.file + 1)
  unfold maxOffset UInt64.size at hword
  unfold FragmentFits UInt64.size
  omega

theorem pairFits_of_within (hsum : model.sizes.sum < UInt64.size) (hp : p.Within model.files) :
    (model.mapper size).PairFits p :=
  ⟨fragmentFits_of_within hsum hp.1, fragmentFits_of_within hsum hp.2⟩

theorem pairFits_of_mem_views (hsum : model.sizes.sum < UInt64.size) :
    ∀ p ∈ model.views, (model.mapper size).PairFits p := by
  intro p hp
  obtain ⟨i, hrow⟩ := Model.mem_views.mp hp
  exact pairFits_of_within hsum (Model.within_of_mem_row hrow)

theorem filePixel_between (hsum : model.sizes.sum < UInt64.size) (hsize : size < UInt32.size)
    (hf : f.Within model.files) :
    (model.mapper size).startPixel f.file ≤ (model.mapper size).filePixel f.file f.start ∧
      (model.mapper size).filePixel f.file f.start ≤ (model.mapper size).filePixel f.file f.stop ∧
      (model.mapper size).filePixel f.file f.stop ≤ (model.mapper size).stopPixel f.file := by
  obtain ⟨file, hfile, hlt, hle⟩ := hf
  have hnext : (model.mapper size).layout.start (f.file + 1) = _ := start_succ_mapper hsum hfile
  have htotal := (model.mapper size).layout.start_le_total (f.file + 1)
  unfold filePixel
  have hstop : (model.mapper size).layout.start f.file + f.stop ≤
      (model.mapper size).layout.stop f.file := by
    unfold Layout.stop
    omega
  exact ⟨pixel_le_pixel hsize (Nat.le_add_right _ _) (by omega),
    pixel_le_pixel hsize (by omega) (by omega), pixel_le_pixel hsize hstop htotal⟩

theorem filePixel_start_lt (hsum : model.sizes.sum < UInt64.size) (hsize : size < UInt32.size)
    (hpos : 0 < size) (hf : f.Within model.files) :
    (model.mapper size).filePixel f.file f.start < size := by
  obtain ⟨file, hfile, hlt, hle⟩ := hf
  have hnext : (model.mapper size).layout.start (f.file + 1) = _ := start_succ_mapper hsum hfile
  have htotal := (model.mapper size).layout.start_le_total (f.file + 1)
  exact pixel_lt_drawSize (m := model.mapper size) hsize hpos (by omega)

theorem corners_between (hsum : model.sizes.sum < UInt64.size) (hsize : size < UInt32.size)
    (hp : p.Within model.files) :
    let m := model.mapper size
    (m.startPixel p.right.file ≤ (m.pairStart p).x ∧ (m.pairStart p).x ≤ (m.pairStop p).x ∧
        (m.pairStop p).x ≤ m.stopPixel p.right.file) ∧
      m.startPixel p.left.file ≤ (m.pairStart p).y ∧ (m.pairStart p).y ≤ (m.pairStop p).y ∧
        (m.pairStop p).y ≤ m.stopPixel p.left.file := by
  intro m
  rw [pairStart_x, pairStart_y, pairStop_x, pairStop_y]
  exact ⟨filePixel_between hsum hsize hp.2, filePixel_between hsum hsize hp.1⟩

theorem pairStart_lt (hsum : model.sizes.sum < UInt64.size) (hsize : size < UInt32.size)
    (hpos : 0 < size) (hp : p.Within model.files) :
    ((model.mapper size).pairStart p).x < size ∧ ((model.mapper size).pairStart p).y < size := by
  rw [pairStart_x, pairStart_y]
  exact ⟨filePixel_start_lt hsum hsize hpos hp.2, filePixel_start_lt hsum hsize hpos hp.1⟩

theorem pairStart_le_pairStop (hsum : model.sizes.sum < UInt64.size) (hsize : size < UInt32.size)
    (hp : p.Within model.files) :
    ((model.mapper size).pairStart p).x ≤ ((model.mapper size).pairStop p).x ∧
      ((model.mapper size).pairStart p).y ≤ ((model.mapper size).pairStop p).y := by
  obtain ⟨⟨-, hx, -⟩, -, hy, -⟩ := corners_between hsum hsize hp
  exact ⟨hx, hy⟩

/-- Line or dot, a marker lays one coat where it starts. -/
theorem coats_marker_pairStart (m : Mapper) (p : ClonePair) :
    (m.marker p).coats (m.pairStart p) = 1 := by
  unfold marker
  split
  · exact count_linePoints_first _ _
  · rw [Marker.coats, if_pos]
    generalize m.pairStart p = start
    unfold dotSize
    omega

theorem pixel?_draw_pairStart (m : Mapper) (p : ClonePair) (c : Canvas) (color : Color) :
    ((m.marker p).draw c color).pixel? (m.pairStart p) =
      (c.pixel? (m.pairStart p)).map color.blendOver := by
  rw [((m.marker p).coats_draw c color).pixel?]
  dsimp only
  rw [coats_marker_pairStart, Color.coat_one]

/-- The marker of a stored pair lies in the cell of its files and starts on the drawing, and where
it starts it has painted the drawing once. -/
theorem marker_visible (model : Model) (hsum : model.sizes.sum < UInt64.size) (drawSize : UInt32)
    (hpos : 0 < drawSize.toNat) (p : ClonePair) (hp : p ∈ model.views) :
    let m := model.mapper drawSize.toNat
    let a := m.pairStart p
    let b := m.pairStop p
    (m.startPixel p.right.file ≤ a.x ∧ a.x ≤ b.x ∧ b.x ≤ m.stopPixel p.right.file ∧
        m.stopPixel p.right.file ≤ drawSize.toNat) ∧
      (m.startPixel p.left.file ≤ a.y ∧ a.y ≤ b.y ∧ b.y ≤ m.stopPixel p.left.file ∧
        m.stopPixel p.left.file ≤ drawSize.toNat) ∧
      (a.x < drawSize.toNat ∧ a.y < drawSize.toNat) ∧
      (m.marker p = .dot a ∨ m.marker p = .line a b) ∧
      ∀ (c : Canvas) (color : Color), c.width = drawSize.toNat → c.height = drawSize.toNat →
        c.Holds a ∧ ((m.marker p).draw c color).pixel? a = (c.pixel? a).map color.blendOver := by
  intro m a b
  have hsize : drawSize.toNat < UInt32.size := drawSize.toNat_lt_size
  obtain ⟨_, hstored⟩ := Model.mem_views.mp hp
  have hwithin : p.Within model.files := Model.within_of_mem_row hstored
  have hstop (i : Nat) : m.stopPixel i ≤ drawSize.toNat :=
    pixel_le_drawSize (m := m) hsize hpos (m.layout.start_le_total (i + 1))
  have hstart (i : Nat) : 0 ≤ m.startPixel i :=
    pixel_nonneg (m := m) hsize (m.layout.start_le_total i)
  obtain ⟨⟨hleft, hx, hright⟩, htop, hy, hbottom⟩ := corners_between hsum hsize hwithin
  obtain ⟨hcol, hrow⟩ := pairStart_lt hsum hsize hpos hwithin
  refine ⟨⟨hleft, hx, hright, hstop _⟩, ⟨htop, hy, hbottom, hstop _⟩, ⟨hcol, hrow⟩, ?_, ?_⟩
  · unfold marker
    split
    · exact .inr rfl
    · exact .inl rfl
  · intro c color hwidth hheight
    have hheld : c.Holds a :=
      ⟨(hstart _).trans hleft, hwidth ▸ hcol, (hstart _).trans htop, hheight ▸ hrow⟩
    exact ⟨hheld, pixel?_draw_pairStart m p c color⟩

end Mapper

/-- A clone at the end of the second file. -/
def Model.edge : Model where
  files := #[⟨0, "a", 5⟩, ⟨1, "b", 3⟩]
  pairs := [⟨7, ⟨0, 0, 1⟩, ⟨1, 2, 3⟩⟩]
  pairs_within := firstFault?_eq_none_iff (i := 0).mp (by decide)

namespace Mapper

/-- The line goes from the last column of the drawing to the one past it. -/
theorem marker_visible_edge :
    let m := Model.edge.mapper (8 : UInt32).toNat
    let p : ClonePair := ⟨7, ⟨0, 0, 1⟩, ⟨1, 2, 3⟩⟩
    let c := Canvas.blank 8 8 ⟨255, 255, 255, 255⟩
    p ∈ Model.edge.views ∧ m.marker p = .line ⟨7, 0⟩ ⟨8, 1⟩ ∧ m.stopPixel 1 = 8 ∧
      ((m.marker p).draw c ⟨1, 2, 3, 255⟩).pixel? ⟨7, 0⟩ = some ⟨1, 2, 3, 255⟩ := by
  intro m p c
  have hstored : p ∈ Model.edge.views := by
    refine Model.mem_views.mpr ⟨0, Model.mem_row.mpr ⟨by decide, rfl, p, List.mem_cons_self, ?_⟩⟩
    decide
  have hplace : m.pairStart p = ⟨7, 0⟩ := by decide
  obtain ⟨-, -, -, -, hpaint⟩ := marker_visible .edge (by decide) 8 (by decide) p hstored
  have hpixel := (hpaint c ⟨1, 2, 3, 255⟩ rfl rfl).2
  change ((m.marker p).draw c ⟨1, 2, 3, 255⟩).pixel? (m.pairStart p) = _ at hpixel
  rw [hplace] at hpixel
  refine ⟨hstored, by decide, by decide, hpixel.trans ?_⟩
  decide

end Mapper
end ClonePlot
