import ClonePlot.Proofs.Model.Listing
import ClonePlot.Proofs.View.Selected

/-! # Frames do not depend on the listing

Models that list the same pairs look the same and are selected from in the same way. Views whose
order in a row is left open belong to one class, so that their markers have one color; and the
coats of one color add up in whatever order they are laid.
-/
namespace ClonePlot
open Canvas

/-- Markers of one color can be exchanged. -/
theorem Marker.draw_comm (a b : Marker) (color : Color) (c : Canvas) :
    b.draw (a.draw c color) color = a.draw (b.draw c color) color := by
  have hab := Coats.trans (a.coats_draw c color) (b.coats_draw (a.draw c color) color)
  have hba := Coats.trans (b.coats_draw c color) (a.coats_draw (b.draw c color) color)
  have hsum : ∀ q, b.coats q + a.coats q = a.coats q + b.coats q := fun q => Nat.add_comm _ _
  exact Painted.unique hab (hba.congr hsum)

namespace Scene
variable (s : Scene) {m : Model}

def markPair (c : Canvas) (p : ClonePair) : Canvas := (s.mapper.marker p).draw c (s.markerColor p)

theorem mark_eq_foldl (c : Canvas) : s.mark c =
    (List.range s.model.fileCount).foldl (fun c i => (s.model.row i).foldl s.markPair c) c :=
  List.foldl_flatMap

/-- Pairs with equal keys belong to one class, hence their markers have one color. -/
theorem markPair_comm {p q : ClonePair} (h : p.rowKey = q.rowKey) (c : Canvas) :
    s.markPair (s.markPair c p) q = s.markPair (s.markPair c q) p := by
  have hcolor : s.markerColor p = s.markerColor q := by
    unfold markerColor
    rw [ClonePair.classId_eq_of_rowKey_eq h]
  unfold markPair
  rw [hcolor]
  exact Marker.draw_comm _ _ _ c

theorem mark_eq_of_rows (hcount : s.model.fileCount = m.fileCount)
    (hrows : ∀ i, (s.model.row i).Perm (m.row i)) (c : Canvas) :
    mark { s with model := m } c = s.mark c := by
  have hrow : ∀ (c : Canvas) (i : Nat),
      (s.model.row i).foldl s.markPair c = (m.row i).foldl s.markPair c := by
    intro c i
    exact foldl_eq_of_perm_of_pairwise ClonePair.rowKey s.markPair
      (fun p q hkey => s.markPair_comm hkey) (hrows i) (s.model.pairwise_row i) (m.pairwise_row i) c
  rw [mark_eq_foldl, mark_eq_foldl]
  simp only [hrow, hcount]
  rfl

theorem frame_eq_of_rows (hcount : s.model.fileCount = m.fileCount)
    (hrows : ∀ i, (s.model.row i).Perm (m.row i)) (target : Option Canvas) :
    frame { s with model := m } target = s.frame target := by
  unfold frame paintOn
  simp only [s.mark_eq_of_rows hcount hrows]
  rfl

theorem perm_markedPairs_of_rows (hcount : s.model.fileCount = m.fileCount)
    (hrows : ∀ i, (s.model.row i).Perm (m.row i)) :
    (markedPairs { s with model := m }).Perm s.markedPairs :=
  (Model.perm_views_of_rows hcount hrows).symm

/-- Markers are refused for one cause only, so it does not matter which is the first. -/
theorem check_eq_of_rows (hcount : s.model.fileCount = m.fileCount)
    (hrows : ∀ i, (s.model.row i).Perm (m.row i)) : check { s with model := m } = s.check := by
  have hmarks := forM_eq_of_perm (fun p _ => Mapper.eq_add_of_checkMarker (m := s.mapper) (p := p))
    (s.perm_markedPairs_of_rows hcount hrows)
  unfold check
  dsimp only
  rw [hmarks]
  rfl

theorem stats_eq_of_rows (hcount : s.model.fileCount = m.fileCount)
    (hrows : ∀ i, (s.model.row i).Perm (m.row i)) :
    stats { s with model := m } = s.stats := by
  have hpairs := s.perm_markedPairs_of_rows hcount hrows
  unfold stats
  rw [hpairs.length_eq, hpairs.countP_eq]
  rfl

end Scene

namespace Model
variable {m m' : Model}

def scene (m : Model) (size : Nat) (options : DrawOptions) (palette : Palette)
    (coloring : Option Coloring) (selected : IndexSet) (drag : Option PixelRect) : Scene where
  model := m
  mapper := m.mapper size
  directories := m.directories
  boxes := m.directories.boxes (m.mapper size)
  frontier := m.frontier
  options := options
  palette := palette
  coloring := coloring
  selected := selected
  drag := drag

theorem mapper_eq_of_files (h : m.files = m'.files) (size : Nat) :
    m.mapper size = m'.mapper size := by
  unfold mapper sizes
  rw [h]

theorem directories_eq_of_files (h : m.files = m'.files) : m.directories = m'.directories := by
  unfold directories
  rw [h]

theorem scene_eq_of_files (hfiles : m.files = m'.files) (hfrontier : m.frontier = m'.frontier)
    (size : Nat) (options : DrawOptions) (palette : Palette) (coloring : Option Coloring)
    (selected : IndexSet) (drag : Option PixelRect) :
    m'.scene size options palette coloring selected drag =
      { m.scene size options palette coloring selected drag with model := m' } := by
  unfold scene
  rw [mapper_eq_of_files hfiles, directories_eq_of_files hfiles, hfrontier]

end Model

/-- Both searches are refused for the same cause, or both give the same clones. -/
theorem Mapper.clonesIn_of_rows (m : Mapper) {model model' : Model}
    (hrows : ∀ i, (model.row i).Perm (model'.row i)) (r : PixelRect) (d : DragSelection) :
    (∃ e, m.clonesIn model r d = .error e ∧ m.clonesIn model' r d = .error e) ∨
      ∃ clones clones', m.clonesIn model r d = .ok clones ∧ m.clonesIn model' r d = .ok clones' ∧
        clones.Perm clones' := by
  unfold clonesIn Model.rowRange
  cases d.rows with
  | none => exact .inr ⟨[], [], rfl, rfl, .refl _⟩
  | some rows =>
    cases d.cols with
    | none => exact .inr ⟨[], [], rfl, rfl, .refl _⟩
    | some cols =>
      have hcell := (hrows rows.first).filter
        fun p => cols.first ≤ p.right.file && p.right.file < cols.first + 1
      have hcheck := forM_eq_of_perm (fun p _ => eq_add_of_checkPair (m := m) (p := p)) hcell
      dsimp only
      rw [hcheck]
      cases List.forM _ m.checkPair with
      | error e => exact .inl ⟨e, rfl, rfl⟩
      | ok _ => exact .inr ⟨_, _, rfl, rfl, hcell.filter _⟩

namespace View
variable {v v' : View}

def selects (v : View) (r : PixelRect) : Except Overflow (DragSelection × IndexSet × IndexSet) :=
  (v.selectRect r).map fun (d, after) => (d, after.selection.files, after.selection.classes)

theorem selects_eq_of_rows (hmapper : v.mapper = v'.mapper)
    (hrows : ∀ i, (v.model.row i).Perm (v'.model.row i)) (r : PixelRect) :
    v.selects r = v'.selects r := by
  unfold selects selectRect
  rw [hmapper]
  cases v'.mapper.dragSelection r with
  | error e => rfl
  | ok d =>
    change Except.map _ (v'.mapper.clonesIn v.model r d >>= _) =
      Except.map _ (v'.mapper.clonesIn v'.model r d >>= _)
    obtain ⟨e, h, h'⟩ | ⟨clones, clones', h, h', hclones⟩ :=
      v'.mapper.clonesIn_of_rows hrows r d
    · rw [h, h']
      rfl
    · have hclasses : IndexSet.ofList (clones.map ClonePair.classId) =
          .ofList (clones'.map ClonePair.classId) := by
        refine IndexSet.ext_mem fun k => ?_
        rw [IndexSet.mem_ofList, IndexSet.mem_ofList, (hclones.map _).mem_iff]
      rw [h, h']
      exact congrArg (fun classes => Except.ok (d, IndexSet.ofList d.files.toList, classes))
        hclasses

end View

/-- Two listings of the same pairs give the same frontier, the same picture and counts whatever
else is shown, none if one of them is refused, and the same files and classes for every
rectangle. -/
theorem shown_alike_of_relisted {files : Array SourceFile} {pairs pairs' : List ClonePair}
    {m m' : Model} (h : Model.ofPairs files pairs = .ok m) (h' : Model.ofPairs files pairs' = .ok m')
    (hlist : Relisted pairs pairs') :
    m.frontier = m'.frontier ∧
    (∀ size options palette coloring selected drag target target',
      let shown (m : Model) := m.scene size options palette coloring selected drag
      (shown m).check = (shown m').check ∧
        (shown m).frame target = (shown m').frame target' ∧ (shown m).stats = (shown m').stats) ∧
    ∀ (v v' : View) (r : PixelRect), v.Placed → v'.Placed → v.model = m → v'.model = m' →
      v.drawSize = v'.drawSize →
      v.selects r = v'.selects r := by
  obtain ⟨rfl, rfl⟩ := Model.eq_of_ofPairs h
  obtain ⟨hfiles, rfl⟩ := Model.eq_of_ofPairs h'
  have hcount : m.fileCount = m'.fileCount := congrArg Array.size hfiles.symm
  have hrows := Model.perm_row_of_relisted hlist
  have hfrontier := Model.frontier_eq_of_rows hcount hrows
  refine ⟨hfrontier, ?_, ?_⟩
  · intro size options palette coloring selected drag target target' shown
    have hscene : shown m' = { shown m with model := m' } :=
      Model.scene_eq_of_files hfiles.symm hfrontier size options palette coloring selected drag
    rw [hscene]
    refine ⟨((shown m).check_eq_of_rows hcount hrows).symm, ?_, ?_⟩
    · rw [(shown m).frame_eq_of_rows hcount hrows, (shown m).frame_eq_frame_none target,
        (shown m).frame_eq_frame_none target']
    · exact ((shown m).stats_eq_of_rows hcount hrows).symm
  · rintro v v' r hv hv' rfl rfl hsize
    have hmapper : v.mapper = v'.mapper := by
      rw [hv.mapper, hv'.mapper, hsize, Model.mapper_eq_of_files hfiles.symm]
    exact View.selects_eq_of_rows hmapper hrows r

/-- Two pairs inside of one file that no row order tells apart, the second one turned. -/
theorem shown_alike_of_relisted_turned :
    let p : ClonePair := ⟨7, ⟨0, 0, 2⟩, ⟨0, 4, 8⟩⟩
    let q : ClonePair := ⟨7, ⟨0, 0, 4⟩, ⟨0, 4, 6⟩⟩
    let files : Array SourceFile := #[⟨0, "a", 8⟩]
    let view (m : Model) := (View.ofSettings { baseSize := 8 }).updateModel m none
    ∃ m m', Model.ofPairs files [p, q] = .ok m ∧ Model.ofPairs files [q.flipped, p] = .ok m' ∧
      m.row 0 ≠ m'.row 0 ∧
      (∀ size options palette coloring selected drag,
        (m.scene size options palette coloring selected drag).frame none =
          (m'.scene size options palette coloring selected drag).frame none) ∧
      ∀ r, (view m).selects r = (view m').selects r := by
  intro p q files view
  have haccepted : ∃ m, Model.ofPairs files [p, q] = .ok m := ⟨_, rfl⟩
  have haccepted' : ∃ m, Model.ofPairs files [q.flipped, p] = .ok m := ⟨_, rfl⟩
  obtain ⟨m, hm⟩ := haccepted
  obtain ⟨m', hm'⟩ := haccepted'
  have hlist : Relisted [p, q] [q.flipped, p] :=
    ⟨[p, q.flipped], .cons (.inl rfl) (.cons (.inr rfl) .nil), .swap _ _ _⟩
  obtain ⟨-, hframes, hviews⟩ := shown_alike_of_relisted hm hm' hlist
  refine ⟨m, m', hm, hm', ?_, ?_, ?_⟩
  · obtain ⟨hfiles, hpairs⟩ := Model.eq_of_ofPairs hm
    obtain ⟨hfiles', hpairs'⟩ := Model.eq_of_ofPairs hm'
    have hrow : m.row 0 = [p, q, p.flipped, q.flipped] := by
      rw [Model.row_eq, Model.fileCount, hfiles, hpairs]
      cbv
    have hrow' : m'.row 0 = [q, p, q.flipped, p.flipped] := by
      rw [Model.row_eq, Model.fileCount, hfiles', hpairs']
      cbv
    rw [hrow, hrow']
    decide
  · intro size options palette coloring selected drag
    exact (hframes size options palette coloring selected drag none none).2.1
  · intro r
    have hplaced (m : Model) : (view m).Placed := (View.current_updateModel _ m none).placed
    exact hviews (view m) (view m') r (hplaced m) (hplaced m') rfl rfl rfl

end ClonePlot
