import ClonePlot.Proofs.View.Selected

/-! # Selections refer to the model shown

Whatever is done to a view, all files, classes and pairs that it has selected exist in the model
it shows, and selected pairs belong to exactly the selected classes. A new model comes with an
empty selection, a gesture selects what the positions lead to, and what siblings tell is cut down
to what is known; nothing else touches the selection or the model.
-/
namespace ClonePlot

namespace Model

theorem mem_classes {m : Model} {k : Nat} : k ∈ m.classes ↔ ∃ p ∈ m.views, p.classId = k := by
  unfold classes
  rw [IndexSet.mem_ofList, List.mem_map]
  rfl

end Model

namespace Selection

/-- Everything selected exists in the model, and pairs, if any are selected, are of exactly the
selected classes. -/
structure Valid (s : Selection) (m : Model) : Prop extends s.Inside m where
  pairs : ∀ p ∈ s.pairs, p ∈ m.views
  agree : s.pairs = [] ∨ ∀ k, k ∈ s.classes ↔ ∃ p ∈ s.pairs, p.classId = k

variable {s : Selection} {m : Model}

theorem Valid.of_pairs_eq_nil (h : s.Inside m) (hpairs : s.pairs = []) : s.Valid m where
  toInside := h
  pairs _ hp := absurd hp (hpairs ▸ List.not_mem_nil)
  agree := .inl hpairs

theorem valid_empty (m : Model) : Selection.Valid {} m :=
  .of_pairs_eq_nil (.of_isEmpty rfl m) rfl

/-- Cutting a selection down to a model keeps its pairs, if these are pairs of the model. -/
theorem valid_retain (hpairs : ∀ p ∈ s.pairs, p ∈ m.views)
    (hagree : s.pairs = [] ∨ ∀ k, k ∈ s.classes ↔ ∃ p ∈ s.pairs, p.classId = k) :
    (s.retain m.fileCount m.classes).Valid m := by
  have hkept : (s.retain m.fileCount m.classes).pairs = s.pairs := by
    refine List.filter_eq_self.mpr fun p hp => ?_
    have hview := hpairs p hp
    simp [Model.left_lt_of_mem_views hview, Model.right_lt_of_mem_views hview,
      Model.mem_classes.mpr ⟨p, hview, rfl⟩]
  refine ⟨⟨fun i hi => ?_, fun k hk => ?_⟩, hkept ▸ hpairs, ?_⟩
  · exact of_decide_eq_true (IndexSet.mem_filter.mp hi).2
  · exact of_decide_eq_true (IndexSet.mem_filter.mp hk).2
  · rw [hkept]
    refine hagree.imp_right fun hagree k => ?_
    rw [← hagree k]
    refine ⟨fun hk => (IndexSet.mem_filter.mp hk).1, fun hk => IndexSet.mem_filter.mpr ⟨hk, ?_⟩⟩
    obtain ⟨p, hp, hclass⟩ := (hagree k).mp hk
    exact decide_eq_true (Model.mem_classes.mpr ⟨p, hpairs p hp, hclass⟩)

end Selection

namespace View

variable {v : View}

theorem valid_click (h : v.Placed) (p : Point) : (v.click p).selection.Valid v.model :=
  .of_pairs_eq_nil (inside_click h p) rfl

theorem valid_of_selectRect (hv : v.Placed) {r : PixelRect} {d : DragSelection} {after : View}
    (h : v.selectRect r = .ok (d, after)) : after.selection.Valid after.model := by
  rw [model_of_selectRect h]
  obtain ⟨-, clones, hclones, rfl⟩ := selectRect_eq_ok_iff.mp h
  refine ⟨inside_of_selectRect hv h, fun _ hp => Mapper.mem_views_of_mem_clonesIn hclones hp,
    .inr fun k => ?_⟩
  change k ∈ IndexSet.ofList _ ↔ _
  rw [IndexSet.mem_ofList, List.mem_map]
  rfl

theorem valid_receive (h : v.Placed) (hv : v.selection.Valid v.model) (change : Change) :
    (v.receive change).selection.Valid v.model := by
  unfold receive
  rw [h.known]
  cases change with
  | files files => exact Selection.valid_retain hv.pairs hv.agree
  | classes classes =>
    exact Selection.valid_retain (fun p hp => absurd hp List.not_mem_nil) (.inl rfl)
  | region a b => exact Selection.valid_retain hv.pairs hv.agree

theorem model_selection_flush (v : View) :
    v.flush.model = v.model ∧ v.flush.selection = v.selection := by
  unfold flush
  split
  · exact ⟨rfl, rfl⟩
  · unfold place redraw
    split <;> exact ⟨rfl, rfl⟩

theorem valid_flush (h : v.selection.Valid v.model) :
    v.flush.selection.Valid v.flush.model := by
  rw [(model_selection_flush v).1, (model_selection_flush v).2]
  exact h

theorem valid_rebuild (h : v.selection.Valid v.model) (settings : Settings)
    (metric : Option String) (t : Trigger) :
    (View.rebuild { v with settings, metric } t).selection.Valid
      (View.rebuild { v with settings, metric } t).model :=
  valid_flush (v := View.mark { v with settings, metric } t) h

theorem valid_ofSettings (settings : Settings) :
    (ofSettings settings).selection.Valid (ofSettings settings).model :=
  valid_flush (Selection.valid_empty _)

theorem valid_updateModel (v : View) (model : Model) (table : Option MetricTable) :
    (v.updateModel model table).selection.Valid (v.updateModel model table).model :=
  valid_flush (Selection.valid_empty _)

theorem valid_resize (h : v.selection.Valid v.model) (width height : Nat) :
    (v.resize width height).selection.Valid (v.resize width height).model := by
  obtain heq | ⟨settings, heq⟩ := resize_eq v width height
  · rw [heq]
    exact h
  · rw [heq]
    exact valid_rebuild h settings v.metric .resize

theorem valid_resizeDrawingArea (h : v.selection.Valid v.model) {multiplier : Nat} {after : View}
    (hresize : v.resizeDrawingArea multiplier = .ok after) :
    after.selection.Valid after.model := by
  obtain ⟨settings, rfl⟩ := eq_of_resizeDrawingArea hresize
  exact valid_rebuild h settings v.metric .command

theorem valid_setOptions (h : v.selection.Valid v.model) (options : DrawOptions) :
    (v.setOptions options).selection.Valid (v.setOptions options).model := by
  obtain heq | heq := setOptions_eq v options
  · rw [heq]
    exact h
  · rw [heq]
    exact valid_rebuild h _ v.metric .overlay

theorem valid_dragTo (h : v.selection.Valid v.model) (p : Point) :
    (v.dragTo p).selection.Valid (v.dragTo p).model := by
  obtain heq | ⟨drag, heq⟩ := dragTo_eq v p
  · rw [heq]
    exact h
  · rw [heq]
    exact h

end View

namespace LinkedView
open View

variable {v : LinkedView}

structure Sound (v : LinkedView) : Prop where
  current : v.view.Current
  valid : v.view.selection.Valid v.view.model

theorem sound_act (h : v.Sound) (bus : Bus) (a : Action) : (v.act bus a).linked.Sound := by
  have hreceive : ∀ (w : View) (change : Change), w.Current ∧ w.selection.Valid w.model →
      (w.receive change).Current ∧ (w.receive change).selection.Valid w.model :=
    fun _ change hw => ⟨hw.1.receive change, valid_receive hw.1.placed hw.2 change⟩
  refine ⟨current_act h.current bus a, ?_⟩
  cases a with
  | updateModel model table => exact valid_updateModel v.view model table
  | resize width height => exact valid_resize h.valid width height
  | resizeDrawingArea multiplier =>
    simp only [act, LinkedView.resizeDrawingArea]
    split
    · rename_i hresize
      exact valid_resizeDrawingArea h.valid hresize
    · exact h.valid
  | setMetric metric => exact valid_rebuild h.valid v.view.settings metric .metric
  | setOptions options => exact valid_setOptions h.valid options
  | toggle overlay => exact valid_setOptions h.valid _
  | setPalette palette =>
    exact valid_rebuild h.valid { v.view.settings with palette } v.view.metric .overlay
  | click p =>
    simp only [act, view_tell]
    exact valid_click h.current.placed p
  | beginDrag p => exact h.valid
  | dragTo p => exact valid_dragTo h.valid p
  | endDrag p =>
    simp only [act, LinkedView.selectRect, view_tell]
    exact RectOutcome.preserves (P := fun w => w.selection.Valid w.model) h.valid
      fun _ _ => valid_of_selectRect h.current.placed.dropDrag
  | selectRect r =>
    simp only [act, LinkedView.selectRect, view_tell]
    exact RectOutcome.preserves (P := fun w => w.selection.Valid w.model) h.valid
      fun _ _ => valid_of_selectRect h.current.placed
  | clearSelection =>
    simp only [act, view_tell]
    exact Selection.valid_empty _
  | attach other => exact h.valid
  | poll => exact (poll_preserves hreceive ⟨h.current, h.valid⟩ bus).2
  | receive event => exact (apply_preserves hreceive ⟨h.current, h.valid⟩ event).2
  | frame => exact valid_flush h.valid

theorem sound_run (h : v.Sound) (calls : List (Bus × Call)) : (v.run calls).Sound :=
  run_preserves (P := Sound) (fun _ bus a hv => sound_act hv bus a) h calls

/-- After any run the selected files are files of the model, the selected pairs are pairs of its
rows, and each selected class has such a pair. Selected pairs are those of the selected classes,
unless there are none. -/
theorem selected_exists_of_run (settings : Settings) (calls : List (Bus × Call)) :
    let v := ((ofSettings settings).run calls).view
    let s := v.selection
    (∀ i ∈ s.files, i < v.model.fileCount) ∧
      (∀ k ∈ s.classes, ∃ i, ∃ p ∈ v.model.row i, p.classId = k) ∧
      (∀ p ∈ s.pairs, ∃ i, p ∈ v.model.row i) ∧
      (s.pairs = [] ∨ ∀ k, k ∈ s.classes ↔ ∃ p ∈ s.pairs, p.classId = k) := by
  intro v s
  have hstart : (ofSettings settings).Sound :=
    ⟨current_ofSettings settings, valid_ofSettings settings⟩
  have hvalid : s.Valid v.model := (sound_run hstart calls).valid
  refine ⟨hvalid.files, fun k hk => ?_, fun p hp => Model.mem_views.mp (hvalid.pairs p hp),
    hvalid.agree⟩
  obtain ⟨p, hp, hclass⟩ := Model.mem_classes.mp (hvalid.classes k hk)
  obtain ⟨i, hp⟩ := Model.mem_views.mp hp
  exact ⟨i, p, hp, hclass⟩

/-- The halves of a file are selected by a rectangle around all of it. -/
theorem selected_exists_of_run_halves :
    let v := ((ofSettings { baseSize := 8 }).run [(.empty, .act (.updateModel .halves none)),
      (.empty, .act (.selectRect (.ofCorners ⟨0, 0⟩ ⟨7, 7⟩)))]).view
    let p : ClonePair := ⟨7, ⟨0, 0, 4⟩, ⟨0, 4, 8⟩⟩
    p ∈ v.selection.pairs ∧ (∃ i, p ∈ v.model.row i) ∧
      ∀ k, k ∈ v.selection.classes ↔ ∃ q ∈ v.selection.pairs, q.classId = k := by
  intro v p
  have hp : p ∈ v.selection.pairs := by
    obtain ⟨d, after, hselect, hp⟩ := selectRect_halves (v := ((ofSettings { baseSize := 8 }).run
      [(.empty, .act (.updateModel .halves none))]).view) rfl rfl rfl
    have hview : v = after := view_act_selectRect hselect .empty
    exact hview ▸ hp
  obtain ⟨-, -, hpairs, hagree⟩ := selected_exists_of_run { baseSize := 8 }
    [(.empty, .act (.updateModel .halves none)),
      (.empty, .act (.selectRect (.ofCorners ⟨0, 0⟩ ⟨7, 7⟩)))]
  exact ⟨hp, hpairs p hp, hagree.resolve_left (List.ne_nil_of_mem hp)⟩

end LinkedView
end ClonePlot
