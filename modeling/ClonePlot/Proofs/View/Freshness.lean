import ClonePlot.Proofs.Rebuild
import ClonePlot.Proofs.Scene.Effect
import ClonePlot.View.Linked

/-! # Nothing kept goes stale

A view keeps positions and a picture from one action to the next, and an action brings only
part of them up to date. What may still be pending between two actions is harmless: positions
are always current, and a picture that is not marked as stale is the one that would be drawn
from scratch.
-/
namespace ClonePlot

namespace Trigger

theorem eq_model_of_rank_le {a b : Trigger} (hab : a.rank ≤ b.rank) (hb : b = .model) :
    a = .model := by
  subst hb
  cases a <;> first | rfl | exact absurd hab (by decide)

theorem movesPixels_of_rank_le {a b : Trigger} (hab : a.rank ≤ b.rank) (hb : b.movesPixels) :
    a.movesPixels := by
  unfold movesPixels at *
  exact decide_eq_true (Nat.le_trans hab (of_decide_eq_true hb))

end Trigger

namespace View

/-- What a view shows, with all positions computed anew. -/
def freshScene (v : View) : Scene where
  model := v.model
  mapper := v.model.mapper v.drawSize
  directories := v.model.directories
  boxes := v.model.directories.boxes (v.model.mapper v.drawSize)
  frontier := v.model.frontier
  options := v.settings.options
  palette := v.settings.palette
  coloring := v.coloring
  selected := v.selection.files
  drag := v.drag.map Drag.rect

/-- What is kept about the model is up to date, positions at the current size. -/
structure Placed (v : View) : Prop where
  known : v.known = v.model.classes
  mapper : v.mapper = v.model.mapper v.drawSize
  directories : v.directories = v.model.directories
  boxes : v.boxes = v.model.directories.boxes (v.model.mapper v.drawSize)
  frontier : v.frontier = v.model.frontier

/-- What a rebuild for trigger `t` does not compute is up to date already. -/
structure Ready (t : Trigger) (v : View) : Prop where
  known : v.known = v.model.classes
  directories : t ≠ .model → v.directories = v.model.directories
  frontier : t ≠ .model → v.frontier = v.model.frontier
  mapper : t.movesPixels = false → v.mapper = v.model.mapper v.drawSize
  boxes : t.movesPixels = false → v.boxes = v.model.directories.boxes (v.model.mapper v.drawSize)

/-- The invariant of all actions. -/
structure Current (v : View) : Prop where
  placed : v.Placed
  canvas : v.isStale = false → v.canvas = v.freshScene.frame none
  width : v.canvas.width = v.drawSize
  height : v.canvas.height = v.drawSize
  idle : v.state = .idle

variable {v : View} {t : Trigger}

theorem ready_model (h : v.known = v.model.classes) : Ready .model v where
  known := h
  directories h := absurd rfl h
  frontier h := absurd rfl h
  mapper h := absurd h (by decide)
  boxes h := absurd h (by decide)

theorem Placed.ready (h : v.Placed) (t : Trigger) : Ready t v where
  known := h.known
  directories _ := h.directories
  frontier _ := h.frontier
  mapper _ := h.mapper
  boxes _ := h.boxes

/-- A stronger trigger computes at least as much. -/
theorem Ready.anti {u : Trigger} (h : Ready t v) (hut : u.rank ≤ t.rank) : Ready u v := by
  have hmodel : u ≠ .model → t ≠ .model := fun hu ht => hu (Trigger.eq_model_of_rank_le hut ht)
  have hmoves : u.movesPixels = false → t.movesPixels = false := by
    intro hu
    cases ht : t.movesPixels with
    | false => rfl
    | true => exact absurd (Trigger.movesPixels_of_rank_le hut ht) (by simp [hu])
  exact ⟨h.known, fun hu => h.directories (hmodel hu), fun hu => h.frontier (hmodel hu),
    fun hu => h.mapper (hmoves hu), fun hu => h.boxes (hmoves hu)⟩

theorem placed_place (h : Ready t v) : (v.place t).Placed := by
  unfold place
  cases hmoves : t.movesPixels with
  | false =>
    have hmodel : t ≠ .model := by
      rintro rfl
      exact absurd hmoves (by decide)
    exact ⟨h.known, h.mapper hmoves, h.directories hmodel, h.boxes hmoves, h.frontier hmodel⟩
  | true =>
    by_cases hmodel : t = .model
    · simp only [if_pos hmodel]
      exact ⟨h.known, rfl, rfl, rfl, rfl⟩
    · simp only [if_neg hmodel, h.directories hmodel, h.frontier hmodel]
      exact ⟨h.known, rfl, rfl, rfl, rfl⟩

theorem Placed.scene_eq (h : v.Placed) : v.scene = v.freshScene := by
  unfold scene freshScene
  rw [h.mapper, h.directories, h.boxes, h.frontier]

theorem current_redraw (h : v.Placed) (t : Trigger) : (v.redraw t).Current := by
  have hcanvas : (v.redraw t).canvas = v.freshScene.frame none := by
    rw [← h.scene_eq]
    exact v.scene.frame_eq_frame_none _
  refine ⟨⟨h.known, h.mapper, h.directories, h.boxes, h.frontier⟩, fun _ => hcanvas, ?_, ?_, rfl⟩
  · rw [hcanvas]
    exact v.freshScene.width_frame none
  · rw [hcanvas]
    exact v.freshScene.height_frame none

theorem Ready.withScheduler (h : Ready t v) (scheduler : Scheduler) (state : ViewState) :
    Ready t { v with scheduler, state } :=
  ⟨h.known, h.directories, h.frontier, h.mapper, h.boxes⟩

theorem isStale_mark (v : View) (t : Trigger) : (v.mark t).isStale = true := rfl

theorem flush_of_none (h : v.scheduler.decision? = none) : v.flush = v := by
  unfold flush Scheduler.consume
  rw [h]

theorem flush_of_decision {d : Decision} (h : v.scheduler.decision? = some d) :
    v.flush = (View.place { v with scheduler := v.scheduler.consume.2, state := .rebuilding }
      d.trigger).redraw d.trigger := by
  unfold flush Scheduler.consume
  rw [h]

@[simp] theorem scheduler_place (v : View) (t : Trigger) :
    (v.place t).scheduler = v.scheduler := by
  unfold place
  split <;> rfl

theorem scheduler_flush (v : View) : v.flush.scheduler = v.scheduler.consume.2 := by
  cases hd : v.scheduler.decision? with
  | none =>
    rw [flush_of_none hd]
    unfold Scheduler.consume
    rw [hd]
  | some d =>
    rw [flush_of_decision hd]
    exact scheduler_place _ _

theorem isStale_flush (v : View) : v.flush.isStale = false := by
  unfold isStale Scheduler.isPending
  rw [scheduler_flush, Scheduler.pending_consume]
  rfl

theorem current_flush {d : Decision} (hd : v.scheduler.decision? = some d)
    (h : Ready d.trigger v) : v.flush.Current := by
  rw [flush_of_decision hd]
  exact current_redraw (placed_place (h.withScheduler _ _)) d.trigger

/-- A rebuild leaves everything current, whatever else was pending. -/
theorem current_rebuild (h : Ready t v) : (v.rebuild t).Current := by
  have hrank : (v.scheduler.pending.foldl Trigger.stronger t).rank ≤ t.rank :=
    Trigger.rank_foldl_stronger_le List.mem_cons_self
  have hdecision : (v.mark t).scheduler.decision? =
      some ⟨v.scheduler.pending.foldl Trigger.stronger t, v.scheduler.pending.length + 1⟩ := rfl
  exact current_flush hdecision ((h.anti hrank).withScheduler _ _)

theorem Current.flush (h : v.Current) : v.flush.Current := by
  cases hd : v.scheduler.decision? with
  | none =>
    rw [flush_of_none hd]
    exact h
  | some d => exact current_flush hd (h.placed.ready d.trigger)

/-- Gestures change the selection and the drag only, and mark the picture. -/
theorem Current.gesture (h : v.Current) (selection : Selection) (drag : Option Drag) (t : Trigger) :
    (View.mark { v with selection, drag } t).Current :=
  ⟨⟨h.placed.known, h.placed.mapper, h.placed.directories, h.placed.boxes, h.placed.frontier⟩,
    fun hstale => absurd hstale (by simp [isStale_mark]), h.width, h.height, h.idle⟩

theorem Current.receive (h : v.Current) (change : Change) : (v.receive change).Current :=
  h.gesture _ v.drag .selection

/-- A rebuild after a change that the kept positions do not depend on but for the size. -/
theorem Current.rebuild (h : v.Current) (settings : Settings) (metric : Option String)
    (ht : t.movesPixels ∨ settings.cappedSize = v.settings.cappedSize) :
    (View.rebuild { v with settings, metric } t).Current := by
  refine current_rebuild ⟨h.placed.known, fun _ => h.placed.directories,
    fun _ => h.placed.frontier, fun hmoves => ?_, fun hmoves => ?_⟩
  · rcases ht with ht | ht
    · exact absurd ht (by simp [hmoves])
    · exact h.placed.mapper.trans (congrArg v.model.mapper ht.symm)
  · rcases ht with ht | ht
    · exact absurd ht (by simp [hmoves])
    · exact h.placed.boxes.trans
        (congrArg (fun size => v.model.directories.boxes (v.model.mapper size)) ht.symm)

theorem selectRect_eq_ok_iff {r : PixelRect} {d : DragSelection} {after : View} :
    v.selectRect r = .ok (d, after) ↔ v.mapper.dragSelection r = .ok d ∧
      ∃ clones, v.mapper.clonesIn v.model r d = .ok clones ∧ after = View.mark { v with
        selection := (v.selection.setFiles d.files.toList).setPairs clones } .selection := by
  simp only [selectRect, bind_eq_ok_iff]
  constructor
  · rintro ⟨d, hd, clones, hclones, hafter⟩
    cases hafter
    exact ⟨hd, clones, hclones, rfl⟩
  · rintro ⟨hd, clones, hclones, rfl⟩
    exact ⟨d, hd, clones, hclones, rfl⟩

theorem Current.selectRect (h : v.Current) {r : PixelRect} {drag : Option Drag} {d : DragSelection}
    {after : View} (hselect : View.selectRect { v with drag } r = .ok (d, after)) :
    after.Current := by
  obtain ⟨-, clones, -, rfl⟩ := selectRect_eq_ok_iff.mp hselect
  exact h.gesture _ drag .selection

theorem current_ofSettings (settings : Settings) : (ofSettings settings).Current := by
  have hknown : ∅ = Model.empty.classes := by
    refine IndexSet.ext_mem fun i => ?_
    simp [Model.classes, Model.empty, Model.fileCount]
  exact current_rebuild (ready_model hknown)

theorem current_updateModel (v : View) (model : Model) (table : Option MetricTable) :
    (v.updateModel model table).Current :=
  current_rebuild (ready_model rfl)

/-- A change of the window or of the looks rebuilds, unless nothing has changed. -/
theorem resize_eq (v : View) (width height : Nat) : v.resize width height = v ∨
    ∃ settings, v.resize width height = View.rebuild { v with settings } .resize := by
  unfold View.resize
  dsimp only
  split
  · exact .inl rfl
  · exact .inr ⟨_, rfl⟩

theorem setOptions_eq (v : View) (options : DrawOptions) : v.setOptions options = v ∨
    v.setOptions options =
      View.rebuild { v with settings := { v.settings with options } } .overlay := by
  unfold View.setOptions
  split
  · exact .inl rfl
  · exact .inr rfl

theorem eq_of_resizeDrawingArea {multiplier : Nat} {after : View}
    (h : v.resizeDrawingArea multiplier = .ok after) :
    ∃ settings, after = View.rebuild { v with settings } .command := by
  unfold View.resizeDrawingArea at h
  cases hsize : ClonePlot.drawSize v.settings.baseSize multiplier with
  | error e =>
    rw [hsize] at h
    cases h
  | ok size =>
    rw [hsize] at h
    cases h
    exact ⟨_, rfl⟩

theorem dragTo_eq (v : View) (p : Point) : v.dragTo p = v ∨
    ∃ drag, v.dragTo p = View.mark { v with drag } .drag := by
  unfold View.dragTo
  cases v.drag with
  | none => exact .inl rfl
  | some d => exact .inr ⟨_, rfl⟩

theorem Current.resize (h : v.Current) (width height : Nat) : (v.resize width height).Current := by
  obtain heq | ⟨settings, heq⟩ := resize_eq v width height
  · rw [heq]
    exact h
  · rw [heq]
    exact h.rebuild settings v.metric (.inl rfl)

theorem Current.resizeDrawingArea (h : v.Current) {multiplier : Nat} {after : View}
    (hresize : v.resizeDrawingArea multiplier = .ok after) : after.Current := by
  obtain ⟨settings, rfl⟩ := eq_of_resizeDrawingArea hresize
  exact h.rebuild settings v.metric (.inl rfl)

theorem Current.setOptions (h : v.Current) (options : DrawOptions) :
    (v.setOptions options).Current := by
  obtain heq | heq := setOptions_eq v options
  · rw [heq]
    exact h
  · rw [heq]
    exact h.rebuild _ v.metric (.inr rfl)

theorem Current.dragTo (h : v.Current) (p : Point) : (v.dragTo p).Current := by
  obtain heq | ⟨drag, heq⟩ := dragTo_eq v p
  · rw [heq]
    exact h
  · rw [heq]
    exact h.gesture v.selection drag .drag

end View

/-- A rectangle changes a view only if its files and clones can be told. -/
theorem RectOutcome.preserves {P : View → Prop} {before view : View} {r : PixelRect}
    (h : P before) (hselect : ∀ d after, view.selectRect r = .ok (d, after) → P after) :
    P (RectOutcome.of before view r).view := by
  unfold RectOutcome.of
  split
  · exact h
  · rename_i d after hok
    split <;> exact hselect d after hok

namespace LinkedView
open View

variable {v : LinkedView}

theorem view_tell (v : LinkedView) (bus : Bus) (view : View) (changes : List Change)
    (reply : Reply) : (v.tell bus view changes reply).linked.view = view := by
  unfold tell
  split <;> rfl

theorem view_act_selectRect {r : PixelRect} {d : DragSelection} {after : View}
    (h : v.view.selectRect r = .ok (d, after)) (bus : Bus) :
    (v.act bus (.selectRect r)).linked.view = after := by
  simp only [act, LinkedView.selectRect, view_tell, RectOutcome.of, h]
  split <;> rfl

section
variable {P : View → Prop} (hreceive : ∀ (w : View) (change : Change), P w → P (w.receive change))
include hreceive

theorem apply_preserves (h : P v.view) (event : Event) : P (v.apply event).view := by
  unfold apply
  split
  · exact h
  · exact hreceive _ _ h

/-- A poll takes over one event after the other. -/
theorem poll_preserves (h : P v.view) (bus : Bus) : P (v.poll bus).linked.view := by
  have hfold : ∀ events : List Event, P (events.foldl apply v).view := by
    intro events
    induction events generalizing v with
    | nil => exact h
    | cons event rest ih => exact ih (apply_preserves hreceive h event)
  unfold poll
  cases v.subscription with
  | none => exact h
  | some serial => exact hfold _

end

theorem current_act (h : v.view.Current) (bus : Bus) (a : Action) :
    (v.act bus a).linked.view.Current := by
  cases a with
  | updateModel model table => exact current_updateModel v.view model table
  | resize width height => exact h.resize width height
  | resizeDrawingArea multiplier =>
    simp only [act, LinkedView.resizeDrawingArea]
    split
    · rename_i hresize
      exact h.resizeDrawingArea hresize
    · exact h
  | setMetric metric => exact h.rebuild v.view.settings metric (.inl rfl)
  | setOptions options => exact h.setOptions options
  | toggle overlay => exact h.setOptions _
  | setPalette palette => exact h.rebuild { v.view.settings with palette } v.view.metric (.inr rfl)
  | click p =>
    simp only [act, view_tell]
    exact h.gesture _ v.view.drag .selection
  | beginDrag p => exact h.gesture v.view.selection _ .drag
  | dragTo p => exact h.dragTo p
  | endDrag p =>
    simp only [act, LinkedView.selectRect, view_tell]
    exact RectOutcome.preserves h fun _ _ hselect => h.selectRect hselect
  | selectRect r =>
    simp only [act, LinkedView.selectRect, view_tell]
    exact RectOutcome.preserves h fun _ _ hselect => h.selectRect hselect
  | clearSelection =>
    simp only [act, view_tell]
    exact h.gesture _ v.view.drag .selection
  | attach other => exact h
  | poll => exact poll_preserves (fun _ change hw => hw.receive change) h bus
  | receive event => exact apply_preserves (fun _ change hw => hw.receive change) h event
  | frame => exact h.flush

inductive Call
  | act (a : Action)
  | handle (s : Signal)

def Call.action? : Call → Option Action
  | act a => some a
  | handle s => s.action?

def call (v : LinkedView) (bus : Bus) (c : Call) : LinkedView :=
  c.action?.elim v fun a => (v.act bus a).linked

/-- A run of calls. The bus is shared, so each call finds it as others have left it. -/
def run (v : LinkedView) (calls : List (Bus × Call)) : LinkedView :=
  calls.foldl (fun v c => v.call c.1 c.2) v

theorem run_preserves {P : LinkedView → Prop}
    (hact : ∀ (v : LinkedView) (bus : Bus) (a : Action), P v → P (v.act bus a).linked) (h : P v)
    (calls : List (Bus × Call)) : P (v.run calls) := by
  induction calls generalizing v with
  | nil => exact h
  | cons c rest ih =>
    have hcall : P (v.call c.1 c.2) := by
      unfold call
      cases c.2.action? with
      | none => exact h
      | some a => exact hact v c.1 a h
    exact ih hcall

theorem current_run (h : v.view.Current) (calls : List (Bus × Call)) :
    (v.run calls).view.Current :=
  run_preserves (P := fun v => v.view.Current) (fun _ bus a hv => current_act hv bus a) h calls

/-- No rebuild goes on from one action to the next. -/
theorem idle_of_run (settings : Settings) (calls : List (Bus × Call)) :
    ((ofSettings settings).run calls).view.state = .idle :=
  (current_run (current_ofSettings settings) calls).idle

/-- After any run all positions are current, a picture that is not stale is the one drawn from
scratch, so is each picture that is asked for, and none is too large. -/
theorem nothing_stale_of_run (settings : Settings) (calls : List (Bus × Call)) (bus : Bus) :
    let linked := (ofSettings settings).run calls
    let v := linked.view
    let shown := (linked.act bus .frame).linked.view
    (v.mapper = v.model.mapper v.drawSize ∧ v.directories = v.model.directories ∧
      v.boxes = v.model.directories.boxes (v.model.mapper v.drawSize) ∧
      v.frontier = v.model.frontier) ∧
    (v.isStale = true ∨ v.canvas = v.freshScene.frame none) ∧
    (shown.isStale = false ∧ shown.canvas = shown.freshScene.frame none) ∧
    v.canvas.width ≤ maxDrawSize ∧ v.canvas.height ≤ maxDrawSize := by
  intro linked v shown
  have hv : v.Current := current_run (current_ofSettings settings) calls
  have hshown : shown.Current := hv.flush
  have hflushed : shown.isStale = false := isStale_flush v
  refine ⟨⟨hv.placed.mapper, hv.placed.directories, hv.placed.boxes, hv.placed.frontier⟩, ?_,
    ⟨hflushed, hshown.canvas hflushed⟩, ?_, ?_⟩
  · cases hstale : v.isStale with
    | false => exact .inr (hv.canvas hstale)
    | true => exact .inl rfl
  · rw [hv.width]
    exact v.settings.cappedSize_le
  · rw [hv.height]
    exact v.settings.cappedSize_le

end LinkedView
end ClonePlot
