import ClonePlot.Proofs.View.Freshness

/-! # Accounts of rebuilds

What a view counts is what it has done. Each action redraws the picture once or not at all, and
which of the two can be told from the view before it; what is only marked is redrawn once,
however many marks there are, with the next action that redraws. A canvas is allocated for a
picture exactly when its edge is not that of the picture before.
-/
namespace ClonePlot

namespace RebuildCounters

def byTrigger (c : RebuildCounters) : Nat :=
  c.model + c.resize + c.command + c.metric + c.overlay + c.selection

theorem byTrigger_record (c : RebuildCounters) (t : Trigger) (stats : FrameStats)
    (nanoseconds : Nat) : (c.record t stats nanoseconds).byTrigger = c.byTrigger + 1 := by
  unfold record count byTrigger
  cases t <;> (dsimp only; omega)

end RebuildCounters

namespace View

structure SameAccounts (v w : View) : Prop where
  canvas : w.canvas = v.canvas
  scheduler : w.scheduler = v.scheduler
  counters : w.counters = v.counters

def Square (v : View) : Prop := v.canvas.height = v.canvas.width

/-- How the accounts change when the picture is redrawn once or not at all. -/
structure Step (redrawn : Bool) (before after : View) : Prop where
  rebuilds : after.counters.rebuilds = before.counters.rebuilds + redrawn.toNat
  byTrigger : after.counters.byTrigger = before.counters.byTrigger + redrawn.toNat
  decisions : after.scheduler.decisions = before.scheduler.decisions + redrawn.toNat
  scheduler : before.scheduler.Reaches after.scheduler
  allocations : after.counters.allocations =
    before.counters.allocations + if after.canvas.width = before.canvas.width then 0 else 1
  kept : redrawn = false → after.canvas = before.canvas
  square : after.Square

structure Accounted (v : View) : Prop where
  byTrigger : v.counters.rebuilds = v.counters.byTrigger
  decisions : v.counters.rebuilds = v.scheduler.decisions
  scheduler : Scheduler.Reaches {} v.scheduler
  square : v.Square

variable {redrawn : Bool} {u v w : View}

theorem Accounted.step (h : v.Accounted) (hstep : Step redrawn v w) : w.Accounted where
  byTrigger := by rw [hstep.rebuilds, hstep.byTrigger, h.byTrigger]
  decisions := by rw [hstep.rebuilds, hstep.decisions, h.decisions]
  scheduler := h.scheduler.trans hstep.scheduler
  square := hstep.square

theorem Step.refl (hv : v.Square) : Step false v v where
  rebuilds := rfl
  byTrigger := rfl
  decisions := rfl
  scheduler := .refl _
  allocations := (if_pos rfl).symm ▸ rfl
  kept _ := rfl
  square := hv

theorem Step.trans (h : Step false u v) (h' : Step redrawn v w) : Step redrawn u w where
  rebuilds := by rw [h'.rebuilds, h.rebuilds, Bool.toNat_false, Nat.add_zero]
  byTrigger := by rw [h'.byTrigger, h.byTrigger, Bool.toNat_false, Nat.add_zero]
  decisions := by rw [h'.decisions, h.decisions, Bool.toNat_false, Nat.add_zero]
  scheduler := h.scheduler.trans h'.scheduler
  allocations := by rw [h'.allocations, h.allocations, h.kept rfl, if_pos rfl, Nat.add_zero]
  kept hredrawn := (h'.kept hredrawn).trans (h.kept rfl)
  square := h'.square

theorem SameAccounts.step (h : SameAccounts v w) (hv : v.Square) : Step false v w where
  rebuilds := by rw [h.counters, Bool.toNat_false, Nat.add_zero]
  byTrigger := by rw [h.counters, Bool.toNat_false, Nat.add_zero]
  decisions := by rw [h.scheduler, Bool.toNat_false, Nat.add_zero]
  scheduler := h.scheduler ▸ .refl _
  allocations := by rw [h.counters, h.canvas, if_pos rfl, Nat.add_zero]
  kept _ := h.canvas
  square := by
    unfold Square
    rw [h.canvas]
    exact hv

theorem sameAccounts_place (v : View) (t : Trigger) : SameAccounts v (v.place t) := by
  unfold place
  split <;> exact ⟨rfl, rfl, rfl⟩

theorem width_redraw (v : View) (t : Trigger) : (v.redraw t).canvas.width = v.mapper.drawSize :=
  v.scene.width_frame _

theorem square_redraw (v : View) (t : Trigger) : (v.redraw t).Square :=
  (v.scene.height_frame _).trans (v.width_redraw t).symm

/-- A square canvas is painted over if and only if the next picture has the same edge. -/
theorem allocations_redraw (hv : v.Square) (t : Trigger) : (v.redraw t).counters.allocations =
    v.counters.allocations + if (v.redraw t).canvas.width = v.canvas.width then 0 else 1 := by
  have hreuse : v.canReuse = true ↔ (v.redraw t).canvas.width = v.canvas.width := by
    unfold canReuse
    rw [hv, Bool.and_self, width_redraw, beq_iff_eq, eq_comm]
  change v.counters.allocations + (if v.canReuse then 0 else 1) = _
  simp only [hreuse]

theorem step_redraw (hv : v.Square) (hcanvas : w.canvas = v.canvas)
    (hcounters : w.counters = v.counters)
    (hdecisions : w.scheduler.decisions = v.scheduler.decisions + 1)
    (hscheduler : v.scheduler.Reaches w.scheduler) (t : Trigger) : Step true v (w.redraw t) where
  rebuilds := congrArg (fun c : RebuildCounters => c.rebuilds + 1) hcounters
  byTrigger := by
    rw [← hcounters]
    exact w.counters.byTrigger_record t w.scene.stats 0
  decisions := hdecisions
  scheduler := hscheduler
  allocations := by
    rw [allocations_redraw _ t, hcounters, hcanvas]
    unfold Square
    rw [hcanvas]
    exact hv
  kept h := Bool.noConfusion h
  square := square_redraw w t

/-- Asking for the picture redraws it once if it is stale. -/
theorem step_flush (hv : v.Square) : Step v.isStale v v.flush := by
  unfold isStale
  rw [Scheduler.isPending_eq]
  cases hd : v.scheduler.decision? with
  | none =>
    rw [flush_of_none hd]
    exact .refl hv
  | some d =>
    have hplace := sameAccounts_place
      { v with scheduler := v.scheduler.consume.2, state := .rebuilding } d.trigger
    rw [flush_of_decision hd]
    refine step_redraw hv hplace.canvas hplace.counters ?_ ?_ d.trigger
    · rw [hplace.scheduler]
      exact Scheduler.decisions_consume hd
    · rw [hplace.scheduler]
      exact v.scheduler.reaches_consume

end View

namespace LinkedView
open View

variable {v : LinkedView}

end LinkedView
end ClonePlot
