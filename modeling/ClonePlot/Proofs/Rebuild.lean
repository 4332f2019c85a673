import ClonePlot.Rebuild
import Mathlib.Data.List.DropRight

/-! # Marks and decisions

A scheduler is asked to mark and to decide, in any order. What it decides
depends only on the marks made since it was last asked, and its counters account for every
mark: it was the first of a decision, was folded into one, or is still pending.
-/
namespace ClonePlot

namespace Trigger

theorem rank_stronger_le (a b : Trigger) :
    (stronger a b).rank ≤ a.rank ∧ (stronger a b).rank ≤ b.rank := by
  unfold stronger
  split <;> omega

theorem stronger_eq_or (a b : Trigger) : stronger a b = a ∨ stronger a b = b := by
  unfold stronger
  split
  · exact .inr rfl
  · exact .inl rfl

theorem rank_foldl_stronger_le {t u : Trigger} {marks : List Trigger} (hu : u ∈ t :: marks) :
    (marks.foldl stronger t).rank ≤ u.rank := by
  induction marks generalizing t u with
  | nil => exact Nat.le_of_eq (congrArg rank (List.mem_singleton.mp hu).symm)
  | cons mark rest ih =>
    have hhead : (rest.foldl stronger (stronger t mark)).rank ≤ (stronger t mark).rank :=
      ih List.mem_cons_self
    have hstronger := rank_stronger_le t mark
    rcases List.mem_cons.mp hu with rfl | hu
    · exact Nat.le_trans hhead hstronger.1
    rcases List.mem_cons.mp hu with rfl | hu
    · exact Nat.le_trans hhead hstronger.2
    · exact ih (List.mem_cons_of_mem _ hu)

/-- What marks collapse into is one of them. -/
theorem foldl_stronger_mem (t : Trigger) (marks : List Trigger) :
    marks.foldl stronger t ∈ t :: marks := by
  induction marks generalizing t with
  | nil => exact List.mem_cons_self
  | cons mark rest ih =>
    rw [List.foldl_cons]
    rcases stronger_eq_or t mark with h | h <;> rw [h]
    · exact List.cons_subset_cons t (List.subset_cons_self mark rest) (ih t)
    · exact List.mem_cons_of_mem t (ih mark)

end Trigger

namespace Scheduler

inductive Request
  | mark (t : Trigger)
  | consume

def step (s : Scheduler) : Request → Scheduler
  | .mark t => s.mark t
  | .consume => s.consume.2

def run (requests : List Request) : Scheduler := requests.foldl step {}

def Reaches (s s' : Scheduler) : Prop := ∃ requests : List Request, s' = requests.foldl step s

/-- Each mark is accounted for. -/
def Balanced (s : Scheduler) : Prop := s.marks = s.decisions + s.coalesced + s.pending.length

variable {s : Scheduler}

theorem Reaches.refl (s : Scheduler) : s.Reaches s := ⟨[], rfl⟩

theorem Reaches.trans {s' s'' : Scheduler} (h : s.Reaches s') (h' : s'.Reaches s'') :
    s.Reaches s'' := by
  obtain ⟨requests, rfl⟩ := h
  obtain ⟨requests', rfl⟩ := h'
  exact ⟨requests ++ requests', List.foldl_append.symm⟩

theorem reaches_consume (s : Scheduler) : s.Reaches s.consume.2 := ⟨[.consume], rfl⟩

theorem decision?_eq_none : s.decision? = none ↔ s.pending = [] := by
  unfold decision?
  cases s.pending <;> simp

theorem isPending_eq (s : Scheduler) : s.isPending = s.decision?.isSome := by
  unfold isPending decision?
  cases s.pending <;> rfl

/-- A decision answers all pending marks with the strongest of them. -/
theorem answers_of_decision? {d : Decision} (h : s.decision? = some d) :
    d.coalesced = s.pending.length ∧ d.trigger ∈ s.pending ∧
      ∀ t ∈ s.pending, d.trigger.rank ≤ t.rank := by
  unfold decision? at h
  cases hpending : s.pending with
  | nil =>
    rw [hpending] at h
    cases h
  | cons t rest =>
    rw [hpending] at h
    cases h
    exact ⟨rfl, Trigger.foldl_stronger_mem t rest, fun _ => Trigger.rank_foldl_stronger_le⟩

theorem decisions_consume {d : Decision} (h : s.decision? = some d) :
    s.consume.2.decisions = s.decisions + 1 := by
  unfold consume
  rw [h]

theorem pending_consume (s : Scheduler) : s.consume.2.pending = [] := by
  unfold consume
  cases h : s.decision? with
  | none => exact decision?_eq_none.mp h
  | some d => rfl

theorem Balanced.mark (h : s.Balanced) (t : Trigger) : (s.mark t).Balanced := by
  unfold Balanced Scheduler.mark at *
  simp only [List.length_cons]
  omega

theorem Balanced.consume (h : s.Balanced) : s.consume.2.Balanced := by
  unfold Scheduler.consume
  cases hd : s.decision? with
  | none => exact h
  | some d =>
    -- A decision answers at least one mark, so taking its first one off is exact.
    obtain ⟨hcoalesced, hmem, -⟩ := answers_of_decision? hd
    have hpos := List.length_pos_of_mem hmem
    unfold Balanced at *
    simp only [List.length_nil]
    omega

theorem Balanced.step (h : s.Balanced) (r : Request) : (s.step r).Balanced := by
  cases r with
  | mark t => exact h.mark t
  | consume => exact h.consume

theorem run_concat (requests : List Request) (r : Request) :
    run (requests ++ [r]) = (run requests).step r :=
  List.foldl_concat ..

variable {requests : List Request}

end Scheduler
end ClonePlot
