import ClonePlot.Scene

/-! # Rebuilds

Reasons to draw the picture anew are marked as they come up and collapse into one decision
when the picture is next needed: the strongest reason, with the number of marks folded
into it. Counters record the rebuilds done and what the last one showed.
-/
namespace ClonePlot

/-- Why the picture may look different, strongest first. -/
inductive Trigger
  | model
  | resize
  | command
  | metric
  | overlay
  | selection
  | drag
  deriving DecidableEq, Repr

namespace Trigger

def rank : Trigger → Nat
  | model => 0
  | resize => 1
  | command => 2
  | metric => 3
  | overlay => 4
  | selection => 5
  | drag => 6

def stronger (a b : Trigger) : Trigger := if b.rank < a.rank then b else a

/-- The rebuild computes pixel positions anew. -/
def movesPixels (t : Trigger) : Bool := t.rank ≤ metric.rank

end Trigger

structure Decision where
  trigger : Trigger
  /-- How many marks it answers. -/
  coalesced : Nat
  deriving DecidableEq, Repr

structure Scheduler where
  /-- Marks since the last decision, the latest first. -/
  pending : List Trigger := []
  marks : Nat := 0
  decisions : Nat := 0
  /-- Marks answered by a decision beyond its first one. -/
  coalesced : Nat := 0
  deriving DecidableEq, Repr, Inhabited

namespace Scheduler

def mark (s : Scheduler) (t : Trigger) : Scheduler :=
  { s with pending := t :: s.pending, marks := s.marks + 1 }

def isPending (s : Scheduler) : Bool := !s.pending.isEmpty

def decision? (s : Scheduler) : Option Decision :=
  match s.pending with
  | [] => none
  | t :: rest => some ⟨rest.foldl Trigger.stronger t, rest.length + 1⟩

def consume (s : Scheduler) : Option Decision × Scheduler :=
  match s.decision? with
  | none => (none, s)
  | some d =>
    (some d, { s with
      pending := [],
      decisions := s.decisions + 1,
      coalesced := s.coalesced + (d.coalesced - 1) })

end Scheduler

structure RebuildCounters where
  rebuilds : Nat := 0
  model : Nat := 0
  resize : Nat := 0
  command : Nat := 0
  metric : Nat := 0
  overlay : Nat := 0
  selection : Nat := 0
  /-- Rebuilds that could not use the last canvas again. -/
  allocations : Nat := 0
  last : FrameStats := {}
  nanoseconds : Nat := 0
  deriving DecidableEq, Repr, Inhabited

namespace RebuildCounters

def count (c : RebuildCounters) : Trigger → RebuildCounters
  | .model => { c with model := c.model + 1 }
  | .resize => { c with resize := c.resize + 1 }
  | .command => { c with command := c.command + 1 }
  | .metric => { c with metric := c.metric + 1 }
  | .overlay => { c with overlay := c.overlay + 1 }
  | .selection | .drag => { c with selection := c.selection + 1 }

def record (c : RebuildCounters) (t : Trigger) (stats : FrameStats) (nanoseconds : Nat) :
    RebuildCounters :=
  { c.count t with rebuilds := c.rebuilds + 1, last := stats, nanoseconds }

end RebuildCounters
end ClonePlot
