import ClonePlot.Canvas

/-! # Straight lines

The pixels of a line are walked one by one. An error term keeps the walk beside the ideal
segment: it says how far the next step along either axis would lead away from it.
-/
namespace ClonePlot

/-- A walk in progress: where it is, and its error term. -/
structure LineStep where
  place : Point
  error : Int

namespace LineStep

def towards (a b : Int) : Int := if a < b then 1 else -1

def next (s : LineStep) (p q : Point) : LineStep :=
  let dx : Int := (q.x - p.x).natAbs
  let dy : Int := -((q.y - p.y).natAbs : Int)
  let along := dy ≤ 2 * s.error
  let across := 2 * s.error ≤ dx
  ⟨⟨if along then s.place.x + towards p.x q.x else s.place.x,
    if across then s.place.y + towards p.y q.y else s.place.y⟩,
   s.error + (if along then dy else 0) + (if across then dx else 0)⟩

/-- The points from a step on until `q`, at most `fuel` more. -/
def walk (p q : Point) : Nat → LineStep → List Point
  | 0, s => [s.place]
  | fuel + 1, s => if s.place = q then [s.place] else s.place :: walk p q fuel (s.next p q)

def first (p q : Point) : LineStep :=
  ⟨p, ((q.x - p.x).natAbs : Int) - (q.y - p.y).natAbs⟩

/-- A walk takes no more steps than the two axes together have. -/
def bound (p q : Point) : Nat := (q.x - p.x).natAbs + (q.y - p.y).natAbs

end LineStep

def linePoints (p q : Point) : List Point :=
  LineStep.walk p q (LineStep.bound p q) (LineStep.first p q)

namespace Canvas

def trace (color : Color) (p q : Point) : Nat → LineStep → Canvas → Canvas
  | 0, s, c => c.put s.place color
  | fuel + 1, s, c =>
    if s.place = q then c.put s.place color
    else trace color p q fuel (s.next p q) (c.put s.place color)

theorem trace_eq_foldl (color : Color) (p q : Point) (fuel : Nat) (s : LineStep) (c : Canvas) :
    c.trace color p q fuel s =
      (LineStep.walk p q fuel s).foldl (fun c point => c.put point color) c := by
  induction fuel generalizing s c with
  | zero => rfl
  | succ fuel ih =>
    rw [trace, LineStep.walk]
    split
    · rfl
    · rw [ih]
      rfl

def line (c : Canvas) (p q : Point) (color : Color) : Canvas :=
  c.trace color p q (LineStep.bound p q) (LineStep.first p q)

theorem line_eq_foldl (c : Canvas) (p q : Point) (color : Color) :
    c.line p q color = (linePoints p q).foldl (fun c point => c.put point color) c :=
  c.trace_eq_foldl color p q _ _

end Canvas
end ClonePlot
