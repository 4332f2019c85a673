/-! # Number texts

The parts of a number as a document spells it, and what they stand for: a 64-bit natural
number if written with digits alone, and always a float. A float is the number's first
digits, as many as fit into 64 bits, times or divided by one power of ten.
-/
namespace ClonePlot

structure NumberText where
  negative : Bool := false
  whole : List Nat
  fraction : Option (List Nat) := none
  /-- Whether the exponent is negative, and its digits. -/
  exponent : Option (Bool × List Nat) := none
  deriving DecidableEq, Repr

namespace NumberText

def digitsValue (digits : List Nat) : Nat := digits.foldl (fun n d => n * 10 + d) 0

def toNat? (n : NumberText) : Option Nat :=
  if n.negative || n.fraction.isSome || n.exponent.isSome then none
  else if digitsValue n.whole < UInt64.size then some (digitsValue n.whole)
  else none

/-- Appends digits to a 64-bit number until the next one does not fit; also how many
digits are left. -/
def absorb (n : Nat) : List Nat → Nat × Nat
  | [] => (n, 0)
  | d :: rest => if n * 10 + d < UInt64.size then absorb (n * 10 + d) rest else (n, rest.length + 1)

/-- The digits that count and the power of ten by which they are scaled, exponent apart. -/
def significand (n : NumberText) : Nat × Int :=
  let (whole, dropped) := absorb 0 n.whole
  match n.fraction with
  | none => (whole, dropped)
  | some digits =>
    let (all, rest) := absorb whole digits
    (all, (dropped : Int) - (digits.length - rest : Nat))

def powerOfTen (e : Nat) : Float := Float.ofScientific 1 false e

def greatestPower : Nat := 308

def shrink (f : Float) (e : Nat) : Float :=
  if e ≤ greatestPower then f / powerOfTen e
  else if f == 0 then f
  else shrink (f / powerOfTen greatestPower) (e - greatestPower)
termination_by e
decreasing_by simp only [greatestPower] at *; omega

def scale? (f : Float) (e : Int) : Option Float :=
  if e < 0 then some (shrink f e.natAbs)
  else if e.toNat ≤ greatestPower then
    let g := f * powerOfTen e.toNat
    if g.isInf then none else some g
  else if f == 0 then some f
  else none

/-- The greatest exponent that is read; beyond it a number is zero or too large. -/
def maxExponent : Nat := UInt32.size / 2 - 1

def magnitude? (n : NumberText) : Option Float :=
  let (digits, e) := n.significand
  let f := (UInt64.ofNat digits).toFloat
  match n.exponent with
  | none => scale? f e
  | some (negative, exponent) =>
    let x := digitsValue exponent
    if maxExponent < x then if digits ≠ 0 ∧ !negative then none else some 0
    else scale? f (if negative then e - x else e + x)

def toFloat? (n : NumberText) : Option Float :=
  n.magnitude?.map fun f => if n.negative then -f else f

end NumberText
end ClonePlot
