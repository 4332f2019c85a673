/-! # Signed integers as text

Decimal digits with an optional sign, for integers of 64 bits. The first thing wrong
decides: a character that is no digit, or the digit with which the number leaves the range.
-/
namespace ClonePlot.Text

inductive IntegerError
  | empty
  | invalidDigit
  | tooLarge
  | tooSmall
  deriving DecidableEq, Repr

def IntegerError.message : IntegerError → String
  | empty => "cannot parse integer from empty string"
  | invalidDigit => "invalid digit found in string"
  | tooLarge => "number too large to fit in target type"
  | tooSmall => "number too small to fit in target type"

/-- The magnitude `n` continued by further digits, up to a limit. -/
def magnitude (limit : Nat) (beyond : IntegerError) (n : Nat) : List Char → Except IntegerError Nat
  | [] => .ok n
  | c :: rest =>
    if c.isDigit then
      let n := n * 10 + (c.toNat - '0'.toNat)
      if limit < n then .error beyond else magnitude limit beyond n rest
    else .error .invalidDigit

def integer64 : List Char → Except IntegerError Int
  | [] => .error .empty
  | ['+'] | ['-'] => .error .invalidDigit
  | '-' :: rest => (magnitude (UInt64.size / 2) .tooSmall 0 rest).map fun n => -(n : Int)
  | '+' :: rest => (magnitude (UInt64.size / 2 - 1) .tooLarge 0 rest).map Int.ofNat
  | s => (magnitude (UInt64.size / 2 - 1) .tooLarge 0 s).map Int.ofNat

end ClonePlot.Text
