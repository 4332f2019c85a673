import ClonePlot.Text.Hex
import ClonePlot.Toml.Value

/-! # Numbers in a configuration

Integers in four radices and decimals, with single underscores between digits. Only
decimal numbers have a sign, and no zero stands in front of their other digits. Some texts
without a value pass for integers as long as nobody asks for it.
-/
namespace ClonePlot.Toml

def digit? (radix : Nat) (c : Char) : Option Nat := do
  let d ← Text.hexDigit? c
  if d < radix then some d else none

/-- Digits with single underscores between them, in a given radix. -/
def digits? (radix : Nat) : List Char → Option (List Nat)
  | [] => none
  | [c] => (digit? radix c).map fun d => [d]
  | c :: '_' :: rest => do return (← digit? radix c) :: (← digits? radix rest)
  | c :: rest => do return (← digit? radix c) :: (← digits? radix rest)

def number (radix : Nat) (digits : List Nat) : Nat := digits.foldl (fun n d => n * radix + d) 0

def sign : List Char → Bool × List Char
  | '-' :: rest => (true, rest)
  | '+' :: rest => (false, rest)
  | s => (false, s)

/-- Decimal digits, the first not zero unless it is the only one. -/
def wholeDigits? (s : List Char) : Option (List Nat) := do
  let ds ← digits? 10 s
  if ds.head? = some 0 ∧ ds.length ≠ 1 then none else some ds

def integer? : List Char → Option Int
  | '0' :: 'x' :: s => (digits? 16 s).map fun ds => (number 16 ds : Int)
  | '0' :: 'o' :: s => (digits? 8 s).map fun ds => (number 8 ds : Int)
  | '0' :: 'b' :: s => (digits? 2 s).map fun ds => (number 2 ds : Int)
  | s => do
    let (negative, s) := sign s
    let n : Int := number 10 (← wholeDigits? s)
    return if negative then -n else n

def isHexDigit (c : Char) : Bool := (Text.hexDigit? c).isSome

/-- After the character `last`, every underscore stands between hexadecimal digits. -/
def joinsDigits (last : Char) : List Char → Bool
  | [] => true
  | c :: rest =>
    (c != '_' || isHexDigit last && rest.head?.any isHexDigit) && joinsDigits c rest

/-- The text is a radix without digits, or decimal digits that an underscore joins to
anything but a fraction or an exponent. -/
def passesForInteger (s : List Char) : Bool :=
  match s with
  | ['0', 'x'] | ['0', 'o'] | ['0', 'b'] => true
  | _ =>
    let s := (sign s).2
    s.head?.any (fun c => c.isDigit && c != '0') && (s.dropWhile Char.isDigit).head? == some '_' &&
      joinsDigits '_' s && !s.any (fun c => c = '.' || c = 'e' || c = 'E')

/-- The float nearest to `m` times a power of ten. Far from the range of floats the place
of the first digit decides. -/
def decimalFloat (m : Nat) (e : Int) : Float :=
  let place := (Nat.toDigits 10 m).length + e
  if m = 0 ∨ place < -400 then 0
  else if 400 < place then 1 / 0
  else Float.ofScientific m (e < 0) e.natAbs

def cut? (isMark : Char → Bool) (s : List Char) : Option (List Char × List Char) :=
  match s.dropWhile (!isMark ·) with
  | [] => none
  | _ :: rest => some (s.takeWhile (!isMark ·), rest)

def exponent? (s : List Char) : Option Int := do
  let (negative, s) := sign s
  let n : Int := number 10 (← digits? 10 s)
  return if negative then -n else n

def decimal? (s : List Char) : Option Float := do
  let (negative, s) := sign s
  let parts := cut? (fun c => c = 'e' || c = 'E') s
  let e ← parts.elim (some 0) fun p => exponent? p.2
  let mantissa := parts.elim s Prod.fst
  let (whole, fraction) ← match cut? (· = '.') mantissa with
    | some (whole, fraction) => do pure (← wholeDigits? whole, ← digits? 10 fraction)
    | none => if parts.isNone then none else do pure (← wholeDigits? mantissa, [])
  let f := decimalFloat (number 10 (whole ++ fraction)) (e - fraction.length)
  return if negative then -f else f

def special? (s : List Char) : Option Float :=
  let (negative, s) := sign s
  match s with
  | ['i', 'n', 'f'] => some (if negative then -1 / 0 else 1 / 0)
  | ['n', 'a', 'n'] => some (0 / 0)
  | _ => none

end ClonePlot.Toml
