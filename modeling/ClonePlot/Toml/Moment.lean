/-! # Dates and times

A date, a time, or a date and a time with or without an offset. Months have their lengths,
a minute may have a sixty-first second, and seconds may be left out.
-/
namespace ClonePlot.Toml

def isLeap (year : Nat) : Bool := year % 4 == 0 && (year % 100 != 0 || year % 400 == 0)

def daysIn (year month : Nat) : Nat :=
  if month = 2 then if isLeap year then 29 else 28
  else if month ∈ [4, 6, 9, 11] then 30
  else 31

/-- A number written in exactly `n` digits, and what follows it. -/
def fixed? (n : Nat) (s : List Char) : Option (Nat × List Char) :=
  let ds := s.take n
  if ds.length = n ∧ ds.all Char.isDigit then
    some (ds.foldl (fun v c => v * 10 + (c.toNat - '0'.toNat)) 0, s.drop n)
  else none

def expect? (c : Char) : List Char → Option (List Char)
  | d :: rest => if d = c then some rest else none
  | [] => none

/-- What follows a date. -/
def date? (s : List Char) : Option (List Char) := do
  let (year, s) ← fixed? 4 s
  let (month, s) ← fixed? 2 (← expect? '-' s)
  let (day, s) ← fixed? 2 (← expect? '-' s)
  if 1 ≤ month ∧ month ≤ 12 ∧ 1 ≤ day ∧ day ≤ daysIn year month then some s else none

def afterFraction? : List Char → Option (List Char)
  | '.' :: rest => if rest.head?.any Char.isDigit then some (rest.dropWhile Char.isDigit) else none
  | s => some s

def afterSeconds? : List Char → Option (List Char)
  | ':' :: rest => do
    let (second, s) ← fixed? 2 rest
    if second ≤ 60 then afterFraction? s else none
  | s => some s

def time? (s : List Char) : Option (List Char) := do
  let (hour, s) ← fixed? 2 s
  let (minute, s) ← fixed? 2 (← expect? ':' s)
  if hour ≤ 23 ∧ minute ≤ 59 then afterSeconds? s else none

def isOffset : List Char → Bool
  | [] => true
  | ['Z'] | ['z'] => true
  | c :: s => (c == '+' || c == '-') && (do
      let (hour, s) ← fixed? 2 s
      let (minute, s) ← fixed? 2 (← expect? ':' s)
      return hour ≤ 23 && minute ≤ 59 && s.isEmpty : Option Bool).getD false

def isMoment (s : List Char) : Bool :=
  match date? s with
  | none => time? s == some []
  | some [] => true
  | some (c :: rest) =>
    (c == 'T' || c == 't' || c == ' ') && (time? rest).any isOffset

end ClonePlot.Toml
