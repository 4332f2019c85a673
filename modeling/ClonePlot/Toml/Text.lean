import ClonePlot.Text.Hex

/-! # Quoted texts in a configuration

Double quotes allow escapes, single quotes do not; three quotes enclose a text of several
lines, whose first line break does not count. Control characters other than the tab have
to be escaped.
-/
namespace ClonePlot.Toml

def isControl (c : Char) : Bool := (c.toNat < 0x20 && c != '\t') || c.toNat == 0x7F

def isWhite (c : Char) : Bool := c == ' ' || c == '\t'

def lineBreak? : List Char → Option (List Char)
  | '\n' :: rest => some rest
  | '\r' :: '\n' :: rest => some rest
  | _ => none

/-- A character given by number: not a surrogate, and not beyond the last one. -/
def charOf? (n : Nat) : Option Char := if n.isValidChar then some (Char.ofNat n) else none

def coded? (count : Nat) (s : List Char) : Option (Char × List Char) := do
  if s.length < count then none
  return (← charOf? (← Text.hexNumber? (s.take count)), s.drop count)

def escape? : List Char → Option (Char × List Char)
  | 'b' :: s => some ('\x08', s)
  | 't' :: s => some ('\t', s)
  | 'n' :: s => some ('\n', s)
  | 'f' :: s => some ('\x0C', s)
  | 'r' :: s => some ('\r', s)
  | 'e' :: s => some ('\x1B', s)
  | '"' :: s => some ('"', s)
  | '\\' :: s => some ('\\', s)
  | 'x' :: s => coded? 2 s
  | 'u' :: s => coded? 4 s
  | 'U' :: s => coded? 8 s
  | _ => none

def basic? : Nat → List Char → List Char → Option (String × List Char)
  | 0, _, _ => none
  | _ + 1, _, [] => none
  | fuel + 1, seen, c :: rest =>
    if c = '"' then some (String.ofList seen.reverse, rest)
    else if c = '\\' then do
      let (d, rest) ← escape? rest
      basic? fuel (d :: seen) rest
    else if isControl c then none
    else basic? fuel (c :: seen) rest

def literal? (s : List Char) : Option (String × List Char) :=
  match s.dropWhile (· != '\'') with
  | [] => none
  | _ :: rest =>
    let body := s.takeWhile (· != '\'')
    if body.any isControl then none else some (String.ofList body, rest)

/-- Three quotes end a text; up to two more before them belong to it. -/
def closing? (quote : Char) (s : List Char) : Option (List Char × List Char) :=
  let count := (s.takeWhile (· == quote)).length
  if count < 3 then none
  else
    let extra := min (count - 3) 2
    some (List.replicate extra quote, s.drop (extra + 3))

def skipBlank : List Char → List Char
  | '\r' :: '\n' :: rest => skipBlank rest
  | c :: rest => if isWhite c || c == '\n' then skipBlank rest else c :: rest
  | [] => []

/-- What follows a backslash at the end of a line: the next text that is not blank. -/
def afterBrokenLine? (s : List Char) : Option (List Char) :=
  (lineBreak? (s.dropWhile isWhite)).map skipBlank

def lines? (quote : Char) : Nat → List Char → List Char → Option (String × List Char)
  | 0, _, _ => none
  | fuel + 1, seen, s =>
    match closing? quote s, s with
    | some (extra, rest), _ => some (String.ofList (seen.reverse ++ extra), rest)
    | none, [] => none
    | none, c :: rest =>
      if c = '\\' ∧ quote = '"' then
        match afterBrokenLine? rest with
        | some rest => lines? quote fuel seen rest
        | none => do
          let (d, rest) ← escape? rest
          lines? quote fuel (d :: seen) rest
      else if c = '\r' then
        match rest with
        | '\n' :: rest => lines? quote fuel ('\n' :: '\r' :: seen) rest
        | _ => none
      else if isControl c ∧ c ≠ '\n' then none
      else lines? quote fuel (c :: seen) rest

/-- A text at the start, with what follows it. -/
def quoted? (s : List Char) : Option (String × List Char) :=
  let opened (rest : List Char) := (lineBreak? rest).getD rest
  match s with
  | '"' :: '"' :: '"' :: rest => lines? '"' (s.length + 1) [] (opened rest)
  | '\'' :: '\'' :: '\'' :: rest => lines? '\'' (s.length + 1) [] (opened rest)
  | '"' :: rest => basic? (s.length + 1) [] rest
  | '\'' :: rest => literal? rest
  | _ => none

end ClonePlot.Toml
