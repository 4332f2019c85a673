import ClonePlot.Toml.Moment
import ClonePlot.Toml.Number
import ClonePlot.Toml.Table
import ClonePlot.Toml.Text

/-! # Reading a configuration

A document is a list of sections, each with its header and its entries; the section before
the first header has none. Every reader takes a text and returns what follows the part it
has read. The fuel of a reader is the length of the text, which each step shortens.
-/
namespace ClonePlot.Toml

def skipWhite (s : List Char) : List Char := s.dropWhile isWhite

def comment? (s : List Char) : Option (List Char) :=
  let rest := s.dropWhile (!isControl ·)
  if rest.isEmpty || (lineBreak? rest).isSome then some rest else none

def skipLines? : Nat → List Char → Option (List Char)
  | 0, s => some s
  | fuel + 1, s =>
    match skipWhite s with
    | '#' :: rest => do skipLines? fuel (← comment? rest)
    | s => match lineBreak? s with
      | some rest => skipLines? fuel rest
      | none => some s

def isBare (c : Char) : Bool := c.isAlphanum || c == '-' || c == '_'

def simpleKey? (s : List Char) : Option (String × List Char) :=
  match s with
  | '"' :: rest => basic? (s.length + 1) [] rest
  | '\'' :: rest => literal? rest
  | _ =>
    let name := s.takeWhile isBare
    if name.isEmpty then none else some (String.ofList name, s.dropWhile isBare)

/-- The greatest number of steps before the last one of a key. -/
def maxSteps : Nat := 79

/-- A dotted key as the steps before the last one, latest first, and the last one. -/
def keyFrom? : Nat → List String → List Char → Option ((List String × String) × List Char)
  | 0, _, _ => none
  | fuel + 1, steps, s => do
    let (name, s) ← simpleKey? (skipWhite s)
    match skipWhite s with
    | '.' :: rest => keyFrom? fuel (name :: steps) rest
    | s => if steps.length ≤ maxSteps then return ((steps.reverse, name), s) else none

def key? (s : List Char) : Option ((List String × String) × List Char) :=
  keyFrom? (s.length + 1) [] s

def isScalarChar (c : Char) : Bool := c ∉ "=,[]\x7b\x7d \t#\r\n".toList

/-- The characters of an unquoted value. A date goes on after a space if a digit follows. -/
def scalarText (s : List Char) : List Char × List Char :=
  let word := s.takeWhile isScalarChar
  match date? word, s.dropWhile isScalarChar with
  | some [], ' ' :: c :: rest =>
    if c.isDigit then
      (word ++ ' ' :: (c :: rest).takeWhile isScalarChar, (c :: rest).dropWhile isScalarChar)
    else (word, ' ' :: c :: rest)
  | _, rest => (word, rest)

def scalar? (s : List Char) : Option TomlValue :=
  match s with
  | ['t', 'r', 'u', 'e'] => some (.boolean true)
  | ['f', 'a', 'l', 's', 'e'] => some (.boolean false)
  | _ =>
    ((integer? s).map .integer).or <| ((special? s).map .special).or <|
      ((decimal? s).map .decimal).or <| if isMoment s then some .moment
      else if passesForInteger s then some .illegible
      else none

/-- The greatest number of brackets and braces around a value. -/
def maxDepth : Nat := 80

mutual

def value? : Nat → Nat → List Char → Option (TomlValue × List Char)
  | 0, _, _ => none
  | fuel + 1, depth, s =>
    match s with
    | '[' :: rest => if depth < maxDepth then items? fuel (depth + 1) [] rest else none
    | '{' :: rest => if depth < maxDepth then entries? fuel (depth + 1) ⟨.inline, []⟩ rest else none
    | '"' :: _ | '\'' :: _ => (quoted? s).map fun (text, rest) => (.string text, rest)
    | _ => do
      let (text, rest) := scalarText s
      return (← scalar? text, rest)

/-- The rest of an array after the items seen, latest first. -/
def items? : Nat → Nat → List TomlValue → List Char → Option (TomlValue × List Char)
  | 0, _, _, _ => none
  | fuel + 1, depth, seen, s => do
    match ← skipLines? s.length s with
    | ']' :: rest => return (.array false seen.reverse, rest)
    | s =>
      let (v, s) ← value? fuel depth s
      match ← skipLines? s.length s with
      | ',' :: rest => items? fuel depth (v :: seen) rest
      | ']' :: rest => return (.array false (v :: seen).reverse, rest)
      | _ => none

/-- The rest of a table in braces after the entries seen. Lines may be broken anywhere but
inside a key. -/
def entries? : Nat → Nat → TomlTable → List Char → Option (TomlValue × List Char)
  | 0, _, _, _ => none
  | fuel + 1, depth, t, s => do
    match ← skipLines? s.length s with
    | '}' :: rest => return (t.toValue, rest)
    | s =>
      let ((path, name), s) ← key? s
      let s ← expect? '=' (← skipLines? s.length s)
      let (v, s) ← value? fuel depth (← skipLines? s.length s)
      let t ← t.put? false path name v
      match ← skipLines? s.length s with
      | ',' :: rest => entries? fuel depth t rest
      | '}' :: rest => return (t.toValue, rest)
      | _ => none

end

inductive Header
  | table (path : List String) (name : String)
  | array (path : List String) (name : String)

structure Section where
  header : Option Header
  entries : List TomlTable.Entry

def header? : List Char → Option (Header × List Char)
  | '[' :: '[' :: rest => do
    let ((path, name), s) ← key? rest
    return (.array path name, ← expect? ']' (← expect? ']' s))
  | '[' :: rest => do
    let ((path, name), s) ← key? rest
    return (.table path name, ← expect? ']' s)
  | _ => none

def entry? (s : List Char) : Option (TomlTable.Entry × List Char) := do
  let ((path, name), s) ← key? s
  let s ← expect? '=' s
  let (v, s) ← value? (s.length + 1) 0 (skipWhite s)
  return (⟨path, name, v⟩, s)

def lineEnd? (s : List Char) : Option (List Char) := do
  let s ← match skipWhite s with
    | '#' :: rest => comment? rest
    | s => some s
  if s.isEmpty then some [] else lineBreak? s

/-- The sections of a text after those seen, latest first; the entries of the section at
hand are the latest first too. -/
def sections? : Nat → List Section → Section → List Char → Option (List Section)
  | 0, _, _, _ => none
  | fuel + 1, seen, current, s => do
    let finished : Section := { current with entries := current.entries.reverse }
    match ← skipLines? s.length s with
    | [] => return (finished :: seen).reverse
    | '[' :: rest =>
      let (header, s) ← header? ('[' :: rest)
      sections? fuel (finished :: seen) ⟨some header, []⟩ (← lineEnd? s)
    | s =>
      let (entry, s) ← entry? s
      sections? fuel seen { current with entries := entry :: current.entries } (← lineEnd? s)

def addSection? (t : TomlTable) (s : Section) : Option TomlTable :=
  match s.header with
  | none => t.putAll? s.entries
  | some (.table path name) => t.at? (TomlTable.open? s.entries name) path
  | some (.array path name) => t.at? (TomlTable.append? s.entries name) path

def withoutMark : List Char → List Char
  | '\uFEFF' :: rest => rest
  | s => s

def read? (text : String) : Option TomlTable := do
  let s := withoutMark text.toList
  let sections ← sections? (s.length + 1) [] ⟨none, []⟩ s
  sections.foldlM addSection? ⟨.header, []⟩

end ClonePlot.Toml
