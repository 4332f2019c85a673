import ClonePlot.Json.Number
import ClonePlot.Json.Text

/-! # Tokens

A document's text cut into brackets, commas, colons, words, numbers and quoted texts.
Blanks between tokens are the space, the tab and the two line breaks.
-/
namespace ClonePlot.Json

inductive Token
  | openArray
  | closeArray
  | openObject
  | closeObject
  | comma
  | colon
  | null
  | bool (b : Bool)
  | number (n : NumberText)
  | text (spelling : List Char)
  deriving DecidableEq, Repr

def isSpace (c : Char) : Bool := c == ' ' || c == '\t' || c == '\n' || c == '\r'

def digitValue (c : Char) : Nat := c.toNat - '0'.toNat

def digits (s : List Char) : List Nat × List Char :=
  ((s.takeWhile Char.isDigit).map digitValue, s.dropWhile Char.isDigit)

def someDigits? (s : List Char) : Option (List Nat × List Char) :=
  if (s.head?.any Char.isDigit) then some (digits s) else none

theorem length_of_someDigits? {s : List Char} {r : List Nat × List Char}
    (h : someDigits? s = some r) : r.2.length < s.length := by
  unfold someDigits? at h
  split at h
  · rename_i hd
    injection h with h
    subst h
    cases s with
    | nil => simp at hd
    | cons c rest =>
      simp only [List.head?_cons, Option.any_some] at hd
      have := (List.dropWhile_sublist (l := rest) Char.isDigit).length_le
      simp only [digits, List.dropWhile_cons, hd, if_true, List.length_cons]
      omega
  · simp at h

/-- The digits before the point: no zero in front of other digits. -/
def whole? (s : List Char) : Option (List Nat × List Char) := do
  let (ds, rest) ← someDigits? s
  if ds.head? = some 0 ∧ ds.length ≠ 1 then none else some (ds, rest)

theorem length_of_whole? {s : List Char} {r : List Nat × List Char} (h : whole? s = some r) :
    r.2.length < s.length := by
  unfold whole? at h
  obtain ⟨q, hq, h⟩ := Option.bind_eq_some_iff.1 h
  have := length_of_someDigits? hq
  dsimp only at h
  split at h
  · simp at h
  · injection h with h
    subst h
    exact this

def fraction? : List Char → Option (Option (List Nat) × List Char)
  | '.' :: rest => (someDigits? rest).map fun (ds, rest) => (some ds, rest)
  | s => some (none, s)

theorem length_of_fraction? {s : List Char} {r : Option (List Nat) × List Char}
    (h : fraction? s = some r) : r.2.length ≤ s.length := by
  unfold fraction? at h
  split at h
  · obtain ⟨q, hq, rfl⟩ := Option.map_eq_some_iff.1 h
    have := length_of_someDigits? hq
    simp only [List.length_cons]
    omega
  · injection h with h
    subst h
    exact Nat.le_refl _

def exponentDigits? : List Char → Option ((Bool × List Nat) × List Char)
  | '+' :: rest => (someDigits? rest).map fun (ds, rest) => ((false, ds), rest)
  | '-' :: rest => (someDigits? rest).map fun (ds, rest) => ((true, ds), rest)
  | s => (someDigits? s).map fun (ds, rest) => ((false, ds), rest)

theorem length_of_exponentDigits? {s : List Char} {r : (Bool × List Nat) × List Char}
    (h : exponentDigits? s = some r) : r.2.length < s.length := by
  unfold exponentDigits? at h
  split at h <;>
    (obtain ⟨q, hq, rfl⟩ := Option.map_eq_some_iff.1 h
     have := length_of_someDigits? hq
     simp only [List.length_cons] at *
     omega)

def exponent? : List Char → Option (Option (Bool × List Nat) × List Char)
  | 'e' :: rest | 'E' :: rest => (exponentDigits? rest).map fun (e, rest) => (some e, rest)
  | s => some (none, s)

theorem length_of_exponent? {s : List Char} {r : Option (Bool × List Nat) × List Char}
    (h : exponent? s = some r) : r.2.length ≤ s.length := by
  unfold exponent? at h
  split at h
  · obtain ⟨q, hq, rfl⟩ := Option.map_eq_some_iff.1 h
    have := length_of_exponentDigits? hq
    simp only [List.length_cons]
    omega
  · obtain ⟨q, hq, rfl⟩ := Option.map_eq_some_iff.1 h
    have := length_of_exponentDigits? hq
    simp only [List.length_cons]
    omega
  · injection h with h
    subst h
    exact Nat.le_refl _

def unsigned? (negative : Bool) (s : List Char) : Option (NumberText × List Char) := do
  let (whole, s) ← whole? s
  let (fraction, s) ← fraction? s
  let (exponent, s) ← exponent? s
  return ({ negative, whole, fraction, exponent }, s)

theorem length_of_unsigned? {negative : Bool} {s : List Char} {r : NumberText × List Char}
    (h : unsigned? negative s = some r) : r.2.length < s.length := by
  unfold unsigned? at h
  obtain ⟨q1, h1, h⟩ := Option.bind_eq_some_iff.1 h
  obtain ⟨q2, h2, h⟩ := Option.bind_eq_some_iff.1 h
  obtain ⟨q3, h3, h⟩ := Option.bind_eq_some_iff.1 h
  have := length_of_whole? h1
  have := length_of_fraction? h2
  have := length_of_exponent? h3
  injection h with h
  subst h
  dsimp only
  omega

def number? : List Char → Option (NumberText × List Char)
  | '-' :: rest => unsigned? true rest
  | s => unsigned? false s

theorem length_of_number? {s : List Char} {r : NumberText × List Char}
    (h : number? s = some r) : r.2.length < s.length := by
  unfold number? at h
  split at h
  · have := length_of_unsigned? h
    simp only [List.length_cons]
    omega
  · exact length_of_unsigned? h

/-- The token at the start of a text, which is no blank, and what comes after it. -/
def token? : List Char → Option (Token × List Char)
  | '[' :: rest => some (.openArray, rest)
  | ']' :: rest => some (.closeArray, rest)
  | '{' :: rest => some (.openObject, rest)
  | '}' :: rest => some (.closeObject, rest)
  | ',' :: rest => some (.comma, rest)
  | ':' :: rest => some (.colon, rest)
  | '"' :: rest => (scan? [] rest).map fun (spelling, rest) => (.text spelling, rest)
  | 'n' :: 'u' :: 'l' :: 'l' :: rest => some (.null, rest)
  | 't' :: 'r' :: 'u' :: 'e' :: rest => some (.bool true, rest)
  | 'f' :: 'a' :: 'l' :: 's' :: 'e' :: rest => some (.bool false, rest)
  | s => (number? s).map fun (n, rest) => (.number n, rest)

theorem length_of_token? {s : List Char} {r : Token × List Char} (h : token? s = some r) :
    r.2.length < s.length := by
  unfold token? at h
  split at h
  case h_7 =>
    obtain ⟨q, hq, rfl⟩ := Option.map_eq_some_iff.1 h
    have := length_of_scan? hq
    simp only [List.length_cons]
    omega
  case h_11 =>
    obtain ⟨q, hq, rfl⟩ := Option.map_eq_some_iff.1 h
    exact length_of_number? hq
  all_goals
    injection h with h
    subst h
    simp only [List.length_cons]
    omega

def tokensFrom (seen : Array Token) (s : List Char) : Option (Array Token) :=
  match s with
  | [] => some seen
  | c :: rest =>
    if isSpace c then tokensFrom seen rest
    else match h : token? (c :: rest) with
      | none => none
      | some (t, after) =>
        have := length_of_token? h
        tokensFrom (seen.push t) after
termination_by s.length
decreasing_by
  · exact Nat.lt_succ_self _
  · exact this

def tokens? (s : List Char) : Option (List Token) := (tokensFrom #[] s).map Array.toList

end ClonePlot.Json
