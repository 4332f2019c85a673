import ClonePlot.Text.Hex

/-! # Quoted texts

Escapes in quoted texts. `scan?` finds the closing quote and refuses what is no escape;
`decode?` says which characters a spelling stands for. A character beyond the first
sixteen bits is escaped as a pair of surrogates, and a surrogate alone stands for nothing.
-/
namespace ClonePlot.Json

def unit? (a b c d : Char) : Option Nat := Text.hexNumber? [a, b, c, d]

def escape? : Char → Option Char
  | '"' => some '"'
  | '\\' => some '\\'
  | '/' => some '/'
  | 'b' => some '\x08'
  | 'f' => some '\x0C'
  | 'n' => some '\n'
  | 'r' => some '\r'
  | 't' => some '\t'
  | _ => none

/-- The spelling up to the closing quote, and what comes after the quote. -/
def scan? (seen : List Char) : List Char → Option (List Char × List Char)
  | '"' :: rest => some (seen.reverse, rest)
  | '\\' :: 'u' :: a :: b :: c :: d :: rest =>
    if (unit? a b c d).isSome then scan? (d :: c :: b :: a :: 'u' :: '\\' :: seen) rest else none
  | '\\' :: c :: rest => if (escape? c).isSome then scan? (c :: '\\' :: seen) rest else none
  | c :: rest => if c.toNat < 0x20 then none else scan? (c :: seen) rest
  | [] => none

theorem length_of_scan? {seen s spelling rest : List Char} (h : scan? seen s = some (spelling, rest)) :
    rest.length < s.length := by
  fun_induction scan? seen s with
  | case1 => simp_all
  | case2 seen a b c d rest' hu ih => have := ih h; simp only [List.length_cons]; omega
  | case3 => simp at h
  | case4 seen c rest' hne he ih => have := ih h; simp only [List.length_cons]; omega
  | case5 => simp at h
  | case6 => simp at h
  | case7 seen c rest' _ _ _ _ ih => have := ih h; simp only [List.length_cons]; omega
  | case8 => simp at h

def isHighSurrogate (n : Nat) : Bool := 0xD800 ≤ n && n < 0xDC00

def isLowSurrogate (n : Nat) : Bool := 0xDC00 ≤ n && n < 0xE000

def decode? : List Char → Option (List Char)
  | [] => some []
  | '\\' :: 'u' :: a :: b :: c :: d :: rest => do
    let high ← unit? a b c d
    if isLowSurrogate high then none
    else if isHighSurrogate high then
      match rest with
      | '\\' :: 'u' :: e :: f :: g :: h :: rest => do
        let low ← unit? e f g h
        if isLowSurrogate low then
          let code := 0x10000 + (high - 0xD800) * 0x400 + (low - 0xDC00)
          return Char.ofNat code :: (← decode? rest)
        else none
      | _ => none
    else return Char.ofNat high :: (← decode? rest)
  | '\\' :: c :: rest => do return (← escape? c) :: (← decode? rest)
  | c :: rest => do return c :: (← decode? rest)

end ClonePlot.Json
