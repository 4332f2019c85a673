/-! # Configuration values

Scalars, dates, arrays and tables. A table remembers how it came about, since that decides
how the rest of a document may add to it.
-/
namespace ClonePlot

/-- How a table came about. -/
inductive TableKind
  /-- By a header of its own, or as the document itself. -/
  | header
  /-- As a step on the way to another header's table. -/
  | implicit
  /-- As a step of a dotted key. -/
  | dotted
  | inline
  deriving DecidableEq, Repr

inductive TomlValue
  | string (s : String)
  | integer (i : Int)
  /-- A text that passes for an integer but has no value. -/
  | illegible
  | decimal (f : Float)
  | special (f : Float)
  | boolean (b : Bool)
  | moment
  /-- An array; one built by double-bracket headers holds tables only and can grow. -/
  | array (ofTables : Bool) (items : List TomlValue)
  | table (kind : TableKind) (entries : List (String × TomlValue))
  deriving Inhabited

namespace TomlValue

def wideSize : Nat := UInt64.size * UInt64.size

mutual

/-- Every number inside has a value that can be represented: integers in 128 bits, with or
without a sign, decimals as finite floats. -/
def isReadable : TomlValue → Bool
  | integer i => -(wideSize / 2 : Nat) ≤ i && i < wideSize
  | illegible => false
  | decimal f => !f.isInf
  | array _ items => areReadable items
  | table _ entries => entriesReadable entries
  | _ => true

def areReadable : List TomlValue → Bool
  | [] => true
  | v :: rest => v.isReadable && areReadable rest

def entriesReadable : List (String × TomlValue) → Bool
  | [] => true
  | (_, v) :: rest => v.isReadable && entriesReadable rest

end

end TomlValue
end ClonePlot
