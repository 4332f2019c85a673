import ClonePlot.Toml.Value

/-! # Building tables

Where a dotted key or a header leads, and what it may add there. No key is given twice. A
dotted key adds only to tables that dotted keys made; a header may open anew a table that
was only on the way to others, and may pass through every table but those in braces.
-/
namespace ClonePlot

structure TomlTable where
  kind : TableKind
  entries : List (String × TomlValue) := []

namespace TomlTable

def find? (t : TomlTable) (key : String) : Option TomlValue := t.entries.lookup key

def add? (t : TomlTable) (key : String) (v : TomlValue) : Option TomlTable :=
  if (t.find? key).isSome then none else some { t with entries := t.entries ++ [(key, v)] }

def replace (t : TomlTable) (key : String) (v : TomlValue) : TomlTable :=
  { t with entries := t.entries.map fun e => if e.1 = key then (key, v) else e }

def toValue (t : TomlTable) : TomlValue := .table t.kind t.entries

def changeLast? (change? : TomlTable → Option TomlTable) : List TomlValue → Option (List TomlValue)
  | [] => none
  | [.table kind entries] => (change? ⟨kind, entries⟩).map fun t => [t.toValue]
  | v :: rest => (changeLast? change? rest).map (v :: ·)

/-- Adds a value below a dotted path. `below` says that the path has already led into
another table. -/
def put? (t : TomlTable) (below : Bool) : List String → String → TomlValue → Option TomlTable
  | [], key, v => if (t.kind == .dotted) != below then none else t.add? key v
  | step :: path, key, v =>
    match t.find? step with
    | none => do
      t.add? step (← put? ⟨.dotted, []⟩ true path key v).toValue
    | some (.table kind entries) =>
      if kind = .header ∨ kind = .inline then none
      else (put? ⟨kind, entries⟩ true path key v).map fun sub => t.replace step sub.toValue
    | some (.array true items) =>
      (changeLast? (fun sub => put? sub true path key v) items).map fun items =>
        t.replace step (.array true items)
    | some _ => none

/-- Changes the table that the path of a header leads to, making those on the way. -/
def at? (t : TomlTable) (change? : TomlTable → Option TomlTable) : List String → Option TomlTable
  | [] => change? t
  | step :: path =>
    match t.find? step with
    | none => do
      t.add? step (← at? ⟨.implicit, []⟩ change? path).toValue
    | some (.table kind entries) =>
      if kind = .inline then none
      else (at? ⟨kind, entries⟩ change? path).map fun sub => t.replace step sub.toValue
    | some (.array true items) =>
      (changeLast? (fun sub => at? sub change? path) items).map fun items =>
        t.replace step (.array true items)
    | some _ => none

structure Entry where
  path : List String
  key : String
  value : TomlValue

def putAll? (t : TomlTable) (entries : List Entry) : Option TomlTable :=
  entries.foldlM (fun t e => t.put? false e.path e.key e.value) t

def open? (entries : List Entry) (key : String) (parent : TomlTable) : Option TomlTable :=
  match parent.find? key with
  | none => do parent.add? key (← putAll? ⟨.header, []⟩ entries).toValue
  | some (.table .implicit old) => do
    return parent.replace key (← putAll? ⟨.header, old⟩ entries).toValue
  | some _ => none

def append? (entries : List Entry) (key : String) (parent : TomlTable) : Option TomlTable := do
  let sub ← putAll? ⟨.header, []⟩ entries
  match parent.find? key with
  | none => parent.add? key (.array true [sub.toValue])
  | some (.array true items) => return parent.replace key (.array true (items ++ [sub.toValue]))
  | some _ => none

end TomlTable
end ClonePlot
