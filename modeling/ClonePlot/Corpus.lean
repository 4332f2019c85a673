import ClonePlot.Json.Reader
import ClonePlot.Metric
import ClonePlot.Model

/-! # Corpus documents

A document lists files, clone pairs and metric values. A record is an object with named
fields or an array of its fields in order; what an object holds besides its fields does
not matter. Pairs and metrics may be missing.
-/
namespace ClonePlot

inductive LoadError
  | unreadable (path : String)
  | malformed
  | invalid (fault : ModelError)
  deriving DecidableEq, Repr

def LoadError.message : LoadError → String
  | unreadable path => s!"failed to read corpus file {path}"
  | malformed => "malformed corpus document"
  | invalid fault => fault.message

structure Corpus where
  model : Model
  table : Option MetricTable

namespace Corpus

def text? : JsonValue → Option String
  | .text spelling => (Json.decode? spelling).map String.ofList
  | _ => none

def list? (item? : JsonValue → Option α) (v : JsonValue) : Option (List α) := do
  (← v.items?).mapM item?

/-- The value of a field, `some none` if there is none; no field may be given twice. -/
def member? (members : List (String × JsonValue)) (name : String) : Option (Option JsonValue) :=
  match members.filter (·.1 == name) with
  | [] => some none
  | [m] => some (some m.2)
  | _ => none

def fields? (names : List String) : JsonValue → Option (List (Option JsonValue))
  | .array items =>
    if items.length ≤ names.length then
      some (items.map some ++ List.replicate (names.length - items.length) none)
    else none
  | .object members => do
    let members ← members.mapM fun m => do
      return (String.ofList (← Json.decode? m.1), m.2)
    names.mapM (member? members)
  | _ => none

def file? (v : JsonValue) : Option SourceFile := do
  match ← fields? ["id", "path", "size"] v with
  | [some id, some path, some size] => return ⟨← id.nat?, ← text? path, ← size.nat?⟩
  | _ => none

def pairFields : List String :=
  ["class_id", "left_file", "left_begin", "left_end", "right_file", "right_begin", "right_end"]

def pair? (v : JsonValue) : Option ClonePair := do
  match ← (← fields? pairFields v).mapM (·.bind JsonValue.nat?) with
  | [classId, lf, lb, le, rf, rb, re] => return ⟨classId, ⟨lf, lb, le⟩, ⟨rf, rb, re⟩⟩
  | _ => none

/-- A class id as a key: decimal digits without leading zeros, as they stand. -/
def classKey? (key : List Char) : Option Nat := do
  let (digits, rest) ← Json.whole? key
  if rest.isEmpty then ({ whole := digits } : NumberText).toNat? else none

def rows? (v : JsonValue) : Option (List (Nat × Array Float)) := do
  (← v.members?).mapM fun m => do
    return (← classKey? m.1, (← list? JsonValue.float? m.2).toArray)

def table? (v : JsonValue) : Option MetricTable := do
  match ← fields? ["names", "values"] v with
  | [some names, values] =>
    let rows ← values.elim (some []) rows?
    return .ofRows (← list? text? names).toArray rows
  | _ => none

def optionalTable? : JsonValue → Option (Option MetricTable)
  | .null => some none
  | v => (table? v).map some

def parts? (text : String) : Option (List SourceFile × List ClonePair × Option MetricTable) := do
  match ← fields? ["files", "pairs", "metrics"] (← Json.read? text) with
  | [some files, pairs, metrics] =>
    return (← list? file? files, ← pairs.elim (some []) (list? pair?),
      ← metrics.elim (some none) optionalTable?)
  | _ => none

def parse (text : String) : Except LoadError Corpus :=
  match parts? text with
  | none => .error .malformed
  | some (files, pairs, table) =>
    match Model.ofPairs files.toArray pairs with
    | .error fault => .error (.invalid fault)
    | .ok model => .ok ⟨model, table⟩

def load (path : String) (content : Option ByteArray) : Except LoadError Corpus :=
  match content.bind String.fromUTF8? with
  | none => .error (.unreadable path)
  | some text => parse text

end Corpus
end ClonePlot
