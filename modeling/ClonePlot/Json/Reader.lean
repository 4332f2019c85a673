import ClonePlot.Json.Token
import ClonePlot.Json.Value

/-! # Reading a document

A machine reads the tokens one by one. It keeps the arrays and objects still open on a
stack, so documents may nest to any depth.
-/
namespace ClonePlot.Json

/-- An array or object still open, its parts so far with the latest first. -/
inductive Frame
  | array (items : List JsonValue)
  | object (members : List (List Char × JsonValue)) (key : List Char)

/-- What the machine waits for inside the open frames. -/
inductive Reading
  | value (stack : List Frame)
  | firstItem (stack : List Frame)
  | firstKey (stack : List Frame)
  | key (members : List (List Char × JsonValue)) (stack : List Frame)
  | colon (members : List (List Char × JsonValue)) (key : List Char) (stack : List Frame)
  | complete (v : JsonValue) (stack : List Frame)

namespace Reading

def startValue (stack : List Frame) : Token → Option Reading
  | .null => some (.complete .null stack)
  | .bool b => some (.complete (.bool b) stack)
  | .number n => some (.complete (.number n) stack)
  | .text spelling => some (.complete (.text spelling) stack)
  | .openArray => some (.firstItem stack)
  | .openObject => some (.firstKey stack)
  | _ => none

def close (v : JsonValue) : List Frame → Token → Option Reading
  | .array items :: stack, .comma => some (.value (.array (v :: items) :: stack))
  | .array items :: stack, .closeArray => some (.complete (.array (v :: items).reverse) stack)
  | .object members name :: stack, .comma => some (.key ((name, v) :: members) stack)
  | .object members name :: stack, .closeObject =>
    some (.complete (.object ((name, v) :: members).reverse) stack)
  | _, _ => none

def step : Reading → Token → Option Reading
  | value stack, t => startValue stack t
  | firstItem stack, .closeArray => some (.complete (.array []) stack)
  | firstItem stack, t => startValue (.array [] :: stack) t
  | firstKey stack, .closeObject => some (.complete (.object []) stack)
  | firstKey stack, .text spelling => some (.colon [] spelling stack)
  | key members stack, .text spelling => some (.colon members spelling stack)
  | colon members name stack, .colon => some (.value (.object members name :: stack))
  | complete v stack, t => close v stack t
  | _, _ => none

def result? : Reading → Option JsonValue
  | complete v [] => some v
  | _ => none

end Reading

/-- The tree of a document, none if the text is not exactly one document. -/
def read? (text : String) : Option JsonValue := do
  let tokens ← tokens? text.toList
  let last ← tokens.foldlM Reading.step (.value [])
  last.result?

end ClonePlot.Json
