import ClonePlot.Json.Number

/-! # Documents as trees

A tree keeps numbers and texts as they are spelled, so that a part nobody asks for needs
no meaning. Texts are kept without their quotes and with their escapes.
-/
namespace ClonePlot

inductive JsonValue
  | null
  | bool (b : Bool)
  | number (n : NumberText)
  | text (spelling : List Char)
  | array (items : List JsonValue)
  | object (members : List (List Char × JsonValue))
  deriving Inhabited

namespace JsonValue

def items? : JsonValue → Option (List JsonValue)
  | array items => some items
  | _ => none

def members? : JsonValue → Option (List (List Char × JsonValue))
  | object members => some members
  | _ => none

def nat? : JsonValue → Option Nat
  | number n => n.toNat?
  | _ => none

def float? : JsonValue → Option Float
  | number n => n.toFloat?
  | _ => none

end JsonValue
end ClonePlot
