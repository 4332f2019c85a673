import ClonePlot.Json.Reader

/-! # Printing a document

Each item and each member stands on a line of its own, two blanks further in than the
bracket around it. Control characters are escaped, others stand for themselves.
-/
namespace ClonePlot

namespace NumberText

def ofInt (i : Int) : NumberText :=
  { negative := i < 0, whole := (Nat.toDigits 10 i.natAbs).map Json.digitValue }

def digitChars (digits : List Nat) : List Char := digits.map fun d => Nat.digitChar d

def render (n : NumberText) : List Char :=
  (if n.negative then ['-'] else []) ++ digitChars n.whole ++
    n.fraction.elim [] (fun digits => '.' :: digitChars digits) ++
    n.exponent.elim [] fun e => 'e' :: (if e.1 then '-' else '+') :: digitChars e.2

end NumberText

namespace Json

def encodeChar (c : Char) : List Char :=
  match c with
  | '"' => ['\\', '"']
  | '\\' => ['\\', '\\']
  | '\x08' => ['\\', 'b']
  | '\x0C' => ['\\', 'f']
  | '\n' => ['\\', 'n']
  | '\r' => ['\\', 'r']
  | '\t' => ['\\', 't']
  | c =>
    if c.toNat < 0x20 then
      ['\\', 'u', '0', '0', Nat.digitChar (c.toNat / 16), Nat.digitChar (c.toNat % 16)]
    else [c]

def encode (s : String) : List Char := s.toList.flatMap encodeChar

end Json

namespace JsonValue

def nat (n : Nat) : JsonValue := .number (.ofInt n)
def int (i : Int) : JsonValue := .number (.ofInt i)
def string (s : String) : JsonValue := .text (Json.encode s)
def list (encode : α → JsonValue) (l : List α) : JsonValue := .array (l.map encode)
def optional (encode : α → JsonValue) (a : Option α) : JsonValue := a.elim .null encode
def record (fields : List (String × JsonValue)) : JsonValue :=
  .object (fields.map fun f => (Json.encode f.1, f.2))

def newLine (indent : Nat) : List Char := '\n' :: List.replicate (2 * indent) ' '

def quoted (spelling : List Char) : List Char := '"' :: spelling ++ ['"']

mutual

/-- The lines of a value whose first line is indented as given. -/
def render (indent : Nat) : JsonValue → List Char
  | null => "null".toList
  | bool b => (if b then "true" else "false").toList
  | number n => n.render
  | text spelling => quoted spelling
  | array [] => ['[', ']']
  | array (v :: rest) =>
    '[' :: newLine (indent + 1) ++ v.render (indent + 1) ++ renderItems (indent + 1) rest ++
      newLine indent ++ [']']
  | object [] => ['\x7b', '\x7d']
  | object ((key, v) :: rest) =>
    '\x7b' :: newLine (indent + 1) ++ quoted key ++ ':' :: ' ' :: v.render (indent + 1) ++
      renderMembers (indent + 1) rest ++ newLine indent ++ ['\x7d']

def renderItems (indent : Nat) : List JsonValue → List Char
  | [] => []
  | v :: rest => ',' :: newLine indent ++ v.render indent ++ renderItems indent rest

def renderMembers (indent : Nat) : List (List Char × JsonValue) → List Char
  | [] => []
  | (key, v) :: rest =>
    ',' :: newLine indent ++ quoted key ++ ':' :: ' ' :: v.render indent ++ renderMembers indent rest

end

def pretty (v : JsonValue) : String := String.ofList (v.render 0)

end JsonValue
end ClonePlot
