/-! # The bitmap font

Capitals, digits and some signs as three columns by five rows of cells. Small letters
share the capitals' shapes; every other character is drawn as a question mark. Glyphs
are set four cells apart.
-/
namespace ClonePlot.Font

def columns : Nat := 3

def rows : Nat := 5

def advance : Nat := columns + 1

/-- The rows of a glyph from the top; the leftmost cell is the bit of value four. -/
def glyph (c : Char) : List Nat :=
  match c.toUpper with
  | 'A' => [0b010, 0b101, 0b111, 0b101, 0b101]
  | 'B' => [0b110, 0b101, 0b110, 0b101, 0b110]
  | 'C' => [0b011, 0b100, 0b100, 0b100, 0b011]
  | 'D' => [0b110, 0b101, 0b101, 0b101, 0b110]
  | 'E' => [0b111, 0b100, 0b110, 0b100, 0b111]
  | 'F' => [0b111, 0b100, 0b110, 0b100, 0b100]
  | 'G' => [0b011, 0b100, 0b101, 0b101, 0b011]
  | 'H' => [0b101, 0b101, 0b111, 0b101, 0b101]
  | 'I' => [0b111, 0b010, 0b010, 0b010, 0b111]
  | 'J' => [0b001, 0b001, 0b001, 0b101, 0b010]
  | 'K' => [0b101, 0b101, 0b110, 0b101, 0b101]
  | 'L' => [0b100, 0b100, 0b100, 0b100, 0b111]
  | 'M' => [0b101, 0b111, 0b111, 0b101, 0b101]
  | 'N' => [0b110, 0b101, 0b101, 0b101, 0b101]
  | 'O' => [0b010, 0b101, 0b101, 0b101, 0b010]
  | 'P' => [0b110, 0b101, 0b110, 0b100, 0b100]
  | 'Q' => [0b010, 0b101, 0b101, 0b110, 0b011]
  | 'R' => [0b110, 0b101, 0b110, 0b101, 0b101]
  | 'S' => [0b011, 0b100, 0b010, 0b001, 0b110]
  | 'T' => [0b111, 0b010, 0b010, 0b010, 0b010]
  | 'U' => [0b101, 0b101, 0b101, 0b101, 0b111]
  | 'V' => [0b101, 0b101, 0b101, 0b101, 0b010]
  | 'W' => [0b101, 0b101, 0b111, 0b111, 0b101]
  | 'X' => [0b101, 0b101, 0b010, 0b101, 0b101]
  | 'Y' => [0b101, 0b101, 0b010, 0b010, 0b010]
  | 'Z' => [0b111, 0b001, 0b010, 0b100, 0b111]
  | '0' => [0b111, 0b101, 0b101, 0b101, 0b111]
  | '1' => [0b010, 0b110, 0b010, 0b010, 0b111]
  | '2' => [0b110, 0b001, 0b010, 0b100, 0b111]
  | '3' => [0b110, 0b001, 0b010, 0b001, 0b110]
  | '4' => [0b101, 0b101, 0b111, 0b001, 0b001]
  | '5' => [0b111, 0b100, 0b110, 0b001, 0b110]
  | '6' => [0b011, 0b100, 0b111, 0b101, 0b111]
  | '7' => [0b111, 0b001, 0b010, 0b010, 0b010]
  | '8' => [0b111, 0b101, 0b111, 0b101, 0b111]
  | '9' => [0b111, 0b101, 0b111, 0b001, 0b110]
  | ' ' => [0, 0, 0, 0, 0]
  | '.' => [0b000, 0b000, 0b000, 0b000, 0b010]
  | ',' => [0b000, 0b000, 0b000, 0b010, 0b100]
  | ':' => [0b000, 0b010, 0b000, 0b010, 0b000]
  | '-' => [0b000, 0b000, 0b111, 0b000, 0b000]
  | '_' => [0b000, 0b000, 0b000, 0b000, 0b111]
  | '+' => [0b000, 0b010, 0b111, 0b010, 0b000]
  | '=' => [0b000, 0b111, 0b000, 0b111, 0b000]
  | '/' => [0b001, 0b001, 0b010, 0b100, 0b100]
  | '\\' => [0b100, 0b100, 0b010, 0b001, 0b001]
  | '(' => [0b010, 0b100, 0b100, 0b100, 0b010]
  | ')' => [0b010, 0b001, 0b001, 0b001, 0b010]
  | '#' => [0b101, 0b111, 0b101, 0b111, 0b101]
  | _ => [0b110, 0b001, 0b010, 0b000, 0b010]

def litCells (c : Char) : List (Nat × Nat) :=
  (glyph c).zipIdx.flatMap fun (bits, row) =>
    ((List.range columns).filter fun column => bits.testBit (columns - 1 - column)).map (·, row)

/-- The width of a text, without the space after its last glyph. -/
def width (text : String) (scale : Int) : Int :=
  if text.length = 0 then 0 else (text.length * advance - 1) * scale

def height (scale : Int) : Int := rows * scale

end ClonePlot.Font
