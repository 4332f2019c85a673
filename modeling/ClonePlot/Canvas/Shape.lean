import ClonePlot.Canvas
import ClonePlot.Font

/-! # Areas and outlines

Rectangles, dots, rounded rectangles and text, each painted once over its exact shape.
-/
namespace ClonePlot.Canvas

def everywhere : Point → Bool := fun _ => true

def fillRect (c : Canvas) (x0 y0 x1 y1 : Int) (color : Color) : Canvas :=
  c.paint everywhere x0 y0 x1 y1 color

/-- The pixels of row `y` from one column to another, both included. -/
def hline (c : Canvas) (x0 x1 y : Int) (color : Color) : Canvas :=
  c.fillRect (min x0 x1) y (max x0 x1 + 1) (y + 1) color

def vline (c : Canvas) (x y0 y1 : Int) (color : Color) : Canvas :=
  c.fillRect x (min y0 y1) (x + 1) (max y0 y1 + 1) color

/-- The border, one pixel wide, of the rectangle with the corners `(x0, y0)` and
`(x1, y1)`, which is empty if they are reversed. -/
def outlineRect (c : Canvas) (x0 y0 x1 y1 : Int) (color : Color) : Canvas :=
  if x1 < x0 ∨ y1 < y0 then c
  else
    let c := c.hline x0 x1 y0 color
    let c := if y0 < y1 then c.hline x0 x1 y1 color else c
    if 1 < y1 - y0 then
      let c := c.vline x0 (y0 + 1) (y1 - 1) color
      if x0 < x1 then c.vline x1 (y0 + 1) (y1 - 1) color else c
    else c

/-- The pixel next to a point on either axis is one. -/
def checkNext (p : Point) : Except Overflow Unit := do
  let _ ← addPixels p.x 1
  let _ ← addPixels p.y 1

def checkHline (x0 x1 y : Int) : Except Overflow Unit := checkNext ⟨max x0 x1, y⟩

def checkVline (x y0 y1 : Int) : Except Overflow Unit := checkNext ⟨x, max y0 y1⟩

/-- The sums behind `outlineRect`. -/
def checkOutline (x0 y0 x1 y1 : Int) : Except Overflow Unit := do
  if x1 < x0 ∨ y1 < y0 then return
  checkHline x0 x1 y0
  if y1 ≤ y0 then return
  checkHline x0 x1 y1
  if (← subPixels y1 y0) ≤ 1 then return
  checkVline x0 (y0 + 1) (y1 - 1)
  if x1 ≤ x0 then return
  checkVline x1 (y0 + 1) (y1 - 1)

/-- A square with its first corner at the point, at least one pixel wide. -/
def dot (c : Canvas) (p : Point) (size : Int) (color : Color) : Canvas :=
  c.fillRect p.x p.y (p.x + max size 1) (p.y + max size 1) color

def checkDot (p : Point) (size : Int) : Except Overflow Unit := do
  let _ ← addPixels p.x (max size 1)
  let _ ← addPixels p.y (max size 1)

/-- The largest radius up to the given one that fits into half of both sides. -/
def cornerRadius (x0 y0 x1 y1 radius : Int) : Int :=
  max (min (min radius ((x1 - x0).tdiv 2)) ((y1 - y0).tdiv 2)) 0

/-- At most `r` away from the rectangle that lies `r` inside the edges. -/
def inRounded (x0 y0 x1 y1 r : Int) (p : Point) : Bool :=
  let dx := p.x - max (x0 + r) (min p.x (x1 - r))
  let dy := p.y - max (y0 + r) (min p.y (y1 - r))
  dx * dx + dy * dy ≤ r * r

def roundedRect (c : Canvas) (x0 y0 x1 y1 radius : Int) (color : Color) : Canvas :=
  c.paint (inRounded x0 y0 x1 y1 (cornerRadius x0 y0 x1 y1 radius)) x0 y0 (x1 + 1) (y1 + 1) color

def glyph (c : Canvas) (p : Point) (scale : Int) (color : Color) (char : Char) : Canvas :=
  (Font.litCells char).foldl (fun c cell =>
    let x := p.x + cell.1 * scale
    let y := p.y + cell.2 * scale
    c.fillRect x y (x + scale) (y + scale) color) c

def glyphs (p : Point) (scale : Int) (color : Color) : List Char → Canvas → Canvas
  | [], c => c
  | char :: rest, c =>
    glyphs ⟨p.x + Font.advance * scale, p.y⟩ scale color rest (c.glyph p scale color char)

def text (c : Canvas) (p : Point) (scale : Int) (text : String) (color : Color) : Canvas :=
  glyphs p scale color text.toList c

end ClonePlot.Canvas
