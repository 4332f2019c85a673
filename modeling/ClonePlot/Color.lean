import ClonePlot.Text.Blank
import ClonePlot.Text.Hex

/-! # Colors

Eight-bit channels with an alpha channel, blending of one color over another, and the
written form `#rrggbb` or `#rrggbbaa`.
-/
namespace ClonePlot

structure Color where
  red : UInt8
  green : UInt8
  blue : UInt8
  alpha : UInt8 := 255
  deriving DecidableEq, Repr, Inhabited

namespace Color

def solid (c : Color) : Color := { c with alpha := 255 }

/-- The weighted mean of two channel values, `alpha` parts of 255 to the first, rounded
to nearest. -/
def mix (alpha source target : UInt8) : UInt8 :=
  UInt8.ofNat ((source.toNat * alpha.toNat + target.toNat * (255 - alpha.toNat) + 127) / 255)

/-- What `target` becomes under `source`. A translucent source leaves a solid result. -/
def blendOver (source target : Color) : Color :=
  if source.alpha = 255 then source
  else if source.alpha = 0 then target
  else ⟨mix source.alpha source.red target.red, mix source.alpha source.green target.green,
    mix source.alpha source.blue target.blue, 255⟩

/-- A channel written in two characters: two hexadecimal digits, or a plus sign and one. -/
def channel? (high low : Char) : Option UInt8 :=
  (Text.hexNumber? (if high = '+' then [low] else [high, low])).map UInt8.ofNat

def ofHex? (text : String) : Option Color :=
  match Text.trim text.toList with
  | ['#', a, b, c, d, e, f] => do
    return ⟨← channel? a b, ← channel? c d, ← channel? e f, 255⟩
  | ['#', a, b, c, d, e, f, g, h] => do
    return ⟨← channel? a b, ← channel? c d, ← channel? e f, ← channel? g h⟩
  | _ => none

end Color
end ClonePlot
