import ClonePlot.Canvas

/-! # Image bytes

Numbers of fixed width in either byte order, and the color bytes of a canvas row.
-/
namespace ClonePlot.Image

/-- The last `count` bytes of a number, least significant first. -/
def littleEndian (n : Nat) : Nat → List UInt8
  | 0 => []
  | count + 1 => UInt8.ofNat n :: littleEndian (n / 256) count

def bigEndian (n count : Nat) : List UInt8 := (littleEndian n count).reverse

def append (out : ByteArray) (bytes : List UInt8) : ByteArray := bytes.foldl ByteArray.push out

def row (c : Canvas) (y : Nat) : List Color :=
  (c.pixels.toArray.extract (y * c.width) ((y + 1) * c.width)).toList

end ClonePlot.Image
