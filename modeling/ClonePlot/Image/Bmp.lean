import ClonePlot.Image.Bytes

/-! # Bitmap files

Uncompressed, three bytes a pixel in the order blue, green, red; rows from the bottom up,
each filled up to a multiple of four bytes.
-/
namespace ClonePlot.Image

def bmpPadding (width : Nat) : Nat := (4 - width * 3 % 4) % 4

def bmpHeader (width height : Nat) : List UInt8 :=
  let body := (width * 3 + bmpPadding width) * height
  [0x42, 0x4D] ++ littleEndian (54 + body) 4 ++ littleEndian 0 4 ++ littleEndian 54 4 ++
    littleEndian 40 4 ++ littleEndian width 4 ++ littleEndian height 4 ++ littleEndian 1 2 ++
    littleEndian 24 2 ++ littleEndian 0 4 ++ littleEndian body 4 ++ littleEndian 0 4 ++
    littleEndian 0 4 ++ littleEndian 0 4 ++ littleEndian 0 4

def bmpRow (c : Canvas) (out : ByteArray) (y : Nat) : ByteArray :=
  let out := (row c y).foldl (fun out p => ((out.push p.blue).push p.green).push p.red) out
  append out (List.replicate (bmpPadding c.width) 0)

def encodeBmp (c : Canvas) : ByteArray :=
  (List.range c.height).reverse.foldl (bmpRow c) (append .empty (bmpHeader c.width c.height))

end ClonePlot.Image
