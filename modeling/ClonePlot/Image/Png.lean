import ClonePlot.Image.Bytes

/-! # Portable network graphics

Three bytes a pixel, rows unfiltered, the data in stored (uncompressed) blocks.
-/
namespace ClonePlot.Image

def crcBit (crc : UInt32) : UInt32 :=
  if crc &&& 1 = 1 then (crc >>> 1) ^^^ 0xEDB88320 else crc >>> 1

def crcByte (crc : UInt32) (byte : UInt8) : UInt32 :=
  let c := crc ^^^ byte.toUInt32
  crcBit (crcBit (crcBit (crcBit (crcBit (crcBit (crcBit (crcBit c)))))))

def crc (bytes : ByteArray) : UInt32 := bytes.foldl crcByte 0xFFFFFFFF ^^^ 0xFFFFFFFF

/-- The two running sums of the checksum at the end of the data, the second in the high half. -/
def adler (bytes : ByteArray) : UInt32 :=
  let sums := bytes.foldl (fun (sums : UInt32 × UInt32) byte =>
    let low := (sums.1 + byte.toUInt32) % 65521
    (low, (sums.2 + low) % 65521)) (1, 0)
  (sums.2 <<< 16) ||| sums.1

def chunk (name : String) (data out : ByteArray) : ByteArray :=
  let body := name.toUTF8 ++ data
  append (append out (bigEndian data.size 4) ++ body) (bigEndian (crc body).toNat 4)

def blockSize : Nat := 65535

/-- The data from offset `i` on as `n` stored blocks, the last one marked. -/
def storedBlocks (data : ByteArray) : Nat → Nat → ByteArray → ByteArray
  | 0, _, out => out
  | n + 1, i, out =>
    let stop := min (i + blockSize) data.size
    let head := (if n = 0 then 1 else 0) :: littleEndian (stop - i) 2 ++
      littleEndian (blockSize - (stop - i)) 2
    storedBlocks data n stop (append out head ++ data.extract i stop)

def zlib (data : ByteArray) : ByteArray :=
  let blocks := max 1 ((data.size + blockSize - 1) / blockSize)
  append (storedBlocks data blocks 0 (append .empty [0x78, 0x01])) (bigEndian (adler data).toNat 4)

def pngRows (c : Canvas) : ByteArray :=
  (List.range c.height).foldl (fun out y =>
    (row c y).foldl (fun out p => ((out.push p.red).push p.green).push p.blue) (out.push 0)) .empty

def encodePng (c : Canvas) : ByteArray :=
  let header := bigEndian c.width 4 ++ bigEndian c.height 4 ++ [8, 2, 0, 0, 0]
  let signature := append .empty [0x89, 0x50, 0x4E, 0x47, 0x0D, 0x0A, 0x1A, 0x0A]
  chunk "IEND" .empty (chunk "IDAT" (zlib (pngRows c))
    (chunk "IHDR" (append .empty header) signature))

end ClonePlot.Image
