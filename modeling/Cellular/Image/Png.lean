import Cellular.Image

/-!
# Images as files

An image is written as a sequence of chunks, each with its length, its kind and a checksum.  The
pixels are one stream of blocks that are stored as they are.

* `Image.png` is the file of an image.

Nothing is compressed, which keeps the writer small; any reader of such files reads stored blocks.
Every row starts with the byte that says that its pixels are not filtered.
-/

namespace Cellular.Png

/-- A number as `n` bytes, the highest first. -/
def bigEndian : Nat → Nat → List UInt8
  | 0, _ => []
  | n + 1, value => UInt8.ofNat (value / Nat.pow 256 n) :: bigEndian n value

/-- A number as two bytes, the lower first. -/
def littleEndian16 (value : Nat) : List UInt8 :=
  [UInt8.ofNat value, UInt8.ofNat (value / 256)]

/-! ## Checksums

There are two of them, one for each level of the file.
-/

/-- Divides a remainder by the polynomial of the cyclic checksum, one bit after the other. -/
def crcBits : Nat → UInt32 → UInt32
  | 0, c => c
  | n + 1, c =>
    let polynomial : UInt32 := 0xedb88320
    crcBits n (if c &&& 1 = 1 then polynomial ^^^ (c >>> 1) else c >>> 1)

/-- The cyclic checksum of a chunk. -/
def crc (bytes : List UInt8) : UInt32 :=
  bytes.foldl (fun c b => crcBits 8 (c ^^^ b.toUInt32)) 0xffffffff ^^^ 0xffffffff

/-- The checksum of a stream: the sum of its bytes and the sum of those sums, both modulo a prime. -/
def streamSum (bytes : List UInt8) : Nat :=
  let sums := bytes.foldl
    (fun (s : Nat × Nat) b =>
      let a := (s.1 + b.toNat) % 65521
      (a, (s.2 + a) % 65521))
    (1, 0)
  sums.2 * 65536 + sums.1

/-! ## Streams and chunks

A block says its length twice, the second time with all bits turned over.  Only the last block of a
stream is marked as such.
-/

/-- The largest number of bytes in a stored block. -/
def blockSize : Nat := 65535

/-- A stored block. -/
def block (isLast : Bool) (bytes : List UInt8) : List UInt8 :=
  (if isLast then 1 else 0) :: littleEndian16 bytes.length
    ++ littleEndian16 (blockSize - bytes.length) ++ bytes

/-- Bytes as stored blocks. -/
def blocks (bytes : List UInt8) : List UInt8 :=
  if bytes.length ≤ blockSize then block true bytes
  else block false (bytes.take blockSize) ++ blocks (bytes.drop blockSize)
termination_by bytes.length
decreasing_by
  simp only [List.length_drop]
  have : 0 < blockSize := by decide
  omega

/-- Bytes as a stream. -/
def stream (bytes : List UInt8) : List UInt8 :=
  [0x78, 0x01] ++ blocks bytes ++ bigEndian 4 (streamSum bytes)

/-- A chunk: its length, its kind, its bytes and their checksum. -/
def chunk (kind : String) (bytes : List UInt8) : List UInt8 :=
  let body := kind.toUTF8.toList ++ bytes
  bigEndian 4 bytes.length ++ body ++ bigEndian 4 (crc body).toNat

/-- The bytes with which every file starts. -/
def signature : List UInt8 := [0x89, 0x50, 0x4e, 0x47, 0x0d, 0x0a, 0x1a, 0x0a]

/-- The size of an image and the form of its pixels: eight bits of gray. -/
def header (i : Image) : List UInt8 :=
  bigEndian 4 i.width ++ bigEndian 4 i.height ++ [8, 0, 0, 0, 0]

end Cellular.Png

namespace Cellular

/-- The file of an image. -/
def Image.png (i : Image) : ByteArray :=
  (Png.signature ++ Png.chunk "IHDR" (Png.header i)
    ++ Png.chunk "IDAT" (Png.stream (i.rows.flatMap (0 :: ·)))
    ++ Png.chunk "IEND" []).toByteArray

end Cellular
