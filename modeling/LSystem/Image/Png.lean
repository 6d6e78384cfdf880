import LSystem.Media.Canvas

/-!
# Pictures as files

A canvas as a PNG file with eight bits for each of red, green, blue and opacity.  The rows are stored
as they are, without compression, in blocks of at most 65535 bytes.
-/

namespace LSystem.Png

/-- A number as four bytes, the highest first. -/
def bigEndian (n : UInt32) : ByteArray :=
  ⟨#[(n >>> 24).toUInt8, (n >>> 16).toUInt8, (n >>> 8).toUInt8, n.toUInt8]⟩

/-- A number below 65536 as two bytes, the lowest first. -/
def littleEndian (n : Nat) : ByteArray :=
  ⟨#[UInt8.ofNat (n % 256), UInt8.ofNat (n / 256)]⟩

/-! ## Checksums -/

/-- One bit of a remainder of the cyclic redundancy check. -/
def crcBit (r : UInt32) : UInt32 :=
  if r &&& 1 = 1 then (r >>> 1) ^^^ 0xedb88320 else r >>> 1

def crcByte (r : UInt32) (b : UInt8) : UInt32 :=
  Nat.repeat crcBit 8 (r ^^^ b.toUInt32)

/-- The cyclic redundancy check of some bytes. -/
def crc (bytes : ByteArray) : UInt32 :=
  bytes.foldl crcByte 0xffffffff ^^^ 0xffffffff

/-- The sum of the bytes and the sum of these sums, both modulo 65521. -/
def adler (bytes : ByteArray) : UInt32 :=
  let (a, b) := bytes.foldl
    (fun (a, b) byte =>
      let a := (a + byte.toUInt32) % 65521
      (a, (b + a) % 65521))
    ((1 : UInt32), (0 : UInt32))
  (b <<< 16) ||| a

/-! ## The file -/

def maxBlock : Nat := 65535

/-- Bytes as stored blocks, the last one marked.  `fuel` bounds the count of blocks. -/
def storedBlocks : (fuel : Nat) → ByteArray → ByteArray → ByteArray
  | 0, _, out => out
  | fuel + 1, bytes, out =>
    let size := min bytes.size maxBlock
    let last := bytes.size ≤ maxBlock
    let out := out ++ ⟨#[if last then 1 else 0]⟩ ++ littleEndian size ++
      littleEndian (maxBlock - size) ++ bytes.extract 0 size
    if last then out else storedBlocks fuel (bytes.extract size bytes.size) out

def stored (bytes : ByteArray) : ByteArray :=
  storedBlocks (bytes.size / maxBlock + 1) bytes ⟨#[0x78, 0x01]⟩ ++ bigEndian (adler bytes)

/-- A chunk of the file: length, kind, contents and check. -/
def chunk (kind : String) (contents : ByteArray) : ByteArray :=
  let body := kind.toUTF8 ++ contents
  bigEndian (UInt32.ofNat contents.size) ++ body ++ bigEndian (crc body)

/-- The rows of a canvas, each after a byte that says that it is not filtered. -/
def rows (c : Canvas) : ByteArray :=
  Nat.fold c.height
    (fun y _ out =>
      Nat.fold c.width
        (fun x _ out =>
          let color := c.pixels.getD (y * c.width + x) default
          (((out.push color.red).push color.green).push color.blue).push color.opacity)
        (out.push 0))
    .empty

def encode (c : Canvas) : ByteArray :=
  let header := bigEndian (UInt32.ofNat c.width) ++ bigEndian (UInt32.ofNat c.height) ++
    ⟨#[8, 6, 0, 0, 0]⟩
  ⟨#[0x89, 0x50, 0x4e, 0x47, 0x0d, 0x0a, 0x1a, 0x0a]⟩ ++ chunk "IHDR" header ++
    chunk "IDAT" (stored (rows c)) ++ chunk "IEND" .empty

end LSystem.Png
