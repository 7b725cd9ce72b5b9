import GraphicsPipeline.Image.Texture

/-!
# Pictures as files

A picture in the format of portable network graphics: every chunk carries a check sum, and the rows
are kept in a stream of blocks that are not compressed.
-/

namespace GraphicsPipeline.Demo.Png

/-- A word as four bytes, the most significant first. -/
def bigEndian (w : UInt32) : ByteArray :=
  ⟨#[(w >>> 24).toUInt8, (w >>> 16).toUInt8, (w >>> 8).toUInt8, w.toUInt8]⟩

/-! ### Check sums -/

def cyclicBit (c : UInt32) : UInt32 :=
  if c &&& 1 = 1 then (c >>> 1) ^^^ 0xedb88320 else c >>> 1

def cyclicByte (c : UInt32) (b : UInt8) : UInt32 :=
  (List.range 8).foldl (fun c _ => cyclicBit c) (c ^^^ b.toUInt32)

def cyclicCheck (data : ByteArray) : UInt32 :=
  data.foldl cyclicByte 0xffffffff ^^^ 0xffffffff

/-- The sum of some bytes and the sum of its intermediate results, both modulo 65521. -/
def doubleSum (data : ByteArray) : UInt32 :=
  let (a, b) := data.foldl (fun (a, b) byte =>
    let a := (a + byte.toUInt32) % 65521
    (a, (b + a) % 65521)) ((1 : UInt32), (0 : UInt32))
  (b <<< 16) ||| a

/-! ### Chunks -/

/-- A chunk: its length, its kind, its data and the check of kind and data. -/
def chunk (kind : String) (data : ByteArray) : ByteArray :=
  let body := kind.toUTF8 ++ data
  bigEndian (UInt32.ofNat data.size) ++ body ++ bigEndian (cyclicCheck body)

def blockLength : Nat := 65535

/-- A block that is not compressed. -/
def storedBlock (data : ByteArray) (final : Bool) : ByteArray :=
  let length := UInt16.ofNat data.size
  let inverse := length ^^^ 0xffff
  ⟨#[if final then 1 else 0, length.toUInt8, (length >>> 8).toUInt8, inverse.toUInt8,
    (inverse >>> 8).toUInt8]⟩ ++ data

def stream (data : ByteArray) : ByteArray :=
  let count := max 1 ((data.size + blockLength - 1) / blockLength)
  let blocks := (List.range count).foldl (fun out i =>
    let block := data.extract (i * blockLength) ((i + 1) * blockLength)
    out ++ storedBlock block (i + 1 = count)) ⟨#[0x78, 0x01]⟩
  blocks ++ bigEndian (doubleSum data)

/-! ### Pictures -/

/-- The rows of a picture, each after a byte that says that it is not filtered. -/
def rows (t : Texture) : ByteArray :=
  (List.range t.height.toNat).foldl (fun out y =>
    out.push 0 ++ t.data.extract (y * t.stride) ((y + 1) * t.stride)) ByteArray.empty

/-- The file of a picture with red, green, blue and opacity of eight bits each. -/
def encode (t : Texture) : ByteArray :=
  let signature : ByteArray := ⟨#[0x89, 0x50, 0x4e, 0x47, 0x0d, 0x0a, 0x1a, 0x0a]⟩
  let header := bigEndian t.width ++ bigEndian t.height ++ ⟨#[8, 6, 0, 0, 0]⟩
  signature ++ chunk "IHDR" header ++ chunk "IDAT" (stream (rows t)) ++
    chunk "IEND" ByteArray.empty

end GraphicsPipeline.Demo.Png
