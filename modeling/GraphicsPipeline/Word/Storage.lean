import GraphicsPipeline.Word.Basic

/-!
# Byte storage

Reading and writing parts of a byte array. An access that leaves the array gives nothing.
-/

namespace GraphicsPipeline

/-- Four bytes: the colour or the depth of one pixel. -/
abbrev Texel := Vec4 UInt8

namespace Storage

def zeroed (size : Nat) : ByteArray :=
  size.fold (fun _ _ storage => storage.push 0) (ByteArray.emptyWithCapacity size)

def ofBytes (bytes : Bytes) : ByteArray := ⟨bytes.toArray⟩

def toBytes (storage : ByteArray) : Bytes := storage.data.toList

/-- The texel at an index that counts texels. -/
def texel? (storage : ByteArray) (i : Nat) : Option Texel :=
  if h : 4 * i + 3 < storage.size then
    some ⟨storage[4 * i], storage[4 * i + 1], storage[4 * i + 2], storage[4 * i + 3]⟩
  else none

/-- The array with another texel at an index that counts texels. -/
def setTexel? (storage : ByteArray) (i : Nat) (t : Texel) : Option ByteArray :=
  if 4 * i + 3 < storage.size then
    some ((((storage.set! (4 * i) t.x).set! (4 * i + 1) t.y).set! (4 * i + 2) t.z).set!
      (4 * i + 3) t.w)
  else none

/-- The word that starts at a byte. -/
def word? (storage : ByteArray) (i : Nat) : Option UInt32 :=
  if h : i + 3 < storage.size then
    some (LittleEndian.decode storage[i] storage[i + 1] storage[i + 2] storage[i + 3])
  else none

/-- The words that follow one another from a byte on. -/
def words? (storage : ByteArray) (i count : Nat) : Option (List UInt32) :=
  (List.range count).mapM fun k => word? storage (i + 4 * k)

/-- The array with the given bytes from an offset on, if they fit. -/
def overwrite? (storage : ByteArray) (offset : Nat) (bytes : ByteArray) : Option ByteArray :=
  if offset + bytes.size ≤ storage.size then
    some (bytes.copySlice 0 storage offset bytes.size)
  else none

end Storage

namespace Texel

/-- The four bytes of a word, the least significant first. -/
def ofWord (w : UInt32) : Texel :=
  ⟨w.toUInt8, (w >>> 8).toUInt8, (w >>> 16).toUInt8, (w >>> 24).toUInt8⟩

def toWord (t : Texel) : UInt32 := LittleEndian.decode t.x t.y t.z t.w

end Texel

end GraphicsPipeline
