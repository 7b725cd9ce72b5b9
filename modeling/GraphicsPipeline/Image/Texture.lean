import GraphicsPipeline.Error
import GraphicsPipeline.Number.Binary32
import GraphicsPipeline.Word.Storage

/-!
# Textures

Images of four bytes a pixel, row after row from the top. As a colour target a texel is red, green,
blue and opacity, each of them a number between zero and one that is kept as a byte; as a depth
target it is a word. What is cleared is a rectangle of pixels. How much storage there is for them is
up to an allocator.
-/

namespace GraphicsPipeline

/-! ### Colours -/

/-- Red, green, blue and opacity, numbers between zero and one. -/
abbrev Color := Vec4 Binary32

namespace Color

/-- A channel as a byte: the nearest of 256 steps, a half going up. A NaN is the lowest step. -/
def packChannel (x : Binary32) : UInt8 :=
  let scaled := x.clamp .zero .one * ⟨0x437f0000⟩
  UInt8.ofNat (scaled.saturate Dyadic.roundAway 255)

def unpackChannel (b : UInt8) : Binary32 := .ofUInt32 b.toUInt32 / ⟨0x437f0000⟩

def pack (c : Color) : Texel := c.map packChannel

def unpack (t : Texel) : Color := t.map unpackChannel

end Color

/-! ### Rectangles -/

/-- The pixels with `minX ≤ x < maxX` and `minY ≤ y < maxY`: the lower bounds belong to them and the
upper bounds do not. -/
structure Rect where
  minX : UInt32
  maxX : UInt32
  minY : UInt32
  maxY : UInt32
deriving DecidableEq, Repr, Inhabited

namespace Rect

def full (width height : UInt32) : Rect := ⟨0, width, 0, height⟩

def isEmpty (r : Rect) : Bool := r.maxX ≤ r.minX || r.maxY ≤ r.minY

def Contains (r : Rect) (x y : UInt32) : Prop := r.minX ≤ x ∧ x < r.maxX ∧ r.minY ≤ y ∧ y < r.maxY

instance (r : Rect) (x y : UInt32) : Decidable (r.Contains x y) :=
  inferInstanceAs (Decidable (_ ∧ _))

def refusal (r : Rect) : Error := .badRect r.minX r.maxX r.minY r.maxY

end Rect

/-! ### Storage -/

/-- What hands out storage, known by the numbers of bytes that it grants. -/
class Allocator where
  grants : Nat → Bool

/-- The allocator of the programs that are run: it grants less than `2 ^ 48` bytes. -/
instance Allocator.standard : Allocator where
  grants size := size < 0x1000000000000

def reserve [Allocator] (size : Nat) : Except Error Unit :=
  if Allocator.grants size then .ok () else .error (.outOfMemory size)

def allocate [Allocator] (size : Nat) : Except Error ByteArray := do
  reserve size
  return Storage.zeroed size

/-! ### Images -/

structure Texture where
  width : UInt32
  height : UInt32
  data : ByteArray
deriving Inhabited

namespace Texture

/-- There are four bytes for each pixel, and at least one pixel. -/
def WellSized (t : Texture) : Prop :=
  0 < t.width.toNat ∧ 0 < t.height.toNat ∧ t.data.size = t.width.toNat * t.height.toNat * 4

instance (t : Texture) : Decidable t.WellSized := inferInstanceAs (Decidable (_ ∧ _))

/-- An image with all bytes zero. Where the number of bytes is no word of 64 bits, the largest such
word is reported. -/
def new [Allocator] (width height : UInt32) : Except Error Texture := do
  if width = 0 ∨ height = 0 then throw (.badTextureSize width height)
  let size := width.toNat * height.toNat * 4
  if size < UInt64.size then return ⟨width, height, ← allocate size⟩
  else throw (.outOfMemory (UInt64.size - 1))

/-- An image of given bytes, which have to be as many as the pixels take. -/
def view (width height : UInt32) (data : ByteArray) : Except Fault Texture :=
  if data.size = width.toNat * height.toNat * 4 then .ok ⟨width, height, data⟩
  else .error .aborted

def stride (t : Texture) : Nat := t.width.toNat * 4

/-- The place of a pixel among the texels. Nothing keeps `x` in its row. -/
def index (t : Texture) (x y : UInt32) : Nat := y.toNat * t.width.toNat + x.toNat

def texel (t : Texture) (x y : UInt32) : Except Fault Texel :=
  orAbort (Storage.texel? t.data (t.index x y))

def depth (t : Texture) (x y : UInt32) : Except Fault UInt32 :=
  return (← t.texel x y).toWord

/-! ### Sampling -/

/-- The row or column that a coordinate falls into: zero is the first edge and one the last, what
lies outside goes to the nearer edge, and a NaN to the first. -/
def pick (t : Binary32) (size : UInt32) : Except Fault UInt32 := do
  let t := if t.isNaN then .zero else t.clamp .zero .one
  let last ← orAbort (if size = 0 then none else some (size - 1))
  return min (t * .ofUInt32 size).floor.toUInt32 last

/-- The colour at a pair of coordinates, without interpolation. -/
def sample (t : Texture) (u v : Binary32) : Except Fault Color := do
  let x ← pick u t.width
  let y ← pick v t.height
  return Color.unpack (← t.texel x y)

/-! ### Filling -/

/-- The data with `count` texels replaced, from a place on. -/
def fillRow (data : ByteArray) (start : Nat) (t : Texel) : (count : Nat) → Except Fault ByteArray
  | 0 => .ok data
  | count + 1 => do
    let data ← orAbort (Storage.setTexel? data start t)
    fillRow data (start + 1) t count

/-- The data with `columns` texels replaced in each of `rows` rows, from a place on; `width` texels
lie between a place and the one below. -/
def fillRows (data : ByteArray) (width start columns : Nat) (t : Texel) :
    (rows : Nat) → Except Fault ByteArray
  | 0 => .ok data
  | rows + 1 => do
    let data ← fillRow data start t columns
    fillRows data width (start + width) columns t rows

/-- The image with one texel at every pixel of a rectangle. The rectangle must not reach beyond the
image on the right or below, even if it is empty. -/
def fill (t : Texture) (texel : Texel) (r : Rect) : Except Fault Texture := do
  if t.width < r.maxX ∨ t.height < r.maxY then throw (.refused r.refusal)
  if r.isEmpty then return t
  let ⟨width, height, data⟩ := t
  let start := r.minY.toNat * width.toNat + r.minX.toNat
  let columns := r.maxX.toNat - r.minX.toNat
  let rows := r.maxY.toNat - r.minY.toNat
  return ⟨width, height, ← fillRows data width.toNat start columns texel rows⟩

def clearColor (t : Texture) (c : Color) (r : Rect) : Except Fault Texture := t.fill c.pack r

def clearDepth (t : Texture) (d : UInt32) (r : Rect) : Except Fault Texture := t.fill (.ofWord d) r

end Texture

end GraphicsPipeline
