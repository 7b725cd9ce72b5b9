import GraphicsPipeline.Raster.Band

/-!
# Painting a target

The target is cut into bands of rows, each band is painted on its own, and the bands are put
together again. The number of rows in a band is a 64-bit word; its product with the length of a row
must be one too, and within a band it counts modulo the size of a 32-bit word. Two other ways to
paint a target are the whole of it at once, as a single band, and band after band in an order of
one's choice.
-/

namespace GraphicsPipeline

/-- The bytes of a target, and of its depths where depth is tested. -/
structure Target where
  width : UInt32
  color : ByteArray
  depth : Option ByteArray
deriving Inhabited

namespace Target

/-- The pieces of a byte array of a given length, the last of which may be shorter. -/
def pieces (length : Nat) (data : ByteArray) : List ByteArray :=
  (List.range ((data.size + length - 1) / length)).map fun i =>
    data.extract (i * length) ((i + 1) * length)

def join (pieces : List ByteArray) : ByteArray := pieces.foldl (· ++ ·) ByteArray.empty

def height (t : Target) : UInt32 := UInt32.ofNat (t.color.size / (t.width.toNat * 4))

/-- The rows of each band but the last, at least one. -/
def rowsPerBand (bandRows : UInt64) : UInt64 := max bandRows 1

/-- The length of a band in bytes, a 64-bit word. -/
def bandLength? (t : Target) (bandRows : UInt64) : Option UInt64 :=
  Checked.mul64? (t.width.toUInt64 * 4) (rowsPerBand bandRows)

/-- One band of the target: its place among the bands, its colours and its depths. -/
def band (t : Target) (bandRows : UInt64) (i : Nat) (color : ByteArray)
    (depth : Option ByteArray) : Except Fault Band := do
  let rows := rowsPerBand bandRows
  let y₀ := UInt32.ofNat (i * rows.toNat)
  let left ← orAbort (Checked.sub32? t.height y₀)
  return ⟨y₀, min rows.toUInt32 left, t.width, color, depth⟩

def bands (t : Target) (bandRows : UInt64) : Except Fault (List Band) := do
  let length ← orAbort (t.bandLength? bandRows)
  let depths := t.depth.map (pieces length.toNat)
  (pieces length.toNat t.color).zipIdx.mapM fun (color, i) =>
    t.band bandRows i color (depths.bind fun d => d[i]?)

/-- The target put together from its bands. -/
def ofBands (width : UInt32) (bands : List Band) (hasDepth : Bool) : Target where
  width := width
  color := join (bands.map Band.color)
  depth := if hasDepth then some (join (bands.map fun b => b.depth.getD ByteArray.empty)) else none

/-- Paints bands one after another on one machine, up to the first that fails. -/
def paintBands (s : FragmentStage) (ts : List (Triangle Binary32)) (m : Machine) :
    List Band → List Band × Except Fault Unit
  | [] => ([], .ok ())
  | b :: rest =>
    match Painter.paint s ts ⟨m, b⟩ with
    | (p, .error fault) => (p.band :: rest, .error fault)
    | (p, .ok ()) =>
      let (rest, result) := paintBands s ts p.machine rest
      (p.band :: rest, result)

/-- Paints triangles on the target, band by band. What was painted before a failure stays. -/
def paint (s : FragmentStage) (ts : List (Triangle Binary32)) (bandRows : UInt64) : Step Target :=
  fun t =>
    match t.bands bandRows with
    | .error fault => (t, .error fault)
    | .ok bands =>
      let (bands, result) := paintBands s ts .new bands
      (ofBands t.width bands t.depth.isSome, result)

/-! ### One pass and any order -/

def whole (t : Target) : Band := ⟨0, t.height, t.width, t.color, t.depth⟩

/-- Paints triangles on the whole target, each of them once. -/
def paintWhole (s : FragmentStage) (ts : List (Triangle Binary32)) : Step Target := fun t =>
  let (p, result) := Painter.paint s ts ⟨.new, t.whole⟩
  ({ t with color := p.band.color, depth := p.band.depth }, result)

/-- Paints the bands at given places, one after another on one machine, up to the first that
fails. A place where there is no band is passed over. -/
def paintPlaces (s : FragmentStage) (ts : List (Triangle Binary32)) (m : Machine)
    (bands : List Band) : (places : List Nat) → List Band × Except Fault Unit
  | [] => (bands, .ok ())
  | i :: places =>
    match bands[i]? with
    | none => paintPlaces s ts m bands places
    | some b =>
      match Painter.paint s ts ⟨m, b⟩ with
      | (p, .error fault) => (bands.set i p.band, .error fault)
      | (p, .ok ()) => paintPlaces s ts p.machine (bands.set i p.band) places

/-- Paints triangles on the target, its bands in the given order. -/
def paintInOrder (s : FragmentStage) (ts : List (Triangle Binary32)) (bandRows : UInt64)
    (places : List Nat) : Step Target := fun t =>
  match t.bands bandRows with
  | .error fault => (t, .error fault)
  | .ok bands =>
    let (bands, result) := paintPlaces s ts .new bands places
    (ofBands t.width bands t.depth.isSome, result)

end Target

end GraphicsPipeline
