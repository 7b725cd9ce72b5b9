import GraphicsPipeline.Number.Coordinate
import GraphicsPipeline.Vertex.Stage

/-!
# Triangles on the screen

Three shaded vertices are divided by their last coordinate and moved to the screen, where `x` grows
to the right and `y` downwards, one unit per pixel. A triangle tells which pixel centres it covers
and with which weights its corners count there. Everything is written over `Coordinate`.
-/

namespace GraphicsPipeline

structure Point (α : Type) where
  x : α
  y : α
deriving DecidableEq, Inhabited

/-- One thing for each corner of a triangle. -/
structure Corners (α : Type) where
  a : α
  b : α
  c : α
deriving DecidableEq, Inhabited

namespace Corners

variable {α β : Type}

def map (f : α → β) (t : Corners α) : Corners β := ⟨f t.a, f t.b, f t.c⟩

/-- The corners run through the other way round. -/
def flip (t : Corners α) : Corners α := ⟨t.a, t.c, t.b⟩

def all (p : α → Bool) (t : Corners α) : Bool := p t.a && p t.b && p t.c

end Corners

/-- A vertex on the screen. -/
structure Corner (α : Type) where
  point : Point α
  /-- The depth, after the division. -/
  z : α
  /-- The inverse of the last coordinate. -/
  invW : α
  varyings : Array α
deriving DecidableEq, Inhabited

/-- The pixels that a triangle is looked for in: the lower bounds belong to them and the upper ones
do not. -/
structure Bounds where
  minX : UInt32
  maxX : UInt32
  minY : UInt32
  maxY : UInt32
deriving DecidableEq, Inhabited

/-- A triangle on the screen, its corners clockwise as one sees it. -/
structure Triangle (α : Type) where
  corners : Corners (Corner α)
  /-- For each corner, whether the opposite edge is a top or a left edge. -/
  topLeft : Corners Bool
  /-- Twice the area. -/
  area : α
  bounds : Bounds
deriving DecidableEq, Inhabited

variable {α : Type} [Coordinate α]

/-- Twice the area of the triangle of two points and a third; it is positive where the third lies
to the right of the way from the first to the second. -/
def edge (a b p : Point α) : α := (b.x - a.x) * (p.y - a.y) - (b.y - a.y) * (p.x - a.x)

/-- The way from `a` to `b` runs along the top of a triangle to its right, or up its left side. -/
def isTopLeft (a b : Point α) : Bool :=
  let dx := b.x - a.x
  let dy := b.y - a.y
  (Coordinate.isZero dy && decide (Coordinate.zero < dx)) || decide (dy < Coordinate.zero)

namespace Corner

/-- The vertex divided by its last coordinate and moved to a screen of the given size. -/
def ofVertex (width height : UInt32) (v : ShadedVertex α) : Corner α :=
  let w := v.clip.w
  { point :=
      ⟨(v.clip.x / w + Coordinate.one) / Coordinate.two * Coordinate.ofUInt32 width,
        (Coordinate.one - v.clip.y / w) / Coordinate.two * Coordinate.ofUInt32 height⟩
    z := v.clip.z / w
    invW := Coordinate.one / w
    varyings := v.varyings }

end Corner

namespace Bounds

/-- The first and the last column or row, for three coordinates and the size of the screen. -/
def span (a b c : α) (size : UInt32) : UInt32 × UInt32 :=
  let clip := fun x : α =>
    Coordinate.toUInt32 (Coordinate.clamp x Coordinate.zero (Coordinate.ofUInt32 size))
  (clip (Coordinate.floor (Coordinate.min (Coordinate.min a b) c)),
    clip (Coordinate.ceil (Coordinate.max (Coordinate.max a b) c)))

/-- The bounds of three points on a screen. -/
def ofPoints (t : Corners (Point α)) (width height : UInt32) : Bounds :=
  let (minX, maxX) := span t.a.x t.b.x t.c.x width
  let (minY, maxY) := span t.a.y t.b.y t.c.y height
  ⟨minX, maxX, minY, maxY⟩

def isEmpty (b : Bounds) : Bool := b.maxX ≤ b.minX || b.maxY ≤ b.minY

end Bounds

namespace Triangle

/-- The triangle of three corners whose area is known. -/
def ofCorners (corners : Corners (Corner α)) (area : α) (width height : UInt32) :
    Option (Triangle α) :=
  if Coordinate.zero < area ∧ Coordinate.isFinite area then
    let p := corners.map Corner.point
    let bounds := Bounds.ofPoints p width height
    if bounds.isEmpty then none
    else some ⟨corners, ⟨isTopLeft p.b p.c, isTopLeft p.c p.a, isTopLeft p.a p.b⟩, area, bounds⟩
  else none

/-- The triangle of three vertices, in either order, on a screen of the given size. There is none
if a vertex does not lie in front of the camera, if the three lie on a line, or if they miss the
screen. -/
def ofVertices (v : Corners (ShadedVertex α)) (width height : UInt32) : Option (Triangle α) :=
  if v.all fun v => Coordinate.zero < v.clip.w then
    let corners := v.map (Corner.ofVertex width height)
    let area := edge corners.a.point corners.b.point corners.c.point
    if area < Coordinate.zero then ofCorners corners.flip (-area) width height
    else ofCorners corners area width height
  else none

def center (x y : UInt32) : Point α :=
  let half : α := Coordinate.one / Coordinate.two
  ⟨Coordinate.ofUInt32 x + half, Coordinate.ofUInt32 y + half⟩

/-- The weights of the corners at the centre of a pixel, if the triangle covers it. A centre on an
edge is covered if the edge is a top or a left one. -/
def cover (t : Triangle α) (x y : UInt32) : Option (Corners α) :=
  let p : Point α := center x y
  let q := t.corners.map Corner.point
  let w : Corners α := ⟨edge q.b q.c p, edge q.c q.a p, edge q.a q.b p⟩
  let inside := fun (w : α) (topLeft : Bool) =>
    decide (Coordinate.zero < w) || (Coordinate.isZero w && topLeft)
  if inside w.a t.topLeft.a && inside w.b t.topLeft.b && inside w.c t.topLeft.c then
    some (w.map (· / t.area))
  else none

/-- The weights of the corners in space, for their weights on the screen. -/
def perspective (t : Triangle α) (b : Corners α) : Corners α :=
  let p : Corners α :=
    ⟨b.a * t.corners.a.invW, b.b * t.corners.b.invW, b.c * t.corners.c.invW⟩
  let sum := p.a + p.b + p.c
  p.map (· / sum)

def depth (t : Triangle α) (b : Corners α) : α :=
  let q : Corners α :=
    ⟨b.a * t.corners.a.invW, b.b * t.corners.b.invW, b.c * t.corners.c.invW⟩
  let numerator :=
    Coordinate.zero + q.a * t.corners.a.z + q.b * t.corners.b.z + q.c * t.corners.c.z
  let denominator := Coordinate.zero + q.a + q.b + q.c
  numerator / denominator

/-- The interpolated varying number at a place, for the weights of the corners in space. -/
def varying? (t : Triangle α) (p : Corners α) (i : Nat) : Option α := do
  let a ← t.corners.a.varyings[i]?
  let b ← t.corners.b.varyings[i]?
  let c ← t.corners.c.varyings[i]?
  return p.a * a + p.b * b + p.c * c

end Triangle

end GraphicsPipeline
