import GraphicsPipeline.Raster.Fragment
import GraphicsPipeline.Stepwise

/-!
# Bands

A band is some rows of the target with their colours and depths. It is painted on its own: every
triangle is walked in the order of submission, so that what a pixel shows in the end depends on the
triangles alone.
-/

namespace GraphicsPipeline

/-- Rows of the target, from `y₀` on. -/
structure Band where
  y₀ : UInt32
  rows : UInt32
  width : UInt32
  color : ByteArray
  /-- The depths, where depth is tested. -/
  depth : Option ByteArray
deriving Inhabited

/-- A band that is being painted, and the machine that shades its pixels. -/
structure Painter where
  machine : Machine
  band : Band
deriving Inhabited

namespace Band

/-- The place of a pixel among the texels of the band. -/
def index (b : Band) (x y : UInt32) : Nat := (y.toNat - b.y₀.toNat) * b.width.toNat + x.toNat

/-- The stored depth of a pixel, where depth is tested, hides the given one. -/
def hides (b : Band) (i : Nat) (d : UInt32) : Except Fault Bool :=
  match b.depth with
  | none => .ok false
  | some depth => do
    let stored ← orAbort (Storage.texel? depth i)
    return stored.toWord < d

/-- The band with another colour, and where depth is tested another depth, at one pixel. -/
def write (b : Band) (i : Nat) (color : Texel) (d : UInt32) : Except Fault Band :=
  let ⟨y₀, rows, width, colors, depths⟩ := b
  match Storage.setTexel? colors i color with
  | none => .error .aborted
  | some colors =>
    match depths with
    | none => .ok ⟨y₀, rows, width, colors, none⟩
    | some depths =>
      match Storage.setTexel? depths i (.ofWord d) with
      | none => .error .aborted
      | some depths => .ok ⟨y₀, rows, width, colors, some depths⟩

end Band

namespace Painter

/-- Paints one pixel of a triangle: nothing happens where the triangle shows nothing, or where
something nearer is stored. -/
def pixel (s : FragmentStage) (t : Triangle Binary32) (y x : UInt32) : Step Painter := fun p =>
  match t.fragment? x y with
  | none => (p, .ok ())
  | some (weights, d) =>
    let i := p.band.index x y
    match p.band.hides i d with
    | .error fault => (p, .error fault)
    | .ok true => (p, .ok ())
    | .ok false =>
      let ⟨machine, band⟩ := p
      match s.shade t (t.perspective weights) machine with
      | (machine, .error fault) => (⟨machine, band⟩, .error fault)
      | (machine, .ok color) =>
        match band.write i color d with
        | .error fault => (⟨machine, band⟩, .error fault)
        | .ok band => (⟨machine, band⟩, .ok ())

def row (s : FragmentStage) (t : Triangle Binary32) (y : UInt32) : Step Painter :=
  Step.upwards (pixel s t y) (t.bounds.maxX.toNat - t.bounds.minX.toNat) t.bounds.minX

/-- Paints the part of a triangle that lies within the rows from `first` to below `last`. -/
def triangle (s : FragmentStage) (first last : UInt32) (t : Triangle Binary32) : Step Painter :=
  let start := max t.bounds.minY first
  let stop := min t.bounds.maxY last
  Step.upwards (row s t) (stop.toNat - start.toNat) start

def paint (s : FragmentStage) (ts : List (Triangle Binary32)) : Step Painter := fun p =>
  match Checked.add32? p.band.y₀ p.band.rows with
  | none => (p, .error .aborted)
  | some last => Step.each (triangle s p.band.y₀ last) ts p

end Painter

end GraphicsPipeline
