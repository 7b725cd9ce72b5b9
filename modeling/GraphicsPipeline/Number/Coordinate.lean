import GraphicsPipeline.Number.Binary32

/-!
# Coordinates

What the geometry of triangles asks of its numbers. The geometry is written once over this class:
it runs on single precision numbers, and it can be read over any ordered field with a floor.
-/

namespace GraphicsPipeline

/-- Numbers in which vertices are given and triangles are set up. -/
class Coordinate (α : Type) extends Add α, Sub α, Mul α, Div α, Neg α, LT α where
  decideLt : (x y : α) → Decidable (x < y)
  /-- The number is zero, of either sign. -/
  isZero : α → Bool
  /-- The number is neither infinite nor undefined. -/
  isFinite : α → Bool
  /-- The greatest integral number that is not above. -/
  floor : α → α
  /-- The least integral number that is not below. -/
  ceil : α → α
  /-- A word as a number, as near as the numbers allow. -/
  ofUInt32 : UInt32 → α
  /-- The integral part as a word; what does not fit goes to the nearer end. -/
  toUInt32 : α → UInt32

namespace Coordinate

variable {α : Type} [Coordinate α]

instance (x y : α) : Decidable (x < y) := decideLt x y

@[inline] def zero : α := ofUInt32 0

@[inline] def one : α := ofUInt32 1

@[inline] def two : α := ofUInt32 2

def min (x y : α) : α := if y < x then y else x

def max (x y : α) : α := if x < y then y else x

/-- The number moved into `[low, high]`. -/
def clamp (x low high : α) : α := if x < low then low else if high < x then high else x

end Coordinate

instance : Coordinate Binary32 where
  decideLt := inferInstance
  isZero := Binary32.isZero
  isFinite := Binary32.isFinite
  floor := Binary32.floor
  ceil := Binary32.ceil
  ofUInt32 := Binary32.ofUInt32
  toUInt32 := Binary32.toUInt32

end GraphicsPipeline
