import GraphicsPipeline.Raster.Triangle
import Mathlib.Data.Rat.Floor

/-!
# Coverage

Which pixels the triangles of a mesh cover, and how the points of the mesh lie to one another. The
geometry is read over the rational numbers, where no operation rounds.
-/

namespace GraphicsPipeline

/-! ### Exact coordinates -/

instance : Coordinate ℚ where
  decideLt := inferInstance
  isZero x := x = 0
  isFinite _ := true
  floor x := x.floor
  ceil x := x.ceil
  ofUInt32 n := n.toNat
  toUInt32 x := UInt32.ofNat (min x.floor.toNat (UInt32.size - 1))

/-! ### Covered pixels -/

namespace Corners

variable {α : Type}

def toList (t : Corners α) : List α := [t.a, t.b, t.c]

/-- A triangle is set up from the three vertices, and it covers the centre of the pixel. -/
def covers [Coordinate α] (v : Corners (ShadedVertex α)) (width height x y : UInt32) : Bool :=
  (Triangle.ofVertices v width height).any fun t => (t.cover x y).isSome

end Corners

/-- The place of a vertex on a screen of the given size. -/
def ShadedVertex.place {α : Type} [Coordinate α] (width height : UInt32) (v : ShadedVertex α) :
    Point α :=
  (Corner.ofVertex width height v).point

namespace Point

/-- The point is a mean of three others, in which all of them count. -/
def StrictlyInside (d a b c : Point ℚ) : Prop :=
  ∃ i j k : ℚ, 0 < i ∧ 0 < j ∧ 0 < k ∧ i + j + k = 1 ∧
    d.x = i * a.x + j * b.x + k * c.x ∧ d.y = i * a.y + j * b.y + k * c.y

/-- The point lies on the line through two others, strictly between them. -/
def Between (p a b : Point ℚ) : Prop :=
  ∃ s : ℚ, 0 < s ∧ s < 1 ∧ p.x = (1 - s) * a.x + s * b.x ∧ p.y = (1 - s) * a.y + s * b.y

/-- Two points lie strictly on opposite sides of the line through `a` and `b`. -/
def Opposite (a b c d : Point ℚ) : Prop := edge a b c * edge a b d < 0

instance (a b c d : Point ℚ) : Decidable (a.Opposite b c d) :=
  inferInstanceAs (Decidable (_ < _))

end Point

end GraphicsPipeline
