import GraphicsPipeline.Raster.Coverage

/-!
# Surfaces

A point of a triangle is a mean of its corners. On the screen the mean is that of two coordinates.
In space, before the division, it is that of all four, and of the numbers that are interpolated. A
point in space is seen at the pixel to whose centre it is divided and moved.
-/

namespace GraphicsPipeline

namespace Corners

def sum (q : Corners ℚ) : ℚ := q.a + q.b + q.c

/-- The sum of three numbers, each times its weight. -/
def mean (weights q : Corners ℚ) : ℚ := weights.a * q.a + weights.b * q.b + weights.c * q.c

/-- Weights of a mean: none of them is negative, and they come to one. -/
structure IsWeighting (weights : Corners ℚ) : Prop where
  a : 0 ≤ weights.a
  b : 0 ≤ weights.b
  c : 0 ≤ weights.c
  sum : weights.sum = 1

end Corners

namespace Point

def mean (weights : Corners ℚ) (q : Corners (Point ℚ)) : Point ℚ :=
  ⟨weights.mean (q.map Point.x), weights.mean (q.map Point.y)⟩

/-- The point lies inside the triangle of three others or on one of its edges. -/
def Within (p : Point ℚ) (q : Corners (Point ℚ)) : Prop :=
  ∃ weights : Corners ℚ, weights.IsWeighting ∧ p = mean weights q

end Point

namespace ShadedVertex

/-- The depth of the vertex after the division. -/
def depth (v : ShadedVertex ℚ) : ℚ := v.clip.z / v.clip.w

/-- The mean of three vertices in space, with the means of the numbers that all of them have. -/
def mean (weights : Corners ℚ) (v : Corners (ShadedVertex ℚ)) : ShadedVertex ℚ where
  clip :=
    ⟨weights.mean (v.map (·.clip.x)), weights.mean (v.map (·.clip.y)),
      weights.mean (v.map (·.clip.z)), weights.mean (v.map (·.clip.w))⟩
  varyings :=
    Array.zipWith (· + ·)
      (Array.zipWith (· + ·) (v.a.varyings.map (weights.a * ·)) (v.b.varyings.map (weights.b * ·)))
      (v.c.varyings.map (weights.c * ·))

/-- The vertex lies in front of the camera and is seen at the centre of the pixel. -/
def SeenAt (v : ShadedVertex ℚ) (width height x y : UInt32) : Prop :=
  0 < v.clip.w ∧ v.place width height = ⟨x.toNat + 1 / 2, y.toNat + 1 / 2⟩

instance (v : ShadedVertex ℚ) (width height x y : UInt32) :
    Decidable (v.SeenAt width height x y) :=
  inferInstanceAs (Decidable (_ ∧ _))

/-- The vertex lies in the plane of three others. -/
def OnPlane (p : ShadedVertex ℚ) (v : Corners (ShadedVertex ℚ)) : Prop :=
  ∃ weights, p.clip = (mean weights v).clip

/-- The vertex lies in the triangle of three others. -/
def OnTriangle (p : ShadedVertex ℚ) (v : Corners (ShadedVertex ℚ)) : Prop :=
  ∃ weights, weights.IsWeighting ∧ p.clip = (mean weights v).clip

end ShadedVertex

/-- The three vertices have the same last coordinate, or they have the same depth. -/
def Corners.Level (v : Corners (ShadedVertex ℚ)) : Prop :=
  v.a.clip.w = v.b.clip.w ∧ v.b.clip.w = v.c.clip.w ∨
    v.a.depth = v.b.depth ∧ v.b.depth = v.c.depth

namespace Triangle

/-- How the inverse last coordinates and the depths of the corners vary together, where the corners
have the given weights on the screen. -/
def skew (t : Triangle ℚ) (weights : Corners ℚ) : ℚ :=
  let inv := t.corners.map Corner.invW
  let z := t.corners.map Corner.z
  (weights.a * weights.b * ((inv.a - inv.b) * (z.a - z.b)) +
      weights.b * weights.c * ((inv.b - inv.c) * (z.b - z.c)) +
      weights.c * weights.a * ((inv.c - inv.a) * (z.c - z.a))) /
    weights.mean inv

end Triangle

end GraphicsPipeline
