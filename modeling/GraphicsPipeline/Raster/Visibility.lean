import GraphicsPipeline.Raster.Fragment

/-!
# Visibility

What a pixel shows in the end, said without painting: of all fragments that triangles have there,
the nearest is seen, and of several as near the last.
-/

namespace GraphicsPipeline

def Bounds.Contains (b : Bounds) (x y : UInt32) : Prop :=
  b.minX ≤ x ∧ x < b.maxX ∧ b.minY ≤ y ∧ y < b.maxY

instance (b : Bounds) (x y : UInt32) : Decidable (b.Contains x y) :=
  inferInstanceAs (Decidable (_ ∧ _))

/-- What one triangle would show at a pixel. -/
structure Fragment where
  depth : UInt32
  color : Except Fault Texel

namespace Fragment

/-- The fragment of a triangle at a pixel within its bounds, shaded on a new machine. -/
def ofTriangle? (s : FragmentStage) (t : Triangle Binary32) (x y : UInt32) : Option Fragment :=
  if t.bounds.Contains x y then
    (t.fragment? x y).map fun (weights, d) => ⟨d, (s.shade t (t.perspective weights) .new).2⟩
  else none

/-- All fragments at a pixel, in the order of the triangles. -/
def listAt (s : FragmentStage) (ts : List (Triangle Binary32)) (x y : UInt32) : List Fragment :=
  ts.filterMap fun t => ofTriangle? s t x y

/-- The least of a stored depth and the depths of fragments. -/
def nearest (stored : UInt32) (fragments : List Fragment) : UInt32 :=
  (fragments.map depth).foldl min stored

/-- The fragment that is seen where depth is tested: the last of those as near as the nearest. -/
def seen? (stored : UInt32) (fragments : List Fragment) : Option Fragment :=
  (fragments.filter fun f => f.depth = nearest stored fragments).getLast?

/-- The fragment that is seen: without stored depths the last one. -/
def visible? (stored : Option UInt32) (fragments : List Fragment) : Option Fragment :=
  match stored with
  | none => fragments.getLast?
  | some stored => seen? stored fragments

end Fragment

/-- The colour of a pixel, and its depth where depth is tested. -/
structure Pixel where
  color : Texel
  depth : Option UInt32

namespace Pixel

/-- What a pixel becomes where there are fragments: the nearest depth is kept, with the colour of
the fragment that is seen. -/
structure Becomes (before : Pixel) (fragments : List Fragment) (after : Pixel) : Prop where
  depth : after.depth = before.depth.map fun stored => Fragment.nearest stored fragments
  seen : ∀ f, Fragment.visible? before.depth fragments = some f → f.color = .ok after.color
  unseen : Fragment.visible? before.depth fragments = none → after.color = before.color

end Pixel

end GraphicsPipeline
