import GraphicsPipeline.Raster.Triangle

/-!
# The fragment stage

At every pixel that shows a triangle the fragment program is run on the interpolated numbers. Its
first output is the colour. Depths between zero and one are stored as words, zero nearest to the
eye.
-/

namespace GraphicsPipeline

/-! ### Stored depths -/

/-- A depth that a target can store. -/
def inDepthRange (z : Binary32) : Bool := Binary32.zero ≤ z && z ≤ Binary32.one

/-- The word for a depth: it is scaled to the largest word with 53 binary digits, then brought to
the nearest integer, a half going up. What does not fit goes to the nearer end. -/
def depthValue (z : Binary32) : UInt32 :=
  let scaled := fun d : Dyadic => (d * .ofInt 0xffffffff).roundTo 53
  UInt32.ofNat (z.saturate (fun d => (scaled d).roundAway) (UInt32.size - 1))

/-! ### Shading -/

/-- What a triangle shows at the centre of a pixel: the weights of its corners and the stored depth.
Nothing is shown where the triangle does not cover the centre, or where its depth lies outside the
range. -/
def Triangle.fragment? (t : Triangle Binary32) (x y : UInt32) :
    Option (Corners Binary32 × UInt32) := do
  let weights ← t.cover x y
  let z := t.depth weights
  if inDepthRange z then some (weights, depthValue z) else none

/-- The fragment program with all that it reads. -/
structure FragmentStage where
  program : Program
  bindings : Bindings
  /-- The number of interpolated numbers that the program takes. -/
  varyingWidth : Nat

namespace FragmentStage

/-- A list of numbers cut into values of the given arities. -/
def splitInputs : List Arity → List Binary32 → Array Value → Except Fault (Array Value)
  | [], _, values => .ok values
  | a :: rest, numbers, values =>
    if numbers.length < a.width then .error .aborted
    else
      match Value.ofComponents? a (numbers.take a.width) with
      | none => .error (.refused .varyingMismatch)
      | some v => splitInputs rest (numbers.drop a.width) (values.push v)

/-- The inputs of the program at a point of a triangle, for the weights of the corners. -/
def inputs (s : FragmentStage) (t : Triangle Binary32) (p : Corners Binary32) :
    Except Fault (Array Value) := do
  let numbers ← (List.range s.varyingWidth).mapM fun i => orAbort (t.varying? p i)
  splitInputs s.program.inputs numbers #[]

/-- The colour that a value stands for: channels that it lacks are black, and opaque. -/
def colorOf (v : Value) : Color :=
  match v with
  | .scalar x => ⟨x, .zero, .zero, .one⟩
  | .vec2 x y => ⟨x, y, .zero, .one⟩
  | .vec3 x y z => ⟨x, y, z, .one⟩
  | .vec4 c => c
  | .int _ => ⟨.zero, .zero, .zero, .one⟩

/-- The texel at a point of a triangle, for the weights of the corners in space, and the machine on
which the program ran. -/
def shade (s : FragmentStage) (t : Triangle Binary32) (p : Corners Binary32) (m : Machine) :
    Machine × Except Fault Texel :=
  match s.inputs t p with
  | .error fault => (m, .error fault)
  | .ok inputs =>
    match m.run s.program inputs s.bindings with
    | (m, .error fault) => (m, .error fault)
    | (m, .ok outputs) =>
      match outputs[0]? with
      | none => (m, .error (.refused .missingColorOutput))
      | some v => (m, .ok (colorOf v).pack)

end FragmentStage

end GraphicsPipeline
