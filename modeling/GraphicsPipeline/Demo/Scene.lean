import GraphicsPipeline.Gpu

/-!
# Demonstration scenes

Three scenes that can be drawn from the command line: a triangle with a colour at each corner, two
triangles that cross, and a chequered floor in perspective.
-/

namespace GraphicsPipeline.Demo

inductive Scene where
  | gradient
  | depth
  | checker
deriving DecidableEq, Repr, Inhabited

def Scene.ofName? (name : String) : Option Scene :=
  if name = "gradient" then some .gradient
  else if name = "depth" then some .depth
  else if name = "checker" then some .checker
  else none

/-! ### Numbers -/

/-- The nearest single precision number to `n / d`, for integers that are such numbers. -/
def ratio (n : Int) (d : Nat) : Binary32 := .ofDyadic (.ofInt n) / .ofDyadic (.ofInt d)

/-- The nearest single precision number to a number of tenths. -/
def tenths (n : Int) : Binary32 := ratio n 10

def vertexBytes (numbers : List Binary32) : ByteArray :=
  Storage.ofBytes (numbers.flatMap fun x => LittleEndian.encode x.bits)

/-! ### Ids -/

def vertexProgramId : UInt64 := 1
def fragmentProgramId : UInt64 := 2
def layoutId : UInt64 := 3
def verticesId : UInt64 := 4
def colorId : UInt64 := 5
def depthId : UInt64 := 6
def samplerId : UInt64 := 7

/-! ### Programs -/

/-- The draft after edits in order, the first that fails being the error. -/
def write (edits : List Draft.Edit) : Except Error Draft := edits.foldlM Draft.apply .empty

/-- A vertex program that hands on a position and one other input. -/
def passThrough (varying : Arity) : Except Error Draft :=
  write [.pushInput .vec4, .pushInput varying, .pushPosition, .pushOutput varying,
    .push (.input 0 0), .push (.input 1 1), .push (.store 0 0), .push (.store 1 1)]

/-- A fragment program that shows its input as the colour. -/
def showColor : Except Error Draft :=
  write [.pushInput .vec4, .pushOutput .vec4, .push (.input 0 0), .push (.store 0 0)]

/-- A fragment program that shows the bound texture at its input. -/
def showTexture : Except Error Draft :=
  write [.pushInput .vec2, .pushOutput .vec4, .push (.input 0 0), .push (.sample 1 0),
    .push (.store 1 0)]

/-- The table with the programs, the layout and the vertices of a scene. -/
def upload (r : ResourceTable) (vertex fragment : Draft) (attributes : List Attribute)
    (vertices : List Binary32) : Except Error ResourceTable := do
  let (vertexBlob, _) ← vertex.compile
  let r ← r.createBufferFrom vertexProgramId (Storage.ofBytes vertexBlob)
  let (fragmentBlob, _) ← fragment.compile
  let r ← r.createBufferFrom fragmentProgramId (Storage.ofBytes fragmentBlob)
  let layout ← Layout.empty.pushAll attributes
  let r ← r.createBufferFrom layoutId (Storage.ofBytes (← layout.compile))
  r.createBufferFrom verticesId (vertexBytes vertices)

/-! ### Coloured triangles -/

/-- The table of a scene whose vertices have a position and a colour, and their number. -/
def coloured (vertices : List Binary32) (r : ResourceTable) :
    Except Error (ResourceTable × UInt64) := do
  let r ← upload r (← passThrough .vec4) (← showColor) [⟨.vec4, 0, 32⟩, ⟨.vec4, 16, 32⟩] vertices
  return (r, UInt64.ofNat (vertices.length / 8))

/-- A triangle that is red, green and blue at its corners. -/
def gradientVertices : List Binary32 :=
  [-8, -8, 5, 10, 10, 0, 0, 10,
    8, -8, 5, 10, 0, 10, 0, 10,
    0, 8, 5, 10, 0, 0, 10, 10].map tenths

/-- A red triangle that leans back from left to right and a blue one that leans forward. -/
def depthVertices : List Binary32 :=
  [-9, -6, 2, 10, 10, 2, 2, 10,
    9, -2, 8, 10, 10, 6, 2, 10,
    -9, 6, 2, 10, 10, 2, 2, 10,
    -9, -2, 8, 10, 2, 2, 10, 10,
    9, -6, 2, 10, 2, 6, 10, 10,
    9, 6, 2, 10, 2, 2, 10, 10].map tenths

/-! ### The chequered floor -/

/-- The cotangent of half the angle of view, a sixth of half a turn. -/
def focalLength : Binary32 := ⟨0x3fddb3d7⟩

/-- The cosine of the angle by which the camera looks down: it falls by 1.5 while it goes 5. -/
def tiltCosine : Binary32 := ⟨0x3f75341a⟩

def tiltSine : Binary32 := ⟨0x3e931f43⟩

/-- A point of the floor in clip space. The camera stands 1.5 above the floor, 3 towards the
viewer, and sees from 0.1 to 20 ahead; depths run from zero to one. -/
def floorPoint (x z : Binary32) : List Binary32 :=
  let near := tenths 1
  let far := tenths 200
  let up := -(tiltCosine * tenths 15 + -tiltSine * tenths 30)
  let back := -(tiltSine * tenths 15 + tiltCosine * tenths 30)
  let scale := (far + near) / (near - far)
  let shift := far * near * tenths 20 / (near - far)
  let clipX := focalLength * x
  let clipY := focalLength * -tiltSine * z + focalLength * up
  let clipZ := scale * tiltCosine * z + (scale * back + shift)
  let clipW := -tiltCosine * z + -back
  [clipX, clipY, (clipZ + clipW) / tenths 20, clipW]

/-- The two triangles of the floor, with texture coordinates. -/
def floorVertices : List Binary32 :=
  let nearLeft := floorPoint (tenths (-40)) (tenths 20) ++ [tenths 0, tenths 10]
  let nearRight := floorPoint (tenths 40) (tenths 20) ++ [tenths 10, tenths 10]
  let farRight := floorPoint (tenths 40) (tenths (-120)) ++ [tenths 10, tenths 0]
  let farLeft := floorPoint (tenths (-40)) (tenths (-120)) ++ [tenths 0, tenths 0]
  nearLeft ++ nearRight ++ farRight ++ nearLeft ++ farRight ++ farLeft

/-- The squares of a board of eight by eight, row by row. -/
def boardSquares : List (UInt32 × UInt32) :=
  (List.range 8).flatMap fun y => (List.range 8).map fun x => (UInt32.ofNat x, UInt32.ofNat y)

def paintBoard (r : ResourceTable) : Except Fault ResourceTable := do
  let r ← orRefuse (r.createTexture samplerId 8 8)
  boardSquares.foldlM (fun r (x, y) =>
    let c := tenths (if (x + y) % 2 = 0 then 9 else 1)
    r.clearColor samplerId ⟨c, c, c, .one⟩ ⟨x, x + 1, y, y + 1⟩) r

def checkered (r : ResourceTable) : Except Fault (ResourceTable × UInt64) := do
  let r ← orRefuse (do
    upload r (← passThrough .vec2) (← showTexture) [⟨.vec4, 0, 24⟩, ⟨.vec2, 16, 24⟩] floorVertices)
  let r ← paintBoard r
  return (r, UInt64.ofNat (floorVertices.length / 6))

/-! ### Drawing -/

def Scene.setup (s : Scene) (r : ResourceTable) : Except Fault (ResourceTable × UInt64) :=
  match s with
  | gradient => orRefuse (coloured gradientVertices r)
  | depth => orRefuse (coloured depthVertices r)
  | checker => checkered r

def Scene.call (s : Scene) (vertexCount : UInt64) : DrawCall where
  vertexProgram := vertexProgramId
  fragmentProgram := fragmentProgramId
  vertexBuffer := verticesId
  layout := layoutId
  uniforms := none
  output := colorId
  depth := some depthId
  sampler := if s = .checker then some samplerId else none
  vertexCount := vertexCount

/-- The graphics processor after one picture: the targets are cleared and the scene is drawn. -/
def drawFrame (g : Gpu) (call : DrawCall) (size : UInt32) : Except Fault Gpu := do
  let full := Rect.full size size
  let r ← g.resources.clearColor colorId ⟨tenths 1, tenths 1, ratio 15 100, .one⟩ full
  let r ← r.clearDepth depthId 0xffffffff full
  let (g, result) := { g with resources := r }.execute call
  let _ ← result
  return g

def drawFrames (call : DrawCall) (size : UInt32) : (count : Nat) → Gpu → Except Fault Gpu
  | 0, g => .ok g
  | count + 1, g => do
    let g ← drawFrame g call size
    drawFrames call size count g

def Scene.render (s : Scene) (config : Config) (size : UInt32) (count : Nat) :
    Except Fault Texture := do
  let g := Gpu.new config
  let (r, vertexCount) ← s.setup g.resources
  let r ← orRefuse (r.createTexture colorId size size)
  let r ← orRefuse (r.createTexture depthId size size)
  let g ← drawFrames (s.call vertexCount) size count { g with resources := r }
  orRefuse (g.resources.texture colorId)

end GraphicsPipeline.Demo
