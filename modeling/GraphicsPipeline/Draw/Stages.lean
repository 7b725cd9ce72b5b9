import GraphicsPipeline.Raster.Target
import GraphicsPipeline.Raster.Visibility
import GraphicsPipeline.Shader.Program
import GraphicsPipeline.Vertex.Layout

/-!
# Draws

All stages of a draw on buffers and targets at hand: linkage, vertices, triangles, pixels. A layout,
a vertex program and a fragment program fit together where each takes what the one before it gives.
-/

namespace GraphicsPipeline

/-! ### Linkage -/

structure Pipeline where
  vertex : Program
  fragment : Program
  layout : Layout
deriving Inhabited

namespace Pipeline

/-- The number of interpolated numbers that feed the inputs of a fragment program: every input has
to be of the arity of the output at its place, and no word can be interpolated. -/
def linkWidth : (inputs outputs : List Arity) → Except Error Nat
  | [], _ => .ok 0
  | a :: inputs, b :: outputs =>
    if a = b ∧ a.isFloat then return a.width + (← linkWidth inputs outputs)
    else .error .varyingMismatch
  | _ :: _, [] => .error .varyingMismatch

/-- The parts fit together; the result is the number of interpolated numbers that the fragment
program takes. -/
def check (p : Pipeline) : Except Error Nat := do
  if p.vertex.stage ≠ .vertex then throw .missingPosition
  if p.fragment.stage ≠ .fragment then throw .unexpectedPosition
  if p.fragment.outputs.isEmpty then throw .missingColorOutput
  if ¬p.layout.feeds p.vertex.inputs then throw .layoutMismatch
  linkWidth p.fragment.inputs (p.vertex.varyings.map Prod.snd)

end Pipeline

/-! ### Triangles and targets -/

structure DrawStats where
  vertices : Nat
  triangles : Nat
  /-- The triangles that were left out, since they show no surface on the target. -/
  culled : Nat
deriving DecidableEq, Repr, Inhabited

/-- The vertices three by three; what is left over makes no triangle. -/
def triples {β : Type} : List β → List (Corners β)
  | a :: b :: c :: rest => ⟨a, b, c⟩ :: triples rest
  | _ => []

/-- The triangles of shaded vertices, and the number of those left out. -/
def assemble (vertices : List (ShadedVertex Binary32)) (width height : UInt32) :
    List (Triangle Binary32) × Nat :=
  let candidates := (triples vertices).map fun v => Triangle.ofVertices v width height
  (candidates.filterMap id, (candidates.filter Option.isNone).length)

structure Targets where
  color : Texture
  depth : Option Texture
deriving Inhabited

namespace Targets

def toTarget (t : Targets) : Target := ⟨t.color.width, t.color.data, t.depth.map Texture.data⟩

def withTarget (t : Targets) (target : Target) : Targets where
  color := { t.color with data := target.color }
  depth := t.depth.map fun d => { d with data := target.depth.getD d.data }

/-- What the targets hold at a pixel: its colour, and its depth where there is a depth target. -/
def pixel (t : Targets) (x y : UInt32) : Except Fault Pixel := do
  let color ← t.color.texel x y
  match t.depth with
  | none => return ⟨color, none⟩
  | some d => return ⟨color, some (← d.depth x y)⟩

end Targets

namespace Pipeline

def checkSizes (t : Targets) : Except Error Unit :=
  match t.depth with
  | none => .ok ()
  | some d =>
    if d.width = t.color.width ∧ d.height = t.color.height then .ok ()
    else .error (.targetSizeMismatch d.width d.height t.color.width t.color.height)

/-- What a program reads is bound, uniforms before the sampler. -/
def checkBindings (bindings : Bindings) (p : Program) : Except Error Unit :=
  if p.usesUniforms ∧ bindings.uniforms.isNone then .error .missingUniformBuffer
  else if p.usesSampler ∧ bindings.sampler.isNone then .error .missingSampler
  else .ok ()

/-- All that is looked at before the first vertex; the result is the number of interpolated
numbers. -/
def prepare (p : Pipeline) (vertexCount : UInt64) (bindings : Bindings) (t : Targets) :
    Except Error Nat := do
  let width ← p.check
  if vertexCount % 3 ≠ 0 then throw (.badVertexCount vertexCount)
  checkSizes t
  checkBindings bindings p.vertex
  checkBindings bindings p.fragment
  return width

/-- The triangles of a draw, the number of those left out, and the stage that paints them. -/
def setup (p : Pipeline) (buffer : ByteArray) (vertexCount : UInt64) (bindings : Bindings)
    (t : Targets) : Except Fault (List (Triangle Binary32) × Nat × FragmentStage) := do
  let width ← orRefuse (p.prepare vertexCount bindings t)
  let vertices ← shadeVertices p.vertex p.layout buffer bindings vertexCount
  let (triangles, culled) := assemble vertices.toList t.color.width t.color.height
  return (triangles, culled, ⟨p.fragment, bindings, width⟩)

/-- Draws on targets, for a way to paint triangles on them. What was painted before a failure
stays. -/
def drawWith (paint : FragmentStage → List (Triangle Binary32) → Step Target) (p : Pipeline)
    (buffer : ByteArray) (vertexCount : UInt64) (bindings : Bindings) (t : Targets) :
    Targets × Except Fault DrawStats :=
  match p.setup buffer vertexCount bindings t with
  | .error fault => (t, .error fault)
  | .ok (triangles, culled, stage) =>
    match paint stage triangles t.toTarget with
    | (target, .error fault) => (t.withTarget target, .error fault)
    | (target, .ok ()) =>
      (t.withTarget target, .ok ⟨vertexCount.toNat, triangles.length, culled⟩)

end Pipeline

end GraphicsPipeline
