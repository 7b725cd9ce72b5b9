import GraphicsPipeline.Draw.Stages
import GraphicsPipeline.Raster.Target
import GraphicsPipeline.Resource
import GraphicsPipeline.Shader.Encoding
import GraphicsPipeline.Vertex.Encoding

/-!
# The graphics processor

A table of resources together with settings, which say how the work of a draw is to be divided. The
division of work shows in no result but for extreme numbers of rows. A draw call names everything it
needs by id.
-/

namespace GraphicsPipeline

/-! ### Settings -/

inductive Threads where
  /-- A pool of its own, of so many threads. -/
  | own (count : Nat)
  /-- The pool that all share. -/
  | shared
deriving DecidableEq, Repr, Inhabited

def Threads.name : Threads → String
  | own count => s!"Custom({count} threads)"
  | shared => "Global"

structure Config where
  /-- The threads, or none but the caller's. -/
  threads : Option Threads := some .shared
  /-- The number of rows that are painted together; zero counts as one. -/
  bandRows : UInt64 := 16
deriving DecidableEq, Repr, Inhabited

namespace Config

/-- The number of threads, where the shared pool has so many. -/
def threadCount (c : Config) (sharedCount : Nat) : Nat :=
  match c.threads with
  | none => 1
  | some (.own count) => count
  | some .shared => sharedCount

def threadsName (c : Config) : String :=
  match c.threads with
  | none => "None"
  | some t => s!"Some({t.name})"

end Config

/-! ### Draw calls -/

/-- A draw, everything given by id. -/
structure DrawCall where
  vertexProgram : UInt64
  fragmentProgram : UInt64
  vertexBuffer : UInt64
  layout : UInt64
  uniforms : Option UInt64
  output : UInt64
  depth : Option UInt64
  sampler : Option UInt64
  vertexCount : UInt64
deriving DecidableEq, Repr, Inhabited

structure Gpu where
  resources : ResourceTable := .empty
  config : Config := {}
deriving Inhabited

namespace DrawCall

/-- The first texture that is named twice among the output, the depth and the sampler. -/
def aliased? (c : DrawCall) : Option UInt64 :=
  let isDepth := fun id => c.depth = some id
  let isSampler := fun id => c.sampler = some id
  if isDepth c.output ∨ isSampler c.output then some c.output
  else c.depth.filter fun id => isSampler id

def pipeline (c : DrawCall) (r : ResourceTable) : Except Error Pipeline := do
  let vertex ← Program.decode (Storage.toBytes (← r.buffer c.vertexProgram))
  let fragment ← Program.decode (Storage.toBytes (← r.buffer c.fragmentProgram))
  let layout ← Layout.decode (Storage.toBytes (← r.buffer c.layout))
  return ⟨vertex, fragment, layout⟩

def uniformBuffer (c : DrawCall) (r : ResourceTable) : Except Error (Option ByteArray) :=
  c.uniforms.mapM r.buffer

/-- What is looked at while the targets are in the table: that no texture is named twice, the
programs, the layout, and that the other buffers are there. -/
def prepare (c : DrawCall) (r : ResourceTable) : Except Error Pipeline := do
  match c.aliased? with
  | some id => throw (.aliasedTargets id)
  | none => pure ()
  let pipeline ← c.pipeline r
  let _ ← r.buffer c.vertexBuffer
  let _ ← c.uniformBuffer r
  return pipeline

/-- The depth target, if the draw has one, and the table without it. -/
def takeDepth (c : DrawCall) (r : ResourceTable) : Except Error (Option Texture × ResourceTable) :=
  match c.depth with
  | none => .ok (none, r)
  | some id => do
    let (t, r) ← r.take id
    return (some t, r)

def inputs (c : DrawCall) (r : ResourceTable) : Except Error (ByteArray × Bindings) := do
  let vertices ← r.buffer c.vertexBuffer
  let uniforms ← c.uniformBuffer r
  let sampler ← c.sampler.mapM r.texture
  return (vertices, ⟨uniforms, sampler⟩)

/-- The table with the targets of a draw put back. -/
def restore (c : DrawCall) (r : ResourceTable) (t : Targets) : ResourceTable :=
  let r := r.restore c.output t.color
  match c.depth, t.depth with
  | some id, some depth => r.restore id depth
  | _, _ => r

/-- Draws on targets with what the table holds. -/
def drawWith (paint : FragmentStage → List (Triangle Binary32) → Step Target) (c : DrawCall)
    (r : ResourceTable) (p : Pipeline) (t : Targets) : Targets × Except Fault DrawStats :=
  match c.inputs r with
  | .error e => (t, .error (.refused e))
  | .ok (vertices, bindings) => p.drawWith paint vertices c.vertexCount bindings t

end DrawCall

namespace Gpu

def new (config : Config) : Gpu := { config }

/-- Performs a draw call, for a way to paint triangles. The targets are taken out of the table
while the rest of it is read, and put back after the draw, also after one that fails. A draw that
stops short takes its targets with it. -/
def executeWith (paint : FragmentStage → List (Triangle Binary32) → Step Target) (g : Gpu)
    (c : DrawCall) : Gpu × Except Fault DrawStats :=
  match c.prepare g.resources with
  | .error e => (g, .error (.refused e))
  | .ok pipeline =>
    match g.resources.take c.output with
    | .error e => (g, .error (.refused e))
    | .ok (color, r) =>
      match c.takeDepth r with
      | .error e => ({ g with resources := r.restore c.output color }, .error (.refused e))
      | .ok (depth, r) =>
        match c.drawWith paint r pipeline ⟨color, depth⟩ with
        | (_, .error .aborted) => ({ g with resources := r }, .error .aborted)
        | (targets, result) => ({ g with resources := c.restore r targets }, result)

def execute (g : Gpu) (c : DrawCall) : Gpu × Except Fault DrawStats :=
  g.executeWith (fun s ts => Target.paint s ts g.config.bandRows) c

def executeInOrder (places : List Nat) (g : Gpu) (c : DrawCall) : Gpu × Except Fault DrawStats :=
  g.executeWith (fun s ts => Target.paintInOrder s ts g.config.bandRows places) c

end Gpu

end GraphicsPipeline
