import GraphicsPipeline.Shader.Machine
import GraphicsPipeline.Vertex.Layout

/-!
# The vertex stage

Every vertex is fetched from the buffer and given to the vertex program. What the program stores to
its position slot becomes the position; its other outputs are strung together as one list of
numbers, in the order of the slots.
-/

namespace GraphicsPipeline

/-- A vertex after the vertex program. -/
structure ShadedVertex (α : Type) where
  clip : Vec4 α
  /-- The numbers to be interpolated. -/
  varyings : Array α
deriving DecidableEq, Inhabited

namespace ShadedVertex

def ofOutputs (p : Program) (outputs : Array Value) : Except Fault (ShadedVertex Binary32) := do
  let slot ← orRefuse (match p.position with
    | some slot => .ok slot
    | none => .error .missingPosition)
  let position ← orAbort outputs[slot.toNat]?
  let clip ← orRefuse position.toVec4
  let varyings ← p.varyings.mapM fun (i, _) => do
    let v ← orAbort outputs[i]?
    return v.components
  return ⟨clip, varyings.flatten.toArray⟩

end ShadedVertex

/-- Fetches and shades one vertex, on a machine that is handed on. -/
def shadeVertex (p : Program) (layout : Layout) (buffer : ByteArray) (bindings : Bindings)
    (vertex : UInt64) (m : Machine) : Machine × Except Fault (ShadedVertex Binary32) :=
  match layout.fetch buffer vertex with
  | .error e => (m, .error (.refused e))
  | .ok inputs =>
    match m.run p inputs bindings with
    | (m, .error fault) => (m, .error fault)
    | (m, .ok outputs) => (m, ShadedVertex.ofOutputs p outputs)

/-- Shades `count` vertices, the first of them given, after those already shaded, up to the first
that fails. -/
def shadeFrom (p : Program) (layout : Layout) (buffer : ByteArray) (bindings : Bindings)
    (vertex : UInt64) (m : Machine) (done : Array (ShadedVertex Binary32)) :
    (count : Nat) → Except Fault (Array (ShadedVertex Binary32))
  | 0 => .ok done
  | count + 1 =>
    match shadeVertex p layout buffer bindings vertex m with
    | (_, .error fault) => .error fault
    | (m, .ok v) => shadeFrom p layout buffer bindings (vertex + 1) m (done.push v) count

/-- Shades the first `count` vertices of a buffer. -/
def shadeVertices (p : Program) (layout : Layout) (buffer : ByteArray) (bindings : Bindings)
    (count : UInt64) : Except Fault (Array (ShadedVertex Binary32)) :=
  shadeFrom p layout buffer bindings 0 .new #[] count.toNat

end GraphicsPipeline
