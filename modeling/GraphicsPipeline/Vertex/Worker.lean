import GraphicsPipeline.Vertex.Stage

/-!
# Workers

The vertex stage with storage that is used again. A worker has a machine and room for the inputs of
one vertex, and meets a vertex with both as the vertex before left them, where it failed half way as
well.
-/

namespace GraphicsPipeline

namespace Layout

/-- Appends the value of one attribute of a vertex to those at hand. The place of the attribute
stands beside it. -/
def append (buffer : ByteArray) (vertex : UInt64) (entry : Attribute × Nat) :
    Step (Array Value) := fun values =>
  match entry.1.components? buffer vertex with
  | none => (values, .error (.refused (.vertexFetchOutOfBounds vertex entry.2)))
  | some components =>
    match Value.ofComponents? entry.1.arity components with
    | none => (values, .error (.refused (.badAttributeArity entry.1.arity)))
    | some value => (values.push value, .ok ())

/-- Appends the values of all attributes of a vertex. What was appended before a failure stays. -/
def fetchInto (l : Layout) (buffer : ByteArray) (vertex : UInt64) : Step (Array Value) :=
  Step.each (append buffer vertex) l.attributes.zipIdx

end Layout

/-- What is kept from one vertex to the next. -/
structure Worker where
  machine : Machine := .new
  inputs : Array Value := #[]
deriving Inhabited

namespace Worker

/-- Fetches a vertex into the room for inputs, which is emptied first, and shades it. -/
def shade (p : Program) (layout : Layout) (buffer : ByteArray) (bindings : Bindings)
    (vertex : UInt64) (w : Worker) : Worker × Except Fault (ShadedVertex Binary32) :=
  match layout.fetchInto buffer vertex (w.inputs.shrink 0) with
  | (inputs, .error fault) => ({ w with inputs }, .error fault)
  | (inputs, .ok ()) =>
    match w.machine.run p inputs bindings with
    | (machine, .error fault) => (⟨machine, inputs⟩, .error fault)
    | (machine, .ok outputs) => (⟨machine, inputs⟩, ShadedVertex.ofOutputs p outputs)

/-- Shades `count` vertices, the first of them given, after those already shaded, up to the first
that fails. -/
def shadeFrom (p : Program) (layout : Layout) (buffer : ByteArray) (bindings : Bindings)
    (vertex : UInt64) (w : Worker) (done : Array (ShadedVertex Binary32)) :
    (count : Nat) → Except Fault (Array (ShadedVertex Binary32))
  | 0 => .ok done
  | count + 1 =>
    match w.shade p layout buffer bindings vertex with
    | (_, .error fault) => .error fault
    | (w, .ok v) => shadeFrom p layout buffer bindings (vertex + 1) w (done.push v) count

/-- Shades the first `count` vertices of a buffer, all of them on one worker. -/
def shadeVertices (p : Program) (layout : Layout) (buffer : ByteArray) (bindings : Bindings)
    (count : UInt64) : Except Fault (Array (ShadedVertex Binary32)) :=
  shadeFrom p layout buffer bindings 0 {} #[] count.toNat

end Worker

end GraphicsPipeline
