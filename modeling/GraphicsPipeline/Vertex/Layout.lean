import GraphicsPipeline.Shader.Value
import GraphicsPipeline.Word.Basic
import GraphicsPipeline.Word.Storage

/-!
# Vertex layouts

Where the inputs of a vertex program lie in a buffer of vertices: attribute `i` of vertex `n` starts
at byte `offset_i + n * stride_i` and holds single precision numbers, the least significant byte
first.
-/

namespace GraphicsPipeline

/-- The place of one input in a vertex buffer. -/
structure Attribute where
  arity : Arity
  /-- The byte at which the attribute of vertex 0 starts. -/
  offset : UInt32
  /-- The number of bytes from one vertex to the next. -/
  stride : UInt32
deriving DecidableEq, Repr, Inhabited

namespace Attribute

/-- The first byte of a vertex's attribute and the byte after its last, as 64-bit words. -/
def byteRange? (a : Attribute) (vertex : UInt64) : Option (UInt64 × UInt64) := do
  let skipped ← Checked.mul64? a.stride.toUInt64 vertex
  let start ← Checked.add64? skipped a.offset.toUInt64
  let stop ← Checked.add64? start (UInt64.ofNat (a.arity.width * 4))
  return (start, stop)

/-- The numbers of a vertex's attribute, if they lie in the buffer. -/
def components? (a : Attribute) (buffer : ByteArray) (vertex : UInt64) :
    Option (List Binary32) := do
  let (start, stop) ← a.byteRange? vertex
  if stop.toNat ≤ buffer.size then
    return (← Storage.words? buffer start.toNat a.arity.width).map .mk
  else none

end Attribute

/-- The attributes of a vertex in the order of the program's inputs. -/
structure Layout where
  attributes : List Attribute
deriving DecidableEq, Repr, Inhabited

namespace Layout

/-- The layout without attributes, to which attributes are pushed. -/
def empty : Layout := ⟨[]⟩

/-- The layout with a further attribute, which must hold single precision numbers. -/
def push (l : Layout) (a : Attribute) : Except Error Layout :=
  if a.arity.isFloat then .ok ⟨l.attributes ++ [a]⟩ else .error (.badAttributeArity a.arity)

/-- The layout with further attributes, the first that fails being the error. -/
def pushAll (l : Layout) : List Attribute → Except Error Layout
  | [] => .ok l
  | a :: rest => do
    let l ← l.push a
    l.pushAll rest

/-- The layout after pushes one after another. A push that fails changes nothing. -/
def afterPushes (l : Layout) (attributes : List Attribute) : Layout :=
  attributes.foldl (fun l a => (l.push a).toOption.getD l) l

/-- The layout itself, if it has attributes. -/
def build (l : Layout) : Except Error Layout :=
  if l.attributes.isEmpty then .error .emptyLayout else .ok l

def feeds (l : Layout) (inputs : List Arity) : Bool := l.attributes.map Attribute.arity = inputs

/-- Appends the values of attributes of one vertex, the first of them at the given place. -/
def fetchFrom (buffer : ByteArray) (vertex : UInt64) :
    (place : Nat) → List Attribute → Array Value → Except Error (Array Value)
  | _, [], values => .ok values
  | place, a :: rest, values =>
    match a.components? buffer vertex with
    | none => .error (.vertexFetchOutOfBounds vertex place)
    | some components =>
      match Value.ofComponents? a.arity components with
      | none => .error (.badAttributeArity a.arity)
      | some value => fetchFrom buffer vertex (place + 1) rest (values.push value)

def fetch (l : Layout) (buffer : ByteArray) (vertex : UInt64) : Except Error (Array Value) :=
  fetchFrom buffer vertex 0 l.attributes #[]

end Layout

end GraphicsPipeline
