import Mathlib.Data.List.Forall2
import GraphicsPipeline.Vertex.Layout

/-!
# Extents of attributes

Where the bytes of an attribute lie, counted in numbers that have no bound, and what it means that a
value is what those bytes say.
-/

namespace GraphicsPipeline

namespace Attribute

/-- The first byte of a vertex's attribute. -/
def start (a : Attribute) (vertex : Nat) : Nat := a.offset.toNat + vertex * a.stride.toNat

/-- All bytes of a vertex's attribute lie in the buffer. -/
def LiesIn (a : Attribute) (buffer : ByteArray) (vertex : Nat) : Prop :=
  a.start vertex + 4 * a.arity.width ≤ buffer.size

instance (a : Attribute) (buffer : ByteArray) (vertex : Nat) : Decidable (a.LiesIn buffer vertex) :=
  inferInstanceAs (Decidable (_ ≤ _))

/-- The value has the arity of the attribute, and its numbers are, bit for bit, the bytes of the
vertex's attribute. -/
structure Holds (a : Attribute) (buffer : ByteArray) (vertex : Nat) (v : Value) : Prop where
  arity : v.arity = a.arity
  bytes : (v.components.flatMap fun x => LittleEndian.encode x.bits) =
    ((Storage.toBytes buffer).drop (a.start vertex)).take (4 * a.arity.width)

end Attribute

namespace Layout

/-- All attributes of a vertex lie in the buffer. -/
def LiesIn (l : Layout) (buffer : ByteArray) (vertex : Nat) : Prop :=
  ∀ a ∈ l.attributes, a.LiesIn buffer vertex

instance (l : Layout) (buffer : ByteArray) (vertex : Nat) : Decidable (l.LiesIn buffer vertex) :=
  inferInstanceAs (Decidable (∀ _ ∈ _, _))

/-- The attribute at a place is the first of the vertex that does not lie in the buffer. -/
structure LeavesAt (l : Layout) (buffer : ByteArray) (vertex place : Nat) : Prop where
  outside : ∃ a, l.attributes[place]? = some a ∧ ¬a.LiesIn buffer vertex
  before : ∀ k < place, ∀ a, l.attributes[k]? = some a → a.LiesIn buffer vertex

/-- The values of the attributes, in their order. -/
def Holds (l : Layout) (buffer : ByteArray) (vertex : Nat) (values : List Value) : Prop :=
  List.Forall₂ (fun a v => a.Holds buffer vertex v) l.attributes values

end Layout

end GraphicsPipeline
