import GraphicsPipeline.Vertex.Layout

/-!
# Encoding of layouts

A layout as bytes: a header of 12 bytes, and a record of 12 bytes for each attribute. No byte is
left open: a layout has one encoding, and nothing else is read as that layout.
-/

namespace GraphicsPipeline

open LittleEndian

namespace Attribute

def encodedLength : Nat := 12

def encode (a : Attribute) : Bytes :=
  [a.arity.code, 0, 0, 0] ++ LittleEndian.encode a.offset ++ LittleEndian.encode a.stride

/-- The attribute at the front of a string of bytes, and the rest. Whether a vertex buffer can hold
it is not looked at. -/
def take : Bytes → Except Error (Attribute × Bytes)
  | code :: r₀ :: r₁ :: r₂ :: bytes =>
    match takeWords? 2 bytes with
    | some ([offset, stride], rest) =>
      if (r₀, r₁, r₂) ≠ (0, 0, 0) then .error (.malformedBlob .reservedAttributeBits)
      else
        match Arity.ofCode? code with
        | some arity => .ok (⟨arity, offset, stride⟩, rest)
        | none => .error (.malformedBlob .attributeArity)
    | _ => .error (.malformedBlob .attributeCount)
  | _ => .error (.malformedBlob .attributeCount)

end Attribute

namespace Layout

def magic : Bytes := [0x53, 0x47, 0x49, 0x4c]

def version : UInt32 := 1

def encode (l : Layout) : Bytes :=
  magic ++ LittleEndian.encode version ++
    LittleEndian.encode (UInt32.ofNat l.attributes.length) ++ l.attributes.flatMap Attribute.encode

/-- The layout with as many further attributes as given, which fill the bytes. -/
def pushDecoded (l : Layout) : (count : Nat) → Bytes → Except Error Layout
  | 0, _ => .ok l
  | count + 1, bytes => do
    let (a, bytes) ← Attribute.take bytes
    let l ← l.push a
    l.pushDecoded count bytes

def decode (bytes : Bytes) : Except Error Layout :=
  match takeWords? 2 (bytes.drop magic.length) with
  | some ([found, count], body) =>
    if bytes.take magic.length ≠ magic then .error (.badMagic .layout)
    else if found ≠ version then .error (.versionMismatch found version)
    else if body.length ≠ Attribute.encodedLength * count.toNat then
      .error (.malformedBlob .attributeCount)
    else do
      let l ← empty.pushDecoded count.toNat body
      l.build
  | _ => .error (.malformedBlob .truncatedHeader)

/-- The bytes of a layout that has attributes. -/
def compile (l : Layout) : Except Error Bytes := return (← l.build).encode

end Layout

end GraphicsPipeline
