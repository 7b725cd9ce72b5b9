import GraphicsPipeline.Shader.Encoding

/-!
# Records that agree

A kind of instruction uses some of the five operand words of its record. Two records agree if they
differ at most in words that are not used. The bytes of those words are the ones that the encoding
of a program leaves free.
-/

namespace GraphicsPipeline

/-- The places of the operand words that a kind of instruction uses. -/
def Opcode.operandPlaces : Opcode → List Nat
  | .mov4 => [1, 2, 3, 4]
  | .fmulSwizzle => [0, 1, 2, 3, 4]
  | .constVec4 => [0, 1, 2, 3]
  | .fmul | .fadd | .iadd | .uniform | .constVec2 | .store => [0, 1]
  | .sin | .extract | .input | .output | .constInt | .copy | .sample => [0]

namespace Record

def operands (r : Record) : List UInt32 := [r.arg₀, r.arg₁, r.arg₂, r.arg₃, r.arg₄]

/-- The records differ at most in operand words that their kind of instruction does not use. -/
structure Agrees (r s : Record) : Prop where
  opcode : r.opcode = s.opcode
  reserved : r.reserved = s.reserved
  out : r.out = s.out
  operands : ∀ kind, Opcode.ofCode? r.opcode = some kind →
    ∀ k ∈ kind.operandPlaces, r.operands[k]? = s.operands[k]?
  channels : r.channels = s.channels

end Record

/-! ### Free bytes -/

/-- The byte of a record, whose operand words are the bytes from 8 to 27, lies in a word that the
kind of instruction does not use. -/
def Opcode.Ignores (kind : Opcode) (place : Nat) : Prop :=
  8 ≤ place ∧ place < 28 ∧ (place - 8) / 4 ∉ kind.operandPlaces

instance (kind : Opcode) (place : Nat) : Decidable (kind.Ignores place) :=
  inferInstanceAs (Decidable (_ ∧ _ ∧ _))

namespace Program

/-- The number of bytes before the first record. -/
def frontLength (p : Program) : Nat := 32 + p.inputs.length + p.outputs.length

/-- The byte of the program lies in an operand word that its instruction does not use. -/
def Ignores (p : Program) (place : Nat) : Prop :=
  ∃ j i k, p.instrs[j]? = some i ∧ i.opcode.Ignores k ∧
    place = p.frontLength + (Record.length * j + k)

end Program

end GraphicsPipeline
