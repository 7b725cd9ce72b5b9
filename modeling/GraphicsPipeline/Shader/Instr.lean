import GraphicsPipeline.Number.Binary32
import GraphicsPipeline.Word.Basic
import GraphicsPipeline.Shader.Arity

/-!
# Instructions

The operations of a shader program over numbered registers. Every instruction but the store defines
one register; `output?`, `sources` and `rename` say which of its numbers are registers.
-/

namespace GraphicsPipeline

abbrev Reg := UInt32

structure Swizzle where
  reg : Reg
  channel : Channel
deriving DecidableEq, Repr, Inhabited

/-- One operation of a shader program. -/
inductive Instr where
  /-- The vector of one channel each of four registers. -/
  | mov4 (out : Reg) (parts : Vec4 Swizzle)
  | sin (out a : Reg)
  /-- The product of two registers of one shape, channel by channel. -/
  | fmul (out a b : Reg)
  /-- The product of a vector of four and the vector of four channels. -/
  | fmulSwizzle (out a : Reg) (parts : Vec4 Swizzle)
  | fadd (out a b : Reg)
  /-- The sum of two words, modulo the size of a word. -/
  | iadd (out a b : Reg)
  | extract (out a : Reg) (channel : Channel)
  | input (out : Reg) (slot : UInt32)
  /-- The current value of an output slot. -/
  | output (out : Reg) (slot : UInt32)
  /-- A vector of four from the uniform buffer. -/
  | uniform (out : Reg) (group index : UInt32)
  | constInt (out : Reg) (n : UInt32)
  | constVec2 (out : Reg) (x y : Binary32)
  | constVec4 (out : Reg) (v : Vec4 Binary32)
  | copy (out a : Reg)
  | store (a : Reg) (slot : UInt32)
  /-- The colour of the bound texture at a pair of coordinates. -/
  | sample (out uv : Reg)
deriving DecidableEq, Repr, Inhabited

inductive Opcode where
  | mov4
  | sin
  | fmul
  | fmulSwizzle
  | fadd
  | iadd
  | extract
  | input
  | output
  | uniform
  | constInt
  | constVec2
  | constVec4
  | copy
  | store
  | sample
deriving DecidableEq, Repr, Inhabited

namespace Opcode

/-- All kinds, in the order of their codes. -/
def all : List Opcode :=
  [mov4, sin, fmul, fmulSwizzle, fadd, iadd, extract, input, output, uniform, constInt, constVec2,
    constVec4, copy, store, sample]

def code : Opcode → UInt8
  | mov4 => 0
  | sin => 1
  | fmul => 2
  | fmulSwizzle => 3
  | fadd => 4
  | iadd => 5
  | extract => 6
  | input => 7
  | output => 8
  | uniform => 9
  | constInt => 10
  | constVec2 => 11
  | constVec4 => 12
  | copy => 13
  | store => 14
  | sample => 15

def ofCode? (b : UInt8) : Option Opcode := all[b.toNat]?

end Opcode

namespace Instr

def opcode : Instr → Opcode
  | mov4 .. => .mov4
  | sin .. => .sin
  | fmul .. => .fmul
  | fmulSwizzle .. => .fmulSwizzle
  | fadd .. => .fadd
  | iadd .. => .iadd
  | extract .. => .extract
  | input .. => .input
  | output .. => .output
  | uniform .. => .uniform
  | constInt .. => .constInt
  | constVec2 .. => .constVec2
  | constVec4 .. => .constVec4
  | copy .. => .copy
  | store .. => .store
  | sample .. => .sample

def output? : Instr → Option Reg
  | mov4 out .. | sin out .. | fmul out .. | fmulSwizzle out .. | fadd out .. | iadd out ..
  | extract out .. | input out .. | output out .. | uniform out .. | constInt out ..
  | constVec2 out .. | constVec4 out .. | copy out .. | sample out .. => some out
  | store .. => none

/-- The registers that the instruction reads, in the order of its operands. -/
def sources : Instr → List Reg
  | mov4 _ parts => (parts.map Swizzle.reg).toList
  | fmulSwizzle _ a parts => a :: (parts.map Swizzle.reg).toList
  | sin _ a | extract _ a _ | copy _ a | store a _ | sample _ a => [a]
  | fmul _ a b | fadd _ a b | iadd _ a b => [a, b]
  | input .. | output .. | uniform .. | constInt .. | constVec2 .. | constVec4 .. => []

/-- The instruction with every register renamed; slots, addresses and literals stay. -/
def rename (f : Reg → Reg) : Instr → Instr
  | mov4 out parts => mov4 (f out) (parts.map fun s => ⟨f s.reg, s.channel⟩)
  | sin out a => sin (f out) (f a)
  | fmul out a b => fmul (f out) (f a) (f b)
  | fmulSwizzle out a parts => fmulSwizzle (f out) (f a) (parts.map fun s => ⟨f s.reg, s.channel⟩)
  | fadd out a b => fadd (f out) (f a) (f b)
  | iadd out a b => iadd (f out) (f a) (f b)
  | extract out a c => extract (f out) (f a) c
  | input out slot => input (f out) slot
  | output out slot => output (f out) slot
  | uniform out group index => uniform (f out) group index
  | constInt out n => constInt (f out) n
  | constVec2 out x y => constVec2 (f out) x y
  | constVec4 out v => constVec4 (f out) v
  | copy out a => copy (f out) (f a)
  | store a slot => store (f a) slot
  | sample out uv => sample (f out) (f uv)

def storeSlot? : Instr → Option UInt32
  | store _ slot => some slot
  | _ => none

def readsUniform (i : Instr) : Bool := i.opcode = .uniform

def readsSampler (i : Instr) : Bool := i.opcode = .sample

end Instr

end GraphicsPipeline
