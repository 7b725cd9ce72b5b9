import GraphicsPipeline.Shader.Machine

/-!
# What an instruction holds besides registers

Slots, addresses, channels and literals of an instruction, and what its check and its execution may
see of the registers: those that `sources` and `output?` name, and no others.
-/

namespace GraphicsPipeline

namespace Instr

/-- The input or output slot. -/
def slot? : Instr → Option UInt32
  | input _ slot | output _ slot | store _ slot => some slot
  | _ => none

/-- The group of a uniform and its place there. -/
def address? : Instr → Option (UInt32 × UInt32)
  | uniform _ group index => some (group, index)
  | _ => none

/-- The channels that are selected, in the order of the operands. -/
def channels : Instr → List Channel
  | mov4 _ parts | fmulSwizzle _ _ parts => (parts.map Swizzle.channel).toList
  | extract _ _ c => [c]
  | _ => []

/-- The words of the literals, in order. -/
def literals : Instr → List UInt32
  | constInt _ n => [n]
  | constVec2 _ x y => [x.bits, y.bits]
  | constVec4 _ v => (v.map Binary32.bits).toList
  | _ => []

/-- Two instructions that differ in registers only. -/
structure Alike (i j : Instr) : Prop where
  opcode : i.opcode = j.opcode
  slot? : i.slot? = j.slot?
  address? : i.address? = j.address?
  channels : i.channels = j.channels
  literals : i.literals = j.literals

end Instr

/-- Two scopes in which an instruction finds the same: its output defined in both or in neither, and
its sources with the same arities, or absent, in both. -/
structure Scope.SeesAs (s s' : Scope) (i : Instr) : Prop where
  output : ∀ r, i.output? = some r → (s.get? r).isSome = (s'.get? r).isSome
  sources : ∀ r ∈ i.sources, (s.get? r).map RegisterInfo.arity = (s'.get? r).map RegisterInfo.arity

/-- Two machines in which an instruction finds the same: values in its sources, room for its output
and the values in output slots. -/
structure Machine.SeesAs (m m' : Machine) (i : Instr) : Prop where
  output : ∀ r, i.output? = some r → (r.toNat < m.regs.size ↔ r.toNat < m'.regs.size)
  sources : ∀ r ∈ i.sources, m.regs[r.toNat]? = m'.regs[r.toNat]?
  outputs : m.outputs = m'.outputs

end GraphicsPipeline
