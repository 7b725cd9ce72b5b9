import GraphicsPipeline.Shader.Program

/-!
# Well-formed programs

The rules for programs, said without a procedure. `HasArity` relates an instruction to the arity of
what it computes, where the arities of registers are given; a program is well formed if it reads
what was defined before, defines every register once, keeps to the arities, writes every output and
numbers its registers from zero.
-/

namespace GraphicsPipeline

/-- The arities of registers, as far as they are known. -/
abbrev RegisterArities := Reg → Option Arity

/-- The register of a swizzle holds a vector that has the channel. -/
def HasChannel (arities : RegisterArities) (s : Swizzle) : Prop :=
  ∃ a, arities s.reg = some a ∧ a.isVector ∧ s.channel.index < a.width

/-- What an instruction computes has the given arity; a store computes nothing. -/
inductive HasArity (signature : Signature) (arities : RegisterArities) :
    Instr → Option Arity → Prop
  | mov4 {out : Reg} {parts : Vec4 Swizzle}
      (channels : ∀ s ∈ parts.toList, HasChannel arities s) :
      HasArity signature arities (.mov4 out parts) (some .vec4)
  | sin {out a : Reg} (scalar : arities a = some .scalar) :
      HasArity signature arities (.sin out a) (some .scalar)
  | fmul {out a b : Reg} {arity : Arity} (left : arities a = some arity)
      (right : arities b = some arity) (float : arity.isFloat) :
      HasArity signature arities (.fmul out a b) (some arity)
  | fmulSwizzle {out a : Reg} {parts : Vec4 Swizzle} (left : arities a = some .vec4)
      (channels : ∀ s ∈ parts.toList, HasChannel arities s) :
      HasArity signature arities (.fmulSwizzle out a parts) (some .vec4)
  | fadd {out a b : Reg} {arity : Arity} (left : arities a = some arity)
      (right : arities b = some arity) (float : arity.isFloat) :
      HasArity signature arities (.fadd out a b) (some arity)
  | iadd {out a b : Reg} (left : arities a = some .int) (right : arities b = some .int) :
      HasArity signature arities (.iadd out a b) (some .int)
  | extract {out a : Reg} {c : Channel} (channel : HasChannel arities ⟨a, c⟩) :
      HasArity signature arities (.extract out a c) (some .scalar)
  | input {out : Reg} {slot : UInt32} {arity : Arity}
      (declared : signature.inputs[slot.toNat]? = some arity) :
      HasArity signature arities (.input out slot) (some arity)
  | output {out : Reg} {slot : UInt32} {arity : Arity}
      (declared : signature.outputs[slot.toNat]? = some arity) :
      HasArity signature arities (.output out slot) (some arity)
  | uniform {out : Reg} {group index : UInt32} (small : index < uniformGroupSize) :
      HasArity signature arities (.uniform out group index) (some .vec4)
  | constInt {out : Reg} {n : UInt32} : HasArity signature arities (.constInt out n) (some .int)
  | constVec2 {out : Reg} {x y : Binary32} :
      HasArity signature arities (.constVec2 out x y) (some .vec2)
  | constVec4 {out : Reg} {v : Vec4 Binary32} :
      HasArity signature arities (.constVec4 out v) (some .vec4)
  | copy {out a : Reg} {arity : Arity} (source : arities a = some arity) :
      HasArity signature arities (.copy out a) (some arity)
  | store {a : Reg} {slot : UInt32} {arity : Arity}
      (declared : signature.outputs[slot.toNat]? = some arity) (source : arities a = some arity) :
      HasArity signature arities (.store a slot) none
  | sample {out uv : Reg} (coordinates : arities uv = some .vec2) :
      HasArity signature arities (.sample out uv) (some .vec4)

/-- The arities of registers are those of what the instructions compute. -/
def KeepsArities (signature : Signature) (arities : RegisterArities) (instrs : List Instr) : Prop :=
  ∀ i ∈ instrs, ∃ a, HasArity signature arities i a ∧ ∀ r, i.output? = some r → arities r = a

/-- Every register that an instruction reads is defined by an instruction before it. -/
def ReadsDefined (instrs : List Instr) : Prop :=
  ∀ before i after, instrs = before ++ i :: after → ∀ r ∈ i.sources, r ∈ definedRegs before

/-- The output slot is the target of a store. -/
def Stores (instrs : List Instr) (slot : Nat) : Prop :=
  ∃ i ∈ instrs, ∃ s, i.storeSlot? = some s ∧ s.toNat = slot

/-- The program follows all rules. -/
structure Program.WellFormed (p : Program) : Prop where
  position : ∀ slot, p.position = some slot → p.outputs[slot.toNat]? = some .vec4
  readsDefined : ReadsDefined p.instrs
  definesOnce : (definedRegs p.instrs).Nodup
  arities : ∃ arities, KeepsArities p.signature arities p.instrs
  stores : ∀ slot < p.outputs.length, Stores p.instrs slot
  numbered : ∀ r, r ∈ definedRegs p.instrs ↔ r < p.regCount

end GraphicsPipeline
