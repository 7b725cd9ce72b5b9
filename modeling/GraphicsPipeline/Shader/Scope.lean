import GraphicsPipeline.Error
import GraphicsPipeline.Shader.Instr

/-!
# Scopes

The registers that the instructions so far have defined, with their arities. A register is defined
once, and before it is read; `infer` finds the arity that an instruction gives its register, or says
which rule the instruction breaks first.
-/

namespace GraphicsPipeline

/-- The arities of a program's input and output slots. -/
structure Signature where
  inputs : List Arity
  outputs : List Arity
deriving DecidableEq, Repr, Inhabited

namespace Signature

def input (s : Signature) (slot : UInt32) : Except Error Arity :=
  match s.inputs[slot.toNat]? with
  | some a => .ok a
  | none => .error (.badInputSlot slot s.inputs.length)

def output (s : Signature) (slot : UInt32) : Except Error Arity :=
  match s.outputs[slot.toNat]? with
  | some a => .ok a
  | none => .error (.badOutputSlot slot s.outputs.length)

end Signature

/-- The number of vectors in one group of the uniform buffer. -/
def uniformGroupSize : UInt32 := 16

/-- A defined register: its arity, and the position of the instruction that defines it. -/
structure RegisterInfo where
  arity : Arity
  producer : Nat
deriving DecidableEq, Repr, Inhabited

/-- The defined registers, the latest first. -/
structure Scope where
  entries : List (Reg × RegisterInfo)
deriving DecidableEq, Repr, Inhabited

namespace Scope

def empty : Scope := ⟨[]⟩

def size (s : Scope) : Nat := s.entries.length

def get? (s : Scope) (r : Reg) : Option RegisterInfo := s.entries.lookup r

/-- What is known of a register, which has to be defined. -/
def get (s : Scope) (r : Reg) : Except Error RegisterInfo :=
  match s.get? r with
  | some info => .ok info
  | none => .error (.undefinedRegister r)

/-- The arity of a register, which has to be defined. -/
def arity (s : Scope) (r : Reg) : Except Error Arity := return (← s.get r).arity

def sorted (s : Scope) : List (Reg × RegisterInfo) :=
  s.entries.mergeSort fun a b => a.1 ≤ b.1

/-! ### Rules for operands -/

/-- The operand holds single precision numbers; the result is its arity. -/
def float (s : Scope) (r : Reg) : Except Error Arity := do
  let a ← s.arity r
  if a.isFloat then return a else throw (.arityMismatch .scalar a)

def exactly (s : Scope) (r : Reg) (expected : Arity) : Except Error Unit := do
  let a ← s.arity r
  if a = expected then return () else throw (.arityMismatch expected a)

/-- The operand is a vector that has the channel. -/
def channel (s : Scope) (p : Swizzle) : Except Error Unit := do
  let a ← s.arity p.reg
  if a.isVector ∧ p.channel.index < a.width then return ()
  else throw (.badChannel (UInt32.ofNat p.channel.index) a)

def channels (s : Scope) (parts : Vec4 Swizzle) : Except Error Unit := do
  let _ ← parts.mapM s.channel
  return ()

/-- Both operands hold single precision numbers, and as many. -/
def floats (s : Scope) (a b : Reg) : Except Error Arity := do
  let left ← s.float a
  let right ← s.float b
  if left = right then return left else throw (.arityMismatch left right)

/-- The operands and slots follow the rules of the instruction; the result is the arity of what it
computes, or nothing for a store. -/
def operands (s : Scope) (signature : Signature) : Instr → Except Error (Option Arity)
  | .mov4 _ parts => do
    s.channels parts
    return some .vec4
  | .sin _ a => do
    s.exactly a .scalar
    return some .scalar
  | .fmul _ a b => return some (← s.floats a b)
  | .fadd _ a b => return some (← s.floats a b)
  | .fmulSwizzle _ a parts => do
    s.exactly a .vec4
    s.channels parts
    return some .vec4
  | .iadd _ a b => do
    s.exactly a .int
    s.exactly b .int
    return some .int
  | .extract _ a c => do
    s.channel ⟨a, c⟩
    return some .scalar
  | .input _ slot => return some (← signature.input slot)
  | .output _ slot => return some (← signature.output slot)
  | .uniform _ _ index =>
    if index < uniformGroupSize then return some .vec4
    else throw (.badUniformIndex index uniformGroupSize)
  | .constInt .. => return some .int
  | .constVec2 .. => return some .vec2
  | .constVec4 .. => return some .vec4
  | .copy _ a => return some (← s.arity a)
  | .store a slot => do
    s.exactly a (← signature.output slot)
    return none
  | .sample _ uv => do
    s.exactly uv .vec2
    return some .vec4

/-! ### Instructions in order -/

/-- The arity of the register that the instruction defines, or nothing for a store. The register
must be new; that is looked at before the operands. -/
def infer (s : Scope) (signature : Signature) (i : Instr) : Except Error (Option Arity) :=
  match i.output? with
  | some out =>
    if (s.get? out).isSome then .error (.duplicateRegister out) else s.operands signature i
  | none => s.operands signature i

/-- The scope after an instruction at the given position, with the arity of its register. -/
def define (s : Scope) (signature : Signature) (position : Nat) (i : Instr) :
    Except Error (Scope × Option Arity) := do
  let inferred ← s.infer signature i
  match i.output?, inferred with
  | some out, some arity => return (⟨(out, ⟨arity, position⟩) :: s.entries⟩, inferred)
  | _, _ => return (s, inferred)

/-- The scope after a list of instructions, the first of them at the given position. -/
def defineAll (s : Scope) (signature : Signature) (position : Nat) :
    List Instr → Except Error Scope
  | [] => .ok s
  | i :: rest => do
    let (s, _) ← s.define signature position i
    s.defineAll signature (position + 1) rest

end Scope

end GraphicsPipeline
