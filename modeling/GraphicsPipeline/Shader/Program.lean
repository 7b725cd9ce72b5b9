import GraphicsPipeline.Shader.Draft

/-!
# Programs

A program whose instructions were checked as a whole and whose registers are numbered from zero in
the order of their definition. A draft is lowered to a program by renumbering its registers.
-/

namespace GraphicsPipeline

/-- The place of a program in the pipeline. -/
inductive Stage where
  | vertex
  | fragment
deriving DecidableEq, Repr, Inhabited

/-- A checked program, if it comes from `Program.check`. -/
structure Program where
  inputs : List Arity
  outputs : List Arity
  /-- The output slot that holds the vertex position. -/
  position : Option UInt32
  /-- The number of registers. -/
  regCount : UInt32
  instrs : List Instr
deriving DecidableEq, Repr, Inhabited

namespace Program

/-- The declared slots. -/
def signature (p : Program) : Signature := ⟨p.inputs, p.outputs⟩

/-- A program with a position belongs to the vertex stage. -/
def stage (p : Program) : Stage := if p.position.isSome then .vertex else .fragment

/-- The output slots other than the position, with their arities, in order. -/
def varyings (p : Program) : List (Nat × Arity) :=
  (p.outputs.zipIdx.map fun (a, i) => (i, a)).filter fun (i, _) =>
    some (UInt32.ofNat i) ≠ p.position

def usesUniforms (p : Program) : Bool := p.instrs.any Instr.readsUniform

def usesSampler (p : Program) : Bool := p.instrs.any Instr.readsSampler

end Program

/-! ### Checking -/

/-- The position, if there is one, is an output slot that holds a vector of four. -/
def checkPosition (signature : Signature) : Option UInt32 → Except Error Unit
  | none => .ok ()
  | some slot => do
    let a ← signature.output slot
    if a = .vec4 then return () else throw (.arityMismatch .vec4 a)

/-- The first output slot that no instruction stores to. -/
def unwritten? (signature : Signature) (instrs : List Instr) : Option Nat :=
  (List.range signature.outputs.length).find? fun slot =>
    !instrs.any fun i => i.storeSlot?.map UInt32.toNat = some slot

/-- Checks a position and a list of instructions against the slots: the position, then every
instruction in order, then that every output is written. The result is the final scope. -/
def checkInstrs (signature : Signature) (position : Option UInt32) (instrs : List Instr) :
    Except Error Scope := do
  checkPosition signature position
  let scope ← Scope.empty.defineAll signature 0 instrs
  match unwritten? signature instrs with
  | some slot => throw (.unwrittenOutput slot)
  | none => return scope

/-- Checks a program: besides the rules for its instructions, its registers are those below the
claimed number. Since none is defined twice, it is enough that all are below and that the count
agrees. -/
def Program.check (p : Program) : Except Error Program := do
  let scope ← checkInstrs p.signature p.position p.instrs
  match (p.instrs.filterMap Instr.output?).find? (p.regCount ≤ ·) with
  | some r => throw (.undefinedRegister r)
  | none => pure ()
  if scope.size = p.regCount.toNat then return p
  else throw (.registerCountMismatch p.regCount scope.size)

/-! ### Lowering -/

/-- The registers that a list of instructions defines, in order. -/
def definedRegs (instrs : List Instr) : List Reg := instrs.filterMap Instr.output?

/-- The place of a register among the defined ones. -/
def denseNumber (instrs : List Instr) (r : Reg) : Reg :=
  UInt32.ofNat ((definedRegs instrs).idxOf r)

/-- The program of a draft, its registers numbered in the order of their definition. -/
def Draft.lower (d : Draft) : Except Error Program := do
  let _ ← checkInstrs d.signature d.position d.instrs
  Program.check
    { inputs := d.inputs
      outputs := d.outputs
      position := d.position
      regCount := UInt32.ofNat (definedRegs d.instrs).length
      instrs := d.instrs.map (Instr.rename (denseNumber d.instrs)) }

end GraphicsPipeline
