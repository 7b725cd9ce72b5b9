import GraphicsPipeline.Shader.History

/-!
# Drafts changed in place

The calls on a draft as work on one draft that is changed step by step: a register is recorded
before its instruction is appended, a position before its slot. Nothing is taken back when a later
step fails, so that it depends on the order of checks and changes what a failed call leaves behind.
-/

namespace GraphicsPipeline.Draft

/-- Work that changes a draft. What was changed before a failure stays changed. -/
abbrev Work := ExceptT Error (StateM Draft)

namespace Work

/-- Fails where the draft takes no further edits. -/
def checkOpened : Work Unit := do
  if (← get).finalized then throw .alreadyCompiled

/-- Fails where the draft has a position. -/
def checkNoPosition : Work Unit := do
  if (← get).position.isSome then throw .duplicatePosition

/-- The arity of what an instruction computes, which has to follow the rules. -/
def infer (i : Instr) : Work (Option Arity) := do
  let d ← get
  ofExcept (d.scope.infer d.signature i)

/-- The draft with the register of an instruction in its scope, at the next position. -/
def record (i : Instr) (inferred : Option Arity) (d : Draft) : Draft :=
  match i.output?, inferred with
  | some out, some arity =>
    { d with scope := ⟨(out, ⟨arity, d.instrs.length⟩) :: d.scope.entries⟩ }
  | _, _ => d

def define (i : Instr) : Work Unit := do
  let inferred ← infer i
  modify (record i inferred)

def push (i : Instr) : Work Unit := do
  checkOpened
  define i
  modify fun d => { d with instrs := d.instrs ++ [i] }

/-- The swizzle of a defined register and one of the four channel positions. -/
def swizzle (p : RawSwizzle) : Work Swizzle := do
  let d ← get
  ofExcept (d.swizzle p)

def edit : Edit → Work Unit
  | .pushInput a => do
    checkOpened
    modify fun d => { d with inputs := d.inputs ++ [a] }
  | .pushOutput a => do
    checkOpened
    modify fun d => { d with outputs := d.outputs ++ [a] }
  | .pushPosition => do
    checkOpened
    checkNoPosition
    modify fun d => { d with position := some (UInt32.ofNat d.outputs.length) }
    modify fun d => { d with outputs := d.outputs ++ [.vec4] }
  | .push i => push i
  | .mov4 out parts => do push (.mov4 out (← parts.mapM swizzle))
  | .fmulSwizzle out a parts => do push (.fmulSwizzle out a (← parts.mapM swizzle))
  | .loadChannel out part => do
    let s ← swizzle part
    push (.extract out s.reg s.channel)

/-- The program of the draft, if it has one. -/
def lower : Work Program := do
  let d ← get
  ofExcept d.lower

def compile : Work Bytes := do
  checkOpened
  let p ← lower
  modify fun d => { d with finalized := true }
  return p.encode

def call : Call → Work (Option Bytes)
  | .edit e => do
    edit e
    return none
  | .compile => return some (← compile)

end Work

/-- The draft that a call leaves, and what the call gives. -/
def change (d : Draft) (c : Call) : Draft × Except Error (Option Bytes) :=
  let (reply, d) := (Work.call c).run d
  (d, reply)

/-- The draft that calls in order leave. -/
def changedBy (d : Draft) : List Call → Draft
  | [] => d
  | c :: rest => (d.change c).1.changedBy rest

end GraphicsPipeline.Draft
