import GraphicsPipeline.Shader.Scope

/-!
# Drafts

A program while it is being written: slots are declared and instructions appended one at a time,
each checked against what is there. An edit that fails leaves nothing behind, since it gives no new
draft.
-/

namespace GraphicsPipeline

structure Draft where
  inputs : List Arity := []
  outputs : List Arity := []
  position : Option UInt32 := none
  instrs : List Instr := []
  scope : Scope := .empty
  /-- The draft was compiled and takes no further edits. -/
  finalized : Bool := false
deriving DecidableEq, Repr, Inhabited

/-- A register and the position of a channel, which may be no channel at all. -/
structure RawSwizzle where
  reg : Reg
  sub : UInt32
deriving DecidableEq, Repr, Inhabited

namespace Draft

def empty : Draft := {}

def signature (d : Draft) : Signature := ⟨d.inputs, d.outputs⟩

/-- The draft itself, if it still takes edits. -/
def opened (d : Draft) : Except Error Draft :=
  if d.finalized then .error .alreadyCompiled else .ok d

/-! ### Declarations -/

def pushInput (d : Draft) (a : Arity) : Except Error Draft := do
  let d ← d.opened
  return { d with inputs := d.inputs ++ [a] }

def pushOutput (d : Draft) (a : Arity) : Except Error Draft := do
  let d ← d.opened
  return { d with outputs := d.outputs ++ [a] }

/-- Declares the output slot of the vertex position, of which there is one at most. -/
def pushPosition (d : Draft) : Except Error Draft := do
  let d ← d.opened
  if d.position.isSome then throw .duplicatePosition
  return { d with
    position := some (UInt32.ofNat d.outputs.length)
    outputs := d.outputs ++ [.vec4] }

/-! ### Instructions -/

/-- Appends an instruction that follows the rules. -/
def push (d : Draft) (i : Instr) : Except Error Draft := do
  let d ← d.opened
  let (scope, _) ← d.scope.define d.signature d.instrs.length i
  return { d with scope, instrs := d.instrs ++ [i] }

/-- The swizzle of a defined register and one of the four channel positions. -/
def swizzle (d : Draft) (p : RawSwizzle) : Except Error Swizzle := do
  let arity ← d.scope.arity p.reg
  match Channel.ofIndex? p.sub.toNat with
  | some c => return ⟨p.reg, c⟩
  | none => throw (.badChannel p.sub arity)

/-- One edit of a draft. -/
inductive Edit where
  | pushInput (a : Arity)
  | pushOutput (a : Arity)
  | pushPosition
  | push (i : Instr)
  /-- The vector of four channels, which are looked up first. -/
  | mov4 (out : Reg) (parts : Vec4 RawSwizzle)
  /-- The product with a vector of four channels, which are looked up first. -/
  | fmulSwizzle (out a : Reg) (parts : Vec4 RawSwizzle)
  /-- One channel, which is looked up first. -/
  | loadChannel (out : Reg) (part : RawSwizzle)
deriving DecidableEq, Repr, Inhabited

/-- The draft after an edit. Channels given by position are looked up before it is asked whether
the draft still takes edits. -/
def apply (d : Draft) : Edit → Except Error Draft
  | .pushInput a => d.pushInput a
  | .pushOutput a => d.pushOutput a
  | .pushPosition => d.pushPosition
  | .push i => d.push i
  | .mov4 out parts => do d.push (.mov4 out (← parts.mapM d.swizzle))
  | .fmulSwizzle out a parts => do d.push (.fmulSwizzle out a (← parts.mapM d.swizzle))
  | .loadChannel out part => do
    let s ← d.swizzle part
    d.push (.extract out s.reg s.channel)

end Draft

end GraphicsPipeline
