import GraphicsPipeline.Shader.Encoding

/-!
# Histories of drafts

The calls by which a program is written and compiled, as data. A call that fails leaves the draft
as it was, and the next call goes on from there.
-/

namespace GraphicsPipeline.Draft

/-- A call on a draft. -/
inductive Call where
  | edit (e : Edit)
  | compile
deriving DecidableEq, Repr, Inhabited

/-- The draft after a call that succeeds, with the bytes if it was compiled. -/
def call (d : Draft) : Call → Except Error (Draft × Option Bytes)
  | .edit e => return (← d.apply e, none)
  | .compile => do
    let (bytes, d) ← d.compile
    return (d, some bytes)

/-- The draft after a call, and what the call gives. -/
def step (d : Draft) (c : Call) : Draft × Except Error (Option Bytes) :=
  match d.call c with
  | .ok (d, bytes) => (d, .ok bytes)
  | .error e => (d, .error e)

/-- The draft after calls in order. -/
def after (d : Draft) : List Call → Draft
  | [] => d
  | c :: rest => (d.step c).1.after rest

/-- What calls in order give. -/
def replies (d : Draft) : List Call → List (Except Error (Option Bytes))
  | [] => []
  | c :: rest => (d.step c).2 :: (d.step c).1.replies rest

/-! ### Renaming -/

/-- The edit with every register renamed. -/
def Edit.rename (f : Reg → Reg) : Edit → Edit
  | pushInput a => pushInput a
  | pushOutput a => pushOutput a
  | pushPosition => pushPosition
  | push i => push (i.rename f)
  | mov4 out parts => mov4 (f out) (parts.map fun p => ⟨f p.reg, p.sub⟩)
  | fmulSwizzle out a parts => fmulSwizzle (f out) (f a) (parts.map fun p => ⟨f p.reg, p.sub⟩)
  | loadChannel out part => loadChannel (f out) ⟨f part.reg, part.sub⟩

/-- The call with every register renamed. -/
def Call.rename (f : Reg → Reg) : Call → Call
  | edit e => edit (e.rename f)
  | compile => compile

end GraphicsPipeline.Draft
