import GraphicsPipeline.Interface.Call

/-!
# Sessions of the C interface

All objects that a user of the C interface holds, by the names of their handles. A call that fails
says so and leaves no other trace.
-/

namespace GraphicsPipeline.Interface

/-- Objects of one kind by the names of their handles. -/
structure Handles (α : Type) where
  entries : List (Handle × α)
deriving Inhabited

namespace Handles

variable {α : Type}

def empty : Handles α := ⟨[]⟩

/-- The object of a handle; there is none behind the null pointer. -/
def get? (s : Handles α) (h : Handle) : Option α := s.entries.lookup h

def release (s : Handles α) (h : Handle) : Handles α := ⟨s.entries.filter fun e => e.1 ≠ h⟩

/-- The handles with a new object; one that had the same name is out of reach. -/
def bind (s : Handles α) (h : Handle) (a : α) : Handles α := ⟨(h, a) :: (s.release h).entries⟩

def put (s : Handles α) (h : Handle) (a : α) : Handles α :=
  ⟨s.entries.map fun e => if e.1 = h then (h, a) else e⟩

end Handles

/-- All objects of a session. -/
structure Session where
  contexts : Handles Gpu := .empty
  shaders : Handles Draft := .empty
  layouts : Handles Layout := .empty
deriving Inhabited

namespace Session

def new : Session := {}

variable [Allocator]

def withStatus (g : Gpu) (c : Command) : Gpu × Reply :=
  match g.perform c with
  | (g, .ok _) => (g, .status true)
  | (g, .error (.refused _)) => (g, .status false)
  | (g, .error .aborted) => (g, .aborted)

def callContext (g : Gpu) : ContextCall → Gpu × Reply
  | .createTexture id width height => withStatus g (.createTexture id width height)
  | .freeTexture id => withStatus g (.freeTexture id)
  | .clearColor _ none _ => (g, .status false)
  | .clearColor id (some c) rect => withStatus g (.clearColor id c rect)
  | .clearDepth id d rect => withStatus g (.clearDepth id d rect)
  | .createBuffer id size => withStatus g (.createBuffer id size)
  | .freeBuffer id => ((g.perform (.freeBuffer id)).1, .nothing)
  | .getBuffer id => (g, .buffer (g.resources.buffer id).toOption)
  | .writeBuffer id offset bytes =>
    match g.perform (.writeBuffer id offset bytes) with
    | (g, .ok _) => (g, .buffer (g.resources.buffer id).toOption)
    | (g, .error (.refused _)) => (g, .buffer none)
    | (g, .error .aborted) => (g, .aborted)
  | .getTexture id =>
    (g, .texture ((g.resources.texture id).toOption.map fun t =>
      (t.width, t.height, UInt32.ofNat t.stride, t.data)))
  | .execute vertexProgram fragmentProgram vertexBuffer layout uniforms output depth sampler
      vertexCount =>
    withStatus g (.draw
      { vertexProgram, fragmentProgram, vertexBuffer, layout, output, vertexCount
        uniforms := optional uniforms
        depth := optional depth
        sampler := optional sampler })

def contextMissing : ContextCall → Reply
  | .freeBuffer .. => .nothing
  | .getBuffer .. => .buffer none
  | .writeBuffer .. => .buffer none
  | .getTexture .. => .texture none
  | _ => .status false

def callShader (d : Draft) (c : Draft.Call) : Draft × Reply :=
  let (d, result) := d.step c
  match c with
  | .edit _ => (d, .status result.isOk)
  | .compile => (d, .blob (result.toOption.bind id))

def shaderMissing : Draft.Call → Reply
  | .edit _ => .status false
  | .compile => .blob none

def callLayout (l : Layout) : LayoutCall → Layout × Reply
  | .push a =>
    match l.push a with
    | .ok l => (l, .status true)
    | .error _ => (l, .status false)
  | .compile => (l, .blob l.compile.toOption)

def layoutMissing : LayoutCall → Reply
  | .push _ => .status false
  | .compile => .blob none

def call (s : Session) : Call → Session × Reply
  | .createContext h => ({ s with contexts := s.contexts.bind h (.new {}) }, .nothing)
  | .destroyContext h => ({ s with contexts := s.contexts.release h }, .nothing)
  | .context h c =>
    match s.contexts.get? h with
    | none => (s, contextMissing c)
    | some g =>
      let (g, reply) := callContext g c
      ({ s with contexts := s.contexts.put h g }, reply)
  | .createShader h => ({ s with shaders := s.shaders.bind h .empty }, .nothing)
  | .freeShader h => ({ s with shaders := s.shaders.release h }, .nothing)
  | .shader h c =>
    match s.shaders.get? h with
    | none => (s, shaderMissing c)
    | some d =>
      let (d, reply) := callShader d c
      ({ s with shaders := s.shaders.put h d }, reply)
  | .createLayout h => ({ s with layouts := s.layouts.bind h .empty }, .nothing)
  | .freeLayout h => ({ s with layouts := s.layouts.release h }, .nothing)
  | .layout h c =>
    match s.layouts.get? h with
    | none => (s, layoutMissing c)
    | some l =>
      let (l, reply) := callLayout l c
      ({ s with layouts := s.layouts.put h l }, reply)

/-- The session after calls in order, and what they give back. -/
def run (s : Session) : List Call → Session × List Reply
  | [] => (s, [])
  | c :: rest =>
    let (s, reply) := s.call c
    let (s, replies) := s.run rest
    (s, reply :: replies)

end Session

end GraphicsPipeline.Interface
