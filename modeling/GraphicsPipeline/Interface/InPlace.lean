import GraphicsPipeline.InPlace
import GraphicsPipeline.Interface.Session
import GraphicsPipeline.Shader.InPlace

/-!
# Calls of the C interface in place

The functions of the C interface as they work on the object behind a handle and on the variables
that their caller passes for results, one statement after another. Nothing is taken back when a
later statement fails, so that it depends on the order of checks, changes and results what a failed
call leaves behind.
-/

namespace GraphicsPipeline.Interface

open Step

/-- The variables that a caller passes for results. Data behind a pointer is known by its bytes. -/
structure Variables where
  data : Option ByteArray
  length : UInt64
  width : UInt32
  height : UInt32
  stride : UInt32
deriving Inhabited

/-- What a function gives back. -/
inductive Answer where
  | nothing
  /-- The function says whether it succeeded. -/
  | status (ok : Bool)
  | aborted
deriving DecidableEq, Repr

def Answer.ofResult : Except Fault Unit → Answer
  | .ok () => .status true
  | .error (.refused _) => .status false
  | .error .aborted => .aborted

/-! ### Work of the functions -/

/-- Work on an object and on the variables. What was done before a failure stays done. -/
abbrev Work (σ : Type) := Step (σ × Variables)

namespace Work

variable {σ : Type}

/-- Work on the object alone. -/
def onObject (f : Step σ) : Work σ := onPart (fun s => .ok s.1) (fun o s => (o, s.2)) f

/-- Writes to the variables. -/
def write (f : Variables → Variables) : Work σ := modify fun s => (s.1, f s.2)

/-- Hands bytes to the caller, first where they are and then how many. -/
def exportBlob (bytes : Bytes) : Work σ :=
  (write fun v => { v with data := some (Storage.ofBytes bytes) }).andThen
    (write fun v => { v with length := UInt64.ofNat bytes.length })

def getBuffer (id : UInt64) : Work Gpu :=
  looking (fun s => orRefuse (s.1.resources.buffer id)) fun bytes =>
    write fun v => { v with data := some bytes }

def getTexture (id : UInt64) : Work Gpu :=
  looking (fun s => orRefuse (s.1.resources.texture id)) fun t =>
    (write fun v => { v with width := t.width }).andThen <|
    (write fun v => { v with height := t.height }).andThen <|
    (write fun v => { v with stride := UInt32.ofNat t.stride }).andThen <|
    write fun v => { v with data := some t.data }

/-- An edit of a draft in place. -/
def edit (e : Draft.Edit) : Work Draft :=
  onObject fun d =>
    match (Draft.Work.edit e).run d with
    | (.ok (), d) => (d, .ok ())
    | (.error e, d) => (d, .error (.refused e))

/-- Compiles a draft, which takes no further edits then, and hands out the bytes. -/
def compileShader : Work Draft := fun s =>
  match Draft.Work.compile.run s.1 with
  | (.ok bytes, d) => exportBlob bytes (d, s.2)
  | (.error e, d) => ((d, s.2), .error (.refused e))

def pushAttribute (a : Attribute) : Work Layout :=
  onObject fun l =>
    if a.arity.isFloat then modify (fun l => ⟨l.attributes ++ [a]⟩) l
    else fail (.refused (.badAttributeArity a.arity)) l

def compileLayout : Work Layout := looking (fun s => orRefuse s.1.compile) exportBlob

end Work

/-! ### Functions -/

/-- A function as it works on the object behind a handle, which is missing behind the null pointer,
and on the variables. -/
abbrev Routine (σ : Type) := Option σ → Variables → Option σ × Variables × Answer

namespace Routine

variable {σ : Type}

/-- Work on the object, if there is one. The function says whether it succeeded. -/
def ofWork (f : Work σ) : Routine σ
  | none, v => (none, v, .status false)
  | some o, v => (some (f (o, v)).1.1, (f (o, v)).1.2, .ofResult (f (o, v)).2)

/-- The function says that it failed, before it looks at its object. -/
def fail : Routine σ := fun o v => (o, v, .status false)

/-- The function does not say whether it succeeded. -/
def silently (r : Routine σ) : Routine σ := fun o v => ((r o v).1, (r o v).2.1, .nothing)

def context [Allocator] : ContextCall → Routine Gpu
  | .createTexture id width height => ofWork (.onObject (Gpu.work (.createTexture id width height)))
  | .freeTexture id => ofWork (.onObject (Gpu.work (.freeTexture id)))
  | .clearColor _ none _ => fail
  | .clearColor id (some c) rect => ofWork (.onObject (Gpu.work (.clearColor id c rect)))
  | .clearDepth id d rect => ofWork (.onObject (Gpu.work (.clearDepth id d rect)))
  | .createBuffer id size => ofWork (.onObject (Gpu.work (.createBuffer id size)))
  | .freeBuffer id => silently (ofWork (.onObject (Gpu.work (.freeBuffer id))))
  | .getBuffer id => ofWork (.getBuffer id)
  | .writeBuffer id offset bytes =>
    ofWork ((Work.onObject (Gpu.work (.writeBuffer id offset bytes))).andThen (Work.getBuffer id))
  | .getTexture id => ofWork (.getTexture id)
  | .execute vertexProgram fragmentProgram vertexBuffer layout uniforms output depth sampler
      vertexCount =>
    ofWork (.onObject (Gpu.work (.draw
      { vertexProgram, fragmentProgram, vertexBuffer, layout, output, vertexCount
        uniforms := optional uniforms
        depth := optional depth
        sampler := optional sampler })))

def shader : Draft.Call → Routine Draft
  | .edit e => ofWork (.edit e)
  | .compile => ofWork .compileShader

def layout : LayoutCall → Routine Layout
  | .push a => ofWork (.pushAttribute a)
  | .compile => ofWork .compileLayout

end Routine

/-! ### Sessions -/

/-- A function called on a handle. -/
def Handles.call {α : Type} (s : Handles α) (h : Handle) (r : Routine α) (v : Variables) :
    Handles α × Variables × Answer :=
  match r (s.get? h) v with
  | (some a, v, answer) => (s.put h a, v, answer)
  | (none, v, answer) => (s, v, answer)

def Session.callInPlace [Allocator] (s : Session) (v : Variables) :
    Call → Session × Variables × Answer
  | .createContext h => ({ s with contexts := s.contexts.bind h (.new {}) }, v, .nothing)
  | .destroyContext h => ({ s with contexts := s.contexts.release h }, v, .nothing)
  | .context h c =>
    let (contexts, v, answer) := s.contexts.call h (.context c) v
    ({ s with contexts }, v, answer)
  | .createShader h => ({ s with shaders := s.shaders.bind h .empty }, v, .nothing)
  | .freeShader h => ({ s with shaders := s.shaders.release h }, v, .nothing)
  | .shader h c =>
    let (shaders, v, answer) := s.shaders.call h (.shader c) v
    ({ s with shaders }, v, answer)
  | .createLayout h => ({ s with layouts := s.layouts.bind h .empty }, v, .nothing)
  | .freeLayout h => ({ s with layouts := s.layouts.release h }, v, .nothing)
  | .layout h c =>
    let (layouts, v, answer) := s.layouts.call h (.layout c) v
    ({ s with layouts }, v, answer)

/-- Where a caller keeps the variables for results. -/
abbrev Place := String

/-- A call, and where its results are to be written. -/
structure Invocation where
  call : Call
  place : Place

/-- All objects of a session, and the variables of the caller. -/
structure World where
  session : Session
  memory : Place → Variables

namespace World

/-- No objects yet, and variables that hold anything. -/
def new (memory : Place → Variables) : World := ⟨.new, memory⟩

variable [Allocator]

/-- The world after a call, with what the call gives back and what its variables hold then. -/
def invoke (w : World) (i : Invocation) : World × Answer × Variables :=
  let (session, v, answer) := w.session.callInPlace (w.memory i.place) i.call
  (⟨session, fun p => if p = i.place then v else w.memory p⟩, answer, v)

/-- The world after calls in order, and what they give. -/
def run (w : World) : List Invocation → World × List (Answer × Variables)
  | [] => (w, [])
  | i :: rest =>
    let (w, result) := w.invoke i
    let (w, results) := w.run rest
    (w, result :: results)

/-- The calls in order that do not say that they failed, each with what it gives. -/
def effective (w : World) (calls : List Invocation) : List (Invocation × Answer × Variables) :=
  (calls.zip (w.run calls).2).filter fun c => c.2.1 ≠ .status false

end World

end GraphicsPipeline.Interface
