import GraphicsPipeline.Command
import GraphicsPipeline.Shader.History

/-!
# Calls of the C interface

The functions of the C interface as data: on which handle they are called, and with what. Ids that
may be left out are words of which one stands for nothing.

One function is left out. Compiled bytes belong to the caller, who has them released by a function
that takes the bytes and no handle: it finds nothing and changes nothing in a session, and it says
nothing.
-/

namespace GraphicsPipeline.Interface

/-- The name of a handle. A name that is not bound stands for the null pointer. -/
abbrev Handle := String

def noResource : UInt64 := 0xffffffffffffffff

def optional (id : UInt64) : Option UInt64 := if id = noResource then none else some id

/-- What can be asked of a graphics processor. -/
inductive ContextCall where
  | createTexture (id : UInt64) (width height : UInt32)
  | freeTexture (id : UInt64)
  /-- The colour is missing where its pointer is null. -/
  | clearColor (id : UInt64) (color : Option Color) (rect : Rect)
  | clearDepth (id : UInt64) (depth : UInt32) (rect : Rect)
  | createBuffer (id size : UInt64)
  | freeBuffer (id : UInt64)
  | getBuffer (id : UInt64)
  /-- Gets a buffer and writes through the pointer. -/
  | writeBuffer (id : UInt64) (offset : Nat) (bytes : ByteArray)
  | getTexture (id : UInt64)
  | execute (vertexProgram fragmentProgram vertexBuffer layout uniforms output depth sampler :
      UInt64) (vertexCount : UInt64)

inductive LayoutCall where
  | push (a : Attribute)
  | compile

inductive Call where
  | createContext (h : Handle)
  | destroyContext (h : Handle)
  | context (h : Handle) (call : ContextCall)
  | createShader (h : Handle)
  | freeShader (h : Handle)
  | shader (h : Handle) (call : Draft.Call)
  | createLayout (h : Handle)
  | freeLayout (h : Handle)
  | layout (h : Handle) (call : LayoutCall)

inductive Reply where
  | nothing
  /-- The function says whether it succeeded. -/
  | status (ok : Bool)
  /-- The contents of a buffer, if there is one. -/
  | buffer (contents : Option ByteArray)
  /-- The size of a texture, the bytes of its rows as a word, and its data, if there is one. -/
  | texture (image : Option (UInt32 × UInt32 × UInt32 × ByteArray))
  /-- Compiled bytes, if compiling succeeded. -/
  | blob (bytes : Option Bytes)
  | aborted

/-- The function says that it failed. -/
def Reply.isFailure : Reply → Bool
  | status ok => !ok
  | buffer contents => contents.isNone
  | texture image => image.isNone
  | blob bytes => bytes.isNone
  | nothing | aborted => false

end GraphicsPipeline.Interface
