import GraphicsPipeline.Gpu

/-!
# Commands

Everything that changes a graphics processor, as data. A history is a list of commands, performed
one after another whether they succeed or not.
-/

namespace GraphicsPipeline

/-- A change of a graphics processor. -/
inductive Command where
  | createTexture (id : UInt64) (width height : UInt32)
  | freeTexture (id : UInt64)
  | createBuffer (id size : UInt64)
  /-- Shaders and layouts are uploaded in this way too, by their bytes. -/
  | createBufferFrom (id : UInt64) (bytes : ByteArray)
  | freeBuffer (id : UInt64)
  | clearColor (id : UInt64) (color : Color) (rect : Rect)
  | clearDepth (id : UInt64) (depth : UInt32) (rect : Rect)
  | writeBuffer (id : UInt64) (offset : Nat) (bytes : ByteArray)
  | writeTexture (id : UInt64) (offset : Nat) (bytes : ByteArray)
  | draw (call : DrawCall)

namespace Gpu

/-- A change of the resources. If it fails, all stay as they are. -/
def change (g : Gpu) : Except Fault ResourceTable → Gpu × Except Fault (Option DrawStats)
  | .ok resources => ({ g with resources }, .ok none)
  | .error fault => (g, .error fault)

variable [Allocator]

/-- Performs a command. A draw tells what it did. -/
def perform (g : Gpu) : Command → Gpu × Except Fault (Option DrawStats)
  | .createTexture id width height =>
    g.change (orRefuse (g.resources.createTexture id width height))
  | .freeTexture id => g.change (orRefuse (g.resources.freeTexture id))
  | .createBuffer id size => g.change (orRefuse (g.resources.createBuffer id size))
  | .createBufferFrom id bytes => g.change (orRefuse (g.resources.createBufferFrom id bytes))
  | .freeBuffer id => g.change (orRefuse (g.resources.freeBuffer id))
  | .clearColor id color rect => g.change (g.resources.clearColor id color rect)
  | .clearDepth id depth rect => g.change (g.resources.clearDepth id depth rect)
  | .writeBuffer id offset bytes => g.change (g.resources.writeBuffer id offset bytes)
  | .writeTexture id offset bytes => g.change (g.resources.writeTexture id offset bytes)
  | .draw call =>
    match g.execute call with
    | (g, .ok stats) => (g, .ok (some stats))
    | (g, .error fault) => (g, .error fault)

def after (g : Gpu) (commands : List Command) : Gpu :=
  commands.foldl (fun g c => (g.perform c).1) g

end Gpu

end GraphicsPipeline
