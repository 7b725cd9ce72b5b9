import GraphicsPipeline.Command
import GraphicsPipeline.Stepwise

/-!
# Commands in place

The commands as work on one table that is changed step by step: a clear writes one texel after
another, and a buffer is created before its bytes are copied into it. Nothing is taken back when a
later step fails, so that it depends on the order of checks and changes what a failed command leaves
behind.
-/

namespace GraphicsPipeline

open Step

namespace Texture

/-- Work on the data of an image. What was written before a failure stays written. -/
abbrev Work := Step Texture

namespace Work

/-- Writes a texel at a place. -/
def set (texel : Texel) (i : Nat) : Work := fun t =>
  match Storage.setTexel? t.data i texel with
  | some data => ({ t with data }, .ok ())
  | none => (t, .error .aborted)

/-- Writes a texel at so many places from one on. -/
def fillRow (texel : Texel) (start columns : Nat) : Work :=
  each (set texel) (List.range' start columns)

/-- Writes a texel at every pixel of a rectangle, row after row. The rectangle is looked at before
anything is written. -/
def fill (texel : Texel) (r : Rect) : Work := fun t =>
  if t.width < r.maxX ∨ t.height < r.maxY then fail (.refused r.refusal) t
  else if r.isEmpty then skip t
  else
    each (fun y => fillRow texel (y * t.width.toNat + r.minX.toNat) (r.maxX.toNat - r.minX.toNat))
      (List.range' r.minY.toNat (r.maxY.toNat - r.minY.toNat)) t

/-- Copies bytes into the data, from an offset on. -/
def write (offset : Nat) (bytes : ByteArray) : Work := fun t =>
  match Storage.overwrite? t.data offset bytes with
  | some data => ({ t with data }, .ok ())
  | none => (t, .error .aborted)

end Work

end Texture

namespace ResourceTable

/-- Work on a table. What was changed before a failure stays changed. -/
abbrev Work := Step ResourceTable

namespace Work

/-- Fails where an id is taken. -/
def checkFree (id : UInt64) : Work := looking (fun r => orRefuse (r.free id)) fun _ => skip

/-- Puts a resource into the table, if its id is free. -/
def insert (id : UInt64) (x : Resource) : Work := (checkFree id).andThen (modify (·.add id x))

/-- Work on a texture where it lies in the table. -/
def onTexture (id : UInt64) (f : Texture.Work) : Work :=
  onPart (fun r => orRefuse (r.texture id)) (fun t r => r.put id (.texture t)) f

/-- Work on a buffer where it lies in the table. -/
def onBuffer (id : UInt64) (f : Step ByteArray) : Work :=
  onPart (fun r => orRefuse (r.buffer id)) (fun bytes r => r.put id (.buffer bytes)) f

section Creating

variable [Allocator]

def createTexture (id : UInt64) (width height : UInt32) : Work :=
  (checkFree id).andThen <|
    looking (fun _ => orRefuse (Texture.new width height)) fun t => insert id (.texture t)

/-- Creates a buffer of zeros. -/
def createZeroed (id : UInt64) (size : Nat) : Work :=
  (checkFree id).andThen <|
    looking (fun _ => orRefuse (allocate size)) fun bytes => insert id (.buffer bytes)

def createBuffer (id size : UInt64) : Work := createZeroed id size.toNat

end Creating

/-- Copies bytes into a buffer, from an offset on. -/
def writeBuffer (id : UInt64) (offset : Nat) (bytes : ByteArray) : Work :=
  onBuffer id fun old =>
    match Storage.overwrite? old offset bytes with
    | some new => (new, .ok ())
    | none => (old, .error .aborted)

/-- Creates a buffer of zeros, and then copies bytes into it. -/
def createBufferFrom [Allocator] (id : UInt64) (bytes : ByteArray) : Work :=
  (createZeroed id bytes.size).andThen (writeBuffer id 0 bytes)

def freeTexture (id : UInt64) : Work :=
  looking (fun r => orRefuse (r.texture id)) fun _ => modify (·.erase id)

def freeBuffer (id : UInt64) : Work :=
  looking (fun r => orRefuse (r.buffer id)) fun _ => modify (·.erase id)

def clearColor (id : UInt64) (c : Color) (rect : Rect) : Work := onTexture id (.fill c.pack rect)

def clearDepth (id : UInt64) (d : UInt32) (rect : Rect) : Work :=
  onTexture id (.fill (.ofWord d) rect)

def writeTexture (id : UInt64) (offset : Nat) (bytes : ByteArray) : Work :=
  onTexture id (.write offset bytes)

end Work

end ResourceTable

namespace Gpu

/-- Work on the table of a graphics processor. -/
def onResources (f : ResourceTable.Work) : Step Gpu :=
  onPart (fun g => .ok g.resources) (fun resources g => { g with resources }) f

variable [Allocator]

/-- Performs a command in place. -/
def work : Command → Step Gpu
  | .createTexture id width height => onResources (.createTexture id width height)
  | .freeTexture id => onResources (.freeTexture id)
  | .createBuffer id size => onResources (.createBuffer id size)
  | .createBufferFrom id bytes => onResources (.createBufferFrom id bytes)
  | .freeBuffer id => onResources (.freeBuffer id)
  | .clearColor id color rect => onResources (.clearColor id color rect)
  | .clearDepth id depth rect => onResources (.clearDepth id depth rect)
  | .writeBuffer id offset bytes => onResources (.writeBuffer id offset bytes)
  | .writeTexture id offset bytes => onResources (.writeTexture id offset bytes)
  | .draw call => fun g => ((g.execute call).1, (g.execute call).2.map fun _ => ())

/-- The graphics processor that commands in order leave. -/
def changedBy (g : Gpu) (commands : List Command) : Gpu :=
  commands.foldl (fun g c => (work c g).1) g

end Gpu

end GraphicsPipeline
