import GraphicsPipeline.Image.Texture

/-!
# Resources

Textures and byte buffers, kept in one table under ids that their owner chooses. Both kinds share
the ids.
-/

namespace GraphicsPipeline

inductive Resource where
  | texture (t : Texture)
  | buffer (bytes : ByteArray)
deriving Inhabited

def Resource.kind : Resource → ResourceKind
  | texture _ => .texture
  | buffer _ => .buffer

/-- The resources by id, in the order of their creation. -/
structure ResourceTable where
  entries : List (UInt64 × Resource)
deriving Inhabited

namespace ResourceTable

def empty : ResourceTable := ⟨[]⟩

def size (r : ResourceTable) : Nat := r.entries.length

def get? (r : ResourceTable) (id : UInt64) : Option Resource := r.entries.lookup id

def contains (r : ResourceTable) (id : UInt64) : Bool := (r.get? id).isSome

def add (r : ResourceTable) (id : UInt64) (resource : Resource) : ResourceTable :=
  ⟨r.entries ++ [(id, resource)]⟩

/-- The table with another resource under an id that is taken. -/
def put (r : ResourceTable) (id : UInt64) (resource : Resource) : ResourceTable :=
  ⟨r.entries.map fun e => if e.1 = id then (id, resource) else e⟩

def erase (r : ResourceTable) (id : UInt64) : ResourceTable :=
  ⟨r.entries.filter fun e => e.1 ≠ id⟩

def texture (r : ResourceTable) (id : UInt64) : Except Error Texture :=
  match r.get? id with
  | some (.texture t) => .ok t
  | some (.buffer _) => .error (.wrongResourceKind id .texture)
  | none => .error (.unknownResource id)

def buffer (r : ResourceTable) (id : UInt64) : Except Error ByteArray :=
  match r.get? id with
  | some (.buffer bytes) => .ok bytes
  | some (.texture _) => .error (.wrongResourceKind id .buffer)
  | none => .error (.unknownResource id)

/-- The texture with an id, and the table without it. -/
def take (r : ResourceTable) (id : UInt64) : Except Error (Texture × ResourceTable) := do
  let t ← r.texture id
  return (t, r.erase id)

/-- The table with a texture under an id, instead of what the id stood for. -/
def restore (r : ResourceTable) (id : UInt64) (t : Texture) : ResourceTable :=
  (r.erase id).add id (.texture t)

/-- The table itself, if an id is free. -/
def free (r : ResourceTable) (id : UInt64) : Except Error ResourceTable :=
  if r.contains id then .error (.resourceExists id) else .ok r

/-! ### Creating and freeing -/

section Creating

variable [Allocator]

/-- The table with a new texture, all bytes zero. -/
def createTexture (r : ResourceTable) (id : UInt64) (width height : UInt32) :
    Except Error ResourceTable := do
  let r ← r.free id
  return r.add id (.texture (← Texture.new width height))

/-- The table with a new buffer, all bytes zero. -/
def createBuffer (r : ResourceTable) (id : UInt64) (size : UInt64) :
    Except Error ResourceTable := do
  let r ← r.free id
  return r.add id (.buffer (← allocate size.toNat))

/-- The table with a new buffer of given bytes. -/
def createBufferFrom (r : ResourceTable) (id : UInt64) (bytes : ByteArray) :
    Except Error ResourceTable := do
  let r ← r.free id
  reserve bytes.size
  return r.add id (.buffer bytes)

end Creating

def freeTexture (r : ResourceTable) (id : UInt64) : Except Error ResourceTable := do
  let _ ← r.texture id
  return r.erase id

def freeBuffer (r : ResourceTable) (id : UInt64) : Except Error ResourceTable := do
  let _ ← r.buffer id
  return r.erase id

/-! ### Changing contents -/

def clearColor (r : ResourceTable) (id : UInt64) (c : Color) (rect : Rect) :
    Except Fault ResourceTable := do
  let t ← orRefuse (r.texture id)
  return r.put id (.texture (← t.clearColor c rect))

def clearDepth (r : ResourceTable) (id : UInt64) (d : UInt32) (rect : Rect) :
    Except Fault ResourceTable := do
  let t ← orRefuse (r.texture id)
  return r.put id (.texture (← t.clearDepth d rect))

def writeBuffer (r : ResourceTable) (id : UInt64) (offset : Nat) (bytes : ByteArray) :
    Except Fault ResourceTable := do
  let old ← orRefuse (r.buffer id)
  return r.put id (.buffer (← orAbort (Storage.overwrite? old offset bytes)))

def writeTexture (r : ResourceTable) (id : UInt64) (offset : Nat) (bytes : ByteArray) :
    Except Fault ResourceTable := do
  let t ← orRefuse (r.texture id)
  return r.put id (.texture { t with data := ← orAbort (Storage.overwrite? t.data offset bytes) })

end ResourceTable

end GraphicsPipeline
