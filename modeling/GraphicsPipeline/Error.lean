import GraphicsPipeline.Shader.Arity

/-!
# Errors

Every cause for which an operation refuses its arguments, with its message, and the outcome of an
operation that may also stop short because an access leaves its storage.
-/

namespace GraphicsPipeline

inductive ResourceKind where
  | texture
  | buffer
deriving DecidableEq, Repr

def ResourceKind.name : ResourceKind → String
  | texture => "texture"
  | buffer => "dumb buffer"

inductive BlobKind where
  | shader
  | layout
deriving DecidableEq, Repr

def BlobKind.name : BlobKind → String
  | shader => "shader"
  | layout => "input layout"

inductive BlobDefect where
  | truncatedHeader
  | truncatedSlots
  | slotArity
  | instructionCount
  | reservedInstructionBits
  | unexpectedChannel
  | missingOutputRegister
  | channelSelector
  | storeWithOutputRegister
  | stage
  | attributeCount
  | reservedAttributeBits
  | attributeArity
deriving DecidableEq, Repr

def BlobDefect.description : BlobDefect → String
  | truncatedHeader => "truncated header"
  | truncatedSlots => "truncated"
  | slotArity => "bad slot arity"
  | instructionCount => "bad instruction count"
  | reservedInstructionBits => "reserved instruction bits"
  | unexpectedChannel => "unexpected channel selector"
  | missingOutputRegister => "missing output register"
  | channelSelector => "bad channel selector"
  | storeWithOutputRegister => "store with an output register"
  | stage => "bad stage"
  | attributeCount => "bad attribute count"
  | reservedAttributeBits => "reserved attribute bits"
  | attributeArity => "bad attribute arity"

/-- Why an operation refuses its arguments. -/
inductive Error where
  | alreadyCompiled
  | undefinedRegister (reg : UInt32)
  | duplicateRegister (reg : UInt32)
  /-- A channel that a register of this arity does not have. -/
  | badChannel (channel : UInt32) (arity : Arity)
  | arityMismatch (expected actual : Arity)
  | badInputSlot (slot : UInt32) (declared : Nat)
  | badOutputSlot (slot : UInt32) (declared : Nat)
  /-- A uniform index that reaches into the next group. -/
  | badUniformIndex (index size : UInt32)
  | duplicatePosition
  /-- The claimed number of registers is not the number of defined ones. -/
  | registerCountMismatch (claimed : UInt32) (defined : Nat)
  | unwrittenOutput (slot : Nat)
  | emptyLayout
  | badAttributeArity (arity : Arity)
  | unknownResource (id : UInt64)
  | resourceExists (id : UInt64)
  | wrongResourceKind (id : UInt64) (kind : ResourceKind)
  | badTextureSize (width height : UInt32)
  | badRect (minX maxX minY maxY : UInt32)
  | outOfMemory (bytes : Nat)
  /-- A blob that does not begin as one of its kind. -/
  | badMagic (kind : BlobKind)
  | versionMismatch (found expected : UInt32)
  | malformedBlob (defect : BlobDefect)
  | unknownOpcode (code : UInt8)
  | missingPosition
  | unexpectedPosition
  | missingColorOutput
  | layoutMismatch
  | varyingMismatch
  | badInputCount (expected actual : Nat)
  /-- A number of vertices that makes no whole triangles. -/
  | badVertexCount (count : UInt64)
  | vertexFetchOutOfBounds (vertex : UInt64) (place : Nat)
  | missingUniformBuffer
  | uniformOutOfBounds (group index : UInt32)
  | missingSampler
  | aliasedTargets (id : UInt64)
  | targetSizeMismatch (depthWidth depthHeight colorWidth colorHeight : UInt32)
deriving DecidableEq, Repr

/-- A byte as `0x` and two hexadecimal digits. -/
def hexByte (b : UInt8) : String :=
  String.ofList ['0', 'x', Nat.digitChar (b.toNat / 16), Nat.digitChar (b.toNat % 16)]

def Error.message : Error → String
  | alreadyCompiled => "shader has already been compiled"
  | undefinedRegister reg => s!"register {reg} is not defined"
  | duplicateRegister reg => s!"register {reg} is already defined"
  | badChannel channel arity => s!"channel {channel} is out of range for a {arity.name} register"
  | arityMismatch expected actual =>
    s!"arity mismatch: expected {expected.name}, got {actual.name}"
  | badInputSlot slot declared => s!"input slot {slot} is out of range ({declared} declared)"
  | badOutputSlot slot declared => s!"output slot {slot} is out of range ({declared} declared)"
  | badUniformIndex index size =>
    s!"uniform index {index} is out of range (group size is {size})"
  | duplicatePosition => "program already has a vertex position output"
  | registerCountMismatch claimed defined =>
    s!"program claims {claimed} registers, but defines {defined}"
  | unwrittenOutput slot => s!"output slot {slot} is never written"
  | emptyLayout => "input layout has no attributes"
  | badAttributeArity arity => s!"attribute arity {arity.name} is not supported"
  | unknownResource id => s!"unknown resource {id}"
  | resourceExists id => s!"resource {id} already exists"
  | wrongResourceKind id kind => s!"resource {id} is not a {kind.name}"
  | badTextureSize width height => s!"bad texture size {width}x{height}"
  | badRect minX maxX minY maxY =>
    s!"rectangle [{minX}, {maxX}) x [{minY}, {maxY}) is invalid"
  | outOfMemory bytes => s!"could not allocate {bytes} bytes"
  | badMagic kind => s!"bad magic number in {kind.name} blob"
  | versionMismatch found expected =>
    s!"version mismatch: blob is v{found}, runtime expects v{expected}"
  | malformedBlob defect => s!"malformed blob: {defect.description}"
  | unknownOpcode code => s!"unknown opcode {hexByte code}"
  | missingPosition => "vertex program has no position output"
  | unexpectedPosition => "fragment program has a position output"
  | missingColorOutput => "fragment program has no color output"
  | layoutMismatch => "input layout does not match vertex program inputs"
  | varyingMismatch => "fragment inputs do not match vertex outputs"
  | badInputCount expected actual => s!"expected {expected} inputs, got {actual}"
  | badVertexCount count => s!"vertex count {count} is not a multiple of 3"
  | vertexFetchOutOfBounds vertex place =>
    s!"attribute {place} of vertex {vertex} is outside the vertex buffer"
  | missingUniformBuffer => "no uniform buffer is bound"
  | uniformOutOfBounds group index => s!"uniform ({group}, {index}) is outside the uniform buffer"
  | missingSampler => "no sampler texture is bound"
  | aliasedTargets id => s!"texture {id} is bound to more than one pipeline slot"
  | targetSizeMismatch depthWidth depthHeight colorWidth colorHeight =>
    s!"depth target is {depthWidth}x{depthHeight}, color target is {colorWidth}x{colorHeight}"

/-- How an operation ends that gives no result. -/
inductive Fault where
  /-- The operation refuses its arguments. -/
  | refused (error : Error)
  /-- The operation stops where an access leaves its storage or a word is too small. -/
  | aborted
deriving DecidableEq, Repr

/-- A refusal where an operation may also stop short. -/
def orRefuse {α : Type} : Except Error α → Except Fault α
  | .ok a => .ok a
  | .error e => .error (.refused e)

/-- The value of an access, or the end of the operation where there is none. -/
def orAbort {α : Type} : Option α → Except Fault α
  | some a => .ok a
  | none => .error .aborted

end GraphicsPipeline
