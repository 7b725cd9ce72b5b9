import GraphicsPipeline.Image.Texture
import GraphicsPipeline.Number.Sine
import GraphicsPipeline.Shader.Scope
import GraphicsPipeline.Shader.Value
import GraphicsPipeline.Word.Basic

/-!
# What instructions mean

The effect of one instruction, for any way in which registers are stored: it reads registers
through a function and gives a value together with the register or the output slot that takes it.
-/

namespace GraphicsPipeline

/-- What a running program can read besides its inputs. -/
structure Bindings where
  /-- The uniform buffer: vectors of four numbers, the least significant byte first. -/
  uniforms : Option ByteArray := none
  sampler : Option Texture := none
deriving Inhabited

namespace Bindings

/-- The place of a uniform in the buffer, counted in vectors. The address is computed in words of
32 bits. -/
def uniformPlace? (group index : UInt32) : Option UInt32 := do
  let start ← Checked.mul32? group uniformGroupSize
  Checked.add32? start index

def uniform (b : Bindings) (group index : UInt32) : Except Error (Vec4 Binary32) :=
  match b.uniforms with
  | none => .error .missingUniformBuffer
  | some buffer =>
    match (uniformPlace? group index).bind fun place =>
      Storage.words? buffer (place.toNat * 16) 4 with
    | some [x, y, z, w] => .ok ⟨⟨x⟩, ⟨y⟩, ⟨z⟩, ⟨w⟩⟩
    | _ => .error (.uniformOutOfBounds group index)

/-- The colour of the bound texture at a pair of coordinates. -/
def sample (b : Bindings) (u v : Binary32) : Except Fault Color :=
  match b.sampler with
  | none => .error (.refused .missingSampler)
  | some t => t.sample u v

end Bindings

/-- What an instruction does with the value it computes. -/
inductive Effect where
  | define (out : Reg) (value : Value)
  | store (slot : UInt32) (value : Value)
deriving DecidableEq, Repr

/-- The things that an instruction can read: registers, input and output slots, and bindings. -/
structure Surroundings where
  register : Reg → Except Fault Value
  input : UInt32 → Except Fault Value
  output : UInt32 → Except Fault Value
  bindings : Bindings

namespace Surroundings

def channel (s : Surroundings) (p : Swizzle) : Except Fault Binary32 := do
  let v ← s.register p.reg
  orRefuse (v.channel p.channel)

/-- An operation on two registers, channel by channel. -/
def zipWith (s : Surroundings) (f : Binary32 → Binary32 → Binary32) (a b : Reg) :
    Except Fault Value := do
  let x ← s.register a
  let y ← s.register b
  orRefuse (x.zipWith f y)

def effect (s : Surroundings) : Instr → Except Fault Effect
  | .mov4 out parts => return .define out (.vec4 (← parts.mapM s.channel))
  | .sin out a => do
    match ← s.register a with
    | .scalar x => return .define out (.scalar (Sine.ofBinary32 x))
    | v => throw (.refused (.arityMismatch .scalar v.arity))
  | .fmul out a b => return .define out (← s.zipWith (· * ·) a b)
  | .fmulSwizzle out a parts => do
    let right := Value.vec4 (← parts.mapM s.channel)
    let left ← s.register a
    return .define out (← orRefuse (left.zipWith (· * ·) right))
  | .fadd out a b => return .define out (← s.zipWith (· + ·) a b)
  | .iadd out a b => do
    match ← s.register a, ← s.register b with
    | .int x, .int y => return .define out (.int (x + y))
    | x, y => throw (.refused (.arityMismatch x.arity y.arity))
  | .extract out a c => return .define out (.scalar (← s.channel ⟨a, c⟩))
  | .input out slot => return .define out (← s.input slot)
  | .output out slot => return .define out (← s.output slot)
  | .uniform out group index =>
    return .define out (.vec4 (← orRefuse (s.bindings.uniform group index)))
  | .constInt out n => return .define out (.int n)
  | .constVec2 out x y => return .define out (.vec2 x y)
  | .constVec4 out v => return .define out (.vec4 v)
  | .copy out a => return .define out (← s.register a)
  | .store a slot => return .store slot (← s.register a)
  | .sample out uv => do
    match ← s.register uv with
    | .vec2 u v => return .define out (.vec4 (← s.bindings.sample u v))
    | v => throw (.refused (.arityMismatch .vec2 v.arity))

end Surroundings

/-- The values fit the declared inputs, first in number and then in arity. -/
def checkInputs (declared : List Arity) (inputs : Array Value) : Except Error Unit :=
  if inputs.size ≠ declared.length then .error (.badInputCount declared.length inputs.size)
  else
    match (inputs.toList.zip declared).find? fun (v, a) => v.arity ≠ a with
    | some (v, a) => .error (.arityMismatch a v.arity)
    | none => .ok ()

end GraphicsPipeline
