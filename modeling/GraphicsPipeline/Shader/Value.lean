import GraphicsPipeline.Number.Binary32
import GraphicsPipeline.Word.Basic
import GraphicsPipeline.Error

/-!
# Values

What registers and slots hold while a program runs.
-/

namespace GraphicsPipeline

inductive Value where
  | scalar (x : Binary32)
  | vec2 (x y : Binary32)
  | vec3 (x y z : Binary32)
  | vec4 (v : Vec4 Binary32)
  | int (n : UInt32)
deriving DecidableEq, Repr, Inhabited

namespace Value

def arity : Value → Arity
  | scalar _ => .scalar
  | vec2 _ _ => .vec2
  | vec3 _ _ _ => .vec3
  | vec4 _ => .vec4
  | int _ => .int

/-- The value of an arity with all bits zero. -/
def zero : Arity → Value
  | .scalar => scalar .zero
  | .vec2 => vec2 .zero .zero
  | .vec3 => vec3 .zero .zero .zero
  | .vec4 => vec4 (.fill .zero)
  | .int => int 0

/-- The single precision numbers of the value; a word has none. -/
def components : Value → List Binary32
  | scalar x => [x]
  | vec2 x y => [x, y]
  | vec3 x y z => [x, y, z]
  | vec4 v => v.toList
  | int _ => []

/-- The value with the given numbers, if there are as many as the arity takes. -/
def ofComponents? : Arity → List Binary32 → Option Value
  | .scalar, [x] => some (scalar x)
  | .vec2, [x, y] => some (vec2 x y)
  | .vec3, [x, y, z] => some (vec3 x y z)
  | .vec4, [x, y, z, w] => some (vec4 ⟨x, y, z, w⟩)
  | _, _ => none

def channel (v : Value) (c : Channel) : Except Error Binary32 :=
  let refusal := .error (.badChannel (UInt32.ofNat c.index) v.arity)
  if v.arity.isVector then
    match v.components[c.index]? with
    | some x => .ok x
    | none => refusal
  else refusal

/-- An operation on numbers, channel by channel, on two values of the same shape. -/
def zipWith (f : Binary32 → Binary32 → Binary32) : Value → Value → Except Error Value
  | scalar x, scalar x' => .ok (scalar (f x x'))
  | vec2 x y, vec2 x' y' => .ok (vec2 (f x x') (f y y'))
  | vec3 x y z, vec3 x' y' z' => .ok (vec3 (f x x') (f y y') (f z z'))
  | vec4 v, vec4 v' => .ok (vec4 ⟨f v.x v'.x, f v.y v'.y, f v.z v'.z, f v.w v'.w⟩)
  | a, b => .error (.arityMismatch a.arity b.arity)

def toVec4 : Value → Except Error (Vec4 Binary32)
  | vec4 v => .ok v
  | v => .error (.arityMismatch .vec4 v.arity)

end Value

end GraphicsPipeline
