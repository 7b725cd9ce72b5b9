/-!
# Arities and channels

The shapes of the values in registers and slots, and the channels of vectors, each with the byte
that stands for it in compiled form.
-/

namespace GraphicsPipeline

/-- The shape of a value: a number, a vector of two to four numbers, or a word. -/
inductive Arity where
  | scalar
  | vec2
  | vec3
  | vec4
  | int
deriving DecidableEq, Repr, Inhabited

namespace Arity

def width : Arity → Nat
  | scalar => 1
  | vec2 => 2
  | vec3 => 3
  | vec4 => 4
  | int => 1

/-- Vectors have channels that can be selected. -/
def isVector : Arity → Bool
  | vec2 | vec3 | vec4 => true
  | scalar | int => false

/-- All shapes but the word hold single precision numbers. -/
def isFloat : Arity → Bool
  | int => false
  | _ => true

def code : Arity → UInt8
  | scalar => 0
  | vec2 => 1
  | vec3 => 2
  | vec4 => 3
  | int => 4

def ofCode? (b : UInt8) : Option Arity :=
  match b.toNat with
  | 0 => some scalar
  | 1 => some vec2
  | 2 => some vec3
  | 3 => some vec4
  | 4 => some int
  | _ => none

def name : Arity → String
  | scalar => "scalar"
  | vec2 => "vec2"
  | vec3 => "vec3"
  | vec4 => "vec4"
  | int => "int"

end Arity

inductive Channel where
  | x
  | y
  | z
  | w
deriving DecidableEq, Repr, Inhabited

namespace Channel

def index : Channel → Nat
  | x => 0
  | y => 1
  | z => 2
  | w => 3

def code : Channel → UInt8
  | x => 0
  | y => 1
  | z => 2
  | w => 3

def ofIndex? : Nat → Option Channel
  | 0 => some x
  | 1 => some y
  | 2 => some z
  | 3 => some w
  | _ => none

def ofCode? (b : UInt8) : Option Channel := ofIndex? b.toNat

end Channel

end GraphicsPipeline
