/-!
# Words

Four things of one type, one for each of the channels `x`, `y`, `z` and `w`. A 32-bit word as four
bytes, the least significant first, and readers that take words off the front of a list of bytes and
hand back the rest. Sums and products of words that fail where the word cannot hold the result.
-/

namespace GraphicsPipeline

/-! ### Quadruples -/

/-- One thing for each of four channels. -/
structure Vec4 (α : Type) where
  x : α
  y : α
  z : α
  w : α
deriving DecidableEq, Repr, Inhabited

namespace Vec4

variable {α β : Type}

def fill (a : α) : Vec4 α := ⟨a, a, a, a⟩

def map (f : α → β) (v : Vec4 α) : Vec4 β := ⟨f v.x, f v.y, f v.z, f v.w⟩

/-- A function that may fail on each channel; of several failures the first counts. -/
def mapM {m : Type → Type} [Monad m] (f : α → m β) (v : Vec4 α) : m (Vec4 β) := do
  let x ← f v.x
  let y ← f v.y
  let z ← f v.z
  let w ← f v.w
  return ⟨x, y, z, w⟩

def toList (v : Vec4 α) : List α := [v.x, v.y, v.z, v.w]

end Vec4

/-! ### Little-endian words -/

/-- A string of bytes, read from the front. -/
abbrev Bytes := List UInt8

namespace LittleEndian

def encode (w : UInt32) : Bytes :=
  [w.toUInt8, (w >>> 8).toUInt8, (w >>> 16).toUInt8, (w >>> 24).toUInt8]

/-- The word with the given four bytes. -/
def decode (b₀ b₁ b₂ b₃ : UInt8) : UInt32 :=
  b₀.toUInt32 ||| (b₁.toUInt32 <<< 8) ||| (b₂.toUInt32 <<< 16) ||| (b₃.toUInt32 <<< 24)

/-- The first word of a string of bytes, and the rest. -/
def takeWord? : Bytes → Option (UInt32 × Bytes)
  | b₀ :: b₁ :: b₂ :: b₃ :: rest => some (decode b₀ b₁ b₂ b₃, rest)
  | _ => none

/-- The first `n` words of a string of bytes, and the rest. -/
def takeWords? : (n : Nat) → Bytes → Option (List UInt32 × Bytes)
  | 0, bytes => some ([], bytes)
  | n + 1, bytes => do
    let (w, bytes) ← takeWord? bytes
    let (ws, bytes) ← takeWords? n bytes
    some (w :: ws, bytes)

end LittleEndian

/-! ### Checked words -/

namespace Checked

/-- A number as a 32-bit word, if it is one. -/
def word32? (n : Nat) : Option UInt32 := if n < UInt32.size then some (UInt32.ofNat n) else none

/-- A number as a 64-bit word, if it is one. -/
def word64? (n : Nat) : Option UInt64 := if n < UInt64.size then some (UInt64.ofNat n) else none

def add32? (x y : UInt32) : Option UInt32 := word32? (x.toNat + y.toNat)

def sub32? (x y : UInt32) : Option UInt32 := if y ≤ x then some (x - y) else none

def mul32? (x y : UInt32) : Option UInt32 := word32? (x.toNat * y.toNat)

def add64? (x y : UInt64) : Option UInt64 := word64? (x.toNat + y.toNat)

def mul64? (x y : UInt64) : Option UInt64 := word64? (x.toNat * y.toNat)

end Checked

end GraphicsPipeline
