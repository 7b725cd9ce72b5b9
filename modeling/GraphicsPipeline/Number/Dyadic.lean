/-!
# Dyadic numbers

The exact values behind binary floating point: an integer times a power of two, with addition and
multiplication that lose nothing, and with the roundings that formats and conversions are made of.
-/

namespace GraphicsPipeline

/-- The number `coefficient * 2 ^ exponent`. One number has many such forms. -/
structure Dyadic where
  coefficient : Int
  exponent : Int
deriving DecidableEq, Repr, Inhabited

def twoPow (k : Nat) : Nat := Nat.pow 2 k

/-- `n / 2 ^ k` rounded to the nearest integer; halfway between two, the even one is taken. -/
def nearestShift (n k : Nat) : Nat :=
  let quotient := n / twoPow k
  let remainder := n % twoPow k
  if 2 * remainder < twoPow k then quotient
  else if twoPow k < 2 * remainder then quotient + 1
  else quotient + quotient % 2

/-- The number of binary digits of `n`; zero has none. -/
def binaryDigits (n : Nat) : Nat :=
  if n = 0 then 0 else n.log2 + 1

namespace Dyadic

def ofInt (n : Int) : Dyadic := ⟨n, 0⟩

/-- The sum, over the smaller of the two exponents. -/
def add (x y : Dyadic) : Dyadic :=
  if x.exponent ≤ y.exponent then
    ⟨x.coefficient + y.coefficient * twoPow (y.exponent - x.exponent).toNat, x.exponent⟩
  else
    ⟨x.coefficient * twoPow (x.exponent - y.exponent).toNat + y.coefficient, y.exponent⟩

def mul (x y : Dyadic) : Dyadic :=
  ⟨x.coefficient * y.coefficient, x.exponent + y.exponent⟩

def neg (x : Dyadic) : Dyadic := ⟨-x.coefficient, x.exponent⟩

instance : Add Dyadic := ⟨add⟩
instance : Mul Dyadic := ⟨mul⟩
instance : Neg Dyadic := ⟨neg⟩

/-- The nearest number whose coefficient has at most `digits` binary digits, ties to even. -/
def roundTo (digits : Nat) (x : Dyadic) : Dyadic :=
  let n := x.coefficient.natAbs
  let excess := binaryDigits n - digits
  if excess = 0 then x
  else ⟨x.coefficient.sign * nearestShift n excess, x.exponent + excess⟩

/-- The greatest integer that is not above the number. -/
def floor (x : Dyadic) : Int :=
  if 0 ≤ x.exponent then x.coefficient * twoPow x.exponent.toNat
  else x.coefficient / twoPow (-x.exponent).toNat

/-- The least integer that is not below the number. -/
def ceil (x : Dyadic) : Int := -(-x).floor

def truncate (x : Dyadic) : Int :=
  if 0 ≤ x.coefficient then x.floor else x.ceil

/-- The nearest integer; a half goes away from zero. -/
def roundAway (x : Dyadic) : Int :=
  if 0 ≤ x.coefficient then (x + ⟨1, -1⟩).floor else -(-x + ⟨1, -1⟩).floor

end Dyadic

end GraphicsPipeline
