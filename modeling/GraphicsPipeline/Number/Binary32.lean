import GraphicsPipeline.Number.Dyadic

/-!
# Single precision numbers

A binary32 number is kept as its 32-bit word, so that a literal keeps every bit, also the payload
and the sign of a NaN. Arithmetic and comparisons are those of IEEE 754, rounded to nearest even;
conversions go through the exact dyadic value.
-/

namespace GraphicsPipeline

/-- A single precision number, as its word. -/
structure Binary32 where
  bits : UInt32
deriving DecidableEq, Repr, Inhabited

namespace Binary32

/-! ### Arithmetic and order -/

/-- The number as a machine float; all NaNs become one. -/
@[inline] def toFloat (x : Binary32) : Float32 := Float32.ofBits x.bits

/-- The word of a machine float. -/
@[inline] def ofFloat (x : Float32) : Binary32 := ⟨x.toBits⟩

instance : Add Binary32 := ⟨fun x y => ofFloat (x.toFloat + y.toFloat)⟩
instance : Sub Binary32 := ⟨fun x y => ofFloat (x.toFloat - y.toFloat)⟩
instance : Mul Binary32 := ⟨fun x y => ofFloat (x.toFloat * y.toFloat)⟩
instance : Div Binary32 := ⟨fun x y => ofFloat (x.toFloat / y.toFloat)⟩

/-- Negation turns the sign bit, whatever the number. -/
instance : Neg Binary32 := ⟨fun x => ⟨x.bits ^^^ 0x80000000⟩⟩

instance : LT Binary32 := ⟨fun x y => x.toFloat < y.toFloat⟩
instance : LE Binary32 := ⟨fun x y => x.toFloat ≤ y.toFloat⟩

instance (x y : Binary32) : Decidable (x < y) := Float32.decLt x.toFloat y.toFloat
instance (x y : Binary32) : Decidable (x ≤ y) := Float32.decLe x.toFloat y.toFloat

def zero : Binary32 := ⟨0⟩

def one : Binary32 := ⟨0x3f800000⟩

/-! ### Classes of words -/

/-- The word without its sign. -/
def magnitude (x : Binary32) : UInt32 := x.bits &&& 0x7fffffff

def isNegative (x : Binary32) : Bool := x.bits ≥ 0x80000000

def isZero (x : Binary32) : Bool := x.magnitude = 0

def isFinite (x : Binary32) : Bool := x.magnitude < 0x7f800000

def isNaN (x : Binary32) : Bool := 0x7f800000 < x.magnitude

/-! ### The exact value -/

/-- The leading one of a normal number, above the 23 binary digits of its fraction. -/
def leadingOne : Nat := 0x800000

/-- The value of a finite number. A biased exponent of zero marks a subnormal number, which has
no leading one and the exponent of the smallest normal numbers. -/
def toDyadic? (x : Binary32) : Option Dyadic :=
  if x.isFinite then
    let biased := x.magnitude.toNat / leadingOne
    let fraction := x.magnitude.toNat % leadingOne
    let size : Nat := if biased = 0 then fraction else fraction + leadingOne
    some ⟨if x.isNegative then -size else size, (max biased 1 : Nat) - 150⟩
  else none

/-- The word of `n * 2 ^ e`, rounded to nearest even: 24 binary digits are kept, fewer below the
normal numbers, and what is too large becomes infinite. The digits kept, counted from the smallest
subnormal number, run on from one exponent to the next, so that a carry needs no care. -/
def magnitudeOf (n : Nat) (e : Int) : UInt32 :=
  if n = 0 then 0
  else
    let last := max (e + binaryDigits n - 24) (-149)
    let kept := if last ≤ e then n * twoPow (e - last).toNat else nearestShift n (last - e).toNat
    UInt32.ofNat (min ((last + 149).toNat * leadingOne + kept) 0x7f800000)

/-- The nearest single precision number, ties to even; zero is positive. -/
def ofDyadic (x : Dyadic) : Binary32 :=
  let m := magnitudeOf x.coefficient.natAbs x.exponent
  ⟨if x.coefficient < 0 then m ||| 0x80000000 else m⟩

/-- The nearest single precision number to a word. -/
def ofUInt32 (n : UInt32) : Binary32 := ofDyadic (.ofInt n.toNat)

/-! ### Rounding to integers -/

/-- An integral rounding as a function on single precision numbers: infinite numbers and NaNs stay,
and a zero result keeps the sign of its argument. -/
def roundWith (f : Dyadic → Int) (x : Binary32) : Binary32 :=
  match x.toDyadic? with
  | none => x
  | some d =>
    let r := ofDyadic (.ofInt (f d))
    if r.isZero && x.isNegative then ⟨0x80000000⟩ else r

/-- The greatest integral number that is not above. -/
def floor (x : Binary32) : Binary32 := x.roundWith Dyadic.floor

/-- The least integral number that is not below. -/
def ceil (x : Binary32) : Binary32 := x.roundWith Dyadic.ceil

/-- An integral rounding into `0, …, bound`: what lies outside goes to the nearer end, and a NaN
to zero. -/
def saturate (f : Dyadic → Int) (bound : Nat) (x : Binary32) : Nat :=
  match x.toDyadic? with
  | some d => min (f d).toNat bound
  | none => if x.isNaN || x.isNegative then 0 else bound

/-- The integral part as a word; what does not fit goes to the nearer end. -/
def toUInt32 (x : Binary32) : UInt32 := UInt32.ofNat (x.saturate Dyadic.truncate (UInt32.size - 1))

/-- The number moved into `[low, high]`; a NaN stays. -/
def clamp (x low high : Binary32) : Binary32 :=
  if x < low then low else if high < x then high else x

end Binary32

end GraphicsPipeline
