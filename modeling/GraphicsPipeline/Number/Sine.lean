import GraphicsPipeline.Number.Binary32

/-!
# Sine

The sine of a single precision number, to within a rounding error of the last bit. The argument is
brought into `[-π/4, π/4]` in numbers of 53 binary digits, a short polynomial is evaluated there
with fused multiplications and additions, and the result is rounded to single precision once more.
-/

namespace GraphicsPipeline.Sine

/-- `x * y` with 53 binary digits. -/
def product (x y : Dyadic) : Dyadic := (x * y).roundTo 53

/-- `x * y + z`, rounded once to 53 binary digits. -/
def fused (x y z : Dyadic) : Dyadic := (x * y + z).roundTo 53

/-! ### Polynomials -/

/-- The coefficients of `x³`, `x⁵` and `x⁷` in the sine of a small number. -/
def oddTerms : Dyadic × Dyadic × Dyadic :=
  (⟨-0x1555545995a603, -55⟩, ⟨0x11107605230bc4, -59⟩, ⟨-0x1994eb3774cf24, -65⟩)

/-- The coefficients of `1`, `x²`, `x⁴`, `x⁶` and `x⁸` in the cosine of a small number. -/
def evenTerms : Dyadic × Dyadic × Dyadic × Dyadic × Dyadic :=
  (⟨1, 0⟩, ⟨-0x1ffffffd0c621c, -54⟩, ⟨0x155553e1068f19, -57⟩, ⟨-0x16c087e89a359d, -62⟩,
    ⟨0x199343027bf8c3, -68⟩)

def oddPolynomial (x : Dyadic) : Dyadic :=
  let (s₁, s₂, s₃) := oddTerms
  let x₂ := product x x
  let x₃ := product x x₂
  fused (product x₃ x₂) (fused x₂ s₃ s₂) (fused x₃ s₁ x)

/-- The cosine of a small number, and with `negative` its opposite. -/
def evenPolynomial (negative : Bool) (x : Dyadic) : Dyadic :=
  let (c₀, c₁, c₂, c₃, c₄) := evenTerms
  let signed := fun c : Dyadic => if negative then -c else c
  let x₂ := product x x
  let x₄ := product x₂ x₂
  let low := fused x₂ (signed c₁) (signed c₀)
  let high := fused x₂ (signed c₄) (signed c₃)
  fused (product x₄ x₂) high (fused x₄ (signed c₂) low)

/-- The sine of `x + quarter * π / 2` for a small `x`. -/
def ofQuarter (quarter : Nat) (x : Dyadic) : Dyadic :=
  match quarter % 4 with
  | 0 => oddPolynomial x
  | 1 => evenPolynomial false x
  | 2 => oddPolynomial (-x)
  | _ => evenPolynomial true x

/-! ### Bringing the argument near zero -/

/-- `2 ^ 25 / π`, with 53 binary digits. -/
def quartersScale : Dyadic := ⟨0x145f306dc9c883, -29⟩

/-- `π / 2`, with 53 binary digits. -/
def halfPi : Dyadic := ⟨0x1921fb54442d18, -52⟩

/-- The nearest multiple of `π / 2` to a number of moderate size, and what remains of the number. -/
def reduceModerate (x : Dyadic) : Nat × Dyadic :=
  let quarters := ((product x quartersScale).truncate + 0x800000) / 0x1000000
  ((quarters % 4).toNat, fused (.ofInt (-quarters)) halfPi x)

/-- Windows of 32 bits on the binary digits of `4 / π`, each eight digits after the one before. -/
def fourOverPi : List UInt32 :=
  [0xa2, 0xa2f9, 0xa2f983, 0xa2f9836e, 0xf9836e4e, 0x836e4e44, 0x6e4e4415, 0x4e441529,
    0x441529fc, 0x1529fc27, 0x29fc2757, 0xfc2757d1, 0x2757d1f5, 0x57d1f534, 0xd1f534dd,
    0xf534ddc0, 0x34ddc0db, 0xddc0db62, 0xc0db6295, 0xdb629599, 0x6295993c, 0x95993c43,
    0x993c4390, 0x3c439041]

/-- The nearest multiple of `π / 2` to the size of a large number, and what remains of it. Only the
binary digits of `4 / π` that matter for the exponent are multiplied: those above give multiples of
the full circle, those below vanish. -/
def reduceLarge (x : Binary32) : Nat × Dyadic :=
  let start := ((x.bits >>> 26) &&& 15).toNat
  let digits := ((x.bits &&& 0x7fffff) ||| 0x800000) <<< ((x.bits >>> 23) &&& 7)
  let window := fun i => fourOverPi.getD (start + i) 0
  let high := (digits * window 0).toUInt64 <<< 32
  let middle := digits.toUInt64 * (window 4).toUInt64
  let low := (digits.toUInt64 * (window 8).toUInt64) >>> 32
  let turns := high + middle + low
  let quarter := (turns + 0x2000000000000000) >>> 62
  let rest := (turns - (quarter <<< 62)).toInt64
  (quarter.toNat, product ((Dyadic.ofInt rest.toInt).roundTo 53) ⟨0x1921fb54442d18, -114⟩)

/-- The sine of a number: tiny numbers are their own sine, and infinite ones have none. -/
def ofBinary32 (x : Binary32) : Binary32 :=
  match x.toDyadic? with
  | none => ⟨0x7fc00000⟩
  | some d =>
    if x.magnitude < 0x39800000 then x
    else if x.magnitude < 0x3f400000 then .ofDyadic (oddPolynomial d)
    else if x.magnitude < 0x42f00000 then
      let (quarter, rest) := reduceModerate d
      .ofDyadic (ofQuarter quarter rest)
    else
      let (quarter, rest) := reduceLarge x
      let s := ofQuarter quarter rest
      .ofDyadic (if x.isNegative then -s else s)

end GraphicsPipeline.Sine
