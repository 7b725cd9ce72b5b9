import GraphicsPipeline.Proofs.Number.Binary32

/-!
# Differences the other way round

A difference of single precision numbers that is taken the other way round is negated, bit for bit,
unless it is zero or undefined: rounding does not look at the sign (`Binary32.sub_swap`). Products
do not depend on the order of their factors.
-/

namespace GraphicsPipeline

open Float.Model (Format UnpackedFloat)
open Float.Model.UnpackedFloat

/-! ### Unpacked numbers -/

section Unpacked

variable (spec : Format) (u v : UnpackedFloat)

lemma sign_mul_comm (s t : Sign) : s * t = t * s := by
  cases s <;> cases t <;> rfl

lemma sign_neg_neg (s : Sign) : - -s = s := by
  cases s <;> rfl

lemma mul_unpacked_comm : mul spec u v = mul spec v u := by
  cases u <;> cases v <;> simp only [mul, sign_mul_comm, Nat.mul_comm, Int.add_comm]

lemma roundWithAccuracy_neg (s : Sign) (m : Nat) (e : Int) (a : Accuracy) :
    roundWithAccuracy spec (-s) m e a = (roundWithAccuracy spec s m e a).neg := by
  simp only [roundWithAccuracy]
  split <;> rfl

lemma round_neg (s : Sign) (m : Nat) (e : Int) : round spec (-s) m e = (round spec s m e).neg :=
  roundWithAccuracy_neg spec s _ _ .exact

lemma normalize_neg {m : Int} (hm : m ≠ 0) (e : Int) (s : Sign) :
    UnpackedFloat.normalize spec (-m) e s = (UnpackedFloat.normalize spec m e s).neg := by
  rw [UnpackedFloat.normalize, UnpackedFloat.normalize]
  rcases hm.lt_or_gt with hneg | hpos
  · rw [compare_lt_iff_lt.2 hneg, compare_gt_iff_gt.2 (Int.neg_pos.2 hneg)]
    exact round_neg spec .negative _ e
  · rw [compare_gt_iff_gt.2 hpos, compare_lt_iff_lt.2 (Int.neg_neg_iff_pos.2 hpos)]
    simp only [neg_neg]
    exact round_neg spec .positive _ e

/-- A difference that is taken the other way round is negated, unless it is zero. -/
lemma sub_unpacked_swap : (∃ s, sub spec u v = .zero s) ∨ sub spec v u = (sub spec u v).neg := by
  cases u with
  | notANumber => cases v <;> exact .inr rfl
  | infinity s =>
    cases v with
    | infinity t => cases s <;> cases t <;> exact .inr rfl
    | _ => exact .inr rfl
  | zero s =>
    cases v with
    | zero t => cases s <;> cases t <;> exact .inl ⟨_, rfl⟩
    | finite t n f hn => exact .inr (by simp only [sub, neg, sign_neg_neg])
    | infinity t => exact .inr (by simp only [sub, neg, sign_neg_neg])
    | notANumber => exact .inr rfl
  | finite s m e hm =>
    cases v with
    | finite t n f hn =>
      -- both differences are of the same integers, and only where these are equal a sign is lost
      simp only [sub, min_comm f e]
      generalize s.apply _ = k
      generalize t.apply _ = l
      by_cases hzero : k - l = 0
      · exact .inl ⟨.positive, by rw [hzero]; rfl⟩
      · exact .inr (by rw [← Int.neg_sub, normalize_neg spec hzero])
    | infinity t => exact .inr (by simp only [sub, neg, sign_neg_neg])
    | _ => exact .inr rfl

end Unpacked

/-! ### Words -/

lemma packComponents_neg (s : Sign) (E : BitVec 8) (M : BitVec 23) :
    packComponents .binary32 (-s) E M = packComponents .binary32 s E M ^^^ 0x80000000#32 := by
  have hbit : (-s).toBitVec = s.toBitVec ^^^ 1#1 := by
    cases s <;> rfl
  have hsplit : 0x80000000#32 = 1#1 ++ 0#8 ++ 0#23 := rfl
  change (-s).toBitVec ++ E ++ M = (s.toBitVec ++ E ++ M) ^^^ 0x80000000#32
  rw [hsplit, BitVec.xor_append, BitVec.xor_append, hbit, BitVec.xor_zero, BitVec.xor_zero]

/-- A negated number has the sign bit turned, unless it is undefined. -/
lemma pack_neg {u : UnpackedFloat} (h : u ≠ .notANumber) :
    pack .binary32 u.neg = pack .binary32 u ^^^ 0x80000000#32 := by
  cases u with
  | notANumber => exact absurd rfl h
  | infinity s => exact packComponents_neg s _ _
  | zero s => exact packComponents_neg s _ _
  | finite s m e hm =>
    simp only [neg, pack]
    split_ifs
    · exact packComponents_neg s _ _
    · exact packComponents_neg s _ _
    · exact packComponents_neg s _ _

namespace Binary32

variable {x y : Binary32}

/-- The word of an unpacked number. -/
def ofUnpacked (u : UnpackedFloat) : Binary32 := ⟨UInt32.ofBitVec (pack .binary32 u)⟩

lemma mul_eq (x y : Binary32) :
    x * y = ofUnpacked (mul .binary32 x.toFloat.toModel.unpack y.toFloat.toModel.unpack) := rfl

lemma sub_eq (x y : Binary32) :
    x - y = ofUnpacked (sub .binary32 x.toFloat.toModel.unpack y.toFloat.toModel.unpack) := rfl

lemma neg_eq (x : Binary32) : -x = ⟨x.bits ^^^ 0x80000000⟩ := rfl

lemma ofUnpacked_neg {u : UnpackedFloat} (h : u ≠ .notANumber) :
    ofUnpacked u.neg = -ofUnpacked u := by
  rw [ofUnpacked, pack_neg h]
  rfl

lemma mul_comm (x y : Binary32) : x * y = y * x := by
  rw [mul_eq, mul_eq, mul_unpacked_comm]

lemma magnitude_neg (x : Binary32) : (-x).magnitude = x.magnitude := by
  have hsign : (0x80000000 : UInt32).toNat &&& (0x7fffffff : UInt32).toNat = 0 := by decide
  rw [magnitude, magnitude, neg_eq, ← UInt32.toNat_inj, UInt32.toNat_and, UInt32.toNat_and,
    UInt32.toNat_xor, Nat.and_xor_distrib_right, hsign, Nat.xor_zero]

lemma isNegative_eq_msb (x : Binary32) : x.isNegative = x.bits.toBitVec.msb := by
  rw [BitVec.msb_eq_decide]
  rfl

lemma isNegative_neg (x : Binary32) : (-x).isNegative = !x.isNegative := by
  have hsign : (0x80000000 : UInt32).toBitVec.msb = true := by decide
  rw [isNegative_eq_msb, isNegative_eq_msb, neg_eq, UInt32.toBitVec_xor, BitVec.msb_xor, hsign,
    Bool.xor_true]

lemma neg_neg (x : Binary32) : - -x = x := by
  rw [neg_eq, neg_eq, UInt32.xor_assoc, UInt32.xor_self, UInt32.xor_zero]

/-- A difference that is taken the other way round is negated, unless it is zero or undefined. -/
theorem sub_swap (hzero : ¬(x - y).isZero) (hnan : ¬(x - y).isNaN) : y - x = -(x - y) := by
  rw [sub_eq] at hzero hnan
  rw [sub_eq, sub_eq]
  rcases sub_unpacked_swap .binary32 x.toFloat.toModel.unpack y.toFloat.toModel.unpack with
    ⟨s, hs⟩ | hswap
  · rw [hs] at hzero
    cases s <;> exact absurd (by decide) hzero
  · rw [hswap, ofUnpacked_neg]
    intro hundefined
    rw [hundefined] at hnan
    exact hnan (by decide)

/-! ### Signs -/

lemma isZero_iff_magnitude : x.isZero ↔ x.magnitude.toNat = 0 := by
  rw [isZero, decide_eq_true_eq, ← UInt32.toNat_inj]
  rfl

lemma not_isNaN {d : Dyadic} (h : x.toDyadic? = some d) : ¬x.isNaN := by
  intro hnan
  rw [toDyadic?_eq_none.2 (isNaN_iff.1 hnan).le] at h
  cases h

/-- A finite number is zero if its exact value has no coefficient. -/
lemma isZero_iff {d : Dyadic} (h : x.toDyadic? = some d) : x.isZero ↔ d.coefficient = 0 := by
  have happly (s : Sign) (n : Nat) : s.apply n = 0 ↔ n = 0 := by
    cases s <;> simp [Sign.apply]
  have hfinite : x.magnitude.toNat < 255 * 2 ^ 23 := by
    by_contra hlarge
    rw [toDyadic?_eq_none.2 (not_lt.1 hlarge)] at h
    cases h
  rw [isZero_iff_magnitude]
  rcases Nat.lt_or_ge x.magnitude.toNat (2 ^ 23) with hlt | hge
  · cases (toDyadic?_of_lt hlt).symm.trans h
    exact (happly _ _).symm
  · cases (toDyadic?_of_le hge hfinite).symm.trans h
    rw [happly]
    omega

/-- A number is compared with zero by its sign, unless it is zero or undefined. -/
lemma compare_zero (x : Binary32) :
    x.toFloat.toModel.unpack.compare (.zero .positive) =
      if x.isNaN then none else if x.isZero then some .eq
      else if x.isNegative then some .lt else some .gt := by
  have hunpacks := @unpacks_toFloat x
  generalize x.toFloat.toModel.unpack = u at hunpacks ⊢
  cases hunpacks with
  | notANumber h hnan => rw [if_pos hnan]; rfl
  | infinity h hnan =>
    have hzero : ¬x.isZero := by
      have hlarge := toDyadic?_eq_none.1 h
      rw [isZero_iff_magnitude]
      omega
    rw [if_neg hnan, if_neg hzero, sign]
    cases x.isNegative <;> rfl
  | zero h => rw [if_neg (not_isNaN h), if_pos ((isZero_iff h).2 rfl)]; rfl
  | @finite m e hm h =>
    have hzero : ¬x.isZero := by
      rw [isZero_iff h]
      cases x.sign <;> simp [Sign.apply, hm.ne']
    rw [if_neg (not_isNaN h), if_neg hzero, sign]
    cases x.isNegative <;> rfl

lemma unpack_zero : (Coordinate.zero : Binary32).toFloat.toModel.unpack = .zero .positive := by
  rfl

lemma lt_zero_iff : x < Coordinate.zero ↔ x.isNegative ∧ ¬x.isZero ∧ ¬x.isNaN := by
  rw [lt_iff_compare, unpack_zero, compare_zero]
  cases x.isNaN <;> cases x.isZero <;> cases x.isNegative <;> simp

lemma zero_lt_iff : Coordinate.zero < x ↔ ¬x.isNegative ∧ ¬x.isZero ∧ ¬x.isNaN := by
  have hswap (u : UnpackedFloat) : UnpackedFloat.compare (.zero .positive) u =
      (u.compare (.zero .positive)).map Ordering.swap := by
    rcases u with ⟨_ | _⟩ | _ | _ | ⟨_ | _⟩ <;> rfl
  rw [lt_iff_compare, unpack_zero, hswap, compare_zero]
  cases x.isNaN <;> cases x.isZero <;> cases x.isNegative <;> simp

lemma not_lt_zero (h : Coordinate.zero < x) : ¬x < Coordinate.zero :=
  fun hneg => (zero_lt_iff.1 h).1 (lt_zero_iff.1 hneg).1

/-- Below zero, the number the other way round is above. -/
lemma zero_lt_neg_iff : Coordinate.zero < -x ↔ x < Coordinate.zero := by
  simp only [zero_lt_iff, lt_zero_iff, isNegative_neg, isZero, isNaN, magnitude_neg,
    Bool.not_eq_true', Bool.not_eq_true, Bool.not_eq_false]

lemma neg_lt_zero_iff : -x < Coordinate.zero ↔ Coordinate.zero < x := by
  rw [← zero_lt_neg_iff, neg_neg]

lemma sub_swap_of_lt (h : x - y < Coordinate.zero) : y - x = -(x - y) :=
  sub_swap (lt_zero_iff.1 h).2.1 (lt_zero_iff.1 h).2.2

/-- A difference is negative where it is positive the other way round. -/
theorem sub_lt_zero_iff : x - y < Coordinate.zero ↔ Coordinate.zero < y - x := by
  constructor
  · intro h
    rwa [sub_swap_of_lt h, zero_lt_neg_iff]
  · intro h
    rw [sub_swap (zero_lt_iff.1 h).2.1 (zero_lt_iff.1 h).2.2]
    rwa [neg_lt_zero_iff]

end Binary32

end GraphicsPipeline
