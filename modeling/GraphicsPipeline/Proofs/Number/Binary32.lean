import GraphicsPipeline.Number.Coordinate
import GraphicsPipeline.Proofs.Number.Dyadic

/-!
# Comparison of single precision numbers

Machine floats are compared after they were unpacked into sign, coefficient and exponent. What a
word is unpacked to is its exact value, so finite numbers are compared by their values
(`Binary32.lt_iff`). It follows that a number that was clamped to a word stays below that word.
-/

namespace GraphicsPipeline

open Float.Model (Format UnpackedFloat)
open Float.Model.UnpackedFloat

/-! ### Fields of words -/

variable {b : BitVec 32}

lemma toNat_unpackMantissa : (@unpackMantissa .binary32 b).toNat = b.toNat % 2 ^ 23 := by
  simp [unpackMantissa]

lemma toNat_unpackExponent :
    (@unpackExponent .binary32 b).toNat = b.toNat / 2 ^ 23 % 2 ^ 8 := by
  simp [unpackExponent, Nat.shiftRight_eq_div_pow]

lemma toNat_unpackSign : (@unpackSign .binary32 b).toNat = b.toNat / 2 ^ 31 := by
  have hb := b.isLt
  simp only [unpackSign, BitVec.toNat_cast, BitVec.extractLsb_toNat, Nat.shiftRight_eq_div_pow]
  omega

lemma unpackSign_packComponents {sign : Sign} {exponent : BitVec 8} {mantissa : BitVec 23} :
    Sign.ofBitVec (unpackSign (packComponents .binary32 sign exponent mantissa)) = sign := by
  have hbit : @unpackSign .binary32 (packComponents .binary32 sign exponent mantissa) =
      sign.toBitVec := by
    have hexponent := exponent.isLt
    have hmantissa := mantissa.isLt
    have hsign : (sign.toBitVec ++ exponent ++ mantissa).toNat / 2 ^ 31 = sign.toBitVec.toNat := by
      rw [BitVec.toNat_append, BitVec.toNat_append, ← Nat.shiftLeft_add_eq_or_of_lt hmantissa,
        ← Nat.shiftLeft_add_eq_or_of_lt hexponent, Nat.shiftLeft_eq, Nat.shiftLeft_eq]
      omega
    rw [← BitVec.toNat_inj, toNat_unpackSign]
    exact hsign
  rw [hbit]
  cases sign <;> rfl

lemma toNat_one_append {M : BitVec 23} : (1#1 ++ M).toNat = 2 ^ 23 + M.toNat := by
  rw [BitVec.toNat_append, ← Nat.shiftLeft_add_eq_or_of_lt M.isLt]
  rfl

/-- What the fields of a word with a small exponent stand for. -/
lemma unpack_packComponents {s : Sign} {E : BitVec 8} {M : BitVec 23} (hE : E.toNat < 255)
    {m : Nat} {e : Int} (hm : 0 < m)
    (h : (E.toNat = 0 ∧ M.toNat = m ∧ e = -149) ∨
      (0 < E.toNat ∧ 2 ^ 23 + M.toNat = m ∧ e = E.toNat - 150)) :
    unpack .binary32 (packComponents .binary32 s E M) = .finite s m e hm := by
  have hones : E ≠ -1#8 := by
    rintro rfl
    simp at hE
  unfold unpack
  simp only [unpackMantissa_packComponents, unpackExponent_packComponents,
    unpackSign_packComponents]
  rw [if_neg hones]
  -- coefficients from `2 ^ 23` on have a leading one; the exponent field of the others is zero
  rcases h with ⟨hzero, rfl, rfl⟩ | ⟨hpos, rfl, rfl⟩
  · have hE0 : E = 0#8 := by
      rw [← BitVec.toNat_inj]
      simpa using hzero
    have hM : M ≠ 0#23 := by
      rintro rfl
      simp at hm
    rw [if_pos hE0, dif_neg hM]
    subst hE0
    rfl
  · have hE0 : E ≠ 0#8 := by
      rintro rfl
      simp at hpos
    rw [if_neg hE0]
    simp only [toNat_one_append]
    rfl

namespace Binary32

variable {x y : Binary32} {d d' : Dyadic}

/-- The sign of a word. -/
def sign (x : Binary32) : Sign := if x.isNegative then .negative else .positive

/-- What a word stands for: a finite number is unpacked to its exact value, with 24 binary digits or
with the least exponent. -/
inductive Unpacks (x : Binary32) : UnpackedFloat → Prop
  | notANumber : x.toDyadic? = none → x.isNaN → Unpacks x .notANumber
  | infinity : x.toDyadic? = none → ¬x.isNaN → Unpacks x (.infinity x.sign)
  | zero {e : Int} : x.toDyadic? = some ⟨0, e⟩ → Unpacks x (.zero x.sign)
  | finite {m : Nat} {e : Int} (hm : 0 < m) : x.toDyadic? = some ⟨x.sign.apply m, e⟩ →
      m < 2 ^ 24 → -149 ≤ e → e ≤ 104 → (e = -149 ∨ 2 ^ 23 ≤ m) →
        Unpacks x (.finite x.sign m e hm)

lemma toNat_magnitude : x.magnitude.toNat = x.bits.toNat % 2 ^ 31 := by
  rw [magnitude, UInt32.toNat_and]
  exact Nat.and_two_pow_sub_one_eq_mod _ 31

lemma isNegative_iff : x.isNegative = true ↔ 2 ^ 31 ≤ x.bits.toNat := by
  simp [isNegative, UInt32.le_iff_toNat_le]

lemma isFinite_iff : x.isFinite = true ↔ x.magnitude.toNat < 255 * 2 ^ 23 := by
  simp [isFinite, UInt32.lt_iff_toNat_lt]

lemma isNaN_iff : x.isNaN = true ↔ 255 * 2 ^ 23 < x.magnitude.toNat := by
  simp [isNaN, UInt32.lt_iff_toNat_lt]

lemma toDyadic?_eq_none : x.toDyadic? = none ↔ 255 * 2 ^ 23 ≤ x.magnitude.toNat := by
  simp [toDyadic?, isFinite_iff]

/-- The value of a subnormal number, or zero. -/
lemma toDyadic?_of_lt (h : x.magnitude.toNat < 2 ^ 23) :
    x.toDyadic? = some ⟨x.sign.apply x.magnitude.toNat, -149⟩ := by
  have hbiased : x.magnitude.toNat / leadingOne = 0 := Nat.div_eq_of_lt h
  have hfraction : x.magnitude.toNat % leadingOne = x.magnitude.toNat := Nat.mod_eq_of_lt h
  rw [toDyadic?, if_pos (isFinite_iff.2 (by omega))]
  simp only [hbiased, hfraction, if_true]
  cases hnegative : x.isNegative <;> simp [sign, hnegative, Sign.apply]

/-- The value of a normal number. -/
lemma toDyadic?_of_le (h : 2 ^ 23 ≤ x.magnitude.toNat) (hlt : x.magnitude.toNat < 255 * 2 ^ 23) :
    x.toDyadic? = some ⟨x.sign.apply ((2 ^ 23 + x.magnitude.toNat % 2 ^ 23 : Nat) : Int),
      x.magnitude.toNat / 2 ^ 23 - 150⟩ := by
  have hbiased : 1 ≤ x.magnitude.toNat / leadingOne := (Nat.one_le_div_iff (by decide)).2 h
  rw [toDyadic?, if_pos (isFinite_iff.2 hlt)]
  simp only [Nat.one_le_iff_ne_zero.1 hbiased, if_false, Nat.max_eq_left hbiased]
  cases hnegative : x.isNegative <;> simp [sign, hnegative, Sign.apply, leadingOne, add_comm]

lemma ofBitVec_unpackSign : Sign.ofBitVec (@unpackSign .binary32 x.bits.toBitVec) = x.sign := by
  have hsign := @toNat_unpackSign x.bits.toBitVec
  have hlt := x.bits.toNat_lt_size
  rw [UInt32.toNat_toBitVec] at hsign
  rw [UInt32.size] at hlt
  simp only [Sign.ofBitVec, sign, ← BitVec.toNat_inj, hsign, isNegative_iff]
  split <;> split <;> first | rfl | (simp at *; omega)

lemma toNat_magnitude_eq_fields : x.magnitude.toNat =
    (@unpackExponent .binary32 x.bits.toBitVec).toNat * 2 ^ 23 +
      (@unpackMantissa .binary32 x.bits.toBitVec).toNat := by
  rw [toNat_magnitude, toNat_unpackExponent, toNat_unpackMantissa, UInt32.toNat_toBitVec]
  omega

/-- A word is unpacked to its sign and its exact value. -/
lemma unpacks_unpack : x.Unpacks (unpack .binary32 x.bits.toBitVec) := by
  have hmagnitude := @toNat_magnitude_eq_fields x
  have hE : (@unpackExponent .binary32 x.bits.toBitVec).toNat < 2 ^ 8 := BitVec.isLt _
  have hM : (@unpackMantissa .binary32 x.bits.toBitVec).toNat < 2 ^ 23 := BitVec.isLt _
  have hones : @unpackExponent .binary32 x.bits.toBitVec = -1#8 ↔
      (@unpackExponent .binary32 x.bits.toBitVec).toNat = 255 := BitVec.toNat_inj.symm
  have hzero : @unpackExponent .binary32 x.bits.toBitVec = 0#8 ↔
      (@unpackExponent .binary32 x.bits.toBitVec).toNat = 0 := BitVec.toNat_inj.symm
  have hzero' : @unpackMantissa .binary32 x.bits.toBitVec = 0#23 ↔
      (@unpackMantissa .binary32 x.bits.toBitVec).toNat = 0 := BitVec.toNat_inj.symm
  have hbias : ((Format.exponentBias .binary32 : Nat) : Int) +
      (Format.mantissaBitsWithoutImplicit .binary32 : Nat) = 150 := rfl
  unfold unpack
  simp only [ofBitVec_unpackSign, hbias]
  -- in the order of the tests: infinity, no number, zero, without and with a leading one
  split_ifs with hE1 hM0 hE0 hM0 <;> rw [hones] at hE1
  · rw [hzero'] at hM0
    exact .infinity (toDyadic?_eq_none.2 (by omega)) (by rw [isNaN_iff]; omega)
  · rw [hzero'] at hM0
    exact .notANumber (toDyadic?_eq_none.2 (by omega)) (by rw [isNaN_iff]; omega)
  · rw [hzero] at hE0
    rw [hzero'] at hM0
    refine .zero (e := -149) ?_
    rw [toDyadic?_of_lt (by omega), show x.magnitude.toNat = 0 by omega]
    cases x.sign <;> rfl
  · rw [hzero] at hE0
    rw [hzero'] at hM0
    rw [hE0, Nat.zero_mul, Nat.zero_add] at hmagnitude
    refine .finite _ ?_ (by omega) (by omega) (by omega) (by omega)
    rw [toDyadic?_of_lt (by omega), hmagnitude, hE0]
    rfl
  · rw [hzero] at hE0
    refine .finite _ ?_ ?_ (by omega) (by omega) ?_ <;> simp only [toNat_one_append]
    · rw [toDyadic?_of_le (by omega) (by omega)]
      simp only [Option.some.injEq, Dyadic.mk.injEq]
      exact ⟨by congr 2; omega, by omega⟩
    · omega
    · omega

/-- Digits and exponent survive packing where the exponent is in range. -/
lemma unpack_pack_finite {s : Sign} {m : Nat} {e : Int} (hm : 0 < m) (hlt : m < 2 ^ 24)
    (hle : -149 ≤ e) (hge : e ≤ 104) (hnormal : e = -149 ∨ 2 ^ 23 ≤ m) :
    unpack .binary32 (pack .binary32 (.finite s m e hm)) = .finite s m e hm := by
  have hmantissa : (BitVec.ofNat 23 m).toNat = m % 2 ^ 23 := BitVec.toNat_ofNat m 23
  have hbiased : (e + Format.exponentBias .binary32 +
      Format.mantissaBitsWithoutImplicit .binary32).toNat = (e + 150).toNat := by
    show (e + (127 : Nat) + (23 : Nat)).toNat = _
    omega
  have hlog : m.log2 + 1 = Format.mantissaBits .binary32 ↔ 2 ^ 23 ≤ m := by
    rw [← Nat.le_log2 hm.ne']
    have := (Nat.log2_lt hm.ne').2 hlt
    show m.log2 + 1 = 24 ↔ _
    omega
  unfold pack
  simp only [hbiased, hlog]
  rw [if_neg (show ¬2 ^ 8 ≤ (e + 150).toNat + 1 by omega)]
  split
  · rename_i hbig
    have hexponent : (BitVec.ofNat 8 (e + 150).toNat).toNat = (e + 150).toNat := by
      rw [BitVec.toNat_ofNat]
      omega
    exact unpack_packComponents (by omega) hm (.inr (by omega))
  · exact unpack_packComponents (by decide) hm (.inl ⟨rfl, by omega, by omega⟩)

/-- What a word stands for survives packing. -/
lemma Unpacks.unpack_pack {u : UnpackedFloat} (h : x.Unpacks u) :
    unpack .binary32 (pack .binary32 u) = u := by
  cases h with
  | notANumber => rfl
  | infinity => cases x.sign <;> rfl
  | zero => cases x.sign <;> rfl
  | finite hm _ hlt hle hge hnormal => exact unpack_pack_finite hm hlt hle hge hnormal

/-- Unpacked numbers are ordered as their exponents are, and then as their coefficients. -/
lemma compare_then_compare {m n : Nat} {e f : Int} (hm : m < 2 ^ 24) (hn : n < 2 ^ 24)
    (he : -149 ≤ e) (hf : -149 ≤ f) (hme : e = -149 ∨ 2 ^ 23 ≤ m) (hnf : f = -149 ∨ 2 ^ 23 ≤ n) :
    (compare e f).then (compare m n) = compare ((m : ℚ) * 2 ^ e) (n * 2 ^ f) := by
  -- above the least exponent all 24 digits are there, so the larger exponent decides alone
  rcases lt_trichotomy e f with h | rfl | h
  · have hlt := Dyadic.mul_zpow_lt_of_exponent_lt hm (hnf.resolve_left (by omega)) h
    rw [compare_lt_iff_lt.2 h, compare_lt_iff_lt.2 hlt]
    rfl
  · have hpow : (0 : ℚ) < 2 ^ e := by positivity
    rw [compare_eq_iff_eq.2 rfl, Ordering.eq_then]
    rcases lt_trichotomy m n with h | rfl | h
    · have hlt : (m : ℚ) * 2 ^ e < n * 2 ^ e := by gcongr
      rw [compare_lt_iff_lt.2 h, compare_lt_iff_lt.2 hlt]
    · rw [compare_eq_iff_eq.2 rfl, compare_eq_iff_eq.2 rfl]
    · have hlt : (n : ℚ) * 2 ^ e < m * 2 ^ e := by gcongr
      rw [compare_gt_iff_gt.2 h, compare_gt_iff_gt.2 hlt]
  · have hlt := Dyadic.mul_zpow_lt_of_exponent_lt hn (hme.resolve_left (by omega)) h
    rw [compare_gt_iff_gt.2 h, compare_gt_iff_gt.2 hlt]
    rfl

lemma unpacks_toFloat : x.Unpacks x.toFloat.toModel.unpack := by
  show x.Unpacks (unpack .binary32 (pack .binary32 (unpack .binary32 x.bits.toBitVec)))
  rw [unpacks_unpack.unpack_pack]
  exact unpacks_unpack

lemma lt_iff_compare :
    x < y ↔ x.toFloat.toModel.unpack.compare y.toFloat.toModel.unpack = some .lt := by
  show decide (x.toFloat.toModel < y.toFloat.toModel) = true ↔ _
  rw [decide_eq_true_iff]
  exact beq_iff_eq

lemma compare_neg (p q : ℚ) : compare (-p) (-q) = compare q p := by
  rcases lt_trichotomy q p with h | rfl | h
  · rw [compare_lt_iff_lt.2 h, compare_lt_iff_lt.2 (neg_lt_neg h)]
  · rw [compare_eq_iff_eq.2 rfl, compare_eq_iff_eq.2 rfl]
  · rw [compare_gt_iff_gt.2 h, compare_gt_iff_gt.2 (neg_lt_neg h)]

/-- Unpacked numbers are compared as the exact values are. -/
lemma compare_eq (hx : x.toDyadic? = some d) (hy : y.toDyadic? = some d') :
    x.toFloat.toModel.unpack.compare y.toFloat.toModel.unpack =
      some (compare d.value d'.value) := by
  have hux := @unpacks_toFloat x
  have huy := @unpacks_toFloat y
  generalize x.toFloat.toModel.unpack = u at hux ⊢
  generalize y.toFloat.toModel.unpack = v at huy ⊢
  have hpow : ∀ {m : Nat} {e : Int}, 0 < m → (0 : ℚ) < m * 2 ^ e := by
    intro m e hm
    positivity
  have hneg : ∀ {m : Nat} {e : Int}, 0 < m → -(m : ℚ) * 2 ^ e < 0 := by
    intro m e hm
    rw [neg_mul, Left.neg_neg_iff]
    exact hpow hm
  cases hux with
  | notANumber h => simp [h] at hx
  | infinity h => simp [h] at hx
  | zero h =>
    cases hx.symm.trans h
    cases huy with
    | notANumber h => simp [h] at hy
    | infinity h => simp [h] at hy
    | zero h =>
      cases hy.symm.trans h
      simp [UnpackedFloat.compare, Dyadic.value]
    | finite hn h =>
      cases hy.symm.trans h
      rw [eq_comm]
      cases y.sign <;>
        simp [UnpackedFloat.compare, Dyadic.value, Sign.apply, compare_gt_iff_gt,
          compare_lt_iff_lt, hpow hn]
  | @finite m e hm h hlt hle _ hnormal =>
    cases hx.symm.trans h
    cases huy with
    | notANumber h => simp [h] at hy
    | infinity h => simp [h] at hy
    | zero h =>
      cases hy.symm.trans h
      rw [eq_comm]
      cases x.sign <;>
        simp [UnpackedFloat.compare, Dyadic.value, Sign.apply, compare_gt_iff_gt,
          compare_lt_iff_lt, hpow hm]
    | @finite n f hn h' hlt' hle' _ hnormal' =>
      cases hy.symm.trans h'
      have hcompare := compare_then_compare hlt hlt' hle hle' hnormal hnormal'
      rw [eq_comm]
      cases x.sign <;> cases y.sign <;>
        simp only [UnpackedFloat.compare, Dyadic.value, Sign.apply, hcompare, Option.some.injEq] <;>
        push_cast
      · rw [neg_mul, neg_mul, compare_neg]
        exact Std.OrientedOrd.eq_swap
      · exact compare_lt_iff_lt.2 ((hneg hm).trans (hpow hn))
      · exact compare_gt_iff_gt.2 ((hneg hn).trans (hpow hm))
      · rfl

/-- Finite numbers are compared by their values. -/
theorem lt_iff (hx : x.toDyadic? = some d) (hy : y.toDyadic? = some d') :
    x < y ↔ d.value < d'.value := by
  rw [lt_iff_compare, compare_eq hx hy, Option.some.injEq, compare_lt_iff_lt]

theorem le_iff (hx : x.toDyadic? = some d) (hy : y.toDyadic? = some d') :
    x ≤ y ↔ d.value ≤ d'.value := by
  have hle : x ≤ y ↔
      (x.toFloat.toModel.unpack.compare y.toFloat.toModel.unpack).any (·.isLE) = true := by
    show decide (x.toFloat.toModel ≤ y.toFloat.toModel) = true ↔ _
    rw [decide_eq_true_iff]
    rfl
  rw [hle, compare_eq hx hy, Option.any_some, ← Ordering.ne_gt_iff_isLE]
  exact compare_le_iff_le

/-- A finite number is below the infinite one that is positive. -/
lemma lt_of_infinite (hx : x.toDyadic? = some d) (hy : y.toDyadic? = none) (hnan : ¬y.isNaN)
    (hsign : ¬y.isNegative) : x < y := by
  rw [lt_iff_compare]
  have hux := @unpacks_toFloat x
  have huy := @unpacks_toFloat y
  generalize x.toFloat.toModel.unpack = u at hux ⊢
  generalize y.toFloat.toModel.unpack = v at huy ⊢
  have hpositive : y.sign = .positive := by simp [sign, hsign]
  cases huy with
  | notANumber _ h => exact absurd h hnan
  | zero h => simp [hy] at h
  | finite _ h => simp [hy] at h
  | infinity =>
    rw [hpositive]
    cases hux with
    | notANumber h => simp [h] at hx
    | infinity h => simp [h] at hx
    | zero => rfl
    | finite => cases x.sign <;> rfl

/-! ### Words as numbers -/

/-- The number of at most 24 binary digits that is nearest to a number, ties to even. -/
def nearest (n : Nat) : Nat :=
  nearestShift n (binaryDigits n - 24) * 2 ^ (binaryDigits n - 24)

lemma binaryDigits_of_pos {n : Nat} (hn : 0 < n) : binaryDigits n = n.log2 + 1 := by
  rw [binaryDigits, if_neg hn.ne']

/-- Numbers of at most 24 binary digits are the nearest to themselves, and so is the next one. -/
lemma nearest_of_le {n : Nat} (h : n ≤ 2 ^ 24) : nearest n = n := by
  rcases Nat.eq_zero_or_pos n with rfl | hpos
  · rfl
  rcases Nat.lt_or_eq_of_le h with hlt | rfl
  · have hlog : n.log2 ≤ 23 := Nat.le_of_lt_succ ((Nat.log2_lt hpos.ne').2 hlt)
    have hexcess : binaryDigits n - 24 = 0 := by
      rw [binaryDigits_of_pos hpos]
      omega
    have hremainder : n % 1 = 0 := Nat.mod_one n
    simp [nearest, hexcess, nearestShift, twoPow, hremainder]
  · decide

/-- A number of at most 24 binary digits is brought to 24 of them. -/
lemma shift_of_lt {n : Nat} (hn : 0 < n) (h : n < 2 ^ 24) :
    n.log2 ≤ 23 ∧ 2 ^ 23 ≤ n * 2 ^ (23 - n.log2) ∧ n * 2 ^ (23 - n.log2) < 2 ^ 24 := by
  have hlog : n.log2 ≤ 23 := Nat.le_of_lt_succ ((Nat.log2_lt hn.ne').2 h)
  have hpow : 2 ^ n.log2 * 2 ^ (23 - n.log2) = 2 ^ 23 := by
    rw [← pow_add, Nat.add_sub_cancel' hlog]
  have hlow := Nat.mul_le_mul_right (2 ^ (23 - n.log2)) (Nat.log2_self_le hn.ne')
  have hhigh := Nat.mul_lt_mul_of_pos_right (Nat.lt_log2_self (n := n))
    (show 0 < 2 ^ (23 - n.log2) by positivity)
  rw [hpow] at hlow
  rw [pow_succ, mul_right_comm, hpow] at hhigh
  exact ⟨hlog, hlow, hhigh⟩

/-- Of a longer number 24 binary digits are kept, after which there may be a carry. -/
lemma nearestShift_of_le {n : Nat} (h : 2 ^ 24 ≤ n) :
    24 ≤ n.log2 ∧ 2 ^ 23 ≤ nearestShift n (n.log2 - 23) ∧
      nearestShift n (n.log2 - 23) ≤ 2 ^ 24 := by
  have hlog : 24 ≤ n.log2 := (Nat.le_log2 (by omega)).2 h
  have hpow : (0 : Nat) < 2 ^ (n.log2 - 23) := by positivity
  have hlow : 2 ^ 23 ≤ n / 2 ^ (n.log2 - 23) := by
    rw [Nat.le_div_iff_mul_le hpow, ← pow_add, Nat.add_sub_cancel' (by omega)]
    exact Nat.log2_self_le (by omega)
  have hhigh : n / 2 ^ (n.log2 - 23) < 2 ^ 24 := by
    rw [Nat.div_lt_iff_lt_mul hpow, ← pow_add, show 24 + (n.log2 - 23) = n.log2 + 1 by omega]
    exact Nat.lt_log2_self
  obtain ⟨hle, hle'⟩ := nearestShift_bounds n (n.log2 - 23)
  exact ⟨hlog, by omega, by omega⟩

/-- The 24 binary digits of a positive word, at most one of them carried. -/
lemma exists_magnitudeOf {n : Nat} (hn : 0 < n) (h : n < 2 ^ 32) :
    ∃ kept, 2 ^ 23 ≤ kept ∧ kept ≤ 2 ^ 24 ∧
      (magnitudeOf n 0).toNat = (n.log2 + 126) * 2 ^ 23 + kept ∧
        (kept : ℚ) * 2 ^ ((n.log2 : Int) - 23) = nearest n := by
  have hlog : n.log2 < 32 := (Nat.log2_lt hn.ne').2 h
  have hlast : max (0 + ((n.log2 + 1 : Nat) : Int) - 24) (-149) = (n.log2 : Int) - 23 := by omega
  have hstart : ((n.log2 : Int) - 23 + 149).toNat = n.log2 + 126 := by omega
  have hword : ∀ kept, 2 ^ 23 ≤ kept → kept ≤ 2 ^ 24 →
      (if (n.log2 : Int) - 23 ≤ 0 then n * twoPow (0 - ((n.log2 : Int) - 23)).toNat
        else nearestShift n ((n.log2 : Int) - 23 - 0).toNat) = kept →
        (magnitudeOf n 0).toNat = (n.log2 + 126) * 2 ^ 23 + kept := by
    rintro kept hlow hhigh rfl
    unfold magnitudeOf
    rw [if_neg hn.ne', binaryDigits_of_pos hn]
    simp only [hlast]
    rw [hstart, UInt32.toNat_ofNat', leadingOne]
    omega
  -- up to 24 digits are kept and filled up with zeros, more are rounded away
  rcases Nat.lt_or_ge n (2 ^ 24) with hlt | hle
  · obtain ⟨hle, hlow, hhigh⟩ := shift_of_lt hn hlt
    refine ⟨n * 2 ^ (23 - n.log2), hlow, hhigh.le, hword _ hlow hhigh.le ?_, ?_⟩
    · have hshift : (0 - ((n.log2 : Int) - 23)).toNat = 23 - n.log2 := by omega
      rw [if_pos (by omega), twoPow_eq, hshift]
    · have hexponent : (n.log2 : Int) - 23 = -((23 - n.log2 : Nat) : Int) := by omega
      rw [nearest_of_le hlt.le, hexponent, zpow_neg, zpow_natCast]
      push_cast
      field_simp
  · obtain ⟨hge, hlow, hhigh⟩ := nearestShift_of_le hle
    refine ⟨nearestShift n (n.log2 - 23), hlow, hhigh, hword _ hlow hhigh ?_, ?_⟩
    · rw [if_neg (by omega), show ((n.log2 : Int) - 23 - 0).toNat = n.log2 - 23 by omega]
    · have hexponent : (n.log2 : Int) - 23 = ((n.log2 - 23 : Nat) : Int) := by omega
      rw [nearest, binaryDigits_of_pos hn, show n.log2 + 1 - 24 = n.log2 - 23 by omega, hexponent,
        zpow_natCast]
      push_cast
      rfl

/-- The value of a positive word with 24 binary digits, also where one of them is carried. -/
lemma exists_toDyadic?_of_digits {start kept : Nat} (hpositive : x.sign = .positive)
    (hstart : start < 253) (hlow : 2 ^ 23 ≤ kept) (hhigh : kept ≤ 2 ^ 24)
    (h : x.magnitude.toNat = start * 2 ^ 23 + kept) :
    ∃ d, x.toDyadic? = some d ∧ d.value = kept * 2 ^ ((start : Int) - 149) := by
  refine ⟨_, toDyadic?_of_le (by omega) (by omega), ?_⟩
  rw [hpositive, h, Sign.apply, Dyadic.value]
  -- digits that were rounded up to the next power of two carry into the exponent
  rcases Nat.lt_or_eq_of_le hhigh with hlt | rfl
  · have hfraction : 2 ^ 23 + (start * 2 ^ 23 + kept) % 2 ^ 23 = kept := by omega
    have hexponent : ((start * 2 ^ 23 + kept : Nat) : Int) / 2 ^ 23 - 150 = start - 149 := by omega
    rw [hfraction, hexponent]
    norm_cast
  · have hfraction : 2 ^ 23 + (start * 2 ^ 23 + 2 ^ 24) % 2 ^ 23 = 2 ^ 23 := by omega
    have hexponent : ((start * 2 ^ 23 + 2 ^ 24 : Nat) : Int) / 2 ^ 23 - 150 = start - 149 + 1 := by
      omega
    rw [hfraction, hexponent, zpow_add_one₀ two_ne_zero]
    push_cast
    ring

/-- A word as a number is the nearest one. -/
theorem exists_toDyadic?_ofUInt32 (n : UInt32) :
    ∃ d, (ofUInt32 n).toDyadic? = some d ∧ d.value = nearest n.toNat := by
  rcases Nat.eq_zero_or_pos n.toNat with hzero | hpos
  · obtain rfl : n = 0 := UInt32.toNat_inj.1 hzero
    exact ⟨⟨0, -149⟩, by decide, by simp [Dyadic.value, nearest_of_le]⟩
  · obtain ⟨kept, hlow, hhigh, hbits, hvalue⟩ := exists_magnitudeOf hpos n.toNat_lt_size
    have hlog : n.toNat.log2 < 32 := (Nat.log2_lt hpos.ne').2 n.toNat_lt_size
    have hword : ofUInt32 n = ⟨magnitudeOf n.toNat 0⟩ := by
      have hsign : ¬(n.toNat : Int) < 0 := by omega
      simp [ofUInt32, ofDyadic, Dyadic.ofInt, hsign]
    have hpositive : (⟨magnitudeOf n.toNat 0⟩ : Binary32).sign = .positive := by
      rw [sign, if_neg]
      rw [isNegative_iff, hbits]
      omega
    have hmagnitude : (⟨magnitudeOf n.toNat 0⟩ : Binary32).magnitude.toNat =
        (n.toNat.log2 + 126) * 2 ^ 23 + kept := by
      rw [toNat_magnitude, hbits]
      omega
    obtain ⟨d, hd, hdigits⟩ := exists_toDyadic?_of_digits hpositive (by omega) hlow hhigh hmagnitude
    refine ⟨d, by rw [hword, hd], ?_⟩
    have hexponent : ((n.toNat.log2 + 126 : Nat) : Int) - 149 = n.toNat.log2 - 23 := by omega
    rw [hdigits, ← hvalue, hexponent]

lemma toNat_toUInt32 : (toUInt32 x).toNat = x.saturate Dyadic.truncate (UInt32.size - 1) := by
  have hle : x.saturate Dyadic.truncate (UInt32.size - 1) ≤ UInt32.size - 1 := by
    unfold saturate
    split
    · exact Nat.min_le_right _ _
    · split <;> simp
  rw [UInt32.size] at hle
  rw [toUInt32, UInt32.toNat_ofNat', UInt32.size]
  omega

/-- A word that became a number becomes the nearest word again. -/
theorem toNat_toUInt32_ofUInt32 (n : UInt32) :
    (toUInt32 (ofUInt32 n)).toNat = min (nearest n.toNat) (UInt32.size - 1) := by
  obtain ⟨d, hd, hvalue⟩ := exists_toDyadic?_ofUInt32 n
  rw [toNat_toUInt32, saturate, hd]
  simp only [Dyadic.truncate_of_value hvalue, Int.toNat_natCast]

lemma toUInt32_ofUInt32 {n : UInt32} (h : n.toNat ≤ 2 ^ 24) : toUInt32 (ofUInt32 n) = n := by
  have hlt := n.toNat_lt_size
  rw [← UInt32.toNat_inj, toNat_toUInt32_ofUInt32, nearest_of_le h]
  omega

/-- A number that was moved into `[0, n]` is, as a word, at most what `n` becomes. -/
theorem toUInt32_clamp_le (n : UInt32) :
    toUInt32 (Coordinate.clamp x Coordinate.zero (Coordinate.ofUInt32 n)) ≤
      toUInt32 (ofUInt32 n) := by
  show toUInt32 (Coordinate.clamp x (ofUInt32 0) (ofUInt32 n)) ≤ toUInt32 (ofUInt32 n)
  unfold Coordinate.clamp
  split_ifs with hlow hhigh
  · rw [toUInt32_ofUInt32 (by decide), UInt32.le_iff_toNat_le]
    exact Nat.zero_le _
  · exact UInt32.le_refl _
  · obtain ⟨d, hd, hvalue⟩ := exists_toDyadic?_ofUInt32 n
    rw [UInt32.le_iff_toNat_le, toNat_toUInt32_ofUInt32, toNat_toUInt32, saturate]
    cases hx : x.toDyadic? with
    | none =>
      simp only
      split_ifs with hsmall
      · exact Nat.zero_le _
      · simp only [Bool.or_eq_true, not_or] at hsmall
        exact absurd (lt_of_infinite hd hx hsmall.1 hsmall.2) hhigh
    | some d' =>
      have hle : d'.value ≤ nearest n.toNat := by
        rw [← hvalue]
        exact not_lt.1 fun hlt => hhigh ((lt_iff hd hx).2 hlt)
      have := Dyadic.truncate_le hle
      simp only
      omega

end Binary32

end GraphicsPipeline
