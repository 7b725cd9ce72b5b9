import GraphicsPipeline.Proofs.Number.Reversal
import GraphicsPipeline.Proofs.Number.Rounding

/-!
# Rounded arithmetic

A sum, a product or a quotient of single precision numbers is the exact result rounded to nearest
even, or infinite where that is too large (`Binary32.value?_add`, `value?_mul`, `value?_div`).
-/

namespace GraphicsPipeline

open Float.Model (Format UnpackedFloat totalExponent)
open Float.Model.UnpackedFloat

/-! ### Digits that were dropped -/

/-- Where a number lies above its integral part, by what is kept of its dropped digits. -/
def Describes : Accuracy → ℕ → ℚ → Prop
  | .exact, m, r => r = m
  | .inexact .lt, m, r => m < r ∧ r < m + 1 / 2
  | .inexact .eq, m, r => r = m + 1 / 2
  | .inexact .gt, m, r => m + 1 / 2 < r ∧ r < m + 1

namespace Describes

variable {a : Accuracy} {m : ℕ} {r : ℚ}

lemma bounds (h : Describes a m r) : (m : ℚ) ≤ r ∧ r < m + 1 := by
  rcases a with _ | ⟨_ | _ | _⟩ <;> simp only [Describes] at h <;> constructor <;> linarith

/-- What is kept of the dropped digits is enough to round. -/
lemma roundToNearestEven_eq (h : Describes a m r) :
    ((a.roundToNearestEven m : ℕ) : ℤ) = nearestEven r := by
  symm
  rw [nearestEven_eq_iff]
  rcases a with _ | ⟨_ | _ | _⟩ <;>
    simp only [Describes, Accuracy.roundToNearestEven] at h ⊢
  · rw [h]
    exact .intCast m
  · exact .inl (abs_lt.2 ⟨by push_cast; linarith, by push_cast; linarith⟩)
  · subst h
    rcases Nat.even_or_odd m with heven | hodd
    · rw [Nat.even_iff.1 heven, add_zero]
      exact .inr ⟨by norm_num, by exact_mod_cast heven⟩
    · rw [Nat.odd_iff.1 hodd]
      exact .inr ⟨by push_cast; norm_num, by exact_mod_cast hodd.add_one⟩
  · exact .inl (abs_lt.2 ⟨by push_cast; linarith, by push_cast; linarith⟩)

/-- The last digit goes to those that were dropped. -/
lemma shiftRightOne {em : ExtendedMantissa} (h : Describes em.accuracy em.mantissa r) :
    Describes em.shiftRightOne.accuracy em.shiftRightOne.mantissa (r / 2) := by
  obtain ⟨m, roundBit, stickyBit⟩ := em
  rcases Nat.even_or_odd' m with ⟨k, rfl | rfl⟩
  · have hhalf : 2 * k / 2 = k := by omega
    cases roundBit <;> cases stickyBit <;>
      simp [Describes, ExtendedMantissa.shiftRightOne, ExtendedMantissa.accuracy, hhalf] at h ⊢ <;>
      first | linarith | (constructor <;> linarith)
  · have hhalf : (2 * k + 1) / 2 = k := by omega
    cases roundBit <;> cases stickyBit <;>
      simp [Describes, ExtendedMantissa.shiftRightOne, ExtendedMantissa.accuracy, hhalf] at h ⊢ <;>
      first | linarith | (constructor <;> linarith)

lemma shiftRight {em : ExtendedMantissa} (h : Describes em.accuracy em.mantissa r) (k : ℕ) :
    Describes (em >>> k).accuracy (em >>> k).mantissa (r / 2 ^ k) := by
  induction k with
  | zero =>
    rw [pow_zero, div_one]
    exact h
  | succ k ih =>
    rw [pow_succ, ← div_div]
    exact ih.shiftRightOne

end Describes

/-! ### Rounding -/

/-- An unpacked number stands for a rational one, with 24 binary digits or with the least
exponent. -/
inductive StandsFor (a : ℚ) : UnpackedFloat → Prop
  | zero {s : Sign} : a = 0 → StandsFor a (.zero s)
  | finite {s : Sign} {m : ℕ} {e : ℤ} (hm : 0 < m) : a = s.apply m * 2 ^ e → m < 2 ^ 24 →
      -149 ≤ e → (e = -149 ∨ 2 ^ 23 ≤ m) → StandsFor a (.finite s m e hm)

section Rounding

variable {a : Accuracy} {m : ℕ} {e : ℤ} {r : ℚ}

lemma targetExponent_eq : Format.binary32.targetExponent (totalExponent m e) =
    max (m.log2 + 1 + e - 24) (-149) := rfl

/-- The exponent that is aimed at is that of the last place. -/
lemma targetExponent_eq_lastPlace (h : Describes a m (r / 2 ^ e)) (hm : m = 0 → e ≤ -149) :
    Format.binary32.targetExponent (totalExponent m e) = lastPlace r := by
  obtain ⟨hle, hlt⟩ := h.bounds
  rw [le_div_iff₀ (two_zpow_pos e)] at hle
  rw [div_lt_iff₀ (two_zpow_pos e)] at hlt
  have hr : 0 ≤ r := le_trans (by positivity) hle
  rw [eq_comm, targetExponent_eq, lastPlace_eq_iff, abs_of_nonneg hr]
  refine ⟨le_max_right _ _, ?_⟩
  -- without digits the logarithm says nothing, and it is `hm` that bounds the value
  rcases Nat.eq_zero_or_pos m with rfl | hpos
  · have he := hm rfl
    rw [Nat.log2_zero]
    rw [max_eq_right (by omega)]
    refine ⟨hlt.trans_le ?_, .inl rfl⟩
    rw [Nat.cast_zero, zero_add, one_mul]
    exact two_zpow_le (by omega)
  · have hlow : (2 : ℚ) ^ (m.log2 + e) ≤ r := by
      refine le_trans ?_ hle
      rw [two_zpow_add, zpow_natCast]
      gcongr
      exact_mod_cast Nat.log2_self_le hpos.ne'
    have hhigh : r < (2 : ℚ) ^ (m.log2 + 1 + e) := by
      refine hlt.trans_le ?_
      rw [two_zpow_add]
      gcongr
      exact_mod_cast Nat.succ_le_of_lt Nat.lt_log2_self
    refine ⟨hhigh.trans_le (two_zpow_le (by omega)), ?_⟩
    rcases le_total (m.log2 + 1 + e - 24) (-149) with hleast | hmore
    · exact .inl (max_eq_right hleast)
    · refine .inr ((two_zpow_le ?_).trans hlow)
      rw [max_eq_left hmore]
      omega

/-- The number is shifted until its last digit is in the last place. -/
lemma shiftToTargetExponent_describes (h : Describes a m (r / 2 ^ e))
    (hdigits : e ≤ -149 ∨ 2 ^ 23 ≤ m) : ∃ em : ExtendedMantissa,
      shiftToTargetExponent .binary32 m e a = (em, lastPlace r) ∧
        Describes em.accuracy em.mantissa (r / 2 ^ lastPlace r) := by
  have htarget := targetExponent_eq_lastPlace h (by omega)
  have hle : e ≤ lastPlace r := by
    rw [← htarget, targetExponent_eq]
    rcases hdigits with he | hm
    · exact he.trans (le_max_right _ _)
    · have hlog : 23 ≤ m.log2 := (Nat.le_log2 (by omega)).2 hm
      exact le_trans (by omega) (le_max_left _ _)
  obtain ⟨k, hk⟩ := Int.le.dest hle
  have hstart : Describes (ExtendedMantissa.ofMantissaAndAccuracy m a).accuracy
      (ExtendedMantissa.ofMantissaAndAccuracy m a).mantissa (r / 2 ^ e) := by
    rcases a with _ | ⟨_ | _ | _⟩ <;> exact h
  have hshift : (lastPlace r - e).toNat = k := by omega
  refine ⟨ExtendedMantissa.ofMantissaAndAccuracy m a >>> k, ?_, ?_⟩
  · simp only [shiftToTargetExponent, shiftToExponent, htarget, hshift, hk]
  · have hshifted := hstart.shiftRight k
    rwa [div_div, ← zpow_natCast, ← two_zpow_add, hk] at hshifted

lemma apply_eq (s : Sign) (n : ℤ) : ((s.apply n : ℤ) : ℚ) = s.apply 1 * n := by
  cases s <;> simp [Sign.apply]

lemma rounded_apply (s : Sign) (r : ℚ) : rounded (s.apply 1 * r) = s.apply 1 * rounded r := by
  cases s <;> simp [Sign.apply, rounded_neg]

/-- Rounding gives the digits and the exponent of the rounded number. -/
lemma standsFor_roundWithAccuracy (s : Sign) (h : Describes a m (r / 2 ^ e))
    (hdigits : e ≤ -149 ∨ 2 ^ 23 ≤ m) :
    StandsFor (rounded (s.apply 1 * r)) (roundWithAccuracy .binary32 s m e a) := by
  have hr : 0 ≤ r := by
    have hle := h.bounds.1
    rw [le_div_iff₀ (two_zpow_pos e)] at hle
    exact le_trans (by positivity) hle
  obtain ⟨em, hfirst, hem⟩ := shiftToTargetExponent_describes h hdigits
  have hnearest : (em.roundedMantissa : ℤ) = nearestEven (r / 2 ^ lastPlace r) :=
    hem.roundToNearestEven_eq
  have hrounded : rounded r = em.roundedMantissa * 2 ^ lastPlace r := by
    rw [rounded, ← hnearest]
    norm_cast
  have hdigits' : lastPlace r ≤ -149 ∨ 2 ^ 23 ≤ em.roundedMantissa := by
    rcases two_zpow_le_abs r with hleast | hlow
    · exact .inl hleast.le
    · rw [abs_of_nonneg hr, two_zpow_add, ← le_div_iff₀ (two_zpow_pos _)] at hlow
      have hle : (2 ^ 23 : ℤ) ≤ nearestEven (r / 2 ^ lastPlace r) :=
        le_nearestEven (by exact_mod_cast hlow)
      rw [← hnearest] at hle
      exact .inr (by exact_mod_cast hle)
  -- the carry may have made the digits one too many, so that they are shifted again
  obtain ⟨em', hsecond, hem'⟩ := shiftToTargetExponent_describes (a := .exact) (r := rounded r)
    (by rw [hrounded, mul_div_cancel_right₀ _ (two_zpow_pos _).ne']; rfl) hdigits'
  have hmantissa : rounded r = em'.mantissa * 2 ^ lastPlace (rounded r) := by
    obtain ⟨k, hk⟩ := (representable_rounded r).exists_mul_lastPlace le_rfl
    rw [eq_comm, ← eq_div_iff (two_zpow_pos _).ne'] at hk
    obtain ⟨hle, hlt⟩ := hem'.bounds
    rw [← hk] at hle hlt
    have hle' : (em'.mantissa : ℤ) ≤ k := by exact_mod_cast hle
    have hlt' : k < em'.mantissa + 1 := by exact_mod_cast hlt
    rw [← div_eq_iff (two_zpow_pos _).ne', ← hk]
    exact_mod_cast (show k = em'.mantissa by omega)
  have habs : |rounded r| = em'.mantissa * 2 ^ lastPlace (rounded r) := by
    rw [abs_of_nonneg (rounded_nonneg hr)]
    exact hmantissa
  simp only [roundWithAccuracy, hfirst, hsecond]
  split_ifs with hzero
  · refine .zero ?_
    rw [rounded_apply, hmantissa, hzero, Nat.cast_zero, zero_mul, mul_zero]
  · refine .finite _ ?_ ?_ (neg_149_le_lastPlace _) ?_
    · rw [rounded_apply, apply_eq s em'.mantissa, mul_assoc, Int.cast_natCast, ← hmantissa]
    · have hlt := abs_lt_two_zpow (rounded r)
      rw [habs, two_zpow_add, mul_lt_mul_iff_left₀ (two_zpow_pos _)] at hlt
      exact_mod_cast hlt
    · refine (two_zpow_le_abs (rounded r)).imp_right fun hle => ?_
      rw [habs, two_zpow_add, mul_le_mul_iff_left₀ (two_zpow_pos _)] at hle
      exact_mod_cast hle

/-- Further digits are zeros. -/
lemma decreaseExponent_eq (m : ℕ) (e target : ℤ) : ∃ n : ℕ,
    decreaseExponent m e target = (n, min e target) ∧ (n : ℚ) * 2 ^ min e target = m * 2 ^ e ∧
      (n : ℚ) = m * 2 ^ (e - min e target) := by
  obtain ⟨k, hk⟩ := Int.le.dest (min_le_left e target)
  have hshift : (e - target).toNat = k := by omega
  have hsub : e - (k : ℤ) = min e target := by omega
  have hdiff : e - min e target = k := by omega
  have hvalue : ((m * 2 ^ k : ℕ) : ℚ) = m * 2 ^ (e - min e target) := by
    rw [hdiff, zpow_natCast]
    push_cast
    rfl
  refine ⟨m * 2 ^ k, ?_, ?_, hvalue⟩
  · simp only [decreaseExponent, hshift, Nat.shiftLeft_eq, hsub]
  · rw [hvalue, mul_assoc, ← two_zpow_add, sub_add_cancel]

/-- A number that has too few digits is given more before it is rounded. -/
lemma standsFor_round (s : Sign) (hm : 0 < m) :
    StandsFor (rounded (s.apply 1 * (m * 2 ^ e))) (UnpackedFloat.round .binary32 s m e) := by
  obtain ⟨n, hdecrease, hvalue, hn⟩ := decreaseExponent_eq m e
    (Format.binary32.targetExponent (totalExponent m e))
  simp only [UnpackedFloat.round, hdecrease]
  rw [targetExponent_eq] at hvalue hn ⊢
  rw [← hvalue]
  refine standsFor_roundWithAccuracy s ?_ ?_
  · rw [mul_div_cancel_right₀ _ (two_zpow_pos _).ne']
    rfl
  · rcases le_or_gt (m.log2 + 1 + e - 24) (-149) with hleast | hmore
    · exact .inl (by omega)
    · right
      have hlog : (2 : ℚ) ^ (m.log2 : ℤ) ≤ m := by
        rw [zpow_natCast]
        exact_mod_cast Nat.log2_self_le hm.ne'
      set k := e - min e (max (m.log2 + 1 + e - 24) (-149)) with hk
      have hle : (2 : ℚ) ^ (23 : ℤ) ≤ n := by
        rw [hn]
        calc (2 : ℚ) ^ (23 : ℤ) ≤ 2 ^ (m.log2 + k) := two_zpow_le (by omega)
          _ ≤ m * 2 ^ k := by
              rw [two_zpow_add]
              gcongr
      exact_mod_cast hle

lemma standsFor_normalize (k : ℤ) (e : ℤ) (s : Sign) :
    StandsFor (rounded (k * 2 ^ e)) (UnpackedFloat.normalize .binary32 k e s) := by
  rw [UnpackedFloat.normalize]
  rcases lt_trichotomy k 0 with hneg | rfl | hpos
  · rw [compare_lt_iff_lt.2 hneg]
    have hk : (k : ℚ) = (Sign.negative.apply 1 : ℤ) * ((-k).toNat : ℚ) := by
      rw [← Int.cast_natCast, Int.toNat_of_nonneg (by omega)]
      simp [Sign.apply]
    rw [hk, mul_assoc]
    exact standsFor_round _ (by omega)
  · rw [compare_eq_iff_eq.2 rfl, Int.cast_zero, zero_mul]
    exact .zero rounded_zero
  · rw [compare_gt_iff_gt.2 hpos]
    have hk : (k : ℚ) = (Sign.positive.apply 1 : ℤ) * (k.toNat : ℚ) := by
      rw [← Int.cast_natCast, Int.toNat_of_nonneg hpos.le]
      simp [Sign.apply]
    rw [hk, mul_assoc]
    exact standsFor_round _ (by omega)

end Rounding

/-! ### Operations on unpacked numbers -/

lemma apply_mul (s t : Sign) : (((s * t).apply 1 : ℤ) : ℚ) = s.apply 1 * t.apply 1 := by
  have hmul : (s * t).apply 1 = s.apply 1 * t.apply 1 := by
    cases s <;> cases t <;> rfl
  exact_mod_cast hmul

lemma apply_div (s t : Sign) : (((s / t).apply 1 : ℤ) : ℚ) = s.apply 1 / t.apply 1 := by
  have hdiv : s / t = s * t := by
    cases s <;> cases t <;> rfl
  rw [hdiv, apply_mul]
  cases t <;> norm_num [Sign.apply, div_neg]

namespace StandsFor

variable {a b : ℚ} {u v : UnpackedFloat}

lemma abs_apply (s : Sign) (m : ℕ) : |((s.apply m : ℤ) : ℚ)| = m := by
  cases s <;> simp [Sign.apply]

lemma representable (h : StandsFor a u) : Representable a := by
  cases h with
  | zero ha => exact ha ▸ representable_zero
  | @finite s m e hm ha hlt hle _ =>
    refine ⟨s.apply m, e, ?_, hle, ha⟩
    have habs : |((s.apply m : ℤ) : ℚ)| ≤ 2 ^ 24 := by
      rw [abs_apply]
      exact_mod_cast hlt.le
    exact_mod_cast habs

lemma mul (ha : StandsFor a u) (hb : StandsFor b v) :
    StandsFor (rounded (a * b)) (UnpackedFloat.mul .binary32 u v) := by
  cases ha with
  | zero ha =>
    subst ha
    rw [zero_mul, rounded_zero]
    cases hb <;> exact .zero rfl
  | @finite s m e hm ha _ hle hdigits =>
    cases hb with
    | zero hb =>
      subst hb
      rw [mul_zero, rounded_zero]
      exact .zero rfl
    | @finite t n f hn hb _ hle' hdigits' =>
      have hproduct : a * b = ((s * t).apply 1 : ℤ) * (((m * n : ℕ) : ℚ) * 2 ^ (e + f)) := by
        rw [ha, hb, apply_eq s m, apply_eq t n, apply_mul, two_zpow_add]
        push_cast
        ring
      rw [hproduct]
      refine standsFor_roundWithAccuracy _ ?_ ?_
      · rw [mul_div_cancel_right₀ _ (two_zpow_pos _).ne']
        rfl
      · -- one factor with all its digits gives the product as many
        rcases hdigits with he | hm'
        · rcases hdigits' with hf | hn'
          · exact .inl (by omega)
          · exact .inr (hn'.trans (Nat.le_mul_of_pos_left n hm))
        · exact .inr (hm'.trans (Nat.le_mul_of_pos_right m hn))

lemma add (ha : StandsFor a u) (hb : StandsFor b v) :
    StandsFor (rounded (a + b)) (UnpackedFloat.add .binary32 u v) := by
  have hra := rounded_of_representable ha.representable
  have hrb := rounded_of_representable hb.representable
  cases ha with
  | @zero s ha =>
    subst ha
    rw [zero_add, hrb]
    cases hb with
    | @zero t hb => cases s <;> cases t <;> exact .zero hb
    | finite hn hb hlt hle hdigits => exact .finite hn hb hlt hle hdigits
  | @finite s m e hm ha hlt hle hdigits =>
    cases hb with
    | zero hb =>
      subst hb
      rw [add_zero, hra]
      exact .finite hm ha hlt hle hdigits
    | @finite t n f hn hb _ _ _ =>
      -- at the lesser exponent both numbers are integers, so only the rounding loses anything
      obtain ⟨m', hm', hvalue, -⟩ := decreaseExponent_eq m e (min e f)
      obtain ⟨n', hn', hvalue', -⟩ := decreaseExponent_eq n f (min e f)
      rw [min_eq_right (min_le_left e f)] at hm' hvalue
      rw [min_eq_right (min_le_right e f)] at hn' hvalue'
      have hsum : a + b = ((s.apply m' + t.apply n' : ℤ) : ℚ) * 2 ^ min e f := by
        rw [Int.cast_add, apply_eq s m', apply_eq t n', ha, hb, apply_eq s m, apply_eq t n]
        push_cast
        linear_combination (-(s.apply 1 : ℚ)) * hvalue - (t.apply 1 : ℚ) * hvalue'
      simp only [UnpackedFloat.add, hm', hn']
      rw [hsum]
      exact standsFor_normalize _ _ _

lemma accuracyOfFraction_describes {M n : ℕ} (hn : 0 < n) :
    Describes (accuracyOfFraction (M % n) n) (M / n) ((M : ℚ) / n) := by
  have hn' : (0 : ℚ) < n := by exact_mod_cast hn
  have hsplit : (M : ℚ) / n = (M / n : ℕ) + (M % n : ℕ) / n := by
    rw [div_eq_iff hn'.ne', add_mul, div_mul_cancel₀ _ hn'.ne']
    exact_mod_cast (Nat.div_add_mod' M n).symm
  have hlt : ((M % n : ℕ) : ℚ) / n < 1 := by
    rw [div_lt_one hn']
    exact_mod_cast Nat.mod_lt M hn
  rw [hsplit]
  unfold accuracyOfFraction
  split_ifs with hzero
  · rw [hzero, Nat.cast_zero, zero_div, add_zero]
    rfl
  have hpos : 0 < ((M % n : ℕ) : ℚ) / n := div_pos (by exact_mod_cast Nat.pos_of_ne_zero hzero) hn'
  rcases lt_trichotomy (2 * (M % n)) n with hless | heq | hmore
  · rw [compare_lt_iff_lt.2 hless]
    have hhalf : ((M % n : ℕ) : ℚ) / n < 1 / 2 := by
      rw [div_lt_div_iff₀ hn' two_pos, one_mul, mul_comm]
      exact_mod_cast hless
    exact ⟨by linarith, by linarith⟩
  · rw [compare_eq_iff_eq.2 heq]
    have hhalf : ((M % n : ℕ) : ℚ) / n = 1 / 2 := by
      rw [div_eq_div_iff hn'.ne' two_ne_zero, one_mul, mul_comm]
      exact_mod_cast heq
    simp only [Describes, hhalf]
  · rw [compare_gt_iff_gt.2 hmore]
    have hhalf : 1 / 2 < ((M % n : ℕ) : ℚ) / n := by
      rw [div_lt_div_iff₀ two_pos hn', one_mul, mul_comm]
      exact_mod_cast hmore
    exact ⟨by linarith, by linarith⟩

/-- The quotient is found with so many digits that rounding needs no more. -/
lemma divCore_describes {m n : ℕ} (e f : ℤ) (hm : 0 < m) (hn : 0 < n) : ∃ k g accuracy,
    divCore .binary32 m e n f = (k, g, accuracy) ∧
      Describes accuracy k ((m * 2 ^ e / (n * 2 ^ f) : ℚ) / 2 ^ g) ∧ (g ≤ -149 ∨ 2 ^ 23 ≤ k) := by
  set g := min (e - f) (max (m.log2 + 1 + e - (n.log2 + 1 + f) - 24) (-149)) with hg
  have hge : g ≤ e - f := hg ▸ min_le_left _ _
  obtain ⟨k, hk⟩ := Int.le.dest hge
  have hshift : (e - f - g).toNat = k := by omega
  refine ⟨m * 2 ^ k / n, g, accuracyOfFraction (m * 2 ^ k % n) n, ?_, ?_, ?_⟩
  · have htarget : Format.binary32.targetExponent (totalExponent m e - totalExponent n f) =
        max (m.log2 + 1 + e - (n.log2 + 1 + f) - 24) (-149) := rfl
    simp only [divCore, htarget, ← hg, hshift, Nat.shiftLeft_eq]
  · have hquotient : (m * 2 ^ e / (n * 2 ^ f) : ℚ) / 2 ^ g = ((m * 2 ^ k : ℕ) : ℚ) / n := by
      have he : e = g + k + f := by omega
      rw [he, two_zpow_add, two_zpow_add, zpow_natCast]
      have := two_zpow_pos g
      have := two_zpow_pos f
      push_cast
      field_simp
    rw [hquotient]
    exact accuracyOfFraction_describes hn
  -- the dividend was shifted until the quotient has 24 digits, or the least exponent is reached
  · rcases le_or_gt g (-149) with hleast | hmore
    · exact .inl hleast
    · right
      have hlogs : 23 + (n.log2 + 1) ≤ m.log2 + k := by omega
      rw [Nat.le_div_iff_mul_le hn]
      calc 2 ^ 23 * n ≤ 2 ^ 23 * 2 ^ (n.log2 + 1) := Nat.mul_le_mul_left _ Nat.lt_log2_self.le
        _ = 2 ^ (23 + (n.log2 + 1)) := (pow_add 2 _ _).symm
        _ ≤ 2 ^ (m.log2 + k) := Nat.pow_le_pow_right two_pos hlogs
        _ = 2 ^ m.log2 * 2 ^ k := pow_add 2 _ _
        _ ≤ m * 2 ^ k := Nat.mul_le_mul_right _ (Nat.log2_self_le hm.ne')

lemma div (ha : StandsFor a u) (hb : StandsFor b v) (hne : b ≠ 0) :
    StandsFor (rounded (a / b)) (UnpackedFloat.div .binary32 u v) := by
  cases hb with
  | zero hb => exact absurd hb hne
  | @finite t n f hn hb _ _ _ =>
    cases ha with
    | zero ha =>
      subst ha
      rw [zero_div, rounded_zero]
      exact .zero rfl
    | @finite s m e hm ha _ _ _ =>
      obtain ⟨k, g, accuracy, hcore, hdescribes, hdigits⟩ := divCore_describes e f hm hn
      have hquotient : a / b = ((s / t).apply 1 : ℤ) * (m * 2 ^ e / (n * 2 ^ f)) := by
        rw [ha, hb, apply_eq s m, apply_eq t n, apply_div]
        push_cast
        ring
      simp only [UnpackedFloat.div, hcore]
      rw [hquotient]
      exact standsFor_roundWithAccuracy _ hdescribes hdigits

end StandsFor

/-- An unpacked number that stands for no rational one. -/
def NonFinite (u : UnpackedFloat) : Prop := u = .notANumber ∨ ∃ s, u = .infinity s

namespace NonFinite

variable {u : UnpackedFloat}

lemma mul (h : NonFinite u) (v : UnpackedFloat) : NonFinite (UnpackedFloat.mul .binary32 u v) := by
  rcases h with rfl | ⟨s, rfl⟩ <;> cases v <;> simp [NonFinite, UnpackedFloat.mul]

lemma add_left (h : NonFinite u) (v : UnpackedFloat) :
    NonFinite (UnpackedFloat.add .binary32 u v) := by
  rcases h with rfl | ⟨s, rfl⟩ <;> cases v
  case inr.infinity t => cases s <;> cases t <;> simp [NonFinite, UnpackedFloat.add]
  all_goals simp [NonFinite, UnpackedFloat.add]

lemma add_right (h : NonFinite u) (v : UnpackedFloat) :
    NonFinite (UnpackedFloat.add .binary32 v u) := by
  rcases h with rfl | ⟨s, rfl⟩ <;> cases v
  case inr.infinity t => cases s <;> cases t <;> simp [NonFinite, UnpackedFloat.add]
  all_goals simp [NonFinite, UnpackedFloat.add]

lemma div (h : NonFinite u) {b : ℚ} {v : UnpackedFloat} (hb : StandsFor b v) :
    NonFinite (UnpackedFloat.div .binary32 u v) := by
  rcases h with rfl | ⟨s, rfl⟩ <;> cases hb <;> simp [NonFinite, UnpackedFloat.div]

/-- By an infinite number everything is divided to zero, if at all. -/
lemma div_right (h : NonFinite u) (v : UnpackedFloat) :
    NonFinite (UnpackedFloat.div .binary32 v u) ∨
      ∃ s, UnpackedFloat.div .binary32 v u = .zero s := by
  rcases h with rfl | ⟨s, rfl⟩ <;> cases v <;> simp [NonFinite, UnpackedFloat.div]

end NonFinite

/-! ### Values -/

namespace Binary32

variable {x y : Binary32} {a b r : ℚ}

/-- The rational value of a finite number. -/
def value? (x : Binary32) : Option ℚ := x.toDyadic?.map Dyadic.value

lemma value?_eq_some : x.value? = some a ↔ ∃ d, x.toDyadic? = some d ∧ d.value = a :=
  Option.map_eq_some_iff

lemma value?_eq_none : x.value? = none ↔ x.toDyadic? = none := Option.map_eq_none_iff

/-- Numbers of 24 binary digits below the largest exponent are bounded. -/
lemma mul_two_zpow_lt {m : ℕ} {e : ℤ} (hm : m < 2 ^ 24) (he : e ≤ 104) :
    (m : ℚ) * 2 ^ e < 2 ^ 128 := by
  have hm' : (m : ℚ) < 2 ^ 24 := by exact_mod_cast hm
  calc (m : ℚ) * 2 ^ e < 2 ^ 24 * 2 ^ e := by gcongr
    _ ≤ 2 ^ 24 * 2 ^ (104 : ℤ) := by
        gcongr
        exact one_le_two
    _ = 2 ^ 128 := by norm_num

/-- What is unpacked from a word stands for its value, or is infinite or undefined. -/
lemma value?_cases (x : Binary32) :
    (∃ a, x.value? = some a ∧ |a| < 2 ^ 128 ∧ StandsFor a x.toFloat.toModel.unpack) ∨
      (x.value? = none ∧ NonFinite x.toFloat.toModel.unpack) := by
  have hunpacks := @unpacks_toFloat x
  generalize x.toFloat.toModel.unpack = u at hunpacks ⊢
  cases hunpacks with
  | notANumber h => exact .inr ⟨value?_eq_none.2 h, .inl rfl⟩
  | infinity h => exact .inr ⟨value?_eq_none.2 h, .inr ⟨_, rfl⟩⟩
  | zero h =>
    refine .inl ⟨0, value?_eq_some.2 ⟨_, h, ?_⟩, by norm_num, .zero rfl⟩
    simp [Dyadic.value]
  | @finite m e hm h hlt hle hge hdigits =>
    refine .inl ⟨_, value?_eq_some.2 ⟨_, h, rfl⟩, ?_, .finite hm rfl hlt hle hdigits⟩
    rw [Dyadic.value, abs_mul, StandsFor.abs_apply, abs_of_pos (two_zpow_pos e)]
    exact mul_two_zpow_lt hlt hge

lemma standsFor_unpack (h : x.value? = some a) :
    |a| < 2 ^ 128 ∧ StandsFor a x.toFloat.toModel.unpack := by
  rcases value?_cases x with ⟨a', ha', hstands⟩ | ⟨hnone, -⟩
  · cases h.symm.trans ha'
    exact hstands
  · cases h.symm.trans hnone

lemma abs_lt_of_value? (h : x.value? = some a) : |a| < 2 ^ 128 := (standsFor_unpack h).1

lemma representable (h : x.value? = some a) : Representable a :=
  (standsFor_unpack h).2.representable

lemma value?_of_nonFinite {u : UnpackedFloat} (h : NonFinite u) : (ofUnpacked u).value? = none := by
  rcases h with rfl | ⟨s, rfl⟩
  · rfl
  · cases s <;> rfl

/-- A number is packed to a word of its value, if it is not too large. -/
lemma value?_ofUnpacked {u : UnpackedFloat} (h : StandsFor a u) :
    (ofUnpacked u).value? = if |a| < 2 ^ 128 then some a else none := by
  cases h with
  | @zero s ha =>
    have hword : (ofUnpacked (.zero s)).toDyadic? = some ⟨0, -149⟩ := by
      cases s <;> rfl
    rw [ha, abs_zero, if_pos (by norm_num)]
    exact value?_eq_some.2 ⟨_, hword, by simp [Dyadic.value]⟩
  | @finite s m e hm ha hlt hle hdigits =>
    have habs : |a| = m * 2 ^ e := by
      rw [ha, abs_mul, StandsFor.abs_apply, abs_of_pos (two_zpow_pos e)]
    -- above this exponent the packed number is infinite, and the value is too large as well
    rcases le_or_gt e 104 with hge | hbig
    · rw [if_pos (by rw [habs]; exact mul_two_zpow_lt hlt hge)]
      have hunpacks := @unpacks_unpack (ofUnpacked (.finite s m e hm))
      have hword : (ofUnpacked (.finite s m e hm)).bits.toBitVec =
          pack .binary32 (.finite s m e hm) := rfl
      rw [hword, unpack_pack_finite hm hlt hle hge hdigits] at hunpacks
      generalize ofUnpacked (.finite s m e hm) = x at hunpacks
      cases hunpacks with
      | finite _ hx => exact value?_eq_some.2 ⟨_, hx, ha.symm⟩
    · have hlarge : ¬|a| < 2 ^ 128 := by
        rcases hdigits with he | hm'
        · omega
        rw [habs, not_lt]
        calc (2 : ℚ) ^ 128 = 2 ^ 23 * 2 ^ (105 : ℤ) := by norm_num
          _ ≤ 2 ^ 23 * 2 ^ e := by
              gcongr
              · exact one_le_two
              · omega
          _ ≤ m * 2 ^ e := by
              gcongr
              exact_mod_cast hm'
      rw [if_neg hlarge]
      have hbiased : 2 ^ 8 ≤ (e + (127 : ℕ) + (23 : ℕ)).toNat + 1 := by omega
      have hpack : pack .binary32 (.finite s m e hm) = pack .binary32 (.infinity s) :=
        if_pos hbiased
      rw [ofUnpacked, hpack]
      exact value?_of_nonFinite (.inr ⟨s, rfl⟩)

/-! ### Operations -/

lemma add_eq (x y : Binary32) :
    x + y = ofUnpacked (UnpackedFloat.add .binary32 x.toFloat.toModel.unpack
      y.toFloat.toModel.unpack) := rfl

lemma div_eq (x y : Binary32) :
    x / y = ofUnpacked (UnpackedFloat.div .binary32 x.toFloat.toModel.unpack
      y.toFloat.toModel.unpack) := rfl

/-- A product is rounded, and finite unless that is too large. -/
theorem value?_mul (hx : x.value? = some a) (hy : y.value? = some b) :
    (x * y).value? = if |rounded (a * b)| < 2 ^ 128 then some (rounded (a * b)) else none := by
  rw [mul_eq]
  exact value?_ofUnpacked ((standsFor_unpack hx).2.mul (standsFor_unpack hy).2)

/-- A sum is rounded, and finite unless that is too large. -/
theorem value?_add (hx : x.value? = some a) (hy : y.value? = some b) :
    (x + y).value? = if |rounded (a + b)| < 2 ^ 128 then some (rounded (a + b)) else none := by
  rw [add_eq]
  exact value?_ofUnpacked ((standsFor_unpack hx).2.add (standsFor_unpack hy).2)

/-- A quotient is rounded, and finite unless that is too large. -/
theorem value?_div (hx : x.value? = some a) (hy : y.value? = some b) (hb : b ≠ 0) :
    (x / y).value? = if |rounded (a / b)| < 2 ^ 128 then some (rounded (a / b)) else none := by
  rw [div_eq]
  exact value?_ofUnpacked ((standsFor_unpack hx).2.div (standsFor_unpack hy).2 hb)

/-- A finite product has finite factors. -/
lemma exists_of_value?_mul (h : (x * y).value? = some r) :
    ∃ a b, x.value? = some a ∧ y.value? = some b ∧ r = rounded (a * b) := by
  rcases value?_cases x with ⟨a, ha, -⟩ | ⟨-, hu⟩
  · rcases value?_cases y with ⟨b, hb, -⟩ | ⟨-, hv⟩
    · rw [value?_mul ha hb, Option.ite_none_right_eq_some] at h
      exact ⟨a, b, ha, hb, (Option.some.inj h.2).symm⟩
    · rw [mul_comm, mul_eq, value?_of_nonFinite (hv.mul _)] at h
      cases h
  · rw [mul_eq, value?_of_nonFinite (hu.mul _)] at h
    cases h

/-- A finite sum has finite summands. -/
lemma exists_of_value?_add (h : (x + y).value? = some r) :
    ∃ a b, x.value? = some a ∧ y.value? = some b ∧ r = rounded (a + b) := by
  rcases value?_cases x with ⟨a, ha, -⟩ | ⟨-, hu⟩
  · rcases value?_cases y with ⟨b, hb, -⟩ | ⟨-, hv⟩
    · rw [value?_add ha hb, Option.ite_none_right_eq_some] at h
      exact ⟨a, b, ha, hb, (Option.some.inj h.2).symm⟩
    · rw [add_eq, value?_of_nonFinite (hv.add_right _)] at h
      cases h
  · rw [add_eq, value?_of_nonFinite (hu.add_left _)] at h
    cases h

/-! ### Order -/

lemma value?_lt_iff (hx : x.value? = some a) (hy : y.value? = some b) : x < y ↔ a < b := by
  obtain ⟨d, hd, rfl⟩ := value?_eq_some.1 hx
  obtain ⟨d', hd', rfl⟩ := value?_eq_some.1 hy
  exact lt_iff hd hd'

lemma value?_le_iff (hx : x.value? = some a) (hy : y.value? = some b) : x ≤ y ↔ a ≤ b := by
  obtain ⟨d, hd, rfl⟩ := value?_eq_some.1 hx
  obtain ⟨d', hd', rfl⟩ := value?_eq_some.1 hy
  exact le_iff hd hd'

lemma coordinate_zero : (Coordinate.zero : Binary32) = .zero := by rfl

lemma coordinate_one : (Coordinate.one : Binary32) = .one := by decide +kernel

lemma value?_zero : (Coordinate.zero : Binary32).value? = some 0 :=
  value?_eq_some.2 ⟨⟨0, -149⟩, by rfl, by simp [Dyadic.value]⟩

lemma value?_one : (Coordinate.one : Binary32).value? = some 1 :=
  value?_eq_some.2 ⟨⟨8388608, -23⟩, by rfl, by norm_num [Dyadic.value]⟩

lemma value?_of_isZero (h : x.isZero) : x.value? = some 0 := by
  have hmagnitude := isZero_iff_magnitude.1 h
  refine value?_eq_some.2 ⟨_, toDyadic?_of_lt (by omega), ?_⟩
  rw [hmagnitude]
  cases x.sign <;> simp [Dyadic.value, Sign.apply]

/-- A quotient of a number that is not negative by a positive one is not negative, where infinite
ones are divided as well. -/
lemma nonneg_of_value?_div (hx : Coordinate.zero < x ∨ x.isZero) (hy : Coordinate.zero < y)
    (h : (x / y).value? = some r) : 0 ≤ r := by
  rcases value?_cases y with ⟨b, hb, -, hv⟩ | ⟨-, hv⟩
  · have hbpos : 0 < b := (value?_lt_iff value?_zero hb).1 hy
    rcases value?_cases x with ⟨a, ha, -⟩ | ⟨-, hu⟩
    · have hnonneg : 0 ≤ a := by
        rcases hx with hpos | hzero
        · exact ((value?_lt_iff value?_zero ha).1 hpos).le
        · rw [value?_of_isZero hzero] at ha
          exact (Option.some.inj ha).le
      rw [value?_div ha hb hbpos.ne', Option.ite_none_right_eq_some] at h
      rw [← Option.some.inj h.2]
      exact rounded_nonneg (by positivity)
    · rw [div_eq, value?_of_nonFinite (hu.div hv)] at h
      cases h
  · rcases hv.div_right x.toFloat.toModel.unpack with hnone | ⟨s, hzero⟩
    · rw [div_eq, value?_of_nonFinite hnone] at h
      cases h
    · rw [div_eq, hzero, value?_ofUnpacked (.zero rfl), Option.ite_none_right_eq_some] at h
      exact (Option.some.inj h.2).le

/-! ### Words of one value -/

/-- The exponent of the exact value is that of the last place. -/
lemma exponent_eq {d : Dyadic} (h : x.toDyadic? = some d) : d.exponent = lastPlace d.value := by
  have hplace : ∀ {s : Sign} {m : ℕ} {e : ℤ}, m < 2 ^ 24 → -149 ≤ e → (e = -149 ∨ 2 ^ 23 ≤ m) →
      e = lastPlace (Dyadic.value ⟨s.apply m, e⟩) := by
    intro s m e hlt hle hdigits
    rw [eq_comm, lastPlace_eq_iff, Dyadic.value, abs_mul, StandsFor.abs_apply,
      abs_of_pos (two_zpow_pos e), two_zpow_add, two_zpow_add,
      mul_lt_mul_iff_left₀ (two_zpow_pos e), mul_le_mul_iff_left₀ (two_zpow_pos e)]
    exact ⟨hle, by exact_mod_cast hlt, hdigits.imp_right fun h => by exact_mod_cast h⟩
  have hfinite : x.magnitude.toNat < 255 * 2 ^ 23 := by
    by_contra hlarge
    rw [toDyadic?_eq_none.2 (not_lt.1 hlarge)] at h
    cases h
  rcases Nat.lt_or_ge x.magnitude.toNat (2 ^ 23) with hlt | hge
  · cases (toDyadic?_of_lt hlt).symm.trans h
    exact hplace (by omega) le_rfl (.inl rfl)
  · cases (toDyadic?_of_le hge hfinite).symm.trans h
    exact hplace (by omega) (by dsimp only; omega) (.inr (by omega))

/-- Words of one value have one exact value. -/
lemma toDyadic?_eq (hx : x.value? = some a) (hy : y.value? = some a) :
    x.toDyadic? = y.toDyadic? := by
  obtain ⟨d, hd, hvalue⟩ := value?_eq_some.1 hx
  obtain ⟨d', hd', rfl⟩ := value?_eq_some.1 hy
  have hexponent : d.exponent = d'.exponent := by
    rw [exponent_eq hd, exponent_eq hd', hvalue]
  have hcoefficient : d.coefficient = d'.coefficient := by
    rw [Dyadic.value, Dyadic.value, hexponent, mul_left_inj' (two_zpow_pos _).ne'] at hvalue
    exact_mod_cast hvalue
  rw [hd, hd']
  cases d
  cases d'
  simp_all

end Binary32

end GraphicsPipeline
