import Mathlib

/-!
# Rounding to nearest even

A single precision number has 24 binary digits, or fewer above a least place. Rounding takes a
rational number to the nearest of these, of two as near to the even one (`rounded`). It leaves them
as they are, keeps the order, and moves a number by at most half of its last place; on multiples of
the least place that is small against the number itself. The largest exponent plays no part here.
-/

namespace GraphicsPipeline

/-! ### To integers -/

/-- The nearest integer, of two as near the even one. -/
def nearestEven (r : ℚ) : ℤ :=
  if Int.fract r < 1 / 2 then ⌊r⌋
  else if 1 / 2 < Int.fract r then ⌊r⌋ + 1
  else ⌊r⌋ + ⌊r⌋ % 2

/-- An integer is less than a half away, or a half and even. -/
def IsNearestEven (r : ℚ) (n : ℤ) : Prop := |r - n| < 1 / 2 ∨ |r - n| = 1 / 2 ∧ Even n

namespace IsNearestEven

variable {r s : ℚ} {m n : ℤ}

lemma abs_sub_le (h : IsNearestEven r n) : |r - n| ≤ 1 / 2 := by
  rcases h with h | ⟨h, -⟩
  · exact h.le
  · exact h.le

/-- What is nearest keeps the order. -/
lemma le (hn : IsNearestEven r n) (hm : IsNearestEven s m) (h : r ≤ s) : n ≤ m := by
  by_contra! hlt
  have hn' := abs_le.1 hn.abs_sub_le
  have hm' := abs_le.1 hm.abs_sub_le
  have hsucc : (m : ℚ) + 1 ≤ n := by exact_mod_cast hlt
  -- the two are neighbours, and both as near, so that both would be even
  have hr : r - n = -(1 / 2) := by linarith
  have hs : s - m = 1 / 2 := by linarith
  have heq : (n : ℚ) = (m + 1 : ℤ) := by push_cast; linarith
  obtain ⟨-, hneven⟩ := hn.resolve_left (by rw [hr]; norm_num)
  obtain ⟨-, hmeven⟩ := hm.resolve_left (by rw [hs]; norm_num)
  rw [Int.cast_injective heq] at hneven
  exact Int.not_even_iff_odd.2 hmeven.add_one hneven

lemma unique (hn : IsNearestEven r n) (hm : IsNearestEven r m) : n = m :=
  le_antisymm (hn.le hm le_rfl) (hm.le hn le_rfl)

lemma intCast (n : ℤ) : IsNearestEven n n := .inl (by norm_num)

lemma neg (h : IsNearestEven r n) : IsNearestEven (-r) (-n) := by
  have habs : |(-r) - ((-n : ℤ) : ℚ)| = |r - n| := by
    rw [← abs_neg]
    push_cast
    congr 1
    ring
  simpa only [IsNearestEven, habs, even_neg] using h

end IsNearestEven

lemma isNearestEven_nearestEven (r : ℚ) : IsNearestEven r (nearestEven r) := by
  have hr := Int.floor_add_fract r
  have hnonneg := Int.fract_nonneg r
  have hlt := Int.fract_lt_one r
  unfold nearestEven
  split_ifs with hbelow habove
  · exact .inl (abs_lt.2 ⟨by linarith, by linarith⟩)
  · exact .inl (abs_lt.2 ⟨by push_cast; linarith, by push_cast; linarith⟩)
  · have hhalf : Int.fract r = 1 / 2 := le_antisymm (not_lt.1 habove) (not_lt.1 hbelow)
    rcases Int.even_or_odd ⌊r⌋ with heven | hodd
    · rw [Int.even_iff.1 heven, add_zero]
      exact .inr ⟨by rw [show r - ⌊r⌋ = 1 / 2 by linarith]; norm_num, heven⟩
    · rw [Int.odd_iff.1 hodd]
      refine .inr ⟨?_, hodd.add_one⟩
      rw [show r - ((⌊r⌋ + 1 : ℤ) : ℚ) = -(1 / 2) by push_cast; linarith]
      norm_num

section NearestEven

variable {r s : ℚ} {n : ℤ}

lemma nearestEven_eq_iff : nearestEven r = n ↔ IsNearestEven r n := by
  constructor
  · rintro rfl
    exact isNearestEven_nearestEven r
  · exact (isNearestEven_nearestEven r).unique

@[simp] lemma nearestEven_intCast (n : ℤ) : nearestEven n = n :=
  nearestEven_eq_iff.2 (.intCast n)

lemma nearestEven_neg (r : ℚ) : nearestEven (-r) = -nearestEven r :=
  nearestEven_eq_iff.2 (isNearestEven_nearestEven r).neg

lemma nearestEven_mono (h : r ≤ s) : nearestEven r ≤ nearestEven s :=
  (isNearestEven_nearestEven r).le (isNearestEven_nearestEven s) h

lemma nearestEven_le (h : r ≤ n) : nearestEven r ≤ n := by
  simpa using nearestEven_mono h

lemma le_nearestEven (h : (n : ℚ) ≤ r) : n ≤ nearestEven r := by
  simpa using nearestEven_mono h

end NearestEven

/-! ### Places -/

/-- The exponent of the last of 24 binary digits, which is never below the least place. -/
def lastPlace (r : ℚ) : ℤ := if r = 0 then -149 else max (Int.log 2 |r| - 23) (-149)

/-- The number rounded to its last place. -/
def rounded (r : ℚ) : ℚ := nearestEven (r / 2 ^ lastPlace r) * 2 ^ lastPlace r

/-- A number with at most 24 binary digits, none below the least place. The largest exponent is not
looked at. -/
def Representable (r : ℚ) : Prop := ∃ n e : ℤ, |n| ≤ 2 ^ 24 ∧ -149 ≤ e ∧ r = n * 2 ^ e

/-- A multiple of the least place. -/
def OnGrid (r : ℚ) : Prop := ∃ n : ℤ, r = n * 2 ^ (-149 : ℤ)

section Places

variable {r s f : ℚ} {e : ℤ}

lemma two_zpow_pos (e : ℤ) : (0 : ℚ) < 2 ^ e := by positivity

lemma two_zpow_le {e e' : ℤ} (h : e ≤ e') : (2 : ℚ) ^ e ≤ 2 ^ e' :=
  zpow_le_zpow_right₀ one_le_two h

lemma two_zpow_add (e e' : ℤ) : (2 : ℚ) ^ (e + e') = 2 ^ e * 2 ^ e' := zpow_add₀ two_ne_zero e e'

/-- Powers with exponents above the least place are integral multiples of it. -/
lemma exists_two_zpow_eq {e e' : ℤ} (h : e ≤ e') : ∃ k : ℤ, (2 : ℚ) ^ e' = k * 2 ^ e := by
  obtain ⟨n, rfl⟩ := Int.le.dest h
  refine ⟨2 ^ n, ?_⟩
  rw [two_zpow_add, zpow_natCast]
  push_cast
  ring

lemma lastPlace_eq_iff : lastPlace r = e ↔
    -149 ≤ e ∧ |r| < 2 ^ (24 + e) ∧ (e = -149 ∨ 2 ^ (23 + e) ≤ |r|) := by
  unfold lastPlace
  -- zero has no leading digit; its last place is the least there is
  split_ifs with hr
  · subst hr
    rw [abs_zero]
    constructor
    · rintro rfl
      exact ⟨le_rfl, two_zpow_pos _, .inl rfl⟩
    · rintro ⟨-, -, h | h⟩
      · exact h.symm
      · exact absurd h (two_zpow_pos _).not_ge
  · have hpos : 0 < |r| := abs_pos.2 hr
    have hlow : ∀ k : ℤ, (2 : ℚ) ^ k ≤ |r| ↔ k ≤ Int.log 2 |r| := fun k => by
      rw [← Int.zpow_le_iff_le_log one_lt_two hpos]
      norm_cast
    have hhigh : ∀ k : ℤ, |r| < (2 : ℚ) ^ k ↔ Int.log 2 |r| < k := fun k => by
      rw [← Int.lt_zpow_iff_log_lt one_lt_two hpos]
      norm_cast
    rw [hlow, hhigh]
    omega

lemma neg_149_le_lastPlace (r : ℚ) : -149 ≤ lastPlace r := (lastPlace_eq_iff.1 rfl).1

lemma abs_lt_two_zpow (r : ℚ) : |r| < 2 ^ (24 + lastPlace r) := (lastPlace_eq_iff.1 rfl).2.1

lemma two_zpow_le_abs (r : ℚ) : lastPlace r = -149 ∨ 2 ^ (23 + lastPlace r) ≤ |r| :=
  (lastPlace_eq_iff.1 rfl).2.2

@[simp] lemma lastPlace_neg (r : ℚ) : lastPlace (-r) = lastPlace r := by
  rw [lastPlace_eq_iff, abs_neg]
  exact lastPlace_eq_iff.1 rfl

lemma lastPlace_mono (h : |r| ≤ |s|) : lastPlace r ≤ lastPlace s := by
  rcases two_zpow_le_abs r with hr | hr
  · exact hr.trans_le (neg_149_le_lastPlace s)
  · have hlt : (2 : ℚ) ^ (23 + lastPlace r) < 2 ^ (24 + lastPlace s) :=
      hr.trans_lt (h.trans_lt (abs_lt_two_zpow s))
    have := (zpow_lt_zpow_iff_right₀ one_lt_two).1 hlt
    omega

end Places

/-! ### Representable numbers -/

namespace Representable

variable {r f : ℚ}

lemma onGrid (hf : Representable f) : OnGrid f := by
  obtain ⟨n, e, -, he, rfl⟩ := hf
  obtain ⟨k, hk⟩ := exists_two_zpow_eq he
  exact ⟨n * k, by rw [hk]; push_cast; ring⟩

/-- A number with digits below a place has none above the next 23. -/
lemma eq_mul_or_abs_le (hf : Representable f) (p : ℤ) :
    (∃ k : ℤ, f = k * 2 ^ p) ∨ |f| ≤ 2 ^ (23 + p) := by
  obtain ⟨n, e, hn, -, rfl⟩ := hf
  rcases le_or_gt p e with hle | hlt
  · obtain ⟨k, hk⟩ := exists_two_zpow_eq hle
    exact .inl ⟨n * k, by rw [hk]; push_cast; ring⟩
  · have hn' : |(n : ℚ)| ≤ 2 ^ (24 : ℤ) := by exact_mod_cast hn
    right
    calc |(n : ℚ) * 2 ^ e| = |(n : ℚ)| * 2 ^ e := by rw [abs_mul, abs_of_pos (two_zpow_pos e)]
      _ ≤ 2 ^ (24 : ℤ) * 2 ^ e := by gcongr
      _ = 2 ^ (24 + e) := (two_zpow_add _ _).symm
      _ ≤ 2 ^ (23 + p) := two_zpow_le (by omega)

/-- A number that is not smaller lies on the grid of the last place. -/
lemma exists_mul_lastPlace (hf : Representable f) (h : |r| ≤ |f|) :
    ∃ k : ℤ, f = k * 2 ^ lastPlace r := by
  rcases hf.eq_mul_or_abs_le (lastPlace r) with hk | hle
  · exact hk
  rcases two_zpow_le_abs r with hleast | hlow
  · rw [hleast]
    exact hf.onGrid
  · -- then it is the least number with this last place, which is on the grid
    have heq := le_antisymm hle (hlow.trans h)
    rw [two_zpow_add] at heq
    rcases (abs_eq (by positivity)).1 heq with hpos | hneg
    · exact ⟨2 ^ 23, by rw [hpos]; norm_num⟩
    · exact ⟨-2 ^ 23, by rw [hneg]; norm_num⟩

end Representable

lemma representable_zero : Representable 0 := ⟨0, 0, by norm_num, by norm_num, by norm_num⟩

lemma representable_two_zpow {e : ℤ} (he : -149 ≤ e) : Representable (2 ^ e) :=
  ⟨1, e, by norm_num, he, by norm_num⟩

lemma representable_one : Representable 1 := by
  simpa using representable_two_zpow (e := 0) (by norm_num)

lemma OnGrid.add {r s : ℚ} (hr : OnGrid r) (hs : OnGrid s) : OnGrid (r + s) := by
  obtain ⟨n, rfl⟩ := hr
  obtain ⟨m, rfl⟩ := hs
  exact ⟨n + m, by push_cast; ring⟩

/-! ### Rounding -/

section Rounded

variable {r s f : ℚ}

lemma rounded_neg (r : ℚ) : rounded (-r) = -rounded r := by
  rw [rounded, rounded, lastPlace_neg, neg_div, nearestEven_neg]
  push_cast
  ring

/-- Rounding leaves a multiple of the last place as it is. -/
lemma rounded_of_eq_mul {k : ℤ} (h : r = k * 2 ^ lastPlace r) : rounded r = r := by
  have hquotient : r / 2 ^ lastPlace r = k := by
    rw [div_eq_iff (two_zpow_pos _).ne']
    exact h
  rw [rounded, hquotient, nearestEven_intCast]
  exact h.symm

lemma rounded_of_representable (hr : Representable r) : rounded r = r := by
  obtain ⟨k, hk⟩ := hr.exists_mul_lastPlace (le_refl |r|)
  exact rounded_of_eq_mul hk

@[simp] lemma rounded_zero : rounded 0 = 0 := rounded_of_representable representable_zero

lemma representable_rounded (r : ℚ) : Representable (rounded r) := by
  refine ⟨nearestEven (r / 2 ^ lastPlace r), lastPlace r, ?_, neg_149_le_lastPlace r, rfl⟩
  have hlt : |r / 2 ^ lastPlace r| < ((2 ^ 24 : ℤ) : ℚ) := by
    rw [abs_div, abs_of_pos (two_zpow_pos _), div_lt_iff₀ (two_zpow_pos _)]
    have h := abs_lt_two_zpow r
    rw [two_zpow_add] at h
    exact_mod_cast h
  rw [abs_lt] at hlt
  exact abs_le.2 ⟨le_nearestEven (by push_cast at hlt ⊢; exact hlt.1.le), nearestEven_le hlt.2.le⟩

/-- What a number is below, it is below after rounding, if that can be represented. -/
lemma rounded_le (hf : Representable f) (hr : 0 ≤ r) (h : r ≤ f) : rounded r ≤ f := by
  obtain ⟨k, hk⟩ := hf.exists_mul_lastPlace (r := r) (by
    rwa [abs_of_nonneg hr, abs_of_nonneg (hr.trans h)])
  have hle : r / 2 ^ lastPlace r ≤ k := by
    rw [div_le_iff₀ (two_zpow_pos _), ← hk]
    exact h
  have hnearest : (nearestEven (r / 2 ^ lastPlace r) : ℚ) ≤ k := by
    exact_mod_cast nearestEven_le hle
  rw [rounded]
  calc nearestEven (r / 2 ^ lastPlace r) * (2 : ℚ) ^ lastPlace r ≤ k * 2 ^ lastPlace r := by gcongr
    _ = f := hk.symm

/-- What a number is above, it is above after rounding, if that can be represented. -/
lemma le_rounded (hf : Representable f) (hnonneg : 0 ≤ f) (h : f ≤ r) : f ≤ rounded r := by
  -- a number on the grid of the last place stays below the quotient when that is rounded
  have hgrid : ∀ k : ℤ, k * 2 ^ lastPlace r ≤ r → k * 2 ^ lastPlace r ≤ rounded r := by
    intro k hk
    have hle : (k : ℚ) ≤ r / 2 ^ lastPlace r := (le_div_iff₀ (two_zpow_pos _)).2 hk
    have hnearest : (k : ℚ) ≤ nearestEven (r / 2 ^ lastPlace r) := by
      exact_mod_cast le_nearestEven hle
    unfold rounded
    gcongr
  rcases hf.eq_mul_or_abs_le (lastPlace r) with ⟨k, hk⟩ | hle
  · rw [hk] at h ⊢
    exact hgrid k h
  rcases two_zpow_le_abs r with hleast | hlow
  · obtain ⟨k, hk⟩ := hf.onGrid
    rw [← hleast] at hk
    rw [hk] at h ⊢
    exact hgrid k h
  · have hpow : ((2 ^ 23 : ℤ) : ℚ) * 2 ^ lastPlace r = 2 ^ (23 + lastPlace r) := by
      rw [two_zpow_add]
      norm_num
    rw [abs_of_nonneg hnonneg] at hle
    rw [abs_of_nonneg (hnonneg.trans h), ← hpow] at hlow
    rw [← hpow] at hle
    exact hle.trans (hgrid _ hlow)

lemma rounded_nonneg (hr : 0 ≤ r) : 0 ≤ rounded r := le_rounded representable_zero le_rfl hr

/-- Rounding keeps the order. -/
lemma rounded_mono (hr : 0 ≤ r) (h : r ≤ s) : rounded r ≤ rounded s := by
  have habs : |r| ≤ |s| := by rwa [abs_of_nonneg hr, abs_of_nonneg (hr.trans h)]
  rcases (lastPlace_mono habs).eq_or_lt with heq | hlt
  · have hle : r / 2 ^ lastPlace s ≤ s / 2 ^ lastPlace s := by gcongr
    have hnearest : (nearestEven (r / 2 ^ lastPlace s) : ℚ) ≤
        nearestEven (s / 2 ^ lastPlace s) := by
      exact_mod_cast nearestEven_mono hle
    rw [rounded, rounded, heq]
    gcongr
  · -- a power of two lies between numbers with different last places
    have hplace := neg_149_le_lastPlace r
    have hpower : Representable (2 ^ (23 + lastPlace s)) := representable_two_zpow (by omega)
    have hlow := (two_zpow_le_abs s).resolve_left (by omega)
    have hhigh : |r| < 2 ^ (23 + lastPlace s) :=
      (abs_lt_two_zpow r).trans_le (two_zpow_le (by omega))
    rw [abs_of_nonneg (hr.trans h)] at hlow
    rw [abs_of_nonneg hr] at hhigh
    exact (rounded_le hpower hr hhigh.le).trans (le_rounded hpower (two_zpow_pos _).le hlow)

/-! ### Errors -/

lemma abs_rounded_sub_le_half (r : ℚ) : |rounded r - r| ≤ 2 ^ lastPlace r / 2 := by
  have hnearest := (isNearestEven_nearestEven (r / 2 ^ lastPlace r)).abs_sub_le
  have hsplit : rounded r - r =
      -(r / 2 ^ lastPlace r - nearestEven (r / 2 ^ lastPlace r)) * 2 ^ lastPlace r := by
    rw [rounded]
    field_simp
    ring
  rw [hsplit, abs_mul, abs_neg, abs_of_pos (two_zpow_pos _)]
  calc _ ≤ 1 / 2 * (2 : ℚ) ^ lastPlace r := by gcongr
    _ = 2 ^ lastPlace r / 2 := by ring

/-- Half of the last place is a small part of a number that has all its digits. -/
lemma half_place_le (h : 2 ^ (23 + lastPlace r) ≤ |r|) :
    (2 : ℚ) ^ lastPlace r / 2 ≤ 2 ^ (-24 : ℤ) * |r| := by
  calc (2 : ℚ) ^ lastPlace r / 2 = 2 ^ (-24 : ℤ) * 2 ^ (23 + lastPlace r) := by
        rw [two_zpow_add]
        norm_num
        ring
    _ ≤ 2 ^ (-24 : ℤ) * |r| := by gcongr

/-- A multiple of the least place is moved by a small part of itself. -/
lemma abs_rounded_sub_le_of_onGrid (h : OnGrid r) : |rounded r - r| ≤ 2 ^ (-24 : ℤ) * |r| := by
  rcases two_zpow_le_abs r with hleast | hlow
  · obtain ⟨n, hn⟩ := h
    rw [← hleast] at hn
    rw [rounded_of_eq_mul hn, sub_self, abs_zero]
    positivity
  · exact (abs_rounded_sub_le_half r).trans (half_place_le hlow)

/-- Any number is moved by a small part of itself and half of the least place. -/
lemma abs_rounded_sub_le (r : ℚ) : |rounded r - r| ≤ 2 ^ (-24 : ℤ) * |r| + 2 ^ (-150 : ℤ) := by
  refine (abs_rounded_sub_le_half r).trans ?_
  rcases two_zpow_le_abs r with hleast | hlow
  · have hpow : (2 : ℚ) ^ (-149 : ℤ) / 2 = 2 ^ (-150 : ℤ) := by norm_num
    rw [hleast, hpow]
    exact le_add_of_nonneg_left (by positivity)
  · exact (half_place_le hlow).trans (le_add_of_nonneg_right (two_zpow_pos _).le)

/-! ### Scaling -/

/-- A number that is divided by a power of two and stays on the grid keeps its digits. -/
lemma Representable.div_two_pow (hr : Representable r) {k : ℕ} (h : OnGrid (r / 2 ^ k)) :
    Representable (r / 2 ^ k) := by
  obtain ⟨m, hm⟩ := h
  obtain ⟨n, e, hn, he, rfl⟩ := hr
  have hscaled : (n : ℚ) * 2 ^ e / 2 ^ k = n * 2 ^ (e - k) := by
    rw [mul_div_assoc, zpow_sub₀ two_ne_zero, zpow_natCast]
  -- where the exponent would be too small, the digits on the least grid are fewer still
  rcases le_or_gt (-149) (e - k) with hle | hlt
  · exact ⟨n, e - k, hn, hle, hscaled⟩
  · refine ⟨m, -149, ?_, le_rfl, hm⟩
    have habs : |(m : ℚ)| * 2 ^ (-149 : ℤ) ≤ |(n : ℚ)| * 2 ^ (-149 : ℤ) := by
      calc |(m : ℚ)| * 2 ^ (-149 : ℤ) = |(n : ℚ)| * 2 ^ (e - k) := by
            rw [hscaled] at hm
            rw [← abs_of_pos (two_zpow_pos (-149)), ← abs_mul, ← hm, abs_mul,
              abs_of_pos (two_zpow_pos _)]
        _ ≤ |(n : ℚ)| * 2 ^ (-149 : ℤ) := by
            gcongr
            exact one_le_two
    have hle : |(m : ℚ)| ≤ |(n : ℚ)| := le_of_mul_le_mul_right habs (two_zpow_pos _)
    exact (by exact_mod_cast hle : |m| ≤ |n|).trans hn

/-- Division by a power of two that stays on the grid commutes with rounding. -/
lemma rounded_div_two_pow {k : ℕ} (h : OnGrid (r / 2 ^ k)) :
    rounded (r / 2 ^ k) = rounded r / 2 ^ k := by
  have hk : (0 : ℚ) < 2 ^ k := by positivity
  have habs : |r| = |r / 2 ^ k| * 2 ^ k := by
    rw [abs_div, abs_of_pos hk, div_mul_cancel₀ _ hk.ne']
  rcases two_zpow_le_abs (r / 2 ^ k) with hleast | hlow
  · -- all digits are kept before and after
    obtain ⟨m, hm⟩ := h
    have hlt := abs_lt_two_zpow (r / 2 ^ k)
    have hr : Representable r := by
      refine ⟨m, -149 + k, ?_, by omega, ?_⟩
      · rw [hleast, two_zpow_add, hm, abs_mul, abs_of_pos (two_zpow_pos _),
          mul_lt_mul_iff_left₀ (two_zpow_pos _)] at hlt
        exact_mod_cast hlt.le
      · rw [two_zpow_add, zpow_natCast, ← mul_assoc, ← hm, div_mul_cancel₀ _ hk.ne']
    rw [rounded_of_representable hr]
    rw [← hleast] at hm
    exact rounded_of_eq_mul hm
  · have hplace : lastPlace r = lastPlace (r / 2 ^ k) + k := by
      have hsplit : ∀ d : ℤ, (2 : ℚ) ^ (d + (lastPlace (r / 2 ^ k) + k)) =
          2 ^ (d + lastPlace (r / 2 ^ k)) * 2 ^ k := fun d => by
        rw [← add_assoc, two_zpow_add, zpow_natCast]
      rw [lastPlace_eq_iff, hsplit, hsplit, habs]
      refine ⟨?_, ?_, .inr ?_⟩
      · have := neg_149_le_lastPlace (r / 2 ^ k)
        omega
      · have := abs_lt_two_zpow (r / 2 ^ k)
        gcongr
      · gcongr
    rw [rounded, rounded, hplace, two_zpow_add, zpow_natCast, div_div, mul_comm (2 ^ k : ℚ),
      ← mul_assoc, mul_div_cancel_right₀ _ hk.ne']

end Rounded

end GraphicsPipeline
