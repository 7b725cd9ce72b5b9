import GraphicsPipeline.Proofs.Number.Arithmetic
import GraphicsPipeline.Proofs.Raster.Partition
import GraphicsPipeline.Proofs.Raster.Perspective
import GraphicsPipeline.Proofs.Raster.Visibility

/-!
# Triangles of one depth

The depth at a pixel is a quotient of two sums: every corner adds its share to the one, and its
share times its depth to the other. Where all corners have one depth, that depth cancels as far as
products and sums are exact. They are rounded, so that it comes out nearly, and exactly for zero and
for powers of two (`Triangle.level_depth`). For other depths it can come out too large, and then an
earlier triangle of the same depth hides a later one (`Triangle.depth_ne_tenth`).
-/

namespace GraphicsPipeline

/-! ### Amounts -/

/-- A number of 24 binary digits that is not negative. -/
structure IsAmount (a : ℚ) : Prop where
  representable : Representable a
  nonneg : 0 ≤ a

namespace IsAmount

variable {a c : ℚ}

lemma rounded_mul (h : IsAmount a) (hc : 0 ≤ c) : IsAmount (rounded (a * c)) :=
  ⟨representable_rounded _, rounded_nonneg (mul_nonneg h.nonneg hc)⟩

lemma rounded_mul_le (h : IsAmount a) (hc : 0 ≤ c) (hle : c ≤ 1) : rounded (a * c) ≤ a :=
  rounded_le h.representable (mul_nonneg h.nonneg hc) (mul_le_of_le_one_right h.nonneg hle)

lemma abs_rounded_mul_sub_le (h : IsAmount a) (hc : 0 ≤ c) :
    |rounded (a * c) - a * c| ≤ 2 ^ (-24 : ℤ) * (a * c) + 2 ^ (-150 : ℤ) := by
  have hle := abs_rounded_sub_le (a * c)
  rwa [abs_of_nonneg (mul_nonneg h.nonneg hc)] at hle

lemma rounded_mul_one_div (h : IsAmount a) {k : ℕ} (hgrid : OnGrid (a / 2 ^ k)) :
    rounded (a * (1 / 2 ^ k)) = a / 2 ^ k := by
  rw [mul_one_div]
  exact rounded_of_representable (h.representable.div_two_pow hgrid)

end IsAmount

/-! ### Rounded sums -/

namespace Corners

/-- The sum of three numbers, rounded after each step. -/
def roundedSum (r : Corners ℚ) : ℚ := rounded (rounded (r.a + r.b) + r.c)

/-- The sum of three numbers, as a loop that starts from zero adds them up. -/
def total (q : Corners Binary32) : Binary32 := Coordinate.zero + q.a + q.b + q.c

/-- Three finite numbers with their values. -/
structure HasValues (q : Corners Binary32) (r : Corners ℚ) : Prop where
  a : q.a.value? = some r.a
  b : q.b.value? = some r.b
  c : q.c.value? = some r.c

variable {q q' : Corners Binary32} {r r' : Corners ℚ} {s : ℚ}

/-- A finite sum has finite summands. -/
lemma exists_of_value?_total (h : q.total.value? = some s) :
    ∃ r, q.HasValues r ∧ s = r.roundedSum ∧ |rounded (r.a + r.b)| < 2 ^ 128 := by
  obtain ⟨ab, c, hab, hc, rfl⟩ := Binary32.exists_of_value?_add h
  have habs := Binary32.abs_lt_of_value? hab
  obtain ⟨a, b, ha, hb, rfl⟩ := Binary32.exists_of_value?_add hab
  obtain ⟨zero, a', hzero, ha', rfl⟩ := Binary32.exists_of_value?_add ha
  rw [Binary32.value?_zero] at hzero
  obtain rfl := Option.some.inj hzero
  rw [zero_add, rounded_of_representable (Binary32.representable ha')] at habs ⊢
  exact ⟨⟨a', b, c⟩, ⟨ha', hb, hc⟩, rfl, habs⟩

/-- Numbers from zero up to others. -/
structure Below (r r' : Corners ℚ) : Prop where
  a : 0 ≤ r.a ∧ r.a ≤ r'.a
  b : 0 ≤ r.b ∧ r.b ≤ r'.b
  c : 0 ≤ r.c ∧ r.c ≤ r'.c

lemma Below.roundedSum_le (h : r.Below r') :
    (0 ≤ rounded (r.a + r.b) ∧ rounded (r.a + r.b) ≤ rounded (r'.a + r'.b)) ∧
      0 ≤ r.roundedSum ∧ r.roundedSum ≤ r'.roundedSum := by
  obtain ⟨⟨ha, hale⟩, ⟨hb, hble⟩, hc, hcle⟩ := h
  have hab : rounded (r.a + r.b) ≤ rounded (r'.a + r'.b) := rounded_mono (by linarith) (by linarith)
  have hnonneg : 0 ≤ rounded (r.a + r.b) := rounded_nonneg (by linarith)
  exact ⟨⟨hnonneg, hab⟩, rounded_nonneg (by linarith), rounded_mono (by linarith) (by linarith)⟩

/-- Numbers below those of a finite sum have a finite sum. -/
lemma HasValues.value?_total (h : q.HasValues r) (hbelow : r.Below r')
    (hab : |rounded (r'.a + r'.b)| < 2 ^ 128) (hsum : |r'.roundedSum| < 2 ^ 128) :
    q.total.value? = some r.roundedSum := by
  obtain ⟨⟨hnonneg, hle⟩, hnonneg', hle'⟩ := hbelow.roundedSum_le
  have ha : (Coordinate.zero + q.a).value? = some r.a := by
    have hrounded := rounded_of_representable (Binary32.representable h.a)
    rw [Binary32.value?_add Binary32.value?_zero h.a, zero_add, hrounded,
      if_pos (Binary32.abs_lt_of_value? h.a)]
  have habs : |rounded (r.a + r.b)| < 2 ^ 128 := by
    rw [abs_of_nonneg hnonneg]
    exact (hle.trans (le_abs_self _)).trans_lt hab
  have habs' : |r.roundedSum| < 2 ^ 128 := by
    rw [abs_of_nonneg hnonneg']
    exact (hle'.trans (le_abs_self _)).trans_lt hsum
  have hab' : (Coordinate.zero + q.a + q.b).value? = some (rounded (r.a + r.b)) := by
    rw [Binary32.value?_add ha h.b, if_pos habs]
  rw [total, Binary32.value?_add hab' h.c]
  exact if_pos habs'

structure AreAmounts (r : Corners ℚ) : Prop where
  a : IsAmount r.a
  b : IsAmount r.b
  c : IsAmount r.c

namespace AreAmounts

variable {c : ℚ}

/-- No sum of such numbers lies between two multiples of the least place, so that each step costs
a small part of the sum only. -/
lemma abs_roundedSum_sub_le (h : r.AreAmounts) :
    |r.roundedSum - r.sum| ≤ (2 ^ (-23 : ℤ) + 2 ^ (-48 : ℤ)) * r.sum := by
  obtain ⟨⟨ha, ha'⟩, ⟨hb, hb'⟩, hc, hc'⟩ := h
  have hab : 0 ≤ r.a + r.b := by linarith
  have hnonneg : 0 ≤ rounded (r.a + r.b) := rounded_nonneg hab
  have hfirst := abs_rounded_sub_le_of_onGrid (ha.onGrid.add hb.onGrid)
  have hsecond := abs_rounded_sub_le_of_onGrid
    ((representable_rounded (r.a + r.b)).onGrid.add hc.onGrid)
  rw [abs_of_nonneg hab] at hfirst
  rw [abs_of_nonneg (show 0 ≤ rounded (r.a + r.b) + r.c by linarith)] at hsecond
  rw [abs_le] at hfirst hsecond ⊢
  norm_num at hfirst hsecond ⊢
  unfold roundedSum sum
  constructor <;> linarith

end AreAmounts

/-! ### Common factors -/

/-- Three numbers times another, rounded. -/
def scaled (r : Corners ℚ) (c : ℚ) : Corners ℚ := r.map fun a => rounded (a * c)

namespace AreAmounts

variable {c : ℚ}

lemma scaled_below (h : r.AreAmounts) (hnonneg : 0 ≤ c) (hle : c ≤ 1) : (r.scaled c).Below r := by
  have hscaled : ∀ {a : ℚ}, IsAmount a → 0 ≤ rounded (a * c) ∧ rounded (a * c) ≤ a :=
    fun ha => ⟨(ha.rounded_mul hnonneg).nonneg, ha.rounded_mul_le hnonneg hle⟩
  exact ⟨hscaled h.a, hscaled h.b, hscaled h.c⟩

lemma scaled (h : r.AreAmounts) (hnonneg : 0 ≤ c) : (r.scaled c).AreAmounts :=
  ⟨h.a.rounded_mul hnonneg, h.b.rounded_mul hnonneg, h.c.rounded_mul hnonneg⟩

/-- A common factor comes out of a sum with an error that is a small part of the result, and a few
least places. -/
lemma abs_scaled_sub_le (h : r.AreAmounts) (hnonneg : 0 ≤ c) :
    |(r.scaled c).roundedSum - c * r.roundedSum| ≤
      6 * 2 ^ (-24 : ℤ) * (c * r.roundedSum) + 4 * 2 ^ (-150 : ℤ) := by
  have hsum : |c * r.roundedSum - c * r.sum| ≤
      (2 ^ (-23 : ℤ) + 2 ^ (-48 : ℤ)) * (c * r.sum) := by
    rw [← mul_sub, abs_mul, abs_of_nonneg hnonneg, mul_left_comm]
    exact mul_le_mul_of_nonneg_left h.abs_roundedSum_sub_le hnonneg
  have hscaled := (h.scaled hnonneg).abs_roundedSum_sub_le
  have hscaledSum : (r.scaled c).sum = rounded (r.a * c) + rounded (r.b * c) + rounded (r.c * c) :=
    rfl
  have hexact : c * r.sum = r.a * c + r.b * c + r.c * c := by
    rw [Corners.sum]
    ring
  have ha := abs_le.1 (h.a.abs_rounded_mul_sub_le hnonneg)
  have hb := abs_le.1 (h.b.abs_rounded_mul_sub_le hnonneg)
  have hc := abs_le.1 (h.c.abs_rounded_mul_sub_le hnonneg)
  have hleast := two_zpow_pos (-150)
  rw [abs_le] at hsum hscaled ⊢
  rw [hscaledSum] at hscaled
  rw [hexact] at hsum
  -- with the least place as a variable all bounds are linear
  generalize (2 : ℚ) ^ (-150 : ℤ) = least at *
  norm_num at ha hb hc hsum hscaled ⊢
  constructor <;> linarith

/-- A common factor that is zero or a power of two comes out exactly, if no product falls below the
least place. -/
lemma scaled_roundedSum_eq (h : r.AreAmounts) (hpower : c = 0 ∨ ∃ k : ℕ, c = 1 / 2 ^ k)
    (ha : OnGrid (r.a * c)) (hb : OnGrid (r.b * c)) (hc : OnGrid (r.c * c)) :
    (r.scaled c).roundedSum = c * r.roundedSum := by
  rcases hpower with rfl | ⟨k, rfl⟩
  · simp [Corners.scaled, Corners.map, roundedSum]
  · simp only [mul_one_div] at ha hb hc
    have hab : OnGrid ((r.a + r.b) / 2 ^ k) := by
      rw [add_div]
      exact ha.add hb
    have hrounded := rounded_div_two_pow hab
    have habc : OnGrid ((rounded (r.a + r.b) + r.c) / 2 ^ k) := by
      rw [add_div, ← hrounded]
      exact (representable_rounded _).onGrid.add hc
    simp only [Corners.scaled, Corners.map, roundedSum, h.a.rounded_mul_one_div ha,
      h.b.rounded_mul_one_div hb, h.c.rounded_mul_one_div hc]
    rw [← add_div, hrounded, ← add_div, rounded_div_two_pow habc, div_mul_eq_mul_div, one_mul]

end AreAmounts

end Corners

/-! ### Shares -/

namespace Triangle

/-- The shares of the corners in the depth, before they are divided by their sum. -/
def shares (t : Triangle Binary32) (weights : Corners Binary32) : Corners Binary32 :=
  ⟨weights.a * t.corners.a.invW, weights.b * t.corners.b.invW, weights.c * t.corners.c.invW⟩

/-- Every share times the depth of its corner. -/
def sharedDepths (t : Triangle Binary32) (weights : Corners Binary32) : Corners Binary32 :=
  ⟨(t.shares weights).a * t.corners.a.z, (t.shares weights).b * t.corners.b.z,
    (t.shares weights).c * t.corners.c.z⟩

lemma depth_eq (t : Triangle Binary32) (weights : Corners Binary32) :
    t.depth weights = (t.sharedDepths weights).total / (t.shares weights).total := rfl

/-- A triangle of vertices whose corners all have one depth, at a pixel that it covers. The shares
have a finite sum that is not zero. -/
structure LevelAt (t : Triangle Binary32) (c : ℚ) (x y : UInt32) (weights : Corners Binary32)
    (sum : ℚ) : Prop where
  setUp : ∃ v width height, ofVertices v width height = some t
  level : ∀ corner ∈ t.corners.toList, corner.z.value? = some c
  covers : t.cover x y = some weights
  total : (t.shares weights).total.value? = some sum
  nonzero : sum ≠ 0

section Generic

variable {α : Type} [Coordinate α] {t : Triangle α} {v : Corners (ShadedVertex α)}
  {width height x y : UInt32} {weights : Corners α}

/-- Every corner comes from a vertex in front of the camera. -/
lemma exists_vertex_of_ofVertices (h : ofVertices v width height = some t) :
    ∀ corner ∈ t.corners.toList,
      ∃ u : ShadedVertex α, Coordinate.zero < u.clip.w ∧
        corner = Corner.ofVertex width height u := by
  have hcorners := (ofVertices_eq_some h).1
  have hfront : ∀ u ∈ v.toList, Coordinate.zero < u.clip.w := by
    simp only [ofVertices] at h
    split at h
    · rename_i hall
      exact fun u hu => of_decide_eq_true (Corners.all_eq_true.1 hall u hu)
    · cases h
  intro corner hcorner
  have hmem := Corners.mem_of_eq_or_flip hcorners hcorner
  simp only [Corners.toList, Corners.map, List.mem_cons, List.not_mem_nil, or_false] at hmem
  rcases hmem with rfl | rfl | rfl
  · exact ⟨v.a, hfront _ (by simp [Corners.toList]), rfl⟩
  · exact ⟨v.b, hfront _ (by simp [Corners.toList]), rfl⟩
  · exact ⟨v.c, hfront _ (by simp [Corners.toList]), rfl⟩

lemma area_pos_of_ofVertices (h : ofVertices v width height = some t) :
    Coordinate.zero < t.area := by
  simp only [ofVertices] at h
  split at h
  · split at h
    · obtain ⟨harea, hpos⟩ := area_of_ofCorners h
      exact harea ▸ hpos
    · obtain ⟨harea, hpos⟩ := area_of_ofCorners h
      exact harea ▸ hpos
  · cases h

/-- The weights of a covered centre are parts of the area, none of them negative. -/
lemma exists_of_cover (h : t.cover x y = some weights) :
    ∃ parts : Corners α, weights = parts.map (· / t.area) ∧
      ∀ part ∈ parts.toList, Coordinate.zero < part ∨ Coordinate.isZero part = true := by
  have hinside : ∀ {part : α} {topLeft : Bool},
      (decide (Coordinate.zero < part) || (Coordinate.isZero part && topLeft)) = true →
        Coordinate.zero < part ∨ Coordinate.isZero part = true := by
    intro part topLeft h
    rw [Bool.or_eq_true, Bool.and_eq_true, decide_eq_true_eq] at h
    exact h.imp_right And.left
  simp only [cover] at h
  split at h
  · rename_i hall
    simp only [Bool.and_eq_true] at hall
    obtain ⟨⟨ha, hb⟩, hc⟩ := hall
    cases h
    refine ⟨_, rfl, ?_⟩
    rw [Corners.forall_mem_toList]
    exact ⟨hinside ha, hinside hb, hinside hc⟩
  · cases h

end Generic

variable {t : Triangle Binary32} {weights : Corners Binary32} {x y : UInt32} {c sum : ℚ}

/-- No share is negative. -/
lemma LevelAt.exists_shares (h : t.LevelAt c x y weights sum) : ∃ r : Corners ℚ,
    (t.shares weights).HasValues r ∧ r.AreAmounts ∧ sum = r.roundedSum ∧
      |rounded (r.a + r.b)| < 2 ^ 128 := by
  obtain ⟨v, width, height, hsetUp⟩ := h.setUp
  obtain ⟨parts, rfl, hparts⟩ := exists_of_cover h.covers
  obtain ⟨r, hr, hsum, hlt⟩ := Corners.exists_of_value?_total h.total
  have hone : (Coordinate.zero : Binary32) < Coordinate.one :=
    (Binary32.value?_lt_iff Binary32.value?_zero Binary32.value?_one).2 one_pos
  -- a share is a product of two quotients that are not negative
  have hshare : ∀ part ∈ parts.toList, ∀ corner ∈ t.corners.toList, ∀ {a : ℚ},
      (part / t.area * corner.invW).value? = some a → IsAmount a := by
    intro part hpart corner hcorner a ha
    obtain ⟨u, hw, rfl⟩ := exists_vertex_of_ofVertices hsetUp corner hcorner
    refine ⟨Binary32.representable ha, ?_⟩
    obtain ⟨weight, invW, hweight, hinvW, rfl⟩ := Binary32.exists_of_value?_mul ha
    have hweight' := Binary32.nonneg_of_value?_div (hparts part hpart)
      (area_pos_of_ofVertices hsetUp) hweight
    have hinvW' := Binary32.nonneg_of_value?_div (.inl hone) hw hinvW
    exact rounded_nonneg (by positivity)
  refine ⟨r, hr, ⟨?_, ?_, ?_⟩, hsum, hlt⟩
  · exact hshare parts.a (by simp [Corners.toList]) t.corners.a (by simp [Corners.toList]) hr.a
  · exact hshare parts.b (by simp [Corners.toList]) t.corners.b (by simp [Corners.toList]) hr.b
  · exact hshare parts.c (by simp [Corners.toList]) t.corners.c (by simp [Corners.toList]) hr.c

/-- Depth is the rounded quotient of two rounded sums, of which that of the depths is not larger. -/
lemma LevelAt.value?_depth (h : t.LevelAt c x y weights sum) (hnonneg : 0 ≤ c) (hle : c ≤ 1) :
    ∃ r : Corners ℚ, (t.shares weights).HasValues r ∧ r.AreAmounts ∧ sum = r.roundedSum ∧
      (0 < sum ∧ 0 ≤ (r.scaled c).roundedSum ∧ (r.scaled c).roundedSum ≤ sum) ∧
        (t.depth weights).value? = some (rounded ((r.scaled c).roundedSum / sum)) := by
  obtain ⟨r, hvalues, hamounts, hsum, hlt⟩ := h.exists_shares
  have hbelow := hamounts.scaled_below hnonneg hle
  obtain ⟨-, hsumNonneg, hsumLe⟩ := hbelow.roundedSum_le
  rw [← hsum] at hsumLe
  have hpos : 0 < sum := (hsumNonneg.trans hsumLe).lt_of_ne' h.nonzero
  have hquotient : rounded ((r.scaled c).roundedSum / sum) ≤ 1 :=
    rounded_le representable_one (by positivity) ((div_le_one hpos).2 hsumLe)
  -- every share times the depth is finite, since it is not larger than the share
  have hproduct : ∀ {share z : Binary32} {a : ℚ}, share.value? = some a → z.value? = some c →
      0 ≤ rounded (a * c) ∧ rounded (a * c) ≤ a → (share * z).value? = some (rounded (a * c)) := by
    intro share z a hshare hz ⟨hlow, hhigh⟩
    rw [Binary32.value?_mul hshare hz, if_pos]
    rw [abs_of_nonneg hlow]
    exact (hhigh.trans (le_abs_self a)).trans_lt (Binary32.abs_lt_of_value? hshare)
  have hlevel := Corners.forall_mem_toList.1 h.level
  have hdepths : (t.sharedDepths weights).HasValues (r.scaled c) :=
    ⟨hproduct hvalues.a hlevel.1 hbelow.a, hproduct hvalues.b hlevel.2.1 hbelow.b,
      hproduct hvalues.c hlevel.2.2 hbelow.c⟩
  have hnumerator := hdepths.value?_total hbelow hlt
    (by rw [← hsum]; exact Binary32.abs_lt_of_value? h.total)
  refine ⟨r, hvalues, hamounts, hsum, ⟨hpos, hsumNonneg, hsumLe⟩, ?_⟩
  rw [depth_eq, Binary32.value?_div hnumerator h.total h.nonzero, if_pos]
  rw [abs_of_nonneg (rounded_nonneg (by positivity))]
  exact hquotient.trans_lt (by norm_num)

/-- A rounded quotient is near a number that is near the quotient. -/
lemma abs_rounded_div_sub_le {p : ℚ} (hpos : 0 < sum) (hp : 0 ≤ p) (hc : 0 ≤ c)
    (h : |p - c * sum| ≤ 6 * 2 ^ (-24 : ℤ) * (c * sum) + 4 * 2 ^ (-150 : ℤ)) :
    |rounded (p / sum) - c| ≤ 2 ^ (-21 : ℤ) * c + 2 ^ (-147 : ℤ) / sum + 2 ^ (-150 : ℤ) := by
  have hquotient : |p / sum - c| ≤ 6 * 2 ^ (-24 : ℤ) * c + 4 * (2 ^ (-150 : ℤ) / sum) := by
    have hsplit : p / sum - c = (p - c * sum) / sum := by field_simp
    rw [hsplit, abs_div, abs_of_pos hpos, div_le_iff₀ hpos]
    refine h.trans_eq ?_
    field_simp
  have hrounded := abs_rounded_sub_le (p / sum)
  rw [abs_of_nonneg (show 0 ≤ p / sum by positivity)] at hrounded
  have height : (2 : ℚ) ^ (-147 : ℤ) / sum = 8 * (2 ^ (-150 : ℤ) / sum) := by
    rw [show (-147 : ℤ) = 3 + -150 by norm_num, two_zpow_add, mul_div_assoc]
    norm_num
  have hleast : 0 < (2 : ℚ) ^ (-150 : ℤ) / sum := by positivity
  rw [height]
  rw [abs_le] at hquotient hrounded ⊢
  generalize (2 : ℚ) ^ (-150 : ℤ) / sum = part at *
  generalize (2 : ℚ) ^ (-150 : ℤ) = least at *
  norm_num at hquotient hrounded ⊢
  constructor <;> linarith

/-- The corners' depth is zero or a power of two, and no share times it falls below the least
place. -/
structure CancelsAt (t : Triangle Binary32) (c : ℚ) (weights : Corners Binary32) : Prop where
  power : c = 0 ∨ ∃ k : ℕ, c = 1 / 2 ^ k
  grid : ∀ share ∈ (t.shares weights).toList, ∀ a, share.value? = some a → OnGrid (a * c)

/-- It is enough that no share has a digit that is divided away. -/
lemma CancelsAt.of_exponents (k : ℕ) (hc : c = 1 / 2 ^ k)
    (h : ∀ share ∈ (t.shares weights).toList, ∀ d ∈ share.toDyadic?, k - 149 ≤ d.exponent) :
    t.CancelsAt c weights := by
  refine ⟨.inr ⟨k, hc⟩, fun share hshare a ha => ?_⟩
  obtain ⟨d, hd, rfl⟩ := Binary32.value?_eq_some.1 ha
  obtain ⟨n, hn⟩ := exists_two_zpow_eq (show -149 ≤ d.exponent - k by
    have := h share hshare d hd
    omega)
  refine ⟨d.coefficient * n, ?_⟩
  rw [zpow_sub₀ two_ne_zero, zpow_natCast] at hn
  rw [Dyadic.value, hc, mul_one_div, mul_div_assoc, hn]
  push_cast
  ring

/-- A triangle of one depth has nearly that depth wherever it covers a pixel, which is always in
range, and exactly that depth where the depth cancels. -/
lemma LevelAt.exists_depth (h : t.LevelAt c x y weights sum) (hnonneg : 0 ≤ c) (hle : c ≤ 1) :
    ∃ d, (t.depth weights).value? = some d ∧ (0 ≤ d ∧ d ≤ 1) ∧
      |d - c| ≤ 2 ^ (-21 : ℤ) * c + 2 ^ (-147 : ℤ) / sum + 2 ^ (-150 : ℤ) ∧
        (t.CancelsAt c weights → d = c) := by
  obtain ⟨r, hvalues, hamounts, hsum, ⟨hpos, hp, hple⟩, hdepth⟩ := h.value?_depth hnonneg hle
  have herror := hamounts.abs_scaled_sub_le hnonneg
  rw [← hsum] at herror
  refine ⟨_, hdepth, ⟨rounded_nonneg (by positivity), ?_⟩,
    abs_rounded_div_sub_le hpos hp hnonneg herror, fun hcancels => ?_⟩
  · exact rounded_le representable_one (by positivity) ((div_le_one hpos).2 hple)
  · have hgrid := Corners.forall_mem_toList.1 hcancels.grid
    have hcorner := Corners.forall_mem_toList.1 h.level
    rw [hamounts.scaled_roundedSum_eq hcancels.power (hgrid.1 _ hvalues.a)
      (hgrid.2.1 _ hvalues.b) (hgrid.2.2 _ hvalues.c), ← hsum, mul_div_cancel_right₀ _ h.nonzero]
    exact rounded_of_representable (Binary32.representable hcorner.1)

lemma LevelAt.fragment?_eq (h : t.LevelAt c x y weights sum) (hnonneg : 0 ≤ c) (hle : c ≤ 1) :
    t.fragment? x y = some (weights, depthValue (t.depth weights)) := by
  obtain ⟨d, hd, ⟨hlow, hhigh⟩, -⟩ := h.exists_depth hnonneg hle
  have hrange : inDepthRange (t.depth weights) = true := by
    rw [inDepthRange, ← Binary32.coordinate_zero, ← Binary32.coordinate_one, Bool.and_eq_true,
      decide_eq_true_eq, decide_eq_true_eq]
    exact ⟨(Binary32.value?_le_iff Binary32.value?_zero hd).2 hlow,
      (Binary32.value?_le_iff hd Binary32.value?_one).2 hhigh⟩
  rw [fragment?, h.covers, Option.bind_eq_bind, Option.bind_some]
  exact if_pos hrange

lemma exists_cover_of_fragment? {out : Corners Binary32 × UInt32} (h : t.fragment? x y = some out) :
    ∃ weights, t.cover x y = some weights := by
  obtain ⟨weights, hcover, -⟩ := Option.bind_eq_some_iff.1 h
  exact ⟨weights, hcover⟩

end Triangle

/-! ### Ties -/

/-- The stored depth is that of the value. -/
lemma depthValue_congr {z z' : Binary32} {c : ℚ} (hz : z.value? = some c)
    (hz' : z'.value? = some c) : depthValue z = depthValue z' := by
  obtain ⟨d, hd, -⟩ := Binary32.value?_eq_some.1 hz'
  simp only [depthValue, Binary32.saturate, Binary32.toDyadic?_eq hz hz', hd]

namespace Fragment

/-- Of fragments that are all as near, none hidden, the last is seen. -/
lemma visible?_of_depth_eq {fs : List Fragment} {stored d : UInt32} (hd : d ≤ stored)
    (h : ∀ f ∈ fs, f.depth = d) : visible? (some stored) fs = fs.getLast? := by
  have hnearest : ∀ f ∈ fs, f.depth = nearest stored fs := by
    intro f hf
    have hle : nearest stored fs ≤ f.depth := ((le_nearest_iff).1 (UInt32.le_refl _)).2 f hf
    refine UInt32.le_antisymm ?_ hle
    rw [le_nearest_iff, h f hf]
    exact ⟨hd, fun g hg => (h g hg).symm ▸ UInt32.le_refl _⟩
  rw [visible?, seen?, List.filter_eq_self.2 (by simpa using hnearest)]

end Fragment

namespace Triangle

/-- Triangles of one depth `c` in range are never cut away, and where they cover a pixel have there
the depth `c` but for an error of a few last places. For zero and for powers of two they have
exactly the depth `c`, unless products fall below the least place; then all of them tie, and the
last one is seen. -/
theorem level_depth {c : ℚ} (hnonneg : 0 ≤ c) (hle : c ≤ 1) (x y : UInt32) :
    (∀ (t : Triangle Binary32) weights sum, t.LevelAt c x y weights sum →
      t.fragment? x y = some (weights, depthValue (t.depth weights)) ∧
        ∃ d, (t.depth weights).value? = some d ∧
          |d - c| ≤ 2 ^ (-21 : ℤ) * c + 2 ^ (-147 : ℤ) / sum + 2 ^ (-150 : ℤ) ∧
            (t.CancelsAt c weights → d = c)) ∧
    (∀ s ts z stored, z.value? = some c → depthValue z ≤ stored →
      (∀ t ∈ ts, ∀ weights, t.cover x y = some weights →
        t.CancelsAt c weights ∧ ∃ sum, t.LevelAt c x y weights sum) →
      (∀ f ∈ Fragment.listAt s ts x y, f.depth = depthValue z) ∧
        Fragment.visible? (some stored) (Fragment.listAt s ts x y) =
          (Fragment.listAt s ts x y).getLast?) := by
  refine ⟨fun t weights sum h => ?_, fun s ts z stored hz hstored hts => ?_⟩
  · obtain ⟨d, hd, -, herror, hexact⟩ := h.exists_depth hnonneg hle
    exact ⟨h.fragment?_eq hnonneg hle, d, hd, herror, hexact⟩
  · have hdepth : ∀ f ∈ Fragment.listAt s ts x y, f.depth = depthValue z := by
      intro f hf
      obtain ⟨t, ht, hfragment⟩ := List.mem_filterMap.1 hf
      rw [Fragment.ofTriangle?] at hfragment
      split at hfragment
      · obtain ⟨out, hout, rfl⟩ := Option.map_eq_some_iff.1 hfragment
        obtain ⟨weights, hcover⟩ := exists_cover_of_fragment? hout
        obtain ⟨hcancels, sum, hlevel⟩ := hts t ht weights hcover
        obtain ⟨d, hd, -, -, hexact⟩ := hlevel.exists_depth hnonneg hle
        rw [hexact hcancels] at hd
        rw [hlevel.fragment?_eq hnonneg hle] at hout
        rw [← Option.some.inj hout]
        exact depthValue_congr hd hz
      · cases hfragment
    exact ⟨hdepth, Fragment.visible?_of_depth_eq hstored hdepth⟩

/-- A triangle over a screen of one pixel, all of it at the depth `z`, and its second vertex at the
distance `w`. -/
def tilted (z w : Binary32) : Corners (ShadedVertex Binary32) :=
  ⟨⟨⟨-.one, -.one, z, .one⟩, #[]⟩, ⟨⟨⟨0x40400000⟩ * w, -w, z * w, w⟩, #[]⟩,
    ⟨⟨-.one, ⟨0x40400000⟩, z, .one⟩, #[]⟩⟩

lemma value?_half : Binary32.value? ⟨0x3f000000⟩ = some (1 / 2) :=
  Binary32.value?_eq_some.2 ⟨⟨8388608, -24⟩, by rfl, by norm_num [Dyadic.value]⟩

/-- What a run finds of a tilted triangle that is halfway to the far end. -/
lemma exists_levelAt_tilted {w total : Binary32} {sum : ℚ} (hsum : total.value? = some sum)
    (hne : sum ≠ 0) (h : (ofVertices (tilted ⟨0x3f000000⟩ w) 1 1).any fun t =>
      (t.cover 0 0).any fun weights => decide (t.bounds.Contains 0 0 ∧
        (∀ corner ∈ t.corners.toList, corner.z = ⟨0x3f000000⟩) ∧
          (t.shares weights).total = total ∧
            ∀ share ∈ (t.shares weights).toList, ∀ d ∈ share.toDyadic?, -148 ≤ d.exponent)) :
    ∃ t weights, ofVertices (tilted ⟨0x3f000000⟩ w) 1 1 = some t ∧ t.bounds.Contains 0 0 ∧
      t.LevelAt (1 / 2) 0 0 weights sum ∧ t.CancelsAt (1 / 2) weights := by
  obtain ⟨t, weights, ht, hcover, hin, hlevel, htotal, hdigits⟩ := exists_cover_of_any h
  exact ⟨t, weights, ht, hin,
    ⟨⟨_, _, _, ht⟩, fun corner hcorner => hlevel corner hcorner ▸ value?_half, hcover,
      htotal ▸ hsum, hne⟩,
    .of_exponents 1 (by norm_num) hdigits⟩

/-- Two triangles halfway to the far end, the second with a vertex twice as far away. They tie at
the one pixel, and the second is seen. -/
theorem level_depth_half : ∃ t t' weights weights',
    (ofVertices (tilted ⟨0x3f000000⟩ .one) 1 1 = some t ∧ t.cover 0 0 = some weights) ∧
      (ofVertices (tilted ⟨0x3f000000⟩ ⟨0x40000000⟩) 1 1 = some t' ∧
        t'.cover 0 0 = some weights') ∧
        (t.depth weights).value? = some (1 / 2) ∧ (t'.depth weights').value? = some (1 / 2) ∧
          ∀ s, ∃ f f', Fragment.listAt s [t, t'] 0 0 = [f, f'] ∧
            Fragment.visible? (some 0xffffffff) [f, f'] = some f' := by
  have hone : Binary32.value? ⟨0x3f800000⟩ = some 1 :=
    Binary32.value?_eq_some.2 ⟨⟨8388608, -23⟩, by rfl, by norm_num [Dyadic.value]⟩
  have hmost : Binary32.value? ⟨0x3f600000⟩ = some (7 / 8) :=
    Binary32.value?_eq_some.2 ⟨⟨14680064, -24⟩, by rfl, by norm_num [Dyadic.value]⟩
  obtain ⟨t, weights, ht, hin, hlevel, hcancels⟩ :=
    exists_levelAt_tilted (w := .one) hone (by norm_num) (by decide +kernel)
  obtain ⟨t', weights', ht', hin', hlevel', hcancels'⟩ :=
    exists_levelAt_tilted (w := ⟨0x40000000⟩) hmost (by norm_num) (by decide +kernel)
  obtain ⟨hdepth, hties⟩ := level_depth (c := 1 / 2) (by norm_num) (by norm_num) 0 0
  obtain ⟨hfragment, d, hd, -, hexact⟩ := hdepth t weights 1 hlevel
  obtain ⟨hfragment', d', hd', -, hexact'⟩ := hdepth t' weights' (7 / 8) hlevel'
  rw [hexact hcancels] at hd
  rw [hexact' hcancels'] at hd'
  refine ⟨t, t', weights, weights', ⟨ht, hlevel.covers⟩, ⟨ht', hlevel'.covers⟩, hd, hd', ?_⟩
  intro s
  have hofTriangle : ∀ {u : Triangle Binary32} {v}, u.bounds.Contains 0 0 →
      u.fragment? 0 0 = some v → ∃ f, Fragment.ofTriangle? s u 0 0 = some f := by
    intro u v hu hv
    rw [Fragment.ofTriangle?, if_pos hu, hv]
    exact ⟨_, rfl⟩
  obtain ⟨f, hf⟩ := hofTriangle hin hfragment
  obtain ⟨f', hf'⟩ := hofTriangle hin' hfragment'
  have hlist : Fragment.listAt s [t, t'] 0 0 = [f, f'] := by
    simp [Fragment.listAt, hf, hf']
  refine ⟨f, f', hlist, ?_⟩
  have hall : ∀ u ∈ [t, t'], ∀ v, u.cover 0 0 = some v →
      u.CancelsAt (1 / 2) v ∧ ∃ sum, u.LevelAt (1 / 2) 0 0 v sum := by
    simp only [List.forall_mem_cons, hlevel.covers, hlevel'.covers, Option.some.injEq]
    refine ⟨?_, ?_, by simp⟩
    · rintro _ rfl
      exact ⟨hcancels, 1, hlevel⟩
    · rintro _ rfl
      exact ⟨hcancels', 7 / 8, hlevel'⟩
  obtain ⟨-, hseen⟩ := hties s [t, t'] ⟨0x3f000000⟩ 0xffffffff value?_half (by decide +kernel) hall
  rw [hlist] at hseen
  exact hseen

/-- The depth of a triangle is not that of its vertices in general. The later of two triangles of
one depth can come out behind the earlier one. -/
theorem depth_ne_tenth : ∃ t weights t' weights',
    (ofVertices (tilted ⟨0x3dcccccd⟩ .one) 1 1 = some t ∧ t.cover 0 0 = some weights) ∧
      (ofVertices (tilted ⟨0x3dcccccd⟩ ⟨0x40000000⟩) 1 1 = some t' ∧
        t'.cover 0 0 = some weights') ∧
        (∀ corner ∈ t.corners.toList ++ t'.corners.toList, corner.z = ⟨0x3dcccccd⟩) ∧
          inDepthRange ⟨0x3dcccccd⟩ = true ∧ t'.depth weights' ≠ ⟨0x3dcccccd⟩ ∧
            depthValue (t.depth weights) < depthValue (t'.depth weights') := by
  have hplain : (ofVertices (tilted ⟨0x3dcccccd⟩ .one) 1 1).any fun t =>
      (t.cover 0 0).any fun weights => decide ((∀ corner ∈ t.corners.toList,
        corner.z = ⟨0x3dcccccd⟩) ∧ t.depth weights = ⟨0x3dcccccd⟩) := by
    decide +kernel
  have htilted : (ofVertices (tilted ⟨0x3dcccccd⟩ ⟨0x40000000⟩) 1 1).any fun t =>
      (t.cover 0 0).any fun weights => decide ((∀ corner ∈ t.corners.toList,
        corner.z = ⟨0x3dcccccd⟩) ∧ t.depth weights = ⟨0x3dccccce⟩) := by
    decide +kernel
  obtain ⟨t, weights, ht, hcover, hlevel, hdepth⟩ := exists_cover_of_any hplain
  obtain ⟨t', weights', ht', hcover', hlevel', hdepth'⟩ := exists_cover_of_any htilted
  refine ⟨t, weights, t', weights', ⟨ht, hcover⟩, ⟨ht', hcover'⟩, ?_, by decide +kernel, ?_, ?_⟩
  · exact List.forall_mem_append.2 ⟨hlevel, hlevel'⟩
  · rw [hdepth']
    decide
  · rw [hdepth, hdepth']
    decide +kernel

end Triangle

end GraphicsPipeline
