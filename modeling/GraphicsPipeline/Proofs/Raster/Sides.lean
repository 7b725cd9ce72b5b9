import GraphicsPipeline.Raster.Coverage
import Mathlib.Algebra.Module.Prod
import Mathlib.Algebra.Order.Module.Synonym
import Mathlib.Algebra.Order.Monoid.Prod
import Mathlib.Data.List.Permutation
import Mathlib.Tactic.Linarith
import Mathlib.Tactic.LinearCombination
import Mathlib.Tactic.Module

/-!
# Sides of edges

A point on the line of an edge is given to one side by the direction of the edge. Taken together,
area and direction are compared one after the other, and the side is a sign again
(`inside_eq_true`): that of a number in a lexicographic order. These signs add up and scale as those
of areas do, which is all that the geometry of coverage needs.
-/

namespace GraphicsPipeline

/-! ### Lexicographic order -/

/-- Positive numbers scale a lexicographic product without a change of order. -/
instance lexPosSMulStrictMono {β : Type*} [AddCommGroup β] [Preorder β] [Module ℚ β]
    [PosSMulStrictMono ℚ β] : PosSMulStrictMono ℚ (ℚ ×ₗ β) where
  smul_lt_smul_of_pos_left k hk u v h := by
    rw [Prod.Lex.lt_iff] at h ⊢
    rcases h with h | ⟨h, h'⟩
    · exact .inl (mul_lt_mul_of_pos_left h hk)
    · exact .inr ⟨congrArg (k * ·) h, smul_lt_smul_of_pos_left h' hk⟩

variable {a b c d p : Point ℚ}

/-! ### Areas -/

lemma edge_swap (a b p : Point ℚ) : edge b a p = -edge a b p := by
  simp only [edge]
  ring

lemma edge_rotate (a b p : Point ℚ) : edge b p a = edge a b p := by
  simp only [edge]
  ring

lemma edge_flip (a b p : Point ℚ) : edge a p b = -edge a b p := by
  rw [edge_rotate b a p, edge_swap]

/-- The areas at a point come to the area of the triangle. -/
lemma edge_add_edge (a b c p : Point ℚ) :
    edge b c p + edge c a p + edge a b p = edge a b c := by
  simp only [edge]
  ring

/-- A point is the mean of the corners, each weighted by the area that is opposite. -/
lemma edge_mul_x (a b c p : Point ℚ) :
    edge b c p * a.x + edge c a p * b.x + edge a b p * c.x = edge a b c * p.x := by
  simp only [edge]
  ring

lemma edge_mul_y (a b c p : Point ℚ) :
    edge b c p * a.y + edge c a p * b.y + edge a b p * c.y = edge a b c * p.y := by
  simp only [edge]
  ring

/-! ### Sides -/

/-- The side of the way from `a` to `b` on which a point lies: the area comes first, then how far
the way goes up, then how far it goes to the right. -/
def side (a b p : Point ℚ) : ℚ ×ₗ ℚ ×ₗ ℚ := toLex (edge a b p, toLex (a.y - b.y, b.x - a.x))

lemma side_pos : 0 < side a b p ↔
    0 < edge a b p ∨ edge a b p = 0 ∧ (0 < a.y - b.y ∨ a.y - b.y = 0 ∧ 0 < b.x - a.x) := by
  rw [side, Prod.Lex.lt_iff, Prod.Lex.lt_iff]
  exact or_congr_right (and_congr eq_comm (or_congr_right (and_congr_left' eq_comm)))

/-- A centre counts as inside of an edge exactly if it lies on the positive side of it. -/
lemma inside_eq_true : (decide (Coordinate.zero < edge a b p) ||
    (Coordinate.isZero (edge a b p) && isTopLeft a b)) = true ↔ 0 < side a b p := by
  have hzero : (Coordinate.zero : ℚ) = 0 := rfl
  have hisZero (q : ℚ) : Coordinate.isZero q = decide (q = 0) := rfl
  have hup : b.y - a.y < 0 ↔ 0 < a.y - b.y := by rw [sub_neg, sub_pos]
  have hlevel : b.y - a.y = 0 ↔ a.y - b.y = 0 := by rw [sub_eq_zero, sub_eq_zero, eq_comm]
  simp only [isTopLeft, hzero, hisZero, Bool.or_eq_true, Bool.and_eq_true, decide_eq_true_eq, hup,
    hlevel, side_pos]
  rw [or_comm (a := _ ∧ _)]

lemma side_pos_of_edge_pos (h : 0 < edge a b p) : 0 < side a b p :=
  side_pos.2 (.inl h)

lemma edge_nonneg_of_side_pos (h : 0 < side a b p) : 0 ≤ edge a b p := by
  rcases side_pos.1 h with hpos | ⟨hzero, -⟩
  · exact hpos.le
  · exact hzero.ge

lemma side_swap (a b p : Point ℚ) : side b a p = -side a b p := by
  apply Prod.ext
  · exact edge_swap a b p
  · apply Prod.ext
    · exact (neg_sub _ _).symm
    · exact (neg_sub _ _).symm

lemma side_self (a p : Point ℚ) : side a a p = 0 :=
  self_eq_neg.1 (side_swap a a p)

/-- The area that an edge has with some point is not zero if the edge has a side at all. -/
lemma side_ne_zero (h : edge a b c ≠ 0) : side a b p ≠ 0 := by
  intro hside
  apply h
  have hdirection := congrArg Prod.snd hside
  have hy : a.y - b.y = 0 := congrArg Prod.fst hdirection
  have hx : b.x - a.x = 0 := congrArg Prod.snd hdirection
  rw [edge, hx, sub_eq_zero.1 hy]
  ring

/-- A point lies on the positive side of exactly one of the two ways along an edge. -/
lemma side_pos_iff (h : edge a b c ≠ 0) : 0 < side b a p ↔ ¬0 < side a b p := by
  rw [side_swap, Left.neg_pos_iff, not_lt]
  exact (side_ne_zero h).le_iff_lt.symm

/-- The sides of the ways to three points come to the side of the way to their mean. -/
lemma side_mean {i j k : ℚ} (hsum : i + j + k = 1) (hx : d.x = i * a.x + j * b.x + k * c.x)
    (hy : d.y = i * a.y + j * b.y + k * c.y) (o p : Point ℚ) :
    i • side o a p + j • side o b p + k • side o c p = side o d p := by
  apply Prod.ext
  · change i * edge o a p + j * edge o b p + k * edge o c p = edge o d p
    rw [edge, edge, edge, edge, hx, hy]
    linear_combination (o.y * p.x - o.x * p.y) * hsum
  · apply Prod.ext
    · change i * (o.y - a.y) + j * (o.y - b.y) + k * (o.y - c.y) = o.y - d.y
      rw [hy]
      linear_combination o.y * hsum
    · change i * (a.x - o.x) + j * (b.x - o.x) + k * (c.x - o.x) = d.x - o.x
      rw [hx]
      linear_combination -o.x * hsum

/-! ### Points in triangles -/

/-- The point lies on the positive side of the ways from corner to corner. -/
structure Encloses (a b c p : Point ℚ) : Prop where
  ab : 0 < side a b p
  bc : 0 < side b c p
  ca : 0 < side c a p

lemma Encloses.rotate (h : Encloses a b c p) : Encloses b c a p := ⟨h.bc, h.ca, h.ab⟩

/-- The point is enclosed where the corners are run through clockwise, and do not lie on a line. -/
def Covered (a b c p : Point ℚ) : Prop :=
  0 < edge a b c ∧ Encloses a b c p ∨ edge a b c < 0 ∧ Encloses a c b p

lemma covered_iff_of_pos (h : 0 < edge a b c) : Covered a b c p ↔ Encloses a b c p := by
  simp [Covered, h, h.not_gt]

lemma covered_iff_of_neg (h : edge a b c < 0) : Covered a b c p ↔ Encloses a c b p := by
  simp [Covered, h, h.not_gt]

lemma covered_rotate : Covered b c a p ↔ Covered a b c p := by
  have harea : edge b c a = edge a b c := edge_rotate a b c
  rw [Covered, Covered, harea]
  refine or_congr (and_congr_right' ⟨fun h => h.rotate.rotate, fun h => h.rotate⟩)
    (and_congr_right' ⟨fun h => h.rotate, fun h => h.rotate.rotate⟩)

lemma covered_flip : Covered a c b p ↔ Covered a b c p := by
  rw [Covered, Covered, edge_flip a b c, Left.neg_pos_iff, Left.neg_neg_iff, or_comm]

lemma covered_swap : Covered b a c p ↔ Covered a b c p := by
  rw [← covered_rotate, covered_flip]

/-- The order in which the corners are given does not matter. -/
lemma covered_of_perm {x y z : Point ℚ} (h : [x, y, z].Perm [a, b, c]) :
    Covered x y z p ↔ Covered a b c p := by
  rw [← List.mem_permutations'] at h
  simp only [List.permutations', List.permutations'Aux, List.flatMap_cons, List.flatMap_nil,
    List.map_cons, List.map_nil, List.append_nil, List.cons_append, List.nil_append, List.mem_cons,
    List.cons.injEq, List.not_mem_nil, and_true, or_false] at h
  rcases h with ⟨rfl, rfl, rfl⟩ | ⟨rfl, rfl, rfl⟩ | ⟨rfl, rfl, rfl⟩ | ⟨rfl, rfl, rfl⟩ |
    ⟨rfl, rfl, rfl⟩ | ⟨rfl, rfl, rfl⟩
  · rfl
  · exact covered_swap
  · exact covered_rotate
  · exact covered_flip
  · exact covered_rotate.symm
  · rw [covered_rotate, covered_flip]

/-! ### A point inside a triangle -/

namespace Point.StrictlyInside

lemma rotate (h : d.StrictlyInside a b c) : d.StrictlyInside b c a := by
  obtain ⟨i, j, k, hi, hj, hk, hsum, hx, hy⟩ := h
  exact ⟨j, k, i, hj, hk, hi, by linarith, by linarith, by linarith⟩

lemma flip (h : d.StrictlyInside a b c) : d.StrictlyInside a c b := by
  obtain ⟨i, j, k, hi, hj, hk, hsum, hx, hy⟩ := h
  exact ⟨i, k, j, hi, hk, hj, by linarith, by linarith, by linarith⟩

/-- The part of a triangle at an edge is a share of the triangle, wound as the triangle is. -/
lemma exists_edge_eq (h : d.StrictlyInside a b c) : ∃ k, 0 < k ∧ edge a b d = k * edge a b c := by
  obtain ⟨i, j, k, hi, hj, hk, hsum, hx, hy⟩ := h
  refine ⟨k, hk, ?_⟩
  rw [edge, edge, hx, hy]
  linear_combination ((b.x - a.x) * a.y - (b.y - a.y) * a.x) * hsum

lemma edge_pos (h : d.StrictlyInside a b c) (harea : 0 < edge a b c) : 0 < edge a b d := by
  obtain ⟨k, hk, hpart⟩ := h.exists_edge_eq
  rw [hpart]
  exact mul_pos hk harea

/-- Two corners lie on opposite sides of the way from the third one to the point inside. -/
lemma opposite (h : d.StrictlyInside a b c) (harea : edge a b c ≠ 0) : b.Opposite d a c := by
  obtain ⟨k, hk, hab⟩ := h.exists_edge_eq
  obtain ⟨i, hi, hbc⟩ := h.rotate.exists_edge_eq
  rw [edge_rotate a b c] at hbc
  rw [Point.Opposite, edge_rotate a b d, edge_flip b c d, hab, hbc, mul_neg, Left.neg_neg_iff,
    mul_mul_mul_comm]
  exact mul_pos (mul_pos hk hi) (mul_self_pos.2 harea)

/-- What a part encloses, the triangle encloses. -/
lemma encloses_of_part (h : d.StrictlyInside a b c) (hp : Encloses a b d p) :
    Encloses a b c p := by
  obtain ⟨i, j, k, hi, hj, hk, hsum, hx, hy⟩ := h
  have hmean := side_mean hsum hx hy
  have hbc : k • side b c p = side b d p + i • side a b p := by
    have hb := hmean b p
    rw [side_self, smul_zero, add_zero, side_swap a b] at hb
    rw [← hb]
    module
  have hca : k • side c a p = side d a p + j • side a b p := by
    have ha := hmean a p
    rw [side_self, smul_zero, zero_add] at ha
    rw [side_swap a c, side_swap a d, ← ha]
    module
  refine ⟨hp.ab, ?_, ?_⟩
  · rw [← smul_pos_iff_of_pos_left hk, hbc]
    exact add_pos hp.bc (smul_pos hi hp.ab)
  · rw [← smul_pos_iff_of_pos_left hk, hca]
    exact add_pos hp.ca (smul_pos hj hp.ab)

/-- The sides of the ways to the corners balance. -/
lemma exists_balance (h : d.StrictlyInside a b c) (p : Point ℚ) : ∃ i j k : ℚ,
    0 < i ∧ 0 < j ∧ 0 < k ∧ i • side d a p + j • side d b p + k • side d c p = 0 := by
  obtain ⟨i, j, k, hi, hj, hk, hsum, hx, hy⟩ := h
  exact ⟨i, j, k, hi, hj, hk, by rw [side_mean hsum hx hy, side_self]⟩

/-- What a triangle encloses, one of its parts encloses. -/
lemma exists_part (h : d.StrictlyInside a b c) (harea : 0 < edge a b c)
    (hp : Encloses a b c p) :
    Encloses a b d p ∨ Encloses b c d p ∨ Encloses c a d p := by
  have hab := h.edge_pos harea
  have hbc := h.rotate.edge_pos (harea.trans_eq (edge_rotate a b c).symm)
  have hca := h.rotate.rotate.edge_pos (harea.trans_eq (edge_rotate c a b))
  have ha : 0 < side a d p ↔ ¬0 < side d a p := side_pos_iff (hab.trans_eq (edge_rotate d a b)).ne'
  have hb : 0 < side b d p ↔ ¬0 < side d b p := side_pos_iff (hbc.trans_eq (edge_rotate d b c)).ne'
  have hc : 0 < side c d p ↔ ¬0 < side d c p := side_pos_iff (hca.trans_eq (edge_rotate d c a)).ne'
  obtain ⟨i, j, k, hi, hj, hk, hbalance⟩ := h.exists_balance p
  -- around the inner point the sides change from positive to negative, and there lies the part
  by_cases hda : 0 < side d a p
  · by_cases hdb : 0 < side d b p
    · by_cases hdc : 0 < side d c p
      · have hsum := add_pos (add_pos (smul_pos hi hda) (smul_pos hj hdb)) (smul_pos hk hdc)
        exact absurd hbalance hsum.ne'
      · exact .inr (.inl ⟨hp.bc, hc.2 hdc, hdb⟩)
    · exact .inl ⟨hp.ab, hb.2 hdb, hda⟩
  · by_cases hdc : 0 < side d c p
    · exact .inr (.inr ⟨hp.ca, ha.2 hda, hdc⟩)
    · by_cases hdb : 0 < side d b p
      · exact .inr (.inl ⟨hp.bc, hc.2 hdc, hdb⟩)
      · have hsum := add_pos (add_pos (smul_pos hi (ha.2 hda)) (smul_pos hj (hb.2 hdb)))
          (smul_pos hk (hc.2 hdc))
        rw [side_swap d a, side_swap d b, side_swap d c, smul_neg, smul_neg, smul_neg,
          ← neg_add, ← neg_add, hbalance, neg_zero] at hsum
        exact absurd hsum (lt_irrefl 0)

end Point.StrictlyInside

/-! ### Meshes -/

/-- Triangles on opposite sides of an edge cover nothing in common. -/
theorem not_covered_both (h : a.Opposite b c d) : ¬(Covered a b c p ∧ Covered a b d p) := by
  rintro ⟨hc, hd⟩
  rcases mul_neg_iff.1 h with ⟨hpos, hneg⟩ | ⟨hneg, hpos⟩
  · rw [covered_iff_of_pos hpos] at hc
    rw [covered_iff_of_neg hneg] at hd
    exact (side_pos_iff hpos.ne').1 hd.ca hc.ab
  · rw [covered_iff_of_neg hneg] at hc
    rw [covered_iff_of_pos hpos] at hd
    exact (side_pos_iff hpos.ne').1 hc.ca hd.ab

/-- The parts of a triangle around a point inside cover nothing in common. -/
lemma not_covered_parts (h : d.StrictlyInside a b c) (harea : edge a b c ≠ 0) :
    ¬(Covered a b d p ∧ Covered b c d p) := by
  rw [← covered_rotate (a := a) (b := b) (c := d), ← covered_flip (a := b) (b := c) (c := d)]
  exact not_covered_both (h.opposite harea)

lemma covered_iff_parts_of_pos (h : d.StrictlyInside a b c) (harea : 0 < edge a b c) :
    Covered a b c p ↔ Covered a b d p ∨ Covered b c d p ∨ Covered c a d p := by
  have hbca : 0 < edge b c a := harea.trans_eq (edge_rotate a b c).symm
  have hcab : 0 < edge c a b := harea.trans_eq (edge_rotate c a b)
  rw [covered_iff_of_pos harea, covered_iff_of_pos (h.edge_pos harea),
    covered_iff_of_pos (h.rotate.edge_pos hbca), covered_iff_of_pos (h.rotate.rotate.edge_pos hcab)]
  constructor
  · exact h.exists_part harea
  · rintro (hp | hp | hp)
    · exact h.encloses_of_part hp
    · exact (h.rotate.encloses_of_part hp).rotate.rotate
    · exact (h.rotate.rotate.encloses_of_part hp).rotate

/-- A triangle covers what its parts around a point inside cover. -/
theorem covered_iff_parts (h : d.StrictlyInside a b c) (harea : edge a b c ≠ 0) :
    Covered a b c p ↔ Covered a b d p ∨ Covered b c d p ∨ Covered c a d p := by
  rcases harea.lt_or_gt with hneg | hpos
  · have hflip : 0 < edge a c b := by rwa [edge_flip, Left.neg_pos_iff]
    rw [← covered_flip (a := a), covered_iff_parts_of_pos h.flip hflip, covered_swap (a := c),
      covered_swap (a := b) (b := c), covered_swap (a := a) (b := b)]
    tauto
  · exact covered_iff_parts_of_pos h hpos

/-- On an edge, a triangle covers what lies on the positive side of the edge. -/
lemma covered_iff_of_between (h : p.Between a b) (harea : 0 < edge a b c) :
    Covered a b c p ↔ 0 < side a b p := by
  obtain ⟨s, hs, hs', hx, hy⟩ := h
  have hbc : edge b c p = (1 - s) * edge a b c := by
    rw [edge, edge, hx, hy]
    ring
  have hca : edge c a p = s * edge a b c := by
    rw [edge, edge, hx, hy]
    ring
  rw [covered_iff_of_pos harea]
  constructor
  · exact Encloses.ab
  · intro hab
    refine ⟨hab, side_pos_of_edge_pos ?_, side_pos_of_edge_pos ?_⟩
    · rw [hbc]
      exact mul_pos (sub_pos.2 hs') harea
    · rw [hca]
      exact mul_pos hs harea

lemma Point.Between.swap (h : p.Between a b) : p.Between b a := by
  obtain ⟨s, hs, hs', hx, hy⟩ := h
  exact ⟨1 - s, by linarith, by linarith, by linarith, by linarith⟩

/-- Of two triangles on opposite sides of an edge, exactly one covers a point of the edge. -/
theorem covered_iff_not_covered (h : a.Opposite b c d) (hp : p.Between a b) :
    Covered a b c p ↔ ¬Covered a b d p := by
  have hflip {c : Point ℚ} (hneg : edge a b c < 0) : Covered a b c p ↔ 0 < side b a p := by
    rw [← covered_swap, covered_iff_of_between hp.swap]
    rwa [edge_swap, Left.neg_pos_iff]
  rcases mul_neg_iff.1 h with ⟨hpos, hneg⟩ | ⟨hneg, hpos⟩
  · rw [covered_iff_of_between hp hpos, hflip hneg, side_pos_iff hpos.ne', not_not]
  · rw [covered_iff_of_between hp hpos, hflip hneg, side_pos_iff hpos.ne']

end GraphicsPipeline
