import GraphicsPipeline.Proofs.Raster.Sides
import GraphicsPipeline.Proofs.Raster.Triangle
import GraphicsPipeline.Raster.Surface

/-!
# Weights of corners

The weights with which a triangle covers a centre are those of a mean: they say where the centre
lies among the corners on the screen (`Triangle.IsSetUpFrom.isWeighting_of_cover`). Corners that do
not lie on a line have no other such weights.
-/

namespace GraphicsPipeline

/-! ### Corners in two orders -/

namespace Corners

variable {α : Type} {q r : Corners α}

lemma forall_mem_toList {P : α → Prop} : (∀ a ∈ q.toList, P a) ↔ P q.a ∧ P q.b ∧ P q.c := by
  simp only [toList, List.forall_mem_cons, List.not_mem_nil, false_implies, implies_true, and_true]

lemma all_eq_true {f : α → Bool} : q.all f = true ↔ ∀ a ∈ q.toList, f a = true := by
  rw [forall_mem_toList, all, Bool.and_eq_true, Bool.and_eq_true, and_assoc]

lemma mem_flip {a : α} : a ∈ q.flip.toList ↔ a ∈ q.toList := by
  simp only [toList, flip, List.mem_cons, List.not_mem_nil, or_false]
  rw [or_comm (a := a = q.c)]

lemma mem_of_eq_or_flip {a : α} (horder : q = r ∨ q = r.flip) (h : a ∈ q.toList) :
    a ∈ r.toList := by
  rcases horder with rfl | rfl
  · exact h
  · exact mem_flip.1 h

/-- What flipped corners have along with the corners is had in either order. -/
lemma of_eq_or_flip {P : Corners α → Prop} (horder : q = r ∨ q = r.flip) (hflip : P r → P r.flip)
    (h : P r) : P q := by
  rcases horder with rfl | rfl
  · exact h
  · exact hflip h

end Corners

/-! ### Means of points -/

section Means

variable {weights other : Corners ℚ} {q : Corners (Point ℚ)}

namespace Corners

lemma mean_const (hsum : weights.sum = 1) (k : ℚ) : weights.mean ⟨k, k, k⟩ = k := by
  rw [sum] at hsum
  rw [mean]
  linear_combination k * hsum

/-- A mean of three numbers is scaled and moved along with them. -/
lemma mean_map {α : Type} (hsum : weights.sum = 1) (f : α → ℚ) (m n : ℚ) (q : Corners α) :
    weights.mean (q.map fun x => m * f x + n) = m * weights.mean (q.map f) + n := by
  rw [sum] at hsum
  simp only [mean, map]
  linear_combination n * hsum

/-- A mean of three numbers is at most what all of them are at most. -/
lemma mean_le {q : Corners ℚ} {m : ℚ} (h : weights.IsWeighting) (ha : q.a ≤ m) (hb : q.b ≤ m)
    (hc : q.c ≤ m) : weights.mean q ≤ m := by
  have ⟨hka, hkb, hkc, hsum⟩ := h
  calc weights.mean q ≤ weights.mean ⟨m, m, m⟩ := by
        simp only [mean]
        gcongr
    _ = m := mean_const hsum m

lemma le_mean {q : Corners ℚ} {m : ℚ} (h : weights.IsWeighting) (ha : m ≤ q.a) (hb : m ≤ q.b)
    (hc : m ≤ q.c) : m ≤ weights.mean q := by
  have ⟨hka, hkb, hkc, hsum⟩ := h
  calc m = weights.mean ⟨m, m, m⟩ := (mean_const hsum m).symm
    _ ≤ weights.mean q := by
        simp only [mean]
        gcongr

lemma IsWeighting.flip (h : weights.IsWeighting) : weights.flip.IsWeighting := by
  obtain ⟨ha, hb, hc, hsum⟩ := h
  rw [Corners.sum, add_right_comm] at hsum
  exact ⟨ha, hc, hb, hsum⟩

lemma mean_flip (weights q : Corners ℚ) : weights.flip.mean q.flip = weights.mean q := by
  simp only [mean, flip, add_right_comm]

end Corners

/-- The mean of three points has with two of them a share of the area. -/
lemma edge_mean (hsum : weights.sum = 1) :
    edge q.b q.c (Point.mean weights q) = weights.a * edge q.a q.b q.c ∧
      edge q.c q.a (Point.mean weights q) = weights.b * edge q.a q.b q.c ∧
        edge q.a q.b (Point.mean weights q) = weights.c * edge q.a q.b q.c := by
  have ha : weights.a = 1 - weights.b - weights.c := by
    rw [← hsum, Corners.sum]
    ring
  simp only [edge, Point.mean, Corners.mean, Corners.map, ha]
  refine ⟨?_, ?_, ?_⟩ <;> ring

/-- Corners that do not lie on a line are weighted in one way only. -/
lemma weights_eq_of_mean_eq (harea : edge q.a q.b q.c ≠ 0) (hsum : weights.sum = 1)
    (hsum' : other.sum = 1) (h : Point.mean weights q = Point.mean other q) : weights = other := by
  obtain ⟨ha, hb, hc⟩ := edge_mean (q := q) hsum
  obtain ⟨ha', hb', hc'⟩ := edge_mean (q := q) hsum'
  rw [h] at ha hb hc
  obtain ⟨a, b, c⟩ := weights
  obtain ⟨a', b', c'⟩ := other
  rw [Corners.mk.injEq]
  exact ⟨mul_right_cancel₀ harea (ha.symm.trans ha'), mul_right_cancel₀ harea (hb.symm.trans hb'),
    mul_right_cancel₀ harea (hc.symm.trans hc')⟩

/-- The areas of a point with the edges of a triangle, as shares of its area. -/
lemma isWeighting_of_edge_nonneg {p : Point ℚ} (harea : 0 < edge q.a q.b q.c)
    (ha : 0 ≤ edge q.b q.c p) (hb : 0 ≤ edge q.c q.a p) (hc : 0 ≤ edge q.a q.b p) :
    let area := edge q.a q.b q.c
    let weights : Corners ℚ :=
      ⟨edge q.b q.c p / area, edge q.c q.a p / area, edge q.a q.b p / area⟩
    weights.IsWeighting ∧ p = Point.mean weights q := by
  intro area weights
  have hx := edge_mul_x q.a q.b q.c p
  have hy := edge_mul_y q.a q.b q.c p
  refine ⟨⟨div_nonneg ha harea.le, div_nonneg hb harea.le, div_nonneg hc harea.le, ?_⟩, ?_⟩
  · rw [Corners.sum, ← add_div, ← add_div, edge_add_edge, div_self harea.ne']
  · obtain ⟨px, py⟩ := p
    simp only [Point.mean, Corners.mean, Corners.map, weights, area, Point.mk.injEq]
    constructor
    · field_simp
      linarith
    · field_simp
      linarith

end Means

/-! ### Weights of a covered centre -/

namespace Triangle

variable {t : Triangle ℚ} {v u : Corners (ShadedVertex ℚ)} {weights : Corners ℚ}
  {width height x y : UInt32}

/-- What a triangle has from the vertices that it was set up from, in its own order. -/
structure IsSetUpFrom (t : Triangle ℚ) (u : Corners (ShadedVertex ℚ)) (width height : UInt32) :
    Prop where
  front : ∀ p ∈ u.toList, 0 < p.clip.w
  corners : t.corners = u.map (Corner.ofVertex width height)
  area : t.area =
    edge (u.a.place width height) (u.b.place width height) (u.c.place width height)
  area_pos : 0 < t.area

lemma exists_isSetUpFrom (h : ofVertices v width height = some t) :
    ∃ u, (u = v ∨ u = v.flip) ∧ t.IsSetUpFrom u width height := by
  simp only [ofVertices] at h
  split at h
  · rename_i hfront
    have front (p) (hp : p ∈ v.toList) : 0 < p.clip.w :=
      of_decide_eq_true (Corners.all_eq_true.1 hfront p hp)
    split at h
    -- clockwise vertices are run through the other way round, with the area negated
    · obtain ⟨hcorners, -, -⟩ := ofCorners_eq_some h
      obtain ⟨harea, hpos⟩ := area_of_ofCorners h
      refine ⟨v.flip, .inr rfl, fun p hp => front p (Corners.mem_flip.1 hp), hcorners, ?_,
        hpos.trans_eq harea.symm⟩
      rw [harea, ← edge_flip]
      rfl
    · obtain ⟨hcorners, -, -⟩ := ofCorners_eq_some h
      obtain ⟨harea, hpos⟩ := area_of_ofCorners h
      exact ⟨v, .inl rfl, front, hcorners, harea, hpos.trans_eq harea.symm⟩
  · cases h

lemma nonneg_of_inside {k : ℚ} {topLeft : Bool}
    (h : (decide (Coordinate.zero < k) || (Coordinate.isZero k && topLeft)) = true) : 0 ≤ k := by
  rw [Bool.or_eq_true, Bool.and_eq_true, decide_eq_true_eq] at h
  rcases h with hpos | ⟨hzero, -⟩
  · exact hpos.le
  · exact (of_decide_eq_true hzero).ge

/-- A covered centre is the mean of the corners with the weights that it has. -/
theorem IsSetUpFrom.isWeighting_of_cover (h : t.IsSetUpFrom u width height)
    (hcover : t.cover x y = some weights) :
    weights.IsWeighting ∧
      center x y = Point.mean weights (u.map (ShadedVertex.place width height)) := by
  have harea := h.area_pos
  rw [h.area] at harea
  simp only [cover, h.corners, h.area] at hcover
  split at hcover
  · rename_i hinside
    simp only [Bool.and_eq_true] at hinside
    obtain ⟨⟨ha, hb⟩, hc⟩ := hinside
    cases hcover
    exact isWeighting_of_edge_nonneg (q := u.map (ShadedVertex.place width height)) harea
      (nonneg_of_inside ha) (nonneg_of_inside hb) (nonneg_of_inside hc)
  · cases hcover

end Triangle

end GraphicsPipeline
