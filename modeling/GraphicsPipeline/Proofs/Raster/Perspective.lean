import GraphicsPipeline.Proofs.Raster.Weights

/-!
# Interpolation in space

A mean of vertices in space is seen at a mean of their places on the screen, for other weights: the
last coordinates count in (`Corners.onScreen`). The weights for which a triangle interpolates are
those that lead back to the weights of the centre, so what is interpolated is the vertex of the
surface that is seen at the centre (`Triangle.perspective_correct`).
-/

namespace GraphicsPipeline

variable {t : Triangle ℚ} {u v : Corners (ShadedVertex ℚ)} {weights : Corners ℚ}
  {width height x y : UInt32}

/-! ### Means in space and on the screen -/

/-- The weights on the screen for weights in space. -/
def Corners.onScreen (weights : Corners ℚ) (u : Corners (ShadedVertex ℚ)) : Corners ℚ :=
  let w := (ShadedVertex.mean weights u).clip.w
  ⟨weights.a * u.a.clip.w / w, weights.b * u.b.clip.w / w, weights.c * u.c.clip.w / w⟩

namespace ShadedVertex

/-- A mean that is divided is the mean of what is divided. -/
lemma mean_div (front : ∀ p ∈ u.toList, 0 < p.clip.w) (f : ShadedVertex ℚ → ℚ) :
    weights.mean (u.map f) / (mean weights u).clip.w =
      (weights.onScreen u).mean (u.map fun p => f p / p.clip.w) := by
  obtain ⟨ha, hb, hc⟩ := Corners.forall_mem_toList.1 front
  have hterm {k w : ℚ} (hw : 0 < w) (f n : ℚ) : k * f / n = k * w / n * (f / w) := by
    field_simp
  simp only [Corners.mean, Corners.map, Corners.onScreen, add_div]
  rw [← hterm ha, ← hterm hb, ← hterm hc]

lemma sum_onScreen (hw : (mean weights u).clip.w ≠ 0) : (weights.onScreen u).sum = 1 := by
  rw [Corners.sum, Corners.onScreen, ← add_div, ← add_div]
  exact div_self hw

lemma depth_mean (front : ∀ p ∈ u.toList, 0 < p.clip.w) :
    (mean weights u).depth = (weights.onScreen u).mean (u.map depth) :=
  mean_div front (·.clip.z)

/-- What depends on a divided coordinate in an affine way is the mean of what it is at the
corners. -/
lemma mean_of_affine (front : ∀ p ∈ u.toList, 0 < p.clip.w) (hw : (mean weights u).clip.w ≠ 0)
    {f g : ShadedVertex ℚ → ℚ} {m n : ℚ} (hg : g (mean weights u) = weights.mean (u.map g))
    (hf : ∀ p, f p = m * (g p / p.clip.w) + n) :
    f (mean weights u) = (weights.onScreen u).mean (u.map f) :=
  calc f (mean weights u) = m * (weights.mean (u.map g) / (mean weights u).clip.w) + n := by
        rw [hf, hg]
    _ = m * (weights.onScreen u).mean (u.map fun p => g p / p.clip.w) + n := by
        rw [mean_div front]
    _ = (weights.onScreen u).mean (u.map fun p => m * (g p / p.clip.w) + n) :=
        (Corners.mean_map (sum_onScreen hw) _ m n u).symm
    _ = (weights.onScreen u).mean (u.map f) := by rw [funext hf]

lemma place_eq (p : ShadedVertex ℚ) : p.place width height =
    ⟨width.toNat / 2 * (p.clip.x / p.clip.w) + width.toNat / 2,
      -(height.toNat / 2) * (p.clip.y / p.clip.w) + height.toNat / 2⟩ := by
  have hone : (Coordinate.one : ℚ) = 1 := rfl
  have htwo : (Coordinate.two : ℚ) = 2 := rfl
  have hword (n : UInt32) : (Coordinate.ofUInt32 n : ℚ) = n.toNat := rfl
  simp only [place, Corner.ofVertex, hone, htwo, hword, Point.mk.injEq]
  constructor
  · ring
  · ring

/-- A mean of vertices is seen at the mean of their places, for the weights on the screen. -/
theorem place_mean (front : ∀ p ∈ u.toList, 0 < p.clip.w) (hw : (mean weights u).clip.w ≠ 0) :
    (mean weights u).place width height =
      Point.mean (weights.onScreen u) (u.map (place width height)) := by
  have hx := mean_of_affine (f := fun p => (p.place width height).x) (g := (·.clip.x)) front hw rfl
    fun p => congrArg Point.x (place_eq p)
  have hy := mean_of_affine (f := fun p => (p.place width height).y) (g := (·.clip.y)) front hw rfl
    fun p => congrArg Point.y (place_eq p)
  exact (Point.mk.injEq _ _ _ _).mpr ⟨hx, hy⟩

end ShadedVertex

namespace Triangle

/-! ### Weights in space -/

lemma perspective_eq (t : Triangle ℚ) (weights : Corners ℚ) : t.perspective weights =
    let sum := weights.mean (t.corners.map Corner.invW)
    ⟨weights.a * t.corners.a.invW / sum, weights.b * t.corners.b.invW / sum,
      weights.c * t.corners.c.invW / sum⟩ := rfl

namespace IsSetUpFrom

variable (h : t.IsSetUpFrom u width height) (hweights : weights.IsWeighting)

include h

lemma invW_pos : 0 < t.corners.a.invW ∧ 0 < t.corners.b.invW ∧ 0 < t.corners.c.invW := by
  obtain ⟨ha, hb, hc⟩ := Corners.forall_mem_toList.1 h.front
  rw [h.corners]
  exact ⟨one_div_pos.2 ha, one_div_pos.2 hb, one_div_pos.2 hc⟩

include hweights

lemma mean_invW_pos : 0 < weights.mean (t.corners.map Corner.invW) := by
  obtain ⟨ha, hb, hc⟩ := h.invW_pos
  obtain ⟨hka, hkb, hkc, hsum⟩ := hweights
  rw [Corners.sum] at hsum
  have hpos : 0 < weights.a ∨ 0 < weights.b ∨ 0 < weights.c := by
    by_contra! hle
    linarith
  change 0 < weights.a * t.corners.a.invW + weights.b * t.corners.b.invW +
    weights.c * t.corners.c.invW
  rcases hpos with hpos | hpos | hpos <;> positivity

lemma isWeighting_perspective : (t.perspective weights).IsWeighting := by
  obtain ⟨ha, hb, hc⟩ := h.invW_pos
  have hsum := h.mean_invW_pos hweights
  rw [perspective_eq]
  refine ⟨div_nonneg (mul_nonneg hweights.a ha.le) hsum.le,
    div_nonneg (mul_nonneg hweights.b hb.le) hsum.le,
    div_nonneg (mul_nonneg hweights.c hc.le) hsum.le, ?_⟩
  rw [Corners.sum, ← add_div, ← add_div]
  exact div_self hsum.ne'

/-- In space, a weight times the last coordinate of its vertex is a share of the weight on the
screen. -/
lemma perspective_mul_w :
    let sum := weights.mean (t.corners.map Corner.invW)
    (t.perspective weights).a * u.a.clip.w = weights.a / sum ∧
      (t.perspective weights).b * u.b.clip.w = weights.b / sum ∧
        (t.perspective weights).c * u.c.clip.w = weights.c / sum := by
  intro sum
  have hsum : sum ≠ 0 := (h.mean_invW_pos hweights).ne'
  obtain ⟨ha, hb, hc⟩ := Corners.forall_mem_toList.1 h.front
  have hterm {k w inv : ℚ} (hw : 0 < w) (hinv : inv = 1 / w) : k * inv / sum * w = k / sum := by
    rw [hinv]
    field_simp
  exact ⟨hterm ha (by rw [h.corners]; rfl), hterm hb (by rw [h.corners]; rfl),
    hterm hc (by rw [h.corners]; rfl)⟩

lemma mean_perspective_w : (ShadedVertex.mean (t.perspective weights) u).clip.w =
    1 / weights.mean (t.corners.map Corner.invW) := by
  obtain ⟨ha, hb, hc⟩ := h.perspective_mul_w hweights
  change (t.perspective weights).a * u.a.clip.w + (t.perspective weights).b * u.b.clip.w +
    (t.perspective weights).c * u.c.clip.w = _
  rw [ha, hb, hc, ← add_div, ← add_div]
  exact congrArg (· / _) hweights.sum

lemma mean_perspective_w_pos : 0 < (ShadedVertex.mean (t.perspective weights) u).clip.w := by
  rw [h.mean_perspective_w hweights]
  exact one_div_pos.2 (h.mean_invW_pos hweights)

/-- The weights in space lead back to those on the screen. -/
lemma onScreen_perspective : (t.perspective weights).onScreen u = weights := by
  have hsum := (h.mean_invW_pos hweights).ne'
  obtain ⟨ha, hb, hc⟩ := h.perspective_mul_w hweights
  rw [Corners.onScreen, h.mean_perspective_w hweights, ha, hb, hc]
  simp only [div_div_div_cancel_right₀ hsum, div_one]

/-- The mean for the weights in space is seen at the centre where the weights on the screen are
those of the centre. -/
theorem seenAt_mean (hcenter : center x y =
    Point.mean weights (u.map (ShadedVertex.place width height))) :
    (ShadedVertex.mean (t.perspective weights) u).SeenAt width height x y := by
  have hw := h.mean_perspective_w_pos hweights
  refine ⟨hw, ?_⟩
  rw [ShadedVertex.place_mean h.front hw.ne', h.onScreen_perspective hweights, ← hcenter]
  rfl

end IsSetUpFrom

/-- What a triangle interpolates are the numbers of the mean of its vertices. -/
lemma varying?_eq (h : t.corners = u.map (Corner.ofVertex width height)) (p : Corners ℚ) (i : Nat) :
    t.varying? p i = (ShadedVertex.mean p u).varyings[i]? := by
  simp only [varying?, h, Corners.map, Corner.ofVertex, ShadedVertex.mean, Array.getElem?_zipWith,
    Array.getElem?_map]
  cases u.a.varyings[i]? <;> cases u.b.varyings[i]? <;> cases u.c.varyings[i]? <;> rfl

/-- Interpolation is correct in perspective. A triangle weights the vertices that it was set up
from, in one of their two orders, by weights of a mean. What it interpolates belongs to the mean of
the vertices in space, which lies in front of the camera and is seen exactly at the centre of the
pixel. -/
theorem perspective_correct (h : ofVertices v width height = some t)
    (hcover : t.cover x y = some weights) :
    ∃ u, (u = v ∨ u = v.flip) ∧ t.corners = u.map (Corner.ofVertex width height) ∧
      (t.perspective weights).IsWeighting ∧
        (∀ i, t.varying? (t.perspective weights) i =
          (ShadedVertex.mean (t.perspective weights) u).varyings[i]?) ∧
          (ShadedVertex.mean (t.perspective weights) u).SeenAt width height x y := by
  obtain ⟨u, hu, hsetup⟩ := exists_isSetUpFrom h
  obtain ⟨hweights, hcenter⟩ := hsetup.isWeighting_of_cover hcover
  exact ⟨u, hu, hsetup.corners, hsetup.isWeighting_perspective hweights,
    varying?_eq hsetup.corners _, hsetup.seenAt_mean hweights hcenter⟩

/-- What a run finds of a triangle and of its weights at a centre. -/
lemma exists_cover_of_any {α : Type} [Coordinate α] {v : Corners (ShadedVertex α)}
    {P : Triangle α → Corners α → Prop} [∀ t weights, Decidable (P t weights)]
    (h : (ofVertices v width height).any fun t =>
      (t.cover x y).any fun weights => decide (P t weights)) :
    ∃ t weights, ofVertices v width height = some t ∧ t.cover x y = some weights ∧
      P t weights := by
  obtain ⟨t, ht, hcovered⟩ := Option.any_eq_true _ _ |>.1 h
  obtain ⟨weights, hcover, hfacts⟩ := Option.any_eq_true _ _ |>.1 hcovered
  exact ⟨t, weights, ht, hcover, of_decide_eq_true hfacts⟩

/-- A triangle over a screen of one pixel, with one vertex four times as near as the others. It is
given counterclockwise. -/
def steep : Corners (ShadedVertex ℚ) :=
  ⟨⟨⟨-1, -1, 0, 1⟩, #[0]⟩, ⟨⟨12, -4, 4, 4⟩, #[5]⟩, ⟨⟨-4, 12, 4, 4⟩, #[10]⟩⟩

/-- At the one pixel the near vertex counts for four fifths. -/
theorem perspective_correct_steep : ∃ t weights, ofVertices steep 1 1 = some t ∧
    t.cover 0 0 = some weights ∧ t.perspective weights = ⟨4 / 5, 1 / 10, 1 / 10⟩ ∧
      ∃ u, (u = steep ∨ u = steep.flip) ∧
        (ShadedVertex.mean ⟨4 / 5, 1 / 10, 1 / 10⟩ u).SeenAt 1 1 0 0 := by
  have hpixel : (ofVertices steep 1 1).any fun t => (t.cover 0 0).any fun weights =>
      decide (t.perspective weights = ⟨4 / 5, 1 / 10, 1 / 10⟩) := by
    decide +kernel
  obtain ⟨t, weights, ht, hcover, hspace⟩ := exists_cover_of_any hpixel
  obtain ⟨u, hu, -, -, -, hseen⟩ := perspective_correct ht hcover
  exact ⟨t, weights, ht, hcover, hspace, u, hu, by rwa [← hspace]⟩

end Triangle

end GraphicsPipeline
