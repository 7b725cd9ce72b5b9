import GraphicsPipeline.Proofs.Raster.Perspective

/-!
# Depth of surfaces

The depth of a triangle at a pixel is interpolated from the divided depths of its vertices, with the
weights in space. The divided depth of the surface itself has the weights on the screen. The two
differ by how the depths and the inverse last coordinates vary together
(`Triangle.depth_eq_depth_add_skew`): not at all where either of them does not vary.
-/

namespace GraphicsPipeline

variable {t : Triangle ℚ} {u v : Corners (ShadedVertex ℚ)} {p : ShadedVertex ℚ}
  {weights : Corners ℚ} {width height x y : UInt32}

namespace Triangle

/-! ### Interpolated depths -/

lemma depth_eq_div (t : Triangle ℚ) (weights : Corners ℚ) : t.depth weights =
    (weights.a * t.corners.a.invW * t.corners.a.z + weights.b * t.corners.b.invW * t.corners.b.z +
      weights.c * t.corners.c.invW * t.corners.c.z) / weights.mean (t.corners.map Corner.invW) := by
  have hzero : (Coordinate.zero : ℚ) = 0 := rfl
  simp only [depth, hzero, zero_add]
  rfl

lemma depth_eq_mean (t : Triangle ℚ) (weights : Corners ℚ) :
    t.depth weights = (t.perspective weights).mean (t.corners.map Corner.z) := by
  rw [depth_eq_div, perspective_eq]
  simp only [Corners.mean, Corners.map]
  ring

/-- Interpolated with the weights in space, the depths of the corners come to more than with those
on the screen, by their skew. -/
lemma depth_eq_add_skew (hsum : weights.sum = 1)
    (hpos : 0 < weights.mean (t.corners.map Corner.invW)) :
    t.depth weights = weights.mean (t.corners.map Corner.z) + t.skew weights := by
  rw [Corners.sum] at hsum
  rw [depth_eq_div, skew, div_eq_iff hpos.ne', add_mul, div_mul_cancel₀ _ hpos.ne']
  simp only [Corners.mean, Corners.map]
  linear_combination -(weights.a * t.corners.a.invW * t.corners.a.z +
    weights.b * t.corners.b.invW * t.corners.b.z +
    weights.c * t.corners.c.invW * t.corners.c.z) * hsum

lemma IsSetUpFrom.map_z (h : t.IsSetUpFrom u width height) :
    t.corners.map Corner.z = u.map ShadedVertex.depth := by
  rw [h.corners]
  rfl

/-- There is no skew where the depths of the corners or their last coordinates are the same. -/
lemma IsSetUpFrom.skew_of_level (h : t.IsSetUpFrom u width height) (hlevel : u.Level) :
    t.skew weights = 0 := by
  have hinv : t.corners.map Corner.invW = u.map fun p => 1 / p.clip.w := by
    rw [h.corners]
    rfl
  rw [skew, h.map_z, hinv]
  rcases hlevel with ⟨hab, hbc⟩ | ⟨hab, hbc⟩
  · simp [Corners.map, hab, hbc]
  · simp [Corners.map, hab, hbc]

end Triangle

/-! ### Planes and parts -/

lemma Corners.Level.flip (h : v.Level) : v.flip.Level := by
  obtain ⟨hab, hbc⟩ | ⟨hab, hbc⟩ := h
  · exact .inl ⟨hab.trans hbc, hbc.symm⟩
  · exact .inr ⟨hab.trans hbc, hbc.symm⟩

namespace ShadedVertex

lemma clip_mean_flip (weights : Corners ℚ) (v : Corners (ShadedVertex ℚ)) :
    (mean weights.flip v.flip).clip = (mean weights v).clip := by
  simp only [mean, ← Corners.mean_flip weights]
  rfl

lemma SeenAt.of_clip_eq {q : ShadedVertex ℚ} (hclip : p.clip = q.clip)
    (h : p.SeenAt width height x y) : q.SeenAt width height x y := by
  simpa only [SeenAt, place, Corner.ofVertex, hclip] using h

lemma OnPlane.flip (h : p.OnPlane v) : p.OnPlane v.flip := by
  obtain ⟨weights, hclip⟩ := h
  exact ⟨weights.flip, hclip.trans (clip_mean_flip weights v).symm⟩

lemma OnTriangle.flip (h : p.OnTriangle v) : p.OnTriangle v.flip := by
  obtain ⟨weights, hweights, hclip⟩ := h
  exact ⟨weights.flip, hweights.flip, hclip.trans (clip_mean_flip weights v).symm⟩

lemma OnTriangle.onPlane (h : p.OnTriangle v) : p.OnPlane v := by
  obtain ⟨weights, -, hclip⟩ := h
  exact ⟨weights, hclip⟩

/-- A mean of vertices in a plane lies in the plane. -/
lemma onPlane_mean (h : ∀ p ∈ u.toList, p.OnPlane v) (weights : Corners ℚ) :
    (mean weights u).OnPlane v := by
  obtain ⟨⟨ka, ha⟩, ⟨kb, hb⟩, kc, hc⟩ := Corners.forall_mem_toList.1 h
  refine ⟨⟨weights.mean ⟨ka.a, kb.a, kc.a⟩, weights.mean ⟨ka.b, kb.b, kc.b⟩,
    weights.mean ⟨ka.c, kb.c, kc.c⟩⟩, ?_⟩
  simp only [mean, Corners.map] at ha hb hc
  simp only [mean, Corners.map, ha, hb, hc, Corners.mean, Vec4.mk.injEq]
  refine ⟨?_, ?_, ?_, ?_⟩ <;> ring

end ShadedVertex

/-! ### Level triangles -/

namespace Corners

/-- Where the last coordinates are the same, a point of the triangle has the same one. -/
lemma w_of_onTriangle (hab : v.a.clip.w = v.b.clip.w) (hbc : v.b.clip.w = v.c.clip.w)
    (h : p.OnTriangle v) : p.clip.w = v.c.clip.w := by
  obtain ⟨weights, hweights, hclip⟩ := h
  rw [hclip]
  simp only [ShadedVertex.mean, map, hab, hbc]
  exact mean_const hweights.sum _

/-- Where the depths are the same, a point of the plane has the same one. -/
lemma depth_of_onPlane (hab : v.a.depth = v.b.depth) (hbc : v.b.depth = v.c.depth)
    (front : ∀ p ∈ v.toList, 0 < p.clip.w) (hp : p.clip.w ≠ 0) (h : p.OnPlane v) :
    p.depth = v.c.depth := by
  obtain ⟨weights, hclip⟩ := h
  rw [hclip] at hp
  rw [ShadedVertex.depth, hclip, ← ShadedVertex.depth, ShadedVertex.depth_mean front]
  simp only [map, hab, hbc]
  exact mean_const (ShadedVertex.sum_onScreen hp) _

/-- A part of a level triangle is level. -/
lemma Level.of_onTriangle (hlevel : v.Level) (h : ∀ p ∈ u.toList, p.OnTriangle v)
    (front : ∀ p ∈ v.toList, 0 < p.clip.w) (front' : ∀ p ∈ u.toList, 0 < p.clip.w) : u.Level := by
  obtain ⟨hab, hbc⟩ | ⟨hab, hbc⟩ := hlevel
  · have hw (p) (hp : p ∈ u.toList) := w_of_onTriangle hab hbc (h p hp)
    obtain ⟨ha, hb, hc⟩ := forall_mem_toList.1 hw
    exact .inl ⟨ha.trans hb.symm, hb.trans hc.symm⟩
  · have hdepth (p) (hp : p ∈ u.toList) :=
      depth_of_onPlane hab hbc front (front' p hp).ne' (h p hp).onPlane
    obtain ⟨ha, hb, hc⟩ := forall_mem_toList.1 hdepth
    exact .inr ⟨ha.trans hb.symm, hb.trans hc.symm⟩

end Corners

/-! ### Depths of one plane -/

namespace Triangle

/-- A mean in space that is seen at a centre has the weights of the centre on the screen. -/
lemma IsSetUpFrom.onScreen_of_seenAt (h : t.IsSetUpFrom u width height)
    (hweights : weights.IsWeighting)
    (hcenter : center x y = Point.mean weights (u.map (ShadedVertex.place width height)))
    {space : Corners ℚ} (hseen : (ShadedVertex.mean space u).SeenAt width height x y) :
    space.onScreen u = weights := by
  obtain ⟨hw, hplace⟩ := hseen
  have harea := h.area_pos.ne'
  rw [h.area] at harea
  apply weights_eq_of_mean_eq (q := u.map (ShadedVertex.place width height)) harea
    (ShadedVertex.sum_onScreen hw.ne') hweights.sum
  rw [← ShadedVertex.place_mean h.front hw.ne', hplace, ← hcenter]
  rfl

/-- The plane of a triangle has one depth at a centre: that of the corners, with the weights on the
screen. -/
lemma IsSetUpFrom.depth_of_seenAt (h : t.IsSetUpFrom u width height)
    (hweights : weights.IsWeighting)
    (hcenter : center x y = Point.mean weights (u.map (ShadedVertex.place width height)))
    (hplane : p.OnPlane u) (hseen : p.SeenAt width height x y) :
    p.depth = weights.mean (t.corners.map Corner.z) := by
  obtain ⟨space, hclip⟩ := hplane
  rw [ShadedVertex.depth, hclip, ← ShadedVertex.depth, ShadedVertex.depth_mean h.front,
    h.onScreen_of_seenAt hweights hcenter (hseen.of_clip_eq hclip), h.map_z]

lemma IsSetUpFrom.depth_eq_depth_add (h : t.IsSetUpFrom u width height)
    (hcover : t.cover x y = some weights) (hplane : p.OnPlane u)
    (hseen : p.SeenAt width height x y) : t.depth weights = p.depth + t.skew weights := by
  obtain ⟨hweights, hcenter⟩ := h.isWeighting_of_cover hcover
  rw [h.depth_of_seenAt hweights hcenter hplane hseen]
  exact depth_eq_add_skew hweights.sum (h.mean_invW_pos hweights)

section Two

variable {t' : Triangle ℚ} {u' : Corners (ShadedVertex ℚ)} {weights' : Corners ℚ}

/-- Two triangles in one plane have the same depth where they have the same skew. -/
lemma IsSetUpFrom.depth_eq_iff (h : t.IsSetUpFrom u width height)
    (h' : t'.IsSetUpFrom u' width height) (hcover : t.cover x y = some weights)
    (hcover' : t'.cover x y = some weights') (hplane : ∀ p ∈ u'.toList, p.OnPlane u) :
    t'.depth weights' = t.depth weights ↔ t'.skew weights' = t.skew weights := by
  obtain ⟨hweights', hcenter'⟩ := h'.isWeighting_of_cover hcover'
  -- both are compared with the point of the second triangle that is seen at the centre
  have hseen := h'.seenAt_mean hweights' hcenter'
  rw [h.depth_eq_depth_add hcover (ShadedVertex.onPlane_mean hplane _) hseen,
    h'.depth_eq_depth_add hcover' ⟨_, rfl⟩ hseen, add_right_inj]

/-- A part of a level triangle has its depths. -/
lemma IsSetUpFrom.depth_eq_of_level (h : t.IsSetUpFrom u width height)
    (h' : t'.IsSetUpFrom u' width height) (hcover : t.cover x y = some weights)
    (hcover' : t'.cover x y = some weights') (hpart : ∀ p ∈ u'.toList, p.OnTriangle u)
    (hlevel : u.Level) : t'.depth weights' = t.depth weights := by
  have hlevel' := hlevel.of_onTriangle hpart h.front h'.front
  rw [h.depth_eq_iff h' hcover hcover' fun p hp => (hpart p hp).onPlane, h.skew_of_level hlevel,
    h'.skew_of_level hlevel']

end Two

/-- The depth of a triangle at a centre that it covers is interpolated from the depths of its
vertices with the weights in space. It comes to the depth of the surface, of the point in the plane
of the vertices that is seen at the centre, and the skew of the triangle there. There is no skew
where all vertices have the same last coordinate, or all have the same depth. So triangles in one
plane have the same depth where they have the same skew, and the parts of a triangle without skew
have the depth of the whole. -/
theorem depth_eq_depth_add_skew (h : ofVertices v width height = some t)
    (hcover : t.cover x y = some weights) :
    (∃ u, (u = v ∨ u = v.flip) ∧ t.corners = u.map (Corner.ofVertex width height) ∧
      t.depth weights = (t.perspective weights).mean (u.map ShadedVertex.depth) ∧
        (ShadedVertex.mean (t.perspective weights) u).OnPlane v ∧
          (ShadedVertex.mean (t.perspective weights) u).SeenAt width height x y) ∧
      (∀ p : ShadedVertex ℚ, p.OnPlane v → p.SeenAt width height x y →
        t.depth weights = p.depth + t.skew weights) ∧
      (v.Level → t.skew weights = 0) ∧
      ∀ v' t' weights', ofVertices v' width height = some t' → t'.cover x y = some weights' →
        ((∀ p ∈ v'.toList, p.OnPlane v) →
          (t'.depth weights' = t.depth weights ↔ t'.skew weights' = t.skew weights)) ∧
          ((∀ p ∈ v'.toList, p.OnTriangle v) → v.Level → t'.depth weights' = t.depth weights) := by
  obtain ⟨u, hu, hsetup⟩ := exists_isSetUpFrom h
  obtain ⟨hweights, hcenter⟩ := hsetup.isWeighting_of_cover hcover
  refine ⟨⟨u, hu, hsetup.corners, ?_, ?_, hsetup.seenAt_mean hweights hcenter⟩, ?_, ?_, ?_⟩
  · rw [depth_eq_mean, hsetup.map_z]
  · have hplane : (ShadedVertex.mean (t.perspective weights) u).OnPlane u := ⟨_, rfl⟩
    rcases hu with rfl | rfl
    · exact hplane
    · exact hplane.flip
  · intro p hplane hseen
    exact hsetup.depth_eq_depth_add hcover (Corners.of_eq_or_flip hu .flip hplane) hseen
  · intro hlevel
    exact hsetup.skew_of_level (Corners.of_eq_or_flip hu .flip hlevel)
  · intro v' t' weights' h' hcover'
    obtain ⟨u', hu', hsetup'⟩ := exists_isSetUpFrom h'
    have hmem {p} (hp : p ∈ u'.toList) := Corners.mem_of_eq_or_flip hu' hp
    constructor
    · intro hplane
      exact hsetup.depth_eq_iff hsetup' hcover hcover' fun p hp =>
        Corners.of_eq_or_flip hu .flip (hplane p (hmem hp))
    · intro hpart hlevel
      exact hsetup.depth_eq_of_level hsetup' hcover hcover'
        (fun p hp => Corners.of_eq_or_flip hu .flip (hpart p (hmem hp)))
        (Corners.of_eq_or_flip hu .flip hlevel)

/-- At the one pixel of its screen, the surface of the steep triangle is seen halfway to the far
end, and the triangle has a fifth as its depth. -/
lemma exists_cover_steep : ∃ t weights, ofVertices steep 1 1 = some t ∧
    t.cover 0 0 = some weights ∧ t.corners = steep.flip.map (Corner.ofVertex 1 1) ∧
      (ShadedVertex.mean (t.perspective weights) steep.flip).SeenAt 1 1 0 0 ∧
        (ShadedVertex.mean (t.perspective weights) steep.flip).depth = 1 / 2 ∧
          t.depth weights = 1 / 5 := by
  have hpixel : (ofVertices steep 1 1).any fun t => (t.cover 0 0).any fun weights =>
      decide (t.corners = steep.flip.map (Corner.ofVertex 1 1) ∧
        (ShadedVertex.mean (t.perspective weights) steep.flip).SeenAt 1 1 0 0 ∧
          (ShadedVertex.mean (t.perspective weights) steep.flip).depth = 1 / 2 ∧
            t.depth weights = 1 / 5) := by
    decide +kernel
  exact exists_cover_of_any hpixel

/-- The skew of the steep triangle brings its surface nearer by three tenths. -/
theorem depth_eq_depth_add_skew_steep : ∃ t weights, ofVertices steep 1 1 = some t ∧
    t.cover 0 0 = some weights ∧ t.depth weights = 1 / 2 + t.skew weights ∧
      t.skew weights = -3 / 10 := by
  obtain ⟨t, weights, ht, hcover, -, hseen, hdepth, hcode⟩ := exists_cover_steep
  obtain ⟨-, hsurface, -⟩ := depth_eq_depth_add_skew ht hcover
  have hsum := hsurface _ (ShadedVertex.OnPlane.flip ⟨_, rfl⟩) hseen
  rw [hdepth] at hsum
  exact ⟨t, weights, ht, hcover, hsum, by linarith⟩

/-- The steep triangle with its last vertex moved halfway to the first. -/
def steepPart : Corners (ShadedVertex ℚ) := ⟨steep.a, steep.b, ⟨⟨-5 / 2, 11 / 2, 2, 5 / 2⟩, #[]⟩⟩

lemma steepPart_onTriangle : ∀ p ∈ steepPart.toList, p.OnTriangle steep := by
  refine Corners.forall_mem_toList.2 ⟨⟨⟨1, 0, 0⟩, ?_, by decide +kernel⟩,
    ⟨⟨0, 1, 0⟩, ?_, by decide +kernel⟩, ⟨⟨1 / 2, 0, 1 / 2⟩, ?_, by decide +kernel⟩⟩
  all_goals constructor <;> norm_num [Corners.sum]

/-- The depth of a triangle is not that of its surface, and a part of it can have another depth. -/
theorem depth_ne_steep : ∃ t weights t' weights',
    ofVertices steep 1 1 = some t ∧ t.cover 0 0 = some weights ∧
      (t.corners = steep.flip.map (Corner.ofVertex 1 1) ∧
        (ShadedVertex.mean (t.perspective weights) steep.flip).SeenAt 1 1 0 0 ∧
          t.depth weights ≠ (ShadedVertex.mean (t.perspective weights) steep.flip).depth) ∧
        (∀ p ∈ steepPart.toList, p.OnTriangle steep) ∧
          ofVertices steepPart 1 1 = some t' ∧ t'.cover 0 0 = some weights' ∧
            t'.depth weights' ≠ t.depth weights := by
  have hpart : (ofVertices steepPart 1 1).any fun t => (t.cover 0 0).any fun weights =>
      decide (t.depth weights = 13 / 50) := by
    decide +kernel
  obtain ⟨t, weights, ht, hcover, hcorners, hseen, hdepth, hcode⟩ := exists_cover_steep
  obtain ⟨t', weights', ht', hcover', hcode'⟩ := exists_cover_of_any hpart
  refine ⟨t, weights, t', weights', ht, hcover, ⟨hcorners, hseen, ?_⟩, steepPart_onTriangle, ht',
    hcover', ?_⟩
  · rw [hcode, hdepth]
    norm_num
  · rw [hcode', hcode]
    norm_num

end Triangle

end GraphicsPipeline
