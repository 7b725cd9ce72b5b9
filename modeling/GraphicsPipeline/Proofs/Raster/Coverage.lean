import GraphicsPipeline.Proofs.Raster.Culling

/-!
# Watertight meshes

Triangles are set up from vertices in any order, and on the screen they cover what the places of
the vertices enclose (`Corners.covers_iff`). So the geometry of sides says which triangles of a mesh
cover a pixel.
-/

namespace GraphicsPipeline

variable {width height x y : UInt32}

/-! ### Triangles that are set up -/

namespace Triangle

variable {t : Triangle ℚ} {corners : Corners (Corner ℚ)} {area : ℚ}

/-- What the ways from corner to corner enclose lies within the triangle. -/
lemma within_of_encloses {q : Corners (Point ℚ)} {p : Point ℚ} (harea : 0 < edge q.a q.b q.c)
    (h : Encloses q.a q.b q.c p) : p.Within q :=
  ⟨_, isWeighting_of_edge_nonneg harea (edge_nonneg_of_side_pos h.bc)
    (edge_nonneg_of_side_pos h.ca) (edge_nonneg_of_side_pos h.ab)⟩

/-- A triangle covers the centres that its corners enclose. -/
lemma isSome_cover_iff (h : ofCorners corners area width height = some t) :
    (t.cover x y).isSome ↔
      Encloses corners.a.point corners.b.point corners.c.point (center x y) := by
  simp only [ofCorners] at h
  split at h
  · split at h
    · cases h
    · cases h
      simp only [cover, Corners.map, Option.isSome_ite, Bool.and_eq_true]
      constructor
      · rintro ⟨⟨hbc, hca⟩, hab⟩
        exact ⟨inside_eq_true.1 hab, inside_eq_true.1 hbc, inside_eq_true.1 hca⟩
      · intro h
        exact ⟨⟨inside_eq_true.2 h.bc, inside_eq_true.2 h.ca⟩, inside_eq_true.2 h.ab⟩
  · cases h

end Triangle

namespace Corners

variable {v : Corners (ShadedVertex ℚ)}

/-- Corners that are run through clockwise cover what they enclose, on the screen. -/
lemma any_ofCorners_iff {q : Corners (Corner ℚ)} {area : ℚ}
    (harea : 0 < edge q.a.point q.b.point q.c.point) (hpos : 0 < area)
    (hx : x < width) (hy : y < height) :
    ((Triangle.ofCorners q area width height).any fun t => (t.cover x y).isSome) = true ↔
      Encloses q.a.point q.b.point q.c.point (Triangle.center x y) := by
  rw [Option.any_eq_true]
  constructor
  · rintro ⟨t, ht, hcover⟩
    exact (Triangle.isSome_cover_iff ht).1 hcover
  · intro h
    obtain ⟨t, ht⟩ := Triangle.exists_ofCorners hpos hx hy
      (Triangle.within_of_encloses (q := q.map Corner.point) harea h)
    exact ⟨t, ht, (Triangle.isSome_cover_iff ht).2 h⟩

/-- On the screen, vertices in front of the camera cover what their places cover. -/
theorem covers_iff (hx : x < width) (hy : y < height) (front : ∀ u ∈ v.toList, 0 < u.clip.w) :
    v.covers width height x y = true ↔ Covered (v.a.place width height) (v.b.place width height)
      (v.c.place width height) (Triangle.center x y) := by
  have hfront : v.all (fun u => Coordinate.zero < u.clip.w) = true :=
    all_eq_true.2 fun u hu => decide_eq_true (front u hu)
  simp only [covers, Triangle.ofVertices, hfront, if_true]
  let q := v.map (Corner.ofVertex width height)
  change (if edge q.a.point q.b.point q.c.point < Coordinate.zero then
    Triangle.ofCorners q.flip (-edge q.a.point q.b.point q.c.point) width height
    else Triangle.ofCorners q (edge q.a.point q.b.point q.c.point) width height).any _ = true ↔
      Covered q.a.point q.b.point q.c.point _
  by_cases hneg : edge q.a.point q.b.point q.c.point < Coordinate.zero
  · have hflip : 0 < edge q.a.point q.c.point q.b.point := by rwa [edge_flip, Left.neg_pos_iff]
    rw [if_pos hneg, covered_iff_of_neg hneg]
    exact any_ofCorners_iff (q := q.flip) hflip (neg_pos.2 hneg) hx hy
  · rw [if_neg hneg]
    rcases (not_lt.1 hneg).eq_or_lt with hzero | hpos
    -- three vertices on a line are no triangle, and cover nothing on the other side either
    · have hnone : Triangle.ofCorners q (edge q.a.point q.b.point q.c.point) width height = none :=
        if_neg fun h => h.1.ne hzero
      have hline : edge q.a.point q.b.point q.c.point = 0 := hzero.symm
      rw [hnone]
      simp [Covered, hline]
    · rw [covered_iff_of_pos hpos]
      exact any_ofCorners_iff hpos hpos hx hy

/-- The order in which vertices are given does not matter to what they cover. -/
theorem covers_iff_of_perm {a b c : ShadedVertex ℚ} (hx : x < width) (hy : y < height)
    (front : ∀ u ∈ [a, b, c], 0 < u.clip.w) (h : v.toList.Perm [a, b, c]) :
    v.covers width height x y = true ↔ Covered (a.place width height) (b.place width height)
      (c.place width height) (Triangle.center x y) := by
  rw [covers_iff hx hy fun u hu => front u (h.mem_iff.1 hu)]
  exact covered_of_perm (h.map (ShadedVertex.place width height))

/-! ### Meshes -/

section Meshes

variable {f : Corners (ShadedVertex ℚ) → Bool} {abc abd bcd cad : Corners (ShadedVertex ℚ)}
  {a b c d p : Point ℚ}

/-- Of three triangles, exactly one is chosen if one of them is and no two are. -/
lemma countP_eq_one (hsome : f abd = true ∨ f bcd = true ∨ f cad = true)
    (hfirst : ¬(f abd = true ∧ f bcd = true)) (hsecond : ¬(f bcd = true ∧ f cad = true))
    (hthird : ¬(f cad = true ∧ f abd = true)) : [abd, bcd, cad].countP f = 1 := by
  cases habd : f abd <;> cases hbcd : f bcd <;> cases hcad : f cad <;> simp_all

/-- Triangles that cover what their places do: a point inside cuts one of them into three. -/
lemma countP_parts (habc : f abc = true ↔ Covered a b c p) (habd : f abd = true ↔ Covered a b d p)
    (hbcd : f bcd = true ↔ Covered b c d p) (hcad : f cad = true ↔ Covered c a d p)
    (harea : edge a b c ≠ 0) (hinside : d.StrictlyInside a b c) :
    (f abc = true → [abd, bcd, cad].countP f = 1) ∧
      (f abc = false → ∀ t ∈ [abd, bcd, cad], f t = false) := by
  have hbca : edge b c a ≠ 0 := by rwa [edge_rotate a b c]
  have hcab : edge c a b ≠ 0 := by rwa [← edge_rotate c a b]
  have hparts : Covered a b c p ↔ _ := covered_iff_parts hinside harea
  rw [← habc, ← habd, ← hbcd, ← hcad] at hparts
  constructor
  · intro hcovered
    apply countP_eq_one (hparts.1 hcovered)
    · rw [habd, hbcd]
      exact not_covered_parts hinside harea
    · rw [hbcd, hcad]
      exact not_covered_parts hinside.rotate hbca
    · rw [hcad, habd]
      exact not_covered_parts hinside.rotate.rotate hcab
  · intro hmissed
    rw [← Bool.not_eq_true, hparts, not_or, not_or] at hmissed
    simpa using hmissed

/-- Triangles that cover what their places do: two of them meet at an edge. -/
lemma countP_edge (habc : f abc = true ↔ Covered a b c p) (habd : f abd = true ↔ Covered a b d p)
    (hopposite : a.Opposite b c d) :
    ¬(f abc = true ∧ f abd = true) ∧ (p.Between a b → [abc, abd].countP f = 1) := by
  constructor
  · rw [habc, habd]
    exact not_covered_both hopposite
  · intro hbetween
    have hone := covered_iff_not_covered hopposite hbetween
    rw [← habc, ← habd] at hone
    cases hc : f abc <;> cases hd : f abd <;> simp_all

end Meshes

/-- Meshes are watertight: on a screen of any size, let four vertices lie in front of the camera,
and let triangles of them be given in any order. Where the fourth vertex lies strictly inside a
triangle of the first three, a centre that this triangle covers is covered by exactly one of the
parts around the fourth vertex, and no part covers another centre. Where the third and the fourth
vertex lie strictly on opposite sides of the edge of the first two, no centre is covered by both
triangles at the edge, and a centre on the edge is covered by exactly one. -/
theorem covers_watertight {a b c d : ShadedVertex ℚ} {abc abd : Corners (ShadedVertex ℚ)}
    (hx : x < width) (hy : y < height) (front : ∀ u ∈ [a, b, c, d], 0 < u.clip.w)
    (habc : abc.toList.Perm [a, b, c]) (habd : abd.toList.Perm [a, b, d]) :
    let place := ShadedVertex.place width height
    let covers := fun t : Corners (ShadedVertex ℚ) => t.covers width height x y
    (edge (place a) (place b) (place c) ≠ 0 →
      (place d).StrictlyInside (place a) (place b) (place c) →
        ∀ bcd cad, bcd.toList.Perm [b, c, d] → cad.toList.Perm [c, a, d] →
          (covers abc = true → [abd, bcd, cad].countP covers = 1) ∧
            (covers abc = false → ∀ t ∈ [abd, bcd, cad], covers t = false)) ∧
      ((place a).Opposite (place b) (place c) (place d) →
        ¬(covers abc = true ∧ covers abd = true) ∧
          ((Triangle.center x y).Between (place a) (place b) →
            [abc, abd].countP covers = 1)) := by
  intro place covers
  simp only [List.forall_mem_cons, List.not_mem_nil, false_implies, implies_true, and_true] at front
  obtain ⟨ha, hb, hc, hd⟩ := front
  have hcovers {t : Corners (ShadedVertex ℚ)} {u v w : ShadedVertex ℚ} (hu : 0 < u.clip.w)
      (hv : 0 < v.clip.w) (hw : 0 < w.clip.w) (ht : t.toList.Perm [u, v, w]) :
      covers t = true ↔ Covered (place u) (place v) (place w) (Triangle.center x y) :=
    covers_iff_of_perm hx hy (by simp [hu, hv, hw]) ht
  constructor
  · intro harea hinside bcd cad hbcd hcad
    exact countP_parts (hcovers ha hb hc habc) (hcovers ha hb hd habd) (hcovers hb hc hd hbcd)
      (hcovers hc ha hd hcad) harea hinside
  · intro hopposite
    exact countP_edge (hcovers ha hb hc habc) (hcovers ha hb hd habd) hopposite

/-- A vertex at a place of the picture, whose corners have the coordinates one and minus one. -/
def vertexAt (x y : ℚ) : ShadedVertex ℚ := ⟨⟨x, y, 0, 1⟩, #[]⟩

/-- The upper left half of the picture. -/
def upperHalf : Corners (ShadedVertex ℚ) := ⟨vertexAt (-1) 1, vertexAt 1 1, vertexAt (-1) (-1)⟩

/-- The lower right half of the picture, the other way round. -/
def lowerHalf : Corners (ShadedVertex ℚ) := ⟨vertexAt (-1) (-1), vertexAt 1 1, vertexAt 1 (-1)⟩

/-- A point of the upper half, which is the centre of a pixel on a screen of four by four. -/
def inner : ShadedVertex ℚ := vertexAt (-1 / 4) (1 / 4)

/-- The parts of the upper half around the inner point, two of them the other way round. -/
def upperParts : Corners (Corners (ShadedVertex ℚ)) where
  a := ⟨vertexAt 1 1, vertexAt (-1) 1, inner⟩
  b := ⟨vertexAt (-1) (-1), vertexAt 1 1, inner⟩
  c := ⟨vertexAt (-1) (-1), vertexAt (-1) 1, inner⟩

/-- A centre lies at the point where the three parts meet, and another one on the diagonal where the
two halves meet. -/
theorem covers_watertight_halves :
    upperParts.toList.countP (fun t => t.covers 4 4 1 1) = 1 ∧
      [upperHalf, lowerHalf].countP (fun t => t.covers 4 4 1 2) = 1 := by
  have hx : (1 : UInt32) < 4 := by decide
  have hy : (2 : UInt32) < 4 := by decide
  constructor
  · have hupper : upperHalf.toList.Perm [vertexAt (-1) 1, vertexAt 1 1, vertexAt (-1) (-1)] :=
      .refl _
    have hfirst : upperParts.a.toList.Perm [vertexAt (-1) 1, vertexAt 1 1, inner] := .swap _ _ _
    have hsecond : upperParts.b.toList.Perm [vertexAt 1 1, vertexAt (-1) (-1), inner] :=
      .swap _ _ _
    have hthird : upperParts.c.toList.Perm [vertexAt (-1) (-1), vertexAt (-1) 1, inner] := .refl _
    obtain ⟨hparts, -⟩ := covers_watertight hx hx (by decide +kernel) hupper hfirst
    have hinside : (inner.place 4 4).StrictlyInside ((vertexAt (-1) 1).place 4 4)
        ((vertexAt 1 1).place 4 4) ((vertexAt (-1) (-1)).place 4 4) :=
      ⟨1 / 4, 3 / 8, 3 / 8, by norm_num, by norm_num, by norm_num, by norm_num,
        by decide +kernel, by decide +kernel⟩
    obtain ⟨hcovered, -⟩ := hparts (by decide +kernel) hinside _ _ hsecond hthird
    exact hcovered (by decide +kernel)
  · have hupper : upperHalf.toList.Perm [vertexAt 1 1, vertexAt (-1) (-1), vertexAt (-1) 1] := by
      decide +kernel
    have hlower : lowerHalf.toList.Perm [vertexAt 1 1, vertexAt (-1) (-1), vertexAt 1 (-1)] :=
      .swap _ _ _
    obtain ⟨-, hedge⟩ := covers_watertight hx hy (by decide +kernel) hupper hlower
    obtain ⟨-, hone⟩ := hedge (by decide +kernel)
    exact hone ⟨5 / 8, by norm_num, by norm_num, by decide +kernel, by decide +kernel⟩

end Corners

end GraphicsPipeline
