import GraphicsPipeline.Proofs.Raster.Weights
import GraphicsPipeline.Raster.Visibility

/-!
# Culling

A triangle is looked for within the bounds of its corners, and it is left out where they hold no
pixel. In exact numbers no pixel is lost: the bounds hold every centre on the screen that lies in
the triangle (`Bounds.contains_of_within`).
-/

namespace GraphicsPipeline

/-! ### Exact coordinates -/

namespace Coordinate

variable {x size : UInt32} {u v w : ℚ}

lemma min_eq_min : Coordinate.min u v = Min.min u v := by
  rw [Coordinate.min, min_comm, min_def_lt]

lemma max_eq_max : Coordinate.max u v = Max.max u v := by
  rw [Coordinate.max, max_def_lt]

lemma toNat_toUInt32_toNat (n : UInt32) : (toUInt32 (n.toNat : ℚ)).toNat = n.toNat := by
  have hlt := n.toNat_lt_size
  have hfloor : (n.toNat : ℚ).floor = n.toNat := Rat.floor_intCast n.toNat
  change (UInt32.ofNat (Min.min (n.toNat : ℚ).floor.toNat (UInt32.size - 1))).toNat = _
  rw [hfloor, Int.toNat_natCast, Nat.min_eq_left (Nat.le_sub_one_of_lt hlt),
    UInt32.toNat_ofNat_of_lt' hlt]

/-- An integral number that is moved into the screen is a word there. -/
lemma toNat_toUInt32_clamp (z : ℤ) (size : UInt32) :
    (toUInt32 (clamp (z : ℚ) zero (ofUInt32 size))).toNat = Min.min z.toNat size.toNat := by
  have hzero : (zero : ℚ) = 0 := rfl
  have hsize : (ofUInt32 size : ℚ) = size.toNat := rfl
  rw [clamp]
  split_ifs with hlow hhigh
  · rw [hzero] at hlow
    have hz : z < 0 := by exact_mod_cast hlow
    rw [Int.toNat_of_nonpos hz.le, Nat.zero_min]
    exact toNat_toUInt32_toNat 0
  · rw [hsize] at hhigh ⊢
    have hz : (size.toNat : ℤ) < z := by exact_mod_cast hhigh
    rw [toNat_toUInt32_toNat, Nat.min_eq_right (Int.lt_toNat.2 hz).le]
  · rw [hzero, not_lt] at hlow
    rw [hsize, not_lt] at hhigh
    have hz : 0 ≤ z := by exact_mod_cast hlow
    have hz' : z ≤ size.toNat := by exact_mod_cast hhigh
    obtain ⟨n, rfl⟩ := Int.eq_ofNat_of_zero_le hz
    have hn : (UInt32.ofNat n).toNat = n :=
      UInt32.toNat_ofNat_of_lt' (lt_of_le_of_lt (by exact_mod_cast hz') size.toNat_lt_size)
    have hword := toNat_toUInt32_toNat (UInt32.ofNat n)
    rw [hn] at hword
    rw [Int.toNat_natCast, Nat.min_eq_left (by exact_mod_cast hz')]
    exact_mod_cast hword

lemma toUInt32_clamp_floor_le (h : v ≤ x.toNat + 1 / 2) :
    toUInt32 (clamp (floor v) zero (ofUInt32 size)) ≤ x := by
  change toUInt32 (clamp (v.floor : ℚ) zero (ofUInt32 size)) ≤ x
  have hfloor : v.floor < x.toNat + 1 := by
    rw [Rat.floor_lt_iff]
    push_cast
    linarith
  rw [UInt32.le_iff_toNat_le, toNat_toUInt32_clamp]
  exact (Nat.min_le_left _ _).trans (Int.toNat_le.2 (Int.lt_add_one_iff.1 hfloor))

lemma lt_toUInt32_clamp_ceil (hx : x < size) (h : x.toNat + 1 / 2 ≤ v) :
    x < toUInt32 (clamp (ceil v) zero (ofUInt32 size)) := by
  change x < toUInt32 (clamp (v.ceil : ℚ) zero (ofUInt32 size))
  have hceil : x.toNat < v.ceil := by
    rw [Rat.lt_ceil_iff]
    push_cast
    linarith
  rw [UInt32.lt_iff_toNat_lt, toNat_toUInt32_clamp]
  exact Nat.lt_min.2 ⟨Int.lt_toNat.2 hceil, UInt32.lt_iff_toNat_lt.1 hx⟩

end Coordinate

/-! ### Bounds -/

variable {width height x y size : UInt32}

namespace Bounds

/-- The columns or rows from the least to the greatest of three coordinates hold a centre at their
mean. -/
lemma span_contains {weights q : Corners ℚ} (hx : x < size) (h : weights.IsWeighting)
    (hmean : x.toNat + 1 / 2 = weights.mean q) :
    (span q.a q.b q.c size).1 ≤ x ∧ x < (span q.a q.b q.c size).2 := by
  constructor
  · apply Coordinate.toUInt32_clamp_floor_le
    simp only [Coordinate.min_eq_min, hmean]
    exact Corners.le_mean h ((min_le_left _ _).trans (min_le_left _ _))
      ((min_le_left _ _).trans (min_le_right _ _)) (min_le_right _ _)
  · apply Coordinate.lt_toUInt32_clamp_ceil hx
    simp only [Coordinate.max_eq_max, hmean]
    exact Corners.mean_le h ((le_max_left _ _).trans (le_max_left _ _))
      ((le_max_right _ _).trans (le_max_left _ _)) (le_max_right _ _)

/-- The bounds of three points hold every centre on the screen within their triangle. -/
theorem contains_of_within {q : Corners (Point ℚ)} (hx : x < width) (hy : y < height)
    (h : (Triangle.center x y).Within q) : (ofPoints q width height).Contains x y := by
  obtain ⟨weights, hweights, hmean⟩ := h
  obtain ⟨hminX, hmaxX⟩ := span_contains hx hweights (congrArg Point.x hmean)
  obtain ⟨hminY, hmaxY⟩ := span_contains hy hweights (congrArg Point.y hmean)
  exact ⟨hminX, hmaxX, hminY, hmaxY⟩

lemma isEmpty_eq_false_of_contains {b : Bounds} (h : b.Contains x y) : b.isEmpty = false := by
  obtain ⟨hminX, hmaxX, hminY, hmaxY⟩ := h
  have hx : ¬b.maxX ≤ b.minX := UInt32.not_le.2 (UInt32.lt_of_le_of_lt hminX hmaxX)
  have hy : ¬b.maxY ≤ b.minY := UInt32.not_le.2 (UInt32.lt_of_le_of_lt hminY hmaxY)
  simp [isEmpty, hx, hy]

end Bounds

/-! ### Triangles that are set up -/

lemma Point.Within.flip {p : Point ℚ} {q : Corners (Point ℚ)} (h : p.Within q) :
    p.Within q.flip := by
  obtain ⟨weights, hweights, hmean⟩ := h
  have hx := Corners.mean_flip weights (q.map Point.x)
  have hy := Corners.mean_flip weights (q.map Point.y)
  exact ⟨weights.flip, hweights.flip, hmean.trans ((mk.injEq _ _ _ _).mpr ⟨hx.symm, hy.symm⟩)⟩

namespace Triangle

variable {v : Corners (ShadedVertex ℚ)}

/-- Corners with a centre of the screen in their triangle are set up. -/
lemma exists_ofCorners {corners : Corners (Corner ℚ)} {area : ℚ} (hpos : 0 < area) (hx : x < width)
    (hy : y < height) (h : (center x y).Within (corners.map Corner.point)) :
    ∃ t, ofCorners corners area width height = some t := by
  have hbounds := Bounds.isEmpty_eq_false_of_contains (Bounds.contains_of_within hx hy h)
  have hfinite : Coordinate.zero < area ∧ Coordinate.isFinite area := ⟨hpos, rfl⟩
  simp only [ofCorners, if_pos hfinite, hbounds, Bool.false_eq_true, if_false]
  exact ⟨_, rfl⟩

/-- Vertices in front of the camera that do not lie on a line are set up if there is a centre of the
screen in their triangle. -/
theorem exists_ofVertices (front : ∀ p ∈ v.toList, 0 < p.clip.w)
    (harea : edge (v.a.place width height) (v.b.place width height) (v.c.place width height) ≠ 0)
    (hx : x < width) (hy : y < height)
    (h : (center x y).Within (v.map (ShadedVertex.place width height))) :
    ∃ t, ofVertices v width height = some t := by
  have hfront : v.all (fun p => Coordinate.zero < p.clip.w) = true :=
    Corners.all_eq_true.2 fun p hp => decide_eq_true (front p hp)
  simp only [ofVertices, hfront, if_true]
  -- a triangle is the same set of points in either order
  split_ifs with hneg
  · exact exists_ofCorners (neg_pos.2 hneg) hx hy h.flip
  · exact exists_ofCorners (lt_of_le_of_ne (not_lt.1 hneg) harea.symm) hx hy h

/-- A centre on the screen that a triangle covers lies within the bounds in which it is looked
for. -/
theorem contains_of_isSome_cover {t : Triangle ℚ} (h : ofVertices v width height = some t)
    (hx : x < width) (hy : y < height) (hcover : (t.cover x y).isSome) :
    t.bounds.Contains x y := by
  obtain ⟨weights, hweights⟩ := Option.isSome_iff_exists.1 hcover
  obtain ⟨u, -, hsetup⟩ := exists_isSetUpFrom h
  obtain ⟨-, hbounds, -⟩ := ofVertices_eq_some h
  rw [hbounds, hsetup.corners]
  exact Bounds.contains_of_within hx hy ⟨weights, hsetup.isWeighting_of_cover hweights⟩

/-- No pixel is lost, for vertices in front of the camera on a screen of any size. The bounds of a
triangle hold every pixel of the screen whose centre it covers. Where there is no triangle, the
vertices lie on a line, or no centre of the screen lies inside of their triangle or on its edges. -/
theorem loses_no_pixel (front : ∀ p ∈ v.toList, 0 < p.clip.w) :
    (∀ t, ofVertices v width height = some t → ∀ x y, x < width → y < height →
      (t.cover x y).isSome → t.bounds.Contains x y) ∧
      (ofVertices v width height = none →
        edge (v.a.place width height) (v.b.place width height) (v.c.place width height) = 0 ∨
          ∀ x y, x < width → y < height →
            ¬(center x y).Within (v.map (ShadedVertex.place width height))) := by
  constructor
  · intro t ht x y hx hy hcover
    exact contains_of_isSome_cover ht hx hy hcover
  · intro hnone
    by_contra! hmissed
    obtain ⟨harea, x, y, hx, hy, hwithin⟩ := hmissed
    obtain ⟨t, ht⟩ := exists_ofVertices front harea hx hy hwithin
    rw [hnone] at ht
    cases ht

/-- A triangle thinner than a pixel that reaches onto the screen from its left. -/
def sliver : Corners (ShadedVertex ℚ) :=
  ⟨⟨⟨-3 / 2, 4 / 5, 0, 1⟩, #[]⟩, ⟨⟨-3 / 2, 7 / 10, 0, 1⟩, #[]⟩, ⟨⟨-1 / 2, 3 / 4, 0, 1⟩, #[]⟩⟩

/-- A triangle to the right of the screen. -/
def beside : Corners (ShadedVertex ℚ) :=
  ⟨⟨⟨3 / 2, 1, 0, 1⟩, #[]⟩, ⟨⟨3 / 2, -1, 0, 1⟩, #[]⟩, ⟨⟨2, 0, 0, 1⟩, #[]⟩⟩

/-- On a screen of four by four, the bounds of the thin triangle hold the first pixel, and the other
triangle holds no centre. -/
theorem loses_no_pixel_sliver :
    (∃ t, ofVertices sliver 4 4 = some t ∧ (t.cover 0 0).isSome ∧ t.bounds.Contains 0 0) ∧
      ofVertices beside 4 4 = none ∧ ∀ x y, x < 4 → y < 4 →
        ¬(center x y).Within (beside.map (ShadedVertex.place 4 4)) := by
  have hsliver : (ofVertices sliver 4 4).any fun t => (t.cover 0 0).isSome := by
    decide +kernel
  obtain ⟨t, ht, hcover⟩ := Option.any_eq_true _ _ |>.1 hsliver
  have hbeside : ofVertices beside 4 4 = none := by
    decide +kernel
  have frontSliver : ∀ p ∈ sliver.toList, 0 < p.clip.w := by decide +kernel
  have frontBeside : ∀ p ∈ beside.toList, 0 < p.clip.w := by decide +kernel
  refine ⟨⟨t, ht, hcover, ?_⟩, hbeside, ?_⟩
  · exact (loses_no_pixel frontSliver).1 t ht 0 0 (by decide) (by decide) hcover
  · exact ((loses_no_pixel frontBeside).2 hbeside).resolve_left (by decide +kernel)

end Triangle

end GraphicsPipeline
