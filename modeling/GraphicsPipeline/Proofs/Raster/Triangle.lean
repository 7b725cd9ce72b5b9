import GraphicsPipeline.Proofs.Number.Binary32
import GraphicsPipeline.Proofs.Stepwise
import GraphicsPipeline.Proofs.Word.Basic
import GraphicsPipeline.Raster.Triangle

/-!
# Triangles of vertices

What a triangle that was set up has from its vertices: their corners, in one of two orders, and the
bounds of the points of the corners. The bounds give the pixels to look at, row by row.
-/

namespace GraphicsPipeline.Triangle

/-! ### Rows and columns -/

variable {α : Type} {t : Triangle α} {first last x y : UInt32}

/-- The columns that a triangle is looked for in, from left to right. -/
def columns (t : Triangle α) : List UInt32 :=
  wordsFrom t.bounds.minX (t.bounds.maxX.toNat - t.bounds.minX.toNat)

/-- The rows from `first` to below `last` that a triangle is looked for in, downwards. -/
def rowsWithin (t : Triangle α) (first last : UInt32) : List UInt32 :=
  wordsFrom (max t.bounds.minY first)
    ((min t.bounds.maxY last).toNat - (max t.bounds.minY first).toNat)

/-- From one word on to another, no word is too large. -/
lemma toNat_add_sub_le (a b : UInt32) : a.toNat + (b.toNat - a.toNat) ≤ UInt32.size := by
  have ha := a.toNat_lt_size
  have hb := b.toNat_lt_size
  omega

lemma mem_columns : x ∈ t.columns ↔ t.bounds.minX ≤ x ∧ x < t.bounds.maxX := by
  rw [columns, mem_wordsFrom (toNat_add_sub_le _ _), UInt32.le_iff_toNat_le, UInt32.lt_iff_toNat_lt]
  omega

lemma mem_rowsWithin :
    y ∈ t.rowsWithin first last ↔
      (t.bounds.minY ≤ y ∧ y < t.bounds.maxY) ∧ first ≤ y ∧ y < last := by
  rw [rowsWithin, mem_wordsFrom (toNat_add_sub_le _ _)]
  simp only [UInt32.le_iff_toNat_le, UInt32.lt_iff_toNat_lt, UInt32.toNat_max, UInt32.toNat_min]
  omega

lemma nodup_columns (t : Triangle α) : t.columns.Nodup :=
  nodup_wordsFrom (toNat_add_sub_le _ _)

lemma nodup_rowsWithin (t : Triangle α) (first last : UInt32) : (t.rowsWithin first last).Nodup :=
  nodup_wordsFrom (toNat_add_sub_le _ _)

/-- Of all rows of the screen, those from `first` to below `last` are left. -/
lemma filter_rowsWithin {height : UInt32} (h : last ≤ height) :
    ((t.rowsWithin 0 height).filter fun y => first ≤ y ∧ y < last) = t.rowsWithin first last := by
  refine List.Pairwise.eq_of_mem_iff ((pairwise_wordsFrom (toNat_add_sub_le _ _)).filter _)
    (pairwise_wordsFrom (toNat_add_sub_le _ _)) fun y => ?_
  simp only [List.mem_filter, mem_rowsWithin, decide_eq_true_eq]
  simp only [UInt32.le_iff_toNat_le, UInt32.lt_iff_toNat_lt] at h ⊢
  have hzero : (0 : UInt32).toNat = 0 := rfl
  omega

/-! ### Corners and bounds -/

variable [Coordinate α]

/-- A triangle that is set up keeps the corners. -/
lemma ofCorners_eq_some {corners : Corners (Corner α)} {area : α} {width height : UInt32}
    (h : ofCorners corners area width height = some t) :
    t.corners = corners ∧ t.bounds = Bounds.ofPoints (corners.map Corner.point) width height ∧
      ¬t.bounds.isEmpty := by
  simp only [ofCorners] at h
  split at h
  · split at h
    · cases h
    · rename_i hempty
      cases h
      exact ⟨rfl, rfl, hempty⟩
  · cases h

lemma area_of_ofCorners {corners : Corners (Corner α)} {area : α} {width height : UInt32}
    (h : ofCorners corners area width height = some t) :
    t.area = area ∧ Coordinate.zero < area := by
  simp only [ofCorners] at h
  split at h
  · rename_i harea
    split at h
    · cases h
    · cases h
      exact ⟨rfl, harea.1⟩
  · cases h

/-- The corners of a triangle are those of its vertices, or those run through the other way
round. -/
theorem ofVertices_eq_some {v : Corners (ShadedVertex α)} {width height : UInt32}
    (h : ofVertices v width height = some t) :
    (t.corners = v.map (Corner.ofVertex width height) ∨
      t.corners = (v.map (Corner.ofVertex width height)).flip) ∧
      t.bounds = Bounds.ofPoints (t.corners.map Corner.point) width height ∧
        ¬t.bounds.isEmpty := by
  simp only [ofVertices] at h
  split at h
  · split at h
    · obtain ⟨hcorners, hbounds, hempty⟩ := ofCorners_eq_some h
      exact ⟨.inr hcorners, by rw [hbounds, hcorners], hempty⟩
    · obtain ⟨hcorners, hbounds, hempty⟩ := ofCorners_eq_some h
      exact ⟨.inl hcorners, by rw [hbounds, hcorners], hempty⟩
  · cases h

/-- The columns or rows of a screen as triangles count them: their number, made a single precision
number and a word again. -/
def reach (size : UInt32) : UInt32 := (Binary32.ofUInt32 size).toUInt32

/-- Triangles count the nearest number of at most 24 binary digits. -/
lemma toNat_reach (size : UInt32) :
    (reach size).toNat = min (Binary32.nearest size.toNat) (UInt32.size - 1) :=
  Binary32.toNat_toUInt32_ofUInt32 size

lemma reach_of_le {size : UInt32} (h : size.toNat ≤ 2 ^ 24) : reach size = size :=
  Binary32.toUInt32_ofUInt32 h

/-- A triangle that is set up has pixels to look at, as far as its screen is counted. -/
theorem bounds_of_ofVertices {v : Corners (ShadedVertex Binary32)} {width height : UInt32}
    {t : Triangle Binary32} (h : ofVertices v width height = some t) :
    t.bounds.minX < t.bounds.maxX ∧ t.bounds.maxX ≤ reach width ∧
      t.bounds.minY < t.bounds.maxY ∧ t.bounds.maxY ≤ reach height := by
  obtain ⟨-, hbounds, hempty⟩ := ofVertices_eq_some h
  simp only [Bounds.isEmpty, Bool.or_eq_true, decide_eq_true_eq, not_or, UInt32.not_le] at hempty
  refine ⟨hempty.1, ?_, hempty.2, ?_⟩ <;> rw [hbounds]
  · exact Binary32.toUInt32_clamp_le width
  · exact Binary32.toUInt32_clamp_le height

lemma lt_reach_of_mem_columns {v : Corners (ShadedVertex Binary32)} {width height : UInt32}
    {t : Triangle Binary32} (h : ofVertices v width height = some t) (hx : x ∈ t.columns) :
    x < reach width :=
  UInt32.lt_of_lt_of_le (mem_columns.1 hx).2 (bounds_of_ofVertices h).2.1

/-- On a screen of at most `2 ^ 24` columns, a triangle is looked for within the screen. -/
lemma lt_of_mem_columns {v : Corners (ShadedVertex Binary32)} {width height : UInt32}
    {t : Triangle Binary32} (h : ofVertices v width height = some t)
    (hwidth : width.toNat ≤ 2 ^ 24) (hx : x ∈ t.columns) : x < width := by
  have hreach := lt_reach_of_mem_columns h hx
  rwa [reach_of_le hwidth] at hreach

end GraphicsPipeline.Triangle
