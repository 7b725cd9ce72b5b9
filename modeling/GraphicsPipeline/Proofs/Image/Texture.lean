import GraphicsPipeline.Proofs.Word.Basic
import GraphicsPipeline.Proofs.Word.Storage
import GraphicsPipeline.Image.Texture

/-!
# Textures with all their bytes

A texture that has four bytes for each pixel has a texel at each pixel, and a colour at every pair
of coordinates, whatever the numbers are. A rectangle that is filled has the new texel at its
pixels, and the image its old ones elsewhere (`Texture.WellSized.texel_of_fill`).
-/

namespace GraphicsPipeline

namespace Rect

variable {r : Rect} {x y width height : UInt32}

lemma contains_iff : r.Contains x y ↔ r.minX.toNat ≤ x.toNat ∧ x.toNat < r.maxX.toNat ∧
    r.minY.toNat ≤ y.toNat ∧ y.toNat < r.maxY.toNat := by
  simp only [Contains, UInt32.le_iff_toNat_le, UInt32.lt_iff_toNat_lt]

lemma isEmpty_iff :
    r.isEmpty ↔ r.maxX.toNat ≤ r.minX.toNat ∨ r.maxY.toNat ≤ r.minY.toNat := by
  simp only [isEmpty, Bool.or_eq_true, decide_eq_true_eq, UInt32.le_iff_toNat_le]

lemma not_out_iff : ¬(width < r.maxX ∨ height < r.maxY) ↔
    r.maxX.toNat ≤ width.toNat ∧ r.maxY.toNat ≤ height.toNat := by
  simp only [not_or, UInt32.not_lt, UInt32.le_iff_toNat_le]

end Rect

namespace Texture

variable {t : Texture}

/-- Every coordinate falls into a row or column that is there. -/
lemma pick_lt {u : Binary32} {size : UInt32} (h : 0 < size.toNat) :
    ∃ k, pick u size = .ok k ∧ k.toNat < size.toNat := by
  have hsize : size ≠ 0 := by
    rintro rfl
    simp at h
  have hlast : (size - 1).toNat = size.toNat - 1 := by
    rw [UInt32.toNat_sub_of_le _ _ (by rw [UInt32.le_iff_toNat_le]; simp; omega)]
    rfl
  refine ⟨_, by simp only [pick, if_neg hsize, orAbort_some, ok_bind]; rfl, ?_⟩
  rw [UInt32.toNat_min]
  omega

/-- Every pixel has a texel. -/
lemma WellSized.exists_texel (h : t.WellSized) {x y : UInt32} (hx : x.toNat < t.width.toNat)
    (hy : y.toNat < t.height.toNat) : ∃ texel, t.texel x y = .ok texel := by
  obtain ⟨-, -, hsize⟩ := h
  have hindex : t.index x y < t.width.toNat * t.height.toNat := by
    unfold index
    calc
      y.toNat * t.width.toNat + x.toNat < (y.toNat + 1) * t.width.toNat := by
        rw [Nat.succ_mul]
        omega
      _ ≤ t.height.toNat * t.width.toNat := Nat.mul_le_mul_right _ hy
      _ = t.width.toNat * t.height.toNat := Nat.mul_comm _ _
  obtain ⟨texel, htexel⟩ := Storage.exists_texel? t.data (t.index x y) (by omega)
  exact ⟨texel, by simp [Texture.texel, htexel]⟩

/-- Every pair of coordinates has a colour, also where the numbers are infinite or NaNs. -/
theorem WellSized.exists_sample (h : t.WellSized) (u v : Binary32) :
    ∃ c, t.sample u v = .ok c := by
  obtain ⟨x, hx, hxlt⟩ := pick_lt (u := u) h.1
  obtain ⟨y, hy, hylt⟩ := pick_lt (u := v) h.2.1
  obtain ⟨texel, htexel⟩ := h.exists_texel hxlt hylt
  exact ⟨Color.unpack texel, by simp [sample, hx, hy, htexel]⟩

/-! ### Creating and filling -/

variable {t' : Texture} {texel : Texel} {data data' : ByteArray} {start columns rows : Nat}

/-- A new image has all its bytes. -/
theorem wellSized_of_new [Allocator] {width height : UInt32} (h : new width height = .ok t) :
    t.WellSized := by
  simp only [new, throw_bind, ite_error_eq_ok, not_or] at h
  obtain ⟨⟨hwidth, hheight⟩, h⟩ := h
  split at h
  · simp only [bind_eq_ok, pure_eq_ok, allocate] at h
    obtain ⟨_, ⟨_, _, rfl⟩, rfl⟩ := h
    have hpos : ∀ n : UInt32, n ≠ 0 → 0 < n.toNat := fun n hn => by
      rw [Nat.pos_iff_ne_zero, Ne, ← UInt32.toNat_zero, UInt32.toNat_inj]
      exact hn
    exact ⟨hpos width hwidth, hpos height hheight, Storage.size_zeroed⟩
  · simp at h

lemma size_of_fillRow (h : fillRow data start texel columns = .ok data') :
    data'.size = data.size := by
  induction columns generalizing data start with
  | zero =>
    cases h
    rfl
  | succ columns ih =>
    simp only [fillRow, bind_eq_ok, orAbort_eq_ok] at h
    obtain ⟨data₁, hset, h⟩ := h
    rw [ih h, Storage.size_setTexel? hset]

lemma size_of_fillRows {width : Nat}
    (h : fillRows data width start columns texel rows = .ok data') : data'.size = data.size := by
  induction rows generalizing data start with
  | zero =>
    cases h
    rfl
  | succ rows ih =>
    simp only [fillRows, bind_eq_ok] at h
    obtain ⟨data₁, hrow, h⟩ := h
    rw [ih h, size_of_fillRow hrow]

/-- Texels that lie within the data can be written one after another. -/
lemma exists_fillRow (texel : Texel) (h : 4 * (start + columns) ≤ data.size) :
    ∃ data', fillRow data start texel columns = .ok data' := by
  induction columns generalizing data start with
  | zero => exact ⟨data, rfl⟩
  | succ columns ih =>
    obtain ⟨data₁, hset⟩ := Storage.exists_setTexel? (t := texel)
      (show 4 * start + 3 < data.size by omega)
    have hsize := Storage.size_setTexel? hset
    have hrest : 4 * (start + 1 + columns) ≤ data₁.size := by omega
    obtain ⟨data', hrow⟩ := ih hrest
    exact ⟨data', by rw [fillRow, hset, orAbort_some, ok_bind, hrow]⟩

/-- Rows that lie within the data can be filled one after another. -/
lemma exists_fillRows {width : Nat} (texel : Texel)
    (h : ∀ k < rows, 4 * (start + k * width + columns) ≤ data.size) :
    ∃ data', fillRows data width start columns texel rows = .ok data' := by
  induction rows generalizing data start with
  | zero => exact ⟨data, rfl⟩
  | succ rows ih =>
    have hfirst := h 0 (by omega)
    rw [Nat.zero_mul, Nat.add_zero] at hfirst
    obtain ⟨data₁, hrow⟩ := exists_fillRow texel hfirst
    have hrest : ∀ k < rows, 4 * (start + width + k * width + columns) ≤ data₁.size := by
      intro k hk
      have hnext := h (k + 1) (by omega)
      rw [Nat.add_mul, Nat.one_mul] at hnext
      rw [size_of_fillRow hrow]
      omega
    obtain ⟨data', hrows⟩ := ih hrest
    exact ⟨data', by rw [fillRows, hrow, ok_bind, hrows]⟩

/-- A rectangle within an image has all its rows within the data. -/
lemma WellSized.exists_fillRows (h : t.WellSized) (texel : Texel) {r : Rect}
    (hin : ¬(t.width < r.maxX ∨ t.height < r.maxY)) (hempty : ¬r.isEmpty) :
    ∃ data', fillRows t.data t.width.toNat (r.minY.toNat * t.width.toNat + r.minX.toNat)
      (r.maxX.toNat - r.minX.toNat) texel (r.maxY.toNat - r.minY.toNat) = .ok data' := by
  rw [Rect.not_out_iff] at hin
  rw [Rect.isEmpty_iff] at hempty
  apply Texture.exists_fillRows
  intro k hk
  have hrow : (r.minY.toNat + k + 1) * t.width.toNat ≤ t.height.toNat * t.width.toNat :=
    Nat.mul_le_mul_right _ (by omega)
  rw [Nat.add_mul, Nat.add_mul, Nat.one_mul, Nat.mul_comm t.height.toNat] at hrow
  rw [h.2.2]
  omega

lemma fill_of_out {r : Rect} (hout : t.width < r.maxX ∨ t.height < r.maxY) :
    t.fill texel r = .error (.refused r.refusal) := by
  simp only [Texture.fill, if_pos hout, throw_bind]

lemma fill_of_isEmpty {r : Rect} (hin : ¬(t.width < r.maxX ∨ t.height < r.maxY))
    (hempty : r.isEmpty) : t.fill texel r = .ok t := by
  simp only [Texture.fill, if_neg hin, if_pos hempty]
  rfl

/-- A rectangle that can be filled is filled as a whole. -/
lemma WellSized.exists_fill (h : t.WellSized) (texel : Texel) {r : Rect}
    (hin : ¬(t.width < r.maxX ∨ t.height < r.maxY)) (hempty : ¬r.isEmpty) :
    ∃ data', fillRows t.data t.width.toNat (r.minY.toNat * t.width.toNat + r.minX.toNat)
        (r.maxX.toNat - r.minX.toNat) texel (r.maxY.toNat - r.minY.toNat) = .ok data' ∧
      t.fill texel r = .ok { t with data := data' } := by
  obtain ⟨data', hrows⟩ := h.exists_fillRows texel hin hempty
  refine ⟨data', hrows, ?_⟩
  simp only [Texture.fill, if_neg hin, if_neg hempty, hrows]
  rfl

/-- A rectangle within an image is filled, also if it is empty. -/
lemma WellSized.exists_fill_eq_ok (h : t.WellSized) (texel : Texel) {r : Rect}
    (hin : ¬(t.width < r.maxX ∨ t.height < r.maxY)) : ∃ t', t.fill texel r = .ok t' := by
  by_cases hempty : r.isEmpty
  · exact ⟨t, fill_of_isEmpty hin hempty⟩
  · obtain ⟨data', -, hfill⟩ := h.exists_fill texel hin hempty
    exact ⟨_, hfill⟩

/-- No clear leaves the data of its image. -/
theorem WellSized.fill_ne_aborted (h : t.WellSized) (texel : Texel) (r : Rect) :
    t.fill texel r ≠ .error .aborted := by
  by_cases hout : t.width < r.maxX ∨ t.height < r.maxY
  · rw [fill_of_out hout]
    simp
  · obtain ⟨t', hfill⟩ := h.exists_fill_eq_ok texel hout
    rw [hfill]
    simp

/-- An image that is filled has the size it had. -/
lemma sizes_of_fill {r : Rect} (hfill : t.fill texel r = .ok t') :
    t'.width = t.width ∧ t'.height = t.height ∧ t'.data.size = t.data.size := by
  simp only [Texture.fill, throw_bind, ite_error_eq_ok] at hfill
  obtain ⟨-, hfill⟩ := hfill
  split at hfill
  · rw [pure_eq_ok] at hfill
    exact hfill ▸ ⟨rfl, rfl, rfl⟩
  · simp only [bind_eq_ok, pure_eq_ok] at hfill
    obtain ⟨data, hrows, rfl⟩ := hfill
    exact ⟨rfl, rfl, size_of_fillRows hrows⟩

/-- An image that is filled in part keeps all its bytes. -/
theorem WellSized.fill (h : t.WellSized) {r : Rect} (hfill : t.fill texel r = .ok t') :
    t'.WellSized := by
  obtain ⟨hwidth, hheight, hsize⟩ := sizes_of_fill hfill
  rw [WellSized, hwidth, hheight, hsize]
  exact h

/-! ### What is filled -/

section Filled

variable {width i : Nat} {r : Rect} {x y : UInt32}

lemma texel?_of_fillRow (h : fillRow data start texel columns = .ok data') :
    Storage.texel? data' i =
      if start ≤ i ∧ i < start + columns then some texel else Storage.texel? data i := by
  induction columns generalizing data start with
  | zero =>
    cases h
    rw [if_neg (by omega)]
  | succ columns ih =>
    simp only [fillRow, bind_eq_ok, orAbort_eq_ok] at h
    obtain ⟨data₁, hset, h⟩ := h
    rw [ih h, Storage.texel?_setTexel? hset]
    split_ifs <;> first | rfl | omega

lemma texel?_of_fillRows (h : fillRows data width start columns texel rows = .ok data') :
    Storage.texel? data' i =
      if ∃ k < rows, start + k * width ≤ i ∧ i < start + k * width + columns then some texel
      else Storage.texel? data i := by
  induction rows generalizing data start with
  | zero =>
    cases h
    simp
  | succ rows ih =>
    simp only [fillRows, bind_eq_ok] at h
    obtain ⟨data₁, hrow, h⟩ := h
    have hrows : (∃ k < rows + 1, start + k * width ≤ i ∧ i < start + k * width + columns) ↔
        (∃ k < rows, start + width + k * width ≤ i ∧ i < start + width + k * width + columns) ∨
          start ≤ i ∧ i < start + columns := by
      have hnext : ∀ k, start + (k + 1) * width = start + width + k * width := fun k => by ring
      simp only [Nat.exists_lt_succ_left, Nat.zero_mul, Nat.add_zero, hnext, or_comm]
    rw [ih h, texel?_of_fillRow hrow, if_congr hrows rfl rfl, ite_or]

section Rows

variable {minX maxX minY maxY x y w : Nat}

/-- Counted row after row, a place is in a span of a row where the row and the column say so. -/
lemma mem_rows_iff (hx : x < w) (hmin : minX ≤ maxX) (hmax : maxX ≤ w) :
    (∃ k < maxY - minY, minY * w + minX + k * w ≤ y * w + x ∧
        y * w + x < minY * w + minX + k * w + (maxX - minX)) ↔
      minX ≤ x ∧ x < maxX ∧ minY ≤ y ∧ y < maxY := by
  constructor
  · rintro ⟨k, hk, hle, hlt⟩
    -- the columns end with the row, so a pixel of the `k`th run of them lies in the `k`th row
    have hrow : minY + k = y := by
      obtain ⟨hplace, -⟩ : (y * w + x) / w = y ∧ (y * w + x) % w = x :=
        (Nat.div_mod_unique (by omega)).2 ⟨by ring, hx⟩
      rw [← hplace, eq_comm, Nat.div_eq_iff (by omega), Nat.add_mul]
      omega
    subst hrow
    rw [Nat.add_mul] at hle hlt
    omega
  · rintro ⟨hminX, hmaxX, hminY, hmaxY⟩
    refine ⟨y - minY, by omega, ?_⟩
    have hrow : minY * w + (y - minY) * w = y * w := by
      rw [← Nat.add_mul, Nat.add_sub_cancel' hminY]
    omega

/-- The texels that are filled, by row and column. -/
lemma texel?_of_fillRows_at
    (h : fillRows data w (minY * w + minX) (maxX - minX) texel (maxY - minY) = .ok data')
    (hx : x < w) (hmin : minX ≤ maxX) (hmax : maxX ≤ w) :
    Storage.texel? data' (y * w + x) =
      if minX ≤ x ∧ x < maxX ∧ minY ≤ y ∧ y < maxY then some texel
      else Storage.texel? data (y * w + x) := by
  rw [texel?_of_fillRows h, if_congr (mem_rows_iff hx hmin hmax) rfl rfl]

end Rows

/-- A rectangle that is filled has the texel at its pixels, and the image its old ones elsewhere. -/
theorem WellSized.texel_of_fill (h : t.WellSized) (hfill : t.fill texel r = .ok t')
    (hx : x < t.width) :
    t'.texel x y = if r.Contains x y then .ok texel else t.texel x y := by
  by_cases hout : t.width < r.maxX ∨ t.height < r.maxY
  · rw [fill_of_out hout] at hfill
    cases hfill
  · by_cases hempty : r.isEmpty
    · rw [fill_of_isEmpty hout hempty] at hfill
      cases hfill
      rw [Rect.isEmpty_iff] at hempty
      rw [if_neg (by rw [Rect.contains_iff]; omega)]
    · obtain ⟨data', hrows, hfill'⟩ := h.exists_fill texel hout hempty
      rw [hfill'] at hfill
      cases hfill
      rw [Rect.not_out_iff] at hout
      rw [Rect.isEmpty_iff, not_or, not_le, not_le] at hempty
      simp only [Texture.texel, index, Rect.contains_iff,
        texel?_of_fillRows_at hrows (UInt32.lt_iff_toNat_lt.1 hx) hempty.1.le hout.1]
      split <;> rfl

end Filled

end Texture

end GraphicsPipeline
