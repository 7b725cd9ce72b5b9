import GraphicsPipeline.Proofs.Raster.Partition

/-!
# Painting stays within the target

A band is painted at the pixels within its rows and within the bounds of the triangles. The bounds
reach as far as the size of the screen counts in single precision. Where that is not beyond the
last column, every pixel that is looked at lies in the target, the band has the bytes of that very
pixel, and painting is not aborted (`Target.Complete.paints_within`). Beyond `2 ^ 24` columns the
count can be too high, and then there are triangles that show a pixel of a column that does not
exist.
-/

namespace GraphicsPipeline

variable {s : FragmentStage} {ts : List (Triangle Binary32)} {b : Band} {x y : UInt32}

/-! ### Bytes of a band -/

namespace Band

/-- The band is painted at a pixel, if the triangle shows there. -/
def Visits (b : Band) (t : Triangle Binary32) (x y : UInt32) : Prop :=
  ∃ last, Checked.add32? b.y₀ b.rows = some last ∧ y ∈ t.rowsWithin b.y₀ last ∧ x ∈ t.columns

/-- Every pixel that shows one of the triangles has its bytes in the band. -/
def Suffices (b : Band) (ts : List (Triangle Binary32)) : Prop :=
  ∀ t ∈ ts, ∀ x y, b.Visits t x y → (t.fragment? x y).isSome → 4 * b.index x y + 3 < b.color.size

/-- A pixel that shows a triangle can be painted if it has its bytes in the band, and only then. -/
lemma pixel_decides {t : Triangle Binary32} (ready : s.Ready) (feeds : t.Feeds s.varyingWidth)
    (hrefusal : s.refusal? = none)
    (hdepth : ∀ depth, b.depth = some depth → depth.size = b.color.size) :
    (pixel s t y x).Decides b.SameShape
      ((t.fragment? x y).isSome → 4 * b.index x y + 3 < b.color.size) := by
  intro b' hshape
  refine ⟨hshape.trans _ _ _ (pixel_sameShape b').1, ?_⟩
  have hdepth' := hshape.size_depth hdepth
  rw [← hshape.index, ← hshape.color, pixel]
  cases t.fragment? x y with
  | none => simp
  | some fragment =>
    obtain ⟨weights, d⟩ := fragment
    obtain ⟨color, hshade⟩ :=
      ready.exists_shade (p := t.perspective weights) (m := .new) feeds hrefusal
    by_cases hi : 4 * b'.index x y + 3 < b'.color.size
    · obtain ⟨hidden, hhides⟩ := exists_hides (d := d) hdepth' hi
      obtain ⟨painted, hwrite⟩ := exists_write hdepth' color d hi
      cases hidden <;> simp [hhides, hshade, hwrite, hi]
    · simp only [Option.isSome_some, true_imp_iff, hi, iff_false]
      -- beyond its bytes nothing hides the pixel, and nothing can be written
      rcases hhides : b'.hides (b'.index x y) d with fault | _ | _
      · simp
      · rcases hwrite : b'.write (b'.index x y) color d with fault | painted
        · simp [hshade, hwrite]
        · obtain ⟨colors, -, hcolors, -⟩ := write_eq_ok.1 hwrite
          exact absurd (Storage.lt_of_setTexel? hcolors) hi
      · exact absurd (lt_of_hides hdepth' hhides) hi

/-- A stage that refuses no point paints a band with enough bytes, and no other. -/
theorem paint_eq_ok_iff_suffices (ready : s.Ready) (feeds : ∀ t ∈ ts, t.Feeds s.varyingWidth)
    (hrefusal : s.refusal? = none) (h : b.Roomy) :
    (paint s ts b).2 = .ok () ↔ b.Suffices ts := by
  obtain ⟨last, hlast, -⟩ := h.exists_last
  rw [paint_eq_ok_iff_forall (fun t ht y x => pixel_decides ready (feeds t ht) hrefusal h.depth)
    (.refl b) hlast]
  constructor
  · rintro hall t ht x y ⟨last', hlast', hrow, hcolumn⟩
    cases hlast.symm.trans hlast'
    exact hall t ht y hrow x hcolumn
  · intro hall t ht y hrow x hcolumn
    exact hall t ht x y ⟨last, hlast, hrow, hcolumn⟩

end Band

namespace Target

variable {t : Target} {bandRows length : UInt64}

/-- The place of a pixel among the texels of the target, row after row. -/
def place (t : Target) (x y : UInt32) : Nat := y.toNat * t.width.toNat + x.toNat

/-- The band is a piece of the target, and within the piece it has a pixel at the place of that very
pixel of the target. -/
def Shares (t : Target) (b : Band) (x y : UInt32) : Prop :=
  ∃ first last, b.color = Storage.texels t.color first last ∧
    (b.depth = t.depth.map fun depth => Storage.texels depth first last) ∧
      first + b.index x y = t.place x y ∧ t.place x y < last ∧ 4 * last ≤ t.color.size

/-- A pixel that the band shares has its bytes there. -/
lemma Shares.lt_size (h : t.Shares b x y) : 4 * b.index x y + 3 < b.color.size := by
  obtain ⟨first, last, hcolor, -, hindex, hlt, hle⟩ := h
  rw [hcolor, Storage.size_texels first hle]
  omega

/-! ### The bands of any setting -/

/-- A band that holds its rows of the target, or too few rows and all bytes. -/
def HasBand (t : Target) (b : Band) : Prop :=
  b.IsPartOf t.whole ∨ ∃ rows, rows < t.height ∧ b = { t.whole with rows }

/-- The bands of a target hold their rows, or there is one that has too few. -/
lemma Complete.hasBand_of_bands (h : t.Complete) {bands : List Band}
    (hbands : t.bands bandRows = .ok bands) (hb : b ∈ bands) : t.HasBand b := by
  obtain ⟨length, hlength, -, rfl⟩ := h.bands_eq_ok.1 hbands
  by_cases hrows : t.CountsRows bandRows
  · obtain ⟨i, hi, rfl⟩ := List.mem_map.1 hb
    exact .inl (h.isPartOf hrows hlength (List.mem_range.1 hi))
  · obtain ⟨hlt, hone⟩ := h.bands_of_not_countsRows hlength hrows
    rw [Except.ok.inj ((h.bands_eq hlength).symm.trans hone), List.mem_singleton] at hb
    obtain rfl := hb
    exact .inr ⟨_, hlt, rfl⟩

lemma Complete.roomy_whole (h : t.Complete) {rows : UInt32} (hrows : rows < t.height) :
    Band.Roomy { t.whole with rows } := by
  have hlt := t.height.toNat_lt_size
  rw [UInt32.lt_iff_toNat_lt] at hrows
  refine ⟨?_, ?_, h.depth⟩
  · simp only [whole, UInt32.toNat_zero]
    omega
  · simp only [whole, h.color]
    exact Nat.mul_le_mul_left 4 (Nat.mul_le_mul_right _ hrows.le)

lemma Complete.roomy_of_hasBand (h : t.Complete) (hb : t.HasBand b) :
    b.Roomy ∧ b.width = t.width ∧ b.y₀.toNat + b.rows.toNat ≤ t.height.toNat := by
  rcases hb with hpart | ⟨rows, hrows, rfl⟩
  · exact ⟨hpart.sized.roomy, hpart.width, hpart.rows⟩
  · have hroomy := h.roomy_whole hrows
    rw [UInt32.lt_iff_toNat_lt] at hrows
    exact ⟨hroomy, rfl, by simp only [whole, UInt32.toNat_zero]; omega⟩

/-! ### Pixels -/

lemma index_whole : t.whole.index x y = t.place x y := by
  simp [Band.index, place, whole]

/-- A band has the bytes of the pixels of its rows. -/
lemma Complete.shares (h : t.Complete) (hb : t.HasBand b) (hfirst : b.y₀ ≤ y)
    (hlast : y.toNat < b.y₀.toNat + b.rows.toNat) (hx : x < t.width) (hy : y < t.height) :
    t.Shares b x y := by
  -- a band is a part of the target, or the first rows of it under a count of rows that wrapped
  rcases hb with hpart | ⟨rows, -, rfl⟩
  · obtain ⟨hindex, hi⟩ := hpart.first_add_index hfirst hlast hx
    rw [index_whole] at hindex
    exact ⟨b.first, b.last, hpart.color, hpart.depth, hindex, hindex ▸ hi, hpart.last_le⟩
  · have hall : ∀ data : ByteArray, data.size = t.color.size →
        data = Storage.texels data 0 (t.height.toNat * t.width.toNat) := by
      intro data hdata
      rw [Storage.texels, ← h.color, ← hdata, Nat.mul_zero, ByteArray.extract_zero_size]
    have hdepth : t.depth =
        t.depth.map fun depth => Storage.texels depth 0 (t.height.toNat * t.width.toNat) := by
      cases hd : t.depth with
      | none => rfl
      | some depth => exact congrArg some (hall depth (h.depth depth hd))
    have hplace := Band.mul_add_lt (UInt32.lt_iff_toNat_lt.1 hy) (UInt32.lt_iff_toNat_lt.1 hx)
    refine ⟨0, _, hall t.color rfl, hdepth, ?_, hplace, h.color.ge⟩
    rw [Nat.zero_add]
    exact index_whole

/-- A band is painted at pixels of its rows, as far as the triangle reaches. -/
lemma Complete.visits (h : t.Complete) {tri : Triangle Binary32}
    {v : Corners (ShadedVertex Binary32)} (htri : Triangle.ofVertices v t.width t.height = some tri)
    (hb : t.HasBand b) (hvisits : b.Visits tri x y) :
    x < Triangle.reach t.width ∧ y < t.height ∧ (x < t.width → t.Shares b x y) := by
  obtain ⟨last, hadd, hrow, hcolumn⟩ := hvisits
  obtain ⟨-, -, hheight⟩ := h.roomy_of_hasBand hb
  obtain ⟨-, hfirst, hbelow⟩ := Triangle.mem_rowsWithin.1 hrow
  have hlast : y.toNat < b.y₀.toNat + b.rows.toNat := by
    rw [← Checked.add32?_eq_some.1 hadd]
    exact UInt32.lt_iff_toNat_lt.1 hbelow
  have hy : y < t.height := UInt32.lt_iff_toNat_lt.2 (hlast.trans_le hheight)
  exact ⟨Triangle.lt_reach_of_mem_columns htri hcolumn, hy,
    fun hx => h.shares hb hfirst hlast hx hy⟩

/-- Painting succeeds if all bands have enough bytes, and otherwise it is aborted. -/
lemma Complete.paint_eq_ok_iff (h : t.Complete) (ready : s.Ready)
    (feeds : ∀ t ∈ ts, t.Feeds s.varyingWidth) (hrefusal : s.refusal? = none) {bands : List Band}
    (hbands : t.bands bandRows = .ok bands) :
    ((paint s ts bandRows t).2 = .ok () ↔ ∀ b ∈ bands, b.Suffices ts) ∧
      ((paint s ts bandRows t).2 = .error .aborted ↔ ∃ b ∈ bands, ¬b.Suffices ts) := by
  have hall : PaintsAll s ts (paintBands s ts .new) bands := paintBands_paintsAll .new bands
  have hband : ∀ b ∈ bands, (Band.paint s ts b).2 = .ok () ↔ b.Suffices ts := by
    intro b hb
    obtain ⟨hroomy, -⟩ := h.roomy_of_hasBand (h.hasBand_of_bands hbands hb)
    exact Band.paint_eq_ok_iff_suffices ready feeds hrefusal hroomy
  have hresult : (paint s ts bandRows t).2 = (paintBands s ts .new bands).2 := by
    rw [paint_eq_onBands, onBands, hbands]
  have hok : (paintBands s ts .new bands).2 = .ok () ↔ ∀ b ∈ bands, b.Suffices ts := by
    rw [← forall₂_congr hband]
    exact ⟨hall.ok, fun hok => congrArg Prod.snd (hall.of_ok hok)⟩
  rw [hresult]
  refine ⟨hok, ?_⟩
  have hsome : (∃ b ∈ bands, ¬b.Suffices ts) ↔ ¬∀ b ∈ bands, b.Suffices ts := by
    simp only [not_forall, exists_prop]
  rw [hsome, ← hok]
  rcases hpaint : (paintBands s ts .new bands).2 with fault | _
  · obtain ⟨b, -, hfault⟩ := hall.error fault hpaint
    simp [(Band.paint_of_no_refusal ready feeds hrefusal b).2 fault hfault]
  · simp

/-- Within the columns of the target, no band runs out of bytes. -/
lemma Complete.paint_ne_aborted (h : t.Complete) (ready : s.Ready)
    (feeds : ∀ t ∈ ts, t.Feeds s.varyingWidth)
    (hcolumns : ∀ tri ∈ ts, ∀ x ∈ tri.columns, x < t.width) {bands : List Band}
    (hbands : t.bands bandRows = .ok bands) : (paint s ts bandRows t).2 ≠ .error .aborted := by
  intro haborted
  rw [paint_eq_onBands, onBands, hbands] at haborted
  obtain ⟨b, hb, hfault⟩ := (paintBands_paintsAll .new bands).error _ haborted
  obtain ⟨hroomy, hwidth, -⟩ := h.roomy_of_hasBand (h.hasBand_of_bands hbands hb)
  rw [← hwidth] at hcolumns
  obtain ⟨e, -, hrefused⟩ := hroomy.paint_eq_error ready feeds hcolumns hfault
  cases hrefused

/-! ### Targets of any size -/

/-- Triangles have pixels to look at, up to the nearest number of 24 binary digits to the number of
columns. All of them lie in rows of the target, and a pixel that lies in one of its columns is
painted in its own bytes, whatever the setting of the bands. Painting is never aborted where
triangles do not reach beyond the columns, as on targets of at most `2 ^ 24` columns; elsewhere it
is aborted if a pixel that shows a triangle has no bytes in its band. -/
theorem Complete.paints_within (h : t.Complete) (ready : s.Ready)
    (hts : ∀ tri ∈ ts, ∃ v, Triangle.ofVertices v t.width t.height = some tri ∧
      v.all fun v => s.varyingWidth ≤ v.varyings.size) :
    (Triangle.reach t.width).toNat = min (Binary32.nearest t.width.toNat) (UInt32.size - 1) ∧
      (t.width.toNat ≤ 2 ^ 24 → Triangle.reach t.width = t.width) ∧
      (∀ tri ∈ ts,
        (tri.bounds.minX < tri.bounds.maxX ∧ tri.bounds.maxX ≤ Triangle.reach t.width) ∧
          tri.bounds.minY < tri.bounds.maxY ∧ tri.bounds.maxY ≤ Triangle.reach t.height) ∧
      ∀ bandRows bands, t.bands bandRows = .ok bands →
        (∀ b ∈ bands, ∀ tri ∈ ts, ∀ x y, b.Visits tri x y →
          x < Triangle.reach t.width ∧ y < t.height ∧ (x < t.width → t.Shares b x y)) ∧
        (Triangle.reach t.width ≤ t.width → (paint s ts bandRows t).2 ≠ .error .aborted) ∧
        (s.refusal? = none →
          ((paint s ts bandRows t).2 = .ok () ↔ ∀ b ∈ bands, b.Suffices ts) ∧
            ((paint s ts bandRows t).2 = .error .aborted ↔ ∃ b ∈ bands, ¬b.Suffices ts)) := by
  have feeds : ∀ tri ∈ ts, tri.Feeds s.varyingWidth := by
    intro tri htri
    obtain ⟨v, hv, hvaryings⟩ := hts tri htri
    exact Triangle.feeds_of_ofVertices hv hvaryings
  refine ⟨Triangle.toNat_reach _, Triangle.reach_of_le, ?_, ?_⟩
  · intro tri htri
    obtain ⟨v, hv, -⟩ := hts tri htri
    obtain ⟨hcolumns, hwidth, hrows, hheight⟩ := Triangle.bounds_of_ofVertices hv
    exact ⟨⟨hcolumns, hwidth⟩, hrows, hheight⟩
  · intro bandRows bands hbands
    refine ⟨?_, ?_, fun hrefusal => h.paint_eq_ok_iff ready feeds hrefusal hbands⟩
    · intro b hb tri htri x y hvisits
      obtain ⟨v, hv, -⟩ := hts tri htri
      exact h.visits hv (h.hasBand_of_bands hbands hb) hvisits
    · intro hreach
      refine h.paint_ne_aborted ready feeds ?_ hbands
      intro tri htri x hx
      obtain ⟨v, hv, -⟩ := hts tri htri
      exact UInt32.lt_of_lt_of_le (Triangle.lt_reach_of_mem_columns hv hx) hreach

/-- The triangle over the screen of one pixel reaches its one column, and is painted. -/
theorem paints_within_onePixel :
    (∀ tri ∈ screenOfOne, tri.bounds.maxX ≤ 1) ∧
      (paint greenStage screenOfOne 1 onePixel).2 = .ok () := by
  have hts : ∀ tri ∈ screenOfOne, ∃ v,
      Triangle.ofVertices v onePixel.width onePixel.height = some tri ∧
        v.all fun v => greenStage.varyingWidth ≤ v.varyings.size := by
    intro tri htri
    rw [screenOfOne, Option.mem_toList] at htri
    exact ⟨_, htri, by decide⟩
  obtain ⟨-, hwidth, hbounds, hpaint⟩ := onePixel_complete.paints_within greenStage_ready hts
  have hreach : Triangle.reach onePixel.width = 1 := hwidth (by decide)
  rw [hreach] at hbounds hpaint
  refine ⟨fun tri htri => (hbounds tri htri).1.2, ?_⟩
  obtain ⟨length, hlength⟩ : ∃ length, onePixel.bandLength? 1 = some length :=
    exists_bandLength?_iff.2 (by decide +kernel)
  obtain ⟨hvisits, -, hiff⟩ := hpaint 1 _ (onePixel_complete.bands_eq hlength)
  rw [(hiff (by decide)).1]
  intro b hb tri htri x y hvisit _
  obtain ⟨hx, -, hshares⟩ := hvisits b hb tri htri x y hvisit
  exact (hshares hx).lt_size

/-! ### A column too many -/

/-- A target of one row, whose number of columns is rounded up. -/
def wideTarget : Target := ⟨16777219, Storage.zeroed 67108876, none⟩

lemma wideTarget_size : wideTarget.color.size = 67108876 := by
  rw [wideTarget, Storage.size_zeroed]

lemma wideTarget_width : wideTarget.width.toNat = 16777219 := rfl

lemma wideTarget_height : wideTarget.height = 1 := by
  rw [height, wideTarget_size, wideTarget_width]
  decide

lemma wideTarget_complete : wideTarget.Complete where
  width := by rw [wideTarget_width]; decide
  depth := by rintro _ ⟨⟩
  color := by
    rw [wideTarget_size, wideTarget_width, wideTarget_height]
    decide

/-- Vertices at the right edge of the screen and beyond. -/
def edgeVertices : Corners (ShadedVertex Binary32) :=
  ⟨plainVertex ⟨0x3f7ffffc⟩ (-.one), plainVertex ⟨0x40400000⟩ (-.one),
    plainVertex ⟨0x3f7ffffc⟩ ⟨0x40400000⟩⟩

/-- In bands of one row, the wide target is one band. -/
lemma wideTarget_bands :
    ∃ b, wideTarget.bands 1 = .ok [b] ∧ b.y₀ = 0 ∧ b.rows = 1 ∧ b.width = wideTarget.width ∧
      b.color.size ≤ 67108876 := by
  obtain ⟨length, hlength⟩ : ∃ length, wideTarget.bandLength? 1 = some length :=
    exists_bandLength?_iff.2 (by rw [wideTarget_width]; decide)
  have hcount : wideTarget.bandCount length = 1 := by
    rw [bandCount, length_pieces, bandLength?_eq_some.1 hlength, wideTarget_size, wideTarget_width]
    simp [toNat_rowsPerBand]
  refine ⟨wideTarget.part 1 length 0, ?_, by simp [part], ?_, rfl, ?_⟩
  · rw [wideTarget_complete.bands_eq hlength, parts, hcount]
    rfl
  · simp only [part, wideTarget_height, Nat.zero_mul]
    decide
  · simp [part, ByteArray.size_extract, wideTarget_size]

/-- The triangle at the right edge reaches one column too far, to where no bytes are left, and
painting it is aborted. -/
theorem not_within_wideTarget :
    ∃ tri, Triangle.ofVertices edgeVertices wideTarget.width wideTarget.height = some tri ∧
      wideTarget.width < tri.bounds.maxX ∧
        (∃ b, wideTarget.bands 1 = .ok [b] ∧ b.Visits tri wideTarget.width 0) ∧
          (paint greenStage [tri] 1 wideTarget).2 = .error .aborted := by
  have hedge : (Triangle.ofVertices edgeVertices 16777219 1).any fun tri =>
      decide (tri.bounds.minX ≤ 16777219 ∧ 16777219 < tri.bounds.maxX ∧
        tri.bounds.minY = 0 ∧ 0 < tri.bounds.maxY) && (tri.fragment? 16777219 0).isSome := by
    decide +kernel
  obtain ⟨tri, htri, hfacts⟩ := Option.any_eq_true _ _ |>.1 hedge
  simp only [Bool.and_eq_true, decide_eq_true_eq] at hfacts
  obtain ⟨⟨hminX, hmaxX, hminY, hmaxY⟩, hfragment⟩ := hfacts
  obtain ⟨b, hbands, hy₀, hrows, hwidth, hsize⟩ := wideTarget_bands
  have hvisits : b.Visits tri 16777219 0 := by
    refine ⟨1, by rw [hy₀, hrows]; decide, ?_, Triangle.mem_columns.2 ⟨hminX, hmaxX⟩⟩
    rw [Triangle.mem_rowsWithin, hminY, hy₀]
    exact ⟨⟨by decide, hmaxY⟩, by decide, by decide⟩
  have hfew : ¬b.Suffices [tri] := by
    intro hsuffices
    have hlt := hsuffices tri (by simp) _ _ hvisits hfragment
    have hindex : b.index 16777219 0 = 16777219 := by
      simp [Band.index]
    omega
  have hfeeds : ∀ t ∈ [tri], t.Feeds greenStage.varyingWidth := by
    simp [greenStage, Triangle.Feeds]
  refine ⟨tri, by rw [wideTarget_height]; exact htri, hmaxX, ⟨b, hbands, hvisits⟩, ?_⟩
  rw [(wideTarget_complete.paint_eq_ok_iff greenStage_ready hfeeds (by decide) hbands).2]
  exact ⟨b, by simp, hfew⟩

end Target

end GraphicsPipeline
