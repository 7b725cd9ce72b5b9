import GraphicsPipeline.Proofs.Raster.Banding

/-!
# Settings that partition a target

The bands of a target should lie one below the other, from its first row to its last, each with the
bytes of its rows (`Band.Tiles`). They do where the length of a band is a 64-bit word and the bands
count their rows (`Target.Fits`), and nowhere else: a longer band has no length, and a band that
counts fewer rows than it has bytes for is the only one, so the rows below are lost
(`Target.Complete.partitioned_iff`).
-/

namespace GraphicsPipeline

/-- From row `y` on, bands hold the rows of the whole, one band below the other down to the last
row, and none of them is empty. -/
def Band.Tiles (whole : Band) : Nat → List Band → Prop
  | y, [] => y = whole.rows.toNat
  | y, b :: rest =>
    b.y₀.toNat = y ∧ 0 < b.rows.toNat ∧ b.IsPartOf whole ∧ Tiles whole (y + b.rows.toNat) rest

namespace Target

variable {s : FragmentStage} {ts : List (Triangle Binary32)} {t : Target}
  {bandRows length : UInt64}

/-- Bands have a length, and they partition the target. -/
def Partitioned (t : Target) (bandRows : UInt64) : Prop :=
  ∃ length bands, t.bandLength? bandRows = some length ∧ 0 < length.toNat ∧
    t.bands bandRows = .ok bands ∧ t.whole.Tiles 0 bands

/-- The length of a band is a 64-bit word, and bands count their rows. -/
def Fits (t : Target) (bandRows : UInt64) : Prop :=
  t.width.toNat * 4 * (rowsPerBand bandRows).toNat < 2 ^ 64 ∧ t.CountsRows bandRows

/-- Bands of at most `2 ^ 30` rows fit every target. -/
lemma fits_of_le (t : Target) (h : bandRows.toNat ≤ 2 ^ 30) : t.Fits bandRows := by
  have hband := toNat_rowsPerBand bandRows
  have hwidth := t.width.toNat_lt_size
  rw [UInt32.size] at hwidth
  refine ⟨?_, countsRows_of_lt (by omega)⟩
  calc t.width.toNat * 4 * (rowsPerBand bandRows).toNat
      ≤ t.width.toNat * 4 * 2 ^ 30 := Nat.mul_le_mul_left _ (by omega)
    _ < 2 ^ 64 := by omega

lemma not_countsRows : ¬t.CountsRows bandRows ↔
    2 ^ 32 ≤ (rowsPerBand bandRows).toNat ∧
      (rowsPerBand bandRows).toNat % 2 ^ 32 < t.height.toNat := by
  rw [CountsRows, not_or, not_lt, not_le]

/-! ### Bands that count their rows -/

/-- From any band on, the parts of the target hold the rows that are left. -/
lemma Complete.tiles_parts (h : t.Complete) (hrows : t.CountsRows bandRows)
    (hlength : t.bandLength? bandRows = some length) {n i : Nat}
    (hn : i + n = t.bandCount length) :
    t.whole.Tiles (min (i * (rowsPerBand bandRows).toNat) t.height.toNat)
      ((List.range' i n).map (t.part bandRows length)) := by
  -- by induction on the bands that are left, where the next one starts at row `i`
  induction n generalizing i with
  | zero =>
    have hheight := h.height_le hlength
    obtain rfl : i = t.bandCount length := by omega
    exact min_eq_right hheight
  | succ n ih =>
    have hi : i < t.bandCount length := by omega
    have hstart := h.start_lt hlength hi
    have hband := rowsPerBand_pos bandRows
    have hcount := h.toNat_rows hrows hlength hi
    have hnext : min (i * (rowsPerBand bandRows).toNat) t.height.toNat +
        (t.part bandRows length i).rows.toNat =
          min ((i + 1) * (rowsPerBand bandRows).toNat) t.height.toNat := by
      rw [hcount, Nat.add_mul, Nat.one_mul]
      omega
    rw [List.range'_succ, List.map_cons]
    refine ⟨?_, ?_, h.isPartOf hrows hlength hi, ?_⟩
    · rw [h.toNat_y₀ hlength hi]
      exact (min_eq_left hstart.le).symm
    · rw [hcount]
      omega
    · rw [hnext]
      exact ih (by omega)

/-- Where they fit, the bands partition the target. -/
theorem Complete.partitioned_of_fits (h : t.Complete) (hfits : t.Fits bandRows) :
    t.Partitioned bandRows := by
  obtain ⟨length, hlength⟩ := exists_bandLength?_iff.2 hfits.1
  have htiles := h.tiles_parts hfits.2 hlength (Nat.zero_add _)
  rw [Nat.zero_mul, Nat.zero_min, ← List.range_eq_range'] at htiles
  exact ⟨length, _, hlength, h.length_pos hlength, h.bands_eq hlength, htiles⟩

/-- Where they fit, the bands show what one pass shows, and painting is not aborted. -/
theorem Complete.paint_of_fits (h : t.Complete) (hfits : t.Fits bandRows) (ready : s.Ready)
    (feeds : ∀ t ∈ ts, t.Feeds s.varyingWidth)
    (hcolumns : ∀ tri ∈ ts, ∀ x ∈ tri.columns, x < t.width) :
    paint s ts bandRows t = paintWhole s ts t ∧ (paint s ts bandRows t).2 ≠ .error .aborted := by
  obtain ⟨length, hlength⟩ := exists_bandLength?_iff.2 hfits.1
  have hwhole : paint s ts bandRows t = paintWhole s ts t := by
    rw [paint_eq_onBands]
    exact h.onBands_eq_paintWhole ready feeds hcolumns hfits.2 hlength (paintBands_paintsEach .new)
      (paintBands_paintsAll .new _)
  refine ⟨hwhole, ?_⟩
  rw [hwhole]
  exact h.paintWhole_ne_aborted ready feeds hcolumns

/-! ### Bands that do not fit -/

/-- Bands that are too long are not made. -/
lemma bands_of_le (h : 2 ^ 64 ≤ t.width.toNat * 4 * (rowsPerBand bandRows).toNat) :
    t.bands bandRows = .error .aborted := by
  have hnone : t.bandLength? bandRows = none := by
    rw [Option.eq_none_iff_forall_ne_some]
    intro length hlength
    exact absurd (exists_bandLength?_iff.1 ⟨length, hlength⟩) (by omega)
  rw [bands, hnone]
  rfl

/-- A band of `2 ^ 32` rows or more is the only one. -/
lemma Complete.bandCount_eq_one (h : t.Complete) (hheight : 0 < t.height.toNat)
    (hlength : t.bandLength? bandRows = some length)
    (hrows : 2 ^ 32 ≤ (rowsPerBand bandRows).toNat) :
    t.color.size ≤ length.toNat ∧ t.bandCount length = 1 := by
  have hwidth := h.width
  have hlt := t.height.toNat_lt_size
  rw [UInt32.size] at hlt
  have hpos : 0 < t.color.size := by
    rw [h.color]
    exact Nat.mul_pos (by decide) (Nat.mul_pos hheight hwidth)
  have hle : t.color.size ≤ length.toNat := by
    rw [h.color, bandLength?_eq_some.1 hlength]
    calc 4 * (t.height.toNat * t.width.toNat) = t.width.toNat * 4 * t.height.toNat := by ring
      _ ≤ t.width.toNat * 4 * (rowsPerBand bandRows).toNat := Nat.mul_le_mul_left _ (by omega)
  refine ⟨hle, ?_⟩
  rw [bandCount, length_pieces]
  exact Nat.div_eq_of_lt_le (by omega) (by omega)

/-- Bands that do not count their rows are a single one, which has too few. -/
lemma Complete.bands_of_not_countsRows (h : t.Complete)
    (hlength : t.bandLength? bandRows = some length) (hrows : ¬t.CountsRows bandRows) :
    (rowsPerBand bandRows).toUInt32 < t.height ∧
      t.bands bandRows = .ok [{ t.whole with rows := (rowsPerBand bandRows).toUInt32 }] := by
  obtain ⟨hmany, hfew⟩ := not_countsRows.1 hrows
  obtain ⟨hsize, hcount⟩ := h.bandCount_eq_one (by omega) hlength hmany
  have hlt : (rowsPerBand bandRows).toUInt32 < t.height := by
    rwa [UInt32.lt_iff_toNat_lt, UInt64.toNat_toUInt32]
  have hrest : min (rowsPerBand bandRows).toUInt32 t.height = (rowsPerBand bandRows).toUInt32 := by
    rw [← UInt32.toNat_inj, UInt32.toNat_min]
    exact Nat.min_eq_left (UInt32.lt_iff_toNat_lt.1 hlt).le
  -- the one band has the bytes of all rows, though it counts only some of them
  have hall : ∀ data : ByteArray, data.size = t.color.size →
      data.extract 0 length.toNat = data := by
    intro data hdata
    rw [← extract_min, min_eq_right (hdata.trans_le hsize), ByteArray.extract_zero_size]
  have hdepth : (t.depth.map fun d => d.extract 0 length.toNat) = t.depth := by
    cases hd : t.depth with
    | none => rfl
    | some d => exact congrArg some (hall d (h.depth d hd))
  refine ⟨hlt, ?_⟩
  rw [h.bands_eq hlength, parts, hcount]
  simp [part, whole, hall, hdepth, hrest]

/-- Bands that do not fit do not partition the target. -/
lemma Complete.fits_of_partitioned (h : t.Complete) (hparts : t.Partitioned bandRows) :
    t.Fits bandRows := by
  obtain ⟨length, bands, hlength, -, hbands, htiles⟩ := hparts
  refine ⟨exists_bandLength?_iff.1 ⟨length, hlength⟩, ?_⟩
  -- otherwise the only band ends above the last row
  by_contra hrows
  obtain ⟨hlt, hone⟩ := h.bands_of_not_countsRows hlength hrows
  cases hone.symm.trans hbands
  obtain ⟨-, -, -, hend⟩ := htiles
  simp only [Band.Tiles, whole] at hend
  rw [UInt32.lt_iff_toNat_lt] at hlt
  omega

/-! ### All settings -/

/-- The bands partition a target exactly where they fit, and then painting them shows what one pass
shows. Bands that are too long abort. Where bands do not count their rows, there is only one, and it
has the bytes of all rows but is painted down to the rows it counts. -/
theorem Complete.partitioned_iff (h : t.Complete) (bandRows : UInt64) :
    (t.Partitioned bandRows ↔ t.Fits bandRows) ∧
      (bandRows.toNat ≤ 2 ^ 30 → t.Fits bandRows) ∧
      (t.Fits bandRows → ∀ (s : FragmentStage) (ts : List (Triangle Binary32)), s.Ready →
        (∀ t ∈ ts, t.Feeds s.varyingWidth) → (∀ tri ∈ ts, ∀ x ∈ tri.columns, x < t.width) →
          paint s ts bandRows t = paintWhole s ts t ∧
            (paint s ts bandRows t).2 ≠ .error .aborted) ∧
      (2 ^ 64 ≤ t.width.toNat * 4 * (rowsPerBand bandRows).toNat →
        t.bands bandRows = .error .aborted) ∧
      (t.width.toNat * 4 * (rowsPerBand bandRows).toNat < 2 ^ 64 → ¬t.CountsRows bandRows →
        (rowsPerBand bandRows).toUInt32 < t.height ∧
          t.bands bandRows = .ok [{ t.whole with rows := (rowsPerBand bandRows).toUInt32 }]) := by
  refine ⟨⟨h.fits_of_partitioned, h.partitioned_of_fits⟩, t.fits_of_le, ?_, bands_of_le, ?_⟩
  · intro hfits s ts ready feeds hcolumns
    exact h.paint_of_fits hfits ready feeds hcolumns
  · intro hlength hrows
    obtain ⟨length, hlength⟩ := exists_bandLength?_iff.2 hlength
    exact h.bands_of_not_countsRows hlength hrows

/-! ### One pixel -/

/-- A stage that shows green everywhere. -/
def greenStage : FragmentStage where
  program := ⟨[], [.vec4], none, 1, [.constVec4 0 ⟨.zero, .one, .zero, .one⟩, .store 0 0]⟩
  bindings := ⟨none, none⟩
  varyingWidth := 0

lemma greenStage_ready : greenStage.Ready where
  accepted := by decide +kernel
  floats := by simp [greenStage]
  width := rfl
  outputs := by decide
  sampler := by simp [greenStage]

/-- A vertex in the middle of the depths. -/
def plainVertex (x y : Binary32) : ShadedVertex Binary32 := ⟨⟨x, y, ⟨0x3f000000⟩, .one⟩, #[]⟩

/-- A triangle over the whole screen of one pixel. -/
def screenOfOne : List (Triangle Binary32) :=
  (Triangle.ofVertices ⟨plainVertex (-.one) (-.one), plainVertex ⟨0x40400000⟩ (-.one),
    plainVertex (-.one) ⟨0x40400000⟩⟩ 1 1).toList

/-- A target of one pixel. -/
def onePixel : Target := ⟨1, Storage.zeroed 4, none⟩

lemma onePixel_complete : onePixel.Complete where
  width := by decide
  depth := by simp [onePixel]
  color := by decide +kernel

/-- Bands of no rows count as bands of one row, and show the triangle on the one pixel. -/
theorem partitioned_iff_onePixel :
    onePixel.Partitioned 0 ∧ screenOfOne.length = 1 ∧
      (paint greenStage screenOfOne 0 onePixel).1.color = Storage.ofBytes [0, 255, 0, 255] := by
  obtain ⟨hiff, hle, hpaint, -⟩ := onePixel_complete.partitioned_iff 0
  have hfits : onePixel.Fits 0 := hle (by decide)
  have hts : ∀ tri ∈ screenOfOne,
      tri.Feeds greenStage.varyingWidth ∧ ∀ x ∈ tri.columns, x < onePixel.width := by
    intro tri htri
    rw [screenOfOne, Option.mem_toList] at htri
    exact ⟨Triangle.feeds_of_ofVertices htri (by decide),
      fun x => Triangle.lt_of_mem_columns htri (by decide)⟩
  obtain ⟨hwhole, -⟩ := hpaint hfits greenStage screenOfOne greenStage_ready
    (fun tri htri => (hts tri htri).1) (fun tri htri => (hts tri htri).2)
  refine ⟨hiff.2 hfits, by decide +kernel, ?_⟩
  rw [hwhole]
  decide +kernel

/-- Bands of `2 ^ 32` rows do not partition one pixel: nothing is painted, though one pass shows the
triangle. -/
theorem not_partitioned_onePixel :
    onePixel.Complete ∧ onePixel.height = 1 ∧ ¬onePixel.Partitioned 0x100000000 ∧
      (paint greenStage screenOfOne 0x100000000 onePixel).1.color = onePixel.color ∧
        (paintWhole greenStage screenOfOne onePixel).1.color =
          Storage.ofBytes [0, 255, 0, 255] := by
  refine ⟨onePixel_complete, by decide +kernel, ?_, by decide +kernel, by decide +kernel⟩
  intro hparts
  obtain ⟨-, hrows⟩ := onePixel_complete.fits_of_partitioned hparts
  exact not_countsRows.2 (by decide +kernel) hrows

end Target

end GraphicsPipeline
