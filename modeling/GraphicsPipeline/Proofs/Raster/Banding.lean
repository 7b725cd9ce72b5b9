import GraphicsPipeline.Proofs.Raster.Bands
import GraphicsPipeline.Proofs.Raster.Part

/-!
# Banding never shows

The bands of a target are parts of the target as one band. Where the whole target can be painted in
one pass, the bands show their rows of what one pass shows, and make it up. Where one pass refuses,
so do the bands, and nothing was changed. The number of rows in a band and the order of the bands do
not matter (`Target.Complete.onBands_eq_paintWhole`).
-/

namespace GraphicsPipeline

namespace Target

variable {s : FragmentStage} {ts : List (Triangle Binary32)} {t : Target}
  {bandRows length : UInt64} {i : Nat}

/-! ### The bands of a target -/

/-- The target has the colour of all pixels, and the depth where depth is tested. -/
structure Complete (t : Target) : Prop extends t.Sized where
  color : t.color.size = 4 * (t.height.toNat * t.width.toNat)

lemma Complete.full (h : t.Complete) : t.whole.Full where
  rows := by simpa [whole] using t.height.toNat_lt_size
  color := h.color
  depth := h.depth
  y₀ := rfl

/-- The bands count the rows they have, though they count modulo the size of a 32-bit word: they are
small enough, or the whole target is one band. -/
def CountsRows (t : Target) (bandRows : UInt64) : Prop :=
  (rowsPerBand bandRows).toNat < 2 ^ 32 ∨ t.height.toNat ≤ (rowsPerBand bandRows).toNat % 2 ^ 32

lemma countsRows_of_lt (h : bandRows.toNat < 2 ^ 32) : t.CountsRows bandRows := by
  have hband := toNat_rowsPerBand bandRows
  exact .inl (by omega)

lemma exists_bandLength?_iff : (∃ length, t.bandLength? bandRows = some length) ↔
    t.width.toNat * 4 * (rowsPerBand bandRows).toNat < 2 ^ 64 := by
  simp only [bandLength?_eq_some]
  constructor
  · rintro ⟨length, hlength⟩
    exact hlength ▸ length.toNat_lt
  · intro h
    exact ⟨UInt64.ofNat _, UInt64.toNat_ofNat_of_lt' h⟩

/-- Bands of fewer than `2 ^ 32` rows have a length, where rows are not too long. -/
lemma exists_bandLength? (hwidth : t.width.toNat ≤ 2 ^ 24) (hrows : bandRows.toNat < 2 ^ 32) :
    ∃ length, t.bandLength? bandRows = some length := by
  have hband := toNat_rowsPerBand bandRows
  have hle : t.width.toNat * 4 * (rowsPerBand bandRows).toNat ≤ 2 ^ 24 * 4 * 2 ^ 32 :=
    Nat.mul_le_mul (by omega) (by omega)
  exact exists_bandLength?_iff.2 (by omega)

/-- Bands start within the target. -/
lemma Complete.start_lt (h : t.Complete) (hlength : t.bandLength? bandRows = some length)
    (hi : i < t.bandCount length) :
    i * (rowsPerBand bandRows).toNat < t.height.toNat := by
  have hstart := lt_of_lt_length_pieces (h.length_pos hlength) hi
  rw [bandLength?_eq_some.1 hlength, h.color] at hstart
  refine Nat.lt_of_mul_lt_mul_left (a := 4 * t.width.toNat) ?_
  calc 4 * t.width.toNat * (i * (rowsPerBand bandRows).toNat)
      = i * (t.width.toNat * 4 * (rowsPerBand bandRows).toNat) := by ring
    _ < 4 * (t.height.toNat * t.width.toNat) := hstart
    _ = 4 * t.width.toNat * t.height.toNat := by ring

lemma Complete.toNat_y₀ (h : t.Complete) (hlength : t.bandLength? bandRows = some length)
    (hi : i < t.bandCount length) :
    (t.part bandRows length i).y₀.toNat = i * (rowsPerBand bandRows).toNat := by
  have hstart := h.start_lt hlength hi
  have hlt := t.height.toNat_lt_size
  rw [UInt32.size] at hlt
  rw [part, UInt32.toNat_ofNat']
  omega

lemma Complete.toNat_rows (h : t.Complete) (hrows : t.CountsRows bandRows)
    (hlength : t.bandLength? bandRows = some length)
    (hi : i < t.bandCount length) :
    (t.part bandRows length i).rows.toNat =
      min (rowsPerBand bandRows).toNat (t.height.toNat - i * (rowsPerBand bandRows).toNat) := by
  have hstart := h.start_lt hlength hi
  have hy₀ := h.toNat_y₀ hlength hi
  simp only [part] at hy₀ ⊢
  rw [UInt32.toNat_min, UInt64.toNat_toUInt32, UInt32.toNat_sub_of_le, hy₀]
  · rcases hrows with hrows | hrows <;> omega
  · rw [UInt32.le_iff_toNat_le, hy₀]
    exact hstart.le

lemma extract_min {data : ByteArray} {start stop : Nat} :
    data.extract start (min stop data.size) = data.extract start stop := by
  refine ByteArray.ext_getElem (by simp [ByteArray.size_extract]) fun k hk hk' => ?_
  rw [ByteArray.getElem_extract, ByteArray.getElem_extract]

/-- A band holds its rows of the target. -/
theorem Complete.isPartOf (h : t.Complete) (hrows : t.CountsRows bandRows)
    (hlength : t.bandLength? bandRows = some length)
    (hi : i < t.bandCount length) :
    (t.part bandRows length i).IsPartOf t.whole := by
  have hstart := h.start_lt hlength hi
  have hy₀ := h.toNat_y₀ hlength hi
  have hheight := h.toNat_rows hrows hlength hi
  have hfirst : i * length.toNat = 4 * (t.part bandRows length i).first := by
    rw [Band.first, hy₀, bandLength?_eq_some.1 hlength]
    simp only [part]
    ring
  -- only the last band may be cut short, by the end of the target
  have hlast : min ((i + 1) * length.toNat) t.color.size =
      4 * (t.part bandRows length i).last := by
    rw [Band.last, hy₀, hheight, bandLength?_eq_some.1 hlength, h.color]
    have hsum : i * (rowsPerBand bandRows).toNat +
        min (rowsPerBand bandRows).toNat (t.height.toNat - i * (rowsPerBand bandRows).toNat) =
          min ((i + 1) * (rowsPerBand bandRows).toNat) t.height.toNat := by
      rw [Nat.add_mul, Nat.one_mul]
      omega
    rw [hsum]
    calc min ((i + 1) * (t.width.toNat * 4 * (rowsPerBand bandRows).toNat))
          (4 * (t.height.toNat * t.width.toNat))
        = min ((i + 1) * (rowsPerBand bandRows).toNat * (4 * t.width.toNat))
            (t.height.toNat * (4 * t.width.toNat)) := by
          congr 1 <;> ring
      _ = min ((i + 1) * (rowsPerBand bandRows).toNat) t.height.toNat * (4 * t.width.toNat) :=
          Nat.mul_min_mul_right _ _ _
      _ = 4 * (min ((i + 1) * (rowsPerBand bandRows).toNat) t.height.toNat * t.width.toNat) := by
          ring
  have htexels : ∀ data : ByteArray, data.size = t.color.size →
      data.extract (i * length.toNat) ((i + 1) * length.toNat) =
        Storage.texels data (t.part bandRows length i).first (t.part bandRows length i).last := by
    intro data hdata
    rw [Storage.texels, ← hfirst, ← hlast, ← hdata, extract_min]
  refine ⟨h.full, rfl, ?_, htexels t.color rfl, ?_⟩
  · rw [hy₀, hheight]
    simp only [whole]
    omega
  · simp only [part, whole]
    cases hdepth : t.depth with
    | none => rfl
    | some depth => exact congrArg some (htexels depth (h.depth depth hdepth))

/-- The bands of a target are its parts. -/
lemma Complete.bands_eq (h : t.Complete) (hlength : t.bandLength? bandRows = some length) :
    t.bands bandRows = .ok (t.parts bandRows length) := by
  refine h.bands_eq_ok.2 ⟨length, hlength, fun i hi => ?_, rfl⟩
  have hy₀ := h.toNat_y₀ hlength hi
  simp only [part] at hy₀
  rw [hy₀]
  exact (h.start_lt hlength hi).le

/-- The bands reach to the last row. -/
lemma Complete.height_le (h : t.Complete) (hlength : t.bandLength? bandRows = some length) :
    t.height.toNat ≤ t.bandCount length * (rowsPerBand bandRows).toNat := by
  have hsize : t.color.size ≤ t.bandCount length * length.toNat :=
    size_le_of_length_pieces t.color (h.length_pos hlength)
  have hwidth := h.width
  refine Nat.le_of_mul_le_mul_left (c := 4 * t.width.toNat) ?_ (by omega)
  calc 4 * t.width.toNat * t.height.toNat = 4 * (t.height.toNat * t.width.toNat) := by ring
    _ = t.color.size := h.color.symm
    _ ≤ t.bandCount length * length.toNat := hsize
    _ = t.bandCount length * (t.width.toNat * 4 * (rowsPerBand bandRows).toNat) := by
      rw [bandLength?_eq_some.1 hlength]
    _ = 4 * t.width.toNat * (t.bandCount length * (rowsPerBand bandRows).toNat) := by ring

/-- Every row lies in one of the bands. -/
lemma Complete.exists_band (h : t.Complete) (hrows : t.CountsRows bandRows)
    (hlength : t.bandLength? bandRows = some length) {y : UInt32} (hy : y < t.height) :
    ∃ i < t.bandCount length, (t.part bandRows length i).y₀ ≤ y ∧
      y.toNat < (t.part bandRows length i).y₀.toNat + (t.part bandRows length i).rows.toNat := by
  have hband := rowsPerBand_pos bandRows
  rw [UInt32.lt_iff_toNat_lt] at hy
  have hi : y.toNat / (rowsPerBand bandRows).toNat < t.bandCount length :=
    (Nat.div_lt_iff_lt_mul hband).2 (hy.trans_le (h.height_le hlength))
  have hle := Nat.div_mul_le_self y.toNat (rowsPerBand bandRows).toNat
  have hlt := Nat.lt_div_mul_add hband (a := y.toNat)
  refine ⟨_, hi, ?_, ?_⟩
  · rwa [UInt32.le_iff_toNat_le, h.toNat_y₀ hlength hi]
  · rw [h.toNat_y₀ hlength hi, h.toNat_rows hrows hlength hi]
    omega

/-! ### One pass -/

lemma paintWhole_eq : paintWhole s ts t =
    ({ t with
        color := (Band.paint s ts t.whole).1.color
        depth := (Band.paint s ts t.whole).1.depth },
      (Band.paint s ts t.whole).2) := by
  unfold paintWhole
  rcases hp : Painter.paint s ts ⟨.new, t.whole⟩ with ⟨p, result⟩
  rw [Painter.paint_band hp]

/-- The target with what one pass shows. -/
def repainted (s : FragmentStage) (ts : List (Triangle Binary32)) (t : Target) : Target :=
  { t with
    color := (Band.paint s ts t.whole).1.color
    depth := (Band.paint s ts t.whole).1.depth }

lemma whole_sameShape (s : FragmentStage) (ts : List (Triangle Binary32)) (t : Target) :
    t.whole.SameShape (Band.paint s ts t.whole).1 :=
  (Band.paint_sameShape t.whole).1

lemma size_repainted : (repainted s ts t).color.size = t.color.size :=
  (whole_sameShape s ts t).color

lemma height_repainted : (repainted s ts t).height = t.height := by
  rw [height, size_repainted]
  rfl

lemma whole_repainted : (repainted s ts t).whole = (Band.paint s ts t.whole).1 := by
  have hshape := whole_sameShape s ts t
  have hy₀ := hshape.y₀
  have hrows := hshape.rows
  have hwidth := hshape.width
  rw [whole, height_repainted, repainted]
  generalize (Band.paint s ts t.whole).1 = b at hy₀ hrows hwidth ⊢
  obtain ⟨y₀, rows, width, color, depth⟩ := b
  simp only [whole] at hy₀ hrows hwidth
  rw [hy₀, hrows, hwidth]

lemma Complete.repainted (h : t.Complete) : (repainted s ts t).Complete := by
  have hfull := h.full.of_sameShape (whole_sameShape s ts t)
  rw [← whole_repainted] at hfull
  exact ⟨⟨h.width, hfull.depth⟩, hfull.color⟩

/-- Where one pass does not fail, the bands show what it shows. -/
theorem Complete.onBands_of_ok (h : t.Complete)
    (hcolumns : ∀ tri ∈ ts, ∀ x ∈ tri.columns, x < t.width) (hrows : t.CountsRows bandRows)
    (hlength : t.bandLength? bandRows = some length)
    {paintAll : List Band → List Band × Except Fault Unit}
    (hall : PaintsAll s ts paintAll (t.parts bandRows length))
    (hok : (Band.paint s ts t.whole).2 = .ok ()) :
    onBands bandRows paintAll t = (Target.repainted s ts t, .ok ()) := by
  have hcomplete : (Target.repainted s ts t).Complete := h.repainted
  have hrows' : (Target.repainted s ts t).CountsRows bandRows := by
    rwa [CountsRows, height_repainted]
  have hlength' : (Target.repainted s ts t).bandLength? bandRows = some length := hlength
  have hcount : (Target.repainted s ts t).bandCount length =
      t.bandCount length := by
    rw [bandCount, bandCount, length_pieces, length_pieces, size_repainted]
  have hpart : ∀ i < t.bandCount length,
      (Band.paint s ts (t.part bandRows length i)).1 =
          (Target.repainted s ts t).part bandRows length i ∧
        (Band.paint s ts (t.part bandRows length i)).2 = .ok () := by
    intro i hi
    obtain ⟨hpainted, hresult⟩ := (h.isPartOf hrows hlength hi).paint hcolumns hok
    have hrepainted := hcomplete.isPartOf hrows' hlength' (hi.trans_eq hcount.symm)
    rw [whole_repainted] at hrepainted
    have hshape : (t.part bandRows length i).SameShape
        (Band.paint s ts (t.part bandRows length i)).1 := (Band.paint_sameShape _).1
    -- a part is determined by its rows, so the painted band is a part of the painted target
    refine ⟨hpainted.eq hrepainted ?_ ?_, hresult⟩
    · exact hshape.y₀
    · rw [hshape.rows]
      simp only [part, height_repainted]
  have hbands := hcomplete.ofBands_bands (hcomplete.bands_eq hlength')
  have hdepth : (Target.repainted s ts t).depth.isSome = t.depth.isSome := by
    have hsizes := congrArg Option.isSome (whole_sameShape s ts t).depth
    rwa [Option.isSome_map, Option.isSome_map] at hsizes
  have hpainted : (t.parts bandRows length).map (fun b => (Band.paint s ts b).1) =
      (Target.repainted s ts t).parts bandRows length := by
    rw [parts, parts, hcount, List.map_map]
    exact List.map_congr_left fun i hi => (hpart i (List.mem_range.1 hi)).1
  have hresult : ∀ b ∈ t.parts bandRows length, (Band.paint s ts b).2 = .ok () := by
    simp only [parts, List.forall_mem_map, List.mem_range]
    exact fun i hi => (hpart i hi).2
  rw [hdepth] at hbands
  rw [onBands, h.bands_eq hlength]
  simp only [hall.of_ok hresult, hpainted]
  exact Prod.ext hbands rfl

/-- Where one pass refuses, so do the bands, and the target stays as it was. -/
theorem Complete.onBands_of_error (h : t.Complete) (ready : s.Ready)
    (feeds : ∀ t ∈ ts, t.Feeds s.varyingWidth)
    (hcolumns : ∀ tri ∈ ts, ∀ x ∈ tri.columns, x < t.width) (hrows : t.CountsRows bandRows)
    (hlength : t.bandLength? bandRows = some length)
    {paintAll : List Band → List Band × Except Fault Unit} (heach : PaintsEach s ts paintAll)
    (hall : PaintsAll s ts paintAll (t.parts bandRows length))
    {e : Error} (hrefusal : s.refusal? = some e)
    (herror : (Band.paint s ts t.whole).2 ≠ .ok ()) :
    onBands bandRows paintAll t = (t, .error (.refused e)) := by
  have hunchanged := (heach Eq _ (fun _ => rfl) (fun _ _ _ => Eq.trans)
    (Band.paint_of_refusal ready feeds hrefusal) (t.parts bandRows length)).1
  rw [List.forall₂_eq_eq_eq] at hunchanged
  rw [onBands, h.bands_eq hlength]
  simp only [← hunchanged]
  refine Prod.ext (h.ofBands_bands (h.bands_eq hlength)) ?_
  rcases hresult : (paintAll (t.parts bandRows length)).2 with fault | _
  · obtain ⟨b, hb, hfault⟩ := hall.error fault hresult
    obtain ⟨i, hi, rfl⟩ := List.mem_map.1 hb
    have hpart := h.isPartOf hrows hlength (List.mem_range.1 hi)
    obtain ⟨e', he', rfl⟩ := hpart.sized.roomy.paint_eq_error ready feeds hcolumns hfault
    cases hrefusal.symm.trans he'
    rfl
  -- if no band had failed, neither had the whole, each of whose rows lies in a band
  · refine absurd (h.full.paint_eq_ok_of_refusal ready feeds hrefusal hcolumns ?_) herror
    intro y hy
    obtain ⟨i, hi, hfirst, hlast⟩ := h.exists_band hrows hlength hy
    refine ⟨_, h.isPartOf hrows hlength hi, hfirst, hlast, hall.ok hresult _ ?_⟩
    exact List.mem_map.2 ⟨i, List.mem_range.2 hi, rfl⟩

/-- Band by band, the target is painted as in one pass, whatever the number of rows in a band and
the order of the bands. -/
theorem Complete.onBands_eq_paintWhole (h : t.Complete) (ready : s.Ready)
    (feeds : ∀ t ∈ ts, t.Feeds s.varyingWidth)
    (hcolumns : ∀ tri ∈ ts, ∀ x ∈ tri.columns, x < t.width) (hrows : t.CountsRows bandRows)
    (hlength : t.bandLength? bandRows = some length)
    {paintAll : List Band → List Band × Except Fault Unit} (heach : PaintsEach s ts paintAll)
    (hall : PaintsAll s ts paintAll (t.parts bandRows length)) :
    onBands bandRows paintAll t = paintWhole s ts t := by
  rcases hresult : (Band.paint s ts t.whole).2 with fault | _
  · obtain ⟨e, hrefusal, rfl⟩ := h.full.roomy.paint_eq_error ready feeds hcolumns hresult
    have hunchanged := (Band.paint_of_refusal ready feeds hrefusal t.whole).1
    rw [h.onBands_of_error ready feeds hcolumns hrows hlength heach hall hrefusal
      (by simp [hresult]), paintWhole_eq, hresult, ← hunchanged]
    rfl
  · rw [h.onBands_of_ok hcolumns hrows hlength hall hresult, paintWhole_eq, hresult]
    rfl

/-- Band after band, the target is painted as in one pass. -/
theorem Complete.paint_eq (h : t.Complete) (ready : s.Ready)
    (feeds : ∀ t ∈ ts, t.Feeds s.varyingWidth)
    (hcolumns : ∀ tri ∈ ts, ∀ x ∈ tri.columns, x < t.width) (hwidth : t.width.toNat ≤ 2 ^ 24)
    (hrows : bandRows.toNat < 2 ^ 32) : paint s ts bandRows t = paintWhole s ts t := by
  obtain ⟨length, hlength⟩ := exists_bandLength? hwidth hrows
  rw [paint_eq_onBands]
  exact h.onBands_eq_paintWhole ready feeds hcolumns (countsRows_of_lt hrows) hlength
    (paintBands_paintsEach .new) (paintBands_paintsAll .new _)

/-- In whatever order the bands come, the target is painted as in one pass. -/
theorem Complete.paintInOrder_eq_paintWhole (h : t.Complete) (ready : s.Ready)
    (feeds : ∀ t ∈ ts, t.Feeds s.varyingWidth)
    (hcolumns : ∀ tri ∈ ts, ∀ x ∈ tri.columns, x < t.width) (hrows : bandRows.toNat < 2 ^ 32)
    {bands : List Band} (hbands : t.bands bandRows = .ok bands) {places : List Nat}
    (hplaces : places.Perm (List.range bands.length)) :
    paintInOrder s ts bandRows places t = paintWhole s ts t := by
  obtain ⟨length, hlength, -, rfl⟩ := h.bands_eq_ok.1 hbands
  rw [paintInOrder_eq_onBands]
  exact h.onBands_eq_paintWhole ready feeds hcolumns (countsRows_of_lt hrows) hlength
    (paintPlaces_paintsEach .new places) (paintPlaces_paintsAll .new hplaces)

/-- One pass stays within the target. -/
theorem Complete.paintWhole_ne_aborted (h : t.Complete) (ready : s.Ready)
    (feeds : ∀ t ∈ ts, t.Feeds s.varyingWidth)
    (hcolumns : ∀ tri ∈ ts, ∀ x ∈ tri.columns, x < t.width) :
    (paintWhole s ts t).2 ≠ .error .aborted := by
  rw [paintWhole_eq]
  intro haborted
  obtain ⟨_, -, hfault⟩ := h.full.roomy.paint_eq_error ready feeds hcolumns haborted
  cases hfault

end Target

end GraphicsPipeline
