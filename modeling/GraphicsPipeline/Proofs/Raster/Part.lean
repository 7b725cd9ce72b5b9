import GraphicsPipeline.Proofs.Raster.Painting

/-!
# Parts of a band

A band may hold some rows of another. A pixel of the part is painted as the same pixel of the whole,
and the other pixels of the whole do not touch the part. So where the whole can be painted, the part
shows in the end its rows of what the whole shows (`Band.IsPartOf.paint`), and where the whole
refuses, one of the parts that make it up does.
-/

namespace GraphicsPipeline

namespace Band

variable {b b' whole whole' : Band} {i j : Nat} {color : Texel} {d : UInt32} {x y : UInt32}

/-! ### Rows of a whole -/

/-- The band has the colour of all its pixels, and the depth where depth is tested. -/
structure Sized (b : Band) : Prop where
  rows : b.y₀.toNat + b.rows.toNat < UInt32.size
  color : b.color.size = 4 * (b.rows.toNat * b.width.toNat)
  depth : ∀ depth, b.depth = some depth → depth.size = b.color.size

/-- The band has the colours of all its pixels and maybe more bytes, and as many for the depths. -/
structure Roomy (b : Band) : Prop where
  rows : b.y₀.toNat + b.rows.toNat < UInt32.size
  color : 4 * (b.rows.toNat * b.width.toNat) ≤ b.color.size
  depth : ∀ depth, b.depth = some depth → depth.size = b.color.size

lemma Sized.roomy (h : b.Sized) : b.Roomy := ⟨h.rows, h.color.ge, h.depth⟩

/-- The band starts at the top. -/
structure Full (b : Band) : Prop extends b.Sized where
  y₀ : b.y₀ = 0

/-- The place of the first texel of a band among the texels of the whole. -/
def first (b : Band) : Nat := b.y₀.toNat * b.width.toNat

/-- The place below the last texel of a band among the texels of the whole. -/
def last (b : Band) : Nat := (b.y₀.toNat + b.rows.toNat) * b.width.toNat

/-- The band holds its rows of the whole. -/
structure IsPartOf (b whole : Band) : Prop where
  full : whole.Full
  width : b.width = whole.width
  rows : b.y₀.toNat + b.rows.toNat ≤ whole.rows.toNat
  color : b.color = Storage.texels whole.color b.first b.last
  depth : b.depth = whole.depth.map fun depth => Storage.texels depth b.first b.last

/-- A column within a row comes before the next row. -/
lemma mul_add_lt {y rows x width : Nat} (hy : y < rows) (hx : x < width) :
    y * width + x < rows * width := by
  have hnext : (y + 1) * width ≤ rows * width := Nat.mul_le_mul_right width hy
  rw [Nat.add_mul, Nat.one_mul] at hnext
  omega

/-- Every pixel has its place in the band. -/
lemma index_lt (hy : b.y₀ ≤ y) (hlast : y.toNat < b.y₀.toNat + b.rows.toNat) (hx : x < b.width) :
    b.index x y < b.rows.toNat * b.width.toNat := by
  rw [UInt32.le_iff_toNat_le] at hy
  exact mul_add_lt (by omega) (UInt32.lt_iff_toNat_lt.1 hx)

/-- A band is known by its rows. -/
lemma IsPartOf.eq (h : b.IsPartOf whole) (h' : b'.IsPartOf whole) (hy₀ : b.y₀ = b'.y₀)
    (hrows : b.rows = b'.rows) : b = b' := by
  have hwidth := h.width.trans h'.width.symm
  have hcolor := h.color
  have hdepth := h.depth
  simp only [first, last, hy₀, hrows, hwidth] at hcolor hdepth
  have hcolor' := h'.color
  have hdepth' := h'.depth
  simp only [first, last] at hcolor' hdepth'
  obtain ⟨y₀, rows, width, color, depth⟩ := b
  obtain ⟨y₀', rows', width', color', depth'⟩ := b'
  simp_all

lemma IsPartOf.last_le (h : b.IsPartOf whole) : 4 * b.last ≤ whole.color.size := by
  rw [h.full.color, last, h.width]
  exact Nat.mul_le_mul_left 4 (Nat.mul_le_mul_right _ h.rows)

lemma IsPartOf.sized (h : b.IsPartOf whole) : b.Sized where
  rows := h.rows.trans_lt whole.rows.toNat_lt_size
  color := by
    rw [h.color, Storage.size_texels _ h.last_le, last, first, ← Nat.sub_mul,
      Nat.add_sub_cancel_left]
  depth depth hdepth := by
    rw [h.depth, Option.map_eq_some_iff] at hdepth
    obtain ⟨data, hdata, rfl⟩ := hdepth
    have hle := h.last_le.trans_eq (h.full.depth data hdata).symm
    rw [h.color, Storage.size_texels _ h.last_le, Storage.size_texels _ hle]

/-- A pixel within the rows of the band has its place there. -/
lemma IsPartOf.first_add_index (h : b.IsPartOf whole) (hy : b.y₀ ≤ y)
    (hlast : y.toNat < b.y₀.toNat + b.rows.toNat) (hx : x < whole.width) :
    b.first + b.index x y = whole.index x y ∧ b.first + b.index x y < b.last := by
  rw [UInt32.le_iff_toNat_le] at hy
  rw [UInt32.lt_iff_toNat_lt] at hx
  simp only [index, first, last, h.width, h.full.y₀, UInt32.toNat_zero, Nat.sub_zero]
  have hrow : (y.toNat - b.y₀.toNat) * whole.width.toNat + b.y₀.toNat * whole.width.toNat =
      y.toNat * whole.width.toNat := by
    rw [← Nat.add_mul, Nat.sub_add_cancel hy]
  have hplace := mul_add_lt hlast hx
  omega

/-- A pixel of another row has its place elsewhere. -/
lemma IsPartOf.index_lt_first_or_last_le (h : b.IsPartOf whole)
    (hy : ¬(b.y₀ ≤ y ∧ y.toNat < b.y₀.toNat + b.rows.toNat)) (hx : x < whole.width) :
    whole.index x y < b.first ∨ b.last ≤ whole.index x y := by
  rw [UInt32.le_iff_toNat_le] at hy
  rw [UInt32.lt_iff_toNat_lt] at hx
  simp only [index, first, last, h.width, h.full.y₀, UInt32.toNat_zero, Nat.sub_zero]
  rcases Nat.lt_or_ge y.toNat b.y₀.toNat with hlt | hle
  · exact .inl (mul_add_lt hlt hx)
  · have hnext : (b.y₀.toNat + b.rows.toNat) * whole.width.toNat ≤ y.toNat * whole.width.toNat :=
      Nat.mul_le_mul_right _ (by omega)
    omega

/-! ### One pixel -/

lemma write_eq_ok : b.write i color d = .ok b' ↔
    ∃ colors depths, Storage.setTexel? b.color i color = some colors ∧
      (b.depth.mapM fun depth => Storage.setTexel? depth i (.ofWord d)) = some depths ∧
        b' = { b with color := colors, depth := depths } := by
  obtain ⟨y₀, rows, width, colors, depths⟩ := b
  simp only [write]
  cases Storage.setTexel? colors i color with
  | none => simp
  | some colors =>
    cases depths with
    | none => simp [eq_comm]
    | some depths =>
      simp only [Option.mapM_some]
      cases Storage.setTexel? depths i (.ofWord d) <;> simp [eq_comm]

/-- A texel of the band can be written. -/
lemma exists_write (hdepth : ∀ depth, b.depth = some depth → depth.size = b.color.size)
    (color : Texel) (d : UInt32) (hi : 4 * i + 3 < b.color.size) :
    ∃ b', b.write i color d = .ok b' := by
  obtain ⟨colors, hcolors⟩ := Storage.exists_setTexel? (t := color) hi
  cases h : b.depth with
  | none => exact ⟨_, write_eq_ok.2 ⟨colors, none, hcolors, by simp [h], rfl⟩⟩
  | some depth =>
    obtain ⟨depths, hdepths⟩ := Storage.exists_setTexel? (t := .ofWord d)
      (hi.trans_eq (hdepth depth h).symm)
    exact ⟨_, write_eq_ok.2 ⟨colors, some depths, hcolors, by simp [h, hdepths], rfl⟩⟩

/-- The depth of a texel of the band can be read. -/
lemma exists_hides (hdepth : ∀ depth, b.depth = some depth → depth.size = b.color.size)
    (hi : 4 * i + 3 < b.color.size) : ∃ hidden, b.hides i d = .ok hidden := by
  cases h : b.depth with
  | none => exact ⟨false, by simp [hides, h]⟩
  | some depth =>
    rw [← hdepth depth h] at hi
    obtain ⟨stored, hstored⟩ := Storage.exists_texel? depth i hi
    exact ⟨decide (stored.toWord < d), by simp [hides, h, hstored]⟩

/-- A depth that hides a pixel was read within the band. -/
lemma lt_of_hides (hdepth : ∀ depth, b.depth = some depth → depth.size = b.color.size)
    (hhides : b.hides i d = .ok true) : 4 * i + 3 < b.color.size := by
  cases h : b.depth with
  | none => simp [hides, h] at hhides
  | some depth =>
    cases hstored : Storage.texel? depth i with
    | none => simp [hides, h, hstored] at hhides
    | some stored => exact (Storage.lt_of_texel? hstored).trans_eq (hdepth depth h)

lemma Roomy.lt_size (h : b.Roomy) (hi : i < b.rows.toNat * b.width.toNat) :
    4 * i + 3 < b.color.size := by
  have hsize := h.color
  omega

/-- Every pixel can be written. -/
lemma Roomy.exists_write (h : b.Roomy) (color : Texel) (d : UInt32)
    (hi : i < b.rows.toNat * b.width.toNat) : ∃ b', b.write i color d = .ok b' :=
  Band.exists_write h.depth color d (h.lt_size hi)

lemma SameShape.index (h : b.SameShape b') : b'.index x y = b.index x y := by
  rw [Band.index, Band.index, h.y₀, h.width]

lemma SameShape.size_depth (h : b.SameShape b')
    (hb : ∀ depth, b.depth = some depth → depth.size = b.color.size) :
    ∀ depth, b'.depth = some depth → depth.size = b'.color.size := by
  intro depth' hdepth'
  have hsizes := h.depth
  cases hdepth : b.depth with
  | none => simp [hdepth, hdepth'] at hsizes
  | some depth =>
    simp only [hdepth, hdepth', Option.map_some, Option.some.injEq] at hsizes
    rw [hsizes, hb depth hdepth, h.color]

lemma Roomy.of_sameShape (h : b.Roomy) (hshape : b.SameShape b') : b'.Roomy where
  rows := by rw [hshape.y₀, hshape.rows]; exact h.rows
  color := by rw [hshape.color, hshape.rows, hshape.width]; exact h.color
  depth := hshape.size_depth h.depth

lemma Sized.of_sameShape (h : b.Sized) (hshape : b.SameShape b') : b'.Sized where
  rows := by rw [hshape.y₀, hshape.rows]; exact h.rows
  color := by rw [hshape.color, hshape.rows, hshape.width, h.color]
  depth := hshape.size_depth h.depth

lemma Full.of_sameShape (h : b.Full) (hshape : b.SameShape b') : b'.Full :=
  ⟨h.toSized.of_sameShape hshape, hshape.y₀.trans h.y₀⟩

/-- A pixel that is written in the whole is written in its band. -/
lemma IsPartOf.write (h : b.IsPartOf whole) (hi : b.first + i < b.last)
    (hwrite : whole.write (b.first + i) color d = .ok whole') :
    ∃ b', b.write i color d = .ok b' ∧ b'.IsPartOf whole' := by
  have hfull := h.full.of_sameShape (write_sameShape hwrite)
  obtain ⟨colors, depths, hcolors, hdepths, rfl⟩ := write_eq_ok.1 hwrite
  have hcolor := Storage.setTexel?_texels h.last_le hi hcolors
  rw [← h.color] at hcolor
  have hdepth : (b.depth.mapM fun depth => Storage.setTexel? depth i (.ofWord d)) =
      some (depths.map fun depth => Storage.texels depth b.first b.last) := by
    rw [h.depth]
    cases hwhole : whole.depth with
    | none =>
      obtain rfl : none = depths := by simpa [hwhole] using hdepths
      rfl
    | some depth =>
      obtain ⟨depth', hset, rfl⟩ : ∃ depth', Storage.setTexel? depth (b.first + i) (.ofWord d) =
          some depth' ∧ some depth' = depths := by simpa [hwhole] using hdepths
      have hle := h.last_le.trans_eq (h.full.depth depth hwhole).symm
      simp [Storage.setTexel?_texels hle hi hset]
  exact ⟨_, write_eq_ok.2 ⟨_, _, hcolor, hdepth, rfl⟩, hfull, h.width, h.rows, rfl, rfl⟩

/-- A pixel that is written elsewhere in the whole leaves the band as it was. -/
lemma IsPartOf.write_elsewhere (h : b.IsPartOf whole) (hj : j < b.first ∨ b.last ≤ j)
    (hwrite : whole.write j color d = .ok whole') : b.IsPartOf whole' := by
  have hfull := h.full.of_sameShape (write_sameShape hwrite)
  obtain ⟨colors, depths, hcolors, hdepths, rfl⟩ := write_eq_ok.1 hwrite
  have hcolor := h.color.trans (Storage.texels_of_setTexel? hj hcolors).symm
  have hdepth : b.depth = depths.map fun depth => Storage.texels depth b.first b.last := by
    rw [h.depth]
    cases hwhole : whole.depth with
    | none =>
      obtain rfl : none = depths := by simpa [hwhole] using hdepths
      rfl
    | some depth =>
      obtain ⟨depth', hset, rfl⟩ : ∃ depth', Storage.setTexel? depth j (.ofWord d) = some depth' ∧
          some depth' = depths := by simpa [hwhole] using hdepths
      rw [Option.map_some, Option.map_some, Storage.texels_of_setTexel? hj hset]
  exact ⟨hfull, h.width, h.rows, hcolor, hdepth⟩

/-- The depth of a pixel is the same in the whole and in its band. -/
lemma IsPartOf.hides (h : b.IsPartOf whole) (hi : b.first + i < b.last) :
    b.hides i d = whole.hides (b.first + i) d := by
  cases hdepth : whole.depth with
  | none => simp [Band.hides, h.depth, hdepth]
  | some depth =>
    have hsame := h.full.depth depth hdepth
    have htexel := Storage.texel?_texels (h.last_le.trans_eq hsame.symm) hi
    simp [Band.hides, h.depth, hdepth, htexel]

variable {s : FragmentStage} {t : Triangle Binary32} {ts : List (Triangle Binary32)}

/-- A pixel of the band is painted as the same pixel of the whole. -/
lemma IsPartOf.pixel (h : b.IsPartOf whole) (hy : b.y₀ ≤ y)
    (hlast : y.toNat < b.y₀.toNat + b.rows.toNat) (hx : x < whole.width) :
    (Band.pixel s t y x b).1.IsPartOf (Band.pixel s t y x whole).1 ∧
      (Band.pixel s t y x b).2 = (Band.pixel s t y x whole).2 := by
  obtain ⟨hindex, hi⟩ := h.first_add_index hy hlast hx
  have hj : whole.index x y < whole.rows.toNat * whole.width.toNat := by
    have hle := h.last_le
    rw [h.full.color] at hle
    omega
  -- the pixel's texel is the same one in the part and in the whole, so each step ends alike
  unfold Band.pixel
  cases t.fragment? x y with
  | none => exact ⟨h, rfl⟩
  | some fragment =>
    obtain ⟨weights, d⟩ := fragment
    simp only [h.hides hi, hindex]
    rcases whole.hides (whole.index x y) d with fault | _ | _
    · exact ⟨h, rfl⟩
    · rcases (s.shade t (t.perspective weights) .new).2 with fault | color
      · exact ⟨h, rfl⟩
      · obtain ⟨whole', hwhole⟩ := h.full.roomy.exists_write color d hj
        obtain ⟨b', hb, hpart⟩ := h.write hi (by rwa [hindex])
        simp only [hwhole, hb]
        exact ⟨hpart, trivial⟩
    · exact ⟨h, rfl⟩

/-- A pixel of another row leaves the band as it was. -/
lemma IsPartOf.pixel_elsewhere (h : b.IsPartOf whole)
    (hy : ¬(b.y₀ ≤ y ∧ y.toNat < b.y₀.toNat + b.rows.toNat)) (hx : x < whole.width) :
    b.IsPartOf (Band.pixel s t y x whole).1 := by
  rcases pixel_cases s t y x whole with h' | h' | ⟨_, _, _, h'⟩ | ⟨_, _, _, _, _, hwrite, h'⟩ <;>
    rw [h']
  · exact h
  · exact h
  · exact h
  · exact h.write_elsewhere (h.index_lt_first_or_last_le hy hx) hwrite

/-! ### All triangles -/

/-- While both are painted, the band stays a part of the whole, and neither is moved. -/
def Tracks (whole₀ b₀ whole b : Band) : Prop :=
  b.IsPartOf whole ∧ whole₀.SameShape whole ∧ b₀.SameShape b

lemma pixel_follows (hy : b.y₀ ≤ y) (hlast : y.toNat < b.y₀.toNat + b.rows.toNat)
    (hx : x < whole.width) :
    (Band.pixel s t y x).Follows (Tracks whole b) (Band.pixel s t y x) := by
  rintro whole' b' ⟨hpart, hwhole, hb⟩ hok
  rw [← hb.y₀] at hy hlast
  rw [← hb.rows] at hlast
  rw [← hwhole.width] at hx
  obtain ⟨hpart', hresult⟩ := hpart.pixel (s := s) (t := t) hy hlast hx
  exact ⟨⟨hpart', hwhole.trans _ _ _ (pixel_sameShape whole').1,
    hb.trans _ _ _ (pixel_sameShape b').1⟩, hresult.trans hok⟩

lemma skip_follows_pixel (hy : ¬(b.y₀ ≤ y ∧ y.toNat < b.y₀.toNat + b.rows.toNat))
    (hx : x < whole.width) : Step.skip.Follows (Tracks whole b) (Band.pixel s t y x) := by
  rintro whole' b' ⟨hpart, hwhole, hb⟩ -
  rw [← hb.y₀, ← hb.rows] at hy
  rw [← hwhole.width] at hx
  exact ⟨⟨hpart.pixel_elsewhere hy hx, hwhole.trans _ _ _ (pixel_sameShape whole').1, hb⟩, rfl⟩

/-- The band is painted with its rows of every triangle, as the whole is with all rows. -/
lemma triangle_follows {last : UInt32} (hlast : last.toNat = b.y₀.toNat + b.rows.toNat)
    (hrows : last ≤ whole.rows) (hcolumns : ∀ x ∈ t.columns, x < whole.width) :
    (triangle s b.y₀ last t).Follows (Tracks whole b) (triangle s 0 whole.rows t) := by
  unfold triangle
  rw [← Triangle.filter_rowsWithin hrows]
  refine .each_filter (fun y _ hy => ?_) fun y _ hy => ?_
  · simp only [decide_eq_true_eq, UInt32.lt_iff_toNat_lt, hlast] at hy
    exact .each fun x hx => pixel_follows hy.1 hy.2 (hcolumns x hx)
  · simp only [decide_eq_true_eq, UInt32.lt_iff_toNat_lt, hlast] at hy
    have hskip : ∀ x ∈ t.columns, ¬false → Step.skip.Follows (Tracks whole b) (pixel s t y x) :=
      fun x hx _ => skip_follows_pixel hy (hcolumns x hx)
    have hrow := Step.Follows.each_filter (g := pixel s t y) (p := fun _ => false)
      (fun _ _ h => absurd h (by simp)) hskip
    rwa [List.filter_false] at hrow

lemma Roomy.exists_last (h : b.Roomy) :
    ∃ last, Checked.add32? b.y₀ b.rows = some last ∧
      last.toNat = b.y₀.toNat + b.rows.toNat := by
  have hrows := h.rows
  have hlast : (b.y₀ + b.rows).toNat = b.y₀.toNat + b.rows.toNat := by
    rw [UInt32.toNat_add]
    rw [UInt32.size] at hrows
    omega
  exact ⟨_, Checked.add32?_eq_some.2 hlast, hlast⟩

lemma Full.add32? (h : whole.Full) : Checked.add32? whole.y₀ whole.rows = some whole.rows := by
  rw [Checked.add32?_eq_some, h.y₀]
  simp

lemma Full.paint_eq (h : whole.Full) :
    paint s ts whole = Step.each (triangle s 0 whole.rows) ts whole := by
  rw [paint_of_last h.add32?, h.y₀]

/-- Where the whole can be painted, the band can, and it shows its rows of what the whole shows. -/
theorem IsPartOf.paint (h : b.IsPartOf whole)
    (hcolumns : ∀ t ∈ ts, ∀ x ∈ t.columns, x < whole.width)
    (hok : (Band.paint s ts whole).2 = .ok ()) :
    (Band.paint s ts b).1.IsPartOf (Band.paint s ts whole).1 ∧
      (Band.paint s ts b).2 = .ok () := by
  obtain ⟨last, hadd, hlast⟩ := h.sized.roomy.exists_last
  have hrows : last ≤ whole.rows := by
    rw [UInt32.le_iff_toNat_le, hlast]
    exact h.rows
  have hfollows : (Step.each (triangle s b.y₀ last) ts).Follows (Tracks whole b)
      (Step.each (triangle s 0 whole.rows) ts) :=
    .each fun t ht => triangle_follows hlast hrows (hcolumns t ht)
  rw [h.full.paint_eq] at hok ⊢
  rw [paint_of_last hadd]
  obtain ⟨⟨hpart, -, -⟩, hresult⟩ := hfollows whole b ⟨h, .refl whole, .refl b⟩ hok
  exact ⟨hpart, hresult⟩

/-! ### Refusals -/

/-- A pixel fails only where the stage refuses. -/
lemma Roomy.pixel_eq_error (h : b.Roomy) (ready : s.Ready) (feeds : t.Feeds s.varyingWidth)
    (hi : b.index x y < b.rows.toNat * b.width.toNat) {fault : Fault}
    (hfault : (Band.pixel s t y x b).2 = .error fault) :
    ∃ e, s.refusal? = some e ∧ fault = .refused e := by
  unfold Band.pixel at hfault
  cases hfragment : t.fragment? x y with
  | none => simp [hfragment] at hfault
  | some fragment =>
    obtain ⟨weights, d⟩ := fragment
    obtain ⟨hidden, hhides⟩ := exists_hides (d := d) h.depth (h.lt_size hi)
    cases hidden with
    | true => simp [hfragment, hhides] at hfault
    | false =>
      cases hrefusal : s.refusal? with
      | some e =>
        have hshade := ready.shade_eq_error (p := t.perspective weights) (m := .new) feeds hrefusal
        simp only [hfragment, hhides, hshade, Except.error.injEq] at hfault
        exact ⟨e, rfl, hfault.symm⟩
      | none =>
        obtain ⟨color, hshade⟩ :=
          ready.exists_shade (p := t.perspective weights) (m := .new) feeds hrefusal
        obtain ⟨b', hwrite⟩ := h.exists_write color d hi
        simp [hfragment, hhides, hshade, hwrite] at hfault

/-- A band fails only where the stage refuses. -/
theorem Roomy.paint_eq_error (h : b.Roomy) (ready : s.Ready)
    (feeds : ∀ t ∈ ts, t.Feeds s.varyingWidth)
    (hcolumns : ∀ t ∈ ts, ∀ x ∈ t.columns, x < b.width) {fault : Fault}
    (hfault : (Band.paint s ts b).2 = .error fault) :
    ∃ e, s.refusal? = some e ∧ fault = .refused e := by
  obtain ⟨last, hadd, hlast⟩ := h.exists_last
  -- contents change while painting; the shape is what stays, and all that the pixels need
  have hpaint : b.SameShape (Band.paint s ts b).1 ∧ ∀ fault,
      (Band.paint s ts b).2 = .error fault → ∃ e, s.refusal? = some e ∧ fault = .refused e := by
    refine paint_maintains (.refl b) (by simp [hadd]) ?_
    intro last' hadd' t ht y hy x hx b' hshape
    obtain rfl : last = last' := by simpa [hadd] using hadd'
    obtain ⟨-, hfirst, hbelow⟩ := Triangle.mem_rowsWithin.1 hy
    rw [UInt32.lt_iff_toNat_lt, hlast] at hbelow
    have hi : b'.index x y < b'.rows.toNat * b'.width.toNat := by
      refine index_lt ?_ ?_ ?_
      · rwa [hshape.y₀]
      · rwa [hshape.y₀, hshape.rows]
      · rw [hshape.width]
        exact hcolumns t ht x hx
    exact ⟨hshape.trans _ _ _ (pixel_sameShape b').1, fun fault hfault =>
      (h.of_sameShape hshape).pixel_eq_error ready (feeds t ht) hi hfault⟩
  exact hpaint.2 fault hfault

/-- Where the stage refuses every point, the band is painted if none of its pixels shows a
triangle. -/
lemma paint_eq_ok_iff_of_refusal {e : Error} (ready : s.Ready)
    (feeds : ∀ t ∈ ts, t.Feeds s.varyingWidth) (h : s.refusal? = some e) {last : UInt32}
    (hlast : Checked.add32? b.y₀ b.rows = some last) :
    (paint s ts b).2 = .ok () ↔ ∀ t ∈ ts, ∀ y ∈ t.rowsWithin b.y₀ last, ∀ x ∈ t.columns,
      (Band.pixel s t y x b).2 = .ok () := by
  refine paint_eq_ok_iff_forall (I := (· = b)) ?_ rfl hlast
  rintro t ht y x _ rfl
  exact ⟨pixel_of_refusal ready (feeds t ht) h, Iff.rfl⟩

/-- Where the stage refuses every point, the whole is painted if the bands are that make it up. -/
theorem Full.paint_eq_ok_of_refusal (h : whole.Full) {e : Error} (ready : s.Ready)
    (feeds : ∀ t ∈ ts, t.Feeds s.varyingWidth) (hrefusal : s.refusal? = some e)
    (hcolumns : ∀ t ∈ ts, ∀ x ∈ t.columns, x < whole.width)
    (hbands : ∀ y < whole.rows, ∃ b : Band, b.IsPartOf whole ∧ b.y₀ ≤ y ∧
      y.toNat < b.y₀.toNat + b.rows.toNat ∧ (Band.paint s ts b).2 = .ok ()) :
    (Band.paint s ts whole).2 = .ok () := by
  rw [paint_eq_ok_iff_of_refusal ready feeds hrefusal h.add32?]
  intro t ht y hy x hx
  obtain ⟨hy, -, hrows⟩ := Triangle.mem_rowsWithin.1 hy
  obtain ⟨b, hpart, hfirst, hlast, hok⟩ := hbands y hrows
  obtain ⟨last, hadd, hsum⟩ := hpart.sized.roomy.exists_last
  rw [paint_eq_ok_iff_of_refusal ready feeds hrefusal hadd] at hok
  rw [← (hpart.pixel hfirst hlast (hcolumns t ht x hx)).2]
  refine hok t ht y (Triangle.mem_rowsWithin.2 ⟨hy, hfirst, ?_⟩) x hx
  rwa [UInt32.lt_iff_toNat_lt, hsum]

end Band

end GraphicsPipeline
