import GraphicsPipeline.Proofs.Raster.Visibility

/-!
# Painting again

What was painted shows the same when it is painted once more. At a pixel the fragments that are as
near as the nearest are drawn again, in the same order, and all others are hidden by now
(`Pixel.each_draw_again`). The pixels make up the bytes of a target, so that these stay as they are
(`Target.Complete.paint_again`).
-/

namespace GraphicsPipeline

/-! ### One pixel -/

namespace Fragment

variable {fs : List Fragment} {stored : UInt32}

/-- Nothing is nearer than the nearest. -/
lemma nearest_nearest : nearest (nearest stored fs) fs = nearest stored fs := by
  apply UInt32.le_antisymm (nearest_le _ fs)
  exact le_nearest_iff.2 ⟨UInt32.le_refl _, (le_nearest_iff.1 (UInt32.le_refl _)).2⟩

lemma visible?_map_nearest (stored : Option UInt32) :
    visible? (stored.map fun d => nearest d fs) fs = visible? stored fs := by
  cases stored with
  | none => rfl
  | some d => simp only [Option.map_some, visible?, seen?, nearest_nearest]

end Fragment

namespace Pixel

variable {fs : List Fragment} {p q q' : Pixel}

/-- There is one way in which fragments change a pixel. -/
lemma Becomes.eq (h : p.Becomes fs q) (h' : p.Becomes fs q') : q' = q := by
  have hdepth : q'.depth = q.depth := h'.depth.trans h.depth.symm
  have hcolor : q'.color = q.color := by
    cases hseen : Fragment.visible? p.depth fs with
    | none => rw [h.unseen hseen, h'.unseen hseen]
    | some f => exact Except.ok.inj ((h'.seen f hseen).symm.trans (h.seen f hseen))
  obtain ⟨color, depth⟩ := q
  obtain ⟨color', depth'⟩ := q'
  simp_all

/-- The fragments that a pixel shows make no more of it. -/
lemma Becomes.again (h : p.Becomes fs q) : q.Becomes fs q where
  depth := by
    rw [h.depth, Option.map_map]
    congr 1
    funext stored
    exact Fragment.nearest_nearest.symm
  seen := by
    rw [h.depth, Fragment.visible?_map_nearest]
    exact h.seen
  unseen _ := rfl

/-- Fragments that can be drawn can be drawn over what is nearer: fewer of them are shaded. -/
lemma each_draw_of_nearer (hdepth : Option.Rel (· ≥ ·) p.depth q.depth)
    (h : (Step.each draw fs p).2 = .ok ()) : (Step.each draw fs q).2 = .ok () := by
  induction fs generalizing p q with
  | nil => rfl
  | cons f fs ih =>
    obtain ⟨pcolor, pdepth⟩ := p
    obtain ⟨qcolor, qdepth⟩ := q
    rw [Step.each] at h ⊢
    by_cases hidden : pdepth.any (· < f.depth)
    · have hidden' : qdepth.any (· < f.depth) := by
        cases hdepth with
        | none => simp at hidden
        | some hle => simpa using UInt32.lt_of_le_of_lt hle (by simpa using hidden)
      have hp : draw f ⟨pcolor, pdepth⟩ = (⟨pcolor, pdepth⟩, .ok ()) := if_pos hidden
      have hq : draw f ⟨qcolor, qdepth⟩ = (⟨qcolor, qdepth⟩, .ok ()) := if_pos hidden'
      rw [Step.andThen_of_ok hp] at h
      rw [Step.andThen_of_ok hq]
      exact ih hdepth h
    · cases hcolor : f.color with
      | error fault =>
        have hp : draw f ⟨pcolor, pdepth⟩ = (⟨pcolor, pdepth⟩, .error fault) := by
          simp [draw, hidden, hcolor]
        simp [Step.andThen_of_error hp] at h
      | ok color =>
        have hp : draw f ⟨pcolor, pdepth⟩ = (⟨color, pdepth.map fun _ => f.depth⟩, .ok ()) := by
          simp [draw, hidden, hcolor]
        rw [Step.andThen_of_ok hp] at h
        by_cases hidden' : qdepth.any (· < f.depth)
        -- the fragment is drawn at first only, and what hides it then is nearer
        · have hq : draw f ⟨qcolor, qdepth⟩ = (⟨qcolor, qdepth⟩, .ok ()) := if_pos hidden'
          rw [Step.andThen_of_ok hq]
          refine ih ?_ h
          cases hdepth with
          | none => simp at hidden'
          | some hle => exact .some (UInt32.le_of_lt (by simpa using hidden'))
        · have hq : draw f ⟨qcolor, qdepth⟩ = (⟨color, qdepth.map fun _ => f.depth⟩, .ok ()) := by
            simp [draw, hidden', hcolor]
          rw [Step.andThen_of_ok hq]
          refine ih ?_ h
          cases hdepth with
          | none => exact .none
          | some hle => exact .some (UInt32.le_refl _)

/-- Fragments that were drawn leave the pixel as it is when they are drawn again. -/
theorem each_draw_again (h : Step.each draw fs p = (q, .ok ())) :
    Step.each draw fs q = (q, .ok ()) := by
  have hok : (Step.each draw fs p).2 = .ok () := by rw [h]
  have hbecomes : p.Becomes fs q := by
    have := becomes_of_each hok
    rwa [h] at this
  have hnearer : Option.Rel (· ≥ ·) p.depth q.depth := by
    rw [hbecomes.depth]
    cases p.depth with
    | none => exact .none
    | some stored => exact .some (Fragment.nearest_le stored fs)
  have hok' := each_draw_of_nearer hnearer hok
  exact Prod.ext (hbecomes.again.eq (becomes_of_each hok')) hok'

end Pixel

/-! ### Pixels and bytes -/

lemma Texel.toWord_injective : Function.Injective Texel.toWord := by
  rintro ⟨x, y, z, w⟩ ⟨x', y', z', w'⟩ h
  have hbytes := congrArg LittleEndian.encode h
  simp only [toWord, LittleEndian.encode_decode, List.cons.injEq, and_true] at hbytes
  simpa using hbytes

namespace Band

variable {b b' : Band} {p : Pixel} {x y : UInt32}

/-- Bands of one shape have the same pixels. -/
def SameShape.place (h : b.SameShape b') (k : b'.Place) : b.Place where
  x := k.x
  y := k.y
  first := by
    rw [← h.y₀]
    exact k.first
  last := by
    rw [← h.y₀, ← h.rows]
    exact k.last
  column := by
    rw [← h.width]
    exact k.column

/-- The texels of a full band are its pixels. -/
lemma Full.exists_place (h : b.Full) {i : Nat} (hi : i < b.rows.toNat * b.width.toNat) :
    ∃ k : b.Place, b.index k.x k.y = i := by
  have hpos : 0 < b.width.toNat := Nat.pos_of_mul_pos_left (Nat.zero_lt_of_lt hi)
  have hrow : i / b.width.toNat < b.rows.toNat := Nat.div_lt_of_lt_mul (by rwa [Nat.mul_comm])
  have hcolumn : i % b.width.toNat < b.width.toNat := Nat.mod_lt _ hpos
  have hx : (UInt32.ofNat (i % b.width.toNat)).toNat = i % b.width.toNat :=
    UInt32.toNat_ofNat_of_lt' (hcolumn.trans b.width.toNat_lt_size)
  have hy : (UInt32.ofNat (i / b.width.toNat)).toNat = i / b.width.toNat :=
    UInt32.toNat_ofNat_of_lt' (hrow.trans b.rows.toNat_lt_size)
  refine ⟨⟨UInt32.ofNat (i % b.width.toNat), UInt32.ofNat (i / b.width.toNat), ?_, ?_, ?_⟩, ?_⟩
  · rw [h.y₀, UInt32.le_iff_toNat_le]
    exact Nat.zero_le _
  · rw [h.y₀, hy]
    exact hrow.trans_eq (Nat.zero_add _).symm
  · rwa [UInt32.lt_iff_toNat_lt, hx]
  · simp only [index, h.y₀, hx, hy, UInt32.toNat_zero, Nat.sub_zero]
    exact Nat.div_add_mod' i b.width.toNat

/-- Full bands of one shape that show the same pixels are the same. -/
theorem Full.eq_of_shows (h : b.Full) (hshape : b.SameShape b')
    (hshows : ∀ k : b.Place, ∃ p, b.Shows k.x k.y p ∧ b'.Shows k.x k.y p) : b' = b := by
  have hindex : ∀ x y, b'.index x y = b.index x y := fun x y => hshape.index
  have hsizes : b'.color.size = 4 * (b.rows.toNat * b.width.toNat) := hshape.color.trans h.color
  have hcolor : b'.color = b.color := by
    refine Storage.eq_of_texel?_eq h.color hsizes fun i hi => ?_
    obtain ⟨k, rfl⟩ := h.exists_place hi
    obtain ⟨p, hp, hp'⟩ := hshows k
    rw [hp.color, ← hindex, hp'.color]
  have hdepth : b'.depth = b.depth := by
    have hsize := hshape.depth
    cases hb : b.depth with
    | none => simpa [hb] using hsize
    | some data =>
      obtain ⟨data', hb', hdata⟩ : ∃ data', b'.depth = some data' ∧ data'.size = data.size := by
        simpa [hb, Option.map_eq_some_iff] using hsize
      have hwords : data.size = 4 * (b.rows.toNat * b.width.toNat) :=
        (h.depth data hb).trans h.color
      rw [hb']
      refine congrArg some (Storage.eq_of_texel?_eq hwords (hdata.trans hwords) fun i hi => ?_)
      obtain ⟨k, rfl⟩ := h.exists_place hi
      obtain ⟨p, hp, hp'⟩ := hshows k
      have hword := hp'.depth.trans hp.depth.symm
      rw [hb, hb', Option.map_some, Option.map_some, Option.some.injEq, hindex] at hword
      exact Option.map_injective Texel.toWord_injective hword
  have hy₀ := hshape.y₀
  have hrows := hshape.rows
  have hwidth := hshape.width
  obtain ⟨y₀, rows, width, color, depth⟩ := b
  obtain ⟨y₀', rows', width', color', depth'⟩ := b'
  simp_all

variable {s : FragmentStage} {ts : List (Triangle Binary32)}

/-- A full band that was painted stays as it is when it is painted again. -/
theorem Full.paint_again (h : b.Full) (hcolumns : ∀ t ∈ ts, ∀ x ∈ t.columns, x < b.width)
    (hok : (Band.paint s ts b).2 = .ok ()) :
    Band.paint s ts (Band.paint s ts b).1 = ((Band.paint s ts b).1, .ok ()) := by
  have hshape : b.SameShape (Band.paint s ts b).1 := (Band.paint_sameShape b).1
  choose pixels hpixels using h.toSized.exists_shows
  obtain ⟨hdraws, hshows⟩ := h.toSized.paint_eq_ok_iff hcolumns hpixels
  have hdraws := hdraws.1 hok
  have hshows := hshows hok
  generalize (Band.paint s ts b).1 = b' at hshape hshows ⊢
  have hfull : b'.Full := h.of_sameShape hshape
  have hcolumns' : ∀ t ∈ ts, ∀ x ∈ t.columns, x < b'.width := by
    rw [hshape.width]
    exact hcolumns
  -- what the pixels of the painted band are, and that drawing leaves them
  obtain ⟨drawn, hdrawn, hagain⟩ : ∃ drawn : b'.Place → Pixel, (∀ k, b'.Shows k.x k.y (drawn k)) ∧
      ∀ k, Step.each Pixel.draw (Fragment.listAt s ts k.x k.y) (drawn k) = (drawn k, .ok ()) :=
    ⟨_, fun k => hshows (hshape.place k),
      fun k => Pixel.each_draw_again (Prod.ext rfl (hdraws (hshape.place k)))⟩
  obtain ⟨hdraws', hshows'⟩ := hfull.toSized.paint_eq_ok_iff (s := s) hcolumns' hdrawn
  simp only [hagain] at hdraws' hshows'
  have hok' : (Band.paint s ts b').2 = .ok () := hdraws'.2 fun _ => trivial
  exact Prod.ext (hfull.eq_of_shows (Band.paint_sameShape b').1
    fun k => ⟨drawn k, hdrawn k, hshows' hok' k⟩) hok'

end Band

/-! ### Targets -/

namespace Target

variable {s : FragmentStage} {ts : List (Triangle Binary32)} {t t' : Target}
  {bandRows : UInt64}

/-- Triangles that were painted leave the target as it is when they are painted again. -/
theorem Complete.paint_again (h : t.Complete)
    (hcolumns : ∀ tri ∈ ts, ∀ x ∈ tri.columns, x < t.width) (hwidth : t.width.toNat ≤ 2 ^ 24)
    (hrows : bandRows.toNat < 2 ^ 32) (hpaint : paint s ts bandRows t = (t', .ok ())) :
    paint s ts bandRows t' = (t', .ok ()) := by
  obtain ⟨length, hlength⟩ := exists_bandLength? hwidth hrows
  rw [paint_eq_onBands] at hpaint ⊢
  obtain ⟨hok, hrepainted⟩ := h.onBands_of_snd_ok hcolumns (countsRows_of_lt hrows) hlength
    (paintBands_paintsAll .new _) (by rw [hpaint])
  rw [hpaint] at hrepainted
  cases hrepainted
  have hagain := h.full.paint_again hcolumns hok
  rw [← whole_repainted] at hagain
  rw [h.repainted.onBands_of_ok hcolumns (countsRows_of_lt hrows) hlength
    (paintBands_paintsAll .new _) (by rw [hagain])]
  refine Prod.ext ?_ rfl
  rw [Target.repainted, hagain]
  rfl

end Target

end GraphicsPipeline
