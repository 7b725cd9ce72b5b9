import GraphicsPipeline.Proofs.Draw.Stages
import GraphicsPipeline.Proofs.Raster.Banding

/-!
# Draws in bands and in one pass

The stage of a linked pipeline paints triangles in bands as it does in one pass, on targets of at
most `2 ^ 24` columns. Up to there single precision numbers tell all columns apart, so no triangle
is looked for beyond the last one.
-/

namespace GraphicsPipeline

lemma Targets.WellSized.height_toTarget {t : Targets} (h : t.WellSized) :
    t.toTarget.height = t.color.height := by
  obtain ⟨hwidth, -, hsize⟩ := h.color
  have hrows : t.color.data.size / (t.color.width.toNat * 4) = t.color.height.toNat := by
    rw [hsize, Nat.mul_right_comm]
    exact Nat.mul_div_cancel_left _ (by omega)
  rw [← UInt32.toNat_inj]
  simp only [Target.height, toTarget, hrows, UInt32.toNat_ofNat']
  exact Nat.mod_eq_of_lt t.color.height.toNat_lt_size

/-- Textures of one size make up a target with the colours and depths of all pixels. -/
lemma Targets.WellSized.complete {t : Targets} (h : t.WellSized)
    (hsizes : Pipeline.checkSizes t = .ok ()) : t.toTarget.Complete := by
  refine ⟨h.sized hsizes, ?_⟩
  rw [h.height_toTarget]
  simp only [toTarget, h.color.2.2]
  ring

namespace Pipeline

variable {p : Pipeline} {bindings : Bindings} {varyings : Nat} {ts : List (Triangle Binary32)}
  {bandRows : UInt64}

/-- The fragment stage of a pipeline, for the number of interpolated numbers. -/
def stage (p : Pipeline) (bindings : Bindings) (varyings : Nat) : FragmentStage :=
  ⟨p.fragment, bindings, varyings⟩

/-- Triangles of vertices that carry what is interpolated feed the stage, within the target. -/
lemma feeds_of_ofVertices {width height : UInt32} (hwidth : width.toNat ≤ 2 ^ 24)
    (hts : ∀ t ∈ ts, ∃ v, Triangle.ofVertices v width height = some t ∧
      v.all fun v => varyings ≤ v.varyings.size) :
    (∀ t ∈ ts, t.Feeds varyings) ∧ ∀ t ∈ ts, ∀ x ∈ t.columns, x < width := by
  constructor
  · intro t ht
    obtain ⟨v, hv, hvaryings⟩ := hts t ht
    exact Triangle.feeds_of_ofVertices hv hvaryings
  · intro t ht x hx
    obtain ⟨v, hv, -⟩ := hts t ht
    exact Triangle.lt_of_mem_columns hv hwidth hx

/-- The stage of a linked pipeline paints a target band by band as in one pass: it comes to the same
end, with the same colours and depths, whatever the number of rows in a band and the order of the
bands. The triangles are those of any vertices that carry what is interpolated. -/
theorem paint_eq_paintWhole (linked : p.check = .ok varyings)
    (accepted : p.fragment.check = .ok p.fragment)
    (sampler : ∀ t, bindings.sampler = some t → t.WellSized) {target : Target}
    (complete : target.Complete) (hwidth : target.width.toNat ≤ 2 ^ 24)
    (hts : ∀ t ∈ ts, ∃ v, Triangle.ofVertices v target.width target.height = some t ∧
      v.all fun v => varyings ≤ v.varyings.size)
    (hrows : bandRows.toNat < 2 ^ 32) :
    (Target.paintWhole (p.stage bindings varyings) ts target).2 ≠ .error .aborted ∧
      Target.paint (p.stage bindings varyings) ts bandRows target =
        Target.paintWhole (p.stage bindings varyings) ts target ∧
      ∃ bands, target.bands bandRows = .ok bands ∧
        ∀ places, places.Perm (List.range bands.length) →
          Target.paintInOrder (p.stage bindings varyings) ts bandRows places target =
            Target.paintWhole (p.stage bindings varyings) ts target := by
  have ready : (p.stage bindings varyings).Ready := ready_of_check accepted sampler linked
  obtain ⟨feeds, hcolumns⟩ := feeds_of_ofVertices hwidth hts
  obtain ⟨length, hlength⟩ := Target.exists_bandLength? hwidth hrows
  have hbands := complete.bands_eq hlength
  exact ⟨complete.paintWhole_ne_aborted ready feeds hcolumns,
    complete.paint_eq ready feeds hcolumns hwidth hrows, _, hbands,
    fun places hplaces =>
      complete.paintInOrder_eq_paintWhole ready feeds hcolumns hrows hbands hplaces⟩

/-- The triangles of a draw are looked for within the targets. -/
lemma lt_width_of_setup_eq_ok {buffer : ByteArray} {vertexCount : UInt64} {t : Targets}
    {culled : Nat} {s : FragmentStage} (hwidth : t.color.width.toNat ≤ 2 ^ 24)
    (h : p.setup buffer vertexCount bindings t = .ok (ts, culled, s)) :
    ∀ tri ∈ ts, ∀ x ∈ tri.columns, x < t.color.width := by
  intro tri htri x hx
  obtain ⟨-, _, _, -, -, rfl, -⟩ := setup_eq_ok h
  obtain ⟨v, hv, -⟩ := exists_of_mem_assemble htri
  exact Triangle.lt_of_mem_columns hv hwidth hx

/-- On textures of at most `2 ^ 24` columns, a draw in bands is a draw in one pass. -/
theorem drawWith_paint (vertex : p.vertex.check = .ok p.vertex)
    (fragment : p.fragment.check = .ok p.fragment)
    (sampler : ∀ t, bindings.sampler = some t → t.WellSized) {t : Targets}
    (wellSized : t.WellSized) (hwidth : t.color.width.toNat ≤ 2 ^ 24)
    (hrows : bandRows.toNat < 2 ^ 32) (buffer : ByteArray) (vertexCount : UInt64) :
    p.drawWith (fun s ts => Target.paint s ts bandRows) buffer vertexCount bindings t =
      p.drawWith Target.paintWhole buffer vertexCount bindings t := by
  unfold drawWith
  rcases hsetup : p.setup buffer vertexCount bindings t with fault | ⟨ts, culled, s⟩
  · rfl
  · obtain ⟨ready, feeds⟩ := ready_of_setup_eq_ok vertex fragment sampler hsetup
    obtain ⟨hsizes, -⟩ := setup_eq_ok hsetup
    have hcolumns := lt_width_of_setup_eq_ok hwidth hsetup
    simp only [(wellSized.complete hsizes).paint_eq ready feeds hcolumns hwidth hrows]

/-! ### Two bands -/

/-- A pipeline that shows the colours of its vertices. -/
def vertexColors : Pipeline where
  vertex := ⟨[.vec4, .vec4], [.vec4, .vec4], some 0, 2,
    [.input 0 0, .input 1 1, .store 0 0, .store 1 1]⟩
  fragment := ⟨[.vec4], [.vec4], none, 1, [.input 0 0, .store 0 0]⟩
  layout := ⟨[⟨.vec4, 0, 32⟩, ⟨.vec4, 16, 32⟩]⟩

/-- A red vertex at a place of the screen. -/
def redVertex (x y : Binary32) : ShadedVertex Binary32 where
  clip := ⟨x, y, .zero, .one⟩
  varyings := #[.one, .zero, .zero, .one]

/-- A red triangle over the whole screen of two columns and three rows. -/
def redScreen : List (Triangle Binary32) :=
  (Triangle.ofVertices ⟨redVertex (-.one) (-.one), redVertex ⟨0x40400000⟩ (-.one),
    redVertex (-.one) ⟨0x40400000⟩⟩ 2 3).toList

/-- A target of two columns and three rows, the farthest depth everywhere. -/
def blackTarget : Target where
  width := 2
  color := Storage.zeroed 24
  depth := some (Storage.ofBytes (List.replicate 24 0xff))

/-- Nothing is bound. -/
def unbound : Bindings := ⟨none, none⟩

/-- The triangle is painted in bands of two rows, the lower band first. -/
theorem paint_eq_paintWhole_redScreen :
    redScreen.length = 1 ∧
      (Target.paintWhole (vertexColors.stage unbound 4) redScreen blackTarget).2 = .ok () ∧
        Target.paintInOrder (vertexColors.stage unbound 4) redScreen 2 [1, 0] blackTarget =
          Target.paintWhole (vertexColors.stage unbound 4) redScreen blackTarget := by
  have linked : vertexColors.check = .ok 4 := by decide +kernel
  have accepted : vertexColors.fragment.check = .ok vertexColors.fragment := by decide +kernel
  have sampler : ∀ t, unbound.sampler = some t → t.WellSized := by simp [unbound]
  have complete : blackTarget.Complete := by
    refine ⟨⟨by decide, ?_⟩, by decide +kernel⟩
    rintro _ ⟨⟩
    decide +kernel
  have hts : ∀ t ∈ redScreen, ∃ v,
      Triangle.ofVertices v blackTarget.width blackTarget.height = some t ∧
        v.all fun v => 4 ≤ v.varyings.size := by
    intro t ht
    rw [redScreen, Option.mem_toList] at ht
    exact ⟨_, ht, by decide⟩
  obtain ⟨-, -, bands, hbands, horder⟩ :=
    paint_eq_paintWhole linked accepted sampler complete (by decide) hts
      (show (2 : UInt64).toNat < 2 ^ 32 by decide)
  have hlength : (blackTarget.bands 2).map List.length = .ok 2 := by decide +kernel
  have hcount : bands.length = 2 := by simpa [hbands, Except.map] using hlength
  refine ⟨by decide +kernel, by decide +kernel, horder [1, 0] ?_⟩
  rw [hcount]
  decide

end Pipeline

end GraphicsPipeline
