import GraphicsPipeline.Proofs.Draw.Banding
import GraphicsPipeline.Proofs.Raster.Visibility

/-!
# What a draw shows

Every pixel of the targets becomes what the fragments of the triangles make of it. So the depths
that a draw leaves do not depend on the order of the triangles, nor on how they are shaded.
-/

namespace GraphicsPipeline

namespace Targets

variable {t : Targets} {target : Target} {x y : UInt32} {p : Pixel}

/-- What the target shows as one band, the textures hold. -/
lemma pixel_eq_ok_of_shows (hwidth : ∀ d, t.depth = some d → d.width = t.color.width)
    (h : t.toTarget.whole.Shows x y p) : t.pixel x y = .ok p := by
  obtain ⟨color, depth⟩ := t
  obtain ⟨pcolor, pdepth⟩ := p
  have hcolor : color.texel x y = .ok pcolor := by
    rw [Texture.texel, orAbort_eq_ok]
    exact h.color
  cases depth with
  | none =>
    obtain rfl : pdepth = none := by
      rcases h.depth_cases with ⟨-, hp⟩ | ⟨_, _, hdepth, -, -⟩
      · exact hp
      · cases hdepth
    simp [pixel, hcolor]
  | some d =>
    rcases h.depth_cases with ⟨hdepth, -⟩ | ⟨data, texel, hdepth, htexel, hp⟩
    · cases hdepth
    · cases hdepth
      have hindex : d.index x y = color.index x y := by
        rw [Texture.index, Texture.index, hwidth d rfl]
      have hd : d.depth x y = .ok texel.toWord := by
        have htexel' : d.texel x y = .ok texel := by
          rw [Texture.texel, orAbort_eq_ok, hindex]
          exact htexel
        simp [Texture.depth, htexel']
      simp only at hp
      simp [pixel, hcolor, hd, hp]

lemma toTarget_withTarget (hwidth : target.width = t.color.width)
    (hdepth : target.depth.map ByteArray.size = t.toTarget.depth.map ByteArray.size) :
    (t.withTarget target).toTarget = target := by
  obtain ⟨color, depth⟩ := t
  obtain ⟨width, data, depths⟩ := target
  cases hwidth
  cases depth <;> cases depths <;> simp_all [toTarget, withTarget]

/-- Targets that are drawn on have one width. -/
lemma width_eq_of_checkSizes (h : Pipeline.checkSizes t = .ok ()) :
    ∀ d, t.depth = some d → d.width = t.color.width := by
  intro d hd
  simp only [Pipeline.checkSizes, hd, ite_ok_eq_ok] at h
  exact h.1.1

lemma width_withTarget (h : ∀ d, t.depth = some d → d.width = t.color.width) :
    ∀ d, (t.withTarget target).depth = some d → d.width = (t.withTarget target).color.width := by
  intro d hd
  obtain ⟨d₀, hd₀, rfl⟩ := Option.map_eq_some_iff.1 hd
  exact h d₀ hd₀

end Targets

namespace Pipeline

variable {p : Pipeline} {buffer : ByteArray} {vertexCount : UInt64} {bindings : Bindings}
  {bandRows : UInt64} {t t' : Targets} {stats : DrawStats}

lemma drawWith_eq_ok {paint : FragmentStage → List (Triangle Binary32) → Step Target}
    (h : p.drawWith paint buffer vertexCount bindings t = (t', .ok stats)) :
    ∃ ts culled s target, p.setup buffer vertexCount bindings t = .ok (ts, culled, s) ∧
      paint s ts t.toTarget = (target, .ok ()) ∧ t' = t.withTarget target := by
  unfold drawWith at h
  split at h
  · cases h
  · rename_i ts culled s hsetup
    rcases hpaint : paint s ts t.toTarget with ⟨target, fault | _⟩ <;> rw [hpaint] at h <;> cases h
    exact ⟨ts, culled, s, target, hsetup, hpaint, rfl⟩

/-- Painting keeps the shape of the target, so the textures take what was painted. -/
lemma toTarget_withTarget_of_paint (wellSized : t.WellSized) (hsizes : checkSizes t = .ok ())
    {s : FragmentStage} {ts : List (Triangle Binary32)} {target : Target}
    {result : Except Fault Unit}
    (hpaint : Target.paint s ts bandRows t.toTarget = (target, result)) :
    (t.withTarget target).toTarget = target := by
  have careful : Target.Careful fun s ts => Target.paint s ts bandRows := Target.paint_careful
  have htarget : target = (Target.paint s ts bandRows t.toTarget).1 := by rw [hpaint]
  rw [htarget]
  exact Targets.toTarget_withTarget Target.width_paint
    (careful.size s ts t.toTarget (wellSized.sized hsizes)).2

/-- A draw that succeeds makes of every pixel what the fragments there make of it. -/
lemma becomes_of_setup_eq_ok (wellSized : t.WellSized) (hwidth : t.color.width.toNat ≤ 2 ^ 24)
    (hrows : bandRows.toNat < 2 ^ 32) {ts : List (Triangle Binary32)} {culled : Nat}
    {s : FragmentStage} (hsetup : p.setup buffer vertexCount bindings t = .ok (ts, culled, s))
    (h : p.drawWith (fun s ts => Target.paint s ts bandRows) buffer vertexCount bindings t =
      (t', .ok stats)) {x y : UInt32} (hx : x < t.color.width) (hy : y < t.color.height) :
    ∃ before after, t.pixel x y = .ok before ∧ t'.pixel x y = .ok after ∧
      before.Becomes (Fragment.listAt s ts x y) after := by
  obtain ⟨ts, culled, s, target, hsetup', hpaint, rfl⟩ := drawWith_eq_ok h
  cases hsetup.symm.trans hsetup'
  obtain ⟨hsizes, -⟩ := setup_eq_ok hsetup
  have complete := wellSized.complete hsizes
  have hcolumns := lt_width_of_setup_eq_ok hwidth hsetup
  -- the pixel lies in the whole target
  have hfirst : t.toTarget.whole.y₀ ≤ y := UInt32.le_iff_toNat_le.2 (Nat.zero_le _)
  have hlast : y.toNat < t.toTarget.whole.y₀.toNat + t.toTarget.whole.rows.toNat := by
    have hrows : t.toTarget.whole.rows = t.color.height := wellSized.height_toTarget
    rw [hrows]
    exact (UInt32.lt_iff_toNat_lt.1 hy).trans_eq (Nat.zero_add _).symm
  obtain ⟨before, after, hbefore, hafter, hbecomes⟩ :=
    complete.becomes_of_paint hcolumns hwidth hrows hpaint ⟨x, y, hfirst, hlast, hx⟩
  have hsame := toTarget_withTarget_of_paint wellSized hsizes hpaint
  have hwidths := Targets.width_eq_of_checkSizes hsizes
  refine ⟨before, after, Targets.pixel_eq_ok_of_shows hwidths hbefore, ?_, hbecomes⟩
  apply Targets.pixel_eq_ok_of_shows (Targets.width_withTarget hwidths)
  rwa [hsame]

/-- Every pixel that a draw leaves has the least of the depth stored there and of the depths of the
fragments there, and the colour of the last fragment of that depth. Where there is none, or without
a depth target no fragment at all, the colour stays. So no depth grows, and triangles in another
order leave the same depths, whatever their colours and the number of rows in a band. -/
theorem drawWith_becomes (wellSized : t.WellSized) (hwidth : t.color.width.toNat ≤ 2 ^ 24)
    (hrows : bandRows.toNat < 2 ^ 32)
    (h : p.drawWith (fun s ts => Target.paint s ts bandRows) buffer vertexCount bindings t =
      (t', .ok stats)) :
    ∃ ts culled s, p.setup buffer vertexCount bindings t = .ok (ts, culled, s) ∧
      (∀ x < t.color.width, ∀ y < t.color.height, ∃ before after,
        t.pixel x y = .ok before ∧ t'.pixel x y = .ok after ∧
          before.Becomes (Fragment.listAt s ts x y) after ∧
            ∀ stored, before.depth = some stored → ∃ d ≤ stored, after.depth = some d) ∧
      ∀ (p' : Pipeline) (buffer' : ByteArray) (vertexCount' bandRows' : UInt64)
        (bindings' : Bindings) (ts' : List (Triangle Binary32)) (culled' : Nat)
        (s' : FragmentStage) (t'' : Targets) (stats' : DrawStats),
        bandRows'.toNat < 2 ^ 32 →
        p'.setup buffer' vertexCount' bindings' t = .ok (ts', culled', s') → ts.Perm ts' →
        p'.drawWith (fun s ts => Target.paint s ts bandRows') buffer' vertexCount' bindings' t =
          (t'', .ok stats') →
        ∀ x < t.color.width, ∀ y < t.color.height,
          (t''.pixel x y).map Pixel.depth = (t'.pixel x y).map Pixel.depth := by
  obtain ⟨ts, culled, s, _, hsetup, -⟩ := drawWith_eq_ok h
  refine ⟨ts, culled, s, hsetup, ?_, ?_⟩
  · intro x hx y hy
    obtain ⟨before, after, hbefore, hafter, hbecomes⟩ :=
      becomes_of_setup_eq_ok wellSized hwidth hrows hsetup h hx hy
    exact ⟨before, after, hbefore, hafter, hbecomes, fun _ => hbecomes.depth_le⟩
  · intro p' buffer' vertexCount' bandRows' bindings' ts' culled' s' t'' stats' hrows' hsetup' hperm
      h' x hx y hy
    obtain ⟨before, after, hbefore, hafter, hbecomes⟩ :=
      becomes_of_setup_eq_ok wellSized hwidth hrows hsetup h hx hy
    obtain ⟨before', after', hbefore', hafter', hbecomes'⟩ :=
      becomes_of_setup_eq_ok wellSized hwidth hrows' hsetup' h' hx hy
    cases hbefore.symm.trans hbefore'
    have hdepth : after'.depth = after.depth := by
      rw [hbecomes.depth, hbecomes'.depth]
      congr 1
      funext stored
      exact (Fragment.nearest_listAt_eq_of_perm s s' hperm x y).symm
    rw [hafter, hafter', Except.map, Except.map, hdepth]

/-! ### Triangles of one depth -/

/-- The buffer of triangles over the whole screen, at the depth of a half, each of one colour. -/
def screens (colors : List (Vec4 Binary32)) : ByteArray :=
  let places : List (Binary32 × Binary32) :=
    [(-.one, -.one), (⟨0x40400000⟩, -.one), (-.one, ⟨0x40400000⟩)]
  let numbers := colors.flatMap fun c => places.flatMap fun (x, y) =>
    [x, y, ⟨0x3f000000⟩, .one] ++ c.toList
  Storage.ofBytes (numbers.flatMap fun x => LittleEndian.encode x.bits)

/-- Targets of one column and two rows, the farthest depth everywhere. -/
def blackTargets : Targets where
  color := ⟨1, 2, Storage.zeroed 8⟩
  depth := some ⟨1, 2, Storage.ofBytes (List.replicate 8 0xff)⟩

/-- Draws two triangles over the whole screen, row by row. -/
def drawScreens (first second : Vec4 Binary32) : Targets × Except Fault DrawStats :=
  vertexColors.drawWith (fun s ts => Target.paint s ts 1) (screens [first, second]) 6 unbound
    blackTargets

def red : Vec4 Binary32 := ⟨.one, .zero, .zero, .one⟩

def green : Vec4 Binary32 := ⟨.zero, .one, .zero, .one⟩

/-- Of a red and a green triangle of one depth the later one is seen, and both orders leave the same
depths. -/
theorem drawWith_becomes_redGreen :
    ((drawScreens red green).2 = .ok ⟨6, 2, 0⟩ ∧
      ((drawScreens red green).1.pixel 0 1).map Pixel.color = .ok ⟨0, 0xff, 0, 0xff⟩) ∧
    ((drawScreens green red).2 = .ok ⟨6, 2, 0⟩ ∧
      ((drawScreens green red).1.pixel 0 1).map Pixel.color = .ok ⟨0xff, 0, 0, 0xff⟩) ∧
    ∀ x < 1, ∀ y < 2, ((drawScreens green red).1.pixel x y).map Pixel.depth =
      ((drawScreens red green).1.pixel x y).map Pixel.depth := by
  have hgreen : (drawScreens red green).2 = .ok ⟨6, 2, 0⟩ ∧
      ((drawScreens red green).1.pixel 0 1).map Pixel.color = .ok ⟨0, 0xff, 0, 0xff⟩ := by
    decide +kernel
  have hred : (drawScreens green red).2 = .ok ⟨6, 2, 0⟩ ∧
      ((drawScreens green red).1.pixel 0 1).map Pixel.color = .ok ⟨0xff, 0, 0, 0xff⟩ := by
    decide +kernel
  refine ⟨hgreen, hred, ?_⟩
  have h := Prod.eta (drawScreens red green)
  have h' := Prod.eta (drawScreens green red)
  rw [hgreen.1] at h
  rw [hred.1] at h'
  have wellSized : blackTargets.WellSized := by
    refine ⟨by decide +kernel, ?_⟩
    rintro _ ⟨⟩
    decide +kernel
  obtain ⟨ts, culled, s, hsetup, -, horder⟩ :=
    drawWith_becomes wellSized (by decide) (show (1 : UInt64).toNat < 2 ^ 32 by decide) h.symm
  obtain ⟨ts', culled', s', _, hsetup', -, -⟩ := drawWith_eq_ok h'.symm
  -- the triangles come out of the two buffers in opposite orders
  have hreverse :
      (vertexColors.setup (screens [green, red]) 6 unbound blackTargets).map Prod.fst =
        (vertexColors.setup (screens [red, green]) 6 unbound blackTargets).map
          fun out => out.1.reverse := by
    decide +kernel
  obtain rfl : ts' = ts.reverse := by
    simpa [hsetup, hsetup', Except.map] using hreverse
  exact horder vertexColors _ 6 1 unbound _ _ _ _ _ (by decide) hsetup' ts.reverse_perm.symm h'.symm

end Pipeline

end GraphicsPipeline
