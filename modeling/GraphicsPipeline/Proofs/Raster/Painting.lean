import GraphicsPipeline.Proofs.Raster.Shading
import GraphicsPipeline.Proofs.Raster.Target
import GraphicsPipeline.Proofs.Stepwise
import GraphicsPipeline.Raster.Target

/-!
# Painting without a machine

The machine that shades the pixels of a band leaves no trace in the band: painting does the same to
the band as a painting that takes a new machine for every pixel. So what holds of single pixels
holds of bands.
-/

namespace GraphicsPipeline

namespace Band

/-! ### Painting on a band alone -/

/-- Paints one pixel of a triangle, shaded on a new machine. -/
def pixel (s : FragmentStage) (t : Triangle Binary32) (y x : UInt32) : Step Band := fun b =>
  match t.fragment? x y with
  | none => (b, .ok ())
  | some (weights, d) =>
    match b.hides (b.index x y) d with
    | .error fault => (b, .error fault)
    | .ok true => (b, .ok ())
    | .ok false =>
      match (s.shade t (t.perspective weights) .new).2 with
      | .error fault => (b, .error fault)
      | .ok color =>
        match b.write (b.index x y) color d with
        | .error fault => (b, .error fault)
        | .ok b => (b, .ok ())

/-- Paints one row of a triangle. -/
def row (s : FragmentStage) (t : Triangle Binary32) (y : UInt32) : Step Band :=
  Step.each (pixel s t y) t.columns

/-- Paints the rows of a triangle from `first` to below `last`. -/
def triangle (s : FragmentStage) (first last : UInt32) (t : Triangle Binary32) : Step Band :=
  Step.each (row s t) (t.rowsWithin first last)

/-- Paints all triangles, in order. -/
def paint (s : FragmentStage) (ts : List (Triangle Binary32)) : Step Band := fun b =>
  match Checked.add32? b.y₀ b.rows with
  | none => (b, .error .aborted)
  | some last => Step.each (triangle s b.y₀ last) ts b

end Band

/-! ### The machine leaves no trace -/

namespace Painter

variable {s : FragmentStage} {t : Triangle Binary32} {ts : List (Triangle Binary32)}

lemma pixel_projectsTo {y x : UInt32} :
    (pixel s t y x).ProjectsTo Painter.band (Band.pixel s t y x) := by
  rintro ⟨m, b⟩
  unfold pixel Band.pixel
  cases t.fragment? x y with
  | none => rfl
  | some fragment =>
    obtain ⟨weights, d⟩ := fragment
    simp only
    rcases b.hides (b.index x y) d with _ | _ | _
    · rfl
    · rw [← FragmentStage.shade_snd_eq m .new]
      rcases s.shade t (t.perspective weights) m with ⟨m', _ | color⟩
      · rfl
      · simp only
        cases b.write (b.index x y) color d <;> rfl
    · rfl

lemma row_projectsTo {y : UInt32} : (row s t y).ProjectsTo Painter.band (Band.row s t y) := by
  unfold row Band.row
  rw [Step.upwards_eq_each]
  exact .each fun x => pixel_projectsTo

lemma triangle_projectsTo {first last : UInt32} :
    (triangle s first last t).ProjectsTo Painter.band (Band.triangle s first last t) := by
  unfold triangle Band.triangle
  simp only [Step.upwards_eq_each]
  exact .each fun y => row_projectsTo

/-- Painting does the same to the band whatever the machine. -/
theorem paint_projectsTo : (paint s ts).ProjectsTo Painter.band (Band.paint s ts) := by
  rintro ⟨m, b⟩
  unfold paint Band.paint
  simp only
  cases Checked.add32? b.y₀ b.rows with
  | none => rfl
  | some last => exact Step.ProjectsTo.each (fun t => triangle_projectsTo) ⟨m, b⟩

lemma paint_band {m : Machine} {b : Band} {p : Painter} {result : Except Fault Unit}
    (h : paint s ts ⟨m, b⟩ = (p, result)) : Band.paint s ts b = (p.band, result) := by
  rw [← paint_projectsTo ⟨m, b⟩, h]

end Painter

/-! ### From pixels to bands -/

section Rules

variable {s : FragmentStage} {t : Triangle Binary32} {ts : List (Triangle Binary32)}
  {keeps : Band → Band → Prop} {fails : Fault → Prop}

/-- What every pixel within the bounds maintains, all triangles maintain. -/
theorem Band.paint_maintains {I : Band → Prop} {b : Band} (hb : I b)
    (haborted : Checked.add32? b.y₀ b.rows = none → fails .aborted)
    (hpixel : ∀ last, Checked.add32? b.y₀ b.rows = some last → ∀ t ∈ ts,
      ∀ y ∈ t.rowsWithin b.y₀ last, ∀ x ∈ t.columns, (pixel s t y x).Maintains I fails) :
    I (paint s ts b).1 ∧ ∀ fault, (paint s ts b).2 = .error fault → fails fault := by
  unfold paint
  cases hlast : Checked.add32? b.y₀ b.rows with
  | none => exact ⟨hb, by rintro _ ⟨⟩; exact haborted hlast⟩
  | some last =>
    have hrow : ∀ t ∈ ts, ∀ y ∈ t.rowsWithin b.y₀ last, (row s t y).Maintains I fails :=
      fun t ht y hy => .each (hpixel last hlast t ht y hy)
    have htriangle : ∀ t ∈ ts, (triangle s b.y₀ last t).Maintains I fails :=
      fun t ht => .each (hrow t ht)
    exact Step.Maintains.each htriangle b hb

lemma Band.paint_of_last {b : Band} {last : UInt32}
    (hlast : Checked.add32? b.y₀ b.rows = some last) :
    paint s ts b = Step.each (triangle s b.y₀ last) ts b := by
  rw [paint, hlast]

/-- Whether a band is painted is decided by its pixels, where that of each pixel is. -/
theorem Band.paint_eq_ok_iff_forall {I : Band → Prop}
    {P : Triangle Binary32 → UInt32 → UInt32 → Prop}
    (hpixel : ∀ t ∈ ts, ∀ y x, (pixel s t y x).Decides I (P t y x)) {b : Band} (hb : I b)
    {last : UInt32} (hlast : Checked.add32? b.y₀ b.rows = some last) :
    (paint s ts b).2 = .ok () ↔
      ∀ t ∈ ts, ∀ y ∈ t.rowsWithin b.y₀ last, ∀ x ∈ t.columns, P t y x := by
  have hrow : ∀ t ∈ ts, ∀ y, (row s t y).Decides I (∀ x ∈ t.columns, P t y x) :=
    fun t ht y => .each fun x _ => hpixel t ht y x
  have htriangle : ∀ t ∈ ts, (triangle s b.y₀ last t).Decides I
      (∀ y ∈ t.rowsWithin b.y₀ last, ∀ x ∈ t.columns, P t y x) :=
    fun t ht => .each fun y _ => hrow t ht y
  rw [paint_of_last hlast]
  exact (Step.Decides.each htriangle b hb).2

/-- How every pixel may change a band, all triangles may change it. -/
theorem Band.paint_satisfies (hrefl : ∀ b, keeps b b)
    (htrans : ∀ a b c, keeps a b → keeps b c → keeps a c) (haborted : fails .aborted)
    (hpixel : ∀ t ∈ ts, ∀ y x, (pixel s t y x).Satisfies keeps fails) :
    (paint s ts).Satisfies keeps fails := by
  intro b
  exact paint_maintains (hrefl b) (fun _ => haborted)
    fun _ _ t ht y _ x _ => (hpixel t ht y x).maintains htrans b

/-- A reading of a depth fails only outside the band. -/
lemma Band.hides_eq_error {b : Band} {i : Nat} {d : UInt32} {fault : Fault}
    (h : b.hides i d = .error fault) : fault = .aborted := by
  unfold hides at h
  split at h
  · simp at h
  · rename_i depth _
    cases hi : Storage.texel? depth i with
    | none => simpa [hi, eq_comm] using h
    | some stored => simp [hi] at h

/-- A pixel is written only within the band. -/
lemma Band.write_eq_error {b : Band} {i : Nat} {color : Texel} {d : UInt32} {fault : Fault}
    (h : b.write i color d = .error fault) : fault = .aborted := by
  obtain ⟨y₀, rows, width, colors, depths⟩ := b
  simp only [write] at h
  repeat' split at h
  all_goals cases h
  all_goals rfl

/-- What can happen at a pixel: nothing, an access outside the band, a failure of the shading, or a
new colour. -/
lemma Band.pixel_cases (s : FragmentStage) (t : Triangle Binary32) (y x : UInt32) (b : Band) :
    pixel s t y x b = (b, .ok ()) ∨ pixel s t y x b = (b, .error .aborted) ∨
      (∃ p fault, (s.shade t p .new).2 = .error fault ∧ pixel s t y x b = (b, .error fault)) ∨
      ∃ p color d b', (s.shade t p .new).2 = .ok color ∧
        b.write (b.index x y) color d = .ok b' ∧ pixel s t y x b = (b', .ok ()) := by
  unfold pixel
  cases t.fragment? x y with
  | none => exact .inl rfl
  | some fragment =>
    obtain ⟨weights, d⟩ := fragment
    rcases hhides : b.hides (b.index x y) d with fault | _ | _
    · cases hides_eq_error hhides
      exact .inr (.inl (by simp [hhides]))
    · rcases hshade : (s.shade t (t.perspective weights) .new).2 with fault | color
      · exact .inr (.inr (.inl ⟨_, fault, hshade, by simp [hhides, hshade]⟩))
      · rcases hwrite : b.write (b.index x y) color d with fault | b'
        · cases write_eq_error hwrite
          exact .inr (.inl (by simp [hhides, hshade, hwrite]))
        · exact .inr (.inr (.inr ⟨_, color, d, b', hshade, hwrite, by
            simp [hhides, hshade, hwrite]⟩))
    · exact .inl (by simp [hhides])

/-- The band has the same place and size as another. -/
structure Band.SameShape (b b' : Band) : Prop where
  y₀ : b'.y₀ = b.y₀
  rows : b'.rows = b.rows
  width : b'.width = b.width
  color : b'.color.size = b.color.size
  depth : b'.depth.map ByteArray.size = b.depth.map ByteArray.size

lemma Band.SameShape.refl (b : Band) : b.SameShape b := ⟨rfl, rfl, rfl, rfl, rfl⟩

lemma Band.SameShape.trans (a b c : Band) (h : a.SameShape b) (h' : b.SameShape c) :
    a.SameShape c :=
  ⟨h'.y₀.trans h.y₀, h'.rows.trans h.rows, h'.width.trans h.width, h'.color.trans h.color,
    h'.depth.trans h.depth⟩

lemma Band.write_sameShape {b b' : Band} {i : Nat} {color : Texel} {d : UInt32}
    (h : b.write i color d = .ok b') : b.SameShape b' := by
  obtain ⟨y₀, rows, width, colors, depths⟩ := b
  simp only [write] at h
  split at h
  · simp at h
  · rename_i colors' hcolors
    split at h
    · cases h
      exact ⟨rfl, rfl, rfl, Storage.size_setTexel? hcolors, rfl⟩
    · split at h
      · simp at h
      · rename_i depths' hdepths
        cases h
        exact ⟨rfl, rfl, rfl, Storage.size_setTexel? hcolors, by
          simp [Storage.size_setTexel? hdepths]⟩

lemma Band.pixel_sameShape {y x : UInt32} :
    (pixel s t y x).Satisfies SameShape fun _ => True := by
  refine fun b => ⟨?_, by simp⟩
  rcases pixel_cases s t y x b with h | h | ⟨_, _, _, h⟩ | ⟨_, _, _, b', _, hwrite, h⟩ <;> rw [h]
  · exact .refl b
  · exact .refl b
  · exact .refl b
  · exact write_sameShape hwrite

/-- Painting keeps the place and the size of the band. -/
theorem Band.paint_sameShape : (paint s ts).Satisfies SameShape fun _ => True :=
  paint_satisfies SameShape.refl SameShape.trans trivial fun _ _ _ _ => pixel_sameShape

/-- A stage that refuses every point leaves the pixel as it is. -/
lemma Band.pixel_of_refusal {y x : UInt32} {b : Band} {e : Error} (ready : s.Ready)
    (feeds : t.Feeds s.varyingWidth) (h : s.refusal? = some e) : (pixel s t y x b).1 = b := by
  rcases pixel_cases s t y x b with h' | h' | ⟨_, _, _, h'⟩ | ⟨p, _, _, _, hshade, -, -⟩
  · rw [h']
  · rw [h']
  · rw [h']
  · rw [ready.shade_eq_error feeds h] at hshade
    cases hshade

/-- A stage that refuses every point leaves the band as it is. -/
theorem Band.paint_of_refusal {e : Error} (ready : s.Ready)
    (feeds : ∀ t ∈ ts, t.Feeds s.varyingWidth) (h : s.refusal? = some e) :
    (paint s ts).Satisfies Eq fun _ => True := by
  exact paint_satisfies (fun _ => rfl) (fun _ _ _ => Eq.trans) trivial
    fun t ht y x b => ⟨(pixel_of_refusal ready (feeds t ht) h).symm, by simp⟩

/-- A stage that refuses no point fails only outside the band. -/
theorem Band.paint_of_no_refusal (ready : s.Ready) (feeds : ∀ t ∈ ts, t.Feeds s.varyingWidth)
    (h : s.refusal? = none) : (paint s ts).Satisfies (fun _ _ => True) (· = .aborted) := by
  refine paint_satisfies (fun _ => trivial) (fun _ _ _ _ _ => trivial) rfl
    fun t ht y x b => ⟨trivial, fun fault hfault => ?_⟩
  rcases pixel_cases s t y x b with h' | h' | ⟨p, _, hshade, -⟩ | ⟨_, _, _, _, _, _, h'⟩
  · simp [h'] at hfault
  · simpa [h', eq_comm] using hfault
  · obtain ⟨texel, htexel⟩ := ready.exists_shade (p := p) (m := .new) (feeds t ht) h
    rw [htexel] at hshade
    cases hshade
  · simp [h'] at hfault

end Rules

end GraphicsPipeline
