import GraphicsPipeline.Proofs.Raster.Banding
import GraphicsPipeline.Proofs.Word.Basic
import GraphicsPipeline.Raster.Visibility

/-!
# What a pixel shows

Painting is seen apart at each pixel: what happens there are the fragments of the triangles, in
order, and nothing else (`Band.Sized.paint_eq_ok_iff`). Drawn one after another, fragments leave the
least of all depths, and the colour of the last of those that have it (`Pixel.becomes_of_each`).
-/

namespace GraphicsPipeline

namespace Fragment

variable {f g : Fragment} {fs gs : List Fragment} {stored d : UInt32}

/-! ### The nearest depth -/

lemma nearest_cons : nearest stored (f :: fs) = nearest (min stored f.depth) fs := rfl

/-- A depth is at least as near as the nearest if it is as near as all. -/
lemma le_nearest_iff : d ≤ nearest stored fs ↔ d ≤ stored ∧ ∀ f ∈ fs, d ≤ f.depth := by
  induction fs generalizing stored with
  | nil => simp [nearest]
  | cons f fs ih => rw [nearest_cons, ih, Std.le_min_iff, List.forall_mem_cons, and_assoc]

lemma nearest_le (stored : UInt32) (fs : List Fragment) : nearest stored fs ≤ stored :=
  (le_nearest_iff.1 (UInt32.le_refl _)).1

/-- The nearest depth is stored, or some fragment has it. -/
lemma nearest_eq_or (stored : UInt32) (fs : List Fragment) :
    nearest stored fs = stored ∨ ∃ f ∈ fs, f.depth = nearest stored fs := by
  induction fs generalizing stored with
  | nil => exact .inl rfl
  | cons f fs ih =>
    rw [nearest_cons]
    rcases ih (min stored f.depth) with h | ⟨g, hg, h⟩
    · rw [h]
      rcases Std.min_eq_or (a := stored) (b := f.depth) with hmin | hmin
      · exact .inl hmin
      · exact .inr ⟨f, List.mem_cons_self, hmin.symm⟩
    · exact .inr ⟨g, List.mem_cons_of_mem f hg, h⟩

/-- The order of the fragments does not matter to the nearest depth. -/
lemma nearest_eq_of_perm (h : (fs.map depth).Perm (gs.map depth)) :
    nearest stored fs = nearest stored gs :=
  h.foldl_op_eq

/-- The depths at a pixel are those of the triangles, whatever the stage that shades them. -/
lemma map_depth_listAt (s : FragmentStage) (ts : List (Triangle Binary32)) (x y : UInt32) :
    (listAt s ts x y).map depth = ts.filterMap fun t =>
      if t.bounds.Contains x y then (t.fragment? x y).map Prod.snd else none := by
  rw [listAt, List.map_filterMap]
  congr 1
  funext t
  rw [ofTriangle?]
  split_ifs
  · rw [Option.map_map]
    rfl
  · rfl

/-- Nor does the order of the triangles matter. -/
lemma nearest_listAt_eq_of_perm (s s' : FragmentStage) {ts ts' : List (Triangle Binary32)}
    (h : ts.Perm ts') (x y : UInt32) :
    nearest stored (listAt s ts x y) = nearest stored (listAt s' ts' x y) := by
  apply nearest_eq_of_perm
  rw [map_depth_listAt, map_depth_listAt]
  exact h.filterMap _

/-! ### The first fragment -/

/-- A fragment that something nearer hides does not count. -/
lemma nearest_cons_of_lt (h : stored < f.depth) : nearest stored (f :: fs) = nearest stored fs := by
  rw [nearest_cons, UInt32.min_def, if_pos (UInt32.le_of_lt h)]

/-- A fragment that nothing hides takes the place of what is stored. -/
lemma nearest_cons_of_not_lt (h : ¬stored < f.depth) :
    nearest stored (f :: fs) = nearest f.depth fs := by
  rw [nearest_cons, UInt32.min_def]
  by_cases hle : stored ≤ f.depth
  · rw [if_pos hle, UInt32.le_antisymm hle (UInt32.not_lt.1 h)]
  · rw [if_neg hle]

lemma seen?_cons_of_lt (h : stored < f.depth) : seen? stored (f :: fs) = seen? stored fs := by
  have hne : f.depth ≠ nearest stored fs := by
    intro heq
    exact UInt32.lt_irrefl _ (UInt32.lt_of_lt_of_le (heq ▸ h) (nearest_le stored fs))
  rw [seen?, nearest_cons_of_lt h, List.filter_cons_of_neg (by simpa using hne), seen?]

/-- Where nothing hides the first fragment, it is seen if no other is. -/
lemma seen?_cons_of_not_lt (h : ¬stored < f.depth) :
    seen? stored (f :: fs) = (seen? f.depth fs).or (some f) := by
  rw [seen?, nearest_cons_of_not_lt h, seen?]
  by_cases hf : f.depth = nearest f.depth fs
  · rw [List.filter_cons_of_pos (by simpa using hf), List.getLast?_cons]
    cases (fs.filter fun g => g.depth = nearest f.depth fs).getLast? <;> rfl
  · rw [List.filter_cons_of_neg (by simpa using hf)]
    -- some other fragment is nearer, so one is seen
    obtain ⟨g, hg, hdepth⟩ := (nearest_eq_or f.depth fs).resolve_left (Ne.symm hf)
    have hmem : g ∈ fs.filter fun g => g.depth = nearest f.depth fs := by simp [hg, hdepth]
    rw [List.getLast?_eq_some_getLast (List.ne_nil_of_mem hmem)]
    rfl

/-- Of the fragments that are drawn on a pixel, the first is seen if it is not hidden and no other
is seen. -/
lemma visible?_cons (stored : Option UInt32) : visible? stored (f :: fs) =
    if stored.any (· < f.depth) then visible? stored fs
    else (visible? (stored.map fun _ => f.depth) fs).or (some f) := by
  cases stored with
  | none =>
    simp only [visible?, List.getLast?_cons, Option.any_none]
    cases fs.getLast? <;> rfl
  | some stored =>
    by_cases h : stored < f.depth
    · simp [visible?, h, seen?_cons_of_lt h]
    · simp [visible?, h, seen?_cons_of_not_lt h]

end Fragment

/-! ### One pixel -/

namespace Pixel

variable {f : Fragment} {fs : List Fragment} {p q : Pixel}

/-- Draws a fragment on a pixel: nothing happens where something nearer is stored. -/
def draw (f : Fragment) : Step Pixel := fun p =>
  if p.depth.any (· < f.depth) then (p, .ok ())
  else
    match f.color with
    | .error fault => (p, .error fault)
    | .ok color => (⟨color, p.depth.map fun _ => f.depth⟩, .ok ())

lemma becomes_nil (p : Pixel) : p.Becomes [] p := by
  obtain ⟨color, depth⟩ := p
  cases depth <;> exact ⟨rfl, by simp [Fragment.visible?, Fragment.seen?], fun _ => rfl⟩

/-- A fragment that is hidden at first makes no difference. -/
lemma Becomes.cons_of_hidden (hidden : p.depth.any (· < f.depth)) (h : p.Becomes fs q) :
    p.Becomes (f :: fs) q where
  depth := by
    rw [h.depth]
    cases hp : p.depth with
    | none => rfl
    | some stored =>
      have hlt : stored < f.depth := by simpa [hp] using hidden
      rw [Option.map_some, Option.map_some, Fragment.nearest_cons_of_lt hlt]
  seen := by
    rw [Fragment.visible?_cons, if_pos hidden]
    exact h.seen
  unseen := by
    rw [Fragment.visible?_cons, if_pos hidden]
    exact h.unseen

/-- A fragment that is drawn at first is seen in the end if no other is. -/
lemma Becomes.cons_of_drawn (drawn : ¬p.depth.any (· < f.depth)) {color : Texel}
    (hcolor : f.color = .ok color)
    (h : Becomes ⟨color, p.depth.map fun _ => f.depth⟩ fs q) : p.Becomes (f :: fs) q where
  depth := by
    rw [h.depth]
    cases hp : p.depth with
    | none => rfl
    | some stored =>
      have hlt : ¬stored < f.depth := by simpa [hp] using drawn
      simp only [Option.map_some, Fragment.nearest_cons_of_not_lt hlt]
  seen := by
    rw [Fragment.visible?_cons, if_neg drawn]
    intro g hg
    -- if nothing behind `f` is seen over it, it is `f` that is seen
    cases hfs : Fragment.visible? (p.depth.map fun _ => f.depth) fs with
    | none =>
      obtain rfl : f = g := by simpa [hfs] using hg
      rw [hcolor, h.unseen hfs]
    | some g' =>
      obtain rfl : g' = g := by simpa [hfs] using hg
      exact h.seen g' hfs
  unseen := by
    rw [Fragment.visible?_cons, if_neg drawn]
    simp

/-- What is drawn on a pixel in order leaves the nearest depth and the colour that is seen. -/
theorem becomes_of_each (h : (Step.each draw fs p).2 = .ok ()) :
    p.Becomes fs (Step.each draw fs p).1 := by
  induction fs generalizing p with
  | nil => exact becomes_nil p
  | cons f fs ih =>
    rw [Step.each] at h ⊢
    by_cases hidden : p.depth.any (· < f.depth)
    · have hdraw : draw f p = (p, .ok ()) := by rw [draw, if_pos hidden]
      rw [Step.andThen_of_ok hdraw] at h ⊢
      exact (ih h).cons_of_hidden hidden
    · cases hcolor : f.color with
      | error fault =>
        have hdraw : draw f p = (p, .error fault) := by simp [draw, hidden, hcolor]
        simp [Step.andThen_of_error hdraw] at h
      | ok color =>
        have hdraw : draw f p = (⟨color, p.depth.map fun _ => f.depth⟩, .ok ()) := by
          simp [draw, hidden, hcolor]
        rw [Step.andThen_of_ok hdraw] at h ⊢
        exact (ih h).cons_of_drawn hidden hcolor

/-- A depth never grows. -/
lemma Becomes.depth_le (h : p.Becomes fs q) {stored : UInt32} (hp : p.depth = some stored) :
    ∃ d ≤ stored, q.depth = some d := by
  refine ⟨_, Fragment.nearest_le stored fs, ?_⟩
  rw [h.depth, hp, Option.map_some]

end Pixel

/-! ### The pixels of a band -/

lemma Texel.toWord_ofWord (w : UInt32) : (Texel.ofWord w).toWord = w :=
  LittleEndian.decode_encode w

namespace Band

variable {b b' whole : Band} {s : FragmentStage} {t : Triangle Binary32}
  {ts : List (Triangle Binary32)} {x y x' y' d : UInt32} {p p' : Pixel} {color : Texel}

/-- A pixel of the band. -/
@[ext] structure Place (b : Band) where
  x : UInt32
  y : UInt32
  first : b.y₀ ≤ y
  last : y.toNat < b.y₀.toNat + b.rows.toNat
  column : x < b.width

/-- The band has the colour and the depth of the pixel. -/
structure Shows (b : Band) (x y : UInt32) (p : Pixel) : Prop where
  color : Storage.texel? b.color (b.index x y) = some p.color
  depth : (b.depth.map fun data => (Storage.texel? data (b.index x y)).map Texel.toWord) =
    p.depth.map some

lemma Place.index_lt (k : b.Place) : b.index k.x k.y < b.rows.toNat * b.width.toNat :=
  Band.index_lt k.first k.last k.column

/-- Different pixels have different places. -/
lemma Place.eq_of_index_eq {k k' : b.Place} (h : b.index k.x k.y = b.index k'.x k'.y) : k = k' := by
  have hx := UInt32.lt_iff_toNat_lt.1 k.column
  have hx' := UInt32.lt_iff_toNat_lt.1 k'.column
  have hy := UInt32.le_iff_toNat_le.1 k.first
  have hy' := UInt32.le_iff_toNat_le.1 k'.first
  have hpos : 0 < b.width.toNat := Nat.zero_lt_of_lt hx
  simp only [index] at h
  have hdiv := congrArg (· / b.width.toNat) h
  have hmod := congrArg (· % b.width.toNat) h
  simp only [Nat.mul_comm _ b.width.toNat, Nat.mul_add_div hpos, Nat.mul_add_mod,
    Nat.div_eq_of_lt hx, Nat.div_eq_of_lt hx', Nat.mod_eq_of_lt hx, Nat.mod_eq_of_lt hx',
    Nat.add_zero] at hdiv hmod
  ext
  · exact hmod
  · omega

/-- Every pixel of the band has a colour, and a depth where depth is tested. -/
lemma Sized.exists_shows (h : b.Sized) (k : b.Place) : ∃ p, b.Shows k.x k.y p := by
  have hindex := k.index_lt
  have hcolor : 4 * b.index k.x k.y + 3 < b.color.size := by
    rw [h.color]
    omega
  obtain ⟨color, hcolors⟩ := Storage.exists_texel? b.color _ hcolor
  cases hdepth : b.depth with
  | none => exact ⟨⟨color, none⟩, hcolors, by simp [hdepth]⟩
  | some data =>
    obtain ⟨texel, htexel⟩ := Storage.exists_texel? data (b.index k.x k.y)
      (hcolor.trans_eq (h.depth data hdepth).symm)
    exact ⟨⟨color, some texel.toWord⟩, hcolors, by simp [hdepth, htexel]⟩

/-- There is a depth in the band where the pixel has one. -/
lemma Shows.depth_cases (h : b.Shows x y p) : (b.depth = none ∧ p.depth = none) ∨
    ∃ data texel, b.depth = some data ∧ Storage.texel? data (b.index x y) = some texel ∧
      p.depth = some texel.toWord := by
  have hdepth := h.depth
  cases hb : b.depth with
  | none => exact .inl ⟨rfl, by simpa [hb, eq_comm] using hdepth⟩
  | some data =>
    obtain ⟨d, hp, htexel⟩ : ∃ d, p.depth = some d ∧
        (Storage.texel? data (b.index x y)).map Texel.toWord = some d := by
      cases hp : p.depth <;> simp_all
    obtain ⟨texel, hdata, rfl⟩ := Option.map_eq_some_iff.1 htexel
    exact .inr ⟨data, texel, rfl, hdata, hp⟩

/-- The depth of the pixel says what is hidden. -/
lemma Shows.hides (h : b.Shows x y p) :
    b.hides (b.index x y) d = .ok (p.depth.any (· < d)) := by
  rcases h.depth_cases with ⟨hb, hp⟩ | ⟨data, texel, hb, htexel, hp⟩
  · simp [Band.hides, hb, hp]
  · simp [Band.hides, hb, htexel, hp]

/-- What is written at a pixel is shown there, and the other pixels are shown as before. -/
lemma Shows.write (h : b.Shows x' y' p) (hwrite : b.write (b.index x y) color d = .ok b') :
    b'.Shows x' y'
      (if b.index x' y' = b.index x y then ⟨color, p.depth.map fun _ => d⟩ else p) := by
  obtain ⟨colors, depths, hcolors, hdepths, rfl⟩ := write_eq_ok.1 hwrite
  have hcolor : Storage.texel? colors (b.index x' y') =
      if b.index x' y' = b.index x y then some color else some p.color := by
    rw [Storage.texel?_setTexel? hcolors, h.color]
  rcases h.depth_cases with ⟨hb, hp⟩ | ⟨data, texel, hb, htexel, hp⟩
  · obtain rfl : none = depths := by simpa [hb] using hdepths
    split_ifs at hcolor ⊢
    · exact ⟨hcolor, by rw [hp]; rfl⟩
    · exact ⟨hcolor, by rw [hp]; rfl⟩
  · obtain ⟨data', hset, rfl⟩ : ∃ data', Storage.setTexel? data (b.index x y) (.ofWord d) =
        some data' ∧ some data' = depths := by simpa [hb] using hdepths
    have hdata : Storage.texel? data' (b.index x' y') =
        if b.index x' y' = b.index x y then some (.ofWord d) else some texel := by
      rw [Storage.texel?_setTexel? hset, htexel]
    split_ifs at hcolor hdata ⊢
    · refine ⟨hcolor, ?_⟩
      rw [hp, Option.map_some, Option.map_some, ← Texel.toWord_ofWord d]
      exact congrArg (fun found => some (found.map Texel.toWord)) hdata
    · refine ⟨hcolor, ?_⟩
      rw [hp, Option.map_some]
      exact congrArg (fun found => some (found.map Texel.toWord)) hdata

/-! ### Painting, pixel by pixel -/

/-- Another band of the same shape shows the pixel at the place. -/
def Views (b : Band) (k : b.Place) (b' : Band) (p : Pixel) : Prop :=
  b.SameShape b' ∧ b'.Shows k.x k.y p

/-- The step of a triangle at a pixel draws its fragment there, if it has one. -/
def drawAt (s : FragmentStage) (t : Triangle Binary32) (x y : UInt32) : Step Pixel :=
  (Fragment.ofTriangle? s t x y).elim Step.skip Pixel.draw

/-- A triangle is painted at a pixel as its fragment is drawn there. -/
lemma Views.pixel (hb : b.Sized) {k : b.Place} (h : b.Views k b' p)
    (hcontains : t.bounds.Contains k.x k.y) :
    b.Views k (Band.pixel s t k.y k.x b').1 (drawAt s t k.x k.y p).1 ∧
      (Band.pixel s t k.y k.x b').2 = (drawAt s t k.x k.y p).2 := by
  obtain ⟨hshape, hshows⟩ := h
  unfold Band.pixel drawAt
  rw [Fragment.ofTriangle?, if_pos hcontains]
  cases t.fragment? k.x k.y with
  | none => exact ⟨⟨hshape, hshows⟩, rfl⟩
  | some fragment =>
    obtain ⟨weights, d⟩ := fragment
    simp only [Option.map_some, Option.elim_some, hshows.hides, Pixel.draw]
    by_cases hidden : p.depth.any (· < d)
    · simp only [hidden]
      exact ⟨⟨hshape, hshows⟩, rfl⟩
    · rw [Bool.not_eq_true] at hidden
      simp only [hidden]
      cases (s.shade t (t.perspective weights) .new).2 with
      | error fault => exact ⟨⟨hshape, hshows⟩, rfl⟩
      | ok color =>
        have hindex : b'.index k.x k.y < b'.rows.toNat * b'.width.toNat := by
          rw [hshape.index, hshape.rows, hshape.width]
          exact k.index_lt
        obtain ⟨b'', hwrite⟩ := (hb.of_sameShape hshape).roomy.exists_write color d hindex
        simp only [hwrite]
        have hshown := hshows.write hwrite
        rw [if_pos rfl] at hshown
        exact ⟨⟨hshape.trans _ _ _ (write_sameShape hwrite), hshown⟩, rfl⟩

/-- A pixel stays as it was where another is painted. -/
lemma Views.pixel_elsewhere {k k₀ : b.Place} (h : b.Views k b' p) (hne : k ≠ k₀) :
    b.Views k (Band.pixel s t k₀.y k₀.x b').1 p := by
  obtain ⟨hshape, hshows⟩ := h
  rcases pixel_cases s t k₀.y k₀.x b' with h | h | ⟨_, _, _, h⟩ | ⟨_, _, _, _, _, hwrite, h⟩ <;>
    rw [h]
  · exact ⟨hshape, hshows⟩
  · exact ⟨hshape, hshows⟩
  · exact ⟨hshape, hshows⟩
  · have hindex : b'.index k.x k.y ≠ b'.index k₀.x k₀.y := by
      rw [hshape.index, hshape.index]
      exact fun heq => hne (Place.eq_of_index_eq heq)
    have hshown := hshows.write hwrite
    rw [if_neg hindex] at hshown
    exact ⟨hshape.trans _ _ _ (write_sameShape hwrite), hshown⟩

/-- A triangle is painted at one pixel as its fragment is drawn there, and nowhere else. -/
lemma pixel_splitsInto (hb : b.Sized) (k₀ : b.Place) (hcontains : t.bounds.Contains k₀.x k₀.y) :
    (Band.pixel s t k₀.y k₀.x).SplitsInto b.Views fun k =>
      if k₀.x = k.x then if k₀.y = k.y then drawAt s t k.x k.y else Step.skip else Step.skip := by
  -- one pixel of the band is one step at its own place, and no step at any other
  intro b' p hviews
  obtain ⟨hpixel, hresult⟩ := (hviews k₀).pixel (s := s) hb hcontains
  constructor
  · rw [hresult]
    constructor
    · intro hok k
      dsimp only
      split_ifs with hx hy
      · obtain rfl : k₀ = k := Place.ext hx hy
        exact hok
      · rfl
      · rfl
    · intro hok
      simpa using hok k₀
  · intro _ k
    dsimp only
    split_ifs with hx hy
    · obtain rfl : k₀ = k := Place.ext hx hy
      exact hpixel
    · exact (hviews k).pixel_elsewhere fun h => hy (by rw [h])
    · exact (hviews k).pixel_elsewhere fun h => hx (by rw [h])

/-- Among its rows and columns, a triangle comes once to each pixel within its bounds. -/
lemma each_drawAt_eq {last : UInt32} (hlast : last.toNat = b.y₀.toNat + b.rows.toNat)
    (k : b.Place) :
    Step.each (fun y => Step.each (fun x =>
        if x = k.x then if y = k.y then drawAt s t k.x k.y else Step.skip else Step.skip)
      t.columns) (t.rowsWithin b.y₀ last) = drawAt s t k.x k.y := by
  have hcontains : t.bounds.Contains k.x k.y ↔ k.x ∈ t.columns ∧ k.y ∈ t.rowsWithin b.y₀ last := by
    have hlt : k.y < last := by
      rw [UInt32.lt_iff_toNat_lt, hlast]
      exact k.last
    rw [Triangle.mem_columns, Triangle.mem_rowsWithin, Bounds.Contains]
    simp only [k.first, hlt, and_self, and_true, and_assoc]
  have hdraw : ¬t.bounds.Contains k.x k.y → drawAt s t k.x k.y = Step.skip := by
    intro h
    rw [drawAt, Fragment.ofTriangle?, if_neg h]
    rfl
  simp only [Step.each_ite_eq t.nodup_columns]
  -- the loops meet a place once or, outside the bounds, never, and then nothing is drawn there
  by_cases hx : k.x ∈ t.columns
  · simp only [if_pos hx, Step.each_ite_eq (t.nodup_rowsWithin _ _)]
    by_cases hy : k.y ∈ t.rowsWithin b.y₀ last
    · rw [if_pos hy]
    · rw [if_neg hy, hdraw fun h => hy (hcontains.1 h).2]
  · simp only [if_neg hx, Step.each_skip]
    exact (hdraw fun h => hx (hcontains.1 h).1).symm

/-- A triangle is painted at each pixel as its fragment is drawn there. -/
lemma triangle_splitsInto {last : UInt32} (hb : b.Sized)
    (hlast : last.toNat = b.y₀.toNat + b.rows.toNat) (hcolumns : ∀ x ∈ t.columns, x < b.width) :
    (triangle s b.y₀ last t).SplitsInto b.Views fun k => drawAt s t k.x k.y := by
  have hpixel : ∀ y ∈ t.rowsWithin b.y₀ last, ∀ x ∈ t.columns,
      (Band.pixel s t y x).SplitsInto b.Views fun k =>
        if x = k.x then if y = k.y then drawAt s t k.x k.y else Step.skip else Step.skip := by
    intro y hy x hx
    obtain ⟨⟨hmin, hmax⟩, hfirst, hbelow⟩ := Triangle.mem_rowsWithin.1 hy
    obtain ⟨hleft, hright⟩ := Triangle.mem_columns.1 hx
    rw [UInt32.lt_iff_toNat_lt, hlast] at hbelow
    exact pixel_splitsInto hb ⟨x, y, hfirst, hbelow, hcolumns x hx⟩ ⟨hleft, hright, hmin, hmax⟩
  have htriangle := Step.SplitsInto.each fun y hy => Step.SplitsInto.each (hpixel y hy)
  simp only [each_drawAt_eq hlast] at htriangle
  exact htriangle

/-- A band is painted at each pixel as the fragments there are drawn, in order: painting succeeds if
drawing does at every pixel, and then the pixels show what was drawn. -/
theorem Sized.paint_eq_ok_iff (hb : b.Sized) (hcolumns : ∀ t ∈ ts, ∀ x ∈ t.columns, x < b.width)
    {pixels : b.Place → Pixel} (hpixels : ∀ k : b.Place, b.Shows k.x k.y (pixels k)) :
    ((Band.paint s ts b).2 = .ok () ↔ ∀ k : b.Place,
      (Step.each Pixel.draw (Fragment.listAt s ts k.x k.y) (pixels k)).2 = .ok ()) ∧
    ((Band.paint s ts b).2 = .ok () → ∀ k : b.Place, (Band.paint s ts b).1.Shows k.x k.y
      (Step.each Pixel.draw (Fragment.listAt s ts k.x k.y) (pixels k)).1) := by
  obtain ⟨last, hadd, hlast⟩ := hb.roomy.exists_last
  have hsplits := Step.SplitsInto.each fun t ht =>
    triangle_splitsInto (s := s) hb hlast (hcolumns t ht)
  have hlist : ∀ k : b.Place, Step.each (fun t => drawAt s t k.x k.y) ts =
      Step.each Pixel.draw (Fragment.listAt s ts k.x k.y) :=
    fun k => Step.each_elim
  simp only [hlist] at hsplits
  obtain ⟨hiff, hstate⟩ := hsplits b pixels fun k => ⟨.refl b, hpixels k⟩
  rw [paint_of_last hadd]
  exact ⟨hiff, fun hok k => (hstate hok k).2⟩

/-! ### The pixels of a part -/

/-- A pixel of a part is one of the whole. -/
def IsPartOf.place (h : b.IsPartOf whole) (k : b.Place) : whole.Place where
  x := k.x
  y := k.y
  first := by
    rw [h.full.y₀, UInt32.le_iff_toNat_le]
    exact Nat.zero_le _
  last := by
    rw [h.full.y₀]
    exact (k.last.trans_le h.rows).trans_eq (Nat.zero_add _).symm
  column := by
    rw [← h.width]
    exact k.column

/-- What the whole shows, the part shows. -/
lemma IsPartOf.shows (h : b.IsPartOf whole) (k : b.Place) (hshows : whole.Shows k.x k.y p) :
    b.Shows k.x k.y p := by
  obtain ⟨hindex, hlast⟩ := h.first_add_index k.first k.last (h.width ▸ k.column)
  have htexel : ∀ data : ByteArray, data.size = whole.color.size →
      Storage.texel? (Storage.texels data b.first b.last) (b.index k.x k.y) =
        Storage.texel? data (whole.index k.x k.y) := by
    intro data hdata
    rw [Storage.texel?_texels (h.last_le.trans_eq hdata.symm) hlast, hindex]
  refine ⟨?_, ?_⟩
  · rw [h.color, htexel _ rfl, hshows.color]
  · rw [← hshows.depth, h.depth]
    cases hdepth : whole.depth with
    | none => rfl
    | some data => simp [htexel data (h.full.depth data hdepth)]

end Band

/-! ### The pixels of a target -/

namespace Target

variable {s : FragmentStage} {ts : List (Triangle Binary32)} {t : Target}
  {bandRows length : UInt64}

/-- Where all bands can be painted, the whole target can be in one pass. -/
lemma Complete.paint_whole_eq_ok (h : t.Complete)
    (hcolumns : ∀ tri ∈ ts, ∀ x ∈ tri.columns, x < t.width) (hrows : t.CountsRows bandRows)
    (hlength : t.bandLength? bandRows = some length)
    (hparts : ∀ b ∈ t.parts bandRows length, (Band.paint s ts b).2 = .ok ()) :
    (Band.paint s ts t.whole).2 = .ok () := by
  choose pixels hpixels using h.full.toSized.exists_shows
  rw [(h.full.toSized.paint_eq_ok_iff hcolumns hpixels).1]
  intro k
  -- the pixel lies in one of the bands, and there the same fragments are drawn
  obtain ⟨i, hi, hfirst, hlast⟩ := h.exists_band hrows hlength
    (UInt32.lt_iff_toNat_lt.2 (by simpa [whole] using k.last))
  have hpart := h.isPartOf hrows hlength hi
  have hok := hparts _ (List.mem_map.2 ⟨i, List.mem_range.2 hi, rfl⟩)
  rw [(hpart.sized.paint_eq_ok_iff hcolumns
    fun k' => hpart.shows k' (hpixels (hpart.place k'))).1] at hok
  exact hok ⟨k.x, k.y, hfirst, hlast, k.column⟩

/-- Where painting in bands succeeds, it shows what one pass shows. -/
theorem Complete.onBands_of_snd_ok (h : t.Complete)
    (hcolumns : ∀ tri ∈ ts, ∀ x ∈ tri.columns, x < t.width) (hrows : t.CountsRows bandRows)
    (hlength : t.bandLength? bandRows = some length)
    {paintAll : List Band → List Band × Except Fault Unit}
    (hall : PaintsAll s ts paintAll (t.parts bandRows length))
    (hok : (onBands bandRows paintAll t).2 = .ok ()) :
    (Band.paint s ts t.whole).2 = .ok () ∧
      onBands bandRows paintAll t = (Target.repainted s ts t, .ok ()) := by
  have hparts : (paintAll (t.parts bandRows length)).2 = .ok () := by
    simpa only [onBands, h.bands_eq hlength] using hok
  have hwhole := h.paint_whole_eq_ok hcolumns hrows hlength (hall.ok hparts)
  exact ⟨hwhole, h.onBands_of_ok hcolumns hrows hlength hall hwhole⟩

/-- Where painting in bands succeeds, every pixel becomes what its fragments make of it. -/
theorem Complete.becomes_of_paint (h : t.Complete)
    (hcolumns : ∀ tri ∈ ts, ∀ x ∈ tri.columns, x < t.width) (hwidth : t.width.toNat ≤ 2 ^ 24)
    (hrows : bandRows.toNat < 2 ^ 32) {t' : Target}
    (hpaint : paint s ts bandRows t = (t', .ok ())) (k : t.whole.Place) :
    ∃ before after, t.whole.Shows k.x k.y before ∧ t'.whole.Shows k.x k.y after ∧
      before.Becomes (Fragment.listAt s ts k.x k.y) after := by
  obtain ⟨length, hlength⟩ := exists_bandLength? hwidth hrows
  choose pixels hpixels using h.full.toSized.exists_shows
  rw [paint_eq_onBands] at hpaint
  obtain ⟨hok, hrepainted⟩ := h.onBands_of_snd_ok hcolumns (countsRows_of_lt hrows) hlength
    (paintBands_paintsAll .new _) (by rw [hpaint])
  rw [hpaint] at hrepainted
  cases hrepainted
  obtain ⟨hiff, hshows⟩ := h.full.toSized.paint_eq_ok_iff hcolumns hpixels
  refine ⟨pixels k, _, hpixels k, ?_, Pixel.becomes_of_each (hiff.1 hok k)⟩
  rw [whole_repainted]
  exact hshows hok k

end Target

end GraphicsPipeline
