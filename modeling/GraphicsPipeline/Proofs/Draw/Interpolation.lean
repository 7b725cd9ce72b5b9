import GraphicsPipeline.Proofs.Draw.Banding

/-!
# Linked stages

The check of a pipeline, the vertex stage and the fragment stage agree on where the numbers of an
output lie: what one strings together, the other cuts into the same pieces. Interpolation goes
number by number, so it commutes with cutting (`getElem?_splitLengths_weightedSum`).
-/

namespace GraphicsPipeline

/-! ### Pieces of lists -/

section Pieces

variable {α β γ : Type} {lengths : List Nat}

lemma splitLengths_map (f : α → β) (as : List α) :
    lengths.splitLengths (as.map f) = (lengths.splitLengths as).map (List.map f) := by
  induction lengths generalizing as with
  | nil => rfl
  | cons n lengths ih => simp [List.splitLengths_cons, ← List.map_drop, ih]

lemma splitLengths_zipWith (f : α → β → γ) (as : List α) (bs : List β) :
    lengths.splitLengths (List.zipWith f as bs) =
      List.zipWith (List.zipWith f) (lengths.splitLengths as) (lengths.splitLengths bs) := by
  induction lengths generalizing as bs with
  | nil => rfl
  | cons n lengths ih => simp [List.splitLengths_cons, List.take_zipWith, List.drop_zipWith, ih]

/-- What lies beyond the pieces does not matter. -/
lemma splitLengths_take_sum (as : List α) :
    lengths.splitLengths (as.take lengths.sum) = lengths.splitLengths as := by
  induction lengths generalizing as with
  | nil => rfl
  | cons n lengths ih =>
    rw [List.splitLengths_cons, List.splitLengths_cons, List.sum_cons, List.take_take,
      Nat.min_eq_left (Nat.le_add_right n _), List.drop_take, Nat.add_sub_cancel_left, ih]

/-- A piece of a weighted sum is the weighted sum of the pieces. -/
lemma getElem?_splitLengths_weightedSum {weights : Corners Binary32}
    {numbers pieces : Corners (List Binary32)} {k : Nat}
    (h : (numbers.map fun as => (lengths.splitLengths as)[k]?) = pieces.map some) :
    (lengths.splitLengths (weights.weightedSum numbers))[k]? =
      some (weights.weightedSum pieces) := by
  simp only [Corners.map, Corners.mk.injEq] at h
  obtain ⟨ha, hb, hc⟩ := h
  simp [Corners.weightedSum, splitLengths_zipWith, splitLengths_map, List.getElem?_zipWith, ha, hb,
    hc]

end Pieces

/-! ### Interpolation -/

namespace Triangle

variable {t : Triangle Binary32} {width : Nat}

/-- The numbers of the corners. -/
def numbers (t : Triangle Binary32) : Corners (List Binary32) :=
  t.corners.map fun c => c.varyings.toList

/-- What is interpolated at a place is the number of the weighted sum there. -/
lemma getElem?_weightedSum_numbers (t : Triangle Binary32) (weights : Corners Binary32) (i : Nat) :
    (weights.weightedSum t.numbers)[i]? = t.varying? weights i := by
  simp only [Corners.weightedSum, numbers, Corners.map, varying?, List.getElem?_zipWith,
    List.getElem?_map, Array.getElem?_toList]
  cases t.corners.a.varyings[i]? <;> cases t.corners.b.varyings[i]? <;>
    cases t.corners.c.varyings[i]? <;> rfl

lemma eq_take_of_mapM_varying? {weights : Corners Binary32} {numbers : List Binary32}
    (h : (List.range width).mapM (fun i => orAbort (t.varying? weights i)) = .ok numbers) :
    numbers = (weights.weightedSum t.numbers).take width := by
  have hall := mapM_eq_ok.1 h
  have hlength : numbers.length = width := by rw [← hall.length_eq, List.length_range]
  apply List.ext_getElem?
  intro i
  by_cases hi : i < width
  · obtain ⟨x, hx, hvarying⟩ := getElem?_of_forall₂ hall (List.getElem?_range hi)
    rw [List.getElem?_take_of_lt hi, getElem?_weightedSum_numbers, hx, orAbort_eq_ok.1 hvarying]
  · rw [List.getElem?_take_eq_none (Nat.le_of_not_lt hi), List.getElem?_eq_none (by omega)]

end Triangle

/-- The inputs at a point are the pieces of the weighted sum. -/
lemma FragmentStage.Ready.exists_inputs_weightedSum {s : FragmentStage} {t : Triangle Binary32}
    (ready : s.Ready) (feeds : t.Feeds s.varyingWidth) (weights : Corners Binary32) :
    ∃ inputs, s.inputs t weights = .ok inputs ∧ inputs.toList.map Value.arity = s.program.inputs ∧
      inputs.toList.map Value.components =
        (s.program.inputs.map Arity.width).splitLengths (weights.weightedSum t.numbers) := by
  obtain ⟨numbers, inputs, hnumbers, hinputs, harities, hpieces⟩ := ready.exists_inputs feeds
  refine ⟨inputs, hinputs, harities, ?_⟩
  rw [hpieces, Triangle.eq_take_of_mapM_varying? hnumbers, ready.width, splitLengths_take_sum]

/-- A ready stage runs its program on the inputs at a point. -/
lemma FragmentStage.Ready.runsOn {s : FragmentStage} {t : Triangle Binary32}
    {weights : Corners Binary32} {inputs : Array Value} (ready : s.Ready)
    (hinputs : s.inputs t weights = .ok inputs) : s.RunsOn t weights inputs := by
  rcases hnew : (Machine.new.run s.program inputs s.bindings).2 with fault | outputs
  · have hshade : ∀ m, (s.shade t weights m).2 = .error fault := fun m =>
      shade_of_run_error hinputs (Machine.run_snd_eq.trans hnew)
    exact ⟨by simp [hshade, hnew], by simp [hshade, hnew], fun m => shade_fst hinputs⟩
  · obtain ⟨v, hv⟩ := ready.exists_output hnew
    have hshade : ∀ m, (s.shade t weights m).2 = .ok (colorOf v).pack := fun m =>
      shade_of_run_ok hinputs (Machine.run_snd_eq.trans hnew) hv
    exact ⟨by simp [hshade, hnew, hv], by simp [hshade, hnew], fun m => shade_fst hinputs⟩

/-! ### Faults of the fragment stage -/

namespace Bindings

variable {b : Bindings} {e : Error}

lemma uniform_eq_error {group index : UInt32} (h : b.uniform group index = .error e) :
    e = .missingUniformBuffer ∨ e = .uniformOutOfBounds group index := by
  unfold uniform at h
  split at h
  · cases h
    exact .inl rfl
  · split at h <;> cases h
    exact .inr rfl

lemma refusal?_eq_some {i : Instr} (h : b.refusal? i = some e) :
    e = .missingUniformBuffer ∨ e = .missingSampler ∨
      ∃ group index, e = .uniformOutOfBounds group index := by
  cases i <;> simp only [refusal?, reduceCtorEq] at h
  case uniform out group index =>
    split at h
    · cases h
    · rename_i herror
      cases h
      rcases uniform_eq_error herror with rfl | rfl
      · exact .inl rfl
      · exact .inr (.inr ⟨group, index, rfl⟩)
  case sample =>
    split at h <;> cases h
    exact .inr (.inl rfl)

end Bindings

/-- At points of triangles that feed it, a ready stage fails only for what the bindings lack. -/
lemma FragmentStage.Ready.fault_of_shade {s : FragmentStage} {t : Triangle Binary32}
    (ready : s.Ready) (feeds : t.Feeds s.varyingWidth) {weights : Corners Binary32} {m : Machine}
    {fault : Fault} (h : (s.shade t weights m).2 = .error fault) :
    fault = .refused .missingUniformBuffer ∨ fault = .refused .missingSampler ∨
      ∃ group index, fault = .refused (.uniformOutOfBounds group index) := by
  cases hrefusal : s.refusal? with
  | none =>
    obtain ⟨texel, hok⟩ := ready.exists_shade (m := m) (p := weights) feeds hrefusal
    cases hok.symm.trans h
  | some e =>
    cases (ready.shade_eq_error feeds hrefusal).symm.trans h
    obtain ⟨i, -, hi⟩ := List.exists_of_findSome?_eq_some hrefusal
    rcases Bindings.refusal?_eq_some hi with rfl | rfl | ⟨group, index, rfl⟩
    · exact .inl rfl
    · exact .inr (.inl rfl)
    · exact .inr (.inr ⟨group, index, rfl⟩)

namespace Pipeline

variable {p : Pipeline} {width : Nat} {buffer : ByteArray} {bindings : Bindings} {count : UInt64}
  {vertices : Array (ShadedVertex Binary32)}

/-- Every vertex carries the outputs that the vertex program has for it. -/
lemma carries_of_shadeVertices (linked : p.check = .ok width)
    (vertex : p.vertex.check = .ok p.vertex)
    (sampler : ∀ t, bindings.sampler = some t → t.WellSized)
    (shaded : shadeVertices p.vertex p.layout buffer bindings count = .ok vertices) {i : Nat}
    {v : ShadedVertex Binary32} (hv : vertices[i]? = some v) :
    p.Carries buffer bindings width i v := by
  obtain ⟨hfront, hfloat, hwidth⟩ := linkWidth_eq_ok (check_eq_ok linked).2
  obtain ⟨values, outputs, hfetch, hrun, houtputs⟩ := ofOutputs_of_shadeVertices shaded hv
  have harities := Machine.arity_of_run_eq_ok vertex sampler hrun
  have hgives : p.vertexOutputs buffer bindings i = .ok outputs := by
    simp [vertexOutputs, hfetch, hrun]
  constructor
  · rw [hwidth]
    exact ShadedVertex.sum_le_size_varyings harities houtputs hfront hfloat
  · intro k a hk
    obtain ⟨x, hx, harity, hpiece⟩ :=
      ShadedVertex.splitLengths_varyings harities houtputs hfront hfloat hk
    exact ⟨x, by simpa only [varying?, hgives] using hx, harity, hpiece⟩

/-- At the points of a triangle of vertices that carry their outputs, the outputs are
interpolated. -/
lemma interpolates_of_carries {t : Triangle Binary32} {j : Corners Nat}
    {v : Corners (ShadedVertex Binary32)}
    (ready : FragmentStage.Ready ⟨p.fragment, bindings, width⟩)
    (a : p.Carries buffer bindings width j.a v.a) (b : p.Carries buffer bindings width j.b v.b)
    (c : p.Carries buffer bindings width j.c v.c)
    (hvaryings : t.corners.map Corner.varyings = v.map ShadedVertex.varyings)
    (weights : Corners Binary32) : p.Interpolates buffer bindings width j t weights := by
  simp only [Corners.map, Corners.mk.injEq] at hvaryings
  obtain ⟨hva, hvb, hvc⟩ := hvaryings
  have feeds : t.Feeds width := by
    rw [Triangle.Feeds, hva, hvb, hvc]
    exact ⟨a.width, b.width, c.width⟩
  refine ⟨?_, fun m fault h => ready.fault_of_shade feeds h⟩
  obtain ⟨inputs, hinputs, harities, hpieces⟩ := ready.exists_inputs_weightedSum feeds weights
  refine ⟨inputs, hinputs, harities, fun k hk => ?_, ready.runsOn hinputs⟩
  have hk := List.getElem?_eq_getElem hk
  obtain ⟨x, hx, -, hpx⟩ := a.piece k _ hk
  obtain ⟨y, hy, -, hpy⟩ := b.piece k _ hk
  obtain ⟨z, hz, -, hpz⟩ := c.piece k _ hk
  refine ⟨⟨x, y, z⟩, by simp only [Corners.map, hx, hy, hz], ?_⟩
  -- the inputs are pieces of the sum, which are the sums of the pieces, and these are the outputs
  rw [hpieces]
  apply getElem?_splitLengths_weightedSum
  simp only [Corners.map, Triangle.numbers, hva, hvb, hvc]
  rw [cut] at hpx hpy hpz
  rw [hpx, hpy, hpz]

/-- The check of a pipeline keeps what it promises: the number that it gives is the sum of the
widths of the fragment program's inputs, every vertex that is shaded carries the outputs of the
vertex program, and at every point of a triangle of such vertices the inputs are these outputs,
interpolated. The corners of the triangle are the vertices in their order or the other way round. -/
theorem carries_and_interpolates (linked : p.check = .ok width)
    (vertex : p.vertex.check = .ok p.vertex) (fragment : p.fragment.check = .ok p.fragment)
    (sampler : ∀ t, bindings.sampler = some t → t.WellSized)
    (shaded : shadeVertices p.vertex p.layout buffer bindings count = .ok vertices) :
    width = (p.fragment.inputs.map Arity.width).sum ∧
      (∀ (i : Nat) v, vertices[i]? = some v → p.Carries buffer bindings width i v) ∧
      ∀ (i : Corners Nat) v screenWidth screenHeight t,
        (i.map fun i => vertices[i]?) = v.map some →
        Triangle.ofVertices v screenWidth screenHeight = some t →
        ∃ j, (j = i ∨ j = i.flip) ∧
          (j.map fun i => vertices[i]?.map (Corner.ofVertex screenWidth screenHeight)) =
            t.corners.map some ∧
          ∀ weights, p.Interpolates buffer bindings width j t weights := by
  have hcarries : ∀ (i : Nat) v, vertices[i]? = some v → p.Carries buffer bindings width i v :=
    fun i v hv => carries_of_shadeVertices linked vertex sampler shaded hv
  refine ⟨(linkWidth_eq_ok (check_eq_ok linked).2).2.2, hcarries, ?_⟩
  intro i v screenWidth screenHeight t hv ht
  simp only [Corners.map, Corners.mk.injEq] at hv
  obtain ⟨ha, hb, hc⟩ := hv
  have ready := ready_of_check fragment sampler linked
  rcases (Triangle.ofVertices_eq_some ht).1 with hcorners | hcorners
  · refine ⟨i, .inl rfl, by simp [Corners.map, hcorners, ha, hb, hc], ?_⟩
    exact interpolates_of_carries ready (hcarries _ _ ha) (hcarries _ _ hb) (hcarries _ _ hc)
      (by rw [hcorners]; rfl)
  · refine ⟨i.flip, .inr rfl, by simp [Corners.map, Corners.flip, hcorners, ha, hb, hc], ?_⟩
    exact interpolates_of_carries (v := v.flip) ready (hcarries _ _ ha) (hcarries _ _ hc)
      (hcarries _ _ hb) (by rw [hcorners]; rfl)

/-- The position lies between two varying outputs of different widths, and a word comes after. -/
def mixed : Pipeline where
  vertex := ⟨[.vec4, .vec2], [.vec2, .vec4, .scalar, .int], some 1, 4,
    [.input 0 0, .input 1 1, .extract 2 0 .w, .constInt 3 7, .store 1 0, .store 0 1, .store 2 2,
      .store 3 3]⟩
  fragment := ⟨[.vec2, .scalar], [.vec2], none, 2, [.input 0 0, .input 1 1, .store 0 0]⟩
  layout := ⟨[⟨.vec4, 0, 24⟩, ⟨.vec2, 16, 24⟩]⟩

/-- A vertex at a place of the screen, with its place as what is interpolated. -/
def placed (x y : Binary32) : ShadedVertex Binary32 where
  clip := ⟨x, y, .zero, .one⟩
  varyings := #[x, y, .one]

/-- A triangle over the whole screen, counterclockwise. -/
def wideScreen : Corners (ShadedVertex Binary32) :=
  ⟨placed (-.one) (-.one), placed ⟨0x40400000⟩ (-.one), placed (-.one) ⟨0x40400000⟩⟩

/-- The buffer of its vertices. -/
def wideScreenBuffer : ByteArray :=
  let numbers := [wideScreen.a, wideScreen.b, wideScreen.c].flatMap fun v =>
    v.clip.toList ++ [v.clip.x, v.clip.y]
  Storage.ofBytes (numbers.flatMap fun x => LittleEndian.encode x.bits)

/-- The places of the vertices are interpolated over the triangle. -/
theorem carries_and_interpolates_mixed :
    shadeVertices mixed.vertex mixed.layout wideScreenBuffer unbound 3 =
        .ok #[wideScreen.a, wideScreen.b, wideScreen.c] ∧
      mixed.Carries wideScreenBuffer unbound 3 2 wideScreen.c ∧
      ∃ t j, Triangle.ofVertices wideScreen 2 3 = some t ∧
        ∀ weights, mixed.Interpolates wideScreenBuffer unbound 3 j t weights := by
  have shaded : shadeVertices mixed.vertex mixed.layout wideScreenBuffer unbound 3 =
      .ok #[wideScreen.a, wideScreen.b, wideScreen.c] := by decide +kernel
  have linked : mixed.check = .ok 3 := by decide +kernel
  obtain ⟨-, hcarries, hinterpolates⟩ := carries_and_interpolates linked (by decide +kernel)
    (by decide +kernel) (by simp [unbound]) shaded
  obtain ⟨t, ht⟩ := Option.isSome_iff_exists.1
    (show (Triangle.ofVertices wideScreen 2 3).isSome by decide +kernel)
  obtain ⟨j, -, -, hj⟩ := hinterpolates ⟨0, 1, 2⟩ wideScreen 2 3 t rfl ht
  exact ⟨shaded, hcarries 2 wideScreen.c rfl, t, j, ht, hj⟩

end Pipeline

end GraphicsPipeline
