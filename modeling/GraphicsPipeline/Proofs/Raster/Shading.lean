import GraphicsPipeline.Proofs.Raster.Triangle
import GraphicsPipeline.Proofs.Shader.Running
import GraphicsPipeline.Raster.Fragment

/-!
# Shading

A fragment stage that is ready shades every point of a triangle that feeds it, or refuses every
point for the same reason: what its program lacks does not depend on the point.
-/

namespace GraphicsPipeline

/-- The fragment program was checked and takes numbers only, as many as are interpolated. -/
structure FragmentStage.Ready (s : FragmentStage) : Prop where
  accepted : s.program.check = .ok s.program
  floats : ∀ a ∈ s.program.inputs, a.isFloat
  width : s.varyingWidth = (s.program.inputs.map Arity.width).sum
  outputs : s.program.outputs ≠ []
  sampler : ∀ t, s.bindings.sampler = some t → t.WellSized

/-- Every corner has so many numbers to interpolate. -/
def Triangle.Feeds (t : Triangle Binary32) (width : Nat) : Prop :=
  width ≤ t.corners.a.varyings.size ∧ width ≤ t.corners.b.varyings.size ∧
    width ≤ t.corners.c.varyings.size

/-- A triangle feeds what its vertices feed. -/
lemma Triangle.feeds_of_ofVertices {t : Triangle Binary32} {v : Corners (ShadedVertex Binary32)}
    {screenWidth screenHeight : UInt32} {width : Nat}
    (h : ofVertices v screenWidth screenHeight = some t)
    (hv : v.all fun v => width ≤ v.varyings.size) : t.Feeds width := by
  simp only [Corners.all, Bool.and_eq_true, decide_eq_true_eq] at hv
  obtain ⟨⟨ha, hb⟩, hc⟩ := hv
  rcases (ofVertices_eq_some h).1 with hcorners | hcorners <;> rw [Feeds, hcorners]
  · exact ⟨ha, hb, hc⟩
  · exact ⟨ha, hc, hb⟩

lemma Triangle.Feeds.exists_varying? {t : Triangle Binary32} {width i : Nat} (h : t.Feeds width)
    (hi : i < width) (p : Corners Binary32) : ∃ x, t.varying? p i = some x := by
  obtain ⟨ha, hb, hc⟩ := h
  simp only [varying?, Array.getElem?_eq_getElem (hi.trans_le ha),
    Array.getElem?_eq_getElem (hi.trans_le hb), Array.getElem?_eq_getElem (hi.trans_le hc)]
  exact ⟨_, rfl⟩

namespace FragmentStage

/-! ### Inputs -/

/-- Numbers that are as many as the arities take are cut into values of these arities. -/
lemma exists_splitInputs {arities : List Arity} (numbers : List Binary32) (values : Array Value)
    (hf : ∀ a ∈ arities, a.isFloat) (h : numbers.length = (arities.map Arity.width).sum) :
    ∃ inputs, splitInputs arities numbers values = .ok inputs ∧
      inputs.toList.map Value.arity = values.toList.map Value.arity ++ arities ∧
        inputs.toList.map Value.components = values.toList.map Value.components ++
          (arities.map Arity.width).splitLengths numbers := by
  induction arities generalizing numbers values with
  | nil => exact ⟨values, rfl, by simp, by simp⟩
  | cons a arities ih =>
    simp only [List.map_cons, List.sum_cons] at h
    obtain ⟨v, hv, rfl, hcomponents⟩ := Value.exists_ofComponents? (hf a (by simp))
      (show (numbers.take a.width).length = a.width by simp; omega)
    obtain ⟨inputs, hinputs, harities, hpieces⟩ := ih (numbers.drop v.arity.width) (values.push v)
      (fun b hb => hf b (List.mem_cons_of_mem _ hb)) (by simp; omega)
    refine ⟨inputs, ?_, by simp [harities], by simp [hpieces, hcomponents]⟩
    rw [splitInputs, if_neg (by omega), hv]
    exact hinputs

variable {s : FragmentStage} {t : Triangle Binary32} {p : Corners Binary32} {m m' : Machine}

/-- The inputs at every point have the declared arities, and the interpolated numbers are theirs. -/
lemma Ready.exists_inputs (ready : s.Ready) (feeds : t.Feeds s.varyingWidth) :
    ∃ numbers inputs,
      (List.range s.varyingWidth).mapM (fun i => orAbort (t.varying? p i)) = .ok numbers ∧
        s.inputs t p = .ok inputs ∧ inputs.toList.map Value.arity = s.program.inputs ∧
          inputs.toList.map Value.components =
            (s.program.inputs.map Arity.width).splitLengths numbers := by
  have hvarying : ∀ i ∈ List.range s.varyingWidth, ∃ x, orAbort (t.varying? p i) = .ok x := by
    intro i hi
    obtain ⟨x, hx⟩ := feeds.exists_varying? (List.mem_range.1 hi) p
    exact ⟨x, by simp [hx]⟩
  obtain ⟨numbers, hnumbers, hlength⟩ := exists_mapM_eq_ok hvarying
  obtain ⟨inputs, hinputs, harities, hpieces⟩ := exists_splitInputs numbers #[] ready.floats
    (by rw [hlength, List.length_range, ready.width])
  exact ⟨numbers, inputs, hnumbers, by simp [FragmentStage.inputs, hnumbers, hinputs],
    by simpa using harities, by simpa using hpieces⟩

/-! ### Shading -/

section Run

variable {inputs outputs : Array Value}

/-- Shading leaves the machine as the run of the program does. -/
lemma shade_fst (hinputs : s.inputs t p = .ok inputs) :
    (s.shade t p m).1 = (m.run s.program inputs s.bindings).1 := by
  rcases hm : m.run s.program inputs s.bindings with ⟨m₁, fault | outputs⟩
  · simp only [shade, hinputs, hm]
  · rcases h : outputs[0]? with _ | v <;> simp only [shade, hinputs, hm, h]

lemma shade_of_run_error (hinputs : s.inputs t p = .ok inputs) {fault : Fault}
    (h : (m.run s.program inputs s.bindings).2 = .error fault) :
    (s.shade t p m).2 = .error fault := by
  rcases hm : m.run s.program inputs s.bindings with ⟨m₁, _ | _⟩ <;> rw [hm] at h <;> cases h
  simp only [shade, hinputs, hm]

lemma shade_of_run_ok (hinputs : s.inputs t p = .ok inputs)
    (h : (m.run s.program inputs s.bindings).2 = .ok outputs) {v : Value}
    (hv : outputs[0]? = some v) : (s.shade t p m).2 = .ok (colorOf v).pack := by
  rcases hm : m.run s.program inputs s.bindings with ⟨m₁, _ | _⟩ <;> rw [hm] at h <;> cases h
  simp only [shade, hinputs, hm, hv]

/-- A program that was checked has a first output, as it declares one. -/
lemma Ready.exists_output (ready : s.Ready)
    (h : (m.run s.program inputs s.bindings).2 = .ok outputs) : ∃ v, outputs[0]? = some v := by
  have harities := Machine.arity_of_run_eq_ok ready.accepted ready.sampler h
  have hne : outputs.size ≠ 0 := by
    intro hsize
    rw [Array.size_eq_zero_iff] at hsize
    subst hsize
    exact ready.outputs harities.symm
  exact ⟨_, Array.getElem?_eq_getElem (Nat.pos_of_ne_zero hne)⟩

end Run

/-- Shading gives the same on every machine. -/
lemma shade_snd_eq (m m' : Machine) : (s.shade t p m).2 = (s.shade t p m').2 := by
  unfold shade
  split
  · rfl
  · rename_i inputs _
    have hrun : (m.run s.program inputs s.bindings).2 = (m'.run s.program inputs s.bindings).2 :=
      Machine.run_snd_eq
    rcases hm : m.run s.program inputs s.bindings with ⟨m₁, _ | outputs⟩ <;>
      rcases hm' : m'.run s.program inputs s.bindings with ⟨m₁', _ | outputs'⟩ <;>
        simp_all
    split <;> rfl

/-- The error with which the stage refuses every point. -/
def refusal? (s : FragmentStage) : Option Error := s.program.instrs.findSome? s.bindings.refusal?

/-- Where the program lacks something, every point is refused with the same error. -/
theorem Ready.shade_eq_error (ready : s.Ready) (feeds : t.Feeds s.varyingWidth) {e : Error}
    (h : s.refusal? = some e) : (s.shade t p m).2 = .error (.refused e) := by
  obtain ⟨-, inputs, -, hinputs, harities, -⟩ := ready.exists_inputs (p := p) feeds
  have hrun := Machine.run_eq (m := m) ready.accepted harities ready.sampler
  rw [refusal?] at h
  rw [h] at hrun
  exact shade_of_run_error hinputs hrun

/-- Where the program lacks nothing, every point has a colour. -/
theorem Ready.exists_shade (ready : s.Ready) (feeds : t.Feeds s.varyingWidth)
    (h : s.refusal? = none) : ∃ texel, (s.shade t p m).2 = .ok texel := by
  obtain ⟨-, inputs, -, hinputs, harities, -⟩ := ready.exists_inputs (p := p) feeds
  have hrun := Machine.run_eq (m := m) ready.accepted harities ready.sampler
  rw [refusal?] at h
  rw [h] at hrun
  obtain ⟨outputs, hok, -⟩ := hrun
  obtain ⟨v, hv⟩ := ready.exists_output hok
  exact ⟨_, shade_of_run_ok hinputs hok hv⟩

end FragmentStage

end GraphicsPipeline
