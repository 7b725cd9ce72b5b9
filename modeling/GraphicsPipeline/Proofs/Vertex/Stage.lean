import GraphicsPipeline.Draw.Interpolation
import GraphicsPipeline.Proofs.Shader.Running

/-!
# Shaded vertices

Every shaded vertex holds the numbers of the varying outputs that the vertex program gives for it
(`ofOutputs_of_shadeVertices`). For inputs that are linked to the first of these outputs, there are
enough numbers, and the widths of the inputs cut them into the outputs
(`ShadedVertex.splitLengths_varyings`).
-/

namespace GraphicsPipeline

/-! ### Lists in a row -/

section Lists

variable {α β : Type} {lengths : List Nat} {lists : List (List α)} {R : α → β → Prop}

/-- Lists that are strung together are cut apart again by their lengths. -/
lemma splitLengths_flatten (h : lengths <+: lists.map List.length) :
    lengths.splitLengths lists.flatten = lists.take lengths.length := by
  induction lengths generalizing lists with
  | nil => rfl
  | cons n lengths ih =>
    cases lists with
    | nil => simp at h
    | cons as lists =>
      rw [List.map_cons, List.cons_prefix_cons] at h
      obtain ⟨rfl, h⟩ := h
      simp [List.splitLengths_cons, ih h]

lemma sum_le_length_flatten (h : lengths <+: lists.map List.length) :
    lengths.sum ≤ lists.flatten.length := by
  rw [List.length_flatten]
  exact h.sublist.sum_le_sum fun n _ => Nat.zero_le n

lemma getElem?_of_forall₂ {as : List α} {bs : List β} (h : List.Forall₂ R as bs) {k : Nat} {a : α}
    (ha : as[k]? = some a) : ∃ b, bs[k]? = some b ∧ R a b := by
  obtain ⟨hlength, hall⟩ := List.forall₂_iff_get.1 h
  obtain ⟨hk, rfl⟩ := List.getElem?_eq_some_iff.1 ha
  have hk' : k < bs.length := by rwa [← hlength]
  exact ⟨bs[k], List.getElem?_eq_getElem hk', hall k hk hk'⟩

end Lists

namespace ShadedVertex

variable {p : Program} {outputs : Array Value} {v : ShadedVertex Binary32} {inputs : List Arity}
  {numbers : List (List Binary32)}

/-! ### Varying outputs -/

lemma mem_varyings {i : Nat} {a : Arity} (h : (i, a) ∈ p.varyings) : p.outputs[i]? = some a := by
  simp only [Program.varyings, List.mem_filter, List.mem_map] at h
  obtain ⟨⟨⟨b, j⟩, hmem, heq⟩, -⟩ := h
  cases heq
  exact List.mem_zipIdx_iff_getElem?.1 hmem

/-- The numbers of each varying output, where the outputs have the declared arities. -/
def Numbers (p : Program) (outputs : Array Value) (numbers : List (List Binary32)) : Prop :=
  List.Forall₂ (fun w ns => ∃ x, outputs[w.1]? = some x ∧ x.arity = w.2 ∧ x.components = ns)
    p.varyings numbers

/-- A vertex strings the numbers of its varying outputs together. -/
lemma numbers_of_ofOutputs (harities : outputs.toList.map Value.arity = p.outputs)
    (h : ofOutputs p outputs = .ok v) :
    ∃ numbers, Numbers p outputs numbers ∧ v.varyings.toList = numbers.flatten := by
  simp only [ofOutputs, bind_eq_ok, pure_eq_ok] at h
  obtain ⟨-, -, -, -, -, -, numbers, hnumbers, rfl⟩ := h
  rw [mapM_eq_ok] at hnumbers
  have hvaryings : ∀ w ∈ p.varyings, p.outputs[w.1]? = some w.2 := fun w hw => mem_varyings hw
  refine ⟨numbers, ((List.forall₂_and_left _ _).2 ⟨hvaryings, hnumbers⟩).imp ?_, rfl⟩
  rintro ⟨i, a⟩ ns ⟨hdeclared, hns⟩
  simp only [bind_eq_ok, orAbort_eq_ok, pure_eq_ok] at hns
  obtain ⟨x, hx, rfl⟩ := hns
  rw [← harities, List.getElem?_map, Array.getElem?_toList, hx] at hdeclared
  exact ⟨x, hx, by simpa using hdeclared, rfl⟩

/-- Linked inputs are as wide as the first varying outputs are long. -/
lemma Numbers.map_width_isPrefix (h : Numbers p outputs numbers)
    (hfront : inputs <+: p.varyings.map Prod.snd) (hfloat : ∀ a ∈ inputs, a.isFloat) :
    inputs.map Arity.width <+: numbers.map List.length := by
  unfold Numbers at h
  generalize p.varyings = varyings at h hfront
  induction h generalizing inputs with
  | nil =>
    rw [List.map_nil, List.prefix_nil] at hfront
    simp [hfront]
  | cons hw _ ih =>
    cases inputs with
    | nil => simp
    | cons a inputs =>
      rw [List.map_cons, List.cons_prefix_cons] at hfront
      obtain ⟨x, -, hx, rfl⟩ := hw
      obtain ⟨rfl, hfront⟩ := hfront
      rw [← hx] at hfloat
      rw [List.map_cons, List.map_cons, List.cons_prefix_cons, ← hx,
        Value.length_components (hfloat _ List.mem_cons_self)]
      exact ⟨rfl, ih (fun b hb => hfloat b (List.mem_cons_of_mem _ hb)) hfront⟩

/-- A vertex has the numbers of all linked inputs. -/
lemma sum_le_size_varyings (harities : outputs.toList.map Value.arity = p.outputs)
    (h : ofOutputs p outputs = .ok v) (hfront : inputs <+: p.varyings.map Prod.snd)
    (hfloat : ∀ a ∈ inputs, a.isFloat) : (inputs.map Arity.width).sum ≤ v.varyings.size := by
  obtain ⟨numbers, hnumbers, hvaryings⟩ := numbers_of_ofOutputs harities h
  rw [← Array.length_toList, hvaryings]
  exact sum_le_length_flatten (hnumbers.map_width_isPrefix hfront hfloat)

/-- The widths of linked inputs cut the numbers of a vertex into those of its varying outputs. -/
theorem splitLengths_varyings (harities : outputs.toList.map Value.arity = p.outputs)
    (h : ofOutputs p outputs = .ok v) (hfront : inputs <+: p.varyings.map Prod.snd)
    (hfloat : ∀ a ∈ inputs, a.isFloat) {k : Nat} {a : Arity} (hk : inputs[k]? = some a) :
    ∃ x, p.varying? outputs k = some x ∧ x.arity = a ∧
      ((inputs.map Arity.width).splitLengths v.varyings.toList)[k]? = some x.components := by
  obtain ⟨numbers, hnumbers, hvaryings⟩ := numbers_of_ofOutputs harities h
  have hvarying := getElem?_of_isPrefix hfront hk
  rw [List.getElem?_map, Option.map_eq_some_iff] at hvarying
  obtain ⟨w, hw, rfl⟩ := hvarying
  obtain ⟨_, hns, x, hx, harity, rfl⟩ := getElem?_of_forall₂ hnumbers hw
  obtain ⟨hlt, -⟩ := List.getElem?_eq_some_iff.1 hk
  refine ⟨x, by simp [Program.varying?, hw, hx], harity, ?_⟩
  rw [hvaryings, splitLengths_flatten (hnumbers.map_width_isPrefix hfront hfloat),
    List.length_map, List.getElem?_take_of_lt hlt, hns]

end ShadedVertex

/-! ### All vertices -/

section Vertices

variable {p : Program} {layout : Layout} {buffer : ByteArray} {bindings : Bindings}
  {v : ShadedVertex Binary32} {vertices done : Array (ShadedVertex Binary32)} {vertex : UInt64}
  {m : Machine} {n i : Nat} {count : UInt64}

/-- A vertex is fetched, the program is run on it, and its outputs are kept, all as on a new
machine. -/
lemma shadeVertex_snd : (shadeVertex p layout buffer bindings vertex m).2 = (do
    let inputs ← orRefuse (layout.fetch buffer vertex)
    let outputs ← (Machine.new.run p inputs bindings).2
    ShadedVertex.ofOutputs p outputs) := by
  unfold shadeVertex
  cases layout.fetch buffer vertex with
  | error e => rfl
  | ok inputs =>
    have hrun : (Machine.new.run p inputs bindings).2 = (m.run p inputs bindings).2 :=
      Machine.run_snd_eq
    simp only [orRefuse_ok, ok_bind, hrun]
    rcases m.run p inputs bindings with ⟨m', fault | outputs⟩ <;> rfl

/-- Vertices are shaded one by one, each as on a new machine. -/
lemma shadeFrom_eq_mapM : shadeFrom p layout buffer bindings vertex m done n =
    (fun vertices => done ++ vertices.toArray) <$> (List.range n).mapM fun k =>
      (shadeVertex p layout buffer bindings (vertex + UInt64.ofNat k) .new).2 := by
  induction n generalizing vertex m done with
  | zero => rw [shadeFrom, List.range_zero, List.mapM_nil, map_pure, Array.append_empty]; rfl
  | succ n ih =>
    -- what a vertex gives does not depend on the machine, so each may have a new one
    have hfirst : (shadeVertex p layout buffer bindings vertex m).2 =
        (shadeVertex p layout buffer bindings (vertex + UInt64.ofNat 0) .new).2 := by
      have hplace : vertex + UInt64.ofNat 0 = vertex := UInt64.add_zero vertex
      rw [hplace, shadeVertex_snd, shadeVertex_snd]
    have hplace : ∀ k, vertex + UInt64.ofNat (k + 1) = vertex + 1 + UInt64.ofNat k := by
      intro k
      rw [UInt64.ofNat_add, UInt64.add_comm (UInt64.ofNat k), ← UInt64.add_assoc]
      rfl
    rw [shadeFrom, List.range_succ_eq_map, List.mapM_cons, List.mapM_map, ← hfirst]
    simp only [Function.comp_def, Nat.succ_eq_add_one, hplace]
    rcases shadeVertex p layout buffer bindings vertex m with ⟨m', fault | v⟩
    · rfl
    · simp only [ok_bind, ih]
      cases (List.range n).mapM fun k =>
          (shadeVertex p layout buffer bindings (vertex + 1 + UInt64.ofNat k) .new).2 with
      | error fault => rfl
      | ok vertices =>
        have hpush : done.push v ++ vertices.toArray = done ++ (v :: vertices).toArray := by simp
        exact congrArg Except.ok hpush

lemma shadeVertices_eq_mapM : shadeVertices p layout buffer bindings count =
    List.toArray <$> (List.range count.toNat).mapM fun k =>
      (shadeVertex p layout buffer bindings (UInt64.ofNat k) .new).2 := by
  simp only [shadeVertices, shadeFrom_eq_mapM, Array.empty_append, UInt64.zero_add]

/-- Every shaded vertex is shaded at its place. -/
lemma getElem?_shadeVertices (h : shadeVertices p layout buffer bindings count = .ok vertices)
    (hv : vertices[i]? = some v) :
    (shadeVertex p layout buffer bindings (UInt64.ofNat i) .new).2 = .ok v := by
  rw [shadeVertices_eq_mapM, map_eq_ok] at h
  obtain ⟨vertices, hvertices, rfl⟩ := h
  rw [List.getElem?_toArray] at hv
  obtain ⟨k, hk, hshade⟩ := getElem?_of_forall₂ (mapM_eq_ok.1 hvertices).flip hv
  obtain ⟨_, hki⟩ := List.getElem?_eq_some_iff.1 hk
  obtain rfl : i = k := by rwa [List.getElem_range] at hki
  exact hshade

/-- Every shaded vertex keeps what the program gives for the vertex at its place. -/
theorem ofOutputs_of_shadeVertices
    (h : shadeVertices p layout buffer bindings count = .ok vertices)
    (hv : vertices[i]? = some v) :
    ∃ inputs outputs, layout.fetch buffer (UInt64.ofNat i) = .ok inputs ∧
      (Machine.new.run p inputs bindings).2 = .ok outputs ∧
        ShadedVertex.ofOutputs p outputs = .ok v := by
  have hshade := getElem?_shadeVertices h hv
  simp only [shadeVertex_snd, bind_eq_ok, orRefuse_eq_ok] at hshade
  obtain ⟨inputs, hfetch, outputs, hrun, houtputs⟩ := hshade
  exact ⟨inputs, outputs, hfetch, hrun, houtputs⟩

/-- Every shaded vertex feeds the inputs that are linked to the varying outputs. -/
theorem le_size_varyings_of_shadeVertices {inputs : List Arity} (accepted : p.check = .ok p)
    (sampler : ∀ t, bindings.sampler = some t → t.WellSized)
    (hfront : inputs <+: p.varyings.map Prod.snd) (hfloat : ∀ a ∈ inputs, a.isFloat)
    (h : shadeVertices p layout buffer bindings count = .ok vertices) :
    ∀ v ∈ vertices, (inputs.map Arity.width).sum ≤ v.varyings.size := by
  intro v hv
  obtain ⟨i, hi⟩ := Array.mem_iff_getElem?.1 hv
  obtain ⟨values, outputs, -, hrun, hv⟩ := ofOutputs_of_shadeVertices h hi
  exact ShadedVertex.sum_le_size_varyings (Machine.arity_of_run_eq_ok accepted sampler hrun) hv
    hfront hfloat

/-! ### No vertex stops short -/

lemma Layout.arity_of_fetchFrom {place : Nat} {attributes : List Attribute}
    {values inputs : Array Value}
    (h : Layout.fetchFrom buffer vertex place attributes values = .ok inputs) :
    inputs.toList.map Value.arity =
      values.toList.map Value.arity ++ attributes.map Attribute.arity := by
  induction attributes generalizing place values with
  | nil =>
    cases h
    simp
  | cons a attributes ih =>
    simp only [Layout.fetchFrom] at h
    split at h
    · cases h
    · split at h
      · cases h
      · rename_i x hx
        simp [ih h, Value.arity_of_ofComponents? hx]

/-- Fetched inputs have the arities of the attributes. -/
lemma Layout.arity_of_fetch {inputs : Array Value} (h : layout.fetch buffer vertex = .ok inputs) :
    inputs.toList.map Value.arity = layout.attributes.map Attribute.arity := by
  simpa using Layout.arity_of_fetchFrom h

/-- The position and the varying outputs are among the outputs of a checked program. -/
lemma ShadedVertex.ofOutputs_ne_aborted {outputs : Array Value} (accepted : p.check = .ok p)
    (harities : outputs.toList.map Value.arity = p.outputs) :
    ShadedVertex.ofOutputs p outputs ≠ .error .aborted := by
  obtain ⟨-, scope, hscope, -⟩ := Program.check_eq_ok.1 accepted
  have hposition := checkPosition_eq_ok.1 (checkInstrs_eq_ok.1 hscope).1
  have houtput : ∀ (slot : Nat) a, p.outputs[slot]? = some a → ∃ x, outputs[slot]? = some x := by
    intro slot a hslot
    rw [← harities, List.getElem?_map, Array.getElem?_toList, Option.map_eq_some_iff] at hslot
    obtain ⟨x, hx, -⟩ := hslot
    exact ⟨x, hx⟩
  have hvaryings : ∀ w ∈ p.varyings, ∃ ns, Value.components <$> orAbort outputs[w.1]? = .ok ns := by
    intro w hw
    obtain ⟨x, hx⟩ := houtput w.1 w.2 (ShadedVertex.mem_varyings hw)
    exact ⟨x.components, by simp [hx]⟩
  obtain ⟨numbers, hnumbers, -⟩ := exists_mapM_eq_ok hvaryings
  unfold ShadedVertex.ofOutputs
  cases hslot : p.position with
  | none => simp
  | some slot =>
    obtain ⟨x, hx⟩ := houtput slot.toNat .vec4 (hposition slot hslot)
    cases hclip : x.toVec4 <;> simp [hx, hclip, hnumbers]

/-- A vertex of a layout that feeds a checked program is shaded or refused. -/
lemma shadeVertex_ne_aborted (accepted : p.check = .ok p)
    (sampler : ∀ t, bindings.sampler = some t → t.WellSized) (feeds : layout.feeds p.inputs)
    (buffer : ByteArray) (vertex : UInt64) (m : Machine) :
    (shadeVertex p layout buffer bindings vertex m).2 ≠ .error .aborted := by
  rw [shadeVertex_snd]
  cases hfetch : layout.fetch buffer vertex with
  | error e => simp
  | ok inputs =>
    have declared : inputs.toList.map Value.arity = p.inputs := by
      rw [Layout.arity_of_fetch hfetch]
      simpa [Layout.feeds] using feeds
    have hrun := Machine.run_eq (m := .new) accepted declared sampler
    rw [orRefuse_ok, ok_bind]
    cases hrefusal : p.instrs.findSome? bindings.refusal? with
    | some e =>
      simp only [hrefusal] at hrun
      simp [hrun]
    | none =>
      simp only [hrefusal] at hrun
      obtain ⟨outputs, houtputs, harities⟩ := hrun
      rw [houtputs, ok_bind]
      exact ShadedVertex.ofOutputs_ne_aborted accepted harities

/-- Vertices of a layout that feeds a checked program are shaded, or one of them is refused. -/
theorem shadeVertices_ne_aborted (accepted : p.check = .ok p)
    (sampler : ∀ t, bindings.sampler = some t → t.WellSized) (feeds : layout.feeds p.inputs)
    (buffer : ByteArray) (count : UInt64) :
    shadeVertices p layout buffer bindings count ≠ .error .aborted := by
  rw [shadeVertices_eq_mapM, ne_eq, map_eq_error]
  exact mapM_ne_error fun k _ => shadeVertex_ne_aborted accepted sampler feeds buffer _ _

end Vertices

end GraphicsPipeline
