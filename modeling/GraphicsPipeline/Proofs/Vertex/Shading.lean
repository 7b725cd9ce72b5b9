import GraphicsPipeline.Proofs.Shader.WellFormed
import GraphicsPipeline.Proofs.Vertex.Fetch
import GraphicsPipeline.Proofs.Vertex.Stage
import GraphicsPipeline.Proofs.Vertex.Worker

/-!
# The vertex stage, exactly

A vertex that lies in the buffer is shaded, unless the program reads what is missing
(`VertexStage.Ready.exists_shadeVertex`), and what is missing at one vertex is missing at all of
them. So a number of vertices have one of three outcomes, and which it is can be told from the
buffer, the program and what it reads alone (`Worker.shadeVertices_exact`).
-/

namespace GraphicsPipeline

/-- The entries of a list but one, by their places. -/
lemma map_fst_filter_zipIdx {α : Type} (as : List α) (i k : Nat) :
    ((as.zipIdx i).filter fun entry => entry.2 ≠ i + k).map Prod.fst = as.eraseIdx k := by
  induction as generalizing i k with
  | nil => simp
  | cons a as ih =>
    rw [List.zipIdx_cons, List.filter_cons]
    cases k with
    | zero =>
      have hlater : ∀ entry ∈ as.zipIdx (i + 1), decide (entry.2 ≠ i + 0) = true := by
        intro entry hentry
        have := List.le_snd_of_mem_zipIdx hentry
        rw [decide_eq_true_eq]
        omega
      rw [if_neg (by simp), List.filter_eq_self.2 hlater]
      simp
    | succ k =>
      have hnext := ih (i + 1) k
      rw [Nat.add_assoc, Nat.add_comm 1] at hnext
      rw [if_pos (by simp), List.map_cons, hnext, List.eraseIdx_cons_succ]

/-! ### Outputs of checked programs -/

section Outputs

variable {p : Program} {slot : UInt32} {outputs : Array Value}

/-- No store reaches beyond the slots that a word can name, so there are no more. -/
lemma Program.length_outputs_le (accepted : p.check = .ok p) : p.outputs.length ≤ 2 ^ 32 := by
  obtain ⟨-, scope, hscope, -⟩ := Program.check_eq_ok.1 accepted
  obtain ⟨-, -, hwritten⟩ := checkInstrs_eq_ok.1 hscope
  by_contra hlong
  obtain ⟨i, -, s, -, hs⟩ := unwritten?_eq_none.1 hwritten (2 ^ 32) (not_le.1 hlong)
  exact absurd hs s.toNat_lt.ne

/-- The position is what the slot of the position holds, and the numbers are those of the other
outputs, in the order of the slots. -/
structure ShadedVertex.Keeps (v : ShadedVertex Binary32) (slot : UInt32)
    (outputs : Array Value) : Prop where
  clip : outputs[slot.toNat]? = some (.vec4 v.clip)
  varyings : v.varyings.toList = (outputs.toList.eraseIdx slot.toNat).flatMap Value.components

/-- The varying outputs are all but the one with the position. -/
lemma Program.varyings_eq (accepted : p.check = .ok p) (position : p.position = some slot)
    (harities : outputs.toList.map Value.arity = p.outputs) :
    p.varyings = (outputs.toList.zipIdx.filter fun entry => entry.2 ≠ 0 + slot.toNat).map
      fun entry => (entry.2, entry.1.arity) := by
  have hlength := length_outputs_le accepted
  rw [varyings, ← harities, List.zipIdx_map, List.map_map, List.filter_map]
  refine congrArg (List.map _) (List.filter_congr fun entry hentry => ?_)
  have hlt := List.snd_lt_of_mem_zipIdx hentry
  rw [← harities, List.length_map] at hlength
  -- no two of so few places are the same word
  have hword : UInt32.ofNat entry.2 = slot ↔ entry.2 = slot.toNat := by
    rw [← UInt32.toNat_inj, UInt32.toNat_ofNat_of_lt' (by simp only [UInt32.size]; omega)]
  simp [position, hword]

/-- Outputs of the declared arities are kept. -/
lemma ShadedVertex.exists_ofOutputs (accepted : p.check = .ok p) (position : p.position = some slot)
    (harities : outputs.toList.map Value.arity = p.outputs) :
    ∃ v, ofOutputs p outputs = .ok v ∧ v.Keeps slot outputs := by
  obtain ⟨-, scope, hscope, -⟩ := Program.check_eq_ok.1 accepted
  have hvec := checkPosition_eq_ok.1 (checkInstrs_eq_ok.1 hscope).1 slot position
  simp only [Program.signature, ← harities, List.getElem?_map, Array.getElem?_toList,
    Option.map_eq_some_iff] at hvec
  obtain ⟨x, hx, harity⟩ := hvec
  obtain ⟨clip, rfl⟩ : ∃ clip, x = .vec4 clip := by
    cases x <;> first | exact ⟨_, rfl⟩ | cases harity
  have hvaryings : (p.varyings.mapM fun w => Value.components <$> orAbort outputs[w.1]?) =
      .ok ((outputs.toList.eraseIdx slot.toNat).map Value.components) := by
    rw [Program.varyings_eq accepted position harities, List.mapM_map]
    refine (mapM_eq_ok_iff (g := fun entry => entry.1.components) (P := fun _ => True) ?_).2 ?_
    · intro entry hentry numbers
      have hplace := List.mem_zipIdx_iff_getElem?.1 (List.mem_of_mem_filter hentry)
      rw [Array.getElem?_toList] at hplace
      simp [hplace]
    · rw [← map_fst_filter_zipIdx outputs.toList 0, List.map_map]
      exact ⟨fun _ _ => trivial, rfl⟩
  refine ⟨⟨clip, ((outputs.toList.eraseIdx slot.toNat).map Value.components).flatten.toArray⟩, ?_,
    hx, by simp [List.flatMap_def]⟩
  simp only [ofOutputs, position, orRefuse_ok, ok_bind, hx, orAbort_some, Value.toVec4]
  exact bind_eq_ok.2 ⟨_, hvaryings, rfl⟩

end Outputs

/-! ### Vertices -/

/-- A vertex program with a position, the layout of its inputs, and what it reads besides. -/
structure VertexStage.Ready (p : Program) (slot : UInt32) (layout : Layout) (buffer : ByteArray)
    (b : Bindings) : Prop where
  accepted : p.check = .ok p
  position : p.position = some slot
  wellFormed : layout.WellFormed
  feeds : layout.feeds p.inputs
  size : buffer.size < 2 ^ 64
  sampler : ∀ t, b.sampler = some t → t.WellSized

/-- The vertex keeps what the program gives on a new machine for the values of the vertex at a
place. -/
def ShadedVertex.IsShaded (v : ShadedVertex Binary32) (p : Program) (slot : UInt32)
    (layout : Layout) (buffer : ByteArray) (b : Bindings) (n : Nat) : Prop :=
  ∃ inputs outputs, layout.Holds buffer n inputs.toList ∧
    (Machine.new.run p inputs b).2 = .ok outputs ∧ v.Keeps slot outputs

section Vertices

variable {p : Program} {slot : UInt32} {layout : Layout} {buffer : ByteArray} {b : Bindings}
  {vertex count : UInt64} {n place : Nat} {m : Machine} {e : Error} {inputs : Array Value}

namespace VertexStage.Ready

variable (ready : VertexStage.Ready p slot layout buffer b)
include ready

lemma declared (h : layout.fetch buffer vertex = .ok inputs) :
    inputs.toList.map Value.arity = p.inputs := by
  rw [Layout.arity_of_fetch h]
  simpa [Layout.feeds] using ready.feeds

lemma shadeVertex_of_leavesAt (vertex : UInt64) (m : Machine)
    (h : layout.LeavesAt buffer vertex.toNat place) :
    (shadeVertex p layout buffer b vertex m).2 =
      .error (.refused (.vertexFetchOutOfBounds vertex place)) := by
  rw [shadeVertex_snd, h.fetch_eq ready.wellFormed ready.size]
  rfl

/-- What a program lacks it lacks at every vertex. -/
lemma shadeVertex_of_refusal (vertex : UInt64) (m : Machine) (h : layout.LiesIn buffer vertex.toNat)
    (hb : p.instrs.findSome? b.refusal? = some e) :
    (shadeVertex p layout buffer b vertex m).2 = .error (.refused e) := by
  obtain ⟨inputs, hfetch, -⟩ := Layout.fetch_of_liesIn ready.wellFormed ready.size h
  have hrun := Machine.run_eq (m := .new) ready.accepted (ready.declared hfetch) ready.sampler
  simp only [hb] at hrun
  rw [shadeVertex_snd, hfetch, orRefuse_ok, ok_bind, hrun, error_bind]

lemma exists_shadeVertex (vertex : UInt64) (m : Machine) (h : layout.LiesIn buffer vertex.toNat)
    (hb : p.instrs.findSome? b.refusal? = none) :
    ∃ v, (shadeVertex p layout buffer b vertex m).2 = .ok v ∧
      v.IsShaded p slot layout buffer b vertex.toNat := by
  obtain ⟨inputs, hfetch, hholds⟩ := Layout.fetch_of_liesIn ready.wellFormed ready.size h
  have hrun := Machine.run_eq (m := .new) ready.accepted (ready.declared hfetch) ready.sampler
  simp only [hb] at hrun
  obtain ⟨outputs, houtputs, harities⟩ := hrun
  obtain ⟨v, hv, hkeeps⟩ := ShadedVertex.exists_ofOutputs ready.accepted ready.position harities
  refine ⟨v, ?_, inputs, outputs, hholds, houtputs, hkeeps⟩
  rw [shadeVertex_snd, hfetch, orRefuse_ok, ok_bind, houtputs, ok_bind, hv]

/-- Of vertices that lie in the buffer up to one that does not, that one is the error. -/
lemma shadeVertices_of_leavesAt (hn : n < count.toNat) (hbefore : ∀ k < n, layout.LiesIn buffer k)
    (hb : n ≠ 0 → p.instrs.findSome? b.refusal? = none) (h : layout.LeavesAt buffer n place) :
    shadeVertices p layout buffer b count =
      .error (.refused (.vertexFetchOutOfBounds (UInt64.ofNat n) place)) := by
  have hword : ∀ k ≤ n, (UInt64.ofNat k).toNat = k := fun k hk =>
    UInt64.toNat_ofNat_of_lt' ((hk.trans_lt hn).trans count.toNat_lt_size)
  have hlast := ready.shadeVertex_of_leavesAt (UInt64.ofNat n) .new
    ((hword n le_rfl).symm ▸ h)
  rw [shadeVertices_eq_mapM, map_eq_error]
  refine mapM_eq_error (List.getElem?_range hn) hlast fun k hk i hi => ?_
  obtain rfl : k = i := by rwa [List.getElem?_range (hk.trans hn), Option.some_inj] at hi
  obtain ⟨v, hv, -⟩ := ready.exists_shadeVertex (UInt64.ofNat k) .new
    ((hword k hk.le).symm ▸ hbefore k hk) (hb (Nat.ne_zero_of_lt hk))
  exact ⟨v, hv⟩

/-- What a program lacks is missed at the first vertex. -/
lemma shadeVertices_of_refusal (hcount : 0 < count.toNat) (h : layout.LiesIn buffer 0)
    (hb : p.instrs.findSome? b.refusal? = some e) :
    shadeVertices p layout buffer b count = .error (.refused e) := by
  rw [shadeVertices_eq_mapM, map_eq_error]
  exact mapM_eq_error (List.getElem?_range hcount)
    (ready.shadeVertex_of_refusal (UInt64.ofNat 0) .new h hb)
    fun k hk => absurd hk k.not_lt_zero

lemma exists_shadeVertices (h : ∀ k < count.toNat, layout.LiesIn buffer k)
    (hb : 0 < count.toNat → p.instrs.findSome? b.refusal? = none) :
    ∃ vertices, shadeVertices p layout buffer b count = .ok vertices ∧
      vertices.size = count.toNat ∧
      ∀ n (v : ShadedVertex Binary32), vertices[n]? = some v →
        v.IsShaded p slot layout buffer b n := by
  have hword : ∀ k < count.toNat, (UInt64.ofNat k).toNat = k := fun k hk =>
    UInt64.toNat_ofNat_of_lt' (hk.trans count.toNat_lt_size)
  have hshaded : ∀ k < count.toNat, ∃ v,
      (shadeVertex p layout buffer b (UInt64.ofNat k) .new).2 = .ok v ∧
        v.IsShaded p slot layout buffer b k := by
    intro k hk
    have hv := ready.exists_shadeVertex (UInt64.ofNat k) .new
      ((hword k hk).symm ▸ h k hk) (hb (Nat.zero_lt_of_lt hk))
    rwa [hword k hk] at hv
  have hall : ∀ k ∈ List.range count.toNat, ∃ v,
      (shadeVertex p layout buffer b (UInt64.ofNat k) .new).2 = .ok v := by
    intro k hk
    obtain ⟨v, hv, -⟩ := hshaded k (List.mem_range.1 hk)
    exact ⟨v, hv⟩
  obtain ⟨vertices, hvertices, hlength⟩ := exists_mapM_eq_ok hall
  rw [List.length_range] at hlength
  have hrun : shadeVertices p layout buffer b count = .ok vertices.toArray := by
    rw [shadeVertices_eq_mapM, hvertices]
    rfl
  refine ⟨vertices.toArray, hrun, hlength, fun n v hv => ?_⟩
  have hn : n < count.toNat := hlength ▸ (Array.getElem?_eq_some_iff.1 hv).1
  obtain ⟨u, hu, hshaded⟩ := hshaded n hn
  obtain rfl : v = u := Except.ok.inj ((getElem?_shadeVertices hrun hv).symm.trans hu)
  exact hshaded

/-- All vertices are shaded, or the program lacks something at the first, or a vertex is the first
that does not lie in the buffer. -/
lemma shadeVertices_cases (count : UInt64) :
    ((∀ k < count.toNat, layout.LiesIn buffer k) ∧
      (0 < count.toNat → p.instrs.findSome? b.refusal? = none) ∧
      ∃ vertices, shadeVertices p layout buffer b count = .ok vertices ∧
        vertices.size = count.toNat ∧
        ∀ n (v : ShadedVertex Binary32), vertices[n]? = some v →
          v.IsShaded p slot layout buffer b n) ∨
    (0 < count.toNat ∧ layout.LiesIn buffer 0 ∧
      ∃ e, p.instrs.findSome? b.refusal? = some e ∧
        shadeVertices p layout buffer b count = .error (.refused e)) ∨
    ∃ n place, n < count.toNat ∧ (∀ k < n, layout.LiesIn buffer k) ∧
      layout.LeavesAt buffer n place ∧ (n ≠ 0 → p.instrs.findSome? b.refusal? = none) ∧
      shadeVertices p layout buffer b count =
        .error (.refused (.vertexFetchOutOfBounds (UInt64.ofNat n) place)) := by
  rcases layout.liesIn_or_exists_leavesAt buffer count.toNat with h | ⟨n, hn, hbefore, place, h⟩
  · by_cases hb : 0 < count.toNat → p.instrs.findSome? b.refusal? = none
    · exact .inl ⟨h, hb, ready.exists_shadeVertices h hb⟩
    · rw [Classical.not_imp, ← ne_eq, Option.ne_none_iff_exists'] at hb
      obtain ⟨hcount, e, he⟩ := hb
      have h0 := h 0 hcount
      exact .inr (.inl ⟨hcount, h0, e, he, ready.shadeVertices_of_refusal hcount h0 he⟩)
  -- what the program lacks it lacks at vertex 0, before a later vertex leaves the buffer
  · by_cases hb : n ≠ 0 → p.instrs.findSome? b.refusal? = none
    · exact .inr (.inr ⟨n, place, hn, hbefore, h, hb,
        ready.shadeVertices_of_leavesAt hn hbefore hb h⟩)
    · rw [Classical.not_imp, ← ne_eq, Option.ne_none_iff_exists'] at hb
      obtain ⟨hne, e, he⟩ := hb
      have hcount := Nat.zero_lt_of_lt hn
      have h0 := hbefore 0 (Nat.pos_of_ne_zero hne)
      exact .inr (.inl ⟨hcount, h0, e, he, ready.shadeVertices_of_refusal hcount h0 he⟩)

end VertexStage.Ready

end Vertices

/-! ### The stage -/

namespace Worker

variable {p : Program} {slot : UInt32} {layout : Layout} {buffer : ByteArray} {b : Bindings}

/-- Vertices are shaded if and only if all attributes of the last one lie in the buffer and nothing
is missing that the program reads. Then every vertex keeps what the program gives for it on a new
machine, though one worker shades all. Where the first vertex lies in the buffer, the error is that
of the first instruction that reads what is missing. Without such an instruction it is that of the
first vertex that does not lie in the buffer, with its first attribute that does not. -/
theorem shadeVertices_exact (ready : VertexStage.Ready p slot layout buffer b) (count : UInt64) :
    ((∃ vertices, shadeVertices p layout buffer b count = .ok vertices) ↔
      count = 0 ∨ layout.LiesIn buffer (count.toNat - 1) ∧
        ∀ i ∈ p.instrs, b.refusal? i = none) ∧
    (∀ vertices, shadeVertices p layout buffer b count = .ok vertices →
      vertices.size = count.toNat ∧
        ∀ n (v : ShadedVertex Binary32), vertices[n]? = some v →
          v.IsShaded p slot layout buffer b n) ∧
    ∀ fault, shadeVertices p layout buffer b count = .error fault →
      (∀ e, p.instrs.findSome? b.refusal? = some e → layout.LiesIn buffer 0 →
        fault = .refused e) ∧
      ((∀ i ∈ p.instrs, b.refusal? i = none) → ∃ n place,
        n < count.toNat ∧ (∀ k < n, layout.LiesIn buffer k) ∧ layout.LeavesAt buffer n place ∧
          fault = .refused (.vertexFetchOutOfBounds (UInt64.ofNat n) place)) ∧
      ∀ place, layout.LeavesAt buffer 0 place →
        fault = .refused (.vertexFetchOutOfBounds 0 place) := by
  have hnone : (∀ i ∈ p.instrs, b.refusal? i = none) ↔ p.instrs.findSome? b.refusal? = none :=
    List.findSome?_eq_none_iff.symm
  rw [shadeVertices_eq, hnone]
  rcases ready.shadeVertices_cases count with ⟨hin, hb, vertices, hrun, hsize, hshaded⟩ |
    ⟨hcount, h0, e, he, hrun⟩ | ⟨n, place, hn, hbefore, hout, hb, hrun⟩
  · rw [hrun]
    refine ⟨iff_of_true ⟨vertices, rfl⟩ ?_, ?_, by simp⟩
    · by_cases hcount : count = 0
      · exact .inl hcount
      · have hpos : 0 < count.toNat := Nat.pos_of_ne_zero fun h => hcount (UInt64.toNat_inj.1 h)
        exact .inr ⟨hin _ (Nat.sub_one_lt_of_lt hpos), hb hpos⟩
    · rintro _ ⟨⟩
      exact ⟨hsize, hshaded⟩
  · rw [hrun]
    refine ⟨iff_of_false (by simp) ?_, by simp, ?_⟩
    · rintro (rfl | ⟨-, h⟩)
      · exact hcount.ne rfl
      · simp [h] at he
    · rintro _ ⟨⟩
      refine ⟨fun e' he' _ => ?_, fun h => ?_, fun place h => absurd h0 h.not_liesIn⟩
      · rw [Option.some.inj (he.symm.trans he')]
      · simp [h] at he
  · rw [hrun]
    refine ⟨iff_of_false (by simp) ?_, by simp, ?_⟩
    · rintro (rfl | ⟨h, -⟩)
      · exact absurd hn (Nat.not_lt_zero n)
      · exact hout.not_liesIn (h.of_lt hn)
    · rintro _ ⟨⟩
      refine ⟨fun e he h0 => ?_, fun _ => ⟨n, place, hn, hbefore, hout, rfl⟩, ?_⟩
      · have hne : n ≠ 0 := by
          rintro rfl
          exact hout.not_liesIn h0
        simp [hb hne] at he
      · intro place' hout'
        obtain rfl : n = 0 := by
          by_contra hne
          exact hout'.not_liesIn (hbefore 0 (Nat.pos_of_ne_zero hne))
        rw [hout.unique hout']
        rfl

/-- A program with the colour from its uniforms in front of the position. -/
def tinted : Program :=
  ⟨[.vec4], [.vec4, .vec4], some 1, 2, [.input 0 0, .uniform 1 0 0, .store 0 1, .store 1 0]⟩

/-- A position of 16 bytes for each vertex. -/
def oneAfterAnother : Layout := ⟨[⟨.vec4, 0, 16⟩]⟩

/-- Two positions and one number of a third. -/
def twoAndAPart : ByteArray := Storage.zeroed 36

/-- Two vertices are shaded. The third leaves the buffer, which is not seen where the first lacks
its colour. -/
theorem shadeVertices_exact_tinted :
    (∃ vertices, shadeVertices tinted oneAfterAnother twoAndAPart ⟨some (Storage.zeroed 16), none⟩
        2 = .ok vertices ∧ vertices.size = 2) ∧
      shadeVertices tinted oneAfterAnother twoAndAPart ⟨some (Storage.zeroed 16), none⟩ 3 =
        .error (.refused (.vertexFetchOutOfBounds 2 0)) ∧
      shadeVertices tinted oneAfterAnother twoAndAPart {} 3 =
        .error (.refused .missingUniformBuffer) := by
  have ready : ∀ uniforms,
      VertexStage.Ready tinted 1 oneAfterAnother twoAndAPart ⟨uniforms, none⟩ :=
    fun uniforms => ⟨by decide, rfl, ⟨by decide, by decide⟩, by decide, by decide, nofun⟩
  have hin : oneAfterAnother.LiesIn twoAndAPart 1 := by decide
  have hout : oneAfterAnother.LeavesAt twoAndAPart 2 0 :=
    ⟨⟨_, rfl, by decide⟩, fun k hk => absurd hk k.not_lt_zero⟩
  refine ⟨?_, ?_, ?_⟩
  · obtain ⟨hiff, hok, -⟩ := shadeVertices_exact (ready (some (Storage.zeroed 16))) 2
    obtain ⟨vertices, hrun⟩ := hiff.2 (.inr ⟨hin, by decide⟩)
    exact ⟨vertices, hrun, (hok vertices hrun).1⟩
  · obtain ⟨hiff, -, herror⟩ := shadeVertices_exact (ready (some (Storage.zeroed 16))) 3
    cases hrun : shadeVertices tinted oneAfterAnother twoAndAPart
        ⟨some (Storage.zeroed 16), none⟩ 3 with
    | ok vertices => exact absurd (hiff.1 ⟨vertices, hrun⟩) (by decide)
    | error fault =>
      obtain ⟨n, place, hn, -, hleaves, rfl⟩ := (herror fault hrun).2.1 (by decide)
      obtain rfl : n = 2 := by
        by_contra hne
        have hn : n < 3 := hn
        exact hleaves.not_liesIn (hin.of_le (by omega))
      rw [hleaves.unique hout]
      rfl
  · obtain ⟨hiff, -, herror⟩ := shadeVertices_exact (ready none) 3
    cases hrun : shadeVertices tinted oneAfterAnother twoAndAPart {} 3 with
    | ok vertices => exact absurd (hiff.1 ⟨vertices, hrun⟩) (by decide)
    | error fault => rw [(herror fault hrun).1 .missingUniformBuffer (by decide) (by decide)]

end Worker

end GraphicsPipeline
