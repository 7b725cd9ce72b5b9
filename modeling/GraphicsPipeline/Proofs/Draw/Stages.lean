import GraphicsPipeline.Draw.Stages
import GraphicsPipeline.Proofs.Raster.Bands
import GraphicsPipeline.Proofs.Vertex.Stage

/-!
# Draws that fail

The check of a pipeline promises to the fragment stage that its inputs are numbers, the first of the
vertex program's varying outputs. A draw of checked programs on whole textures leaves them as they
are when it refuses: before the first pixel nothing was written yet, and no pixel is refused unless
all are.
-/

namespace GraphicsPipeline

/-! ### Linkage -/

namespace Pipeline

/-- Linked inputs are the first outputs, none of them a word, and as wide as was counted. -/
lemma linkWidth_eq_ok {inputs outputs : List Arity} {width : Nat}
    (h : linkWidth inputs outputs = .ok width) :
    inputs <+: outputs ∧ (∀ a ∈ inputs, a.isFloat) ∧ width = (inputs.map Arity.width).sum := by
  induction inputs generalizing outputs width with
  | nil =>
    cases h
    simp
  | cons a inputs ih =>
    cases outputs with
    | nil => simp [linkWidth] at h
    | cons b outputs =>
      simp only [linkWidth] at h
      split at h
      case isFalse => simp at h
      case isTrue hab =>
        simp only [bind_eq_ok, pure_eq_ok] at h
        obtain ⟨width', h, rfl⟩ := h
        obtain ⟨hfront, hfloat, rfl⟩ := ih h
        obtain ⟨rfl, ha⟩ := hab
        exact ⟨by simpa using hfront, by simpa using ⟨ha, hfloat⟩, by simp⟩

/-- What a pipeline is checked for, as far as the fragment stage goes. -/
lemma check_eq_ok {p : Pipeline} {width : Nat} (h : p.check = .ok width) :
    p.fragment.outputs ≠ [] ∧
      linkWidth p.fragment.inputs (p.vertex.varyings.map Prod.snd) = .ok width := by
  simp only [check, throw_bind, ite_error_eq_ok] at h
  obtain ⟨-, -, houtputs, -, hlink⟩ := h
  exact ⟨by simpa using houtputs, hlink⟩

end Pipeline

/-! ### Triangles -/

lemma mem_of_mem_triples {β : Type} {bs : List β} {t : Corners β} (h : t ∈ triples bs) :
    t.a ∈ bs ∧ t.b ∈ bs ∧ t.c ∈ bs := by
  induction bs using triples.induct with
  | case1 a b c rest ih =>
    rw [triples, List.mem_cons] at h
    rcases h with rfl | h
    · simp
    · obtain ⟨ha, hb, hc⟩ := ih h
      simp [ha, hb, hc]
  | case2 bs hne =>
    rw [triples] at h
    · cases h
    · exact hne

/-- Every triangle is set up from three of the vertices. -/
lemma exists_of_mem_assemble {vertices : List (ShadedVertex Binary32)} {width height : UInt32}
    {t : Triangle Binary32} (h : t ∈ (assemble vertices width height).1) :
    ∃ v, Triangle.ofVertices v width height = some t ∧
      v.a ∈ vertices ∧ v.b ∈ vertices ∧ v.c ∈ vertices := by
  simp only [assemble, List.mem_filterMap, List.mem_map, id_eq] at h
  obtain ⟨_, ⟨v, hv, rfl⟩, ht⟩ := h
  exact ⟨v, ht, mem_of_mem_triples hv⟩

/-! ### Targets -/

namespace Targets

/-- The textures have all their bytes. -/
structure WellSized (t : Targets) : Prop where
  color : t.color.WellSized
  depth : ∀ d, t.depth = some d → d.WellSized

@[simp] lemma withTarget_toTarget (t : Targets) : t.withTarget t.toTarget = t := by
  obtain ⟨color, depth⟩ := t
  cases depth <;> rfl

/-- Targets of one size have a depth for every pixel. -/
lemma WellSized.sized {t : Targets} (h : t.WellSized) (hsizes : Pipeline.checkSizes t = .ok ()) :
    t.toTarget.Sized where
  width := h.color.1
  depth d hd := by
    obtain ⟨color, _ | depth⟩ := t
    · cases hd
    · cases hd
      simp only [Pipeline.checkSizes] at hsizes
      split at hsizes
      · rename_i heq
        have hdepth := (h.depth depth rfl).2.2
        have hcolor := h.color.2.2
        simp only [toTarget, hdepth, hcolor, heq.1, heq.2]
      · cases hsizes

/-- Textures with other bytes, as many as before, have all their bytes. -/
lemma WellSized.withTarget {t : Targets} (h : t.WellSized) {target : Target}
    (hcolor : target.color.size = t.color.data.size)
    (hdepth : target.depth.map ByteArray.size = t.toTarget.depth.map ByteArray.size) :
    (t.withTarget target).WellSized where
  color := ⟨h.color.1, h.color.2.1, hcolor.trans h.color.2.2⟩
  depth d hd := by
    obtain ⟨color, _ | depth⟩ := t
    · cases hd
    · cases hd
      obtain ⟨hwidth, hheight, hsize⟩ := h.depth depth rfl
      refine ⟨hwidth, hheight, ?_⟩
      cases htarget : target.depth with
      | none => simp [htarget, toTarget] at hdepth
      | some data =>
        simp only [htarget, toTarget, Option.map_some, Option.some.injEq] at hdepth
        simpa [hdepth] using hsize

end Targets

/-! ### Draws -/

namespace Pipeline

variable {p : Pipeline} {buffer : ByteArray} {vertexCount : UInt64} {bindings : Bindings}
  {t : Targets} {paint : FragmentStage → List (Triangle Binary32) → Step Target}

/-- What a draw looks at before the first pixel: the linkage and the sizes of the targets. -/
lemma setup_eq_ok {ts : List (Triangle Binary32)} {culled : Nat} {s : FragmentStage}
    (h : p.setup buffer vertexCount bindings t = .ok (ts, culled, s)) :
    checkSizes t = .ok () ∧ ∃ width vertices, p.check = .ok width ∧
      shadeVertices p.vertex p.layout buffer bindings vertexCount = .ok vertices ∧
        ts = (assemble vertices.toList t.color.width t.color.height).1 ∧
          s = ⟨p.fragment, bindings, width⟩ := by
  simp only [setup, bind_eq_ok, orRefuse_eq_ok, pure_eq_ok, Prod.mk.injEq] at h
  obtain ⟨width, hprepare, vertices, hvertices, rfl, -, rfl⟩ := h
  simp only [prepare, bind_eq_ok, throw_bind, ite_error_eq_ok, pure_eq_ok] at hprepare
  obtain ⟨_, hcheck, -, _, hsizes, -, -, -, -, rfl⟩ := hprepare
  exact ⟨hsizes, _, vertices, hcheck, hvertices, rfl, rfl⟩

/-- A checked fragment program of a linked pipeline makes a stage that is ready. -/
lemma ready_of_check {width : Nat} (fragment : p.fragment.check = .ok p.fragment)
    (sampler : ∀ t, bindings.sampler = some t → t.WellSized) (h : p.check = .ok width) :
    FragmentStage.Ready ⟨p.fragment, bindings, width⟩ := by
  obtain ⟨houtputs, hlink⟩ := check_eq_ok h
  obtain ⟨-, hfloat, hwidth⟩ := linkWidth_eq_ok hlink
  exact ⟨fragment, hfloat, hwidth, houtputs, sampler⟩

/-- Programs that are set up make a stage that is ready, and triangles that feed it. -/
lemma ready_of_setup_eq_ok (vertex : p.vertex.check = .ok p.vertex)
    (fragment : p.fragment.check = .ok p.fragment)
    (sampler : ∀ t, bindings.sampler = some t → t.WellSized)
    {ts : List (Triangle Binary32)} {culled : Nat} {s : FragmentStage}
    (h : p.setup buffer vertexCount bindings t = .ok (ts, culled, s)) :
    s.Ready ∧ ∀ t ∈ ts, t.Feeds s.varyingWidth := by
  obtain ⟨-, width, vertices, hcheck, hvertices, rfl, rfl⟩ := setup_eq_ok h
  obtain ⟨hfront, hfloat, hwidth⟩ := linkWidth_eq_ok (check_eq_ok hcheck).2
  refine ⟨ready_of_check fragment sampler hcheck, ?_⟩
  intro t ht
  obtain ⟨v, hv, ha, hb, hc⟩ := exists_of_mem_assemble ht
  have hfeed := le_size_varyings_of_shadeVertices vertex sampler hfront hfloat hvertices
  refine Triangle.feeds_of_ofVertices hv ?_
  simp only [Corners.all, Bool.and_eq_true, decide_eq_true_eq, hwidth]
  simp only [Array.mem_toList_iff] at ha hb hc
  exact ⟨⟨hfeed _ ha, hfeed _ hb⟩, hfeed _ hc⟩

/-- A draw that refuses leaves its targets as they are. -/
theorem drawWith_refused (careful : Target.Careful paint) (vertex : p.vertex.check = .ok p.vertex)
    (fragment : p.fragment.check = .ok p.fragment)
    (sampler : ∀ t, bindings.sampler = some t → t.WellSized) (wellSized : t.WellSized) {e : Error}
    (h : (p.drawWith paint buffer vertexCount bindings t).2 = .error (.refused e)) :
    (p.drawWith paint buffer vertexCount bindings t).1 = t := by
  unfold drawWith at h ⊢
  split
  · rfl
  · rename_i ts culled s hsetup
    obtain ⟨ready, feeds⟩ := ready_of_setup_eq_ok vertex fragment sampler hsetup
    obtain ⟨hsizes, -⟩ := setup_eq_ok hsetup
    have hrefused := careful.refused s ts t.toTarget e ready feeds (wellSized.sized hsizes)
    rcases hpaint : paint s ts t.toTarget with ⟨target, fault | _⟩ <;>
      simp only [hsetup, hpaint] at h hrefused ⊢
    · cases h
      rw [hrefused rfl, Targets.withTarget_toTarget]
    · cases h

/-- A draw never changes the size of its targets. -/
theorem drawWith_wellSized (careful : Target.Careful paint) (wellSized : t.WellSized) :
    (p.drawWith paint buffer vertexCount bindings t).1.WellSized := by
  unfold drawWith
  split
  · exact wellSized
  · rename_i ts culled s hsetup
    obtain ⟨hsizes, -⟩ := setup_eq_ok hsetup
    obtain ⟨hcolor, hdepth⟩ := careful.size s ts t.toTarget (wellSized.sized hsizes)
    rcases hpaint : paint s ts t.toTarget with ⟨target, fault | _⟩ <;>
      rw [hpaint] at hcolor hdepth <;> exact wellSized.withTarget hcolor hdepth

end Pipeline

end GraphicsPipeline
