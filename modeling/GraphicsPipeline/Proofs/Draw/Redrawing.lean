import GraphicsPipeline.Proofs.Draw.Visibility
import GraphicsPipeline.Proofs.Raster.Repainting

/-!
# Drawing again

A draw of checked programs comes to an end: it shows its triangles or refuses. What is looked at
before the first pixel depends on the sizes of the targets and not on their contents. So a draw that
succeeded gives the same again on what it left, and leaves it as it is (`Pipeline.drawWith_again`).
-/

namespace GraphicsPipeline

@[simp] lemma Targets.withTarget_withTarget (t : Targets) (target : Target) :
    (t.withTarget target).withTarget target = t.withTarget target := by
  obtain ⟨color, depth⟩ := t
  obtain ⟨width, data, depths⟩ := target
  cases depth <;> cases depths <;> rfl

namespace Pipeline

variable {p : Pipeline} {buffer : ByteArray} {vertexCount : UInt64} {bindings : Bindings}
  {bandRows : UInt64} {t t' : Targets} {stats : DrawStats}

/-! ### Draws come to an end -/

/-- The layout of a linked pipeline gives what the vertex program takes. -/
lemma feeds_of_check {width : Nat} (h : p.check = .ok width) : p.layout.feeds p.vertex.inputs := by
  simp only [check, throw_bind, ite_error_eq_ok] at h
  simpa using h.2.2.2.1

lemma setup_ne_aborted (vertex : p.vertex.check = .ok p.vertex)
    (sampler : ∀ t, bindings.sampler = some t → t.WellSized) (buffer : ByteArray)
    (vertexCount : UInt64) (t : Targets) :
    p.setup buffer vertexCount bindings t ≠ .error .aborted := by
  unfold setup
  cases hprepare : p.prepare vertexCount bindings t with
  | error e => simp
  | ok width =>
    have hcheck : p.check = .ok width := by
      simp only [prepare, bind_eq_ok, throw_bind, ite_error_eq_ok, pure_eq_ok] at hprepare
      obtain ⟨_, hcheck, -, _, -, -, -, -, -, rfl⟩ := hprepare
      exact hcheck
    have hvertices :=
      shadeVertices_ne_aborted vertex sampler (feeds_of_check hcheck) buffer vertexCount
    cases hshade : shadeVertices p.vertex p.layout buffer bindings vertexCount <;> simp_all

/-- A draw of checked programs never stops short. -/
theorem drawWith_ne_aborted (vertex : p.vertex.check = .ok p.vertex)
    (fragment : p.fragment.check = .ok p.fragment)
    (sampler : ∀ t, bindings.sampler = some t → t.WellSized) (wellSized : t.WellSized)
    (hwidth : t.color.width.toNat ≤ 2 ^ 24) (hrows : bandRows.toNat < 2 ^ 32) (buffer : ByteArray)
    (vertexCount : UInt64) :
    (p.drawWith (fun s ts => Target.paint s ts bandRows) buffer vertexCount bindings t).2 ≠
      .error .aborted := by
  unfold drawWith
  rcases hsetup : p.setup buffer vertexCount bindings t with fault | ⟨ts, culled, s⟩
  · have hne := setup_ne_aborted vertex sampler buffer vertexCount t
    rw [hsetup] at hne
    simpa using hne
  · obtain ⟨ready, feeds⟩ := ready_of_setup_eq_ok vertex fragment sampler hsetup
    have complete := wellSized.complete (setup_eq_ok hsetup).1
    have hcolumns := lt_width_of_setup_eq_ok hwidth hsetup
    have hpaint : (Target.paint s ts bandRows t.toTarget).2 ≠ .error .aborted := by
      rw [complete.paint_eq ready feeds hcolumns hwidth hrows]
      exact complete.paintWhole_ne_aborted ready feeds hcolumns
    rcases h : Target.paint s ts bandRows t.toTarget with ⟨target, fault | _⟩ <;> simp_all

/-! ### The same draw on what it left -/

/-- The contents of the targets do not matter before the first pixel. -/
lemma setup_withTarget (target : Target) :
    p.setup buffer vertexCount bindings (t.withTarget target) =
      p.setup buffer vertexCount bindings t := by
  obtain ⟨color, depth⟩ := t
  cases depth <;> rfl

/-- A draw that succeeded gives the same once more, and leaves its targets as they are. -/
theorem drawWith_again (wellSized : t.WellSized) (hwidth : t.color.width.toNat ≤ 2 ^ 24)
    (hrows : bandRows.toNat < 2 ^ 32)
    (h : p.drawWith (fun s ts => Target.paint s ts bandRows) buffer vertexCount bindings t =
      (t', .ok stats)) :
    p.drawWith (fun s ts => Target.paint s ts bandRows) buffer vertexCount bindings t' =
      (t', .ok stats) := by
  obtain ⟨ts, culled, s, target, hsetup, hpaint, rfl⟩ := drawWith_eq_ok h
  have complete := wellSized.complete (setup_eq_ok hsetup).1
  have hagain := complete.paint_again (lt_width_of_setup_eq_ok hwidth hsetup) hwidth hrows hpaint
  -- the set-up sees sizes only, so it finds the same triangles for the painted targets
  rw [drawWith] at h ⊢
  rw [setup_withTarget, hsetup]
  rw [hsetup] at h
  simp only [hpaint, toTarget_withTarget_of_paint wellSized (setup_eq_ok hsetup).1 hpaint, hagain]
    at h ⊢
  rw [Targets.withTarget_withTarget]
  exact h

end Pipeline

end GraphicsPipeline
