import GraphicsPipeline.Proofs.Command
import GraphicsPipeline.Proofs.Draw.Redrawing

/-!
# Draw calls made again

A draw call made twice in a row ends the second time as it ended the first time, and leaves what it
left the first time (`Gpu.execute_idempotent`). A refused call changed nothing. After one that
succeeded the same programs, vertices and bindings are at hand, since targets are no buffers and no
target is the sampler, and drawing on what was drawn leaves it as it is.
-/

namespace GraphicsPipeline

open ResourceTable

namespace DrawCall

variable {c : DrawCall} {r r' : ResourceTable} {color : Texture} {depth : Option Texture}
  {t : Targets} {paint : FragmentStage → List (Triangle Binary32) → Step Target}

/-! ### Targets that were put back -/

/-- Only buffers matter before the targets are taken. -/
lemma prepare_of_buffer_eq (h : r'.buffer = r.buffer) : c.prepare r' = c.prepare r := by
  simp only [prepare, pipeline, uniformBuffer, h]

/-- Targets are textures. -/
lemma exists_texture_of_mem_writes (hcolor : r.get? c.output = some (.texture color))
    (hdepth : c.takeDepth (r.erase c.output) = .ok (depth, r')) {id : UInt64}
    (hid : id ∈ c.writes) :
    ∃ t, r.get? id = some (.texture t) := by
  rw [mem_writes] at hid
  rcases hid with rfl | hid
  · exact ⟨color, hcolor⟩
  · rcases takeDepth_eq_ok hdepth with ⟨hnone, -, -⟩ | ⟨id', d, hsome, -, hd, -⟩
    · cases hnone.symm.trans hid
    · cases hsome.symm.trans hid
      rw [get?_erase] at hd
      split_ifs at hd
      exact ⟨d, hd⟩

lemma takeDepth_of_get? {id : UInt64} {d : Texture} (hid : c.depth = some id)
    (h : r.get? id = some (.texture d)) : c.takeDepth r = .ok (some d, r.erase id) := by
  simp only [takeDepth, hid, take_eq_ok.2 ⟨h, rfl⟩, ok_bind]
  rfl

/-- Targets that were put back are taken again, and the same is left. -/
lemma take_restore (hdepth : c.takeDepth (r.erase c.output) = .ok (depth, r'))
    (h : t.depth.isSome = depth.isSome) :
    (c.restore r' t).get? c.output = some (.texture t.color) ∧
      ∃ s, c.takeDepth ((c.restore r' t).erase c.output) = .ok (t.depth, s) ∧
        ∀ k, s.get? k = r'.get? k := by
  obtain ⟨color', depth'⟩ := t
  rcases takeDepth_eq_ok hdepth with ⟨hnone, rfl, rfl⟩ | ⟨id, d, hsome, rfl, hid, rfl⟩
  · obtain rfl : depth' = none := by simpa using h
    simp only [restore, takeDepth, hnone, get?_restore, if_true]
    refine ⟨trivial, _, rfl, fun k => ?_⟩
    simp only [get?_erase, get?_restore]
    split_ifs <;> rfl
  · obtain ⟨d', rfl⟩ := Option.isSome_iff_exists.1 h
    rw [get?_erase] at hid
    split_ifs at hid with hne
    have hrestored : (c.restore ((r.erase c.output).erase id) ⟨color', some d'⟩) =
        (((r.erase c.output).erase id).restore c.output color').restore id d' := by
      rw [restore, hsome]
    rw [hrestored]
    refine ⟨?_, _, takeDepth_of_get? hsome ?_, fun k => ?_⟩
    · rw [get?_restore, if_neg (Ne.symm hne), get?_restore, if_pos rfl]
    · rw [get?_erase, if_neg hne, get?_restore, if_pos rfl]
    · simp only [get?_erase, get?_restore]
      split_ifs <;> rfl

/-- Drawing depends on what is left in the table under the ids that the call names. -/
lemma drawWith_congr (h : r.AgreesOn r' c.names) (p : Pipeline) (t : Targets) :
    c.drawWith paint r' p t = c.drawWith paint r p t := by
  simp only [drawWith, inputs_congr h]

/-- What was drawn shows the same when it is drawn once more. -/
lemma drawWith_again {p : Pipeline} {bandRows : UInt64} {t' : Targets} {stats : DrawStats}
    (wellSized : t.WellSized) (hwidth : t.color.width.toNat ≤ 2 ^ 24)
    (hrows : bandRows.toNat < 2 ^ 32)
    (h : c.drawWith (fun s ts => Target.paint s ts bandRows) r p t = (t', .ok stats)) :
    c.drawWith (fun s ts => Target.paint s ts bandRows) r p t' = (t', .ok stats) := by
  unfold drawWith at h ⊢
  rcases hinputs : c.inputs r with e | ⟨vertices, bindings⟩ <;> rw [hinputs] at h
  · cases h
  · exact Pipeline.drawWith_again wellSized hwidth hrows h

/-- Drawing with programs that were read never stops short. -/
lemma drawWith_ne_aborted {p : Pipeline} {bandRows : UInt64} (hprepare : c.prepare r' = .ok p)
    (wellFormed : r.WellFormed) (wellSized : t.WellSized) (hwidth : t.color.width.toNat ≤ 2 ^ 24)
    (hrows : bandRows.toNat < 2 ^ 32) :
    (c.drawWith (fun s ts => Target.paint s ts bandRows) r p t).2 ≠ .error .aborted := by
  obtain ⟨vertex, fragment⟩ := check_of_prepare hprepare
  unfold drawWith
  rcases hinputs : c.inputs r with e | ⟨vertices, bindings⟩
  · simp
  · exact Pipeline.drawWith_ne_aborted vertex fragment (wellSized_of_inputs wellFormed hinputs)
      wellSized hwidth hrows vertices c.vertexCount

end DrawCall

namespace Gpu

variable {g g' : Gpu} {c : DrawCall}
  {paint : FragmentStage → List (Triangle Binary32) → Step Target} {p : Pipeline}
  {color : Texture} {depth : Option Texture} {r : ResourceTable}

/-! ### Calls made again -/

/-- What changes the contents of textures changes no buffer. -/
lemma KeepsBut.buffer_eq {ids : List UInt64} (h : g.KeepsBut g' ids)
    (hids : ∀ id ∈ ids, ∃ t, g.resources.get? id = some (.texture t)) :
    g'.resources.buffer = g.resources.buffer := by
  funext id
  by_cases hid : id ∈ ids
  · obtain ⟨t, ht⟩ := hids id hid
    have hform := h.form id
    rw [ht] at hform
    obtain ⟨t', ht'⟩ : ∃ t', g'.resources.get? id = some (.texture t') := by
      generalize g'.resources.get? id = x at hform
      cases hform with
      | some hform =>
        cases hform
        exact ⟨_, rfl⟩
    rw [buffer, buffer, ht, ht']
  · rw [buffer, buffer, h.get? id hid]

/-- A call that takes its targets puts back what was drawn on them, unless it stops short. -/
lemma executeWith_of_taken (hprepare : c.prepare g.resources = .ok p)
    (hcolor : g.resources.get? c.output = some (.texture color))
    (hdepth : c.takeDepth (g.resources.erase c.output) = .ok (depth, r))
    (h : (c.drawWith paint r p ⟨color, depth⟩).2 ≠ .error .aborted) :
    g.executeWith paint c =
      ({ g with resources := c.restore r (c.drawWith paint r p ⟨color, depth⟩).1 },
        (c.drawWith paint r p ⟨color, depth⟩).2) := by
  rcases hdraw : c.drawWith paint r p ⟨color, depth⟩ with ⟨targets, (e | _) | stats⟩
  · simp only [executeWith, hprepare, take_eq_ok.2 ⟨hcolor, rfl⟩, hdepth, hdraw]
  · rw [hdraw] at h
    exact absurd rfl h
  · simp only [executeWith, hprepare, take_eq_ok.2 ⟨hcolor, rfl⟩, hdepth, hdraw]

/-- A call that is refused is refused again. -/
lemma executeWith_again_of_refused (careful : Target.Careful paint)
    (wellFormed : g.resources.WellFormed) {e : Error}
    (h : (g.executeWith paint c).2 = .error (.refused e)) :
    ((g.executeWith paint c).1.executeWith paint c).2 = .error (.refused e) ∧
      ∀ k, ((g.executeWith paint c).1.executeWith paint c).1.resources.get? k =
        (g.executeWith paint c).1.resources.get? k := by
  obtain ⟨-, hget⟩ := executeWith_refused careful wellFormed h
  have hresult : ((g.executeWith paint c).1.executeWith paint c).2 = (g.executeWith paint c).2 :=
    (executeWith_congr fun id _ => hget id).1
  rw [h] at hresult
  exact ⟨hresult, (executeWith_refused careful
    (wellFormed_executeWith careful wellFormed) hresult).2⟩

/-- A call that succeeds took its targets, drew on them and put them back. -/
lemma executeWith_eq_ok {stats : DrawStats} (h : (g.executeWith paint c).2 = .ok stats) :
    ∃ p color depth r t, c.prepare g.resources = .ok p ∧
      g.resources.get? c.output = some (.texture color) ∧
        c.takeDepth (g.resources.erase c.output) = .ok (depth, r) ∧
          c.drawWith paint r p ⟨color, depth⟩ = (t, .ok stats) ∧
            (g.executeWith paint c).1 = { g with resources := c.restore r t } := by
  rcases executeWith_cases paint g c with ⟨e, h'⟩ | ⟨e, color, -, h'⟩ |
    ⟨p, color, depth, r, hprepare, hcolor, hdepth, h' | h'⟩ <;> rw [h'] at h
  · cases h
  · cases h
  · cases h
  · rcases hdraw : c.drawWith paint r p ⟨color, depth⟩ with ⟨t, result⟩
    rw [hdraw] at h h'
    cases h
    exact ⟨p, color, depth, r, t, hprepare, hcolor, hdepth, hdraw, congrArg Prod.fst h'⟩

/-- A call that succeeded succeeds again in the same way, and leaves what it left. -/
lemma execute_again_of_ok (wellFormed : g.resources.WellFormed)
    (hrows : g.config.bandRows.toNat < 2 ^ 32)
    (hwidth : ∀ t, g.resources.get? c.output = some (.texture t) → t.width.toNat ≤ 2 ^ 24)
    {stats : DrawStats} (h : (g.execute c).2 = .ok stats) :
    ((g.execute c).1.execute c).2 = .ok stats ∧
      ∀ k, ((g.execute c).1.execute c).1.resources.get? k = (g.execute c).1.resources.get? k := by
  have hkeeps : g.KeepsBut (g.execute c).1 c.writes :=
    keepsBut_executeWith Target.paint_careful wellFormed h
  obtain ⟨p, color, depth, r, t, hprepare, hcolor, hdepth, hdraw, hexecute⟩ := executeWith_eq_ok h
  have ht : Targets.WellSized ⟨color, depth⟩ :=
    ⟨wellFormed.textures _ _ hcolor, (DrawCall.WellFormed.takeDepth wellFormed.erase hdepth).2⟩
  have hfirst : (g.execute c).1 = { g with resources := c.restore r t } := hexecute
  -- the second call comes to draw on what the first one left
  have hprepare' : c.prepare (c.restore r t) = .ok p := by
    have hbuffer := hkeeps.buffer_eq fun id hid =>
      DrawCall.exists_texture_of_mem_writes hcolor hdepth hid
    rw [hfirst] at hbuffer
    rw [DrawCall.prepare_of_buffer_eq hbuffer, hprepare]
  have hsome : t.depth.isSome = depth.isSome := by
    obtain ⟨target, htarget⟩ := c.exists_withTarget_drawWith _ r p ⟨color, depth⟩
    have hdepths := congrArg Targets.depth ((congrArg Prod.fst hdraw).symm.trans htarget)
    exact (congrArg Option.isSome hdepths).trans Option.isSome_map
  obtain ⟨hcolor', s, hdepth', hs⟩ := DrawCall.take_restore hdepth hsome
  have hdraw' : c.drawWith (fun s ts => Target.paint s ts g.config.bandRows) s p t =
      (t, .ok stats) := by
    rw [DrawCall.drawWith_congr fun id _ => hs id]
    exact DrawCall.drawWith_again ht (hwidth color hcolor) hrows hdraw
  have hsecond : (⟨c.restore r t, g.config⟩ : Gpu).execute c =
      (⟨c.restore s t, g.config⟩, .ok stats) := by
    rw [execute, executeWith_of_taken hprepare' hcolor' hdepth' (by simp [hdraw']), hdraw']
  rw [hfirst, hsecond]
  refine ⟨rfl, fun k => ?_⟩
  have hagrees : (c.restore r t).AgreesOn (c.restore s t) [k] :=
    DrawCall.agreesOn_restore fun id _ => hs id
  exact hagrees k (List.mem_singleton_self k)

/-- A draw call never stops short. -/
lemma execute_ne_aborted (wellFormed : g.resources.WellFormed)
    (hrows : g.config.bandRows.toNat < 2 ^ 32)
    (hwidth : ∀ t, g.resources.get? c.output = some (.texture t) → t.width.toNat ≤ 2 ^ 24) :
    (g.execute c).2 ≠ .error .aborted := by
  have hdraws : ∀ p color depth r, c.prepare g.resources = .ok p →
      g.resources.get? c.output = some (.texture color) →
        c.takeDepth (g.resources.erase c.output) = .ok (depth, r) →
          (c.drawWith (fun s ts => Target.paint s ts g.config.bandRows) r p ⟨color, depth⟩).2 ≠
            .error .aborted := by
    intro p color depth r hprepare hcolor hdepth
    obtain ⟨hr, hd⟩ := DrawCall.WellFormed.takeDepth wellFormed.erase hdepth
    exact DrawCall.drawWith_ne_aborted hprepare hr ⟨wellFormed.textures _ _ hcolor, hd⟩
      (hwidth color hcolor) hrows
  rcases executeWith_cases (fun s ts => Target.paint s ts g.config.bandRows) g c with ⟨e, h⟩ |
    ⟨e, color, -, h⟩ | ⟨p, color, depth, r, hprepare, hcolor, hdepth, -⟩
  · simp [execute, h]
  · simp [execute, h]
  · have hne := hdraws p color depth r hprepare hcolor hdepth
    rw [execute, executeWith_of_taken hprepare hcolor hdepth hne]
    exact hne

/-- Whatever was done before, a draw call made twice in a row comes to the same end both times, with
the same statistics or the same error, and all resources are after the second time what they were
after the first. -/
theorem execute_idempotent [Allocator] (config : Config) (hrows : config.bandRows.toNat < 2 ^ 32)
    (commands : List Command) (c : DrawCall)
    (hwidth : ∀ t, ((new config).after commands).resources.get? c.output = some (.texture t) →
      t.width.toNat ≤ 2 ^ 24) :
    (((new config).after commands).execute c).2 ≠ .error .aborted ∧
      ((((new config).after commands).execute c).1.execute c).2 =
        (((new config).after commands).execute c).2 ∧
      ((((new config).after commands).execute c).1.execute c).1.SameAs
        (((new config).after commands).execute c).1 := by
  have wellFormed := wellFormed_after (g := new config) WellFormed.empty commands
  have hconfig : ((new config).after commands).config = config := config_after commands
  generalize (new config).after commands = g at hwidth wellFormed hconfig
  subst hconfig
  have hfirst : (g.execute c).1.resources.WellFormed :=
    wellFormed_executeWith Target.paint_careful wellFormed
  have hsecond : ((g.execute c).1.execute c).1.resources.WellFormed :=
    wellFormed_executeWith Target.paint_careful hfirst
  have hne := execute_ne_aborted wellFormed hrows hwidth
  have hagain : ((g.execute c).1.execute c).2 = (g.execute c).2 ∧
      ∀ k, ((g.execute c).1.execute c).1.resources.get? k = (g.execute c).1.resources.get? k := by
    rcases hresult : (g.execute c).2 with (e | _) | stats
    · rw [execute_execute]
      exact executeWith_again_of_refused Target.paint_careful wellFormed hresult
    · exact absurd hresult hne
    · exact execute_again_of_ok wellFormed hrows hwidth hresult
  exact ⟨hne, hagain.1, config_executeWith, perm_of_get?_eq hfirst hsecond hagain.2, hagain.2⟩

/-! ### A call on a depth texture -/

/-- Two textures of two pixels, the second with the farthest depth, and what a red and a green
triangle over the whole screen take. -/
def layers : List Command :=
  [.createTexture 1 1 2, .createTexture 2 1 2, .clearDepth 2 0xffffffff (.full 1 2),
    .createBufferFrom 3 (Storage.ofBytes Pipeline.vertexColors.vertex.encode),
    .createBufferFrom 4 (Storage.ofBytes Pipeline.vertexColors.fragment.encode),
    .createBufferFrom 5 (Storage.ofBytes Pipeline.vertexColors.layout.encode),
    .createBufferFrom 6 (Pipeline.screens [Pipeline.red, Pipeline.green])]

/-- The triangles drawn on the textures. -/
def layersDraw : DrawCall := ⟨3, 4, 6, 5, none, 1, some 2, none, 6⟩

/-- The settings of a single thread that paints row after row. -/
def rowByRow : Config := { threads := none, bandRows := 1 }

/-- The triangles are drawn again on the depths that they left. -/
theorem execute_idempotent_layers :
    ((((new rowByRow).after layers).execute layersDraw).1.execute layersDraw).2 =
        .ok ⟨6, 2, 0⟩ ∧
      ((((new rowByRow).after layers).execute layersDraw).1.execute layersDraw).1.SameAs
        (((new rowByRow).after layers).execute layersDraw).1 := by
  have hdrawn : (((new rowByRow).after layers).execute layersDraw).2 = .ok ⟨6, 2, 0⟩ := by
    decide +kernel
  have hwidth : (((new rowByRow).after layers).resources.texture layersDraw.output).map
      Texture.width = .ok 1 := by
    decide +kernel
  obtain ⟨-, hresult, hsame⟩ :=
    execute_idempotent rowByRow (by decide) layers layersDraw fun t ht => by
      rw [texture_eq_ok.2 ht] at hwidth
      rw [Except.ok.inj hwidth]
      decide
  exact ⟨hresult.trans hdrawn, hsame⟩

end Gpu

end GraphicsPipeline
