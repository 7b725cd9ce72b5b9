import GraphicsPipeline.Command
import GraphicsPipeline.Proofs.Draw.Stages
import GraphicsPipeline.Proofs.Resource
import GraphicsPipeline.Proofs.Shader.Codec

/-!
# Draw calls that fail

A draw call takes its targets out of the table and puts them back. When the call is refused, at
whatever point, the table holds what it held before (`Gpu.execute_refused`): the targets were not
changed, and they are put back under their ids.
-/

namespace GraphicsPipeline

open ResourceTable

namespace DrawCall

variable {c : DrawCall} {r r' : ResourceTable} {p : Pipeline} {color : Texture}
  {depth : Option Texture} {t : Targets}
  {paint : FragmentStage → List (Triangle Binary32) → Step Target}

/-- The programs of a draw were checked when they were read. -/
lemma check_of_prepare (h : c.prepare r = .ok p) :
    p.vertex.check = .ok p.vertex ∧ p.fragment.check = .ok p.fragment := by
  unfold prepare at h
  split at h
  · simp at h
  · simp only [bind_eq_ok, pure_eq_ok, pipeline] at h
    obtain ⟨_, ⟨_, _, vertex, hvertex, _, _, fragment, hfragment, _, _, layout, _, rfl⟩, -, -, -, -,
      rfl⟩ := h
    exact ⟨Program.check_of_decode hvertex, Program.check_of_decode hfragment⟩

lemma wellSized_of_inputs (wellFormed : r.WellFormed) {vertices : ByteArray} {bindings : Bindings}
    (h : c.inputs r = .ok (vertices, bindings)) :
    ∀ t, bindings.sampler = some t → t.WellSized := by
  simp only [inputs, bind_eq_ok, pure_eq_ok, Prod.mk.injEq] at h
  obtain ⟨_, _, _, _, sampler, hsampler, rfl, rfl⟩ := h
  rintro t ⟨⟩
  cases hc : c.sampler with
  | none => simp [hc] at hsampler
  | some id =>
    simp only [hc, Option.mapM_some, map_eq_ok, Option.some.injEq, exists_eq_right] at hsampler
    exact wellFormed.texture hsampler

lemma takeDepth_eq_ok (h : c.takeDepth r = .ok (depth, r')) :
    (c.depth = none ∧ depth = none ∧ r' = r) ∨
      ∃ id t, c.depth = some id ∧ depth = some t ∧ r.get? id = some (.texture t) ∧
        r' = r.erase id := by
  unfold takeDepth at h
  cases hd : c.depth with
  | none =>
    rw [hd] at h
    cases h
    exact .inl ⟨rfl, rfl, rfl⟩
  | some id =>
    rw [hd] at h
    simp only [bind_eq_ok, pure_eq_ok, Prod.mk.injEq] at h
    obtain ⟨⟨t, _⟩, htake, rfl, rfl⟩ := h
    obtain ⟨ht, rfl⟩ := take_eq_ok.1 htake
    exact .inr ⟨id, t, rfl, rfl, ht, rfl⟩

lemma WellFormed.takeDepth (wellFormed : r.WellFormed) (h : c.takeDepth r = .ok (depth, r')) :
    r'.WellFormed ∧ ∀ d, depth = some d → d.WellSized := by
  rcases takeDepth_eq_ok h with ⟨-, rfl, rfl⟩ | ⟨id, t, -, rfl, ht, rfl⟩
  · exact ⟨wellFormed, by simp⟩
  · refine ⟨wellFormed.erase, ?_⟩
    rintro _ ⟨⟩
    exact wellFormed.textures id t ht

lemma WellFormed.restore (wellFormed : r.WellFormed) (ht : t.WellSized) :
    (c.restore r t).WellFormed := by
  have hcolor : (r.restore c.output t.color).WellFormed :=
    ResourceTable.WellFormed.restore wellFormed ht.color
  unfold DrawCall.restore
  split
  · rename_i id depth _ hdepth
    exact hcolor.restore (ht.depth depth hdepth)
  · exact hcolor

/-- Targets that are put back as they were taken leave the table as it was. -/
theorem get?_restore_take {k : UInt64} (hcolor : r.get? c.output = some (.texture color))
    (hdepth : c.takeDepth (r.erase c.output) = .ok (depth, r')) :
    (c.restore r' ⟨color, depth⟩).get? k = r.get? k := by
  rcases takeDepth_eq_ok hdepth with ⟨hd, rfl, rfl⟩ | ⟨id, t, hd, rfl, ht, rfl⟩
  · simp only [DrawCall.restore, hd, get?_restore, get?_erase]
    split_ifs with hk
    · rw [hk, hcolor]
    · rfl
  · rw [get?_erase] at ht
    split_ifs at ht
    simp only [DrawCall.restore, hd, get?_restore, get?_erase]
    split_ifs with hk hk'
    · rw [hk, ht]
    · rw [hk', hcolor]
    · rfl

/-- A draw never changes the size of its targets. -/
lemma drawWith_wellSized (careful : Target.Careful paint) (ht : t.WellSized) :
    (c.drawWith paint r p t).1.WellSized := by
  unfold drawWith
  split
  · exact ht
  · exact Pipeline.drawWith_wellSized careful ht

end DrawCall

namespace Gpu

variable {g : Gpu} {c : DrawCall} {paint : FragmentStage → List (Triangle Binary32) → Step Target}

/-- The ways that a draw call can take: it is refused before anything is taken, or without its depth
target, or it draws on the targets that were taken and may stop short there. -/
lemma executeWith_cases (paint : FragmentStage → List (Triangle Binary32) → Step Target) (g : Gpu)
    (c : DrawCall) :
    (∃ e, g.executeWith paint c = (g, .error (.refused e))) ∨
      (∃ e color, g.resources.get? c.output = some (.texture color) ∧
        g.executeWith paint c =
          ({ g with resources := (g.resources.erase c.output).restore c.output color },
            .error (.refused e))) ∨
        ∃ p color depth r, c.prepare g.resources = .ok p ∧
          g.resources.get? c.output = some (.texture color) ∧
            c.takeDepth (g.resources.erase c.output) = .ok (depth, r) ∧
              (g.executeWith paint c = ({ g with resources := r }, .error .aborted) ∨
                g.executeWith paint c =
                  ({ g with resources := c.restore r (c.drawWith paint r p ⟨color, depth⟩).1 },
                    (c.drawWith paint r p ⟨color, depth⟩).2)) := by
  unfold executeWith
  rcases hprepare : c.prepare g.resources with e | p
  · exact .inl ⟨e, rfl⟩
  · rcases htake : g.resources.take c.output with e | ⟨color, r⟩
    · exact .inl ⟨e, rfl⟩
    · obtain ⟨hcolor, rfl⟩ := take_eq_ok.1 htake
      rcases hdepth : c.takeDepth (g.resources.erase c.output) with e | ⟨depth, r⟩
      · exact .inr (.inl ⟨e, color, hcolor, by simp [hdepth]⟩)
      · refine .inr (.inr ⟨p, color, depth, r, rfl, hcolor, rfl, ?_⟩)
        simp only [hdepth]
        split
        · exact .inl rfl
        · rename_i hdraw
          exact .inr (by rw [hdraw])

/-- Draw calls keep the table well formed. -/
theorem wellFormed_executeWith (careful : Target.Careful paint)
    (wellFormed : g.resources.WellFormed) : (g.executeWith paint c).1.resources.WellFormed := by
  rcases executeWith_cases paint g c with ⟨e, h⟩ | ⟨e, color, hcolor, h⟩ |
      ⟨p, color, depth, r, -, hcolor, hdepth, h | h⟩ <;> rw [h]
  · exact wellFormed
  · exact wellFormed.erase.restore (wellFormed.textures _ _ hcolor)
  · exact (DrawCall.WellFormed.takeDepth wellFormed.erase hdepth).1
  · obtain ⟨hr, hsized⟩ := DrawCall.WellFormed.takeDepth wellFormed.erase hdepth
    have ht : Targets.WellSized ⟨color, depth⟩ := ⟨wellFormed.textures _ _ hcolor, hsized⟩
    exact DrawCall.WellFormed.restore hr (DrawCall.drawWith_wellSized careful ht)

/-- A draw call that is refused leaves everything in the table as it was. -/
theorem executeWith_refused (careful : Target.Careful paint) (wellFormed : g.resources.WellFormed)
    {e : Error} (h : (g.executeWith paint c).2 = .error (.refused e)) :
    (g.executeWith paint c).1.config = g.config ∧
      ∀ k, (g.executeWith paint c).1.resources.get? k = g.resources.get? k := by
  rcases executeWith_cases paint g c with ⟨e', h'⟩ | ⟨e', color, hcolor, h'⟩ |
      ⟨p, color, depth, r, hprepare, hcolor, hdepth, h' | h'⟩ <;> rw [h'] at h ⊢
  · exact ⟨rfl, fun k => rfl⟩
  · refine ⟨rfl, fun k => ?_⟩
    simp only [get?_restore, get?_erase]
    split_ifs with hk
    · rw [hk, hcolor]
    · rfl
  · cases h
  · refine ⟨rfl, fun k => ?_⟩
    obtain ⟨hr, hsized⟩ := DrawCall.WellFormed.takeDepth wellFormed.erase hdepth
    have ht : Targets.WellSized ⟨color, depth⟩ := ⟨wellFormed.textures _ _ hcolor, hsized⟩
    obtain ⟨vertex, fragment⟩ := DrawCall.check_of_prepare hprepare
    -- the draw was refused before a pixel changed, so what is put back is what was taken
    have hunchanged : (c.drawWith paint r p ⟨color, depth⟩).1 = ⟨color, depth⟩ := by
      unfold DrawCall.drawWith at h ⊢
      rcases hinputs : c.inputs r with e' | ⟨vertices, bindings⟩
      · rfl
      · simp only [hinputs] at h
        exact Pipeline.drawWith_refused careful vertex fragment
          (DrawCall.wellSized_of_inputs hr hinputs) ht h
    rw [hunchanged]
    exact DrawCall.get?_restore_take hcolor hdepth

/-! ### All states -/

/-- Every command keeps the table well formed. -/
theorem wellFormed_perform [Allocator] (wellFormed : g.resources.WellFormed) (command : Command) :
    (g.perform command).1.resources.WellFormed := by
  have hchange : ∀ result : Except Fault ResourceTable,
      (∀ r, result = .ok r → r.WellFormed) → (g.change result).1.resources.WellFormed := by
    rintro (_ | r) h
    · exact wellFormed
    · exact h r rfl
  cases command with
  | createTexture id width height =>
    exact hchange _ fun r h => wellFormed.createTexture (orRefuse_eq_ok.1 h)
  | freeTexture id => exact hchange _ fun r h => wellFormed.freeTexture (orRefuse_eq_ok.1 h)
  | createBuffer id size => exact hchange _ fun r h => wellFormed.createBuffer (orRefuse_eq_ok.1 h)
  | createBufferFrom id bytes =>
    exact hchange _ fun r h => wellFormed.createBufferFrom (orRefuse_eq_ok.1 h)
  | freeBuffer id => exact hchange _ fun r h => wellFormed.freeBuffer (orRefuse_eq_ok.1 h)
  | clearColor id color rect => exact hchange _ fun r h => wellFormed.clearColor h
  | clearDepth id depth rect => exact hchange _ fun r h => wellFormed.clearDepth h
  | writeBuffer id offset bytes => exact hchange _ fun r h => wellFormed.writeBuffer h
  | writeTexture id offset bytes => exact hchange _ fun r h => wellFormed.writeTexture h
  | draw call =>
    have hexecute : (g.execute call).1.resources.WellFormed :=
      wellFormed_executeWith Target.paint_careful wellFormed
    simp only [perform]
    split <;> rename_i heq <;> simpa [heq] using hexecute

/-- Whatever was done, the table is well formed. -/
theorem wellFormed_after [Allocator] (wellFormed : g.resources.WellFormed)
    (commands : List Command) : (g.after commands).resources.WellFormed := by
  induction commands generalizing g with
  | nil => exact wellFormed
  | cons command commands ih => exact ih (wellFormed_perform wellFormed command)

/-- The settings and all resources are those of another graphics processor. -/
structure SameAs (g g' : Gpu) : Prop where
  config : g.config = g'.config
  entries : g.resources.entries.Perm g'.resources.entries
  get? : ∀ id, g.resources.get? id = g'.resources.get? id

/-- A draw call that is refused changes nothing, whatever was done before, and in whatever order the
bands are painted. -/
theorem execute_refused [Allocator] (config : Config) (commands : List Command) (c : DrawCall) :
    (∀ e, (((new config).after commands).execute c).2 = .error (.refused e) →
      (((new config).after commands).execute c).1.SameAs ((new config).after commands)) ∧
    ∀ places e, (((new config).after commands).executeInOrder places c).2 = .error (.refused e) →
      (((new config).after commands).executeInOrder places c).1.SameAs
        ((new config).after commands) := by
  have wellFormed := wellFormed_after (g := new config) WellFormed.empty commands
  have hsame : ∀ paint, Target.Careful paint → ∀ e,
      (((new config).after commands).executeWith paint c).2 = .error (.refused e) →
        (((new config).after commands).executeWith paint c).1.SameAs
          ((new config).after commands) := by
    intro paint careful e h
    obtain ⟨hconfig, hget⟩ := executeWith_refused careful wellFormed h
    exact ⟨hconfig, perm_of_get?_eq wellFormed (wellFormed_executeWith careful wellFormed) hget,
      hget⟩
  exact ⟨hsame _ Target.paint_careful, fun places => hsame _ Target.paintInOrder_careful⟩

/-! ### A call that is refused at its first pixel -/

/-- A vertex program that hands on the position. -/
def handOn : Program := ⟨[.vec4], [.vec4], some 0, 1, [.input 0 0, .store 0 0]⟩

/-- A fragment program that takes the colour from the sixth group of the uniform buffer. -/
def sixthGroup : Program := ⟨[], [.vec4], none, 1, [.uniform 0 5 0, .store 0 0]⟩

/-- Positions one after another. -/
def positions : Layout := ⟨[⟨.vec4, 0, 16⟩]⟩

/-- Three positions, the corners of a triangle over the whole screen. -/
def screenCorners : List UInt32 :=
  [0xbf800000, 0xbf800000, 0, 0x3f800000, 0x40400000, 0xbf800000, 0, 0x3f800000,
    0xbf800000, 0x40400000, 0, 0x3f800000]

/-- A texture of one pixel, the programs and the corners, and a uniform buffer of one vector. -/
def onePixel : List Command :=
  [.createTexture 1 1 1, .createBufferFrom 2 (Storage.ofBytes handOn.encode),
    .createBufferFrom 3 (Storage.ofBytes sixthGroup.encode),
    .createBufferFrom 4 (Storage.ofBytes positions.encode),
    .createBufferFrom 5 (Storage.ofBytes (screenCorners.flatMap LittleEndian.encode)),
    .createBuffer 6 16]

/-- The triangle drawn on the pixel. -/
def onePixelDraw : DrawCall := ⟨2, 3, 5, 4, some 6, 1, none, none, 3⟩

set_option maxRecDepth 100000 in
/-- The uniform buffer is too small for the fragment program; the texture is put back as it was. -/
theorem execute_refused_onePixel :
    (((new {}).after onePixel).execute onePixelDraw).2 =
        .error (.refused (.uniformOutOfBounds 5 0)) ∧
      (((new {}).after onePixel).execute onePixelDraw).1.SameAs ((new {}).after onePixel) := by
  have hrefused : (((new {}).after onePixel).execute onePixelDraw).2 =
      .error (.refused (.uniformOutOfBounds 5 0)) := by decide +kernel
  exact ⟨hrefused, (execute_refused {} onePixel onePixelDraw).1 _ hrefused⟩

end Gpu

end GraphicsPipeline
