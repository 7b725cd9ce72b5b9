import GraphicsPipeline.Proofs.Gpu

/-!
# Draw calls are local

A draw call has to do with the resources that it names and with no others. It writes to its targets
only (`Gpu.get?_executeWith`), and what it gives and leaves under the ids that it names depends on
nothing else (`Gpu.executeWith_congr`). So draw calls that do not write what the other names may
change places.
-/

namespace GraphicsPipeline

open ResourceTable

/-! ### Footprints -/

namespace DrawCall

/-- The textures that the call draws on. -/
def writes (c : DrawCall) : List UInt64 := c.output :: c.depth.toList

/-- All ids in the call. -/
def names (c : DrawCall) : List UInt64 :=
  [c.vertexProgram, c.fragmentProgram, c.vertexBuffer, c.layout] ++ c.uniforms.toList ++
    c.sampler.toList ++ c.writes

variable {c : DrawCall} {id : UInt64}

lemma mem_writes : id ∈ c.writes ↔ id = c.output ∨ c.depth = some id := by
  simp [writes]

lemma mem_names_of_mem_writes (h : id ∈ c.writes) : id ∈ c.names :=
  List.mem_append_right _ h

end DrawCall

/-- Textures of one size, with as many bytes. -/
structure Texture.SameForm (t t' : Texture) : Prop where
  width : t'.width = t.width
  height : t'.height = t.height
  size : t'.data.size = t.data.size

/-- Resources of one kind and one size. -/
inductive Resource.SameForm : Resource → Resource → Prop
  | texture {t t' : Texture} (h : t.SameForm t') : SameForm (.texture t) (.texture t')
  | buffer {bytes bytes' : ByteArray} (h : bytes'.size = bytes.size) :
      SameForm (.buffer bytes) (.buffer bytes')

lemma Resource.SameForm.refl (x : Resource) : x.SameForm x := by
  cases x with
  | texture t => exact .texture ⟨rfl, rfl, rfl⟩
  | buffer bytes => exact .buffer rfl

lemma rel_sameForm_of_eq {x y : Option Resource} (h : y = x) :
    Option.Rel Resource.SameForm x y := by
  subst h
  cases y with
  | none => exact .none
  | some x => exact .some (.refl x)

/-- Targets that were drawn on have the form that they had. -/
lemma Targets.WellSized.sameForm {t : Targets} {target : Target} (h : t.WellSized)
    (h' : (t.withTarget target).WellSized) :
    t.color.SameForm (t.withTarget target).color ∧
      Option.Rel Texture.SameForm t.depth (t.withTarget target).depth := by
  obtain ⟨color, depth⟩ := t
  refine ⟨⟨rfl, rfl, h'.color.2.2.trans h.color.2.2.symm⟩, ?_⟩
  cases depth with
  | none => exact .none
  | some d => exact .some ⟨rfl, rfl, (h'.depth _ rfl).2.2.trans (h.depth d rfl).2.2.symm⟩

/-! ### What is written -/

lemma Pipeline.exists_withTarget_drawWith
    (paint : FragmentStage → List (Triangle Binary32) → Step Target) (p : Pipeline)
    (buffer : ByteArray) (vertexCount : UInt64) (bindings : Bindings) (t : Targets) :
    ∃ target, (p.drawWith paint buffer vertexCount bindings t).1 = t.withTarget target := by
  unfold drawWith
  rcases p.setup buffer vertexCount bindings t with fault | ⟨ts, culled, s⟩
  · exact ⟨t.toTarget, t.withTarget_toTarget.symm⟩
  · rcases hpaint : paint s ts t.toTarget with ⟨target, fault | _⟩ <;>
      exact ⟨target, by simp only [hpaint]⟩

namespace DrawCall

variable {c : DrawCall} {r r' : ResourceTable} {p : Pipeline} {color : Texture}
  {depth : Option Texture} {t : Targets} {k : UInt64}

lemma exists_withTarget_drawWith
    (paint : FragmentStage → List (Triangle Binary32) → Step Target) (c : DrawCall)
    (r : ResourceTable) (p : Pipeline) (t : Targets) :
    ∃ target, (c.drawWith paint r p t).1 = t.withTarget target := by
  unfold drawWith
  rcases c.inputs r with e | ⟨vertices, bindings⟩
  · exact ⟨t.toTarget, t.withTarget_toTarget.symm⟩
  · exact p.exists_withTarget_drawWith paint vertices c.vertexCount bindings t

lemma get?_takeDepth (h : c.takeDepth r = .ok (depth, r')) (hk : k ∉ c.writes) :
    r'.get? k = r.get? k := by
  rw [mem_writes, not_or] at hk
  rcases takeDepth_eq_ok h with ⟨-, -, rfl⟩ | ⟨id, t, hd, -, -, rfl⟩
  · rfl
  · rw [get?_erase, if_neg]
    rintro rfl
    exact hk.2 hd

lemma get?_restore_of_not_mem (hk : k ∉ c.writes) : (c.restore r t).get? k = r.get? k := by
  rw [mem_writes, not_or] at hk
  unfold restore
  split
  · rename_i id d hd hdepth
    rw [get?_restore, if_neg, get?_restore, if_neg hk.1]
    rintro rfl
    exact hk.2 hd
  · rw [get?_restore, if_neg hk.1]

/-- Where the targets that are put back have the form of those that were taken, every resource has
the form that it had. -/
lemma rel_restore_take (hcolor : r.get? c.output = some (.texture color))
    (hdepth : c.takeDepth (r.erase c.output) = .ok (depth, r')) (hc : color.SameForm t.color)
    (hd : Option.Rel Texture.SameForm depth t.depth) :
    Option.Rel Resource.SameForm (r.get? k) ((c.restore r' t).get? k) := by
  obtain ⟨color', depth'⟩ := t
  rcases takeDepth_eq_ok hdepth with ⟨hnone, rfl, rfl⟩ | ⟨id, d, hsome, rfl, hid, rfl⟩
  · cases hd
    simp only [DrawCall.restore, hnone, get?_restore, get?_erase]
    split_ifs with hk
    · rw [hk, hcolor]
      exact .some (.texture hc)
    · exact rel_sameForm_of_eq rfl
  · cases hd with
    | some hd =>
      rw [get?_erase] at hid
      split_ifs at hid
      simp only [DrawCall.restore, hsome, get?_restore, get?_erase]
      split_ifs with hk hk'
      · rw [hk, hid]
        exact .some (.texture hd)
      · rw [hk', hcolor]
        exact .some (.texture hc)
      · exact rel_sameForm_of_eq rfl

end DrawCall

namespace Gpu

variable {g g' : Gpu} {c c' : DrawCall} {k : UInt64}
  {paint : FragmentStage → List (Triangle Binary32) → Step Target}

lemma config_executeWith : (g.executeWith paint c).1.config = g.config := by
  rcases executeWith_cases paint g c with ⟨e, h⟩ | ⟨e, color, -, h⟩ |
    ⟨p, color, depth, r, -, -, -, h | h⟩ <;> rw [h]

/-- Draw calls keep the settings, so that the next one is performed in the same way. -/
lemma execute_execute : (g.execute c).1.execute c' =
    (g.executeWith (fun s ts => Target.paint s ts g.config.bandRows) c).1.executeWith
      (fun s ts => Target.paint s ts g.config.bandRows) c' := by
  have hconfig : (g.execute c).1.config = g.config := config_executeWith
  rw [execute, hconfig]
  rfl

/-- Whatever becomes of a draw call, what it does not draw on stays as it is. -/
theorem get?_executeWith (hk : k ∉ c.writes) :
    (g.executeWith paint c).1.resources.get? k = g.resources.get? k := by
  have houtput : k ≠ c.output := by
    rw [DrawCall.mem_writes, not_or] at hk
    exact hk.1
  rcases executeWith_cases paint g c with ⟨e, h⟩ | ⟨e, color, -, h⟩ |
    ⟨p, color, depth, r, -, -, hdepth, h | h⟩ <;> rw [h]
  · simp only [get?_restore, get?_erase, if_neg houtput]
  · rw [DrawCall.get?_takeDepth hdepth hk, get?_erase, if_neg houtput]
  · rw [DrawCall.get?_restore_of_not_mem hk, DrawCall.get?_takeDepth hdepth hk, get?_erase,
      if_neg houtput]

/-- A draw call that succeeds keeps the form of all resources. -/
lemma rel_executeWith (careful : Target.Careful paint) (wellFormed : g.resources.WellFormed)
    {stats : DrawStats} (h : (g.executeWith paint c).2 = .ok stats) :
    Option.Rel Resource.SameForm (g.resources.get? k)
      ((g.executeWith paint c).1.resources.get? k) := by
  rcases executeWith_cases paint g c with ⟨e, h'⟩ | ⟨e, color, -, h'⟩ |
    ⟨p, color, depth, r, -, hcolor, hdepth, h' | h'⟩ <;> rw [h'] at h ⊢
  · cases h
  · cases h
  · cases h
  · have ht : Targets.WellSized ⟨color, depth⟩ :=
      ⟨wellFormed.textures _ _ hcolor, (DrawCall.WellFormed.takeDepth wellFormed.erase hdepth).2⟩
    have hdrawn := DrawCall.drawWith_wellSized (c := c) (r := r) (p := p) careful ht
    obtain ⟨target, htarget⟩ := c.exists_withTarget_drawWith paint r p ⟨color, depth⟩
    rw [htarget] at hdrawn ⊢
    obtain ⟨hc, hd⟩ := ht.sameForm hdrawn
    exact DrawCall.rel_restore_take hcolor hdepth hc hd

end Gpu

/-! ### What is read -/

/-- The tables hold the same under the given ids. -/
def ResourceTable.AgreesOn (r r' : ResourceTable) (ids : List UInt64) : Prop :=
  ∀ id ∈ ids, r'.get? id = r.get? id

namespace ResourceTable.AgreesOn

variable {r r' : ResourceTable} {ids : List UInt64} {id k : UInt64} {t : Texture}

lemma erase (h : r.AgreesOn r' ids) : (r.erase k).AgreesOn (r'.erase k) ids := by
  intro id hid
  rw [get?_erase, get?_erase, h id hid]

lemma restore (h : r.AgreesOn r' ids) : (r.restore k t).AgreesOn (r'.restore k t) ids := by
  intro id hid
  rw [get?_restore, get?_restore, h id hid]

lemma buffer (h : r.AgreesOn r' ids) (hid : id ∈ ids) : r'.buffer id = r.buffer id := by
  rw [ResourceTable.buffer, h id hid, ResourceTable.buffer]

lemma texture (h : r.AgreesOn r' ids) (hid : id ∈ ids) : r'.texture id = r.texture id := by
  rw [ResourceTable.texture, h id hid, ResourceTable.texture]

/-- Of both tables the same texture is taken, and what is left agrees, or there is none. -/
lemma take (h : r.AgreesOn r' ids) (hid : id ∈ ids) :
    (∃ e, r.take id = .error e ∧ r'.take id = .error e) ∨
      ∃ t s s', r.take id = .ok (t, s) ∧ r'.take id = .ok (t, s') ∧ s.AgreesOn s' ids := by
  simp only [ResourceTable.take, h.texture hid]
  cases r.texture id with
  | error e => exact .inl ⟨e, rfl, rfl⟩
  | ok t => exact .inr ⟨t, _, _, rfl, rfl, h.erase⟩

end ResourceTable.AgreesOn

namespace DrawCall

variable {c : DrawCall} {r r' : ResourceTable} {t : Targets}

lemma uniformBuffer_congr (h : r.AgreesOn r' c.names) : c.uniformBuffer r' = c.uniformBuffer r := by
  rw [uniformBuffer, uniformBuffer]
  cases hu : c.uniforms with
  | none => rfl
  | some id => rw [Option.mapM_some, Option.mapM_some, h.buffer (by simp [names, hu])]

lemma prepare_congr (h : r.AgreesOn r' c.names) : c.prepare r' = c.prepare r := by
  simp only [prepare, pipeline, uniformBuffer_congr h,
    h.buffer (show c.vertexProgram ∈ c.names by simp [names]),
    h.buffer (show c.fragmentProgram ∈ c.names by simp [names]),
    h.buffer (show c.layout ∈ c.names by simp [names]),
    h.buffer (show c.vertexBuffer ∈ c.names by simp [names])]

lemma inputs_congr (h : r.AgreesOn r' c.names) : c.inputs r' = c.inputs r := by
  have hsampler : c.sampler.mapM r'.texture = c.sampler.mapM r.texture := by
    cases hs : c.sampler with
    | none => rfl
    | some id => rw [Option.mapM_some, Option.mapM_some, h.texture (by simp [names, hs])]
  simp only [inputs, uniformBuffer_congr h, hsampler,
    h.buffer (show c.vertexBuffer ∈ c.names by simp [names])]

lemma takeDepth_congr (h : r.AgreesOn r' c.names) :
    (∃ e, c.takeDepth r = .error e ∧ c.takeDepth r' = .error e) ∨
      ∃ depth s s', c.takeDepth r = .ok (depth, s) ∧ c.takeDepth r' = .ok (depth, s') ∧
        s.AgreesOn s' c.names := by
  unfold takeDepth
  cases hd : c.depth with
  | none => exact .inr ⟨none, r, r', rfl, rfl, h⟩
  | some id =>
    have hid : id ∈ c.names := mem_names_of_mem_writes (mem_writes.2 (.inr hd))
    rcases h.take hid with ⟨e, he, he'⟩ | ⟨t, s, s', hs, hs', hagrees⟩
    · exact .inl ⟨e, by simp [he], by simp [he']⟩
    · exact .inr ⟨some t, s, s', by simp [hs, pure, Except.pure],
        by simp [hs', pure, Except.pure], hagrees⟩

lemma agreesOn_restore {ids : List UInt64} (h : r.AgreesOn r' ids) :
    (c.restore r t).AgreesOn (c.restore r' t) ids := by
  unfold restore
  split
  · exact h.restore.restore
  · exact h.restore

end DrawCall

namespace Gpu

variable {g g' : Gpu} {c c' : DrawCall} {k : UInt64}
  {paint : FragmentStage → List (Triangle Binary32) → Step Target}

/-- Where two graphics processors hold the same under the ids in a draw call, the call gives the
same on both, and they hold the same there afterwards. -/
theorem executeWith_congr (h : g.resources.AgreesOn g'.resources c.names) :
    (g'.executeWith paint c).2 = (g.executeWith paint c).2 ∧
      (g.executeWith paint c).1.resources.AgreesOn (g'.executeWith paint c).1.resources
        c.names := by
  have houtput : c.output ∈ c.names :=
    DrawCall.mem_names_of_mem_writes (DrawCall.mem_writes.2 (.inl rfl))
  have hprepare := DrawCall.prepare_congr h
  rcases hp : c.prepare g.resources with e | p
  · simp only [executeWith, hprepare, hp]
    exact ⟨trivial, h⟩
  rcases h.take houtput with ⟨e, he, he'⟩ | ⟨color, s, s', hs, hs', hagrees⟩
  · simp only [executeWith, hprepare, hp, he, he']
    exact ⟨trivial, h⟩
  rcases DrawCall.takeDepth_congr hagrees with ⟨e, he, he'⟩ | ⟨depth, u, u', hu, hu', hagrees'⟩
  · simp only [executeWith, hprepare, hp, hs, hs', he, he']
    exact ⟨trivial, hagrees.restore⟩
  have hdraw : c.drawWith paint u' p ⟨color, depth⟩ = c.drawWith paint u p ⟨color, depth⟩ := by
    simp only [DrawCall.drawWith, DrawCall.inputs_congr hagrees']
  simp only [executeWith, hprepare, hp, hs, hs', hu, hu', hdraw]
  rcases c.drawWith paint u p ⟨color, depth⟩ with ⟨targets, (e | _) | stats⟩
  · exact ⟨rfl, DrawCall.agreesOn_restore hagrees'⟩
  · exact ⟨rfl, hagrees'⟩
  · exact ⟨rfl, DrawCall.agreesOn_restore hagrees'⟩

/-- Calls of which neither draws on what is named in the other: the second gives what it gives
without the first, and what is left does not depend on the order. -/
theorem executeWith_commute
    (paint : FragmentStage → List (Triangle Binary32) → Step Target) (g : Gpu)
    (h : ∀ id ∈ c.writes, id ∉ c'.names) (h' : ∀ id ∈ c'.writes, id ∉ c.names) :
    ((g.executeWith paint c).1.executeWith paint c').2 = (g.executeWith paint c').2 ∧
      ((g.executeWith paint c').1.executeWith paint c).2 = (g.executeWith paint c).2 ∧
        ∀ k, ((g.executeWith paint c).1.executeWith paint c').1.resources.get? k =
          ((g.executeWith paint c').1.executeWith paint c).1.resources.get? k := by
  have hagrees : g.resources.AgreesOn (g.executeWith paint c).1.resources c'.names :=
    fun k hk => get?_executeWith fun hmem => h k hmem hk
  have hagrees' : g.resources.AgreesOn (g.executeWith paint c').1.resources c.names :=
    fun k hk => get?_executeWith fun hmem => h' k hmem hk
  obtain ⟨hresult, hnames⟩ := executeWith_congr hagrees
  obtain ⟨hresult', hnames'⟩ := executeWith_congr hagrees'
  refine ⟨hresult, hresult', fun k => ?_⟩
  -- a target is left by the call that draws on it as if the other had not been made
  by_cases hk : k ∈ c.writes
  · have hk' : k ∉ c'.writes := fun hmem => h k hk (DrawCall.mem_names_of_mem_writes hmem)
    rw [get?_executeWith hk', hnames' k (DrawCall.mem_names_of_mem_writes hk)]
  · rw [get?_executeWith (g := (g.executeWith paint c').1) hk]
    by_cases hk' : k ∈ c'.writes
    · rw [hnames k (DrawCall.mem_names_of_mem_writes hk')]
    · rw [get?_executeWith hk', get?_executeWith hk', get?_executeWith hk]

/-! ### Locality -/

/-- Settings and resources are the same but for the contents of the resources with given ids, which
keep their kind and their size. -/
structure KeepsBut (g g' : Gpu) (ids : List UInt64) : Prop where
  config : g'.config = g.config
  get? : ∀ id ∉ ids, g'.resources.get? id = g.resources.get? id
  form : ∀ id, Option.Rel Resource.SameForm (g.resources.get? id) (g'.resources.get? id)

/-- Draw calls have to do with the resources that they name and with no others. -/
structure Local (g : Gpu) : Prop where
  /-- A call that succeeds changes the bytes of its targets and nothing else. -/
  writes : ∀ c stats, (g.execute c).2 = .ok stats → g.KeepsBut (g.execute c).1 c.writes
  /-- So it does in whatever order the bands are painted. -/
  writesInOrder : ∀ places c stats, (g.executeInOrder places c).2 = .ok stats →
    g.KeepsBut (g.executeInOrder places c).1 c.writes
  /-- A call gives the same and leaves the same targets wherever the settings are the same, and the
  resources that it names. -/
  reads : ∀ (g' : Gpu) c, g'.config = g.config → g.resources.AgreesOn g'.resources c.names →
    (g'.execute c).2 = (g.execute c).2 ∧
      (g.execute c).1.resources.AgreesOn (g'.execute c).1.resources c.writes
  /-- Two calls give the same and leave the same in either order, if neither draws on what the other
  names. -/
  commute : ∀ c c' : DrawCall, (∀ id ∈ c.writes, id ∉ c'.names) → (∀ id ∈ c'.writes, id ∉ c.names) →
    ((g.execute c).1.execute c').2 = (g.execute c').2 ∧
      ((g.execute c').1.execute c).2 = (g.execute c).2 ∧
        ((g.execute c).1.execute c').1.SameAs ((g.execute c').1.execute c).1

lemma keepsBut_executeWith (careful : Target.Careful paint) (wellFormed : g.resources.WellFormed)
    {stats : DrawStats} (h : (g.executeWith paint c).2 = .ok stats) :
    g.KeepsBut (g.executeWith paint c).1 c.writes where
  config := config_executeWith
  get? _ hid := get?_executeWith hid
  form _ := rel_executeWith careful wellFormed h

lemma sameAs_execute (wellFormed : g.resources.WellFormed) (h : ∀ id ∈ c.writes, id ∉ c'.names)
    (h' : ∀ id ∈ c'.writes, id ∉ c.names) :
    ((g.execute c).1.execute c').2 = (g.execute c').2 ∧
      ((g.execute c').1.execute c).2 = (g.execute c).2 ∧
        ((g.execute c).1.execute c').1.SameAs ((g.execute c').1.execute c).1 := by
  have hwellFormed : ∀ c, (g.execute c).1.resources.WellFormed := fun c =>
    wellFormed_executeWith Target.paint_careful wellFormed
  have hwellFormed' : ∀ c c', ((g.execute c).1.execute c').1.resources.WellFormed := fun c c' =>
    wellFormed_executeWith Target.paint_careful (hwellFormed c)
  have hconfig : ∀ c, (g.execute c).1.config = g.config := fun c => config_executeWith
  have hconfig' : ∀ c c', ((g.execute c).1.execute c').1.config = g.config := fun c c' =>
    config_executeWith.trans (hconfig c)
  have hcommute := executeWith_commute (fun s ts => Target.paint s ts g.config.bandRows) g h h'
  rw [← execute_execute, ← execute_execute] at hcommute
  obtain ⟨hresult, hresult', hget⟩ := hcommute
  refine ⟨hresult, hresult', (hconfig' c c').trans (hconfig' c' c).symm, ?_, hget⟩
  exact perm_of_get?_eq (hwellFormed' c' c) (hwellFormed' c c') hget

/-- Whatever was done before, draw calls are local. -/
theorem local_after [Allocator] (config : Config) (commands : List Command) :
    ((new config).after commands).Local := by
  have wellFormed := wellFormed_after (g := new config) WellFormed.empty commands
  refine ⟨?writes, ?writesInOrder, ?reads, ?commute⟩
  case writes => exact fun c stats h => keepsBut_executeWith Target.paint_careful wellFormed h
  case writesInOrder =>
    exact fun places c stats h => keepsBut_executeWith Target.paintInOrder_careful wellFormed h
  case reads =>
    intro g' c hconfig h
    rw [execute, execute, hconfig]
    obtain ⟨hresult, hnames⟩ := executeWith_congr h
    exact ⟨hresult, fun id hid => hnames id (DrawCall.mem_names_of_mem_writes hid)⟩
  case commute => exact fun c c' h h' => sameAs_execute wellFormed h h'

/-- Two textures of one pixel, and a uniform buffer that reaches to the sixth group. -/
def twoPixels : List Command :=
  onePixel ++ [.createTexture 7 1 1, .createBuffer 8 1296]

/-- The triangle drawn on one of the two. -/
def pixelDraw (output : UInt64) : DrawCall := ⟨2, 3, 5, 4, some 8, output, none, none, 3⟩

/-- The draw calls share all but their textures, and may change places. -/
theorem local_twoPixels :
    ((((new {}).after twoPixels).execute (pixelDraw 1)).1.execute (pixelDraw 7)).2 =
        .ok ⟨3, 1, 0⟩ ∧
      ((((new {}).after twoPixels).execute (pixelDraw 1)).1.execute (pixelDraw 7)).1.SameAs
        ((((new {}).after twoPixels).execute (pixelDraw 7)).1.execute (pixelDraw 1)).1 := by
  have hdrawn : (((new {}).after twoPixels).execute (pixelDraw 7)).2 = .ok ⟨3, 1, 0⟩ := by
    decide +kernel
  have hcommute := (local_after {} twoPixels).commute (pixelDraw 1) (pixelDraw 7)
    (by simp [pixelDraw, DrawCall.writes, DrawCall.names])
    (by simp [pixelDraw, DrawCall.writes, DrawCall.names])
  exact ⟨hcommute.1.trans hdrawn, hcommute.2.2⟩

end Gpu

end GraphicsPipeline
