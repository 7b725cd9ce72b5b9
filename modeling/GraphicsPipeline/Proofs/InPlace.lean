import GraphicsPipeline.InPlace
import GraphicsPipeline.Proofs.Command
import GraphicsPipeline.Proofs.Stepwise

/-!
# Commands in place leave what they are said to leave

On a well-formed table, work in place comes to the same as the change that is made as a whole or not
at all (`Gpu.work_eq`). Whatever may fail is checked before the first change: a clear looks at its
rectangle and then stays within its image, and a buffer that was just created takes its bytes.
-/

namespace GraphicsPipeline

open Step ResourceTable

/-! ### Images -/

namespace Texture.Work

variable {width height : UInt32} {data data' : ByteArray} {texel : Texel}

/-- Texels written one after another make the row as a whole. -/
lemma fillRow_eq {start columns : Nat} (h : Texture.fillRow data start texel columns = .ok data') :
    fillRow texel start columns ⟨width, height, data⟩ = (⟨width, height, data'⟩, .ok ()) := by
  induction columns generalizing data start with
  | zero =>
    cases h
    rfl
  | succ columns ih =>
    simp only [Texture.fillRow, bind_eq_ok, orAbort_eq_ok] at h
    obtain ⟨data₁, hset, hrow⟩ := h
    have hfirst : set texel start ⟨width, height, data⟩ = (⟨width, height, data₁⟩, .ok ()) := by
      simp only [set, hset]
    rw [fillRow, List.range'_succ, each, andThen_of_ok hfirst]
    exact ih hrow

/-- Rows filled one after another make the rectangle as a whole. -/
lemma fillRows_eq {x y columns rows : Nat}
    (h : Texture.fillRows data width.toNat (y * width.toNat + x) columns texel rows = .ok data') :
    each (fun y => fillRow texel (y * width.toNat + x) columns) (List.range' y rows)
        ⟨width, height, data⟩ =
      (⟨width, height, data'⟩, .ok ()) := by
  induction rows generalizing data y with
  | zero =>
    cases h
    rfl
  | succ rows ih =>
    simp only [Texture.fillRows, bind_eq_ok] at h
    obtain ⟨data₁, hrow, hrows⟩ := h
    rw [List.range'_succ, each, andThen_of_ok (fillRow_eq hrow)]
    apply ih
    rw [Nat.add_mul, Nat.one_mul, Nat.add_right_comm]
    exact hrows

/-- A clear in place fills its rectangle as a whole or writes nothing. -/
theorem fill_eq {t : Texture} (h : t.WellSized) (texel : Texel) (r : Rect) :
    fill texel r t = atOnce t (t.fill texel r) := by
  unfold fill
  by_cases hout : t.width < r.maxX ∨ t.height < r.maxY
  · rw [if_pos hout, fill_of_out hout]
    rfl
  · by_cases hempty : r.isEmpty
    · rw [if_neg hout, if_pos hempty, fill_of_isEmpty hout hempty]
      rfl
    · obtain ⟨data', hrows, hfill⟩ := h.exists_fill texel hout hempty
      rw [if_neg hout, if_neg hempty, fillRows_eq hrows, hfill]
      rfl

/-- Bytes are copied as a whole, if they fit. -/
lemma write_eq (t : Texture) (offset : Nat) (bytes : ByteArray) :
    write offset bytes t = atOnce t (do
      let data ← orAbort (Storage.overwrite? t.data offset bytes)
      return { t with data }) := by
  unfold write
  rcases Storage.overwrite? t.data offset bytes with _ | data <;> rfl

end Texture.Work

/-! ### Tables -/

namespace ResourceTable.Work

variable {r : ResourceTable} {id : UInt64} {x : Resource}

lemma checkFree_andThen_of_none {f : Work} (h : r.get? id = none) :
    (checkFree id).andThen f r = f r := by
  have hfree : orRefuse (r.free id) = .ok r := orRefuse_eq_ok.2 (free_of_none h)
  rw [checkFree, looking_andThen_skip]
  exact looking_of_ok hfree

lemma checkFree_andThen_of_some {f : Work} (h : r.get? id = some x) :
    (checkFree id).andThen f r = (r, .error (.refused (.resourceExists id))) := by
  have hfree : orRefuse (r.free id) = .error (.refused (.resourceExists id)) := by
    rw [free_of_some h]
    rfl
  rw [checkFree, looking_andThen_skip]
  exact looking_of_error hfree

lemma insert_eq (h : r.get? id = none) : insert id x r = (r.add id x, .ok ()) :=
  checkFree_andThen_of_none h

/-- A texture is created as a whole or not at all. -/
lemma createTexture_eq [Allocator] {width height : UInt32} :
    createTexture id width height r = atOnce r (orRefuse (r.createTexture id width height)) := by
  unfold createTexture ResourceTable.createTexture
  rcases hid : r.get? id with _ | x
  · rw [checkFree_andThen_of_none hid, free_of_none hid, ok_bind]
    rcases hnew : Texture.new width height with e | t
    · rfl
    · exact insert_eq hid
  · rw [checkFree_andThen_of_some hid, free_of_some hid]
    rfl

/-- A buffer of zeros is there as a whole or not at all. -/
lemma createZeroed_of_ok [Allocator] {size : Nat} {bytes : ByteArray} (hid : r.get? id = none)
    (h : allocate size = .ok bytes) :
    createZeroed id size r = (r.add id (.buffer bytes), .ok ()) := by
  have hlook : orRefuse (allocate size) = .ok bytes := orRefuse_eq_ok.2 h
  rw [createZeroed, checkFree_andThen_of_none hid, ← insert_eq hid]
  exact looking_of_ok hlook

lemma createZeroed_of_error [Allocator] {size : Nat} {e : Error} (hid : r.get? id = none)
    (h : allocate size = .error e) : createZeroed id size r = (r, .error (.refused e)) := by
  have hlook : orRefuse (allocate size) = .error (.refused e) := by
    rw [h]
    rfl
  rw [createZeroed, checkFree_andThen_of_none hid]
  exact looking_of_error hlook

lemma createBuffer_eq [Allocator] {size : UInt64} :
    createBuffer id size r = atOnce r (orRefuse (r.createBuffer id size)) := by
  unfold createBuffer ResourceTable.createBuffer
  rcases hid : r.get? id with _ | x
  · rw [free_of_none hid, ok_bind]
    rcases hbytes : allocate size.toNat with e | bytes
    · rw [createZeroed_of_error hid hbytes]
      rfl
    · rw [createZeroed_of_ok hid hbytes]
      rfl
  · rw [createZeroed, checkFree_andThen_of_some hid, free_of_some hid]
    rfl

lemma freeTexture_eq : freeTexture id r = atOnce r (orRefuse (r.freeTexture id)) := by
  simp only [freeTexture, ResourceTable.freeTexture, looking]
  rcases r.texture id with e | t <;> rfl

lemma freeBuffer_eq : freeBuffer id r = atOnce r (orRefuse (r.freeBuffer id)) := by
  simp only [freeBuffer, ResourceTable.freeBuffer, looking]
  rcases r.buffer id with e | bytes <;> rfl

/-- Work on a texture where it lies changes the table as a whole, if it changes the texture so. -/
lemma onTexture_eq (h : r.WellFormed) {f : Texture.Work} {change : Texture → Except Fault Texture}
    (hf : ∀ t, t.WellSized → f t = atOnce t (change t)) :
    onTexture id f r = atOnce r (do
      let t ← orRefuse (r.texture id)
      return r.put id (.texture (← change t))) := by
  apply onPart_eq_atOnce
  · intro t ht
    exact hf t (h.texture (orRefuse_eq_ok.1 ht))
  · intro t ht
    exact put_self h.ids (texture_eq_ok.1 (orRefuse_eq_ok.1 ht))

lemma onBuffer_eq (h : r.WellFormed) {f : Step ByteArray}
    {change : ByteArray → Except Fault ByteArray}
    (hf : ∀ bytes, f bytes = atOnce bytes (change bytes)) :
    onBuffer id f r = atOnce r (do
      let bytes ← orRefuse (r.buffer id)
      return r.put id (.buffer (← change bytes))) := by
  apply onPart_eq_atOnce
  · intro bytes _
    exact hf bytes
  · intro bytes hbytes
    exact put_self h.ids (buffer_eq_ok.1 (orRefuse_eq_ok.1 hbytes))

lemma clearColor_eq (h : r.WellFormed) {c : Color} {rect : Rect} :
    clearColor id c rect r = atOnce r (r.clearColor id c rect) :=
  onTexture_eq h fun _ ht => Texture.Work.fill_eq ht _ _

lemma clearDepth_eq (h : r.WellFormed) {d : UInt32} {rect : Rect} :
    clearDepth id d rect r = atOnce r (r.clearDepth id d rect) :=
  onTexture_eq h fun _ ht => Texture.Work.fill_eq ht _ _

lemma writeTexture_eq (h : r.WellFormed) {offset : Nat} {bytes : ByteArray} :
    writeTexture id offset bytes r = atOnce r (r.writeTexture id offset bytes) := by
  rw [writeTexture, onTexture_eq h fun t _ => Texture.Work.write_eq t offset bytes]
  simp only [ResourceTable.writeTexture, bind_assoc, pure_bind]

lemma writeBuffer_eq (h : r.WellFormed) {offset : Nat} {bytes : ByteArray} :
    writeBuffer id offset bytes r = atOnce r (r.writeBuffer id offset bytes) := by
  apply onBuffer_eq h
  intro old
  rcases Storage.overwrite? old offset bytes with _ | new <;> rfl

/-- The bytes that are copied into a new buffer are as many as it has. -/
lemma createBufferFrom_eq [Allocator] (h : r.WellFormed) {bytes : ByteArray} :
    createBufferFrom id bytes r = atOnce r (orRefuse (r.createBufferFrom id bytes)) := by
  unfold createBufferFrom ResourceTable.createBufferFrom
  rcases hid : r.get? id with _ | x
  · rw [free_of_none hid, ok_bind]
    rcases hreserve : reserve bytes.size with e | _
    · have hzeros : allocate bytes.size = .error e := by rw [allocate, hreserve, error_bind]
      rw [andThen_of_error (createZeroed_of_error hid hzeros)]
      rfl
    · have hzeros : allocate bytes.size = .ok (Storage.zeroed bytes.size) := by
        rw [allocate, hreserve, ok_bind]
        rfl
      -- the zeros have the length of the bytes, so the write that follows cannot fail
      have hadded : (r.add id (.buffer (Storage.zeroed bytes.size))).get? id =
          some (.buffer (Storage.zeroed bytes.size)) := by
        rw [get?_add hid, if_pos rfl]
      rw [andThen_of_ok (createZeroed_of_ok hid hzeros), writeBuffer_eq (h.add hid (by simp)),
        ResourceTable.writeBuffer, buffer_eq_ok.2 hadded, orRefuse_ok, ok_bind,
        Storage.overwrite?_of_size_eq Storage.size_zeroed, orAbort_some, ok_bind, put_add hid]
      rfl
  · have hzeros : createZeroed id bytes.size r = (r, .error (.refused (.resourceExists id))) :=
      checkFree_andThen_of_some hid
    rw [andThen_of_error hzeros, free_of_some hid]
    rfl

end ResourceTable.Work

/-! ### Commands -/

namespace Gpu

variable {g : Gpu}

lemma onResources_eq {f : ResourceTable.Work} {result : Except Fault ResourceTable}
    (h : f g.resources = atOnce g.resources result) :
    onResources f g = ((g.change result).1, (g.change result).2.map fun _ => ()) := by
  have hpart : onResources f g =
      ({ g with resources := (f g.resources).1 }, (f g.resources).2) := rfl
  rw [hpart, h]
  rcases result with fault | r <;> rfl

/-- A command in place leaves and says what the command does. -/
theorem work_eq [Allocator] (h : g.resources.WellFormed) (command : Command) :
    work command g = ((g.perform command).1, (g.perform command).2.map fun _ => ()) := by
  cases command with
  | createTexture id width height => exact onResources_eq ResourceTable.Work.createTexture_eq
  | freeTexture id => exact onResources_eq ResourceTable.Work.freeTexture_eq
  | createBuffer id size => exact onResources_eq ResourceTable.Work.createBuffer_eq
  | createBufferFrom id bytes => exact onResources_eq (ResourceTable.Work.createBufferFrom_eq h)
  | freeBuffer id => exact onResources_eq ResourceTable.Work.freeBuffer_eq
  | clearColor id color rect => exact onResources_eq (ResourceTable.Work.clearColor_eq h)
  | clearDepth id depth rect => exact onResources_eq (ResourceTable.Work.clearDepth_eq h)
  | writeBuffer id offset bytes => exact onResources_eq (ResourceTable.Work.writeBuffer_eq h)
  | writeTexture id offset bytes => exact onResources_eq (ResourceTable.Work.writeTexture_eq h)
  | draw call =>
    rcases hexecute : g.execute call with ⟨g', fault | stats⟩ <;>
      simp only [work, perform_draw, hexecute, Except.map]

/-- Commands in place, one after another, leave what the commands leave. -/
theorem changedBy_eq [Allocator] (h : g.resources.WellFormed) (commands : List Command) :
    g.changedBy commands = g.after commands := by
  induction commands generalizing g with
  | nil => rfl
  | cons command commands ih =>
    have hfirst : (work command g).1 = (g.perform command).1 := by rw [work_eq h]
    unfold changedBy after at ih ⊢
    rw [List.foldl_cons, List.foldl_cons, hfirst]
    exact ih (wellFormed_perform h command)

/-! ### All states -/

/-- What holds of a graphics processor whatever was done to it. -/
structure Sound [Allocator] (g : Gpu) : Prop where
  /-- An id stands for one resource, of one kind. -/
  ids : (g.resources.entries.map Prod.fst).Nodup
  /-- A texture has a pixel at least, and four bytes for each. -/
  sizes : ∀ id t, g.resources.texture id = .ok t →
    1 ≤ t.width.toNat ∧ 1 ≤ t.height.toNat ∧ t.data.size = t.width.toNat * t.height.toNat * 4
  /-- A texture can be viewed as an image of its size. -/
  views : ∀ id t, g.resources.texture id = .ok t → Texture.view t.width t.height t.data = .ok t
  /-- So can the sampler that a draw call reads while its targets are out of the table. -/
  samplers : ∀ (c : DrawCall) color depth r r' vertices bindings,
    g.resources.take c.output = .ok (color, r) → c.takeDepth r = .ok (depth, r') →
      c.inputs r' = .ok (vertices, bindings) →
        ∀ t, bindings.sampler = some t → Texture.view t.width t.height t.data = .ok t
  /-- No clear leaves the data of its texture. -/
  clears : ∀ id t, g.resources.texture id = .ok t →
    ∀ texel rect, (Texture.Work.fill texel rect t).2 ≠ .error .aborted
  /-- A command that is refused leaves everything as it was. -/
  refused : ∀ c e, (work c g).2 = .error (.refused e) → (work c g).1.SameAs g
  /-- A command that succeeds changes nothing but its targets, if it is a draw, and nothing but what
  is under its id otherwise. -/
  named : ∀ c, (work c g).2 = .ok () →
    ∀ id ∉ c.writes, (work c g).1.resources.get? id = g.resources.get? id

lemma view_eq {t : Texture} (h : t.WellSized) : Texture.view t.width t.height t.data = .ok t :=
  if_pos h.2.2

lemma sound_of_wellFormed [Allocator] (h : g.resources.WellFormed) : g.Sound where
  ids := h.ids
  sizes id t ht := h.texture ht
  views id t ht := view_eq (h.texture ht)
  samplers c color depth r r' vertices bindings htake hdepth hinputs t ht := by
    obtain ⟨-, rfl⟩ := take_eq_ok.1 htake
    have hr : r'.WellFormed := (DrawCall.WellFormed.takeDepth h.erase hdepth).1
    exact view_eq (DrawCall.wellSized_of_inputs hr hinputs t ht)
  clears id t ht texel rect := by
    rw [Texture.Work.fill_eq (h.texture ht)]
    intro haborted
    apply (h.texture ht).fill_ne_aborted texel rect
    rcases hfill : t.fill texel rect with fault | t' <;> rw [hfill] at haborted <;> cases haborted
    rfl
  refused c e herror := by
    rw [work_eq h] at herror ⊢
    apply perform_refused h (e := e)
    rcases hresult : (g.perform c).2 with fault | stats <;> rw [hresult] at herror <;> cases herror
    rfl
  named c _ id hid := by
    rw [work_eq h]
    exact get?_perform c hid

/-- In every state that commands in place lead to from the empty table, however each of them ended,
the table is sound. -/
theorem sound_changedBy [Allocator] (config : Config) (commands : List Command) :
    ((new config).changedBy commands).Sound := by
  rw [changedBy_eq WellFormed.empty]
  exact sound_of_wellFormed (wellFormed_after WellFormed.empty commands)

end Gpu

end GraphicsPipeline
