import GraphicsPipeline.Proofs.Locality

/-!
# What commands do

A command other than a draw looks at the resource under one id, and leaves another one there, or
none, or fails (`Gpu.perform_cases`). So every command that is refused changes nothing, one that
succeeds changes nothing but what it names, and what a command does depends on the settings and on
what the ids stand for, not on how the table came about.
-/

namespace GraphicsPipeline

/-! ### Operations at one id -/

namespace ResourceTable

/-- The operation has to do with what is under one id and with nothing else. -/
structure ActsAt (f : ResourceTable → Except Fault ResourceTable) (id : UInt64) : Prop where
  /-- Every other id stands for what it stood for. -/
  frame : ∀ r r', f r = .ok r' → ∀ k ≠ id, r'.get? k = r.get? k
  /-- On tables with the same under the id, the operation fails in the same way or leaves the same
  there. -/
  congr : ∀ r s, s.get? id = r.get? id →
    (∀ fault, f r = .error fault → f s = .error fault) ∧
      ∀ r', f r = .ok r' → ∃ s', f s = .ok s' ∧ s'.get? id = r'.get? id

/-- The value depends on what is under one id. -/
def LooksAt {α : Type} (look : ResourceTable → Except Fault α) (id : UInt64) : Prop :=
  ∀ r s, s.get? id = r.get? id → look s = look r

variable {id : UInt64}

lemma looksAt_texture : LooksAt (fun r => orRefuse (r.texture id)) id := by
  intro r s h
  simp only [texture, h]

lemma looksAt_buffer : LooksAt (fun r => orRefuse (r.buffer id)) id := by
  intro r s h
  simp only [buffer, h]

section Families

variable {α β : Type} {look : ResourceTable → Except Fault α}

/-- What is made without the table is added under an id that is free. -/
lemma actsAt_add {make : Except Fault β} {wrap : β → Resource} :
    ActsAt (fun r => do
      let r ← orRefuse (r.free id)
      let b ← make
      return r.add id (wrap b)) id where
  frame r r' h k hk := by
    simp only [bind_eq_ok, pure_eq_ok, orRefuse_eq_ok, free_eq_ok] at h
    obtain ⟨_, ⟨hfree, rfl⟩, b, -, rfl⟩ := h
    rw [get?_add hfree, if_neg hk]
  congr r s h := by
    rcases hid : r.get? id with _ | x <;> rw [hid] at h
    · rw [free_of_none hid, free_of_none h, orRefuse_ok, orRefuse_ok, ok_bind, ok_bind]
      rcases make with fault | b
      · exact ⟨fun _ h => h, by simp⟩
      · refine ⟨by simp, ?_⟩
        rintro _ ⟨⟩
        exact ⟨_, rfl, by rw [get?_add h, get?_add hid, if_pos rfl, if_pos rfl]⟩
    · rw [free_of_some hid, free_of_some h]
      exact ⟨fun _ h => h, by simp⟩

/-- What is looked up is changed in its place. -/
lemma actsAt_put (hlook : LooksAt look id) {change : α → Except Fault β} {wrap : α → β → Resource} :
    ActsAt (fun r => do
      let a ← look r
      let b ← change a
      return r.put id (wrap a b)) id where
  frame r r' h k hk := by
    simp only [bind_eq_ok, pure_eq_ok] at h
    obtain ⟨a, -, b, -, rfl⟩ := h
    rw [get?_put, if_neg hk]
  congr r s h := by
    rw [hlook r s h]
    rcases look r with fault | a
    · exact ⟨fun _ h => h, by simp⟩
    · rw [ok_bind, ok_bind]
      rcases change a with fault | b
      · exact ⟨fun _ h => h, by simp⟩
      · refine ⟨by simp, ?_⟩
        rintro _ ⟨⟩
        exact ⟨_, rfl, by rw [get?_put, get?_put, h]⟩

/-- What is looked up is taken away. -/
lemma actsAt_erase (hlook : LooksAt look id) :
    ActsAt (fun r => do
      let _ ← look r
      return r.erase id) id where
  frame r r' h k hk := by
    simp only [bind_eq_ok, pure_eq_ok] at h
    obtain ⟨a, -, rfl⟩ := h
    rw [get?_erase, if_neg hk]
  congr r s h := by
    rw [hlook r s h]
    rcases look r with fault | a
    · exact ⟨fun _ h => h, by simp⟩
    · refine ⟨by simp, ?_⟩
      rintro _ ⟨⟩
      exact ⟨_, rfl, by rw [get?_erase, get?_erase, if_pos rfl, if_pos rfl]⟩

end Families

end ResourceTable

open ResourceTable

/-! ### Tables that cannot be told apart -/

namespace Gpu

variable {g g' : Gpu}

namespace SameAs

lemma refl (g : Gpu) : g.SameAs g := ⟨rfl, .refl _, fun _ => rfl⟩

lemma symm (h : g.SameAs g') : g'.SameAs g :=
  ⟨h.config.symm, h.entries.symm, fun id => (h.get? id).symm⟩

lemma trans {g'' : Gpu} (h : g.SameAs g') (h' : g'.SameAs g'') : g.SameAs g'' :=
  ⟨h.config.trans h'.config, h.entries.trans h'.entries, fun id => (h.get? id).trans (h'.get? id)⟩

/-- In well-formed tables only what the ids stand for matters. -/
lemma of_get? (h : g.resources.WellFormed) (h' : g'.resources.WellFormed)
    (hconfig : g.config = g'.config) (hget : ∀ k, g.resources.get? k = g'.resources.get? k) :
    g.SameAs g' :=
  ⟨hconfig, perm_of_get?_eq h' h hget, hget⟩

end SameAs

end Gpu

/-! ### Commands -/

/-- The resources that a command may change: a draw its targets, every other command the one under
its id. -/
def Command.writes : Command → List UInt64
  | .createTexture id _ _ | .freeTexture id | .createBuffer id _ | .createBufferFrom id _
  | .freeBuffer id | .clearColor id _ _ | .clearDepth id _ _ | .writeBuffer id _ _
  | .writeTexture id _ _ => [id]
  | .draw call => call.writes

namespace Gpu

variable [Allocator] {g g' : Gpu}

/-- A command is a draw, or it changes the table at one id. -/
lemma perform_cases (c : Command) :
    (∃ call, c = .draw call) ∨ ∃ id f, c.writes = [id] ∧ ActsAt f id ∧
      ∀ g : Gpu, g.perform c = g.change (f g.resources) := by
  cases c with
  | createTexture id width height =>
    refine .inr ⟨id, fun r => orRefuse (r.createTexture id width height), rfl, ?_, fun g => rfl⟩
    simp only [createTexture, orRefuse_bind, orRefuse_pure]
    exact actsAt_add
  | freeTexture id =>
    refine .inr ⟨id, fun r => orRefuse (r.freeTexture id), rfl, ?_, fun g => rfl⟩
    simp only [freeTexture, orRefuse_bind, orRefuse_pure]
    exact actsAt_erase looksAt_texture
  | createBuffer id size =>
    refine .inr ⟨id, fun r => orRefuse (r.createBuffer id size), rfl, ?_, fun g => rfl⟩
    simp only [createBuffer, orRefuse_bind, orRefuse_pure]
    exact actsAt_add
  | createBufferFrom id bytes =>
    refine .inr ⟨id, fun r => orRefuse (r.createBufferFrom id bytes), rfl, ?_, fun g => rfl⟩
    simp only [createBufferFrom, orRefuse_bind, orRefuse_pure]
    exact actsAt_add
  | freeBuffer id =>
    refine .inr ⟨id, fun r => orRefuse (r.freeBuffer id), rfl, ?_, fun g => rfl⟩
    simp only [freeBuffer, orRefuse_bind, orRefuse_pure]
    exact actsAt_erase looksAt_buffer
  | clearColor id color rect => exact .inr ⟨id, _, rfl, actsAt_put looksAt_texture, fun g => rfl⟩
  | clearDepth id depth rect => exact .inr ⟨id, _, rfl, actsAt_put looksAt_texture, fun g => rfl⟩
  | writeBuffer id offset bytes =>
    exact .inr ⟨id, _, rfl, actsAt_put looksAt_buffer, fun g => rfl⟩
  | writeTexture id offset bytes =>
    exact .inr ⟨id, _, rfl, actsAt_put looksAt_texture, fun g => rfl⟩
  | draw call => exact .inl ⟨call, rfl⟩

lemma perform_draw (call : DrawCall) :
    g.perform (.draw call) = ((g.execute call).1, (g.execute call).2.map some) := by
  rcases h : g.execute call with ⟨g', fault | stats⟩ <;> simp only [perform, h, Except.map]

/-- Commands leave the settings as they are. -/
lemma config_perform (c : Command) : (g.perform c).1.config = g.config := by
  rcases perform_cases c with ⟨call, rfl⟩ | ⟨id, f, -, -, hperform⟩
  · rw [perform_draw]
    exact config_executeWith
  · rw [hperform]
    rcases f g.resources with fault | r <;> rfl

lemma config_after (commands : List Command) : (g.after commands).config = g.config := by
  induction commands generalizing g with
  | nil => rfl
  | cons c commands ih => exact (ih (g := (g.perform c).1)).trans (config_perform c)

/-- Whatever becomes of a command, what it does not name stays as it is. -/
theorem get?_perform (c : Command) {k : UInt64} (hk : k ∉ c.writes) :
    (g.perform c).1.resources.get? k = g.resources.get? k := by
  rcases perform_cases c with ⟨call, rfl⟩ | ⟨id, f, hwrites, hacts, hperform⟩
  · rw [perform_draw]
    exact get?_executeWith hk
  · rw [hwrites, List.mem_singleton] at hk
    rw [hperform]
    rcases hf : f g.resources with fault | r
    · rfl
    · exact hacts.frame g.resources r hf k hk

/-- A command that is refused leaves everything as it was. -/
theorem perform_refused (wellFormed : g.resources.WellFormed) (c : Command) {e : Error}
    (h : (g.perform c).2 = .error (.refused e)) : (g.perform c).1.SameAs g := by
  rcases perform_cases c with ⟨call, rfl⟩ | ⟨id, f, -, -, hperform⟩
  · rw [perform_draw] at h ⊢
    have hrefused : (g.execute call).2 = .error (.refused e) := by
      rcases hresult : (g.execute call).2 with fault | stats <;> rw [hresult] at h <;> cases h
      rfl
    obtain ⟨hconfig, hget⟩ := executeWith_refused Target.paint_careful wellFormed hrefused
    exact .of_get? (wellFormed_executeWith Target.paint_careful wellFormed) wellFormed hconfig hget
  · rw [hperform] at h ⊢
    rcases hf : f g.resources with fault | r <;> rw [hf] at h
    · exact .refl g
    · cases h

/-- On graphics processors that are the same, a command leaves the same, if it does so where it
writes. -/
lemma SameAs.perform_of_writes (h : g.SameAs g') (wellFormed : g.resources.WellFormed)
    (wellFormed' : g'.resources.WellFormed) (c : Command)
    (hwrites : ∀ k ∈ c.writes,
      (g.perform c).1.resources.get? k = (g'.perform c).1.resources.get? k) :
    (g.perform c).1.SameAs (g'.perform c).1 := by
  apply SameAs.of_get? (wellFormed_perform wellFormed c) (wellFormed_perform wellFormed' c)
  · rw [config_perform, config_perform, h.config]
  · intro k
    by_cases hk : k ∈ c.writes
    · exact hwrites k hk
    · rw [get?_perform c hk, get?_perform c hk, h.get?]

/-- On graphics processors that are the same, a command gives the same, and it leaves the same. -/
theorem SameAs.perform (h : g.SameAs g') (wellFormed : g.resources.WellFormed)
    (wellFormed' : g'.resources.WellFormed) (c : Command) :
    (g.perform c).2 = (g'.perform c).2 ∧ (g.perform c).1.SameAs (g'.perform c).1 := by
  rcases perform_cases c with ⟨call, rfl⟩ | ⟨id, f, hwrites, hacts, hperform⟩
  -- a draw looks resources up by id, so it does not see in which order the table has them
  · have hagrees : g'.resources.AgreesOn g.resources call.names := fun k _ => h.get? k
    have hexecute : g'.execute call =
        g'.executeWith (fun s ts => Target.paint s ts g.config.bandRows) call := by
      rw [execute, ← h.config]
    obtain ⟨hresult, hnames⟩ : (g.execute call).2 = (g'.execute call).2 ∧
        (g'.execute call).1.resources.AgreesOn (g.execute call).1.resources call.names := by
      rw [hexecute]
      exact executeWith_congr hagrees
    refine ⟨by rw [perform_draw, perform_draw, ← hresult], ?_⟩
    apply h.perform_of_writes wellFormed wellFormed'
    intro k hk
    rw [perform_draw, perform_draw]
    exact hnames k (DrawCall.mem_names_of_mem_writes hk)
  · obtain ⟨herror, hok⟩ := hacts.congr g.resources g'.resources (h.get? id).symm
    rcases hf : f g.resources with fault | r
    · rw [hperform, hperform, hf, herror fault hf]
      exact ⟨rfl, h⟩
    · obtain ⟨r', hr', hid⟩ := hok r hf
      refine ⟨by rw [hperform, hperform, hf, hr']; rfl, ?_⟩
      apply h.perform_of_writes wellFormed wellFormed'
      intro k hk
      rw [hwrites, List.mem_singleton] at hk
      rw [hperform, hperform, hf, hr', hk]
      exact hid.symm

end Gpu

end GraphicsPipeline
