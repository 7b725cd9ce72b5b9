import GraphicsPipeline.Interface.Session
import GraphicsPipeline.Proofs.Command

/-!
# Sessions of the C interface

A call that fails leaves every object as it was (`Session.call_failed`), and what a call gives and
leaves depends on what the handles stand for (`Session.SameAs.call`). Of contexts it does not matter
in which order their tables hold the resources.
-/

namespace GraphicsPipeline.Interface

/-! ### Handles -/

namespace Handles

variable {α : Type} {s s' s'' : Handles α} {h k : Handle} {a : α}

@[simp] lemma get?_empty : (empty : Handles α).get? k = none := rfl

lemma get?_release : (s.release h).get? k = if k = h then none else s.get? k := lookup_filter_ne

lemma get?_bind : (s.bind h a).get? k = if k = h then some a else s.get? k := by
  have hrelease : (s.release h).entries.lookup k = if k = h then none else s.get? k := get?_release
  rw [get?, bind, List.lookup_cons, hrelease]
  by_cases hk : k = h
  · simp [hk]
  · simp [hk, beq_false_of_ne hk]

lemma get?_put : (s.put h a).get? k = if k = h then (s.get? h).map fun _ => a else s.get? k :=
  lookup_map_replace

/-- What is behind the handles satisfies a condition. -/
def All (I : α → Prop) (s : Handles α) : Prop := ∀ h a, s.get? h = some a → I a

/-- What is behind the handles is related, handle by handle. -/
def Rel (R : α → α → Prop) (s s' : Handles α) : Prop :=
  ∀ h, Option.Rel R (s.get? h) (s'.get? h)

section Rel

variable {I : α → Prop} {R : α → α → Prop}

lemma all_empty : (empty : Handles α).All I := by simp [All]

lemma All.release (hs : s.All I) : (s.release h).All I := by
  intro k a ha
  rw [get?_release] at ha
  split_ifs at ha
  exact hs k a ha

lemma All.bind (hs : s.All I) (ha : I a) : (s.bind h a).All I := by
  intro k b hb
  rw [get?_bind] at hb
  split_ifs at hb
  · cases hb
    exact ha
  · exact hs k b hb

lemma All.put (hs : s.All I) (ha : I a) : (s.put h a).All I := by
  intro k b hb
  rw [get?_put] at hb
  split_ifs at hb
  · obtain ⟨_, -, rfl⟩ := Option.map_eq_some_iff.1 hb
    exact ha
  · exact hs k b hb

lemma Rel.refl (hR : ∀ a, R a a) (s : Handles α) : s.Rel R s := by
  intro h
  rcases s.get? h with _ | a
  · exact .none
  · exact .some (hR a)

lemma Rel.symm (hR : ∀ a b, R a b → R b a) (hs : s.Rel R s') : s'.Rel R s := by
  intro h
  have hh := hs h
  generalize s.get? h = x, s'.get? h = y at hh ⊢
  cases hh with
  | none => exact .none
  | some ha => exact .some (hR _ _ ha)

lemma Rel.trans (hR : ∀ a b c, R a b → R b c → R a c) (hs : s.Rel R s') (hs' : s'.Rel R s'') :
    s.Rel R s'' := by
  intro h
  have h₁ := hs h
  have h₂ := hs' h
  generalize s.get? h = x, s'.get? h = y, s''.get? h = z at h₁ h₂ ⊢
  cases h₁ with
  | none =>
    cases h₂
    exact .none
  | some h₁ =>
    cases h₂ with
    | some h₂ => exact .some (hR _ _ _ h₁ h₂)

lemma Rel.release (hs : s.Rel R s') : (s.release h).Rel R (s'.release h) := by
  intro k
  rw [get?_release, get?_release]
  by_cases hk : k = h
  · rw [if_pos hk, if_pos hk]
    exact .none
  · rw [if_neg hk, if_neg hk]
    exact hs k

lemma Rel.bind (hs : s.Rel R s') (ha : R a a) : (s.bind h a).Rel R (s'.bind h a) := by
  intro k
  rw [get?_bind, get?_bind]
  by_cases hk : k = h
  · rw [if_pos hk, if_pos hk]
    exact .some ha
  · rw [if_neg hk, if_neg hk]
    exact hs k

lemma Rel.put {a' : α} (hs : s.Rel R s') (ha : R a a') : (s.put h a).Rel R (s'.put h a') := by
  intro k
  rw [get?_put, get?_put]
  by_cases hk : k = h
  · rw [if_pos hk, if_pos hk]
    have hh := hs h
    generalize s.get? h = x, s'.get? h = y at hh ⊢
    cases hh with
    | none => exact .none
    | some => exact .some ha
  · rw [if_neg hk, if_neg hk]
    exact hs k

end Rel

/-- A function called on a handle, for what it does with the object and for what it says if there is
none. -/
def step (s : Handles α) (h : Handle) (missing : Reply) (f : α → α × Reply) : Handles α × Reply :=
  match s.get? h with
  | none => (s, missing)
  | some a => (s.put h (f a).1, (f a).2)

section Step

variable {I : α → Prop} {R : α → α → Prop} {missing : Reply} {f : α → α × Reply}

lemma step_of_none (hh : s.get? h = none) : s.step h missing f = (s, missing) := by
  rw [step, hh]

lemma step_of_some (hh : s.get? h = some a) : s.step h missing f = (s.put h (f a).1, (f a).2) := by
  rw [step, hh]

lemma All.step (hs : s.All I) (hf : ∀ a, I a → I (f a).1) : (s.step h missing f).1.All I := by
  rcases hh : s.get? h with _ | a
  · rw [step_of_none hh]
    exact hs
  · rw [step_of_some hh]
    exact hs.put (hf a (hs h a hh))

/-- A function that fails changes nothing, if it changes its object in no way that matters. -/
lemma step_failed (hR : ∀ a, R a a) (hs : s.All I)
    (hf : ∀ a, I a → (f a).2.isFailure → R (f a).1 a)
    (hfail : (s.step h missing f).2.isFailure) : (s.step h missing f).1.Rel R s := by
  rcases hh : s.get? h with _ | a
  · rw [step_of_none hh]
    exact .refl hR s
  · rw [step_of_some hh] at hfail ⊢
    have ha := hf a (hs h a hh) hfail
    intro k
    rw [get?_put]
    by_cases hk : k = h
    · rw [if_pos hk, hk, hh]
      exact .some ha
    · rw [if_neg hk]
      exact Rel.refl hR s k

/-- A function called on either of related objects gives the same and leaves them related. -/
lemma Rel.step (hrel : s.Rel R s') (h : Handle) (missing : Reply) (hs : s.All I) (hs' : s'.All I)
    (hf : ∀ a a', I a → I a' → R a a' → (f a).2 = (f a').2 ∧ R (f a).1 (f a').1) :
    (s.step h missing f).2 = (s'.step h missing f).2 ∧
      (s.step h missing f).1.Rel R (s'.step h missing f).1 := by
  have hh := hrel h
  rcases hx : s.get? h with _ | a <;> rcases hx' : s'.get? h with _ | a' <;> rw [hx, hx'] at hh
  · rw [step_of_none hx, step_of_none hx']
    exact ⟨rfl, hrel⟩
  · cases hh
  · cases hh
  · cases hh with
    | some haa' =>
      obtain ⟨hreply, hleft⟩ := hf a a' (hs h a hx) (hs' h a' hx') haa'
      rw [step_of_some hx, step_of_some hx']
      exact ⟨hreply, hrel.put hleft⟩

end Step

end Handles

/-! ### Functions on objects -/

namespace Session

section Contexts

variable [Allocator] {g g' : Gpu}

/-- What a function does on a context: it performs a command and says whether it succeeded, or it
only looks at the resources, or it is one of two that do a little else. -/
lemma callContext_cases (c : ContextCall) :
    (∃ command, ∀ g, callContext g c = withStatus g command) ∨
      (∃ view : Gpu → Reply, (∀ g g', g.SameAs g' → view g = view g') ∧
        ∀ g, callContext g c = (g, view g)) ∨
      (∃ id, c = .freeBuffer id) ∨ ∃ id offset bytes, c = .writeBuffer id offset bytes := by
  cases c with
  | createTexture id width height => exact .inl ⟨_, fun g => rfl⟩
  | freeTexture id => exact .inl ⟨_, fun g => rfl⟩
  | clearColor id color rect =>
    cases color with
    | none => exact .inr (.inl ⟨fun _ => .status false, fun _ _ _ => rfl, fun g => rfl⟩)
    | some c => exact .inl ⟨_, fun g => rfl⟩
  | clearDepth id d rect => exact .inl ⟨_, fun g => rfl⟩
  | createBuffer id size => exact .inl ⟨_, fun g => rfl⟩
  | freeBuffer id => exact .inr (.inr (.inl ⟨id, rfl⟩))
  | getBuffer id =>
    refine .inr (.inl ⟨_, ?_, fun g => rfl⟩)
    intro g g' h
    rw [ResourceTable.buffer, ResourceTable.buffer, h.get?]
  | writeBuffer id offset bytes => exact .inr (.inr (.inr ⟨id, offset, bytes, rfl⟩))
  | getTexture id =>
    refine .inr (.inl ⟨_, ?_, fun g => rfl⟩)
    intro g g' h
    rw [ResourceTable.texture, ResourceTable.texture, h.get?]
  | execute => exact .inl ⟨_, fun g => rfl⟩

lemma withStatus_failed (wellFormed : g.resources.WellFormed) {command : Command}
    (h : (withStatus g command).2.isFailure) : (withStatus g command).1.SameAs g := by
  have hrefused := fun e => Gpu.perform_refused wellFormed command (e := e)
  unfold withStatus at h ⊢
  rcases hperform : g.perform command with ⟨g', (e | _) | stats⟩ <;> rw [hperform] at h hrefused
  · exact hrefused e rfl
  · cases h
  · cases h

lemma withStatus_congr (h : g.SameAs g') (wellFormed : g.resources.WellFormed)
    (wellFormed' : g'.resources.WellFormed) (command : Command) :
    (withStatus g command).2 = (withStatus g' command).2 ∧
      (withStatus g command).1.SameAs (withStatus g' command).1 := by
  obtain ⟨hresult, hleft⟩ := h.perform wellFormed wellFormed' command
  unfold withStatus
  rcases hperform : g.perform command with ⟨g₁, result⟩
  rcases hperform' : g'.perform command with ⟨g₁', result'⟩
  rw [hperform, hperform'] at hresult hleft
  cases hresult
  rcases result with (e | _) | stats <;> exact ⟨rfl, hleft⟩

/-- The state after a function that performs a command is the state after the command. -/
lemma withStatus_fst (command : Command) : (withStatus g command).1 = (g.perform command).1 := by
  unfold withStatus
  rcases g.perform command with ⟨g', (e | _) | stats⟩ <;> rfl

/-- The context after a function is what a command leaves, or the context itself. -/
lemma wellFormed_callContext (wellFormed : g.resources.WellFormed) (c : ContextCall) :
    (callContext g c).1.resources.WellFormed := by
  rcases callContext_cases c with ⟨command, h⟩ | ⟨view, -, h⟩ | ⟨id, rfl⟩ | ⟨id, offset, bytes, rfl⟩
  · rw [h, withStatus_fst]
    exact Gpu.wellFormed_perform wellFormed command
  · rw [h]
    exact wellFormed
  · exact Gpu.wellFormed_perform wellFormed (.freeBuffer id)
  · have hwritten := Gpu.wellFormed_perform wellFormed (.writeBuffer id offset bytes)
    rcases hperform : g.perform (.writeBuffer id offset bytes) with ⟨g', (e | _) | stats⟩ <;>
      rw [hperform] at hwritten <;> simpa only [callContext, hperform] using hwritten

/-- A buffer that was written is there. -/
lemma exists_buffer_of_written {id : UInt64} {offset : Nat} {bytes : ByteArray}
    {stats : Option DrawStats} (h : g.perform (.writeBuffer id offset bytes) = (g', .ok stats)) :
    ∃ new, g'.resources.buffer id = .ok new := by
  rcases hwrite : g.resources.writeBuffer id offset bytes with fault | r <;>
    simp only [Gpu.perform, hwrite, Gpu.change, Prod.mk.injEq] at h
  · cases h.2
  · simp only [ResourceTable.writeBuffer, bind_eq_ok, pure_eq_ok, orRefuse_eq_ok,
      orAbort_eq_ok] at hwrite
    obtain ⟨old, hold, new, -, rfl⟩ := hwrite
    refine ⟨new, ?_⟩
    rw [← h.1, ResourceTable.buffer_eq_ok, ResourceTable.get?_put, if_pos rfl,
      ResourceTable.buffer_eq_ok.1 hold]
    rfl

/-- A function that fails leaves its context as it was. -/
lemma callContext_failed (wellFormed : g.resources.WellFormed) (c : ContextCall)
    (h : (callContext g c).2.isFailure) : (callContext g c).1.SameAs g := by
  rcases callContext_cases c with ⟨command, hc⟩ | ⟨view, -, hc⟩ | ⟨id, rfl⟩ |
    ⟨id, offset, bytes, rfl⟩
  · rw [hc] at h ⊢
    exact withStatus_failed wellFormed h
  · rw [hc]
    exact .refl g
  -- freeing a buffer says nothing, so it is no failure
  · cases h
  · have hrefused := fun e => Gpu.perform_refused wellFormed (.writeBuffer id offset bytes) (e := e)
    rcases hperform : g.perform (.writeBuffer id offset bytes) with ⟨g', (e | _) | stats⟩ <;>
      rw [hperform] at hrefused <;> simp only [callContext, hperform] at h ⊢
    · exact hrefused e rfl
    · cases h
    · obtain ⟨new, hnew⟩ := exists_buffer_of_written hperform
      simp [hnew, Reply.isFailure] at h

/-- On contexts that are the same, a function gives the same and leaves the same. -/
lemma callContext_congr (h : g.SameAs g') (wellFormed : g.resources.WellFormed)
    (wellFormed' : g'.resources.WellFormed) (c : ContextCall) :
    (callContext g c).2 = (callContext g' c).2 ∧
      (callContext g c).1.SameAs (callContext g' c).1 := by
  rcases callContext_cases c with ⟨command, hc⟩ | ⟨view, hview, hc⟩ | ⟨id, rfl⟩ |
    ⟨id, offset, bytes, rfl⟩
  · rw [hc, hc]
    exact withStatus_congr h wellFormed wellFormed' command
  · rw [hc, hc]
    exact ⟨hview g g' h, h⟩
  · exact ⟨rfl, (h.perform wellFormed wellFormed' (.freeBuffer id)).2⟩
  · obtain ⟨hresult, hleft⟩ := h.perform wellFormed wellFormed' (.writeBuffer id offset bytes)
    rcases hperform : g.perform (.writeBuffer id offset bytes) with ⟨g₁, result⟩
    rcases hperform' : g'.perform (.writeBuffer id offset bytes) with ⟨g₁', result'⟩
    rw [hperform, hperform'] at hresult hleft
    cases hresult
    have hbuffer : g₁.resources.buffer id = g₁'.resources.buffer id := by
      rw [ResourceTable.buffer, ResourceTable.buffer, hleft.get?]
    rcases result with (e | _) | stats <;> simp only [callContext, hperform, hperform', hbuffer] <;>
      exact ⟨trivial, hleft⟩

end Contexts

/-- A function that fails leaves its draft as it was. -/
lemma callShader_failed (d : Draft) (c : Draft.Call) (h : (callShader d c).2.isFailure) :
    (callShader d c).1 = d := by
  rcases hcall : d.call c with e | ⟨d', bytes⟩
  · cases c <;> simp only [callShader, Draft.step, hcall]
  · cases c with
    | edit e =>
      simp only [callShader, Draft.step, hcall] at h
      cases h
    | compile =>
      simp only [callShader, Draft.step, hcall] at h
      simp only [Draft.call, bind_eq_ok, pure_eq_ok, Prod.mk.injEq] at hcall
      obtain ⟨_, -, -, rfl⟩ := hcall
      cases h

/-- A function that fails leaves its layout as it was. -/
lemma callLayout_failed (l : Layout) (c : LayoutCall) (h : (callLayout l c).2.isFailure) :
    (callLayout l c).1 = l := by
  cases c with
  | push a =>
    rcases hpush : l.push a with e | l'
    · simp only [callLayout, hpush]
    · simp only [callLayout, hpush] at h
      cases h
  | compile => rfl

/-! ### Calls -/

variable {s s' s'' : Session}

lemma call_context [Allocator] (s : Session) (h : Handle) (c : ContextCall) :
    s.call (.context h c) =
      ({ s with contexts := (s.contexts.step h (contextMissing c) (callContext · c)).1 },
        (s.contexts.step h (contextMissing c) (callContext · c)).2) := by
  rcases hh : s.contexts.get? h with _ | g <;> simp only [call, Handles.step, hh]

lemma call_shader [Allocator] (s : Session) (h : Handle) (c : Draft.Call) :
    s.call (.shader h c) =
      ({ s with shaders := (s.shaders.step h (shaderMissing c) (callShader · c)).1 },
        (s.shaders.step h (shaderMissing c) (callShader · c)).2) := by
  rcases hh : s.shaders.get? h with _ | d <;> simp only [call, Handles.step, hh]

lemma call_layout [Allocator] (s : Session) (h : Handle) (c : LayoutCall) :
    s.call (.layout h c) =
      ({ s with layouts := (s.layouts.step h (layoutMissing c) (callLayout · c)).1 },
        (s.layouts.step h (layoutMissing c) (callLayout · c)).2) := by
  rcases hh : s.layouts.get? h with _ | l <;> simp only [call, Handles.step, hh]

/-- Every context has a well-formed table. -/
def WellFormed (s : Session) : Prop := s.contexts.All fun g => g.resources.WellFormed

lemma wellFormed_new : new.WellFormed := Handles.all_empty

/-- Every call keeps the tables well formed. -/
lemma WellFormed.call [Allocator] (h : s.WellFormed) (c : Call) : (s.call c).1.WellFormed := by
  cases c with
  | createContext k => exact Handles.All.bind h ResourceTable.WellFormed.empty
  | destroyContext k => exact Handles.All.release h
  | context k c =>
    rw [call_context]
    exact Handles.All.step h fun g hg => wellFormed_callContext hg c
  | shader k c =>
    rw [call_shader]
    exact h
  | layout k c =>
    rw [call_layout]
    exact h
  | createShader | freeShader | createLayout | freeLayout => exact h

/-- The handles stand for the same objects. -/
structure SameAs (s s' : Session) : Prop where
  contexts : s.contexts.Rel Gpu.SameAs s'.contexts
  shaders : s.shaders.Rel (· = ·) s'.shaders
  layouts : s.layouts.Rel (· = ·) s'.layouts

lemma SameAs.refl (s : Session) : s.SameAs s :=
  ⟨.refl Gpu.SameAs.refl _, .refl Eq.refl _, .refl Eq.refl _⟩

lemma SameAs.symm (h : s.SameAs s') : s'.SameAs s where
  contexts := h.contexts.symm fun _ _ => Gpu.SameAs.symm
  shaders := h.shaders.symm fun _ _ => Eq.symm
  layouts := h.layouts.symm fun _ _ => Eq.symm

lemma SameAs.trans (h : s.SameAs s') (h' : s'.SameAs s'') : s.SameAs s'' where
  contexts := h.contexts.trans (fun _ _ _ => Gpu.SameAs.trans) h'.contexts
  shaders := h.shaders.trans (fun _ _ _ => Eq.trans) h'.shaders
  layouts := h.layouts.trans (fun _ _ _ => Eq.trans) h'.layouts

/-- A call that fails leaves all objects as they were. -/
theorem call_failed [Allocator] (wellFormed : s.WellFormed) (c : Call)
    (h : (s.call c).2.isFailure) : (s.call c).1.SameAs s := by
  cases c with
  | context k c =>
    rw [call_context] at h ⊢
    refine ⟨?_, .refl Eq.refl _, .refl Eq.refl _⟩
    exact Handles.step_failed Gpu.SameAs.refl wellFormed (fun g hg => callContext_failed hg c) h
  | shader k c =>
    rw [call_shader] at h ⊢
    refine ⟨.refl Gpu.SameAs.refl _, ?_, .refl Eq.refl _⟩
    exact Handles.step_failed Eq.refl (fun _ _ _ => trivial) (fun d _ => callShader_failed d c) h
  | layout k c =>
    rw [call_layout] at h ⊢
    refine ⟨.refl Gpu.SameAs.refl _, .refl Eq.refl _, ?_⟩
    exact Handles.step_failed Eq.refl (fun _ _ _ => trivial) (fun l _ => callLayout_failed l c) h
  | createContext | destroyContext | createShader | freeShader | createLayout | freeLayout =>
    cases h

/-- In sessions where the handles stand for the same objects, a call gives the same, and they stand
for the same afterwards. -/
theorem SameAs.call [Allocator] (h : s.SameAs s') (wellFormed : s.WellFormed)
    (wellFormed' : s'.WellFormed) (c : Call) :
    (s.call c).2 = (s'.call c).2 ∧ (s.call c).1.SameAs (s'.call c).1 := by
  have hfunction : ∀ {α : Type} {f : α → α × Reply} (a a' : α), True → True → a = a' →
      (f a).2 = (f a').2 ∧ (f a).1 = (f a').1 := by
    rintro α f a _ - - rfl
    exact ⟨rfl, rfl⟩
  cases c with
  | createContext k => exact ⟨rfl, h.contexts.bind (.refl _), h.shaders, h.layouts⟩
  | destroyContext k => exact ⟨rfl, h.contexts.release, h.shaders, h.layouts⟩
  | context k c =>
    rw [call_context, call_context]
    obtain ⟨hreply, hleft⟩ := h.contexts.step k (contextMissing c) wellFormed wellFormed'
      fun g g' hg hg' hsame => callContext_congr hsame hg hg' c
    exact ⟨hreply, hleft, h.shaders, h.layouts⟩
  | createShader k => exact ⟨rfl, h.contexts, h.shaders.bind rfl, h.layouts⟩
  | freeShader k => exact ⟨rfl, h.contexts, h.shaders.release, h.layouts⟩
  | shader k c =>
    rw [call_shader, call_shader]
    obtain ⟨hreply, hleft⟩ := h.shaders.step k (shaderMissing c)
      (fun _ _ _ => trivial) (fun _ _ _ => trivial) hfunction
    exact ⟨hreply, h.contexts, hleft, h.layouts⟩
  | createLayout k => exact ⟨rfl, h.contexts, h.shaders, h.layouts.bind rfl⟩
  | freeLayout k => exact ⟨rfl, h.contexts, h.shaders, h.layouts.release⟩
  | layout k c =>
    rw [call_layout, call_layout]
    obtain ⟨hreply, hleft⟩ := h.layouts.step k (layoutMissing c)
      (fun _ _ _ => trivial) (fun _ _ _ => trivial) hfunction
    exact ⟨hreply, h.contexts, h.shaders, hleft⟩

end Session

end GraphicsPipeline.Interface
