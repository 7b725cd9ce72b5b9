import GraphicsPipeline.Interface.InPlace
import GraphicsPipeline.Proofs.InPlace
import GraphicsPipeline.Proofs.Interface.Session
import GraphicsPipeline.Proofs.Shader.InPlace

/-!
# Failed calls leave no trace

A call in place leaves the objects, and writes to the variables of its caller, as the call on whole
objects says (`Session.callInPlace_eq`). So a call that says that it failed changes nothing, and a
sequence of calls comes to the same without those that failed (`World.failed_leave_no_trace`).
-/

namespace GraphicsPipeline.Interface

open Step

/-! ### Replies as answers and results -/

def Reply.answer : Reply → Answer
  | .nothing => .nothing
  | .status ok => .status ok
  | .buffer contents => .status contents.isSome
  | .texture image => .status image.isSome
  | .blob bytes => .status bytes.isSome
  | .aborted => .aborted

/-- The variables with what a reply brings; a reply without contents brings nothing. -/
def Reply.writeTo (v : Variables) : Reply → Variables
  | .buffer (some contents) => { v with data := some contents }
  | .texture (some (width, height, stride, data)) =>
    { v with width, height, stride, data := some data }
  | .blob (some bytes) =>
    { v with data := some (Storage.ofBytes bytes), length := UInt64.ofNat bytes.length }
  | _ => v

lemma Reply.answer_eq_false {r : Reply} : r.answer = .status false ↔ r.isFailure := by
  cases r with
  | status ok => cases ok <;> simp [answer, isFailure]
  | buffer contents => cases contents <;> simp [answer, isFailure]
  | texture image => cases image <;> simp [answer, isFailure]
  | blob bytes => cases bytes <;> simp [answer, isFailure]
  | nothing | aborted => simp [answer, isFailure]

/-- A reply of failure writes to no variable. -/
lemma Reply.writeTo_of_isFailure {r : Reply} (h : r.isFailure) (v : Variables) :
    r.writeTo v = v := by
  cases r with
  | buffer contents => cases contents with
    | none => rfl
    | some contents => cases h
  | texture image => cases image with
    | none => rfl
    | some image => cases h
  | blob bytes => cases bytes with
    | none => rfl
    | some bytes => cases h
  | nothing | status | aborted => rfl

/-! ### Functions in place -/

namespace Routine

variable {σ : Type} {r : Routine σ} {f : σ → σ × Reply} {missing : Reply}

/-- The function leaves its object, writes its results and answers as is said of whole objects. -/
structure Commits (r : Routine σ) (I : σ → Prop) (missing : Reply) (f : σ → σ × Reply) : Prop where
  missing : ∀ v, r none v = (none, missing.writeTo v, missing.answer)
  some : ∀ o, I o → ∀ v, r (some o) v = (some (f o).1, (f o).2.writeTo v, (f o).2.answer)

lemma onObject_work [Allocator] {g : Gpu} (h : g.resources.WellFormed) (command : Command)
    (v : Variables) :
    Work.onObject (Gpu.work command) (g, v) =
      (((g.perform command).1, v), (g.perform command).2.map fun _ => ()) := by
  have hobject : Work.onObject (Gpu.work command) (g, v) =
      (((Gpu.work command g).1, v), (Gpu.work command g).2) := rfl
  rw [hobject, Gpu.work_eq h]

/-- A function that performs a command in place. -/
lemma ofWork_command [Allocator] (g : Gpu) (h : g.resources.WellFormed) (command : Command)
    (v : Variables) :
    ofWork (.onObject (Gpu.work command)) (some g) v =
      (some (Session.withStatus g command).1, (Session.withStatus g command).2.writeTo v,
        (Session.withStatus g command).2.answer) := by
  unfold Session.withStatus
  rw [ofWork, onObject_work h]
  rcases g.perform command with ⟨g', (e | _) | stats⟩ <;> rfl

/-- Performing a command brings no results. -/
lemma writeTo_withStatus [Allocator] (g : Gpu) (command : Command) (v : Variables) :
    (Session.withStatus g command).2.writeTo v = v := by
  unfold Session.withStatus
  rcases g.perform command with ⟨g', (e | _) | stats⟩ <;> rfl

lemma getBuffer_of_ok {g : Gpu} {id : UInt64} {bytes : ByteArray}
    (h : g.resources.buffer id = .ok bytes) (v : Variables) :
    Work.getBuffer id (g, v) = ((g, { v with data := some bytes }), .ok ()) := by
  have hlook : orRefuse (g.resources.buffer id) = .ok bytes := orRefuse_eq_ok.2 h
  exact looking_of_ok hlook

lemma getBuffer_of_error {g : Gpu} {id : UInt64} {e : Error}
    (h : g.resources.buffer id = .error e) (v : Variables) :
    Work.getBuffer id (g, v) = ((g, v), .error (.refused e)) := by
  have hlook : orRefuse (g.resources.buffer id) = .error (.refused e) := by
    rw [h]
    rfl
  exact looking_of_error hlook

lemma commits_getBuffer {id : UInt64} (g : Gpu) (v : Variables) :
    ofWork (.getBuffer id) (some g) v =
      (some g, (Reply.buffer (g.resources.buffer id).toOption).writeTo v,
        (Reply.buffer (g.resources.buffer id).toOption).answer) := by
  rcases hbuffer : g.resources.buffer id with e | bytes
  · rw [ofWork, getBuffer_of_error hbuffer]
    rfl
  · rw [ofWork, getBuffer_of_ok hbuffer]
    rfl

/-- The caller writes where the buffer is, and sees what was written. -/
lemma commits_writeBuffer [Allocator] {id : UInt64} {offset : Nat} {bytes : ByteArray} (g : Gpu)
    (h : g.resources.WellFormed) (v : Variables) :
    context (.writeBuffer id offset bytes) (some g) v =
      (some (Session.callContext g (.writeBuffer id offset bytes)).1,
        (Session.callContext g (.writeBuffer id offset bytes)).2.writeTo v,
        (Session.callContext g (.writeBuffer id offset bytes)).2.answer) := by
  have hwork : Work.onObject (Gpu.work (.writeBuffer id offset bytes)) (g, v) =
      (((g.perform (.writeBuffer id offset bytes)).1, v),
        (g.perform (.writeBuffer id offset bytes)).2.map fun _ => ()) :=
    onObject_work h _ v
  rcases hperform : g.perform (.writeBuffer id offset bytes) with ⟨g', (e | _) | stats⟩ <;>
    rw [hperform] at hwork
  · simp only [context, ofWork, Session.callContext, hperform, andThen_of_error hwork]
    rfl
  · simp only [context, ofWork, Session.callContext, hperform, andThen_of_error hwork]
    rfl
  -- the caller keeps the pointer, and sees the buffer as it is after writing
  · obtain ⟨new, hnew⟩ := Session.exists_buffer_of_written hperform
    simp only [context, ofWork, Session.callContext, hperform, hnew, andThen_of_ok hwork,
      getBuffer_of_ok hnew]
    rfl

lemma commits_getTexture [Allocator] {id : UInt64} (g : Gpu) (v : Variables) :
    ofWork (.getTexture id) (some g) v =
      (some (Session.callContext g (.getTexture id)).1,
        (Session.callContext g (.getTexture id)).2.writeTo v,
        (Session.callContext g (.getTexture id)).2.answer) := by
  rcases htexture : g.resources.texture id with e | t <;>
    simp only [ofWork, Work.getTexture, looking, Session.callContext, htexture] <;> rfl

/-- Every function on a context. -/
lemma commits_context [Allocator] (c : ContextCall) :
    (context c).Commits (fun g => g.resources.WellFormed) (Session.contextMissing c)
      (Session.callContext · c) := by
  cases c with
  | clearColor id color rect =>
    cases color with
    | none => exact ⟨fun v => rfl, fun g _ v => rfl⟩
    | some c => exact ⟨fun v => rfl, fun g h v => ofWork_command g h _ v⟩
  | freeBuffer id =>
    refine ⟨fun v => rfl, fun g h v => ?_⟩
    simp only [context, silently, ofWork_command g h, writeTo_withStatus, Session.withStatus_fst]
    rfl
  | getBuffer id => exact ⟨fun v => rfl, fun g _ v => commits_getBuffer g v⟩
  | writeBuffer id offset bytes => exact ⟨fun v => rfl, fun g h v => commits_writeBuffer g h v⟩
  | getTexture id => exact ⟨fun v => rfl, fun g _ v => commits_getTexture g v⟩
  | createTexture | freeTexture | clearDepth | createBuffer | execute =>
    exact ⟨fun v => rfl, fun g h v => ofWork_command g h _ v⟩

/-- Every function on a draft. -/
lemma commits_shader (c : Draft.Call) :
    (shader c).Commits (fun _ => True) (Session.shaderMissing c) (Session.callShader · c) := by
  cases c with
  | edit e =>
    refine ⟨fun v => rfl, fun d _ v => ?_⟩
    have hrun : (Draft.Work.edit e).run d =
        Draft.Work.outcome d ((d.apply e).map fun d => (d, ())) := Draft.Work.commits_edit e d
    rcases happly : d.apply e with e' | d' <;> rw [happly] at hrun
    · simp only [shader, ofWork, Work.edit, Work.onObject, onPart, hrun, Session.callShader,
        Draft.step, Draft.call, happly]
      rfl
    · simp only [shader, ofWork, Work.edit, Work.onObject, onPart, hrun, Session.callShader,
        Draft.step, Draft.call, happly]
      rfl
  | compile =>
    refine ⟨fun v => rfl, fun d _ v => ?_⟩
    have hrun : Draft.Work.compile.run d = Draft.Work.outcome d (d.compile.map Prod.swap) :=
      Draft.Work.commits_compile d
    rcases hcompile : d.compile with e' | ⟨bytes, d'⟩ <;> rw [hcompile] at hrun
    · simp only [shader, ofWork, Work.compileShader, hrun, Session.callShader, Draft.step,
        Draft.call, hcompile]
      rfl
    · simp only [shader, ofWork, Work.compileShader, hrun, Session.callShader, Draft.step,
        Draft.call, hcompile]
      rfl

/-- Every function on a layout. -/
lemma commits_layout (c : LayoutCall) :
    (layout c).Commits (fun _ => True) (Session.layoutMissing c) (Session.callLayout · c) := by
  cases c with
  | push a =>
    refine ⟨fun v => rfl, fun l _ v => ?_⟩
    by_cases hfloat : a.arity.isFloat <;>
      simp only [layout, ofWork, Work.pushAttribute, Work.onObject, onPart, Session.callLayout,
        Layout.push, hfloat] <;> rfl
  | compile =>
    refine ⟨fun v => rfl, fun l _ v => ?_⟩
    rcases hcompile : l.compile with e | bytes <;>
      simp only [layout, ofWork, Work.compileLayout, looking, Session.callLayout, hcompile] <;> rfl

end Routine

/-! ### Sessions in place -/

/-- A function called on a handle leaves and gives what is said of whole objects. -/
lemma Handles.call_eq {α : Type} {s : Handles α} {r : Routine α} {I : α → Prop} {missing : Reply}
    {f : α → α × Reply} (hr : r.Commits I missing f) (hs : s.All I) (h : Handle) (v : Variables) :
    s.call h r v = ((s.step h missing f).1, (s.step h missing f).2.writeTo v,
      (s.step h missing f).2.answer) := by
  unfold Handles.call
  rcases hh : s.get? h with _ | a
  · rw [hr.missing v, step_of_none hh]
  · rw [hr.some a (hs h a hh) v, step_of_some hh]

/-- A call in place leaves the objects that the call leaves, writes what it brings to the variables,
and answers as it does. -/
theorem Session.callInPlace_eq [Allocator] {s : Session} (h : s.WellFormed) (v : Variables)
    (c : Call) :
    s.callInPlace v c = ((s.call c).1, (s.call c).2.writeTo v, (s.call c).2.answer) := by
  cases c with
  | context k c => rw [callInPlace, Handles.call_eq (Routine.commits_context c) h, call_context]
  | shader k c =>
    rw [callInPlace, Handles.call_eq (Routine.commits_shader c) fun _ _ _ => trivial, call_shader]
  | layout k c =>
    rw [callInPlace, Handles.call_eq (Routine.commits_layout c) fun _ _ _ => trivial, call_layout]
  | createContext | destroyContext | createShader | freeShader | createLayout | freeLayout => rfl

/-! ### Sequences of calls -/

namespace World

variable {w w' : World}

/-- The handles stand for the same objects, and all variables hold the same. -/
structure SameAs (w w' : World) : Prop where
  session : w.session.SameAs w'.session
  memory : w.memory = w'.memory

lemma SameAs.refl (w : World) : w.SameAs w := ⟨.refl w.session, rfl⟩

lemma SameAs.symm (h : w.SameAs w') : w'.SameAs w := ⟨h.session.symm, h.memory.symm⟩

lemma SameAs.trans {w'' : World} (h : w.SameAs w') (h' : w'.SameAs w'') : w.SameAs w'' :=
  ⟨h.session.trans h'.session, h.memory.trans h'.memory⟩

variable [Allocator]

/-- The parts of what a call leaves and gives. -/
lemma invoke_eq (wellFormed : w.session.WellFormed) (i : Invocation) :
    w.invoke i =
      (⟨(w.session.call i.call).1, fun p =>
          if p = i.place then (w.session.call i.call).2.writeTo (w.memory i.place)
          else w.memory p⟩,
        (w.session.call i.call).2.answer,
        (w.session.call i.call).2.writeTo (w.memory i.place)) := by
  rw [invoke, Session.callInPlace_eq wellFormed]

lemma wellFormed_invoke (wellFormed : w.session.WellFormed) (i : Invocation) :
    (w.invoke i).1.session.WellFormed := by
  rw [invoke_eq wellFormed]
  exact wellFormed.call i.call

lemma run_cons (w : World) (i : Invocation) (calls : List Invocation) :
    w.run (i :: calls) =
      (((w.invoke i).1.run calls).1, (w.invoke i).2 :: ((w.invoke i).1.run calls).2) := rfl

lemma wellFormed_run (wellFormed : w.session.WellFormed) (calls : List Invocation) :
    (w.run calls).1.session.WellFormed := by
  induction calls generalizing w with
  | nil => exact wellFormed
  | cons i calls ih =>
    rw [run_cons]
    exact ih (wellFormed_invoke wellFormed i)

/-- A call that says that it failed changed no object and no variable. -/
lemma invoke_failed (wellFormed : w.session.WellFormed) (i : Invocation)
    (h : (w.invoke i).2.1 = .status false) :
    (w.invoke i).1.SameAs w ∧ (w.invoke i).2.2 = w.memory i.place := by
  rw [invoke_eq wellFormed] at h ⊢
  rw [Reply.answer_eq_false] at h
  have hwritten := Reply.writeTo_of_isFailure h (w.memory i.place)
  refine ⟨⟨Session.call_failed wellFormed i.call h, ?_⟩, hwritten⟩
  funext p
  by_cases hp : p = i.place
  · simp only [hp, if_true, hwritten]
  · simp only [if_neg hp]

/-- A call in a world that is the same gives the same, and leaves the same. -/
lemma SameAs.invoke (h : w.SameAs w') (wellFormed : w.session.WellFormed)
    (wellFormed' : w'.session.WellFormed) (i : Invocation) :
    (w.invoke i).2 = (w'.invoke i).2 ∧ (w.invoke i).1.SameAs (w'.invoke i).1 := by
  obtain ⟨hreply, hleft⟩ := h.session.call wellFormed wellFormed' i.call
  rw [invoke_eq wellFormed, invoke_eq wellFormed', hreply, h.memory]
  exact ⟨rfl, hleft, rfl⟩

lemma effective_cons (w : World) (i : Invocation) (calls : List Invocation) :
    w.effective (i :: calls) =
      if (w.invoke i).2.1 = .status false then (w.invoke i).1.effective calls
      else (i, (w.invoke i).2) :: (w.invoke i).1.effective calls := by
  rw [effective, run_cons, List.zip_cons_cons, List.filter_cons]
  by_cases h : (w.invoke i).2.1 = .status false <;> simp [h, effective]

/-- Without the calls that fail, the others give what they gave, and the same is left. -/
lemma run_effective (h : w'.SameAs w) (wellFormed : w.session.WellFormed)
    (wellFormed' : w'.session.WellFormed) (calls : List Invocation) :
    (w'.run ((w.effective calls).map Prod.fst)).2 = (w.effective calls).map Prod.snd ∧
      (w'.run ((w.effective calls).map Prod.fst)).1.SameAs (w.run calls).1 := by
  induction calls generalizing w w' with
  | nil => exact ⟨rfl, h⟩
  | cons i calls ih =>
    have hnext := wellFormed_invoke wellFormed i
    rw [effective_cons, run_cons]
    -- a failed call is made on one side only, and the worlds stay the same since it changed nothing
    by_cases hfailed : (w.invoke i).2.1 = .status false
    · rw [if_pos hfailed]
      obtain ⟨hsame, -⟩ := invoke_failed wellFormed i hfailed
      exact ih (h.trans hsame.symm) hnext wellFormed'
    · obtain ⟨hresult, hleft⟩ := h.invoke wellFormed' wellFormed i
      obtain ⟨hresults, hrest⟩ := ih hleft hnext (wellFormed_invoke wellFormed' i)
      rw [if_neg hfailed, List.map_cons, List.map_cons, run_cons]
      exact ⟨by rw [hresults, hresult], hrest⟩

/-- After any calls, a call that says that it failed has changed no object and no variable. So any
calls come to the same without those that failed: the others give the same answers and results, and
the same objects and variables are left. -/
theorem failed_leave_no_trace (memory : Place → Variables) (calls : List Invocation) :
    (∀ i, (((new memory).run calls).1.invoke i).2.1 = .status false →
      (((new memory).run calls).1.invoke i).1.SameAs ((new memory).run calls).1 ∧
        (((new memory).run calls).1.invoke i).2.2 = ((new memory).run calls).1.memory i.place) ∧
      ((new memory).run (((new memory).effective calls).map Prod.fst)).2 =
        ((new memory).effective calls).map Prod.snd ∧
      ((new memory).run (((new memory).effective calls).map Prod.fst)).1.SameAs
        ((new memory).run calls).1 := by
  have wellFormed : (new memory).session.WellFormed := Session.wellFormed_new
  refine ⟨?_, run_effective (.refl _) wellFormed wellFormed calls⟩
  intro i h
  exact invoke_failed (wellFormed_run wellFormed calls) i h

end World

end GraphicsPipeline.Interface
