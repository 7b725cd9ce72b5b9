import GraphicsPipeline.Proofs.Outcome
import GraphicsPipeline.Shader.InPlace

/-!
# Calls leave whole drafts

A call on a draft that is changed in place does all of its changes or none: whatever can fail is
looked at before the first change (`Work.Commits`). So the draft that a call leaves is the one that
is handed on when calls give new drafts (`change_eq_step`).
-/

namespace GraphicsPipeline.Draft

namespace Work

variable {α β γ : Type} {x : Work α} {y : α → Work β} {d d' : Draft}

lemma run_bind_ok {a : α} (h : x.run d = (.ok a, d')) : (x >>= y).run d = (y a).run d' := by
  change (x.run d >>= fun out => ExceptT.bindCont y out.1 out.2 : Id _) = _
  rw [h]
  rfl

lemma run_bind_error {e : Error} (h : x.run d = (.error e, d')) :
    (x >>= y).run d = (.error e, d') := by
  change (x.run d >>= fun out => ExceptT.bindCont y out.1 out.2 : Id _) = _
  rw [h]
  rfl

/-- The work only looks at the draft. -/
def Reads (x : Work α) (f : Draft → Except Error α) : Prop := ∀ d, x.run d = (f d, d)

/-- What a change of a draft comes to, if a draft that cannot be changed stays as it is. -/
def outcome (d : Draft) : Except Error (Draft × α) → Except Error α × Draft
  | .ok (d', a) => (.ok a, d')
  | .error e => (.error e, d)

/-- The work changes a draft as the function says, or it fails and leaves the draft as it is. -/
def Commits (x : Work α) (f : Draft → Except Error (Draft × α)) : Prop :=
  ∀ d, x.run d = outcome d (f d)

/-! ### Looking -/

variable {f : Draft → Except Error α}

lemma reads_pure (a : α) : Reads (pure a) fun _ => .ok a := fun _ => rfl

lemma reads_ofExcept (f : Draft → Except Error α) : Reads (do let d ← get; ofExcept (f d)) f := by
  intro d
  change (ofExcept (f d) : Work α).run d = _
  cases f d <;> rfl

lemma Reads.bind {g : α → Draft → Except Error β} (hx : Reads x f) (hy : ∀ a, Reads (y a) (g a)) :
    Reads (x >>= y) fun d => f d >>= fun a => g a d := by
  intro d
  have hrun := hx d
  cases hf : f d with
  | error e =>
    rw [hf] at hrun
    simp only [run_bind_error hrun, hf, error_bind]
  | ok a =>
    rw [hf] at hrun
    simp only [run_bind_ok hrun, hf, ok_bind]
    exact hy a d

lemma reads_mapM {f : γ → Work α} {g : Draft → γ → Except Error α}
    (h : ∀ c, Reads (f c) fun d => g d c) (v : Vec4 γ) :
    Reads (v.mapM f) fun d => v.mapM (g d) :=
  (h v.x).bind fun x => (h v.y).bind fun y => (h v.z).bind fun z => (h v.w).bind fun w =>
    reads_pure (Vec4.mk x y z w)

lemma reads_checkOpened : Reads checkOpened fun d => d.opened.map fun _ => () := by
  rintro ⟨_, _, _, _, _, _ | _⟩ <;> rfl

lemma reads_checkNoPosition : Reads checkNoPosition fun d =>
    if d.position.isSome then .error .duplicatePosition else .ok () := by
  rintro ⟨_, _, _ | _, _, _, _⟩ <;> rfl

/-! ### Changing -/

lemma commits_pure (a : α) : Commits (pure a) fun d => .ok (d, a) := fun _ => rfl

lemma commits_modify (g : Draft → Draft) : Commits (modify g) fun d => .ok (g d, ()) := fun _ => rfl

lemma Commits.congr {f g : Draft → Except Error (Draft × α)} (hx : Commits x f)
    (h : ∀ d, f d = g d) : Commits x g := by
  intro d
  rw [← h d]
  exact hx d

/-- What only looks at the draft may fail before it is changed. -/
lemma Reads.commits {g : α → Draft → Except Error (Draft × β)} (hx : Reads x f)
    (hy : ∀ a, Commits (y a) (g a)) : Commits (x >>= y) fun d => f d >>= fun a => g a d := by
  intro d
  have hrun := hx d
  cases hf : f d with
  | error e =>
    rw [hf] at hrun
    simp only [run_bind_error hrun, hf]
    rfl
  | ok a =>
    rw [hf] at hrun
    simp only [run_bind_ok hrun, hf]
    exact hy a d

/-- After a change, only changes that cannot fail may follow. -/
lemma Commits.andThen {f : Draft → Except Error (Draft × α)} {g : α → Draft → Draft × β}
    (hx : Commits x f) (hy : ∀ a, Commits (y a) fun d => .ok (g a d)) :
    Commits (x >>= y) fun d => (f d).map fun out => g out.2 out.1 := by
  intro d
  have hrun := hx d
  cases hf : f d with
  | error e =>
    rw [hf] at hrun
    simp only [run_bind_error hrun, hf]
    rfl
  | ok out =>
    rw [hf] at hrun
    simp only [run_bind_ok hrun, hf]
    exact hy out.2 out.1

/-! ### Calls -/

lemma commits_push (i : Instr) : Commits (push i) fun d => (d.push i).map fun d => (d, ()) := by
  have hinfer : Reads (infer i) fun d => d.scope.infer d.signature i := reads_ofExcept _
  have hdefine := hinfer.commits fun inferred => commits_modify (record i inferred)
  -- between the record of the register and the instruction that follows it, nothing can fail
  have hpush := reads_checkOpened.commits fun _ =>
    hdefine.andThen fun _ => commits_modify fun d => { d with instrs := d.instrs ++ [i] }
  refine hpush.congr fun d => ?_
  simp only [Draft.push, opened, Scope.define]
  cases d.finalized with
  | true => rfl
  | false =>
    cases hd : d.scope.infer d.signature i with
    | error e => simp [hd, Except.map]
    | ok inferred =>
      cases hi : i.output? <;> cases inferred <;>
        simp [hd, hi, record, Except.map, pure, Except.pure]

lemma commits_edit (e : Edit) : Commits (edit e) fun d => (d.apply e).map fun d => (d, ()) := by
  have hswizzle : ∀ p, Reads (swizzle p) fun d => d.swizzle p := fun p => reads_ofExcept _
  cases e with
  | pushInput a | pushOutput a =>
    refine (reads_checkOpened.commits fun _ => commits_modify _).congr ?_
    rintro ⟨_, _, _, _, _, _ | _⟩ <;> rfl
  | pushPosition =>
    refine (reads_checkOpened.commits fun _ => reads_checkNoPosition.commits fun _ =>
      (commits_modify _).andThen fun _ => commits_modify _).congr ?_
    rintro ⟨_, _, _ | _, _, _, _ | _⟩ <;> rfl
  | push i => exact commits_push i
  | mov4 out parts =>
    refine ((reads_mapM hswizzle parts).commits fun s => commits_push (.mov4 out s)).congr
      fun d => ?_
    rw [apply]
    cases parts.mapM d.swizzle <;> rfl
  | fmulSwizzle out a parts =>
    refine ((reads_mapM hswizzle parts).commits fun s =>
      commits_push (.fmulSwizzle out a s)).congr fun d => ?_
    rw [apply]
    cases parts.mapM d.swizzle <;> rfl
  | loadChannel out part =>
    refine ((hswizzle part).commits fun s => commits_push (.extract out s.reg s.channel)).congr
      fun d => ?_
    rw [apply]
    cases d.swizzle part <;> rfl

lemma commits_compile : Commits compile fun d => d.compile.map Prod.swap := by
  have hlower : Reads lower Draft.lower := reads_ofExcept _
  refine (reads_checkOpened.commits fun _ => hlower.commits fun p =>
    (commits_modify fun d => { d with finalized := true }).andThen fun _ =>
      commits_pure p.encode).congr fun d => ?_
  simp only [Draft.compile, opened]
  cases d.finalized with
  | true => rfl
  | false => cases hlower : d.lower <;> simp [hlower, Except.map, pure, Except.pure]

/-- A call makes all its changes, or none. -/
lemma commits_call (c : Call) : Commits (call c) fun d => d.call c := by
  cases c with
  | edit e =>
    refine ((commits_edit e).andThen fun _ => commits_pure none).congr fun d => ?_
    rw [Draft.call]
    cases d.apply e <;> rfl
  | compile =>
    refine (commits_compile.andThen fun bytes => commits_pure (some bytes)).congr fun d => ?_
    rw [Draft.call]
    cases d.compile <;> rfl

end Work

/-- A call in place leaves the draft and gives the reply that the call has on the whole draft. -/
theorem change_eq_step (d : Draft) (c : Call) : d.change c = d.step c := by
  simp only [change, Work.commits_call c d, step]
  cases d.call c <;> rfl

lemma changedBy_eq_after (d : Draft) (calls : List Call) : d.changedBy calls = d.after calls := by
  induction calls generalizing d with
  | nil => rfl
  | cons c calls ih => rw [changedBy, after, change_eq_step, ih]

end GraphicsPipeline.Draft
