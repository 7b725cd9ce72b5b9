import GraphicsPipeline.Proofs.Shader.Lowering

/-!
# Calls under new names

Every check of a draft commutes with a renaming that keeps registers apart: the scope knows under
the new names what it knew under the old ones, and the dense numbers depend on the order of
definition alone. So the same calls succeed under new names, and compile to the same bytes
(`Draft.replies_rename`).
-/

namespace GraphicsPipeline

variable {f g : Reg → Reg}

/-! ### Instructions -/

namespace Instr

variable {i : Instr}

lemma rename_rename : (i.rename f).rename g = i.rename (g ∘ f) := by
  cases i <;> rfl

@[simp] lemma sources_rename : (i.rename f).sources = i.sources.map f := by
  cases i <;> rfl

end Instr

/-- An instruction keeps its rules under new names where the arities are known under these. -/
lemma hasArity_rename_iff {signature : Signature} {arities arities' : RegisterArities} {i : Instr}
    {a : Option Arity} (hf : Function.Injective f) (h : ∀ r, arities' (f r) = arities r) :
    HasArity signature arities' (i.rename f) a ↔ HasArity signature arities i a := by
  constructor
  · intro harity
    -- an injective renaming has an inverse, and the other direction is the renaming by it
    have hback : ∀ r ∈ (i.rename f).sources, arities (Function.invFun f r) = arities' r := by
      simp only [Instr.sources_rename, List.forall_mem_map]
      intro r _
      rw [Function.leftInverse_invFun hf r, h]
    have htransfer := harity.transfer .rfl hback
    rwa [Instr.rename_rename, Function.invFun_comp hf, Instr.rename_id] at htransfer
  · exact fun harity => harity.transfer .rfl fun r _ => h r

/-! ### Scopes -/

namespace Scope

variable {s : Scope} {signature : Signature} {i : Instr} {instrs : List Instr} {r : Reg} {k : Nat}
  {inferred : Option Arity}

/-- The scope with every register renamed. -/
def rename (f : Reg → Reg) (s : Scope) : Scope := ⟨s.entries.map fun e => (f e.1, e.2)⟩

lemma get?_rename (hf : Function.Injective f) : (s.rename f).get? (f r) = s.get? r := by
  obtain ⟨entries⟩ := s
  simp only [rename, get?]
  induction entries with
  | nil => rfl
  | cons e entries ih =>
    rw [List.map_cons, List.lookup_cons, List.lookup_cons, ih]
    by_cases hr : r = e.1
    · simp [hr]
    · rw [beq_false_of_ne hr, beq_false_of_ne fun h => hr (hf h)]

lemma arities_rename (hf : Function.Injective f) : (s.rename f).arities (f r) = s.arities r := by
  rw [arities, get?_rename hf, arities]

lemma extend_rename : (s.rename f).extend k (i.rename f) inferred =
    (s.extend k i inferred).rename f := by
  simp only [extend, Instr.output?_rename]
  cases i.output? <;> cases inferred <;> rfl

lemma infer_rename (hf : Function.Injective f) :
    ((s.rename f).infer signature (i.rename f)).toOption = (s.infer signature i).toOption := by
  apply Option.ext
  intro inferred
  simp only [toOption_eq_some, infer_eq_ok_iff, Instr.output?_rename,
    Option.map_eq_some_iff, forall_exists_index, and_imp, forall_apply_eq_imp_iff₂]
  rw [hasArity_rename_iff hf fun r => arities_rename hf]
  simp only [get?_rename hf]

lemma define_rename (hf : Function.Injective f) :
    ((s.rename f).define signature k (i.rename f)).toOption =
      (s.define signature k i).toOption.map fun out => (out.1.rename f, out.2) := by
  rw [define_eq, define_eq, toOption_bind, toOption_bind, infer_rename hf]
  cases (s.infer signature i).toOption with
  | none => rfl
  | some inferred => simp [extend_rename]

lemma defineAll_rename (hf : Function.Injective f) :
    ((s.rename f).defineAll signature k (instrs.map (Instr.rename f))).toOption =
      (s.defineAll signature k instrs).toOption.map (rename f) := by
  induction instrs generalizing s k with
  | nil => rfl
  | cons i rest ih =>
    rw [List.map_cons, defineAll, defineAll, toOption_bind, toOption_bind, define_rename hf]
    cases (s.define signature k i).toOption with
    | none => rfl
    | some out => exact ih

end Scope

/-! ### Programs -/

section Programs

variable {signature : Signature} {position : Option UInt32} {instrs : List Instr}

lemma unwritten?_map_rename :
    unwritten? signature (instrs.map (Instr.rename f)) = unwritten? signature instrs := by
  simp [unwritten?, List.any_map, Function.comp_def]

lemma checkInstrs_map_rename (hf : Function.Injective f) :
    (checkInstrs signature position (instrs.map (Instr.rename f))).toOption =
      (checkInstrs signature position instrs).toOption.map (Scope.rename f) := by
  have hdefine : (Scope.empty.defineAll signature 0 (instrs.map (Instr.rename f))).toOption =
      (Scope.empty.defineAll signature 0 instrs).toOption.map (Scope.rename f) :=
    Scope.defineAll_rename (s := .empty) hf
  simp only [checkInstrs, toOption_bind, unwritten?_map_rename, hdefine]
  cases (checkPosition signature position).toOption with
  | none => rfl
  | some _ =>
    cases (Scope.empty.defineAll signature 0 instrs).toOption with
    | none => rfl
    | some scope => cases unwritten? signature instrs <;> rfl

/-- The place of a register among the defined ones does not depend on names, as long as no other
one of them has its new name. -/
lemma denseNumber_map_rename {r : Reg} (hf : ∀ r' ∈ definedRegs instrs, f r' = f r → r' = r) :
    denseNumber (instrs.map (Instr.rename f)) (f r) = denseNumber instrs r := by
  rw [denseNumber, denseNumber, definedRegs_map_rename]
  congr 1
  generalize definedRegs instrs = rs at hf ⊢
  induction rs with
  | nil => rfl
  | cons r' rs ih =>
    obtain ⟨hr', hrs⟩ := List.forall_mem_cons.1 hf
    have hiff : f r' = f r ↔ r' = r := ⟨hr', congrArg f⟩
    simp only [List.map_cons, List.idxOf_cons, beq_eq_decide, hiff, ih hrs]

end Programs

/-! ### Drafts -/

namespace Draft

variable {d : Draft}

/-- The draft with every register renamed. -/
def rename (f : Reg → Reg) (d : Draft) : Draft :=
  { d with instrs := d.instrs.map (Instr.rename f), scope := d.scope.rename f }

lemma lower_rename (hf : Function.Injective f) :
    (d.rename f).lower.toOption = d.lower.toOption := by
  have hinstrs : (d.instrs.map (Instr.rename f)).map
      (Instr.rename (denseNumber (d.instrs.map (Instr.rename f)))) =
        d.instrs.map (Instr.rename (denseNumber d.instrs)) := by
    rw [List.map_map]
    refine List.map_congr_left fun i _ => ?_
    rw [Function.comp_apply, Instr.rename_rename]
    congr 1
    funext r
    exact denseNumber_map_rename fun r' _ h => hf h
  simp only [lower, toOption_bind, rename, signature, checkInstrs_map_rename hf, hinstrs,
    definedRegs_map_rename, List.length_map]
  cases (checkInstrs ⟨d.inputs, d.outputs⟩ d.position d.instrs).toOption <;> rfl

lemma opened_rename : (d.rename f).opened.toOption = d.opened.toOption.map (rename f) := by
  have hfinalized : (d.rename f).finalized = d.finalized := rfl
  rw [opened, opened, hfinalized]
  cases d.finalized <;> rfl

lemma compile_rename (hf : Function.Injective f) :
    (d.rename f).compile.toOption =
      d.compile.toOption.map fun out => (out.1, out.2.rename f) := by
  simp only [compile, toOption_bind, opened_rename]
  cases d.opened.toOption with
  | none => rfl
  | some d =>
    simp only [Option.map_some, Option.bind_some, lower_rename hf]
    cases d.lower.toOption <;> rfl

/-! ### Calls -/

lemma push_rename (hf : Function.Injective f) {i : Instr} :
    ((d.rename f).push (i.rename f)).toOption = (d.push i).toOption.map (rename f) := by
  simp only [push, toOption_bind, opened_rename]
  cases d.opened.toOption with
  | none => rfl
  | some d =>
    have hdefine : ((d.scope.rename f).define d.signature d.instrs.length (i.rename f)).toOption =
        (d.scope.define d.signature d.instrs.length i).toOption.map
          fun out => (out.1.rename f, out.2) := Scope.define_rename hf
    simp only [Option.map_some, Option.bind_some, rename, List.length_map]
    change ((d.scope.rename f).define d.signature _ _).toOption.bind _ = _
    rw [hdefine]
    cases (d.scope.define d.signature d.instrs.length i).toOption with
    | none => rfl
    | some out => simp [rename]

lemma swizzle_rename (hf : Function.Injective f) {p : RawSwizzle} :
    ((d.rename f).swizzle ⟨f p.reg, p.sub⟩).toOption =
      (d.swizzle p).toOption.map fun s => ⟨f s.reg, s.channel⟩ := by
  have harity : ((d.rename f).scope.arity (f p.reg)).toOption = (d.scope.arity p.reg).toOption := by
    apply Option.ext
    intro a
    simp only [toOption_eq_some, Scope.arity_eq_ok]
    rw [rename, Scope.arities_rename hf]
  simp only [swizzle, toOption_bind, harity]
  cases (d.scope.arity p.reg).toOption with
  | none => rfl
  | some a => cases Channel.ofIndex? p.sub.toNat <;> rfl

lemma swizzles_rename (hf : Function.Injective f) {parts : Vec4 RawSwizzle} :
    ((parts.map fun p => ⟨f p.reg, p.sub⟩).mapM (d.rename f).swizzle).toOption =
      (parts.mapM d.swizzle).toOption.map (Vec4.map fun s => ⟨f s.reg, s.channel⟩) := by
  simp only [Vec4.mapM, Vec4.map, toOption_bind, swizzle_rename hf]
  cases (d.swizzle parts.x).toOption with
  | none => rfl
  | some x =>
    cases (d.swizzle parts.y).toOption with
    | none => rfl
    | some y =>
      cases (d.swizzle parts.z).toOption with
      | none => rfl
      | some z => cases (d.swizzle parts.w).toOption <;> rfl

lemma apply_rename (hf : Function.Injective f) {e : Edit} :
    ((d.rename f).apply (e.rename f)).toOption = (d.apply e).toOption.map (rename f) := by
  -- errors name registers, so only successes can be compared
  cases e with
  | pushInput a =>
    simp only [Edit.rename, apply, pushInput, toOption_bind, opened_rename]
    cases d.opened.toOption <;> rfl
  | pushOutput a =>
    simp only [Edit.rename, apply, pushOutput, toOption_bind, opened_rename]
    cases d.opened.toOption <;> rfl
  | pushPosition =>
    simp only [Edit.rename, apply, pushPosition, toOption_bind, opened_rename]
    cases d.opened.toOption with
    | none => rfl
    | some d =>
      have hposition : (d.rename f).position = d.position := rfl
      simp only [Option.map_some, Option.bind_some, hposition]
      cases d.position <;> rfl
  | push i => exact push_rename hf
  | mov4 out parts =>
    simp only [Edit.rename, apply, toOption_bind, swizzles_rename hf]
    cases (parts.mapM d.swizzle).toOption with
    | none => rfl
    | some parts => exact push_rename (i := .mov4 out parts) hf
  | fmulSwizzle out a parts =>
    simp only [Edit.rename, apply, toOption_bind, swizzles_rename hf]
    cases (parts.mapM d.swizzle).toOption with
    | none => rfl
    | some parts => exact push_rename (i := .fmulSwizzle out a parts) hf
  | loadChannel out part =>
    simp only [Edit.rename, apply, toOption_bind, swizzle_rename hf]
    cases (d.swizzle part).toOption with
    | none => rfl
    | some s => exact push_rename (i := .extract out s.reg s.channel) hf

lemma call_rename (hf : Function.Injective f) {c : Call} :
    ((d.rename f).call (c.rename f)).toOption =
      (d.call c).toOption.map fun out => (out.1.rename f, out.2) := by
  cases c with
  | edit e =>
    simp only [Call.rename, call, toOption_bind, apply_rename hf]
    cases (d.apply e).toOption <;> rfl
  | compile =>
    simp only [Call.rename, call, toOption_bind, compile_rename hf]
    cases d.compile.toOption <;> rfl

lemma step_rename (hf : Function.Injective f) {c : Call} :
    ((d.rename f).step (c.rename f)).1 = (d.step c).1.rename f ∧
      ((d.rename f).step (c.rename f)).2.toOption = (d.step c).2.toOption := by
  have hcall := call_rename (d := d) (c := c) hf
  rcases d.step_cases c with ⟨_, _, hd, hstep⟩ | ⟨e, hd, hstep⟩ <;>
    rcases (d.rename f).step_cases (c.rename f) with ⟨_, _, hd', hstep'⟩ | ⟨e', hd', hstep'⟩ <;>
    rw [hd, hd'] at hcall <;> rw [hstep, hstep']
  · obtain ⟨rfl, rfl⟩ := Prod.mk.inj (Option.some.inj hcall)
    exact ⟨rfl, rfl⟩
  · cases hcall
  · cases hcall
  · exact ⟨rfl, rfl⟩

/-- Under new names the same calls succeed, and compile to the same bytes. -/
theorem replies_rename (hf : Function.Injective f) (calls : List Call) :
    ((d.rename f).replies (calls.map (Call.rename f))).map Except.toOption =
      (d.replies calls).map Except.toOption := by
  induction calls generalizing d with
  | nil => rfl
  | cons c calls ih =>
    obtain ⟨hstate, hreply⟩ := step_rename (d := d) (c := c) hf
    rw [List.map_cons, replies, replies, List.map_cons, List.map_cons, hreply, hstate, ih]

end Draft

end GraphicsPipeline
