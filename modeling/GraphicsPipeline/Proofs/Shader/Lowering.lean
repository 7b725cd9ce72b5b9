import GraphicsPipeline.Proofs.Shader.Compilation
import GraphicsPipeline.Proofs.Shader.Draft

/-!
# What is accepted compiles

A draft that was accepted call by call is lowered as soon as all of its outputs are written. Its
instructions are checked again under dense numbers, which keep the registers apart, so that the
scopes of the two checks know the same (`Scope.exists_defineAll_rename`).
-/

namespace GraphicsPipeline

/-! ### Instructions under new names -/

section Rename

variable {f : Reg → Reg} {i : Instr} {instrs : List Instr} {slot : Nat}

@[simp] lemma Instr.storeSlot?_rename : (i.rename f).storeSlot? = i.storeSlot? := by
  cases i <;> rfl

lemma definedRegs_map_rename :
    definedRegs (instrs.map (Instr.rename f)) = (definedRegs instrs).map f := by
  simp [definedRegs, List.filterMap_map, List.map_filterMap]

lemma stores_map_rename : Stores (instrs.map (Instr.rename f)) slot ↔ Stores instrs slot := by
  simp [Stores]

end Rename

namespace Scope

variable {s s' t : Scope} {signature : Signature} {f : Reg → Reg} {rs : List Reg}
  {instrs : List Instr} {k : Nat}

/-- Instructions that are accepted are accepted under new names, on a scope that knows under the new
names what is known under the old ones. -/
theorem exists_defineAll_rename (hf : ∀ r ∈ rs, ∀ r' ∈ rs, f r = f r' → r = r')
    (hrs : ∀ r, (s.arities r).isSome → r ∈ rs) (hdefined : ∀ r ∈ definedRegs instrs, r ∈ rs)
    (hst : ∀ r ∈ rs, t.arities (f r) = s.arities r)
    (h : s.defineAll signature k instrs = .ok s') :
    ∃ t', t.defineAll signature k (instrs.map (Instr.rename f)) = .ok t' := by
  induction instrs generalizing s t k with
  | nil => exact ⟨t, rfl⟩
  | cons i rest ih =>
    obtain ⟨inferred, harity, hnew, hrest⟩ := defineAll_cons_eq_ok.1 h
    have hout : ∀ r, i.output? = some r → r ∈ rs := fun r hr =>
      hdefined r (mem_definedRegs_cons.2 (.inl hr))
    have harity' : HasArity signature t.arities (i.rename f) inferred := by
      apply harity.transfer .rfl
      intro r hr
      exact hst r (hrs r (harity.isSome_of_mem_sources hr))
    have hnew' : ∀ out, (i.rename f).output? = some out → t.get? out = none := by
      intro out h
      rw [Instr.output?_rename, Option.map_eq_some_iff] at h
      obtain ⟨r, hr, rfl⟩ := h
      rw [← arities_eq_none, hst r (hout r hr), arities_eq_none]
      exact hnew r hr
    -- the new names keep the registers of the list apart, so both define the same one of them
    have hsame : ∀ r ∈ rs, (i.rename f).output? = some (f r) ↔ i.output? = some r := by
      intro r hr
      rw [Instr.output?_rename, Option.map_eq_some_iff]
      constructor
      · rintro ⟨r', hr', heq⟩
        rwa [hf r' (hout r' hr') r hr heq] at hr'
      · intro h
        exact ⟨r, h, rfl⟩
    have hextend : ∀ r ∈ rs, (t.extend k (i.rename f) inferred).arities (f r) =
        (s.extend k i inferred).arities r := by
      intro r hr
      rw [arities_extend_of_hasArity harity', arities_extend_of_hasArity harity]
      simp only [hsame r hr, hst r hr]
    obtain ⟨t', ht'⟩ := ih (fun r hr => (isSome_arities_extend hr).elim (hout r) (hrs r))
      (fun r hr => hdefined r (mem_definedRegs_cons.2 (.inr hr))) hextend hrest
    exact ⟨t', defineAll_cons_eq_ok.2 ⟨inferred, harity', hnew', ht'⟩⟩

end Scope

/-! ### Outputs that are not written -/

lemma unwritten?_eq_some {signature : Signature} {instrs : List Instr} {slot : Nat} :
    unwritten? signature instrs = some slot ↔ slot < signature.outputs.length ∧
      ¬Stores instrs slot ∧ ∀ k < slot, Stores instrs k := by
  simp [unwritten?, Stores, List.find?_range_eq_some]
  tauto

namespace Draft

variable {d : Draft} {slot : Nat}

/-- All that the check of a draft may still miss is an output that is not written. -/
lemma Checked.checkInstrs_eq (h : d.Checked) (outputs : d.outputs.length ≤ UInt32.size) :
    checkInstrs d.signature d.position d.instrs =
      match unwritten? d.signature d.instrs with
      | some slot => .error (.unwrittenOutput slot)
      | none => .ok d.scope := by
  have hposition : checkPosition d.signature d.position = .ok () :=
    checkPosition_eq_ok.2 fun slot hslot => h.consistent.getElem?_position outputs hslot
  simp only [checkInstrs, hposition, h.instrs, ok_bind]
  cases unwritten? d.signature d.instrs <;> rfl

lemma Checked.lower_of_unwritten (h : d.Checked) (outputs : d.outputs.length ≤ UInt32.size)
    (hslot : unwritten? d.signature d.instrs = some slot) :
    d.lower = .error (.unwrittenOutput slot) := by
  rw [lower, h.checkInstrs_eq outputs, hslot]
  rfl

/-- A draft that writes all outputs is lowered: under dense numbers its instructions are accepted
too, and define the registers below their number. -/
lemma Checked.exists_lower (h : d.Checked) (outputs : d.outputs.length ≤ UInt32.size)
    (instrs : d.instrs.length < UInt32.size) (hslot : unwritten? d.signature d.instrs = none) :
    ∃ p, d.lower = .ok p := by
  have hlength := (length_definedRegs_le d.instrs).trans_lt instrs
  have hnumbers := numbers_denseNumber hlength.le
  obtain ⟨scope, hscope⟩ := Scope.exists_defineAll_rename (t := .empty) hnumbers.injective
    (by simp) (fun _ hr => hr) (by simp) h.instrs
  rw [lower, h.checkInstrs_eq outputs, hslot]
  refine ⟨_, Program.check_eq_ok.2 ⟨rfl, scope, ?instrs, ?below, ?count⟩⟩
  case instrs =>
    refine checkInstrs_eq_ok.2 ⟨?_, hscope, ?_⟩
    · exact checkPosition_eq_ok.2 fun slot hslot => h.consistent.getElem?_position outputs hslot
    · exact unwritten?_eq_none.2 fun slot hlt =>
        stores_map_rename.2 (unwritten?_eq_none.1 hslot slot hlt)
  case below =>
    simp only [definedRegs_map_rename, List.forall_mem_map]
    intro r hr
    rw [UInt32.lt_iff_toNat_lt, UInt32.toNat_ofNat_of_lt' hlength]
    exact hnumbers.bounded r hr
  case count =>
    rw [Scope.size_of_defineAll_eq_ok hscope, definedRegs_map_rename, List.length_map,
      UInt32.toNat_ofNat_of_lt' hlength, Scope.size_empty, Nat.zero_add]

/-- Whatever calls a draft comes from, it fails to be lowered exactly if it has an output that no
instruction stores to, and the error names the first. Otherwise it is lowered, and compiled if it
was not compiled before. -/
theorem exists_lower_iff_stores (calls : List Call)
    (outputs : (empty.after calls).outputs.length < 2 ^ 32 - 1)
    (instrs : (empty.after calls).instrs.length < 2 ^ 32 - 1) :
    ((∃ e, (empty.after calls).lower = .error e) ↔
        ∃ slot < (empty.after calls).outputs.length, ¬Stores (empty.after calls).instrs slot) ∧
      (∀ e, (empty.after calls).lower = .error e →
        ∃ slot < (empty.after calls).outputs.length, e = .unwrittenOutput slot ∧
          ¬Stores (empty.after calls).instrs slot ∧
            ∀ k < slot, Stores (empty.after calls).instrs k) ∧
        ((∀ slot < (empty.after calls).outputs.length, Stores (empty.after calls).instrs slot) →
          ∃ p, (empty.after calls).lower = .ok p ∧ ((empty.after calls).finalized = false →
            (empty.after calls).compile =
              .ok (p.encode, { empty.after calls with finalized := true }))) := by
  have hchecked := checked_after calls
  generalize empty.after calls = d at *
  have hsize : UInt32.size = 2 ^ 32 := rfl
  cases hslot : unwritten? d.signature d.instrs with
  | some slot =>
    have hlower := hchecked.lower_of_unwritten (by omega) hslot
    obtain ⟨hlt, hmissing, hbefore⟩ := unwritten?_eq_some.1 hslot
    refine ⟨iff_of_true ⟨_, hlower⟩ ⟨slot, hlt, hmissing⟩, ?_, ?_⟩
    · intro e he
      cases hlower.symm.trans he
      exact ⟨slot, hlt, rfl, hmissing, hbefore⟩
    · intro hall
      exact absurd (hall slot hlt) hmissing
  | none =>
    obtain ⟨p, hlower⟩ := hchecked.exists_lower (by omega) (by omega) hslot
    have hall := unwritten?_eq_none.1 hslot
    have hnot : ∀ e, d.lower ≠ .error e := by
      intro e he
      cases hlower.symm.trans he
    refine ⟨iff_of_false (fun ⟨e, he⟩ => hnot e he) ?_, fun e he => absurd he (hnot e), ?_⟩
    · rintro ⟨slot, hlt, hmissing⟩
      exact hmissing (hall slot hlt)
    · intro _
      refine ⟨p, hlower, fun hopen => ?_⟩
      rw [compile, opened, hopen]
      simp [hlower, pure, Except.pure]

/-- Slots that are declared late, a call that fails, and one output that is not written. -/
def unfinished : List Call :=
  [.edit (.pushInput .vec4), .edit (.push (.input 900 0)), .edit .pushPosition,
    .edit (.push (.input 900 0)), .edit (.push (.store 900 0)), .edit (.push (.extract 7 900 .y)),
    .edit (.pushOutput .scalar)]

def finished : List Call := unfinished ++ [.edit (.push (.store 7 1))]

/-- The second output is missing; with a store to it, the draft compiles. -/
theorem exists_lower_iff_stores_unfinished :
    (empty.after unfinished).lower = .error (.unwrittenOutput 1) ∧
      ∃ p, (empty.after finished).lower = .ok p ∧
        (empty.after finished).compile =
          .ok (p.encode, { empty.after finished with finalized := true }) := by
  constructor
  · have hfirst : unwritten? (empty.after unfinished).signature (empty.after unfinished).instrs =
        some 1 := rfl
    obtain ⟨hlt, hmissing, -⟩ := unwritten?_eq_some.1 hfirst
    obtain ⟨hfails, herror, -⟩ := exists_lower_iff_stores unfinished (by decide) (by decide)
    obtain ⟨e, he⟩ := hfails.2 ⟨1, hlt, hmissing⟩
    obtain ⟨slot, hlt, rfl, hslot⟩ := herror e he
    cases hfirst.symm.trans (unwritten?_eq_some.2 ⟨hlt, hslot⟩)
    exact he
  · have hall : unwritten? (empty.after finished).signature (empty.after finished).instrs = none :=
      rfl
    obtain ⟨-, -, hcompiles⟩ := exists_lower_iff_stores finished (by decide) (by decide)
    obtain ⟨p, hlower, hcompile⟩ := hcompiles (unwritten?_eq_none.1 hall)
    exact ⟨p, hlower, hcompile rfl⟩

end Draft

end GraphicsPipeline
