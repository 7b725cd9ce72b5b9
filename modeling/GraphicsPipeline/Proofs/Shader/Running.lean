import GraphicsPipeline.Proofs.Shader.Soundness
import GraphicsPipeline.Shader.Machine

/-!
# Runs of checked programs

While a checked program runs, every register in scope holds a value of its arity and every output
slot a value of the arity declared for it (`Machine.Fits`). So a run ends with all outputs, or at
the first instruction that reads what the bindings lack (`Machine.run_eq`).
-/

namespace GraphicsPipeline

/-! ### Checked programs -/

lemma find?_le_eq_none {rs : List Reg} {count : UInt32} :
    rs.find? (count ≤ ·) = none ↔ ∀ r ∈ rs, r < count := by
  simp [List.find?_eq_none, UInt32.not_le]

lemma checkPosition_eq_ok {signature : Signature} {position : Option UInt32} :
    checkPosition signature position = .ok () ↔
      ∀ slot, position = some slot → signature.outputs[slot.toNat]? = some .vec4 := by
  cases position with
  | none => simp [checkPosition]
  | some slot =>
    simp only [checkPosition, bind_eq_ok, Signature.output_eq_ok, Option.some.injEq, forall_eq']
    constructor
    · rintro ⟨a, ha, h⟩
      by_cases hvec : a = .vec4
      · rwa [← hvec]
      · simp [hvec] at h
    · intro h
      exact ⟨.vec4, h, by simp⟩

lemma checkInstrs_eq_ok {signature : Signature} {position : Option UInt32} {instrs : List Instr}
    {scope : Scope} :
    checkInstrs signature position instrs = .ok scope ↔
      checkPosition signature position = .ok () ∧
        Scope.empty.defineAll signature 0 instrs = .ok scope ∧
          unwritten? signature instrs = none := by
  simp only [checkInstrs, bind_eq_ok]
  cases unwritten? signature instrs <;> simp [Unique.exists_iff]

/-- What a program is checked for. -/
theorem Program.check_eq_ok {p q : Program} :
    p.check = .ok q ↔ q = p ∧ ∃ scope, checkInstrs p.signature p.position p.instrs = .ok scope ∧
      (∀ r ∈ definedRegs p.instrs, r < p.regCount) ∧ scope.size = p.regCount.toNat := by
  simp only [check, bind_eq_ok, ← find?_le_eq_none, definedRegs]
  constructor
  · rintro ⟨scope, hscope, h⟩
    split at h
    case h_1 => simp at h
    case h_2 hfind =>
      split at h
      case isTrue hsize => exact ⟨(pure_eq_ok.1 h).symm, scope, hscope, hfind, hsize⟩
      case isFalse => simp at h
  · rintro ⟨rfl, scope, hscope, hfind, hsize⟩
    exact ⟨scope, hscope, by simp [hfind, hsize]⟩

/-! ### Inputs -/

/-- Inputs are accepted if they have the declared arities, one by one. -/
lemma checkInputs_eq_ok {declared : List Arity} {inputs : Array Value} :
    checkInputs declared inputs = .ok () ↔ inputs.toList.map Value.arity = declared := by
  unfold checkInputs
  obtain ⟨inputs⟩ := inputs
  simp only [List.size_toArray]
  split_ifs with hlength
  · constructor
    · simp
    · rintro rfl
      simp at hlength
  · rw [not_not] at hlength
    split
    case h_1 hfind =>
      have hmem := List.mem_of_find?_eq_some hfind
      have hne := List.find?_some hfind
      simp only [reduceCtorEq, false_iff]
      rintro rfl
      obtain ⟨k, hk, hpair⟩ := List.mem_iff_getElem.1 hmem
      rw [← hpair] at hne
      simp at hne
    case h_2 hfind =>
      simp only [true_iff]
      rw [List.find?_eq_none] at hfind
      apply List.ext_getElem (by simpa using hlength)
      intro k hk hk'
      rw [List.length_map] at hk
      have hpair := hfind (inputs[k], declared[k])
        (List.mem_iff_getElem.2 ⟨k, by simp_all, by simp⟩)
      simpa using hpair

namespace Machine

variable {m m' : Machine} {p : Program} {inputs : Array Value} {b : Bindings} {scope : Scope}

/-! ### The start of a run -/

lemma refill_eq {storage : Array Value} {values : List Value} :
    refill storage values = values.toArray := by
  simp [refill]

/-- Nothing of an earlier run is left in the storage. -/
lemma clear_eq : m.clear p =
    ⟨(List.replicate p.regCount.toNat (.int 0)).toArray, (p.outputs.map Value.zero).toArray⟩ := by
  simp [clear, refill_eq]

/-- A run gives the same on every machine, whatever ran there before. -/
lemma run_snd_eq : (m.run p inputs b).2 = (m'.run p inputs b).2 := by
  simp only [run]
  split
  · rfl
  · rw [clear_eq, clear_eq]

/-! ### Between two instructions -/

/-- Registers in scope hold values of their arities, output slots values of the declared ones. -/
structure Fits (m : Machine) (p : Program) (scope : Scope) : Prop where
  size : m.regs.size = p.regCount.toNat
  register : ∀ r a, scope.arities r = some a → ∃ v, m.regs[r.toNat]? = some v ∧ v.arity = a
  outputs : m.outputs.toList.map Value.arity = p.outputs

lemma fits_clear : (m.clear p).Fits p .empty where
  size := by simp [clear_eq]
  register r a h := by simp at h
  outputs := by
    have harity : ∀ a, (Value.zero a).arity = a := fun a => by cases a <;> rfl
    simp [clear_eq, Function.comp_def, harity]

namespace Fits

variable {i : Instr} {inferred : Option Arity} {k : Nat}

/-- What an instruction finds in the machine has the arities that the checks go by. -/
lemma surroundings (fits : m.Fits p scope) (declared : inputs.toList.map Value.arity = p.inputs)
    (sampler : ∀ t, b.sampler = some t → t.WellSized) :
    (m.surroundings inputs b).Fits p.signature scope.arities where
  register r a h := by
    obtain ⟨v, hv, hva⟩ := fits.register r a h
    exact ⟨v, by simp [Machine.surroundings, hv], hva⟩
  input slot a h := by
    simp only [Program.signature, ← declared, List.getElem?_map, Array.getElem?_toList,
      Option.map_eq_some_iff] at h
    obtain ⟨v, hv, hva⟩ := h
    exact ⟨v, by simp [Machine.surroundings, hv], hva⟩
  output slot a h := by
    simp only [Program.signature, ← fits.outputs, List.getElem?_map, Array.getElem?_toList,
      Option.map_eq_some_iff] at h
    obtain ⟨v, hv, hva⟩ := h
    exact ⟨v, by simp [Machine.surroundings, hv], hva⟩
  sampler := sampler

/-- An effect stays within the storage, and keeps the arities. -/
lemma perform (fits : m.Fits p scope) {effect : Effect}
    (heffect : effect.Fits p.signature i inferred)
    (hregs : ∀ r, i.output? = some r → r < p.regCount) :
    ∃ m', Machine.perform effect m = (m', .ok ()) ∧ m'.Fits p (scope.extend k i inferred) := by
  cases heffect with
  | @define out v register arity =>
    have hout : out.toNat < m.regs.size := by
      rw [fits.size, ← UInt32.lt_iff_toNat_lt]
      exact hregs out register
    refine ⟨{ m with regs := m.regs.setIfInBounds out.toNat v },
      by simp [Machine.perform, hout], ?_, ?_, fits.outputs⟩
    · simp [fits.size]
    -- a register other than the one defined still holds what it held
    · intro r a h
      rw [arity, Scope.arities_extend register] at h
      split_ifs at h with hr
      · subst hr
        cases h
        exact ⟨v, by simp [hout], rfl⟩
      · have hne : out.toNat ≠ r.toNat := by
          rw [Ne, UInt32.toNat_inj]
          exact fun h => hr h.symm
        simpa [Array.getElem?_setIfInBounds_ne hne] using fits.register r a h
  | @store a slot v instr declared =>
    subst instr
    have hslot : (m.outputs.toList.map Value.arity)[slot.toNat]? = some v.arity := by
      rw [fits.outputs]
      exact declared
    obtain ⟨hlt, hv⟩ := List.getElem?_eq_some_iff.1 hslot
    have hsize : slot.toNat < m.outputs.size := by simpa using hlt
    refine ⟨{ m with outputs := m.outputs.setIfInBounds slot.toNat v },
      by simp [Machine.perform, hsize], fits.size, fits.register, ?_⟩
    rw [Array.toList_setIfInBounds, List.map_set, ← hv, List.set_getElem_self, fits.outputs]

/-- Instructions that lack nothing are all executed, and otherwise all up to the first that lacks
something. -/
theorem each_execute (declared : inputs.toList.map Value.arity = p.inputs)
    (sampler : ∀ t, b.sampler = some t → t.WellSized) {instrs : List Instr} {scope' : Scope}
    (fits : m.Fits p scope) (hscope : scope.defineAll p.signature k instrs = .ok scope')
    (hregs : ∀ r ∈ definedRegs instrs, r < p.regCount) :
    match instrs.findSome? b.refusal? with
    | some e => ∃ m', Step.each (execute inputs b) instrs m = (m', .error (.refused e))
    | none => ∃ m', Step.each (execute inputs b) instrs m = (m', .ok ()) ∧ m'.Fits p scope' := by
  -- the invariant is `Fits`, for the scope that the check has at the same instruction
  induction instrs generalizing m scope k with
  | nil =>
    cases hscope
    exact ⟨m, rfl, fits⟩
  | cons i rest ih =>
    obtain ⟨inferred, harity, -, hrest⟩ := Scope.defineAll_cons_eq_ok.1 hscope
    have hfits := fits.surroundings declared sampler
    rw [List.findSome?_cons]
    cases hb : b.refusal? i with
    | some e =>
      exact ⟨m, by simp [Step.each, Step.andThen, execute, hfits.effect_eq_error harity hb]⟩
    | none =>
      obtain ⟨effect, heffect, hkeeps⟩ := hfits.effect_eq_ok harity hb
      obtain ⟨m', hm', hfits'⟩ := fits.perform (k := k) hkeeps fun r hr =>
        hregs r (mem_definedRegs_cons.2 (.inl hr))
      have hstep : Step.each (execute inputs b) (i :: rest) m =
          Step.each (execute inputs b) rest m' := by
        simp [Step.each, Step.andThen, execute, heffect, hm']
      simp only [hstep]
      exact ih hfits' hrest fun r hr => hregs r (mem_definedRegs_cons.2 (.inr hr))

end Fits

/-- A checked program gives all its outputs, each of its arity, or the error of its first
instruction that lacks something. -/
theorem run_eq (accepted : p.check = .ok p) (declared : inputs.toList.map Value.arity = p.inputs)
    (sampler : ∀ t, b.sampler = some t → t.WellSized) :
    match p.instrs.findSome? b.refusal? with
    | some e => (m.run p inputs b).2 = .error (.refused e)
    | none => ∃ outputs, (m.run p inputs b).2 = .ok outputs ∧
        outputs.toList.map Value.arity = p.outputs := by
  obtain ⟨-, scope, hscope, hregs, -⟩ := Program.check_eq_ok.1 accepted
  obtain ⟨-, hscope, -⟩ := checkInstrs_eq_ok.1 hscope
  have heach := Fits.each_execute (m := m.clear p) declared sampler fits_clear hscope hregs
  simp only [run, checkInputs_eq_ok.2 declared]
  cases hb : p.instrs.findSome? b.refusal? with
  | some e =>
    rw [hb] at heach
    obtain ⟨m', hm'⟩ := heach
    simp [hm']
  | none =>
    rw [hb] at heach
    obtain ⟨m', hm', hfits⟩ := heach
    exact ⟨m'.outputs, by simp [hm'], hfits.outputs⟩

/-- Whatever a checked program gives, it gives every output in its arity. -/
lemma arity_of_run_eq_ok (accepted : p.check = .ok p)
    (sampler : ∀ t, b.sampler = some t → t.WellSized) {outputs : Array Value}
    (h : (m.run p inputs b).2 = .ok outputs) : outputs.toList.map Value.arity = p.outputs := by
  have declared : checkInputs p.inputs inputs = .ok () := by
    unfold run at h
    split at h
    · cases h
    · assumption
  have hrun := run_eq (m := m) accepted (checkInputs_eq_ok.1 declared) sampler
  cases hb : p.instrs.findSome? b.refusal? with
  | some e =>
    rw [hb] at hrun
    cases hrun.symm.trans h
  | none =>
    rw [hb] at hrun
    obtain ⟨outputs', hok, harities⟩ := hrun
    cases hok.symm.trans h
    exact harities

/-- A checked program on inputs of the declared arities never leaves the storage and never meets a
value of a wrong arity. It fails exactly if some instruction reads what the bindings lack, with the
error of the first such instruction, and otherwise gives every output in its arity. -/
theorem run_sound (m : Machine) (accepted : p.check = .ok p)
    (declared : inputs.toList.map Value.arity = p.inputs)
    (uniforms : ∀ buffer, b.uniforms = some buffer → buffer.size ≤ 2 ^ 36)
    (sampler : ∀ t, b.sampler = some t → t.WellSized) :
    (∀ fault, (m.run p inputs b).2 = .error fault ↔
      ∃ e, p.instrs.findSome? b.lacking? = some e ∧ fault = .refused e) ∧
    (∀ fault, (m.run p inputs b).2 = .error fault →
      fault = .refused .missingUniformBuffer ∨ fault = .refused .missingSampler ∨
        ∃ group index, fault = .refused (.uniformOutOfBounds group index)) ∧
    (p.instrs.findSome? b.lacking? = none → ∃ outputs, (m.run p inputs b).2 = .ok outputs ∧
      outputs.toList.map Value.arity = p.outputs) := by
  have hrun := run_eq (m := m) accepted declared sampler
  rw [Bindings.refusal?_eq_lacking? uniforms] at hrun
  cases hb : p.instrs.findSome? b.lacking? with
  | none =>
    rw [hb] at hrun
    obtain ⟨outputs, hok, harities⟩ := hrun
    simp [hok, harities]
  | some e =>
    rw [hb] at hrun
    obtain ⟨i, -, hi⟩ := List.exists_of_findSome?_eq_some hb
    have he := Bindings.lacking?_eq_some hi
    simp only [hrun, Except.error.injEq, Option.some.injEq, exists_eq_left', reduceCtorEq,
      false_implies, and_true]
    refine ⟨fun _ => eq_comm, ?_⟩
    rintro _ rfl
    simpa using he

/-- A program that reads a uniform and the texture at its only input. -/
def litTexture : Program where
  inputs := [.vec2]
  outputs := [.vec4]
  position := none
  regCount := 4
  instrs := [.input 0 0, .uniform 1 0 1, .sample 2 0, .fmul 3 1 2, .store 3 0]

/-- A buffer of one vector ends before the second, with or without a texture; where both are bound,
the coordinates may even be infinite. -/
theorem run_sound_litTexture :
    (new.run litTexture #[.vec2 ⟨0x7f800000⟩ .zero] ⟨some ⟨Array.replicate 16 0⟩, none⟩).2 =
      .error (.refused (.uniformOutOfBounds 0 1)) ∧
    ∃ outputs, (new.run litTexture #[.vec2 ⟨0x7f800000⟩ .zero]
      ⟨some ⟨Array.replicate 32 0⟩, some ⟨1, 1, ⟨#[1, 2, 3, 4]⟩⟩⟩).2 = .ok outputs ∧
        outputs.toList.map Value.arity = [.vec4] := by
  constructor
  · refine ((run_sound new (by rfl) (by rfl) ?_ ?_).1 _).2 ⟨_, by rfl, rfl⟩
    · rintro _ ⟨⟩
      decide
    · simp
  · refine (run_sound new (by rfl) (by rfl) ?_ ?_).2.2 (by rfl)
    · rintro _ ⟨⟩
      decide
    · rintro _ ⟨⟩
      decide

end Machine

end GraphicsPipeline
