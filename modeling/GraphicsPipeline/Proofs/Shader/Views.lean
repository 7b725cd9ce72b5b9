import GraphicsPipeline.Proofs.Shader.Equivariance
import GraphicsPipeline.Shader.Views

/-!
# The registers of an instruction

What `output?`, `sources` and `rename` take for registers are the registers that the check looks up
and that the execution reads and writes, no more and no fewer (`Instr.views_agree`).
-/

namespace GraphicsPipeline

/-! ### Names -/

namespace Instr

variable {f : Reg → Reg} {i j : Instr}

lemma alike_rename : (i.rename f).Alike i := by
  cases i <;> exact ⟨rfl, rfl, rfl, rfl, rfl⟩

lemma swizzles_eq {v w : Vec4 Swizzle}
    (hregs : (v.map Swizzle.reg).toList = (w.map Swizzle.reg).toList)
    (hchannels : (v.map Swizzle.channel).toList = (w.map Swizzle.channel).toList) : v = w := by
  obtain ⟨⟨_, _⟩, ⟨_, _⟩, ⟨_, _⟩, ⟨_, _⟩⟩ := v
  obtain ⟨⟨_, _⟩, ⟨_, _⟩, ⟨_, _⟩, ⟨_, _⟩⟩ := w
  simp_all [Vec4.map, Vec4.toList]

lemma bits_injective : Function.Injective Binary32.bits := fun ⟨_⟩ ⟨_⟩ h => congrArg _ h

lemma numbers_eq {v w : Vec4 Binary32}
    (h : (v.map Binary32.bits).toList = (w.map Binary32.bits).toList) : v = w := by
  obtain ⟨⟨_⟩, ⟨_⟩, ⟨_⟩, ⟨_⟩⟩ := v
  obtain ⟨⟨_⟩, ⟨_⟩, ⟨_⟩, ⟨_⟩⟩ := w
  simp_all [Vec4.map, Vec4.toList]

/-- Registers, slot, address, channels and literals are all that an instruction has. -/
lemma eq_of_alike (h : i.Alike j) (hout : i.output? = j.output?)
    (hsources : i.sources = j.sources) : i = j := by
  obtain ⟨hopcode, hslot, haddress, hchannels, hliterals⟩ := h
  cases i <;> cases j <;> simp only [opcode, reduceCtorEq] at hopcode
  -- registers and channels of a vector come apart in the views and have to be put together again
  case mov4.mov4 =>
    cases hout
    rw [swizzles_eq hsources hchannels]
  case fmulSwizzle.fmulSwizzle =>
    cases hout
    obtain ⟨rfl, hregs⟩ := List.cons.inj hsources
    rw [swizzles_eq hregs hchannels]
  case constVec2.constVec2 =>
    cases hout
    simp only [literals, List.cons.injEq, and_true] at hliterals
    rw [bits_injective hliterals.1, bits_injective hliterals.2]
  case constVec4.constVec4 =>
    cases hout
    rw [numbers_eq hliterals]
  all_goals simp_all [output?, sources, slot?, address?, channels, literals]

/-- Renaming is told by the registers that it names, and by all else being as it was. -/
lemma eq_rename_iff : j = i.rename f ↔
    j.Alike i ∧ j.output? = i.output?.map f ∧ j.sources = i.sources.map f := by
  constructor
  · rintro rfl
    exact ⟨alike_rename, output?_rename, sources_rename⟩
  · rintro ⟨halike, hout, hsources⟩
    have hrename : (i.rename f).Alike i := alike_rename
    refine eq_of_alike ⟨?_, ?_, ?_, ?_, ?_⟩ (by rw [hout, output?_rename])
      (by rw [hsources, sources_rename])
    · rw [halike.opcode, hrename.opcode]
    · rw [halike.slot?, hrename.slot?]
    · rw [halike.address?, hrename.address?]
    · rw [halike.channels, hrename.channels]
    · rw [halike.literals, hrename.literals]

end Instr

/-! ### Checks -/

namespace Scope

variable {s s' : Scope} {i : Instr} {signature : Signature} {a b : Reg}

lemma arity_congr (h : s.arities a = s'.arities a) : s.arity a = s'.arity a := by
  unfold arity get
  unfold arities at h
  cases hs : s.get? a <;> cases hs' : s'.get? a <;> simp_all

lemma exactly_congr (h : s.arities a = s'.arities a) : s.exactly a = s'.exactly a := by
  funext expected
  simp only [exactly, arity_congr h]

lemma floats_congr (ha : s.arities a = s'.arities a) (hb : s.arities b = s'.arities b) :
    s.floats a b = s'.floats a b := by
  simp only [floats, float, arity_congr ha, arity_congr hb]

lemma channel_congr {p : Swizzle} (h : s.arities p.reg = s'.arities p.reg) :
    s.channel p = s'.channel p := by
  simp only [channel, arity_congr h]

lemma channels_congr {parts : Vec4 Swizzle}
    (h : ∀ r ∈ (parts.map Swizzle.reg).toList, s.arities r = s'.arities r) :
    s.channels parts = s'.channels parts := by
  have hchannels : parts.mapM s.channel = parts.mapM s'.channel :=
    Vec4.mapM_congr fun p hp => channel_congr <| h _ (by
      rw [Vec4.mem_toList] at hp ⊢
      rcases hp with rfl | rfl | rfl | rfl <;> simp [Vec4.map])
  simp only [channels, hchannels]

/-- The rules for operands look up the sources, and nothing else. -/
lemma operands_congr (h : ∀ r ∈ i.sources, s.arities r = s'.arities r) :
    s.operands signature i = s'.operands signature i := by
  cases i with
  | mov4 out parts => simp only [operands, channels_congr h]
  | fmulSwizzle out a parts =>
    rw [Instr.sources, List.forall_mem_cons] at h
    simp only [operands, exactly_congr h.1, channels_congr h.2]
  | fmul out a b | fadd out a b =>
    have ha := h a (by simp [Instr.sources])
    have hb := h b (by simp [Instr.sources])
    simp only [operands, floats_congr ha hb]
  | iadd out a b =>
    simp only [operands, exactly_congr (h a (by simp [Instr.sources])),
      exactly_congr (h b (by simp [Instr.sources]))]
  | extract out a c =>
    simp only [operands, channel_congr (p := ⟨a, c⟩) (h a (by simp [Instr.sources]))]
  | sin out a | store a slot | sample out a =>
    simp only [operands, exactly_congr (h a (by simp [Instr.sources]))]
  | copy out a => simp only [operands, arity_congr (h a (by simp [Instr.sources]))]
  | input | output | uniform | constInt | constVec2 | constVec4 => rfl

/-- The check of an instruction ends alike, with the arity or with the error. -/
lemma SeesAs.infer_eq (h : s.SeesAs s' i) : s.infer signature i = s'.infer signature i := by
  have hoperands : s.operands signature i = s'.operands signature i := operands_congr h.sources
  unfold infer
  cases hout : i.output? with
  | none => exact hoperands
  | some out => simp only [h.output out hout, hoperands]

/-- Every source has to be defined. -/
lemma infer_of_get?_eq_none {r : Reg} (hr : r ∈ i.sources) (h : s.get? r = none) :
    ∃ e, s.infer signature i = .error e := by
  cases hinfer : s.infer signature i with
  | error e => exact ⟨e, rfl⟩
  | ok inferred =>
    have hsome := (infer_eq_ok_iff.1 hinfer).1.isSome_of_mem_sources hr
    simp [arities, h] at hsome

end Scope

/-! ### Execution -/

namespace Machine

variable {m m' : Machine} {i : Instr} {inputs : Array Value} {b : Bindings} {r : Reg}

/-- An instruction has one effect in both machines. -/
lemma SeesAs.effect_eq (h : m.SeesAs m' i) :
    (m.surroundings inputs b).effect i = (m'.surroundings inputs b).effect i := by
  have agrees : (m.surroundings inputs b).Agrees (m'.surroundings inputs b) id i.sources :=
    { register := fun r hr => by simp only [surroundings, id_eq, h.sources r hr]
      input := rfl
      output := by simp only [surroundings, h.outputs]
      bindings := rfl }
  have heffect := agrees.effect_rename
  rw [i.rename_id] at heffect
  rw [heffect]
  cases hm : (m.surroundings inputs b).effect i with
  | error e => rfl
  | ok effect => cases effect <;> rfl

/-- The output takes the same value in both, or finds no room in either. -/
lemma SeesAs.execute_eq (h : m.SeesAs m' i) :
    (execute inputs b i m).2 = (execute inputs b i m').2 ∧
      (execute inputs b i m).1.outputs = (execute inputs b i m').1.outputs ∧
      ((execute inputs b i m).2 = .ok () → ∀ r, i.output? = some r →
        (execute inputs b i m).1.regs[r.toNat]? = (execute inputs b i m').1.regs[r.toNat]?) := by
  unfold execute
  rw [h.effect_eq]
  cases heffect : (m'.surroundings inputs b).effect i with
  | error fault => simp [h.outputs]
  | ok effect =>
    rcases Surroundings.place_of_effect heffect with
      ⟨out, v, rfl, hout⟩ | ⟨a, slot, v, rfl, rfl⟩
    · have hroom := h.output out hout
      -- both machines have room for the register, or both abort
      by_cases hm : out.toNat < m.regs.size
      · have hm' := hroom.1 hm
        simp [perform, hm, hm', hout, h.outputs]
      · have hm' := mt hroom.2 hm
        simp [perform, hm, hm', h.outputs]
    · by_cases hslot : slot.toNat < m'.outputs.size <;>
        simp [perform, h.outputs, hslot, Instr.output?]

/-- Whether the instruction succeeds or fails, no other register is touched. -/
lemma regs_execute_of_ne (h : i.output? ≠ some r) :
    (execute inputs b i m).1.regs[r.toNat]? = m.regs[r.toNat]? := by
  unfold execute
  cases heffect : (m.surroundings inputs b).effect i with
  | error fault => rfl
  | ok effect =>
    rcases Surroundings.place_of_effect heffect with
      ⟨out, v, rfl, hout⟩ | ⟨a, slot, v, rfl, rfl⟩
    · have hne : out.toNat ≠ r.toNat := by
        rw [Ne, UInt32.toNat_inj]
        rintro rfl
        exact h hout
      simp only [perform]
      split_ifs
      · exact Array.getElem?_setIfInBounds_ne hne
      · rfl
    · simp only [perform]
      split_ifs <;> rfl

end Machine

/-- The views of an instruction agree on its registers. Renaming changes the registers that
`output?` and `sources` name and nothing besides; the check depends on what is known of these
registers, and fails unless every source is defined; the execution reads the sources and writes the
output, and leaves every other register alone. -/
theorem Instr.views_agree (i : Instr) :
    (∀ f j, j = i.rename f ↔
      j.Alike i ∧ j.output? = i.output?.map f ∧ j.sources = i.sources.map f) ∧
    (∀ signature (s s' : Scope), s.SeesAs s' i → s.infer signature i = s'.infer signature i) ∧
    (∀ signature (s : Scope), ∀ r ∈ i.sources, s.get? r = none →
      ∃ e, s.infer signature i = .error e) ∧
    (∀ inputs b (m m' : Machine), m.SeesAs m' i →
      (Machine.execute inputs b i m).2 = (Machine.execute inputs b i m').2 ∧
      (Machine.execute inputs b i m).1.outputs = (Machine.execute inputs b i m').1.outputs ∧
      ((Machine.execute inputs b i m).2 = .ok () → ∀ r, i.output? = some r →
        (Machine.execute inputs b i m).1.regs[r.toNat]? =
          (Machine.execute inputs b i m').1.regs[r.toNat]?)) ∧
    (∀ inputs b (m : Machine) r, i.output? ≠ some r →
      (Machine.execute inputs b i m).1.regs[r.toNat]? = m.regs[r.toNat]?) :=
  ⟨fun _ _ => eq_rename_iff, fun _ _ _ h => h.infer_eq,
    fun _ _ _ hr h => Scope.infer_of_get?_eq_none hr h, fun _ _ _ _ h => h.execute_eq,
    fun _ _ _ _ h => Machine.regs_execute_of_ne h⟩

/-- Machines with the same two factors, one of them with a further register: the product takes the
place of different values. -/
theorem Instr.views_agree_product :
    (Machine.execute #[] {} (.fmul 2 0 1) ⟨#[.scalar .one, .scalar .one, .int 7], #[]⟩).1.regs[2]? =
      (Machine.execute #[] {} (.fmul 2 0 1)
        ⟨#[.scalar .one, .scalar .one, .int 8, .int 9], #[]⟩).1.regs[2]? := by
  refine ((views_agree (.fmul 2 0 1)).2.2.2.1 #[] {} _ _ ⟨?_, ?_, rfl⟩).2.2 (by rfl) 2 (by rfl)
  · rintro _ ⟨⟩
    decide
  · simp [sources]

end GraphicsPipeline
