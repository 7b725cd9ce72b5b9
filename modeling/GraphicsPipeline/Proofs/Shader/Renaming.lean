import GraphicsPipeline.Proofs.Shader.Running
import GraphicsPipeline.Shader.Evaluation

/-!
# Renaming of registers

What an instruction does commutes with a renaming of its registers. The dense numbers that lowering
gives to registers keep them apart, as long as words can count the registers.
-/

namespace GraphicsPipeline

/-! ### Effects -/

/-- The effect with its register renamed. -/
def Effect.rename (f : Reg → Reg) : Effect → Effect
  | define out v => define (f out) v
  | store slot v => store slot v

namespace Instr

variable {f : Reg → Reg} {i : Instr}

@[simp] lemma output?_rename : (i.rename f).output? = i.output?.map f := by
  cases i <;> rfl

end Instr

/-- The same is read in both, a register of the one under its new name in the other. -/
structure Surroundings.Agrees (s s' : Surroundings) (f : Reg → Reg) (rs : List Reg) : Prop where
  register : ∀ r ∈ rs, s'.register (f r) = s.register r
  input : s'.input = s.input
  output : s'.output = s.output
  bindings : s'.bindings = s.bindings

namespace Surroundings.Agrees

variable {s s' : Surroundings} {f : Reg → Reg}

lemma channels {parts : Vec4 Swizzle} {rs : List Reg} (h : s.Agrees s' f rs)
    (hrs : ∀ r ∈ (parts.map Swizzle.reg).toList, r ∈ rs) :
    (parts.map fun p => (⟨f p.reg, p.channel⟩ : Swizzle)).mapM s'.channel =
      parts.mapM s.channel := by
  have hchannel : ∀ p ∈ parts.toList, s'.channel ⟨f p.reg, p.channel⟩ = s.channel p := by
    intro p hp
    have hr : p.reg ∈ rs := hrs _ (by
      rw [Vec4.mem_toList] at hp ⊢
      rcases hp with rfl | rfl | rfl | rfl <;> simp [Vec4.map])
    simp only [channel, h.register _ hr]
  exact Vec4.mapM_congr (f := fun p : Swizzle => s'.channel ⟨f p.reg, p.channel⟩) hchannel

lemma zipWith {g : Binary32 → Binary32 → Binary32} {a b : Reg} (h : s.Agrees s' f [a, b]) :
    s'.zipWith g (f a) (f b) = s.zipWith g a b := by
  simp only [Surroundings.zipWith, h.register a (by simp), h.register b (by simp)]

/-- The effect of a renamed instruction is the renamed effect. -/
theorem effect_rename {i : Instr} (h : s.Agrees s' f i.sources) :
    s'.effect (i.rename f) = Effect.rename f <$> s.effect i := by
  -- every operand is read through the surroundings, which agree on it; what is computed is the same
  cases i with
  | mov4 out parts =>
    simp only [Instr.rename, effect, h.channels fun _ hr => hr]
    cases parts.mapM s.channel <;> rfl
  | fmulSwizzle out a parts =>
    simp only [Instr.rename, effect, h.channels fun _ hr => List.mem_cons_of_mem a hr,
      h.register a (by simp [Instr.sources])]
    cases parts.mapM s.channel with
    | error e => rfl
    | ok right =>
      cases s.register a with
      | error e => rfl
      | ok left => cases hleft : left.zipWith (· * ·) (.vec4 right) <;> simp [hleft, Effect.rename]
  | fmul out a b =>
    simp only [Instr.rename, effect, h.zipWith]
    cases s.zipWith (· * ·) a b <;> rfl
  | fadd out a b =>
    simp only [Instr.rename, effect, h.zipWith]
    cases s.zipWith (· + ·) a b <;> rfl
  | iadd out a b =>
    simp only [Instr.rename, effect, h.register a (by simp [Instr.sources]),
      h.register b (by simp [Instr.sources])]
    cases s.register a with
    | error e => rfl
    | ok x =>
      cases s.register b with
      | error e => rfl
      | ok y => cases x <;> cases y <;> rfl
  | extract out a c =>
    simp only [Instr.rename, effect, channel, h.register a (by simp [Instr.sources])]
    cases s.register a with
    | error e => rfl
    | ok v => cases hv : v.channel c <;> simp [hv, Effect.rename]
  | sin out a =>
    simp only [Instr.rename, effect, h.register a (by simp [Instr.sources])]
    cases s.register a with
    | error e => rfl
    | ok v => cases v <;> rfl
  | sample out uv =>
    simp only [Instr.rename, effect, h.register uv (by simp [Instr.sources]), h.bindings]
    cases s.register uv with
    | error e => rfl
    | ok v =>
      cases v with
      | vec2 x y => cases hxy : s.bindings.sample x y <;> simp [hxy, Effect.rename]
      | _ => rfl
  | copy out a | store a slot =>
    simp only [Instr.rename, effect, h.register a (by simp [Instr.sources])]
    cases s.register a <;> rfl
  | input out slot =>
    simp only [Instr.rename, effect, h.input]
    cases s.input slot <;> rfl
  | output out slot =>
    simp only [Instr.rename, effect, h.output]
    cases s.output slot <;> rfl
  | uniform out group index =>
    simp only [Instr.rename, effect, h.bindings]
    cases s.bindings.uniform group index <;> rfl
  | constInt out n | constVec2 out x y | constVec4 out v => rfl

end Surroundings.Agrees

/-! ### Dense numbers -/

/-- The new names keep the registers of a list apart and lie below a bound. -/
structure Numbers (f : Reg → Reg) (rs : List Reg) (count : Nat) : Prop where
  injective : ∀ r ∈ rs, ∀ r' ∈ rs, f r = f r' → r = r'
  bounded : ∀ r ∈ rs, (f r).toNat < count

/-- Registers numbered in the order of their definition are numbered from zero without a gap. -/
lemma numbers_denseNumber {instrs : List Instr}
    (h : (definedRegs instrs).length ≤ UInt32.size) :
    Numbers (denseNumber instrs) (definedRegs instrs) (definedRegs instrs).length := by
  have hnumber : ∀ r ∈ definedRegs instrs,
      (denseNumber instrs r).toNat = (definedRegs instrs).idxOf r := fun r hr =>
    UInt32.toNat_ofNat_of_lt' ((List.idxOf_lt_length_of_mem hr).trans_le h)
  constructor
  · intro r hr r' hr' heq
    have hidx := congrArg UInt32.toNat heq
    rw [hnumber r hr, hnumber r' hr'] at hidx
    exact (List.idxOf_inj hr).1 hidx
  · intro r hr
    rw [hnumber r hr]
    exact List.idxOf_lt_length_of_mem hr

end GraphicsPipeline
