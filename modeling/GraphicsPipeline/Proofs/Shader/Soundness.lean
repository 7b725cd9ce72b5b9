import GraphicsPipeline.Proofs.Image.Texture
import GraphicsPipeline.Proofs.Shader.Typing
import GraphicsPipeline.Proofs.Shader.Value
import GraphicsPipeline.Shader.Semantics

/-!
# Soundness of instructions

An instruction whose operands have the arities that it asks for does not fail but for what the
bindings lack, and its effect has the arity that was found for it. What the bindings lack depends on
the instruction alone, not on any value.
-/

namespace GraphicsPipeline

/-! ### What bindings lack -/

namespace Bindings

variable {b : Bindings} {group index : UInt32}

/-- The error of an instruction that reads what the bindings lack. -/
def refusal? (b : Bindings) : Instr → Option Error
  | .uniform _ group index =>
    match b.uniform group index with
    | .ok _ => none
    | .error e => some e
  | .sample .. => if b.sampler.isNone then some .missingSampler else none
  | _ => none

/-- The error of an instruction that reads what the bindings lack, where places in the buffer are
counted without bound. -/
def lacking? (b : Bindings) : Instr → Option Error
  | .uniform _ group index =>
    match b.uniforms with
    | none => some .missingUniformBuffer
    | some buffer =>
      if (group.toNat * 16 + index.toNat) * 16 + 16 ≤ buffer.size then none
      else some (.uniformOutOfBounds group index)
  | .sample .. => if b.sampler.isNone then some .missingSampler else none
  | _ => none

lemma lacking?_eq_some {i : Instr} {e : Error} (h : b.lacking? i = some e) :
    e = .missingUniformBuffer ∨ e = .missingSampler ∨
      ∃ group index, e = .uniformOutOfBounds group index := by
  cases i <;> simp only [lacking?, reduceCtorEq] at h
  case uniform out group index =>
    split at h
    · cases h
      exact .inl rfl
    · split at h <;> cases h
      exact .inr (.inr ⟨group, index, rfl⟩)
  case sample =>
    split at h <;> cases h
    exact .inr (.inl rfl)

lemma uniformPlace?_eq_some {place : UInt32} :
    uniformPlace? group index = some place ↔ place.toNat = group.toNat * 16 + index.toNat := by
  simp only [uniformPlace?, Option.bind_eq_bind, Option.bind_eq_some_iff, Checked.mul32?_eq_some,
    Checked.add32?_eq_some]
  constructor
  · rintro ⟨start, hstart, hplace⟩
    rw [hplace, hstart]
    rfl
  · intro h
    have hlt := place.toNat_lt_size
    have hstart : group.toNat * 16 < UInt32.size := by omega
    refine ⟨UInt32.ofNat (group.toNat * 16), ?_, ?_⟩ <;>
      rw [UInt32.toNat_ofNat_of_lt' hstart]
    · rfl
    · exact h

lemma uniformPlace?_eq_none (h : uniformPlace? group index = none) :
    UInt32.size ≤ group.toNat * 16 + index.toNat := by
  by_contra hlt
  have hplace : uniformPlace? group index =
      some (UInt32.ofNat (group.toNat * 16 + index.toNat)) :=
    uniformPlace?_eq_some.2 (UInt32.toNat_ofNat_of_lt' (not_le.1 hlt))
  simp [h] at hplace

/-- A buffer of at most `2 ^ 36` bytes ends before the places that no word can count. -/
theorem refusal?_eq_lacking? (h : ∀ buffer, b.uniforms = some buffer → buffer.size ≤ 2 ^ 36) :
    b.refusal? = b.lacking? := by
  funext i
  cases i with
  | uniform out group index =>
    simp only [refusal?, lacking?, uniform]
    cases hb : b.uniforms with
    | none => rfl
    | some buffer =>
      have hsize := h buffer hb
      -- an address that is no word lies behind every buffer that `h` allows
      cases hplace : uniformPlace? group index with
      | none =>
        have hlarge := uniformPlace?_eq_none hplace
        simp only [UInt32.size] at hlarge
        simp only [Option.bind_none]
        rw [if_neg (by omega)]
      | some place =>
        rw [uniformPlace?_eq_some] at hplace
        simp only [Option.bind_some, ← hplace]
        split_ifs with hin
        · obtain ⟨ws, hws, hlength⟩ :=
            Storage.exists_words? buffer (place.toNat * 16) (show _ + 4 * 4 ≤ _ by omega)
          obtain ⟨x, y, z, w, rfl⟩ := List.length_eq_four.1 hlength
          simp [hws]
        · have hws := Storage.words?_eq_none buffer (place.toNat * 16)
            (show _ < _ + 4 * (3 + 1) by omega)
          simp [hws]
  | _ => rfl

end Bindings

/-! ### Effects -/

/-- Registers and slots hold values of the given arities, and a texture has all its bytes. -/
structure Surroundings.Fits (s : Surroundings) (signature : Signature)
    (arities : RegisterArities) : Prop where
  register : ∀ r a, arities r = some a → ∃ v, s.register r = .ok v ∧ v.arity = a
  input : ∀ (slot : UInt32) a, signature.inputs[slot.toNat]? = some a →
    ∃ v, s.input slot = .ok v ∧ v.arity = a
  output : ∀ (slot : UInt32) a, signature.outputs[slot.toNat]? = some a →
    ∃ v, s.output slot = .ok v ∧ v.arity = a
  sampler : ∀ t, s.bindings.sampler = some t → t.WellSized

/-- The effect of an instruction defines its register, by a value of the arity found for it, or
writes to a slot, of the arity declared for it. -/
inductive Effect.Fits (signature : Signature) (i : Instr) (inferred : Option Arity) : Effect → Prop
  | define {out : Reg} {v : Value} (register : i.output? = some out)
    (arity : inferred = some v.arity) : Fits signature i inferred (.define out v)
  | store {a : Reg} {slot : UInt32} {v : Value} (instr : i = .store a slot)
    (declared : signature.outputs[slot.toNat]? = some v.arity) :
    Fits signature i inferred (.store slot v)

/-- The effect of an instruction is on its own register, or on its own slot. -/
lemma Surroundings.place_of_effect {s : Surroundings} {i : Instr} {effect : Effect}
    (h : s.effect i = .ok effect) :
    (∃ out v, effect = .define out v ∧ i.output? = some out) ∨
      ∃ a slot v, effect = .store slot v ∧ i = .store a slot := by
  cases i <;> simp only [Surroundings.effect, bind_eq_ok, pure_eq_ok] at h
  case sin | sample =>
    obtain ⟨v, -, h⟩ := h
    split at h
    · simp only [bind_eq_ok, pure_eq_ok] at h
      grind [Instr.output?]
    · simp at h
  case iadd =>
    obtain ⟨x, -, y, -, h⟩ := h
    split at h <;> simp at h
    grind [Instr.output?]
  all_goals grind [Instr.output?]

namespace Surroundings.Fits

variable {s : Surroundings} {signature : Signature} {arities : RegisterArities} {i : Instr}
  {inferred : Option Arity}

lemma exists_channel (fits : s.Fits signature arities) {p : Swizzle} (h : HasChannel arities p) :
    ∃ x, s.channel p = .ok x := by
  obtain ⟨a, ha, hvector, hlt⟩ := h
  obtain ⟨v, hv, rfl⟩ := fits.register _ _ ha
  obtain ⟨x, hx⟩ := Value.exists_channel hvector hlt
  exact ⟨x, by simp [channel, hv, hx]⟩

lemma exists_channels (fits : s.Fits signature arities) {parts : Vec4 Swizzle}
    (h : ∀ p ∈ parts.toList, HasChannel arities p) : ∃ v, parts.mapM s.channel = .ok v := by
  obtain ⟨x, hx⟩ := fits.exists_channel (h parts.x (by simp))
  obtain ⟨y, hy⟩ := fits.exists_channel (h parts.y (by simp))
  obtain ⟨z, hz⟩ := fits.exists_channel (h parts.z (by simp))
  obtain ⟨w, hw⟩ := fits.exists_channel (h parts.w (by simp))
  exact ⟨⟨x, y, z, w⟩, by simp [Vec4.mapM_eq_ok, hx, hy, hz, hw]⟩

lemma exists_zipWith (fits : s.Fits signature arities) (f : Binary32 → Binary32 → Binary32)
    {a b : Reg} {arity : Arity} (ha : arities a = some arity) (hb : arities b = some arity)
    (hf : arity.isFloat) : ∃ v, s.zipWith f a b = .ok v ∧ v.arity = arity := by
  obtain ⟨x, hx, hxa⟩ := fits.register _ _ ha
  obtain ⟨y, hy, rfl⟩ := fits.register _ _ hb
  obtain ⟨v, hv, hva⟩ := Value.exists_zipWith (f := f) hxa hf
  exact ⟨v, by simp [zipWith, hx, hy, hv], hva⟩

/-- An instruction that lacks nothing has an effect of its arity. -/
theorem effect_eq_ok (fits : s.Fits signature arities) (h : HasArity signature arities i inferred)
    (hb : s.bindings.refusal? i = none) :
    ∃ effect, s.effect i = .ok effect ∧ effect.Fits signature i inferred := by
  cases h with
  | mov4 channels =>
    obtain ⟨v, hv⟩ := fits.exists_channels channels
    exact ⟨.define _ (.vec4 v), by simp [effect, hv], .define rfl rfl⟩
  | sin scalar =>
    obtain ⟨v, hv, hva⟩ := fits.register _ _ scalar
    cases v <;> cases hva
    exact ⟨.define _ (.scalar _), by simp [effect, hv]; rfl, .define rfl rfl⟩
  | fmul left right float =>
    obtain ⟨v, hv, rfl⟩ := fits.exists_zipWith (· * ·) left right float
    exact ⟨.define _ v, by simp [effect, hv], .define rfl rfl⟩
  | fadd left right float =>
    obtain ⟨v, hv, rfl⟩ := fits.exists_zipWith (· + ·) left right float
    exact ⟨.define _ v, by simp [effect, hv], .define rfl rfl⟩
  | fmulSwizzle left channels =>
    obtain ⟨right, hright⟩ := fits.exists_channels channels
    obtain ⟨v, hv, hva⟩ := fits.register _ _ left
    cases v <;> cases hva
    exact ⟨.define _ (.vec4 _), by simp [effect, hright, hv, Value.zipWith]; rfl, .define rfl rfl⟩
  | iadd left right =>
    obtain ⟨x, hx, hxa⟩ := fits.register _ _ left
    obtain ⟨y, hy, hya⟩ := fits.register _ _ right
    cases x <;> cases hxa
    cases y <;> cases hya
    exact ⟨.define _ (.int _), by simp [effect, hx, hy]; rfl, .define rfl rfl⟩
  | extract channel =>
    obtain ⟨x, hx⟩ := fits.exists_channel channel
    exact ⟨.define _ (.scalar x), by simp [effect, hx], .define rfl rfl⟩
  | input declared =>
    obtain ⟨v, hv, rfl⟩ := fits.input _ _ declared
    exact ⟨.define _ v, by simp [effect, hv], .define rfl rfl⟩
  | output declared =>
    obtain ⟨v, hv, rfl⟩ := fits.output _ _ declared
    exact ⟨.define _ v, by simp [effect, hv], .define rfl rfl⟩
  | @uniform _ group index =>
    cases hu : s.bindings.uniform group index with
    | error e => simp [Bindings.refusal?, hu] at hb
    | ok v => exact ⟨.define _ (.vec4 v), by simp [effect, hu], .define rfl rfl⟩
  | @constInt _ n => exact ⟨.define _ (.int n), rfl, .define rfl rfl⟩
  | @constVec2 _ x y => exact ⟨.define _ (.vec2 x y), rfl, .define rfl rfl⟩
  | @constVec4 _ v => exact ⟨.define _ (.vec4 v), rfl, .define rfl rfl⟩
  | copy source =>
    obtain ⟨v, hv, rfl⟩ := fits.register _ _ source
    exact ⟨.define _ v, by simp [effect, hv], .define rfl rfl⟩
  | store declared source =>
    obtain ⟨v, hv, rfl⟩ := fits.register _ _ source
    exact ⟨.store _ v, by simp [effect, hv], .store rfl declared⟩
  | sample coordinates =>
    obtain ⟨v, hv, hva⟩ := fits.register _ _ coordinates
    cases v with
    | vec2 x y =>
      cases ht : s.bindings.sampler with
      | none => simp [Bindings.refusal?, ht] at hb
      | some t =>
        obtain ⟨c, hc⟩ := (fits.sampler t ht).exists_sample x y
        exact ⟨.define _ (.vec4 c), by simp [effect, hv, Bindings.sample, ht, hc], .define rfl rfl⟩
    | _ => cases hva

/-- An instruction that lacks something refuses, with the error for what it lacks. -/
theorem effect_eq_error (fits : s.Fits signature arities)
    (h : HasArity signature arities i inferred) {e : Error}
    (hb : s.bindings.refusal? i = some e) : s.effect i = .error (.refused e) := by
  cases h with
  | @uniform _ group index =>
    cases hu : s.bindings.uniform group index with
    | error e' => simp_all [Bindings.refusal?, effect]
    | ok v => simp [Bindings.refusal?, hu] at hb
  | sample coordinates =>
    obtain ⟨v, hv, hva⟩ := fits.register _ _ coordinates
    cases v <;> cases hva
    cases ht : s.bindings.sampler with
    | none => simp_all [Bindings.refusal?, effect, Bindings.sample]
    | some t => simp [Bindings.refusal?, ht] at hb
  | _ => simp [Bindings.refusal?] at hb

end Surroundings.Fits

end GraphicsPipeline
