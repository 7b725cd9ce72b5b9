import GraphicsPipeline.Proofs.Outcome
import GraphicsPipeline.Shader.WellFormed

/-!
# Typing of instructions

`Scope.operands` finds the arity of what an instruction computes; `HasArity` says which arity that
is. The two agree (`operands_eq_ok_iff`), so that the check of a list of instructions can be taken
apart one instruction at a time (`defineAll_cons_eq_ok`) without looking at the rules again. Further
slots, other registers and new names leave the arity as it is (`HasArity.transfer`).
-/

namespace GraphicsPipeline

/-! ### Slots -/

namespace Signature

variable {signature : Signature} {slot : UInt32} {a : Arity}

lemma input_eq_ok : signature.input slot = .ok a ↔ signature.inputs[slot.toNat]? = some a := by
  unfold Signature.input
  split <;> simp_all

lemma output_eq_ok : signature.output slot = .ok a ↔ signature.outputs[slot.toNat]? = some a := by
  unfold Signature.output
  split <;> simp_all

end Signature

namespace Scope

/-- The arities of the registers in scope. -/
def arities (s : Scope) : RegisterArities := fun r => (s.get? r).map RegisterInfo.arity

variable {s s' : Scope} {signature : Signature} {r a b : Reg} {t : Arity} {i : Instr} {k : Nat}

@[simp] lemma arities_empty : Scope.empty.arities r = none := rfl

/-! ### Rules for operands -/

lemma arity_eq_ok : s.arity r = .ok t ↔ s.arities r = some t := by
  unfold arity get arities
  cases s.get? r <;> simp

lemma float_eq_ok : s.float r = .ok t ↔ s.arities r = some t ∧ t.isFloat := by
  simp only [float, bind_eq_ok, arity_eq_ok]
  constructor
  · rintro ⟨a, ha, h⟩
    split at h <;> simp_all
  · rintro ⟨ha, ht⟩
    exact ⟨t, ha, by simp [ht]⟩

lemma exactly_eq_ok {u : Unit} : s.exactly r t = .ok u ↔ s.arities r = some t := by
  simp only [exactly, bind_eq_ok, arity_eq_ok]
  constructor
  · rintro ⟨a, ha, h⟩
    split at h <;> simp_all
  · intro h
    exact ⟨t, h, by simp⟩

lemma channel_eq_ok {p : Swizzle} {u : Unit} : s.channel p = .ok u ↔ HasChannel s.arities p := by
  simp only [channel, bind_eq_ok, arity_eq_ok, HasChannel]
  refine exists_congr fun a => and_congr_right fun _ => ?_
  split <;> simp_all

lemma channels_eq_ok {parts : Vec4 Swizzle} {u : Unit} :
    s.channels parts = .ok u ↔ ∀ p ∈ parts.toList, HasChannel s.arities p := by
  simp only [channels, bind_eq_ok, pure_eq_ok, Vec4.mapM_eq_ok, channel_eq_ok]
  simp [Vec4.toList]

lemma floats_eq_ok :
    s.floats a b = .ok t ↔ s.arities a = some t ∧ s.arities b = some t ∧ t.isFloat := by
  simp only [floats, bind_eq_ok, float_eq_ok]
  constructor
  · rintro ⟨t₁, ⟨ha, hf⟩, t₂, ⟨hb, -⟩, h⟩
    split at h <;> simp_all
  · rintro ⟨ha, hb, hf⟩
    exact ⟨t, ⟨ha, hf⟩, t, ⟨hb, hf⟩, by simp⟩

/-- An instruction follows its rules exactly where it has an arity. -/
theorem operands_eq_ok_iff {inferred : Option Arity} :
    s.operands signature i = .ok inferred ↔ HasArity signature s.arities i inferred := by
  constructor
  · intro h
    cases i <;>
      simp only [operands, bind_eq_ok, pure_eq_ok, exactly_eq_ok, channels_eq_ok, channel_eq_ok,
        floats_eq_ok, arity_eq_ok, Signature.input_eq_ok, Signature.output_eq_ok] at h
    case mov4 => obtain ⟨-, hc, rfl⟩ := h; exact .mov4 hc
    case sin => obtain ⟨-, ha, rfl⟩ := h; exact .sin ha
    case fmul => obtain ⟨t, ⟨ha, hb, hf⟩, rfl⟩ := h; exact .fmul ha hb hf
    case fmulSwizzle => obtain ⟨-, ha, -, hc, rfl⟩ := h; exact .fmulSwizzle ha hc
    case fadd => obtain ⟨t, ⟨ha, hb, hf⟩, rfl⟩ := h; exact .fadd ha hb hf
    case iadd => obtain ⟨-, ha, -, hb, rfl⟩ := h; exact .iadd ha hb
    case extract => obtain ⟨-, hc, rfl⟩ := h; exact .extract hc
    case input => obtain ⟨t, ht, rfl⟩ := h; exact .input ht
    case output => obtain ⟨t, ht, rfl⟩ := h; exact .output ht
    case uniform =>
      split at h
      · simp only [pure_eq_ok] at h
        subst h
        exact .uniform ‹_›
      · simp at h
    case constInt => subst h; exact .constInt
    case constVec2 => subst h; exact .constVec2
    case constVec4 => subst h; exact .constVec4
    case copy => obtain ⟨t, ht, rfl⟩ := h; exact .copy ht
    case store => obtain ⟨t, ht, -, ha, rfl⟩ := h; exact .store ht ha
    case sample => obtain ⟨-, ha, rfl⟩ := h; exact .sample ha
  · intro h
    cases h <;>
      simp_all [operands, exactly_eq_ok, channels_eq_ok, channel_eq_ok, floats_eq_ok, arity_eq_ok,
        Signature.input_eq_ok, Signature.output_eq_ok]

/-! ### Definitions in order -/

/-- The scope with the register of an instruction that stands at a position. -/
def extend (s : Scope) (k : Nat) (i : Instr) (inferred : Option Arity) : Scope :=
  match i.output?, inferred with
  | some out, some arity => ⟨(out, ⟨arity, k⟩) :: s.entries⟩
  | _, _ => s

lemma arities_extend {out : Reg} (h : i.output? = some out) :
    (s.extend k i (some t)).arities r = if r = out then some t else s.arities r := by
  simp only [extend, h, arities, get?, List.lookup_cons]
  split_ifs with hr
  · simp [hr]
  · simp [beq_false_of_ne hr]

lemma extend_of_output?_eq_none (h : i.output? = none) {inferred : Option Arity} :
    s.extend k i inferred = s := by
  simp [extend, h]

/-- A register in scope was in scope before, or is the one that was defined. -/
lemma isSome_arities_extend {inferred : Option Arity}
    (h : ((s.extend k i inferred).arities r).isSome) :
    i.output? = some r ∨ (s.arities r).isSome := by
  cases hi : i.output? with
  | none => exact .inr (by rwa [extend_of_output?_eq_none hi] at h)
  | some out =>
    cases inferred with
    | none => exact .inr (by simpa [extend, hi] using h)
    | some t =>
      rw [arities_extend hi] at h
      split_ifs at h with hr
      · exact .inl (by rw [hr])
      · exact .inr h

/-- The register that an instruction defines must be new. -/
lemma infer_eq_ok_iff {inferred : Option Arity} :
    s.infer signature i = .ok inferred ↔
      HasArity signature s.arities i inferred ∧
        ∀ out, i.output? = some out → s.get? out = none := by
  unfold infer
  cases i.output? with
  | none => simp [operands_eq_ok_iff]
  | some out =>
    cases hs : s.get? out with
    | none => simp [hs, operands_eq_ok_iff]
    | some info => simp [hs]

/-- An instruction is checked, and then its register is in scope. -/
lemma define_eq : s.define signature k i =
    (s.infer signature i >>= fun inferred => .ok (s.extend k i inferred, inferred)) := by
  unfold define extend
  congr 1
  funext inferred
  cases i.output? <;> cases inferred <;> rfl

lemma define_eq_ok {inferred : Option Arity} :
    s.define signature k i = .ok (s', inferred) ↔
      s.infer signature i = .ok inferred ∧ s.extend k i inferred = s' := by
  simp only [define_eq, bind_eq_ok, Except.ok.injEq, Prod.mk.injEq]
  constructor
  · rintro ⟨_, h, hs, rfl⟩
    exact ⟨h, hs⟩
  · rintro ⟨h, hs⟩
    exact ⟨inferred, h, hs, rfl⟩

/-- A list of instructions is accepted where the first one is, and the others are after it. -/
lemma defineAll_cons_eq_ok {rest : List Instr} :
    s.defineAll signature k (i :: rest) = .ok s' ↔
      ∃ inferred, HasArity signature s.arities i inferred ∧
        (∀ out, i.output? = some out → s.get? out = none) ∧
          (s.extend k i inferred).defineAll signature (k + 1) rest = .ok s' := by
  simp only [defineAll, bind_eq_ok, Prod.exists, define_eq_ok, infer_eq_ok_iff]
  constructor
  · rintro ⟨_, inferred, ⟨⟨h, hnew⟩, rfl⟩, hrest⟩
    exact ⟨inferred, h, hnew, hrest⟩
  · rintro ⟨inferred, h, hnew, hrest⟩
    exact ⟨_, inferred, ⟨⟨h, hnew⟩, rfl⟩, hrest⟩

end Scope

/-! ### Outputs and arities -/

lemma mem_definedRegs_cons {i : Instr} {instrs : List Instr} {r : Reg} :
    r ∈ definedRegs (i :: instrs) ↔ i.output? = some r ∨ r ∈ definedRegs instrs := by
  simp [definedRegs, List.mem_filterMap]

/-- What defines a register has an arity, and a store has none. -/
lemma HasArity.isSome_eq {signature : Signature} {arities : RegisterArities} {i : Instr}
    {inferred : Option Arity} (h : HasArity signature arities i inferred) :
    inferred.isSome = i.output?.isSome := by
  cases h <;> rfl

lemma HasArity.exists_eq_some {signature : Signature} {arities : RegisterArities} {i : Instr}
    {inferred : Option Arity} (h : HasArity signature arities i inferred) {out : Reg}
    (hout : i.output? = some out) : ∃ t, inferred = some t := by
  rw [← Option.isSome_iff_exists, h.isSome_eq, hout, Option.isSome_some]

/-- A register with a channel has an arity. -/
lemma HasChannel.isSome {arities : RegisterArities} {p : Swizzle} (h : HasChannel arities p) :
    (arities p.reg).isSome := by
  obtain ⟨a, ha, -⟩ := h
  simp [ha]

/-- Every register that an instruction reads has an arity. -/
lemma HasArity.isSome_of_mem_sources {signature : Signature} {arities : RegisterArities} {i : Instr}
    {inferred : Option Arity} (h : HasArity signature arities i inferred) {r : Reg}
    (hr : r ∈ i.sources) : (arities r).isSome := by
  cases h with
  | mov4 channels =>
    simp only [Instr.sources, Vec4.mem_toList, Vec4.map] at hr
    rcases hr with rfl | rfl | rfl | rfl <;> exact (channels _ (by simp)).isSome
  | fmulSwizzle left channels =>
    simp only [Instr.sources, List.mem_cons, Vec4.mem_toList, Vec4.map] at hr
    rcases hr with rfl | rfl | rfl | rfl | rfl
    · simp [left]
    all_goals exact (channels _ (by simp)).isSome
  | fmul left right | fadd left right | iadd left right =>
    simp only [Instr.sources, List.mem_cons, List.not_mem_nil, or_false] at hr
    rcases hr with rfl | rfl <;> simp [left, right]
  | extract channel =>
    simp only [Instr.sources, List.mem_singleton] at hr
    exact hr ▸ channel.isSome
  | _ => simp_all [Instr.sources]

/-! ### Other slots, arities and names -/

/-- Further slots may be declared, those that were keep their places. -/
structure Signature.ExtendsTo (signature signature' : Signature) : Prop where
  inputs : signature.inputs <+: signature'.inputs
  outputs : signature.outputs <+: signature'.outputs

lemma getElem?_of_isPrefix {α : Type} {as bs : List α} (h : as <+: bs) {k : Nat} {a : α}
    (ha : as[k]? = some a) : bs[k]? = some a := by
  obtain ⟨rest, rfl⟩ := h
  obtain ⟨hlt, -⟩ := List.getElem?_eq_some_iff.1 ha
  rwa [List.getElem?_append_left hlt]

lemma Instr.rename_id (i : Instr) : i.rename id = i := by
  cases i <;> rfl

section Transfer

variable {signature signature' : Signature} {arities arities' : RegisterArities} {f : Reg → Reg}
  {i : Instr} {a : Option Arity}

lemma HasChannel.rename {p : Swizzle} (h : HasChannel arities p)
    (hreg : arities' (f p.reg) = arities p.reg) : HasChannel arities' ⟨f p.reg, p.channel⟩ := by
  obtain ⟨t, ht, hvector⟩ := h
  exact ⟨t, hreg.trans ht, hvector⟩

lemma hasChannel_rename {parts : Vec4 Swizzle} (h : ∀ p ∈ parts.toList, HasChannel arities p)
    (hregs : ∀ r ∈ (parts.map Swizzle.reg).toList, arities' (f r) = arities r) :
    ∀ p ∈ (parts.map fun p => (⟨f p.reg, p.channel⟩ : Swizzle)).toList,
      HasChannel arities' p := by
  simp only [Vec4.mem_toList, Vec4.map, forall_eq_or_imp, forall_eq] at h hregs ⊢
  exact ⟨h.1.rename hregs.1, h.2.1.rename hregs.2.1, h.2.2.1.rename hregs.2.2.1,
    h.2.2.2.rename hregs.2.2.2⟩

/-- Of the slots and the registers only what an instruction reads matters to what it computes, and
names do not. -/
theorem HasArity.transfer (h : HasArity signature arities i a) (hs : signature.ExtendsTo signature')
    (hregs : ∀ r ∈ i.sources, arities' (f r) = arities r) :
    HasArity signature' arities' (i.rename f) a := by
  cases h with
  | mov4 channels => exact .mov4 (hasChannel_rename channels hregs)
  | fmulSwizzle left channels =>
    rw [Instr.sources, List.forall_mem_cons] at hregs
    exact .fmulSwizzle (hregs.1.trans left) (hasChannel_rename channels hregs.2)
  | extract channel =>
    exact .extract (channel.rename (hregs _ (by simp [Instr.sources])))
  | fmul left right float =>
    exact .fmul ((hregs _ (by simp [Instr.sources])).trans left)
      ((hregs _ (by simp [Instr.sources])).trans right) float
  | fadd left right float =>
    exact .fadd ((hregs _ (by simp [Instr.sources])).trans left)
      ((hregs _ (by simp [Instr.sources])).trans right) float
  | iadd left right =>
    exact .iadd ((hregs _ (by simp [Instr.sources])).trans left)
      ((hregs _ (by simp [Instr.sources])).trans right)
  | sin scalar => exact .sin ((hregs _ (by simp [Instr.sources])).trans scalar)
  | copy source => exact .copy ((hregs _ (by simp [Instr.sources])).trans source)
  | store declared source =>
    exact .store (getElem?_of_isPrefix hs.outputs declared)
      ((hregs _ (by simp [Instr.sources])).trans source)
  | sample coordinates => exact .sample ((hregs _ (by simp [Instr.sources])).trans coordinates)
  | input declared => exact .input (getElem?_of_isPrefix hs.inputs declared)
  | output declared => exact .output (getElem?_of_isPrefix hs.outputs declared)
  | uniform small => exact .uniform small
  | constInt => exact .constInt
  | constVec2 => exact .constVec2
  | constVec4 => exact .constVec4

lemma Signature.ExtendsTo.rfl : signature.ExtendsTo signature :=
  ⟨List.prefix_rfl, List.prefix_rfl⟩

/-- Only the arities of the registers that an instruction reads matter to it. -/
lemma HasArity.congr (h : HasArity signature arities i a)
    (hregs : ∀ r ∈ i.sources, arities' r = arities r) : HasArity signature arities' i a := by
  have htransfer := h.transfer (f := id) .rfl hregs
  rwa [i.rename_id] at htransfer

/-- What an instruction computes keeps its arity when slots are declared. -/
lemma HasArity.mono (h : HasArity signature arities i a) (hs : signature.ExtendsTo signature') :
    HasArity signature' arities i a := by
  have htransfer := h.transfer (f := id) hs fun r _ => Eq.refl (arities r)
  rwa [i.rename_id] at htransfer

end Transfer

end GraphicsPipeline
