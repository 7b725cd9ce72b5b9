import GraphicsPipeline.Proofs.Shader.InPlace
import GraphicsPipeline.Proofs.Shader.WellFormed

/-!
# Drafts stay consistent

Whatever calls a draft has seen, its scope is what a check of all its instructions against its slots
comes to (`Draft.Checked`): an instruction is checked when it is appended, and slots that are
declared later do not change what it computes (`HasArity.mono`). What the scope says of the
instructions follows (`Draft.Consistent`).

The position is kept as a word. It is the place of its slot as long as there are no more outputs
than words; with one more it can be the word of another slot.
-/

namespace GraphicsPipeline

/-! ### Scopes of accepted instructions -/

namespace Scope

variable {s s' : Scope} {signature signature' : Signature} {i : Instr} {instrs rest : List Instr}
  {inferred : Option Arity} {r : Reg} {info : RegisterInfo} {k : Nat}

/-- Accepted instructions are accepted with further slots, to the same scope. -/
lemma defineAll_mono (h : s.defineAll signature k instrs = .ok s')
    (hs : signature.ExtendsTo signature') : s.defineAll signature' k instrs = .ok s' := by
  induction instrs generalizing s k with
  | nil => exact h
  | cons i rest ih =>
    obtain ⟨inferred, harity, hnew, hrest⟩ := defineAll_cons_eq_ok.1 h
    exact defineAll_cons_eq_ok.2 ⟨inferred, harity.mono hs, hnew, ih hrest⟩

lemma defineAll_append (s : Scope) (signature : Signature) (k : Nat) (instrs rest : List Instr) :
    s.defineAll signature k (instrs ++ rest) = s.defineAll signature k instrs >>= fun s =>
      s.defineAll signature (k + instrs.length) rest := by
  induction instrs generalizing s k with
  | nil => rfl
  | cons i instrs ih =>
    rw [List.cons_append, defineAll, defineAll]
    cases s.define signature k i with
    | error e => rfl
    | ok out =>
      simp only [ok_bind, ih, List.length_cons, Nat.add_assoc, Nat.add_comm 1]

/-- What is known of a register stays known. -/
lemma arities_of_defineAll (h : s.defineAll signature k instrs = .ok s')
    (hr : (s.arities r).isSome) : s'.arities r = s.arities r := by
  induction instrs generalizing s k with
  | nil =>
    cases h
    rfl
  | cons i rest ih =>
    obtain ⟨inferred, harity, hnew, hrest⟩ := defineAll_cons_eq_ok.1 h
    have hri : i.output? ≠ some r := by
      intro hri
      simp [arities_eq_none.2 (hnew r hri)] at hr
    have hsame : (s.extend k i inferred).arities r = s.arities r := by
      rw [arities_extend_of_hasArity harity, if_neg hri]
    rw [ih hrest (by rwa [hsame]), hsame]

/-- The instructions keep the arities of the final scope. -/
lemma keepsArities_of_defineAll (h : s.defineAll signature k instrs = .ok s') :
    KeepsArities signature s'.arities instrs := by
  induction instrs generalizing s k with
  | nil => simp [KeepsArities]
  | cons i rest ih =>
    obtain ⟨inferred, harity, -, hrest⟩ := defineAll_cons_eq_ok.1 h
    intro j hj
    rw [List.mem_cons] at hj
    rcases hj with rfl | hj
    -- the first instruction was checked on a smaller scope, whose arities the final one keeps
    · refine ⟨inferred, harity.congr fun r hr => ?_, fun r hout => ?_⟩
      · exact arities_of_defineAll h (harity.isSome_of_mem_sources hr)
      · have hdefined : (s.extend k j inferred).arities r = inferred := by
          rw [arities_extend_of_hasArity harity, if_pos hout]
        have hsome : ((s.extend k j inferred).arities r).isSome := by
          rw [hdefined, harity.isSome_eq, hout, Option.isSome_some]
        rw [arities_of_defineAll hrest hsome, hdefined]
    · exact ih hrest j hj

lemma get?_extend_eq_some (h : (s.extend k i inferred).get? r = some info) :
    s.get? r = some info ∨ i.output? = some r ∧ info.producer = k := by
  cases hout : i.output? with
  | none => exact .inl (by rwa [extend_of_output?_eq_none hout] at h)
  | some out =>
    cases inferred with
    | none => exact .inl (by simpa [extend, hout] using h)
    | some t =>
      simp only [extend, hout, get?, List.lookup_cons] at h
      by_cases hr : r = out
      · subst hr
        simp only [beq_self_eq_true, Option.some.injEq] at h
        exact .inr ⟨rfl, by rw [← h]⟩
      · rw [beq_false_of_ne hr] at h
        exact .inl h

/-- A register in scope was there before, or it is defined by the instruction at its place. -/
lemma get?_of_defineAll (h : s.defineAll signature k instrs = .ok s')
    (hr : s'.get? r = some info) :
    s.get? r = some info ∨
      ∃ n i, instrs[n]? = some i ∧ i.output? = some r ∧ info.producer = k + n := by
  induction instrs generalizing s k with
  | nil =>
    cases h
    exact .inl hr
  | cons i rest ih =>
    obtain ⟨inferred, -, -, hrest⟩ := defineAll_cons_eq_ok.1 h
    rcases ih hrest with hs | ⟨n, j, hj, hout, hplace⟩
    · rcases get?_extend_eq_some hs with hs | ⟨hout, hplace⟩
      · exact .inl hs
      · exact .inr ⟨0, i, rfl, hout, hplace⟩
    · exact .inr ⟨n + 1, j, hj, hout, by rw [hplace, Nat.add_assoc, Nat.add_comm 1]⟩

end Scope

namespace Draft

/-! ### Checked drafts -/

/-- The scope of the draft is that of its instructions, and its position is a vector of four. The
position is a word, which stands for the number of outputs that there were before it. -/
structure Checked (d : Draft) : Prop where
  instrs : Scope.empty.defineAll d.signature 0 d.instrs = .ok d.scope
  position : ∀ slot, d.position = some slot →
    ∃ n, UInt32.ofNat n = slot ∧ d.outputs[n]? = some .vec4

variable {d d' : Draft} {i : Instr} {a : Arity} {e : Edit}

lemma checked_empty : empty.Checked where
  instrs := rfl
  position slot h := by simp [empty] at h

lemma opened_eq_ok : d.opened = .ok d' ↔ d.finalized = false ∧ d = d' := by
  unfold opened
  cases d.finalized <;> simp

namespace Checked

lemma pushInput (h : d.Checked) (hd : d.pushInput a = .ok d') : d'.Checked := by
  simp only [Draft.pushInput, bind_eq_ok, opened_eq_ok, pure_eq_ok] at hd
  obtain ⟨_, ⟨-, rfl⟩, rfl⟩ := hd
  exact ⟨Scope.defineAll_mono h.instrs ⟨List.prefix_append _ _, List.prefix_rfl⟩, h.position⟩

lemma pushOutput (h : d.Checked) (hd : d.pushOutput a = .ok d') : d'.Checked := by
  simp only [Draft.pushOutput, bind_eq_ok, opened_eq_ok, pure_eq_ok] at hd
  obtain ⟨_, ⟨-, rfl⟩, rfl⟩ := hd
  refine ⟨Scope.defineAll_mono h.instrs ⟨List.prefix_rfl, List.prefix_append _ _⟩, ?_⟩
  intro slot hslot
  obtain ⟨n, hn, hvec⟩ := h.position slot hslot
  exact ⟨n, hn, getElem?_of_isPrefix (List.prefix_append _ _) hvec⟩

lemma pushPosition (h : d.Checked) (hd : d.pushPosition = .ok d') : d'.Checked := by
  simp only [Draft.pushPosition, bind_eq_ok, opened_eq_ok] at hd
  obtain ⟨_, ⟨-, rfl⟩, hd⟩ := hd
  split at hd
  · simp at hd
  · simp only [pure_eq_ok] at hd
    subst hd
    refine ⟨Scope.defineAll_mono h.instrs ⟨List.prefix_rfl, List.prefix_append _ _⟩, ?_⟩
    rintro slot ⟨⟩
    exact ⟨d.outputs.length, rfl, List.getElem?_concat_length⟩

/-- An appended instruction is checked on the scope of those before it. -/
lemma push (h : d.Checked) (hd : d.push i = .ok d') : d'.Checked := by
  simp only [Draft.push, bind_eq_ok, opened_eq_ok, pure_eq_ok] at hd
  obtain ⟨_, ⟨-, rfl⟩, ⟨scope, inferred⟩, hdefine, rfl⟩ := hd
  refine ⟨?_, h.position⟩
  have hlast : d.scope.defineAll d.signature d.instrs.length [i] = .ok scope := by
    rw [Scope.defineAll, hdefine]
    rfl
  simp only [signature, Scope.defineAll_append]
  exact bind_eq_ok.2 ⟨d.scope, h.instrs, by rwa [Nat.zero_add]⟩

lemma apply (h : d.Checked) (hd : d.apply e = .ok d') : d'.Checked := by
  cases e with
  | pushInput a => exact h.pushInput hd
  | pushOutput a => exact h.pushOutput hd
  | pushPosition => exact h.pushPosition hd
  | push i => exact h.push hd
  | mov4 out parts | fmulSwizzle out a parts | loadChannel out part =>
    simp only [Draft.apply, bind_eq_ok] at hd
    obtain ⟨_, _, hd⟩ := hd
    exact h.push hd

lemma compile {bytes : Bytes} (h : d.Checked) (hd : d.compile = .ok (bytes, d')) : d'.Checked := by
  simp only [Draft.compile, bind_eq_ok, opened_eq_ok, pure_eq_ok, Prod.mk.injEq] at hd
  obtain ⟨_, ⟨-, rfl⟩, p, -, -, rfl⟩ := hd
  exact ⟨h.instrs, h.position⟩

lemma call {c : Call} {reply : Option Bytes} (h : d.Checked) (hd : d.call c = .ok (d', reply)) :
    d'.Checked := by
  cases c with
  | edit e =>
    simp only [Draft.call, bind_eq_ok, pure_eq_ok, Prod.mk.injEq] at hd
    obtain ⟨_, hd, rfl, -⟩ := hd
    exact h.apply hd
  | compile =>
    simp only [Draft.call, bind_eq_ok, pure_eq_ok, Prod.mk.injEq] at hd
    obtain ⟨_, hd, rfl, -⟩ := hd
    exact h.compile hd

end Checked

lemma step_cases (d : Draft) (c : Call) :
    (∃ d' reply, d.call c = .ok (d', reply) ∧ d.step c = (d', .ok reply)) ∨
      ∃ e, d.call c = .error e ∧ d.step c = (d, .error e) := by
  unfold step
  cases d.call c with
  | ok out => exact .inl ⟨out.1, out.2, rfl, rfl⟩
  | error e => exact .inr ⟨e, rfl, rfl⟩

lemma Checked.step (h : d.Checked) (c : Call) : (d.step c).1.Checked := by
  rcases d.step_cases c with ⟨d', reply, hcall, hstep⟩ | ⟨e, -, hstep⟩
  · rw [hstep]
    exact h.call hcall
  · rwa [hstep]

lemma Checked.after (h : d.Checked) (calls : List Call) : (d.after calls).Checked := by
  induction calls generalizing d with
  | nil => exact h
  | cons c calls ih => exact ih (h.step c)

lemma checked_after (calls : List Call) : (empty.after calls).Checked :=
  checked_empty.after calls

/-! ### Consistent drafts -/

/-- The scope says of every register that the instructions define which of them defines it and what
it holds, and of no other register. Instructions read what was defined before them. The position is
an output slot that holds a vector of four, counted in words. -/
structure Consistent (d : Draft) : Prop where
  registers : d.scope.entries.map Prod.fst = (definedRegs d.instrs).reverse
  definesOnce : (definedRegs d.instrs).Nodup
  producer : ∀ r info, d.scope.get? r = some info → ∃ i, d.instrs[info.producer]? = some i ∧
    i.output? = some r ∧ HasArity d.signature d.scope.arities i (some info.arity)
  readsDefined : ReadsDefined d.instrs
  position : ∀ slot, d.position = some slot →
    ∃ n, UInt32.ofNat n = slot ∧ d.outputs[n]? = some .vec4

lemma Checked.consistent (h : d.Checked) : d.Consistent where
  registers := by
    rw [Scope.map_fst_entries_of_defineAll h.instrs]
    exact List.append_nil _
  definesOnce := (admits_empty_iff.1 (Scope.exists_defineAll_eq_ok_iff.1 ⟨_, h.instrs⟩)).2.1
  producer r info hr := by
    rcases Scope.get?_of_defineAll h.instrs hr with hempty | ⟨n, i, hi, hout, hplace⟩
    · simp [Scope.empty, Scope.get?] at hempty
    · obtain ⟨a, harity, hkept⟩ :=
        Scope.keepsArities_of_defineAll h.instrs i (List.mem_of_getElem? hi)
      have ha : a = some info.arity := by rw [← hkept r hout, Scope.arities, hr, Option.map_some]
      rw [Nat.zero_add] at hplace
      exact ⟨i, by rwa [hplace], hout, by rwa [← ha]⟩
  readsDefined := (admits_empty_iff.1 (Scope.exists_defineAll_eq_ok_iff.1 ⟨_, h.instrs⟩)).1
  position := h.position

/-- The word of a position is the place of its slot, while words can count the outputs. -/
lemma Consistent.getElem?_position (h : d.Consistent) (outputs : d.outputs.length ≤ UInt32.size)
    {slot : UInt32} (hslot : d.position = some slot) : d.outputs[slot.toNat]? = some .vec4 := by
  obtain ⟨n, rfl, hvec⟩ := h.position slot hslot
  obtain ⟨hlt, -⟩ := List.getElem?_eq_some_iff.1 hvec
  rwa [UInt32.toNat_ofNat_of_lt' (hlt.trans_le outputs)]

/-- Whatever calls change a draft in place, its scope, instructions and position agree afterwards,
and a call that fails leaves all of the draft as it was. -/
theorem consistent_changedBy (calls : List Call) :
    (empty.changedBy calls).Consistent ∧
      ((empty.changedBy calls).outputs.length ≤ 2 ^ 32 →
        ∀ slot, (empty.changedBy calls).position = some slot →
          (empty.changedBy calls).outputs[slot.toNat]? = some .vec4) ∧
        ∀ c e, ((empty.changedBy calls).change c).2 = .error e →
          ((empty.changedBy calls).change c).1 = empty.changedBy calls := by
  have hconsistent : (empty.changedBy calls).Consistent := by
    rw [changedBy_eq_after]
    exact (checked_after calls).consistent
  refine ⟨hconsistent, fun outputs slot hslot => hconsistent.getElem?_position outputs hslot, ?_⟩
  intro c e hfail
  rw [change_eq_step] at hfail ⊢
  rcases (empty.changedBy calls).step_cases c with ⟨d', reply, -, hstep⟩ | ⟨e', -, hstep⟩
  · rw [hstep] at hfail
    cases hfail
  · rw [hstep]

/-- Slots that are declared between instructions, and a register that is defined again. -/
def interleaved : List Call :=
  [.edit (.pushInput .vec2), .edit (.push (.input 40 0)), .edit (.pushOutput .scalar),
    .edit .pushPosition, .edit (.push (.input 40 0)), .edit (.push (.extract 3 40 .y)),
    .edit (.push (.store 3 0))]

/-- A second position is refused, and what was declared and appended before stays. -/
theorem consistent_changedBy_interleaved :
    (empty.changedBy interleaved).position = some 1 ∧
      (empty.changedBy interleaved).outputs[1]? = some .vec4 ∧
        ((empty.changedBy interleaved).change (.edit .pushPosition)).2 =
            .error .duplicatePosition ∧
          ((empty.changedBy interleaved).change (.edit .pushPosition)).1 =
            empty.changedBy interleaved := by
  obtain ⟨-, position, failed⟩ := consistent_changedBy interleaved
  exact ⟨rfl, position (by decide) 1 rfl, rfl, failed _ _ rfl⟩

/-! ### More outputs than words -/

/-- So many numbers as outputs, and then the position. -/
def positionLast (n : Nat) : List Call :=
  List.replicate n (.edit (.pushOutput .scalar)) ++ [.edit .pushPosition]

/-- A draft of which nothing but outputs is declared. -/
def ofOutputs (outputs : List Arity) : Draft := { outputs }

lemma after_replicate_pushOutput (outputs : List Arity) (n : Nat) (rest : List Call) :
    (ofOutputs outputs).after (List.replicate n (.edit (.pushOutput a)) ++ rest) =
      (ofOutputs (outputs ++ List.replicate n a)).after rest := by
  induction n generalizing outputs with
  | zero => simp
  | succ n ih =>
    have hstep : ((ofOutputs outputs).step (.edit (.pushOutput a))).1 =
        ofOutputs (outputs ++ [a]) := rfl
    rw [List.replicate_succ, List.cons_append, after, hstep, ih, List.append_assoc,
      List.singleton_append, ← List.replicate_succ]

lemma changedBy_positionLast (n : Nat) :
    empty.changedBy (positionLast n) =
      { ofOutputs (List.replicate n .scalar ++ [.vec4]) with
        position := some (UInt32.ofNat n) } := by
  have hposition : ∀ outputs, (ofOutputs outputs).after [.edit .pushPosition] =
      { ofOutputs (outputs ++ [.vec4]) with
        position := some (UInt32.ofNat outputs.length) } := fun _ => rfl
  have hempty : empty = ofOutputs [] := rfl
  rw [changedBy_eq_after, positionLast, hempty, after_replicate_pushOutput, hposition,
    List.nil_append, List.length_replicate]

/-- After as many outputs as there are words, the word of the position is that of the first output,
which is a number. -/
theorem position_wraps :
    (empty.changedBy (positionLast (2 ^ 32))).position = some 0 ∧
      (empty.changedBy (positionLast (2 ^ 32))).outputs[0]? = some .scalar := by
  -- the list of outputs is never written out: what comes first in it follows from its length
  have hfirst : ∀ n, 0 < n → (List.replicate n Arity.scalar ++ [.vec4])[0]? = some .scalar := by
    intro n hn
    rw [List.getElem?_append_left (by rwa [List.length_replicate]), List.getElem?_replicate,
      if_pos hn]
  rw [changedBy_positionLast]
  exact ⟨by decide, hfirst _ (by decide)⟩

end Draft

end GraphicsPipeline
