import GraphicsPipeline.Proofs.Shader.Codec
import GraphicsPipeline.Proofs.Shader.Renaming
import GraphicsPipeline.Shader.History

/-!
# Compilation

A compiled draft is read back as a program whose runs give what the draft evaluates to. While both
go through the instructions, the machine holds the values of the environment, each register under
its dense number (`Machine.Represents`).
-/

namespace GraphicsPipeline

/-! ### Simulation -/

/-- The machine holds the values of an environment under new names. -/
structure Machine.Represents (m : Machine) (e : Environment) (f : Reg → Reg) (scope : Scope) : Prop
    where
  register : ∀ r, (scope.arities r).isSome →
    ∃ v, e.register r = some v ∧ m.regs[(f r).toNat]? = some v
  outputs : m.outputs = e.outputs

namespace Machine.Represents

variable {m : Machine} {e : Environment} {f : Reg → Reg} {scope : Scope} {signature : Signature}
  {inputs : Array Value} {b : Bindings} {i : Instr} {inferred : Option Arity} {k : Nat}
  {rs : List Reg}

/-- An instruction finds in the machine what it finds in the environment. -/
lemma surroundings (h : m.Represents e f scope) (inputs : Array Value) (b : Bindings)
    (harity : HasArity signature scope.arities i inferred) :
    (e.surroundings inputs b).Agrees (m.surroundings inputs b) f i.sources where
  register r hr := by
    obtain ⟨v, hv, hm⟩ := h.register r (harity.isSome_of_mem_sources hr)
    simp [Environment.surroundings, Machine.surroundings, hv, hm]
  input := rfl
  output := by simp [Environment.surroundings, Machine.surroundings, h.outputs]
  bindings := rfl

/-- The machine still represents the environment when a register is defined in both. -/
lemma define (h : m.Represents e f scope) (hf : Numbers f rs m.regs.size)
    (hscope : ∀ r, (scope.arities r).isSome → r ∈ rs) {out : Reg} (hout : i.output? = some out)
    (hmem : out ∈ rs) {a : Arity} {v : Value} :
    Machine.Represents { m with regs := m.regs.setIfInBounds (f out).toNat v }
      (e.perform (.define out v)) f (scope.extend k i (some a)) where
  register r hr := by
    have hlt := hf.bounded out hmem
    rw [Scope.arities_extend hout] at hr
    split_ifs at hr with heq
    · subst heq
      exact ⟨v, by simp [Environment.perform], by simp [hlt]⟩
    · have hne : (f out).toNat ≠ (f r).toNat := by
        rw [Ne, UInt32.toNat_inj]
        exact fun h => heq (hf.injective r (hscope r hr) out hmem h.symm)
      simpa [Environment.perform, heq, Array.getElem?_setIfInBounds_ne hne] using h.register r hr
  outputs := h.outputs

/-- The machine still represents the environment after both took an effect. -/
lemma perform (h : m.Represents e f scope) (harity : HasArity signature scope.arities i inferred)
    (houtputs : m.outputs.size = signature.outputs.length) (hf : Numbers f rs m.regs.size)
    (hscope : ∀ r, (scope.arities r).isSome → r ∈ rs) (hout : ∀ r, i.output? = some r → r ∈ rs)
    {effect : Effect} (heffect : (e.surroundings inputs b).effect i = .ok effect) :
    ∃ m', Machine.perform (effect.rename f) m = (m', .ok ()) ∧
      m'.Represents (e.perform effect) f (scope.extend k i inferred) ∧
        m'.outputs.size = m.outputs.size ∧ m'.regs.size = m.regs.size := by
  -- a value goes into a register, where `f` says, or into a slot, which keeps its number
  rcases Surroundings.place_of_effect heffect with ⟨out, v, rfl, hi⟩ | ⟨a, slot, v, rfl, rfl⟩
  · have hmem := hout out hi
    have hlt := hf.bounded out hmem
    obtain ⟨a, rfl⟩ := harity.exists_eq_some hi
    exact ⟨_, by simp only [Effect.rename, Machine.perform, if_pos hlt],
      h.define hf hscope hi hmem, rfl, by simp⟩
  · cases harity with
    | store declared source =>
      obtain ⟨hlt, -⟩ := List.getElem?_eq_some_iff.1 declared
      rw [← houtputs] at hlt
      exact ⟨{ m with outputs := m.outputs.setIfInBounds slot.toNat v },
        by simp only [Effect.rename, Machine.perform, if_pos hlt],
        ⟨h.register, by simp [Environment.perform, h.outputs]⟩, by simp, rfl⟩

/-- The renamed instructions do in the machine what the instructions do in the environment. -/
theorem each_execute (inputs : Array Value) (b : Bindings) {instrs : List Instr} {scope' : Scope}
    (h : m.Represents e f scope)
    (hdefine : scope.defineAll signature k instrs = .ok scope')
    (houtputs : m.outputs.size = signature.outputs.length) (hf : Numbers f rs m.regs.size)
    (hscope : ∀ r, (scope.arities r).isSome → r ∈ rs) (hout : ∀ r ∈ definedRegs instrs, r ∈ rs) :
    match e.evaluate inputs b instrs with
    | .ok e' => ∃ m', Step.each (execute inputs b) (instrs.map (Instr.rename f)) m = (m', .ok ()) ∧
        m'.outputs = e'.outputs
    | .error fault => ∃ m', Step.each (execute inputs b) (instrs.map (Instr.rename f)) m =
        (m', .error fault) := by
  -- the invariant of the induction is `Represents`: a register's number holds what its name holds
  induction instrs generalizing m e scope k with
  | nil => exact ⟨m, rfl, h.outputs⟩
  | cons i rest ih =>
    obtain ⟨inferred, harity, -, hrest⟩ := Scope.defineAll_cons_eq_ok.1 hdefine
    have hrename := (h.surroundings inputs b harity).effect_rename
    cases heffect : (e.surroundings inputs b).effect i with
    | error fault =>
      rw [heffect] at hrename
      have hstep : e.evaluate inputs b (i :: rest) = .error fault := by
        simp [Environment.evaluate, heffect]
      simp only [hstep]
      exact ⟨m, by simp [Step.each, Step.andThen, execute, hrename]⟩
    | ok effect =>
      rw [heffect] at hrename
      have hi : ∀ r, i.output? = some r → r ∈ rs := fun r hr =>
        hout r (by simp [definedRegs, hr])
      obtain ⟨m', hm', h', hsize, hregs⟩ := h.perform (k := k) harity houtputs hf hscope hi heffect
      have hstep : e.evaluate inputs b (i :: rest) =
          (e.perform effect).evaluate inputs b rest := by
        simp [Environment.evaluate, heffect]
      have hmachine : Step.each (execute inputs b) ((i :: rest).map (Instr.rename f)) m =
          Step.each (execute inputs b) (rest.map (Instr.rename f)) m' := by
        simp [Step.each, Step.andThen, execute, hrename, hm']
      simp only [hstep, hmachine]
      refine ih h' hrest (by rw [hsize, houtputs]) (by rwa [hregs]) ?_ fun r hr =>
        hout r (mem_definedRegs_cons.2 (.inr hr))
      exact fun r hr => (Scope.isSome_arities_extend hr).elim (hi r) (hscope r)

lemma clear {p : Program} : (m.clear p).Represents (.start p.outputs) f .empty where
  register r h := by simp at h
  outputs := by simp [clear_eq, Environment.start]

end Machine.Represents

/-! ### Lowered and compiled drafts -/

namespace Draft

variable {d d' : Draft} {p : Program} {bytes : Bytes}

/-- A lowered draft has the same slots, and its instructions under dense numbers. -/
lemma lower_eq_ok (h : d.lower = .ok p) :
    p.check = .ok p ∧ p.inputs = d.inputs ∧ p.outputs = d.outputs ∧
      p.regCount = UInt32.ofNat (definedRegs d.instrs).length ∧
        p.instrs = d.instrs.map (Instr.rename (denseNumber d.instrs)) ∧
          ∃ scope, Scope.empty.defineAll d.signature 0 d.instrs = .ok scope := by
  simp only [lower, bind_eq_ok] at h
  obtain ⟨scope, hscope, h⟩ := h
  obtain ⟨rfl, -⟩ := Program.check_eq_ok.1 h
  obtain ⟨-, hdefine, -⟩ := checkInstrs_eq_ok.1 hscope
  exact ⟨h, rfl, rfl, rfl, rfl, scope, hdefine⟩

lemma length_definedRegs_le (instrs : List Instr) :
    (definedRegs instrs).length ≤ instrs.length := List.length_filterMap_le _ _

/-- A run of a lowered draft gives what the draft evaluates to, on any machine. -/
theorem run_lower (lowered : d.lower = .ok p) (hlength : d.instrs.length < UInt32.size)
    (m : Machine) (inputs : Array Value) (b : Bindings) :
    (m.run p inputs b).2 = d.evaluate inputs b := by
  obtain ⟨-, hinputs, houtputs, hcount, hinstrs, scope, hdefine⟩ := lower_eq_ok lowered
  have hregs := (length_definedRegs_le d.instrs).trans_lt hlength
  have hsize : (m.clear p).regs.size = (definedRegs d.instrs).length := by
    simp [Machine.clear_eq, hcount, UInt32.toNat_ofNat_of_lt' hregs]
  have hnumbers := numbers_denseNumber hregs.le
  rw [← hsize] at hnumbers
  have heach := Machine.Represents.each_execute inputs b
    (Machine.Represents.clear (m := m) (p := p)) hdefine
    (by simp [Machine.clear_eq, houtputs, signature]) hnumbers (by simp) fun r hr => hr
  rw [← hinstrs, houtputs] at heach
  simp only [Machine.run, evaluate, hinputs]
  cases checkInputs d.inputs inputs with
  | error e => rfl
  | ok _ =>
    cases he : (Environment.start d.outputs).evaluate inputs b d.instrs with
    | error fault =>
      rw [he] at heach
      obtain ⟨m', hm'⟩ := heach
      simp [hm']
    | ok e' =>
      rw [he] at heach
      obtain ⟨m', hm', hout⟩ := heach
      simp [hm', hout]

/-- The bytes of a compiled draft are read back as its lowered program. -/
lemma decode_compile (compiled : d.compile = .ok (bytes, d'))
    (inputs : d.inputs.length < UInt32.size) (outputs : d.outputs.length < UInt32.size)
    (instrs : d.instrs.length < UInt32.size) :
    ∃ p, d.lower = .ok p ∧ Program.decode bytes = .ok p := by
  simp only [compile, bind_eq_ok, pure_eq_ok, Prod.mk.injEq] at compiled
  obtain ⟨d₁, hopen, p, hlower, rfl, -⟩ := compiled
  have hd : d₁ = d := by
    unfold opened at hopen
    split at hopen <;> cases hopen
    rfl
  subst hd
  obtain ⟨haccepted, hinputs, houtputs, -, hinstrs, -⟩ := lower_eq_ok hlower
  exact ⟨p, hlower, Program.decode_encode_of_check haccepted (by rwa [hinputs])
    (by rwa [houtputs]) (by simpa [hinstrs])⟩

/-- Whatever calls a draft comes from, its compiled bytes are read back as a program. On any machine
and with any inputs and bindings, a run of the program gives what the draft's own instructions
evaluate to by the names that the caller chose, the failure included. -/
theorem run_decode_compile (calls : List Call)
    (compiled : (empty.after calls).compile = .ok (bytes, d'))
    (inputs : (empty.after calls).inputs.length < 2 ^ 32 - 1)
    (outputs : (empty.after calls).outputs.length < 2 ^ 32 - 1)
    (instrs : (empty.after calls).instrs.length < 2 ^ 32 - 1) :
    ∃ p, Program.decode bytes = .ok p ∧ ∀ (m : Machine) (values : Array Value) (b : Bindings),
      (m.run p values b).2 = (empty.after calls).evaluate values b := by
  have hsize : UInt32.size = 2 ^ 32 := rfl
  obtain ⟨p, hlower, hdecode⟩ := decode_compile compiled (by omega) (by omega) (by omega)
  exact ⟨p, hdecode, run_lower hlower (by omega)⟩

/-- A draft of sparse register names, after a failed call. -/
def doubled : List Call :=
  [.edit (.pushInput .scalar), .edit (.pushOutput .scalar), .edit (.push (.input 900 0)),
    .edit (.push (.fadd 7 900 900)), .edit (.push (.fadd 7 900 900)), .edit (.push (.store 7 0))]

/-- The failed call leaves no trace: the draft compiles, and its program runs as it evaluates. -/
theorem run_decode_compile_doubled : ∃ bytes d', (empty.after doubled).compile = .ok (bytes, d') ∧
    ∃ p, Program.decode bytes = .ok p ∧ ∀ (m : Machine) (values : Array Value) (b : Bindings),
      (m.run p values b).2 = (empty.after doubled).evaluate values b := by
  obtain ⟨⟨bytes, d'⟩, compiled⟩ : ∃ r, (empty.after doubled).compile = .ok r := ⟨_, rfl⟩
  exact ⟨bytes, d', compiled,
    run_decode_compile doubled compiled (by decide) (by decide) (by decide)⟩

end Draft

end GraphicsPipeline
