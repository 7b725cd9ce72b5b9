import GraphicsPipeline.Proofs.Shader.Equivariance

/-!
# Compilation forgets names and nothing else

Drafts that compile to the same bytes differ in the names of their registers at most: both are the
same program under their dense numbers, and those can be taken back (`Draft.exists_bijOn_of_lower`).
Dense numbers are their own dense numbers, so that a lowered program is lowered to itself
(`Draft.lower_of_lower`).
-/

namespace GraphicsPipeline

variable {f g : Reg → Reg} {signature : Signature} {instrs instrs' : List Instr}

/-! ### Instructions under equal names -/

/-- The instruction looks the same under names that agree on its registers. -/
lemma Instr.rename_congr {i : Instr} (hsources : ∀ r ∈ i.sources, f r = g r)
    (hout : ∀ r, i.output? = some r → f r = g r) : i.rename f = i.rename g := by
  cases i <;> simp_all [rename, sources, output?, Vec4.mem_toList, Vec4.map]

/-- Instructions that read what they define look the same under names that agree on the registers
that they define. -/
lemma map_rename_congr (hreads : ReadsDefined instrs) (h : ∀ r ∈ definedRegs instrs, f r = g r) :
    instrs.map (Instr.rename f) = instrs.map (Instr.rename g) := by
  refine List.map_congr_left fun i hi => ?_
  obtain ⟨before, after, rfl⟩ := List.append_of_mem hi
  apply Instr.rename_congr
  · intro r hr
    apply h
    have hbefore := hreads before i after rfl r hr
    rw [definedRegs, List.filterMap_append]
    exact List.mem_append_left _ hbefore
  · intro r hr
    exact h r (List.mem_filterMap.2 ⟨i, hi, hr⟩)

lemma map_rename_id : instrs.map (Instr.rename id) = instrs := by
  rw [show Instr.rename id = id from funext Instr.rename_id, List.map_id]

lemma map_rename_rename : (instrs.map (Instr.rename f)).map (Instr.rename g) =
    instrs.map (Instr.rename (g ∘ f)) := by
  simp only [List.map_map, Function.comp_def, Instr.rename_rename]

/-! ### Names that are taken back -/

/-- Instructions that are the same under dense numbers are the same under a renaming that matches
the registers that they define. -/
theorem exists_bijOn_of_map_denseNumber (hreads : ReadsDefined instrs')
    (honce : (definedRegs instrs').Nodup) (hlength : (definedRegs instrs').length ≤ UInt32.size)
    (h : instrs.map (Instr.rename (denseNumber instrs)) =
      instrs'.map (Instr.rename (denseNumber instrs'))) :
    ∃ g, Set.BijOn g {r | r ∈ definedRegs instrs} {r | r ∈ definedRegs instrs'} ∧
      instrs' = instrs.map (Instr.rename g) := by
  have hinj : Set.InjOn (denseNumber instrs') {r | r ∈ definedRegs instrs'} :=
    fun r hr r' hr' => (numbers_denseNumber hlength).injective r hr r' hr'
  obtain ⟨back, hback⟩ : ∃ back, Set.LeftInvOn back (denseNumber instrs')
      {r | r ∈ definedRegs instrs'} := ⟨_, hinj.leftInvOn_invFunOn⟩
  have hsame : instrs'.map (Instr.rename (back ∘ denseNumber instrs')) =
      instrs'.map (Instr.rename id) := map_rename_congr hreads hback
  have hinstrs : instrs' = instrs.map (Instr.rename (back ∘ denseNumber instrs)) := by
    rw [← map_rename_rename, h, map_rename_rename, hsame, map_rename_id]
  have hdefined : definedRegs instrs' = (definedRegs instrs).map (back ∘ denseNumber instrs) := by
    rw [← definedRegs_map_rename, ← hinstrs]
  refine ⟨_, ⟨?maps, ?injective, ?onto⟩, hinstrs⟩
  case maps =>
    intro r hr
    rw [hdefined]
    exact List.mem_map_of_mem hr
  -- no register is defined twice, so the names of two registers differ
  case injective =>
    intro r hr r' hr' heq
    rw [hdefined] at honce
    exact List.inj_on_of_nodup_map honce hr hr' heq
  case onto =>
    intro r hr
    simpa [hdefined] using hr

/-! ### Dense numbers again -/

/-- The dense number of a register is its own dense number. -/
lemma denseNumber_denseNumber (hlength : (definedRegs instrs).length ≤ UInt32.size) {r : Reg}
    (hr : r ∈ definedRegs instrs) :
    denseNumber (instrs.map (Instr.rename (denseNumber instrs))) (denseNumber instrs r) =
      denseNumber instrs r :=
  denseNumber_map_rename fun r' hr' h => (numbers_denseNumber hlength).injective r' hr' r hr h

lemma map_denseNumber_map_denseNumber (hreads : ReadsDefined instrs)
    (hlength : (definedRegs instrs).length ≤ UInt32.size) :
    (instrs.map (Instr.rename (denseNumber instrs))).map
        (Instr.rename (denseNumber (instrs.map (Instr.rename (denseNumber instrs))))) =
      instrs.map (Instr.rename (denseNumber instrs)) := by
  rw [map_rename_rename]
  exact map_rename_congr hreads fun r hr => denseNumber_denseNumber hlength hr

/-! ### Drafts -/

namespace Draft

variable {d d' d₁ d₁' : Draft} {p : Program} {bytes : Bytes}

lemma position_of_lower (h : d.lower = .ok p) : p.position = d.position := by
  simp only [lower, bind_eq_ok] at h
  obtain ⟨_, -, h⟩ := h
  obtain ⟨rfl, -⟩ := Program.check_eq_ok.1 h
  rfl

/-- A lowered draft follows the rules for programs, whatever its history is. -/
lemma admits_of_lower (h : d.lower = .ok p) : Scope.empty.Admits d.signature d.instrs := by
  obtain ⟨-, -, -, -, -, hscope⟩ := lower_eq_ok h
  exact Scope.exists_defineAll_eq_ok_iff.1 hscope

/-- Words can count the registers of a lowered draft, since the check of the program did. -/
lemma length_definedRegs_of_lower (h : d.lower = .ok p) :
    (definedRegs d.instrs).length < UInt32.size := by
  obtain ⟨hcheck, -, -, hcount, hinstrs, -⟩ := lower_eq_ok h
  obtain ⟨-, scope, hscope, -, hsize⟩ := Program.check_eq_ok.1 hcheck
  obtain ⟨-, hdefine, -⟩ := checkInstrs_eq_ok.1 hscope
  rw [Scope.size_of_defineAll_eq_ok hdefine, Scope.size_empty, Nat.zero_add, hinstrs,
    definedRegs_map_rename, List.length_map] at hsize
  rw [hsize]
  exact p.regCount.toNat_lt_size

/-- Drafts that are lowered to the same program have the same slots and the same position, and
their instructions differ in the names of registers at most. -/
lemma exists_bijOn_of_lower (h : d.lower = .ok p) (h' : d'.lower = .ok p) :
    d'.inputs = d.inputs ∧ d'.outputs = d.outputs ∧ d'.position = d.position ∧
      ∃ g, Set.BijOn g {r | r ∈ definedRegs d.instrs} {r | r ∈ definedRegs d'.instrs} ∧
        d'.instrs = d.instrs.map (Instr.rename g) := by
  obtain ⟨-, hinputs, houtputs, -, hinstrs, -⟩ := lower_eq_ok h
  obtain ⟨-, hinputs', houtputs', -, hinstrs', -⟩ := lower_eq_ok h'
  obtain ⟨hreads, honce, -⟩ := admits_empty_iff.1 (admits_of_lower h')
  refine ⟨hinputs'.symm.trans hinputs, houtputs'.symm.trans houtputs,
    (position_of_lower h').symm.trans (position_of_lower h), ?_⟩
  exact exists_bijOn_of_map_denseNumber hreads honce (length_definedRegs_of_lower h').le
    (hinstrs.symm.trans hinstrs')

/-- The slots and the instructions of a lowered program are lowered to the program. -/
lemma lower_of_lower (h : d.lower = .ok p) : Draft.lower
    { inputs := p.inputs, outputs := p.outputs, position := p.position, instrs := p.instrs } =
      .ok p := by
  obtain ⟨hcheck, -, -, hcount, hinstrs, -⟩ := lower_eq_ok h
  obtain ⟨hreads, -, -⟩ := admits_empty_iff.1 (admits_of_lower h)
  obtain ⟨-, scope, hscope, -, -⟩ := Program.check_eq_ok.1 hcheck
  have hagain : p.instrs.map (Instr.rename (denseNumber p.instrs)) = p.instrs := by
    rw [hinstrs]
    exact map_denseNumber_map_denseNumber hreads (length_definedRegs_of_lower h).le
  have hregs : UInt32.ofNat (definedRegs p.instrs).length = p.regCount := by
    rw [hcount, hinstrs, definedRegs_map_rename, List.length_map]
  refine bind_eq_ok.2 ⟨scope, hscope, ?_⟩
  simp only [hagain, hregs]
  exact hcheck

/-- Compilation forgets the names of registers and nothing else. The same calls under other names
succeed and fail alike, and compile to the same bytes; drafts that compile to the same bytes have
the same slots and the same position, and instructions that differ by a bijection of the registers
they define; and what a draft is lowered to is lowered to itself. -/
theorem compile_canonical :
    (∀ f : Reg → Reg, Function.Injective f → ∀ calls : List Call,
        (empty.replies (calls.map (Call.rename f))).map Except.toOption =
          (empty.replies calls).map Except.toOption) ∧
      (∀ (d d' d₁ d₁' : Draft) (bytes : Bytes),
        d.compile = .ok (bytes, d₁) → d'.compile = .ok (bytes, d₁') →
        d.inputs.length < 2 ^ 32 - 1 → d.outputs.length < 2 ^ 32 - 1 →
        d.instrs.length < 2 ^ 32 - 1 →
        d'.inputs.length < 2 ^ 32 - 1 → d'.outputs.length < 2 ^ 32 - 1 →
        d'.instrs.length < 2 ^ 32 - 1 →
          d'.inputs = d.inputs ∧ d'.outputs = d.outputs ∧ d'.position = d.position ∧
            ∃ g, Set.BijOn g {r | r ∈ definedRegs d.instrs} {r | r ∈ definedRegs d'.instrs} ∧
              d'.instrs = d.instrs.map (Instr.rename g)) ∧
        ∀ (d : Draft) (p : Program), d.lower = .ok p → Draft.lower
          { inputs := p.inputs, outputs := p.outputs, position := p.position,
            instrs := p.instrs } = .ok p := by
  refine ⟨?renamed, ?same, fun d p h => lower_of_lower h⟩
  case renamed =>
    intro f hf calls
    exact replies_rename (d := empty) hf calls
  case same =>
    intro d d' d₁ d₁' bytes compiled compiled' inputs outputs instrs inputs' outputs' instrs'
    have hsize : UInt32.size = 2 ^ 32 := rfl
    obtain ⟨p, hlower, hdecode⟩ := decode_compile compiled (by omega) (by omega) (by omega)
    obtain ⟨p', hlower', hdecode'⟩ := decode_compile compiled' (by omega) (by omega) (by omega)
    cases hdecode.symm.trans hdecode'
    exact exists_bijOn_of_lower hlower hlower'

/-- Names for which the register 900 is the last one. -/
def lastName (r : Reg) : Reg := r + 0xfffffc7b

lemma lastName_injective : Function.Injective lastName := by
  intro r r' h
  exact (UInt32.add_left_inj _).1 h

/-- Under the other names the call that fails is the same, the bytes are the same, and the program
is lowered to itself. -/
theorem compile_canonical_doubled :
    (empty.replies ((doubled ++ [Call.compile]).map (Call.rename lastName))).map Except.toOption =
        (empty.replies (doubled ++ [Call.compile])).map Except.toOption ∧
      (∃ bytes d₁ d₁', (empty.after doubled).compile = .ok (bytes, d₁) ∧
        (empty.after (doubled.map (Call.rename lastName))).compile = .ok (bytes, d₁') ∧
          ∃ g, (empty.after (doubled.map (Call.rename lastName))).instrs =
            (empty.after doubled).instrs.map (Instr.rename g)) ∧
        ∃ p, (empty.after doubled).lower = .ok p ∧ Draft.lower
          { inputs := p.inputs, outputs := p.outputs, position := p.position,
            instrs := p.instrs } = .ok p := by
  obtain ⟨hrenamed, hsame, hagain⟩ := compile_canonical
  refine ⟨hrenamed lastName lastName_injective _, ?_, ?_⟩
  · obtain ⟨d₁, d₁', bytes, compiled, compiled'⟩ : ∃ d₁ d₁' bytes,
        (empty.after doubled).compile = .ok (bytes, d₁) ∧
          (empty.after (doubled.map (Call.rename lastName))).compile = .ok (bytes, d₁') :=
      ⟨_, _, _, rfl, rfl⟩
    obtain ⟨-, -, -, g, -, hinstrs⟩ := hsame _ _ _ _ _ compiled compiled' (by decide) (by decide)
      (by decide) (by decide) (by decide) (by decide)
    exact ⟨bytes, d₁, d₁', compiled, compiled', g, hinstrs⟩
  · obtain ⟨p, hlower⟩ : ∃ p, (empty.after doubled).lower = .ok p := ⟨_, rfl⟩
    exact ⟨p, hlower, hagain _ _ hlower⟩

end Draft

end GraphicsPipeline
