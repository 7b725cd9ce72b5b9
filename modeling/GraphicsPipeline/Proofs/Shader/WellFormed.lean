import GraphicsPipeline.Proofs.Shader.Running

/-!
# The check of programs is exact

A program is accepted exactly if it is well formed. The check goes through the instructions with a
growing scope; what may follow on a scope is said without it (`Scope.Admits`), and taken apart one
instruction at a time (`Scope.admits_cons_iff`). That the registers are those below the number of
registers follows from a bound and a count, since none is defined twice.
-/

namespace GraphicsPipeline

/-! ### What may follow on a scope -/

lemma definedRegs_cons (i : Instr) (instrs : List Instr) :
    definedRegs (i :: instrs) = i.output?.toList ++ definedRegs instrs := by
  rw [definedRegs, List.filterMap_cons]
  cases i.output? <;> rfl

namespace Scope

variable {s s' : Scope} {signature : Signature} {i : Instr} {rest instrs : List Instr}
  {inferred : Option Arity} {r : Reg} {k : Nat}

lemma arities_eq_none : s.arities r = none ↔ s.get? r = none := by
  simp [arities]

/-- What an instruction computes is known after it, and everything that was known before. -/
lemma arities_extend_of_hasArity (h : HasArity signature s.arities i inferred) :
    (s.extend k i inferred).arities r = if i.output? = some r then inferred else s.arities r := by
  cases hout : i.output? with
  | none => simp [extend_of_output?_eq_none hout]
  | some out =>
    obtain ⟨t, rfl⟩ := h.exists_eq_some hout
    rw [arities_extend hout]
    by_cases hr : r = out
    · simp [hr]
    · simp [hr, Ne.symm hr]

/-- The instructions may follow on the scope: they read registers in scope and what was defined
before, define new registers, each once, and keep arities that extend those in scope. -/
structure Admits (s : Scope) (signature : Signature) (instrs : List Instr) : Prop where
  reads : ∀ before i after, instrs = before ++ i :: after →
    ∀ r ∈ i.sources, (s.arities r).isSome ∨ r ∈ definedRegs before
  definesOnce : (definedRegs instrs).Nodup
  definesNew : ∀ r ∈ definedRegs instrs, s.arities r = none
  arities : ∃ arities, (∀ r, (s.arities r).isSome → arities r = s.arities r) ∧
    KeepsArities signature arities instrs

lemma admits_nil : s.Admits signature [] where
  reads before i after h := by simp at h
  definesOnce := List.nodup_nil
  definesNew r hr := by simp [definedRegs] at hr
  arities := ⟨s.arities, fun _ _ => rfl, by simp [KeepsArities]⟩

/-- The first instruction of those that may follow on a scope keeps the rules there, and the others
may follow on the scope after it. -/
lemma Admits.uncons (h : s.Admits signature (i :: rest)) (k : Nat) :
    ∃ inferred, HasArity signature s.arities i inferred ∧
      (s.extend k i inferred).Admits signature rest := by
  obtain ⟨arities, hextends, hkeeps⟩ := h.arities
  obtain ⟨inferred, hkept, hout⟩ := hkeeps i List.mem_cons_self
  -- the first instruction reads what was in scope, where the final arities are those of `s`
  have harity : HasArity signature s.arities i inferred := by
    refine hkept.congr fun r hr => (hextends r ?_).symm
    simpa [definedRegs] using h.reads [] i rest rfl r hr
  have hextend := fun r => arities_extend_of_hasArity (r := r) (k := k) harity
  have honce := h.definesOnce
  rw [definedRegs_cons, List.nodup_append'] at honce
  obtain ⟨-, honce, hdisjoint⟩ := honce
  refine ⟨inferred, harity, ?reads, honce, ?definesNew, arities, ?known, fun j hj =>
    hkeeps j (List.mem_cons_of_mem i hj)⟩
  case reads =>
    rintro before j after rfl r hr
    rw [hextend]
    split_ifs with hri
    · exact .inl (harity.isSome_eq.trans (by rw [hri]; rfl))
    · have hread := h.reads (i :: before) j after rfl r hr
      rwa [mem_definedRegs_cons, or_iff_right hri] at hread
  case definesNew =>
    intro r hr
    have hri : i.output? ≠ some r := by
      intro hri
      exact hdisjoint (by simp [hri]) hr
    rw [hextend, if_neg hri]
    exact h.definesNew r (mem_definedRegs_cons.2 (.inr hr))
  case known =>
    intro r hr
    rw [hextend] at hr ⊢
    split_ifs at hr ⊢ with hri
    · exact hout r hri
    · exact hextends r hr

/-- Instructions may follow on a scope after one that keeps the rules there. -/
lemma Admits.cons (harity : HasArity signature s.arities i inferred)
    (hnew : ∀ r, i.output? = some r → s.arities r = none)
    (h : (s.extend k i inferred).Admits signature rest) : s.Admits signature (i :: rest) := by
  have hextend := fun r => arities_extend_of_hasArity (r := r) (k := k) harity
  have hafter : ∀ r ∈ definedRegs rest, i.output? ≠ some r ∧ s.arities r = none := by
    intro r hr
    have hnone := h.definesNew r hr
    rw [hextend] at hnone
    by_cases hri : i.output? = some r
    · have hsome := harity.isSome_eq
      rw [if_pos hri] at hnone
      simp [hnone, hri] at hsome
    · rw [if_neg hri] at hnone
      exact ⟨hri, hnone⟩
  obtain ⟨arities, hextends, hkeeps⟩ := h.arities
  -- the arities of the rest do for the whole, since the first register is new
  have hknown : ∀ r, (s.arities r).isSome → arities r = s.arities r := by
    intro r hr
    have hri : i.output? ≠ some r := by
      intro hri
      simp [hnew r hri] at hr
    have hsame : (s.extend k i inferred).arities r = s.arities r := by rw [hextend, if_neg hri]
    rw [hextends r (by rwa [hsame]), hsame]
  refine ⟨?reads, ?definesOnce, ?definesNew, arities, hknown, ?keeps⟩
  case reads =>
    intro before j after heq r hr
    cases before with
    | nil =>
      cases heq
      exact .inl (harity.isSome_of_mem_sources hr)
    | cons b before =>
      cases heq
      have hread := h.reads before j after rfl r hr
      rw [mem_definedRegs_cons]
      rcases hread with hsome | hmem
      · rcases isSome_arities_extend hsome with hri | hsome
        · exact .inr (.inl hri)
        · exact .inl hsome
      · exact .inr (.inr hmem)
  case definesOnce =>
    rw [definedRegs_cons, List.nodup_append']
    refine ⟨?_, h.definesOnce, ?_⟩
    · cases i.output? <;> simp
    · intro r hr hmem
      exact (hafter r hmem).1 (by simpa using hr)
  case definesNew =>
    intro r hr
    rw [mem_definedRegs_cons] at hr
    rcases hr with hri | hmem
    · exact hnew r hri
    · exact (hafter r hmem).2
  case keeps =>
    intro j hj
    rw [List.mem_cons] at hj
    rcases hj with rfl | hj
    · refine ⟨inferred, harity.congr fun r hr => hknown r (harity.isSome_of_mem_sources hr), ?_⟩
      intro r hri
      have hdefined : (s.extend k j inferred).arities r = inferred := by rw [hextend, if_pos hri]
      rw [hextends r (by rw [hdefined, harity.isSome_eq, hri]; rfl), hdefined]
    · exact hkeeps j hj

/-- Instructions may follow on a scope if the first keeps the rules there, and the others may
follow on the scope after it. -/
lemma admits_cons_iff (k : Nat) : s.Admits signature (i :: rest) ↔
    ∃ inferred, HasArity signature s.arities i inferred ∧
      (∀ out, i.output? = some out → s.get? out = none) ∧
        (s.extend k i inferred).Admits signature rest := by
  simp only [← arities_eq_none]
  constructor
  · intro h
    obtain ⟨inferred, harity, hrest⟩ := h.uncons k
    exact ⟨inferred, harity, fun r hr => h.definesNew r (mem_definedRegs_cons.2 (.inl hr)), hrest⟩
  · rintro ⟨inferred, harity, hnew, hrest⟩
    exact hrest.cons harity hnew

/-- The check of instructions succeeds exactly if they may follow on the scope. -/
lemma exists_defineAll_eq_ok_iff :
    (∃ s', s.defineAll signature k instrs = .ok s') ↔ s.Admits signature instrs := by
  -- the scope varies in the induction: each instruction is admitted on what those before it leave
  induction instrs generalizing s k with
  | nil =>
    constructor
    · intro _
      exact admits_nil
    · intro _
      exact ⟨s, rfl⟩
  | cons i rest ih =>
    simp only [defineAll_cons_eq_ok, admits_cons_iff k, ← @ih _ (k + 1)]
    constructor
    · rintro ⟨s', inferred, harity, hnew, hrest⟩
      exact ⟨inferred, harity, hnew, s', hrest⟩
    · rintro ⟨inferred, harity, hnew, s', hrest⟩
      exact ⟨s', inferred, harity, hnew, hrest⟩

@[simp] lemma size_empty : empty.size = 0 := rfl

lemma map_fst_entries_extend (h : HasArity signature s.arities i inferred) :
    (s.extend k i inferred).entries.map Prod.fst =
      i.output?.toList ++ s.entries.map Prod.fst := by
  cases hout : i.output? with
  | none => simp [extend_of_output?_eq_none hout]
  | some out =>
    obtain ⟨t, rfl⟩ := h.exists_eq_some hout
    simp [extend, hout]

/-- The registers in scope are those that were defined, the latest first. -/
lemma map_fst_entries_of_defineAll (h : s.defineAll signature k instrs = .ok s') :
    s'.entries.map Prod.fst = (definedRegs instrs).reverse ++ s.entries.map Prod.fst := by
  induction instrs generalizing s k with
  | nil =>
    cases h
    rfl
  | cons i rest ih =>
    obtain ⟨inferred, harity, -, hrest⟩ := defineAll_cons_eq_ok.1 h
    rw [ih hrest, map_fst_entries_extend harity, definedRegs_cons, List.reverse_append,
      List.append_assoc]
    cases i.output? <;> rfl

/-- The scope grows by one register for each definition. -/
lemma size_of_defineAll_eq_ok (h : s.defineAll signature k instrs = .ok s') :
    s'.size = s.size + (definedRegs instrs).length := by
  have hlength := congrArg List.length (map_fst_entries_of_defineAll h)
  simpa [size, Nat.add_comm] using hlength

end Scope

/-! ### Numbers of registers -/

/-- Where no register comes twice and all are below a number, they are all registers below the
number if there are as many. -/
lemma length_eq_iff_forall_mem {rs : List Reg} {count : UInt32} (hnodup : rs.Nodup)
    (hlt : ∀ r ∈ rs, r < count) : rs.length = count.toNat ↔ ∀ r, r < count → r ∈ rs := by
  have hnodup' : (rs.map UInt32.toNat).Nodup :=
    hnodup.map fun _ _ h => UInt32.toNat_inj.1 h
  have hsubset : rs.map UInt32.toNat ⊆ List.range count.toNat := by
    intro n hn
    obtain ⟨r, hr, rfl⟩ := List.mem_map.1 hn
    exact List.mem_range.2 (UInt32.lt_iff_toNat_lt.1 (hlt r hr))
  constructor
  · intro hlength r hr
    have hperm := (hnodup'.subperm hsubset).perm_of_length_le (by simp [hlength])
    have hmem := hperm.mem_iff.2 (List.mem_range.2 (UInt32.lt_iff_toNat_lt.1 hr))
    obtain ⟨r', hr', heq⟩ := List.mem_map.1 hmem
    rwa [← UInt32.toNat_inj.1 heq]
  · intro hall
    have hperm : (rs.map UInt32.toNat).Perm (List.range count.toNat) := by
      rw [List.perm_ext_iff_of_nodup hnodup' List.nodup_range]
      intro n
      constructor
      · exact fun hn => hsubset hn
      · intro hn
        rw [List.mem_range] at hn
        have hsize := hn.trans count.toNat_lt_size
        refine List.mem_map.2 ⟨UInt32.ofNat n, hall _ ?_, UInt32.toNat_ofNat_of_lt' hsize⟩
        rwa [UInt32.lt_iff_toNat_lt, UInt32.toNat_ofNat_of_lt' hsize]
    simpa using hperm.length_eq

/-! ### Programs -/

lemma unwritten?_eq_none {signature : Signature} {instrs : List Instr} :
    unwritten? signature instrs = none ↔
      ∀ slot < signature.outputs.length, Stores instrs slot := by
  simp [unwritten?, Stores, List.find?_eq_none]

/-- A list of instructions is accepted on its own if it reads what it defined before, defines every
register once and keeps the arities. -/
lemma admits_empty_iff {signature : Signature} {instrs : List Instr} :
    Scope.empty.Admits signature instrs ↔ ReadsDefined instrs ∧ (definedRegs instrs).Nodup ∧
      ∃ arities, KeepsArities signature arities instrs := by
  constructor
  · intro h
    obtain ⟨arities, -, hkeeps⟩ := h.arities
    exact ⟨by simpa [ReadsDefined] using h.reads, h.definesOnce, arities, hkeeps⟩
  · rintro ⟨hreads, hnodup, arities, hkeeps⟩
    exact ⟨by simpa [ReadsDefined] using hreads, hnodup, by simp, arities, by simp, hkeeps⟩

/-- A program is accepted exactly if it is well formed. -/
theorem Program.check_eq_ok_iff_wellFormed {p q : Program} :
    p.check = .ok q ↔ p.WellFormed ∧ q = p := by
  rw [check_eq_ok]
  constructor
  · rintro ⟨rfl, scope, hscope, hlt, hsize⟩
    obtain ⟨hposition, hdefine, hwritten⟩ := checkInstrs_eq_ok.1 hscope
    obtain ⟨hreads, honce, harities⟩ :=
      admits_empty_iff.1 (Scope.exists_defineAll_eq_ok_iff.1 ⟨scope, hdefine⟩)
    have hlength : (definedRegs q.instrs).length = q.regCount.toNat := by
      rw [← hsize, Scope.size_of_defineAll_eq_ok hdefine, Scope.size_empty, Nat.zero_add]
    have hall := (length_eq_iff_forall_mem honce hlt).1 hlength
    exact ⟨⟨checkPosition_eq_ok.1 hposition, hreads, honce, harities,
      unwritten?_eq_none.1 hwritten, fun r => ⟨hlt r, hall r⟩⟩, rfl⟩
  · rintro ⟨h, rfl⟩
    obtain ⟨scope, hdefine⟩ := (Scope.exists_defineAll_eq_ok_iff (k := 0)).2
      (admits_empty_iff.2 ⟨h.readsDefined, h.definesOnce, h.arities⟩)
    have hlt : ∀ r ∈ definedRegs q.instrs, r < q.regCount := fun r => (h.numbered r).1
    refine ⟨rfl, scope, ?_, hlt, ?_⟩
    · rw [checkInstrs_eq_ok]
      exact ⟨checkPosition_eq_ok.2 h.position, hdefine, unwritten?_eq_none.2 h.stores⟩
    · rw [Scope.size_of_defineAll_eq_ok hdefine, Scope.size_empty, Nat.zero_add,
        length_eq_iff_forall_mem h.definesOnce hlt]
      exact fun r => (h.numbered r).2

end GraphicsPipeline
