import GraphicsPipeline.Proofs.Shader.Draft

/-!
# Compiled drafts

A draft that was compiled stays as it is: every call fails (`Draft.closed_of_compiled`). Calls that
look up channels do so before they ask whether the draft still takes edits, and where one is not
found, that is the error they give.
-/

namespace GraphicsPipeline

/-- Four operations before one that fails fail with the first error that there is. -/
lemma Vec4.mapM_bind_error {ε α β γ : Type} {f : α → Except ε β} {g : α → Option ε} {v : Vec4 α}
    (h : ∀ a e, (f a >>= fun _ => (.error e : Except ε γ)) = .error ((g a).getD e)) (e : ε) :
    (v.mapM f >>= fun _ => (.error e : Except ε γ)) = .error ((v.toList.findSome? g).getD e) := by
  simp only [mapM, bind_assoc, pure_bind, h, toList, List.findSome?_cons, List.findSome?_nil]
  cases g v.x <;> cases g v.y <;> cases g v.z <;> cases g v.w <;> rfl

namespace Channel

lemma exists_ofIndex? {n : Nat} (h : n < 4) : ∃ c, ofIndex? n = some c := by
  interval_cases n <;> exact ⟨_, rfl⟩

lemma ofIndex?_eq_none {n : Nat} (h : 4 ≤ n) : ofIndex? n = none := by
  obtain ⟨k, rfl⟩ := Nat.exists_eq_add_of_le' h
  rfl

end Channel

namespace Draft

/-! ### Channels that are looked up -/

/-- The channels that an edit looks up, in order. -/
def Edit.lookups : Edit → List RawSwizzle
  | pushInput _ | pushOutput _ | pushPosition | push _ => []
  | mov4 _ parts => parts.toList
  | fmulSwizzle _ _ parts => parts.toList
  | loadChannel _ part => [part]

/-- The channels that a call looks up, in order. -/
def Call.lookups : Call → List RawSwizzle
  | edit e => e.lookups
  | compile => []

/-- What keeps a channel from being found: its register is not defined, or it is none of the four.
-/
def missing? (d : Draft) (p : RawSwizzle) : Option Error :=
  match d.scope.get? p.reg with
  | none => some (.undefinedRegister p.reg)
  | some info => if p.sub < 4 then none else some (.badChannel p.sub info.arity)

variable {d : Draft} {p : RawSwizzle} {i : Instr} {reply : Option Bytes}

lemma swizzle_or_missing (d : Draft) (p : RawSwizzle) :
    (∃ s, d.swizzle p = .ok s ∧ d.missing? p = none) ∨
      ∃ e, d.swizzle p = .error e ∧ d.missing? p = some e := by
  unfold swizzle missing? Scope.arity Scope.get
  cases d.scope.get? p.reg with
  | none => exact .inr ⟨_, rfl, rfl⟩
  | some info =>
    by_cases hsub : p.sub < 4
    · obtain ⟨c, hc⟩ := Channel.exists_ofIndex? (UInt32.lt_iff_toNat_lt.1 hsub)
      exact .inl ⟨⟨p.reg, c⟩, by simp [hc], if_pos hsub⟩
    · have hnone := Channel.ofIndex?_eq_none (UInt32.le_iff_toNat_le.1 (UInt32.not_lt.1 hsub))
      exact .inr ⟨.badChannel p.sub info.arity, by simp [hnone], if_neg hsub⟩

lemma missing?_ne_alreadyCompiled : d.missing? p ≠ some .alreadyCompiled := by
  unfold missing?
  split
  · simp
  · split <;> simp

lemma swizzle_bind_error {α : Type} (p : RawSwizzle) (e : Error) :
    (d.swizzle p >>= fun _ => (.error e : Except Error α)) = .error ((d.missing? p).getD e) := by
  rcases d.swizzle_or_missing p with ⟨s, hs, hmissing⟩ | ⟨e', hs, hmissing⟩
  · rw [hs, hmissing]
    rfl
  · rw [hs, hmissing]
    rfl

/-! ### Finalized drafts -/

lemma push_of_finalized (h : d.finalized) : d.push i = .error .alreadyCompiled := by
  simp [push, opened, h]

lemma apply_of_finalized (h : d.finalized) (e : Edit) :
    d.apply e = .error ((e.lookups.findSome? d.missing?).getD .alreadyCompiled) := by
  cases e with
  | pushInput a | pushOutput a | pushPosition | push i =>
    simp [apply, pushInput, pushOutput, pushPosition, push, opened, h, Edit.lookups]
  | mov4 out parts =>
    simp only [apply, push_of_finalized h, Edit.lookups]
    exact Vec4.mapM_bind_error swizzle_bind_error _
  | fmulSwizzle out a parts =>
    simp only [apply, push_of_finalized h, Edit.lookups]
    exact Vec4.mapM_bind_error swizzle_bind_error _
  | loadChannel out part =>
    simp only [apply, push_of_finalized h, Edit.lookups, List.findSome?_singleton]
    exact swizzle_bind_error part _

lemma call_of_finalized (h : d.finalized) (c : Call) :
    d.call c = .error ((c.lookups.findSome? d.missing?).getD .alreadyCompiled) := by
  cases c with
  | edit e => rw [call, apply_of_finalized h e, error_bind, Call.lookups]
  | compile => simp [call, compile, opened, h, Call.lookups]

lemma change_of_finalized (h : d.finalized) (c : Call) :
    d.change c = (d, .error ((c.lookups.findSome? d.missing?).getD .alreadyCompiled)) := by
  rw [change_eq_step, step, call_of_finalized h c]

lemma changedBy_of_finalized (h : d.finalized) (calls : List Call) : d.changedBy calls = d := by
  induction calls with
  | nil => rfl
  | cons c calls ih => rw [changedBy, change_of_finalized h c, ih]

lemma finalized_of_compiled (h : (d.change .compile).2 = .ok reply) :
    (d.change .compile).1.finalized := by
  rw [change_eq_step] at h ⊢
  rcases d.step_cases .compile with ⟨d', reply', hcall, hstep⟩ | ⟨e, -, hstep⟩
  · simp only [call, compile, bind_eq_ok, pure_eq_ok, Prod.mk.injEq] at hcall
    obtain ⟨_, ⟨_, -, p, -, -, rfl⟩, rfl, -⟩ := hcall
    rw [hstep]
  · rw [hstep] at h
    cases h

/-- After it was compiled a draft stays as it is. Every call fails, with the error that the draft
was compiled already, unless the call looks up channels and one of them is not found; then the error
is that of the first of these. -/
theorem closed_of_compiled (h : (d.change .compile).2 = .ok reply) (calls : List Call) (c : Call) :
    (d.change .compile).1.changedBy calls = (d.change .compile).1 ∧
      (d.change .compile).1.change c = ((d.change .compile).1,
        .error ((c.lookups.findSome? (d.change .compile).1.missing?).getD .alreadyCompiled)) ∧
      (((d.change .compile).1.change c).2 = .error .alreadyCompiled ↔
        ∀ p ∈ c.lookups, (d.change .compile).1.missing? p = none) := by
  have hfinalized := finalized_of_compiled h
  generalize (d.change .compile).1 = d' at hfinalized ⊢
  have hchange := change_of_finalized hfinalized c
  refine ⟨changedBy_of_finalized hfinalized calls, hchange, ?_⟩
  rw [hchange, ← List.findSome?_eq_none_iff]
  cases hmissing : c.lookups.findSome? d'.missing? with
  | none => simp
  | some e =>
    obtain ⟨p, -, hp⟩ := List.exists_of_findSome?_eq_some hmissing
    -- a failed look-up has an error of its own, so that the two errors are told apart
    have hne : e ≠ .alreadyCompiled := by
      rintro rfl
      exact missing?_ne_alreadyCompiled hp
    simp [hne]

/-- A program that stores one colour. -/
def oneColor : Draft :=
  empty.changedBy [.edit (.pushOutput .vec4), .edit (.push (.constVec4 0 (.fill .one))),
    .edit (.push (.store 0 0))]

/-- A vector of four channels of one register. -/
def fourOf (r : Reg) : Call := .edit (.mov4 1 (.fill ⟨r, 0⟩))

/-- Channels of a register that there is, then of one that there is not. -/
theorem closed_of_compiled_oneColor :
    ((oneColor.change .compile).1.change (fourOf 0)).2 = .error .alreadyCompiled ∧
      ((oneColor.change .compile).1.change (fourOf 9)).2 = .error (.undefinedRegister 9) ∧
      (oneColor.change .compile).1.changedBy [fourOf 9, .compile] =
        (oneColor.change .compile).1 := by
  obtain ⟨reply, hreply⟩ : ∃ reply, (oneColor.change .compile).2 = .ok reply := ⟨_, rfl⟩
  obtain ⟨-, -, hfound⟩ := closed_of_compiled hreply [] (fourOf 0)
  obtain ⟨hsame, hchange, -⟩ := closed_of_compiled hreply [fourOf 9, .compile] (fourOf 9)
  exact ⟨hfound.2 (by decide), congrArg Prod.snd hchange, hsame⟩

/-- Not every call on a compiled draft fails with the error that it was compiled already. -/
theorem not_closed_oneColor :
    ¬∀ (d : Draft) (reply : Option Bytes) (c : Call), (d.change .compile).2 = .ok reply →
      (d.change .compile).1.change c = ((d.change .compile).1, .error .alreadyCompiled) := by
  intro hclosed
  have hchange := congrArg Prod.snd (hclosed oneColor _ (fourOf 9) rfl)
  exact absurd hchange (by decide)

end Draft

end GraphicsPipeline
