import GraphicsPipeline.Proofs.Shader.Running
import GraphicsPipeline.Proofs.Word.Basic
import GraphicsPipeline.Shader.Agreement

/-!
# Reading what was written

Each reader accepts exactly the bytes that stand for what it gives back, with the rest of the bytes
left for what follows: codes, records, lists of slots, the instructions. So a program is read from
its own front, followed by records that agree with those of its instructions, and from nothing else
(`Program.decode_eq_ok`).
-/

namespace GraphicsPipeline

/-! ### Codes -/

@[simp] lemma Arity.ofCode?_code (a : Arity) : ofCode? a.code = some a := by
  cases a <;> rfl

@[simp] lemma Channel.ofCode?_code (c : Channel) : ofCode? c.code = some c := by
  cases c <;> rfl

@[simp] lemma Opcode.ofCode?_code (k : Opcode) : ofCode? k.code = some k := by
  cases k <;> rfl

lemma Arity.ofCode?_eq_some {b : UInt8} {a : Arity} : ofCode? b = some a ↔ b = a.code := by
  constructor
  · intro h
    unfold ofCode? at h
    rw [← UInt8.toNat_inj]
    split at h <;> cases h <;> assumption
  · rintro rfl
    exact ofCode?_code a

lemma Arity.code_injective : Function.Injective code := by
  intro a a' h
  have ha := ofCode?_code a
  rw [h, ofCode?_code] at ha
  exact (Option.some.inj ha).symm

lemma Channel.ofCode?_eq_some {b : UInt8} {c : Channel} : ofCode? b = some c ↔ b = c.code := by
  constructor
  · intro h
    unfold ofCode? ofIndex? at h
    rw [← UInt8.toNat_inj]
    split at h <;> cases h <;> assumption
  · rintro rfl
    exact ofCode?_code c

lemma Opcode.ofCode?_eq_some {b : UInt8} {k : Opcode} : ofCode? b = some k ↔ b = k.code := by
  constructor
  · intro h
    have hk : all[k.code.toNat]? = some k := ofCode?_code k
    have hnodup : all.Nodup := by decide
    obtain ⟨hlt, -⟩ := List.getElem?_eq_some_iff.1 h
    rw [← UInt8.toNat_inj]
    exact (List.getElem?_inj hlt hnodup).1 (h.trans hk.symm)
  · rintro rfl
    exact ofCode?_code k

/-! ### Records -/

namespace Record

variable {r s : Record} {i : Instr}

lemma length_encode (r : Record) : r.encode.length = length := by
  simp [encode, LittleEndian.encode, Vec4.toList, length]

/-- A record is read from its 32 bytes, and from no others. -/
lemma take?_eq_some {bytes rest : Bytes} :
    take? bytes = some (r, rest) ↔ bytes = r.encode ++ rest := by
  constructor
  · intro h
    unfold take? at h
    split at h
    · simp only [Option.bind_eq_bind, Option.bind_eq_some_iff, Prod.exists,
        LittleEndian.takeWord?_eq_some] at h
      obtain ⟨out, _, rfl, arg₀, _, rfl, arg₁, _, rfl, arg₂, _, rfl, arg₃, _, rfl, arg₄, _, rfl,
        h⟩ := h
      split at h
      · cases h
        simp [encode, Vec4.toList]
      · cases h
    · cases h
  · rintro rfl
    simp only [encode, List.append_assoc, List.cons_append, List.nil_append, take?,
      LittleEndian.takeWord?_eq_some.2 rfl, Option.bind_eq_bind, Option.bind_some, Vec4.toList]

lemma channel_eq_ok {b : UInt8} {c : Channel} : channel b = .ok c ↔ b = c.code := by
  rw [← Channel.ofCode?_eq_some, channel]
  cases Channel.ofCode? b <;> simp

lemma swizzles_eq_ok {parts : Vec4 Swizzle} : r.swizzles = .ok parts ↔
    r.arg₁ = parts.x.reg ∧ r.arg₂ = parts.y.reg ∧ r.arg₃ = parts.z.reg ∧ r.arg₄ = parts.w.reg ∧
      r.channels = parts.map fun s => s.channel.code := by
  obtain ⟨⟨_, _⟩, ⟨_, _⟩, ⟨_, _⟩, ⟨_, _⟩⟩ := parts
  simp only [swizzles, bind_eq_ok, Vec4.mapM_eq_ok, channel_eq_ok, pure_eq_ok, Vec4.map]
  constructor
  · rintro ⟨_, ⟨hx, hy, hz, hw⟩, h⟩
    cases h
    exact ⟨rfl, rfl, rfl, rfl, by rw [← hx, ← hy, ← hz, ← hw]⟩
  · rintro ⟨rfl, rfl, rfl, rfl, h⟩
    rw [h]
    exact ⟨⟨_, _, _, _⟩, ⟨rfl, rfl, rfl, rfl⟩, rfl⟩

lemma channels_eq_fill (h : ¬(r.channels.toList.drop 0).any (· ≠ noChannel)) :
    r.channels = .fill noChannel := by
  rcases hr : r.channels with ⟨x, y, z, w⟩
  simpa [Vec4.toList, Vec4.fill, hr] using h

/-- Of the operand words, those that the kind of instruction uses have to agree. -/
lemma Agrees.of_places {kind : Opcode} (hkind : Opcode.ofCode? r.opcode = some kind)
    (opcode : r.opcode = s.opcode) (reserved : r.reserved = s.reserved) (out : r.out = s.out)
    (operands : ∀ k ∈ kind.operandPlaces, r.operands[k]? = s.operands[k]?)
    (channels : r.channels = s.channels) : r.Agrees s where
  opcode := opcode
  reserved := reserved
  out := out
  operands kind' hkind' := by
    cases hkind.symm.trans hkind'
    exact operands
  channels := channels

lemma Agrees.refl (r : Record) : r.Agrees r where
  opcode := rfl
  reserved := rfl
  out := rfl
  operands _ _ _ _ := rfl
  channels := rfl

/-- Records that agree are read alike. -/
lemma Agrees.toInstr_eq (h : r.Agrees s) : r.toInstr = s.toInstr := by
  obtain ⟨opcode, reserved, out, operands, channels⟩ := h
  rw [opcode] at operands
  simp only [toInstr, swizzles, reserved, opcode, out, channels]
  cases hkind : Opcode.ofCode? s.opcode with
  | none => rfl
  | some kind =>
    have hplaces := operands kind hkind
    cases kind <;>
      simp only [Opcode.operandPlaces, List.forall_mem_cons, List.not_mem_nil, false_implies,
        implies_true, and_true, Record.operands, List.getElem?_cons_zero, List.getElem?_cons_succ,
        Option.some.injEq] at hplaces <;>
      simp only [hplaces] <;> rfl

/-- An instruction is read back from its record, unless its register is the word that stands for
none. -/
lemma toInstr_ofInstr {i : Instr} (h : i.output? ≠ some noWord) : (ofInstr i).toInstr = .ok i := by
  have hchannel : ∀ c : Channel, channel c.code = .ok c := fun c => channel_eq_ok.2 rfl
  cases i <;>
    simp only [Instr.output?, ne_eq, Option.some.injEq, reduceCtorEq, not_false_eq_true] at h <;>
    simp [h, hchannel, toInstr, ofInstr, plain, swizzled, Instr.opcode, selectorCount, Vec4.toList,
      Vec4.fill, swizzles, Vec4.mapM, Vec4.map]

/-- A record that is read as an instruction agrees with the record of the instruction. -/
lemma agrees_of_toInstr (h : r.toInstr = .ok i) :
    r.Agrees (ofInstr i) ∧ i.output? ≠ some noWord := by
  simp only [toInstr, throw_bind, ite_error_eq_ok, ne_eq, not_not] at h
  obtain ⟨hreserved, h⟩ := h
  split at h
  case h_2 => cases h
  case h_1 kind hkind =>
    simp only [pure_bind, ite_error_eq_ok] at h
    obtain ⟨hchannels, hout, h⟩ := h
    have hopcode := Opcode.ofCode?_eq_some.1 hkind
    cases kind
    case mov4 | fmulSwizzle =>
      simp only [bind_eq_ok, pure_eq_ok, swizzles_eq_ok] at h
      obtain ⟨parts, ⟨hx, hy, hz, hw, hparts⟩, rfl⟩ := h
      refine ⟨.of_places hkind hopcode hreserved rfl ?_ hparts, by simpa [Instr.output?] using hout⟩
      simp [Opcode.operandPlaces, operands, ofInstr, swizzled, hx, hy, hz, hw]
    case extract =>
      simp only [bind_eq_ok, pure_eq_ok, channel_eq_ok] at h
      obtain ⟨c, hc, rfl⟩ := h
      refine ⟨.of_places hkind hopcode hreserved rfl ?_ ?_, by simpa [Instr.output?] using hout⟩
      · simp [Opcode.operandPlaces, operands, ofInstr]
      · rcases hr : r.channels with ⟨x, y, z, w⟩
        simp_all [Vec4.toList, selectorCount, ofInstr]
    case store =>
      dsimp only at h
      split at h
      case isTrue => simp at h
      case isFalse hnone =>
        cases h
        refine ⟨.of_places hkind hopcode hreserved (not_not.1 hnone) ?_
          (channels_eq_fill hchannels), by simp [Instr.output?]⟩
        simp [Opcode.operandPlaces, operands, ofInstr, plain]
    -- the other kinds of instructions have a register and no channels
    all_goals
      cases h
      refine ⟨.of_places hkind hopcode hreserved rfl ?_ (channels_eq_fill hchannels),
        by simpa [Instr.output?] using hout⟩
      simp [Opcode.operandPlaces, operands, ofInstr, plain]

/-- An instruction is read from the records that agree with its own, and from no others. -/
theorem toInstr_eq_ok :
    r.toInstr = .ok i ↔ r.Agrees (ofInstr i) ∧ i.output? ≠ some noWord := by
  constructor
  · exact agrees_of_toInstr
  · rintro ⟨hagrees, hout⟩
    rw [hagrees.toInstr_eq, toInstr_ofInstr hout]

end Record

/-! ### Programs -/

namespace Program

variable {p : Program} {bytes : Bytes}

/-- The words of the header. -/
def header (p : Program) : List UInt32 :=
  [version, stageCode p.stage, p.position.getD noWord, p.regCount, UInt32.ofNat p.inputs.length,
    UInt32.ofNat p.outputs.length, UInt32.ofNat p.instrs.length]

/-- The bytes before the first record: the header and the slots. -/
def front (p : Program) : Bytes :=
  magic ++ p.header.flatMap LittleEndian.encode ++ (p.inputs ++ p.outputs).map Arity.code

lemma encode_eq_front_append (p : Program) :
    p.encode = p.front ++ (p.instrs.map Record.ofInstr).flatMap Record.encode := by
  rw [encode, front, header, List.flatMap_map]

lemma takeWords?_header (p : Program) (body : Bytes) :
    LittleEndian.takeWords? 7 (p.header.flatMap LittleEndian.encode ++ body) =
      some (p.header, body) :=
  LittleEndian.takeWords?_eq_some.2 ⟨rfl, rfl⟩

lemma takeSlots_eq_ok {slots rest : Bytes} {count : UInt32} :
    takeSlots count bytes = .ok (slots, rest) ↔
      slots.length = count.toNat ∧ bytes = slots ++ rest := by
  simp only [takeSlots, ite_error_eq_ok, Except.ok.injEq, List.splitAt_eq, Prod.mk.injEq, not_lt]
  constructor
  · rintro ⟨hle, rfl, rfl⟩
    exact ⟨by simpa using hle, (List.take_append_drop _ _).symm⟩
  · rintro ⟨hlength, rfl⟩
    exact ⟨by simp [hlength], List.take_left' hlength, List.drop_left' hlength⟩

lemma decodeSlots_eq_ok {slots : List Arity} :
    decodeSlots bytes = .ok slots ↔ bytes = slots.map Arity.code := by
  rw [decodeSlots, mapM_eq_ok, ← List.forall₂_eq_eq_eq, List.forall₂_map_right_iff]
  constructor
  · intro h
    apply h.imp
    intro b a hb
    rw [← Arity.ofCode?_eq_some]
    split at hb <;> simp_all
  · intro h
    apply h.imp
    rintro _ a rfl
    simp

/-- Instructions are read from records one after another that fill the bytes. -/
lemma decodeInstrs_eq_ok {count : Nat} {instrs : List Instr}
    (hlength : bytes.length = Record.length * count) :
    decodeInstrs count bytes = .ok instrs ↔ instrs.length = count ∧
      ∃ records, bytes = records.flatMap Record.encode ∧
        List.Forall₂ (fun r i => r.toInstr = .ok i) records instrs := by
  -- the length is kept along in the induction, so that nothing is left over at its end
  induction count generalizing bytes instrs with
  | zero =>
    have hbytes : bytes = [] := List.eq_nil_of_length_eq_zero hlength
    simp only [decodeInstrs, Except.ok.injEq, hbytes]
    constructor
    · rintro rfl
      exact ⟨rfl, [], rfl, .nil⟩
    · rintro ⟨hnil, -⟩
      exact (List.eq_nil_of_length_eq_zero hnil).symm
  | succ count ih =>
    simp only [decodeInstrs]
    constructor
    · intro h
      split at h
      case h_1 => cases h
      case h_2 r rest hr =>
        rw [Record.take?_eq_some] at hr
        subst hr
        rw [List.length_append, Record.length_encode, Nat.mul_succ, Nat.add_comm] at hlength
        simp only [bind_eq_ok, pure_eq_ok] at h
        obtain ⟨i, hi, instrs, hinstrs, rfl⟩ := h
        obtain ⟨hcount, records, rfl, hrecords⟩ := (ih (Nat.add_right_cancel hlength)).1 hinstrs
        exact ⟨by simp [hcount], r :: records, by simp, .cons hi hrecords⟩
    · rintro ⟨hcount, records, rfl, hrecords⟩
      cases hrecords with
      | nil => simp at hcount
      | @cons r i records instrs hi hrecords =>
        rw [List.flatMap_cons, List.length_append, Record.length_encode, Nat.mul_succ,
          Nat.add_comm] at hlength
        have hinstrs := (ih (Nat.add_right_cancel hlength)).2
          ⟨by simpa using hcount, records, rfl, hrecords⟩
        simp only [List.flatMap_cons, Record.take?_eq_some.2 rfl, hi, ok_bind, hinstrs]
        rfl

lemma decodePosition_eq_ok {stageWord position : UInt32} :
    decodePosition stageWord position = .ok p.position ↔ stageWord = stageCode p.stage ∧
      position = p.position.getD noWord ∧ p.position ≠ some noWord := by
  simp only [decodePosition, ite_ok_eq_ok, stage]
  by_cases hposition : position = noWord
  · cases p.position with
    | none => simp [stageCode, hposition]
    | some slot => simp [stageCode, hposition, eq_comm]
  · cases p.position with
    | none => simp [stageCode, hposition]
    | some slot =>
      have hslot : position = slot → slot ≠ noWord := by
        rintro rfl
        exact hposition
      simpa [stageCode, hposition] using fun _ => hslot

lemma decodeBody_eq_ok {stageWord position regCount inputCount outputCount instrCount : UInt32} :
    decodeBody stageWord position regCount inputCount outputCount instrCount bytes = .ok p ↔
      (stageWord = stageCode p.stage ∧ position = p.position.getD noWord ∧
        p.position ≠ some noWord) ∧ regCount = p.regCount ∧ p.inputs.length = inputCount.toNat ∧
        p.outputs.length = outputCount.toNat ∧ p.instrs.length = instrCount.toNat ∧
        p.check = .ok p ∧ ∃ records : List Record, bytes = (p.inputs ++ p.outputs).map Arity.code ++
          records.flatMap Record.encode ∧
            List.Forall₂ (fun r i => r.toInstr = .ok i) records p.instrs := by
  simp only [decodeBody, bind_eq_ok, throw_bind, ite_error_eq_ok, Prod.exists, takeSlots_eq_ok,
    decodeSlots_eq_ok, not_not]
  constructor
  · rintro ⟨_, _, ⟨hinputs, rfl⟩, _, rest, ⟨houtputs, rfl⟩, inputs, rfl, outputs, rfl, hlength,
      instrs, hinstrs, position', hposition, hcheck⟩
    obtain ⟨rfl, -⟩ := check_eq_ok.1 hcheck
    obtain ⟨hcount, records, rfl, hrecords⟩ := (decodeInstrs_eq_ok hlength).1 hinstrs
    refine ⟨decodePosition_eq_ok.1 hposition, rfl, by simpa using hinputs, by simpa using houtputs,
      hcount, hcheck, records, by simp, hrecords⟩
  · rintro ⟨hposition, rfl, hinputs, houtputs, hcount, hcheck, records, rfl, hrecords⟩
    have hlength : (records.flatMap Record.encode).length =
        Record.length * instrCount.toNat := by
      rw [← hcount, ← hrecords.length_eq]
      simp [List.length_flatMap, Record.length_encode, Nat.mul_comm]
    exact ⟨_, _, ⟨by simpa using hinputs, by simp⟩, _, _, ⟨by simpa using houtputs, rfl⟩, _, rfl, _,
      rfl, hlength, _, (decodeInstrs_eq_ok hlength).2 ⟨hcount, records, rfl, hrecords⟩, _,
      decodePosition_eq_ok.2 hposition, hcheck⟩

/-- The header has room for the numbers of slots and of instructions. -/
structure FitsHeader (p : Program) : Prop where
  inputs : p.inputs.length < UInt32.size
  outputs : p.outputs.length < UInt32.size
  instrs : p.instrs.length < UInt32.size

/-- No register of a checked program has the number that stands for none. -/
lemma output?_ne_noWord {i : Instr} (accepted : p.check = .ok p) (hi : i ∈ p.instrs) :
    i.output? ≠ some noWord := by
  intro hout
  obtain ⟨-, _, -, hregs, -⟩ := check_eq_ok.1 accepted
  have hlt := UInt32.lt_iff_toNat_lt.1 (hregs noWord (List.mem_filterMap.2 ⟨i, hi, hout⟩))
  have hcount := p.regCount.toNat_lt_size
  exact absurd (Nat.lt_of_lt_of_le hlt (Nat.le_of_lt_succ hcount)) (Nat.lt_irrefl _)

/-- The position of a checked program is not the number that stands for none. -/
lemma position_ne_noWord (accepted : p.check = .ok p) (outputs : p.outputs.length < UInt32.size) :
    p.position ≠ some noWord := by
  intro hp
  obtain ⟨-, _, hscope, -⟩ := check_eq_ok.1 accepted
  obtain ⟨hposition, -⟩ := checkInstrs_eq_ok.1 hscope
  simp only [hp, checkPosition, bind_eq_ok, Signature.output_eq_ok] at hposition
  obtain ⟨_, ha, -⟩ := hposition
  obtain ⟨hlt, -⟩ := List.getElem?_eq_some_iff.1 ha
  exact absurd (Nat.lt_of_lt_of_le hlt (Nat.le_of_lt_succ outputs)) (Nat.lt_irrefl _)

/-- Records are read as the instructions of a checked program if they agree with theirs. -/
lemma forall₂_toInstr_iff (accepted : p.check = .ok p) {records : List Record} :
    List.Forall₂ (fun r i => r.toInstr = .ok i) records p.instrs ↔
      List.Forall₂ Record.Agrees records (p.instrs.map Record.ofInstr) := by
  rw [List.forall₂_map_right_iff, List.forall₂_iff_zip, List.forall₂_iff_zip]
  refine and_congr_right fun _ => forall_congr' fun r => forall_congr' fun i => ?_
  refine imp_congr_right fun hmem => ?_
  rw [Record.toInstr_eq_ok]
  exact and_iff_left (output?_ne_noWord accepted (List.of_mem_zip hmem).2)

/-- A program is read from the bytes before its records, followed by records that agree with those
of its instructions, and from no others. Only checked programs are read. -/
theorem decode_eq_ok : decode bytes = .ok p ↔ p.check = .ok p ∧ p.FitsHeader ∧
    ∃ records : List Record, bytes = p.front ++ records.flatMap Record.encode ∧
      List.Forall₂ Record.Agrees records (p.instrs.map Record.ofInstr) := by
  constructor
  · intro h
    unfold decode at h
    split at h
    case h_2 => cases h
    case h_1 found _ _ _ _ _ _ body hwords =>
      split_ifs at h with hmagic hversion
      rw [not_not] at hmagic hversion
      obtain ⟨-, hdrop⟩ := LittleEndian.takeWords?_eq_some.1 hwords
      obtain ⟨⟨rfl, rfl, -⟩, rfl, hinputs, houtputs, hinstrs, hcheck, records, rfl, hrecords⟩ :=
        decodeBody_eq_ok.1 h
      refine ⟨hcheck, ⟨?_, ?_, ?_⟩, records, ?_, (forall₂_toInstr_iff hcheck).1 hrecords⟩
      · exact hinputs ▸ UInt32.toNat_lt_size _
      · exact houtputs ▸ UInt32.toNat_lt_size _
      · exact hinstrs ▸ UInt32.toNat_lt_size _
      · rw [← List.take_append_drop magic.length bytes, hmagic, hdrop, hversion]
        simp [front, header, hinputs, houtputs, hinstrs]
  -- lengths that fit the header are read back from their words
  · rintro ⟨hcheck, hfits, records, rfl, hrecords⟩
    have hbody := decodeBody_eq_ok.2
      ⟨⟨rfl, rfl, position_ne_noWord hcheck hfits.outputs⟩, rfl,
        (UInt32.toNat_ofNat_of_lt' hfits.inputs).symm,
        (UInt32.toNat_ofNat_of_lt' hfits.outputs).symm,
        (UInt32.toNat_ofNat_of_lt' hfits.instrs).symm, hcheck, records, rfl,
        (forall₂_toInstr_iff hcheck).2 hrecords⟩
    simp only [decode, front, List.append_assoc, List.drop_left, List.take_left,
      takeWords?_header]
    simpa [header] using hbody

/-- What is read as a program was checked. -/
lemma check_of_decode (h : decode bytes = .ok p) : p.check = .ok p :=
  (decode_eq_ok.1 h).1

/-- A checked program is read back from its bytes, as long as words can count its slots and its
instructions. -/
theorem decode_encode_of_check (accepted : p.check = .ok p)
    (inputs : p.inputs.length < UInt32.size) (outputs : p.outputs.length < UInt32.size)
    (instrs : p.instrs.length < UInt32.size) : decode p.encode = .ok p := by
  rw [decode_eq_ok]
  refine ⟨accepted, ⟨inputs, outputs, instrs⟩, p.instrs.map Record.ofInstr,
    p.encode_eq_front_append, ?_⟩
  rw [List.forall₂_same]
  intro r _
  exact .refl r

end Program

end GraphicsPipeline
