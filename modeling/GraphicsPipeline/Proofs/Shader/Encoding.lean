import GraphicsPipeline.Proofs.Shader.Codec

/-!
# The bytes of a program

Of the bytes that are read as a program, the operand words that no instruction uses are free, and
every other byte is that of the program's own encoding (`Program.encode_of_decode_eq_ok`). The own
encoding is read back exactly if the program is a checked one (`Program.decode_encode_eq_ok_iff`).
-/

namespace GraphicsPipeline

/-! ### Pieces of one length -/

section Pieces

variable {α β : Type} {f : α → List β} {n : Nat}

lemma eq_of_getElem?_eq {as bs : List β} (hlength : as.length = bs.length)
    (h : ∀ k < as.length, as[k]? = bs[k]?) : as = bs := by
  apply List.ext_getElem?'
  rwa [← hlength, max_self]

lemma length_flatMap_of_length (hf : ∀ a, (f a).length = n) (as : List α) :
    (as.flatMap f).length = n * as.length := by
  induction as with
  | nil => rfl
  | cons a as ih => rw [List.flatMap_cons, List.length_append, hf, ih, List.length_cons]; ring

/-- Where all pieces have one length, a place in a piece is found by counting. -/
lemma getElem?_flatMap_of_length (hf : ∀ a, (f a).length = n) {k : Nat} (hk : k < n)
    (as : List α) (j : Nat) : (as.flatMap f)[n * j + k]? = as[j]?.bind fun a => (f a)[k]? := by
  induction as generalizing j with
  | nil => simp
  | cons a as ih =>
    rw [List.flatMap_cons]
    cases j with
    | zero =>
      rw [Nat.mul_zero, Nat.zero_add, List.getElem?_append_left (by rwa [hf])]
      rfl
    | succ j =>
      have hplace : n * (j + 1) + k = (f a).length + (n * j + k) := by
        rw [hf]
        ring
      rw [hplace, List.getElem?_append_right (Nat.le_add_right _ _), Nat.add_sub_cancel_left, ih]
      rfl

/-- A list that has the length of so many pieces is put together from them. -/
lemma exists_eq_flatMap_of_length (hf : ∀ bs : List β, bs.length = n → ∃ a, f a = bs) (m : Nat)
    {bs : List β} (h : bs.length = n * m) : ∃ as : List α, as.length = m ∧ as.flatMap f = bs := by
  induction m generalizing bs with
  | zero => exact ⟨[], rfl, (List.eq_nil_of_length_eq_zero h).symm⟩
  | succ m ih =>
    rw [Nat.mul_succ] at h
    obtain ⟨a, ha⟩ := hf (bs.take n) (by simp [h])
    obtain ⟨as, hlength, has⟩ := @ih (bs.drop n) (by simp [h])
    exact ⟨a :: as, by simp [hlength], by rw [List.flatMap_cons, ha, has, List.take_append_drop]⟩

end Pieces

/-! ### The bytes of a record -/

namespace Opcode

variable {kind : Opcode} {j k : Nat}

lemma lt_of_mem_operandPlaces (h : j ∈ kind.operandPlaces) : j < 5 := by
  have hall : ∀ j ∈ kind.operandPlaces, j < 5 := by cases kind <;> decide
  exact hall j h

lemma ignores_operand_iff (hj : j < 5) (hk : k < 4) :
    kind.Ignores (8 + (4 * j + k)) ↔ j ∉ kind.operandPlaces := by
  have hplace : (8 + (4 * j + k) - 8) / 4 = j := by omega
  rw [Ignores, hplace]
  constructor
  · rintro ⟨-, -, h⟩
    exact h
  · intro h
    exact ⟨Nat.le_add_right 8 _, by omega, h⟩

/-- A byte lies before the operand words, in one of them, or behind them. -/
lemma place_cases (k : Nat) :
    k < 8 ∨ (∃ j < 5, ∃ m < 4, k = 8 + (4 * j + m)) ∨ ∃ m, k = 28 + m := by
  by_cases hfront : k < 8
  · exact .inl hfront
  · by_cases hback : k < 28
    · exact .inr (.inl ⟨(k - 8) / 4, by omega, (k - 8) % 4, by omega, by omega⟩)
    · exact .inr (.inr ⟨k - 28, by omega⟩)

end Opcode

namespace Record

variable {r s : Record} {kind : Opcode} {i j : Instr} {k : Nat}

/-- The bytes before the operands. -/
def front (r : Record) : Bytes :=
  [r.opcode, r.reserved.1, r.reserved.2.1, r.reserved.2.2] ++ LittleEndian.encode r.out

lemma encode_eq_front_append (r : Record) :
    r.encode = r.front ++ (r.operands.flatMap LittleEndian.encode ++ r.channels.toList) := by
  simp [encode, front, operands]

lemma front_inj : r.front = s.front ↔
    r.opcode = s.opcode ∧ r.reserved = s.reserved ∧ r.out = s.out := by
  constructor
  · intro h
    obtain ⟨hbytes, hout⟩ := List.append_inj h rfl
    simp only [List.cons.injEq, and_true] at hbytes
    obtain ⟨hopcode, h₀, h₁, h₂⟩ := hbytes
    exact ⟨hopcode, Prod.ext h₀ (Prod.ext h₁ h₂), LittleEndian.encode_injective hout⟩
  · rintro ⟨hopcode, hreserved, hout⟩
    rw [front, hopcode, hreserved, hout, front]

lemma getElem?_encode_front (h : k < 8) : r.encode[k]? = r.front[k]? := by
  rw [encode_eq_front_append, List.getElem?_append_left h]

lemma getElem?_encode_operand {j : Nat} (hj : j < 5) (hk : k < 4) :
    r.encode[8 + (4 * j + k)]? = r.operands[j]?.bind fun w => (LittleEndian.encode w)[k]? := by
  have hlength : (r.operands.flatMap LittleEndian.encode).length = 20 := rfl
  have hplace : 4 * j + k < 20 := by omega
  rw [encode_eq_front_append, List.getElem?_append_right (Nat.le_add_right 8 _)]
  change (_ ++ _)[8 + (4 * j + k) - 8]? = _
  rw [Nat.add_sub_cancel_left, List.getElem?_append_left (by rwa [hlength]),
    getElem?_flatMap_of_length LittleEndian.length_encode hk]

lemma getElem?_encode_channel : r.encode[28 + k]? = r.channels.toList[k]? := by
  rw [encode_eq_front_append, ← List.append_assoc,
    List.getElem?_append_right (Nat.le_add_right 28 _)]
  change _[28 + k - 28]? = _
  rw [Nat.add_sub_cancel_left]

/-- All strings of 32 bytes are records. -/
lemma exists_encode_eq (bytes : Bytes) (h : bytes.length = length) : ∃ r, encode r = bytes := by
  obtain ⟨o, r₀, r₁, r₂, hfirst⟩ := List.length_eq_four.1
    (show (bytes.take 4).length = 4 by simp [h, length])
  obtain ⟨x, y, z, w, hlast⟩ := List.length_eq_four.1
    (show (bytes.drop 28).length = 4 by simp [h, length])
  obtain ⟨ws, hws, hwords⟩ := exists_eq_flatMap_of_length LittleEndian.exists_encode_eq 6
    (show ((bytes.drop 4).take 24).length = 4 * 6 by simp [h, length])
  rcases ws with _ | ⟨out, _ | ⟨a₀, _ | ⟨a₁, _ | ⟨a₂, _ | ⟨a₃, _ | ⟨a₄, _ | _⟩⟩⟩⟩⟩⟩ <;> simp at hws
  refine ⟨⟨o, (r₀, r₁, r₂), out, a₀, a₁, a₂, a₃, a₄, ⟨x, y, z, w⟩⟩, ?_⟩
  have hbytes : bytes = bytes.take 4 ++ ((bytes.drop 4).take 24 ++ bytes.drop 28) := by
    rw [← List.drop_drop (i := 24), List.take_append_drop, List.take_append_drop]
  rw [hbytes, hfirst, hlast, ← hwords]
  simp [encode, Vec4.toList]

/-- Records agree if their bytes do, but for those that the kind of instruction ignores. -/
lemma agrees_iff_getElem? (hkind : s.opcode = kind.code) :
    r.Agrees s ↔ ∀ k, ¬kind.Ignores k → r.encode[k]? = s.encode[k]? := by
  constructor
  · intro h k hk
    -- a byte belongs to the front of its record, to an operand word, or to the channels
    rcases Opcode.place_cases k with hfront | ⟨j, hj, m, hm, rfl⟩ | ⟨m, rfl⟩
    · rw [getElem?_encode_front hfront, getElem?_encode_front hfront,
        front_inj.2 ⟨h.opcode, h.reserved, h.out⟩]
    · rw [Opcode.ignores_operand_iff hj hm, not_not] at hk
      have hopcode : Opcode.ofCode? r.opcode = some kind := by
        rw [h.opcode, hkind, Opcode.ofCode?_code]
      rw [getElem?_encode_operand hj hm, getElem?_encode_operand hj hm,
        h.operands kind hopcode j hk]
    · rw [getElem?_encode_channel, getElem?_encode_channel, h.channels]
  · intro h
    have hfront : r.front = s.front := by
      apply eq_of_getElem?_eq (by rfl)
      intro k hk
      rw [← getElem?_encode_front hk, ← getElem?_encode_front hk]
      exact h k fun hignores => absurd hignores.1 (Nat.not_le.2 hk)
    obtain ⟨hopcode, hreserved, hout⟩ := front_inj.1 hfront
    have hkind' : Opcode.ofCode? r.opcode = some kind := by
      rw [hopcode, hkind, Opcode.ofCode?_code]
    refine .of_places hkind' hopcode hreserved hout ?_ ?_
    · intro j hj
      have hlt := Opcode.lt_of_mem_operandPlaces hj
      obtain ⟨w, hw⟩ : ∃ w, r.operands[j]? = some w := ⟨_, List.getElem?_eq_getElem hlt⟩
      obtain ⟨v, hv⟩ : ∃ v, s.operands[j]? = some v := ⟨_, List.getElem?_eq_getElem hlt⟩
      rw [hw, hv, Option.some.injEq]
      apply LittleEndian.encode_injective
      apply eq_of_getElem?_eq (by rfl)
      intro k hk
      have hbyte := h (8 + (4 * j + k)) ((Opcode.ignores_operand_iff hlt hk).not_left.2 hj)
      rwa [getElem?_encode_operand hlt hk, getElem?_encode_operand hlt hk, hw, hv] at hbyte
    · apply Vec4.toList_injective
      apply List.ext_getElem?
      intro k
      rw [← getElem?_encode_channel, ← getElem?_encode_channel]
      exact h _ fun hignores => absurd hignores.2.1 (Nat.not_lt.2 (Nat.le_add_right 28 k))

/-- What an instruction does not use is zero in its own record. -/
lemma getElem?_encode_ofInstr (h : i.opcode.Ignores k) : (ofInstr i).encode[k]? = some 0 := by
  obtain ⟨hfront, hback, -⟩ := id h
  rcases Opcode.place_cases k with hk | ⟨j, hj, m, hm, rfl⟩ | ⟨m, rfl⟩
  · exact absurd hfront (Nat.not_le.2 hk)
  · rw [Opcode.ignores_operand_iff hj hm] at h
    have hzero : (ofInstr i).operands[j]? = some 0 := by
      interval_cases j <;> cases i <;>
        first | rfl | simp [Instr.opcode, Opcode.operandPlaces] at h
    rw [getElem?_encode_operand hj hm, hzero]
    interval_cases m <;> rfl
  · exact absurd hback (Nat.not_lt.2 (Nat.le_add_right 28 m))

lemma opcode_ofInstr (i : Instr) : (ofInstr i).opcode = i.opcode.code := by
  cases i <;> rfl

/-- Different records have different bytes, one after another. -/
lemma flatMap_encode_injective : Function.Injective (List.flatMap encode) := by
  intro rs
  induction rs with
  | nil =>
    rintro (_ | ⟨s, ss⟩) h
    · rfl
    · simp [encode] at h
  | cons r rs ih =>
    rintro (_ | ⟨s, ss⟩) h
    · simp [encode] at h
    · rw [List.flatMap_cons, List.flatMap_cons] at h
      have hr := take?_eq_some.2 h.symm
      rw [take?_eq_some.2 rfl] at hr
      simp only [Option.some.injEq, Prod.mk.injEq] at hr
      rw [hr.1, ih hr.2.symm]

/-- From its own record, an instruction is read back or none is. -/
lemma eq_of_toInstr_ofInstr (h : (ofInstr i).toInstr = .ok j) : i = j := by
  by_cases hout : i.output? = some noWord
  · cases i <;> simp only [Instr.output?, Option.some.injEq, reduceCtorEq] at hout <;>
      simp [hout, toInstr, ofInstr, plain, swizzled, Instr.opcode, selectorCount, Vec4.toList,
        Vec4.fill] at h
  · rw [toInstr_ofInstr hout] at h
    exact Except.ok.inj h

end Record

/-! ### The bytes of a program -/

namespace Program

variable {p q : Program} {bytes : Bytes} {j k : Nat}

lemma length_front (p : Program) : p.front.length = p.frontLength := by
  simp only [front, header, frontLength, magic, List.length_append, List.length_map,
    length_flatMap_of_length LittleEndian.length_encode, List.length_cons, List.length_nil]
  ring

lemma length_encode (p : Program) :
    p.encode.length = p.frontLength + Record.length * p.instrs.length := by
  rw [encode_eq_front_append, List.length_append, length_front,
    length_flatMap_of_length Record.length_encode, List.length_map]

lemma getElem?_front_append (records : List Record) (hk : k < Record.length) :
    (p.front ++ records.flatMap Record.encode)[p.frontLength + (Record.length * j + k)]? =
      records[j]?.bind fun r => r.encode[k]? := by
  rw [← length_front, List.getElem?_append_right (Nat.le_add_right _ _), Nat.add_sub_cancel_left,
    getElem?_flatMap_of_length Record.length_encode hk]

lemma getElem?_encode (hk : k < Record.length) :
    p.encode[p.frontLength + (Record.length * j + k)]? =
      p.instrs[j]?.bind fun i => (Record.ofInstr i).encode[k]? := by
  rw [encode_eq_front_append, getElem?_front_append _ hk, List.getElem?_map, Option.bind_map]
  rfl

lemma lt_of_ignores {kind : Opcode} (h : kind.Ignores k) : k < Record.length :=
  h.2.1.trans (by decide)

/-- Inside of a record, the instruction says which bytes are ignored. -/
lemma ignores_iff (hk : k < Record.length) :
    p.Ignores (p.frontLength + (Record.length * j + k)) ↔
      ∃ i, p.instrs[j]? = some i ∧ i.opcode.Ignores k := by
  constructor
  · rintro ⟨j', i, k', hi, hignores, hplace⟩
    have hk' := lt_of_ignores hignores
    simp only [Record.length] at hplace hk hk'
    obtain rfl : j = j' := by omega
    obtain rfl : k = k' := by omega
    exact ⟨i, hi, hignores⟩
  · rintro ⟨i, hi, hignores⟩
    exact ⟨j, i, k, hi, hignores, rfl⟩

/-- No byte before the first record is ignored. -/
lemma not_ignores_of_lt (h : k < p.frontLength) : ¬p.Ignores k := by
  rintro ⟨j, i, m, -, -, rfl⟩
  exact absurd h (Nat.not_lt.2 (Nat.le_add_right _ _))

/-- What the program does not use is zero in its own bytes. -/
lemma getElem?_encode_of_ignores (h : p.Ignores k) : p.encode[k]? = some 0 := by
  obtain ⟨j, i, m, hi, hignores, rfl⟩ := h
  rw [getElem?_encode (lt_of_ignores hignores), hi, Option.bind_some,
    Record.getElem?_encode_ofInstr hignores]

lemma getElem?_encode_front (h : k < p.frontLength) : p.encode[k]? = p.front[k]? := by
  rw [encode_eq_front_append, List.getElem?_append_left (by rwa [length_front])]

/-- Records agree with those of the instructions if the bytes agree that are not ignored. -/
lemma forall₂_agrees_iff {records : List Record} (hlength : records.length = p.instrs.length) :
    List.Forall₂ Record.Agrees records (p.instrs.map Record.ofInstr) ↔
      ∀ k, ¬p.Ignores k → (p.front ++ records.flatMap Record.encode)[k]? = p.encode[k]? := by
  rw [List.forall₂_map_right_iff, List.forall₂_iff_get]
  constructor
  · rintro ⟨-, hagrees⟩ k hk
    by_cases hfront : k < p.frontLength
    · rw [getElem?_encode_front hfront, List.getElem?_append_left (by rwa [length_front])]
    -- behind the front, quotient and remainder by the length of a record find record and byte
    · obtain ⟨j, m, hm, rfl⟩ : ∃ j m, m < Record.length ∧
          k = p.frontLength + (Record.length * j + m) :=
        ⟨(k - p.frontLength) / 32, (k - p.frontLength) % 32, Nat.mod_lt _ (by decide),
          by simp only [Record.length]; omega⟩
      rw [getElem?_front_append records hm, getElem?_encode hm]
      by_cases hj : j < p.instrs.length
      · rw [List.getElem?_eq_getElem hj, List.getElem?_eq_getElem (by rwa [hlength])]
        have hrecord := hagrees j (by rwa [hlength]) hj
        apply (Record.agrees_iff_getElem? (Record.opcode_ofInstr _)).1 hrecord
        intro hignores
        exact hk ((ignores_iff hm).2 ⟨_, List.getElem?_eq_getElem hj, hignores⟩)
      · rw [Nat.not_lt] at hj
        rw [List.getElem?_eq_none hj, List.getElem?_eq_none (by rwa [hlength])]
        rfl
  · intro h
    refine ⟨hlength, ?_⟩
    intro j hr hi
    rw [Record.agrees_iff_getElem? (Record.opcode_ofInstr _)]
    intro m hm
    by_cases hplace : m < Record.length
    · have hkeeps : ¬p.Ignores (p.frontLength + (Record.length * j + m)) := by
        rw [ignores_iff hplace, List.getElem?_eq_getElem hi]
        rintro ⟨i, ⟨⟩, hignores⟩
        exact hm hignores
      have hbyte := h _ hkeeps
      rw [getElem?_front_append records hplace, getElem?_encode hplace,
        List.getElem?_eq_getElem hr, List.getElem?_eq_getElem hi] at hbyte
      exact hbyte
    · rw [List.getElem?_eq_none, List.getElem?_eq_none] <;>
        exact (Record.length_encode _).trans_le (Nat.not_lt.1 hplace)

/-- The program is read from the bytes of its own length that differ from its own bytes at most
where they are ignored. -/
lemma exists_records_iff : (∃ records : List Record,
      bytes = p.front ++ records.flatMap Record.encode ∧
        List.Forall₂ Record.Agrees records (p.instrs.map Record.ofInstr)) ↔
    bytes.length = p.encode.length ∧ ∀ k, ¬p.Ignores k → bytes[k]? = p.encode[k]? := by
  constructor
  · rintro ⟨records, rfl, hrecords⟩
    have hlength : records.length = p.instrs.length := by simpa using hrecords.length_eq
    refine ⟨?_, (forall₂_agrees_iff hlength).1 hrecords⟩
    rw [List.length_append, length_front, length_flatMap_of_length Record.length_encode, hlength,
      length_encode]
  · rintro ⟨hlength, h⟩
    rw [length_encode] at hlength
    have hfront : bytes.take p.frontLength = p.front := by
      have htake : (bytes.take p.frontLength).length = p.frontLength := by simp [hlength]
      apply eq_of_getElem?_eq (by rw [htake, length_front])
      intro k hk
      rw [htake] at hk
      rw [List.getElem?_take_of_lt hk, h k (not_ignores_of_lt hk), getElem?_encode_front hk]
    have hdrop : (bytes.drop p.frontLength).length = Record.length * p.instrs.length := by
      rw [List.length_drop, hlength, Nat.add_sub_cancel_left]
    obtain ⟨records, hcount, hrecords⟩ :=
      exists_eq_flatMap_of_length Record.exists_encode_eq p.instrs.length hdrop
    have hbytes : bytes = p.front ++ records.flatMap Record.encode := by
      rw [hrecords, ← hfront, List.take_append_drop]
    refine ⟨records, hbytes, (forall₂_agrees_iff hcount).2 ?_⟩
    rwa [← hbytes]

/-- What is read as a program differs from the program's own bytes only in operand words that the
instructions do not use, where the program's own bytes are zero. Whatever stands in these words,
the same program is read, and it is read from no other bytes. -/
theorem encode_of_decode_eq_ok (h : decode bytes = .ok p) :
    p.encode.length = bytes.length ∧
      (∀ k, ¬p.Ignores k → p.encode[k]? = bytes[k]?) ∧
      (∀ k, p.Ignores k → p.encode[k]? = some 0) ∧
      ∀ other : Bytes, decode other = .ok p ↔
        other.length = p.encode.length ∧ ∀ k, ¬p.Ignores k → other[k]? = p.encode[k]? := by
  obtain ⟨accepted, hfits, hrecords⟩ := decode_eq_ok.1 h
  obtain ⟨hlength, hbytes⟩ := exists_records_iff.1 hrecords
  refine ⟨hlength.symm, fun k hk => (hbytes k hk).symm,
    fun k hk => getElem?_encode_of_ignores hk, ?_⟩
  intro other
  rw [decode_eq_ok, ← exists_records_iff]
  constructor
  · rintro ⟨-, -, hother⟩
    exact hother
  · intro hother
    exact ⟨accepted, hfits, hother⟩

/-! ### Writing and reading -/

lemma stageCode_injective : Function.Injective stageCode := by
  rintro ⟨⟩ ⟨⟩ h <;> first | rfl | cases h

/-- The slots, the position and the numbers of registers and instructions are found in the bytes
before the records. -/
lemma front_append_inj {rest rest' : Bytes} (hp : p.FitsHeader) (hq : q.FitsHeader)
    (h : p.front ++ rest = q.front ++ rest') :
    p.inputs = q.inputs ∧ p.outputs = q.outputs ∧ p.position = q.position ∧
      p.regCount = q.regCount ∧ rest = rest' := by
  simp only [front, List.append_assoc, List.append_cancel_left_eq] at h
  have hheader := takeWords?_header p ((p.inputs ++ p.outputs).map Arity.code ++ rest)
  rw [h, takeWords?_header] at hheader
  simp only [Option.some.injEq, Prod.mk.injEq, header, List.cons.injEq, and_true,
    true_and] at hheader
  obtain ⟨⟨hstage, hposition, hregs, hinputs, houtputs, -⟩, hbody⟩ := hheader
  have hlength {n m : Nat} (hn : n < UInt32.size) (hm : m < UInt32.size)
      (h : UInt32.ofNat n = UInt32.ofNat m) : n = m := by
    rw [← UInt32.toNat_ofNat_of_lt' hn, h, UInt32.toNat_ofNat_of_lt' hm]
  have hilength := hlength hq.inputs hp.inputs hinputs
  have holength := hlength hq.outputs hp.outputs houtputs
  obtain ⟨hslots, hrest⟩ := List.append_inj hbody (by simp [hilength, holength])
  have hcodes := List.append_inj (Arity.code_injective.list_map hslots) hilength
  refine ⟨hcodes.1.symm, hcodes.2.symm, ?_, hregs.symm, hrest.symm⟩
  have hstages := stageCode_injective hstage
  unfold stage at hstages
  cases hpp : p.position <;> cases hqp : q.position <;> simp_all

/-- What is written is read back exactly if it is a checked program, and as no other program. -/
theorem decode_encode_eq_ok_iff (inputs : p.inputs.length < UInt32.size)
    (outputs : p.outputs.length < UInt32.size) (instrs : p.instrs.length < UInt32.size) :
    decode p.encode = .ok q ↔ p.check = .ok p ∧ q = p := by
  constructor
  · intro h
    obtain ⟨accepted, hfits, records, hbytes, hrecords⟩ := decode_eq_ok.1 h
    rw [encode_eq_front_append] at hbytes
    obtain ⟨hinputs, houtputs, hposition, hregs, hrest⟩ :=
      front_append_inj ⟨inputs, outputs, instrs⟩ hfits hbytes
    have hread := (forall₂_toInstr_iff accepted).2 hrecords
    rw [← Record.flatMap_encode_injective hrest, List.forall₂_map_left_iff] at hread
    have hinstrs : p.instrs = q.instrs := by
      rw [← List.forall₂_eq_eq_eq]
      exact hread.imp fun i j hij => Record.eq_of_toInstr_ofInstr hij
    have hqp : q = p := by
      cases p
      cases q
      simp_all
    exact ⟨hqp ▸ accepted, hqp⟩
  · rintro ⟨accepted, rfl⟩
    exact decode_encode_of_check accepted inputs outputs instrs

/-- A program of two literals that are no numbers, of either sign and with payloads. -/
def payloads : Program where
  inputs := []
  outputs := [.vec2]
  position := none
  regCount := 1
  instrs := [.constVec2 0 ⟨0xffc12345⟩ ⟨0x7f800001⟩, .store 0 0]

/-- The signs and the payloads of the literals are read back. -/
theorem decode_encode_payloads :
    payloads.check = .ok payloads ∧ decode payloads.encode = .ok payloads := by
  have accepted : payloads.check = .ok payloads := by rfl
  exact ⟨accepted, (decode_encode_eq_ok_iff (by decide) (by decide) (by decide)).2 ⟨accepted, rfl⟩⟩

/-- The same program, with something in the third operand word of the first record. -/
def scribbled : Bytes := payloads.encode.set 49 0xab

/-- The operand word is not read, and it is gone when the program is written again. -/
theorem encode_of_decode_scribbled : decode scribbled = .ok payloads ∧
    scribbled[49]? = some 0xab ∧ payloads.encode[49]? = some 0 ∧
      payloads.encode.length = scribbled.length := by
  have h : decode scribbled = .ok payloads := by rfl
  obtain ⟨hlength, -, hzero, -⟩ := encode_of_decode_eq_ok h
  refine ⟨h, by rfl, hzero 49 ⟨0, _, 16, rfl, ?_, rfl⟩, hlength⟩
  decide

end Program

end GraphicsPipeline
