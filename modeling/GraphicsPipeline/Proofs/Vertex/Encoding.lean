import GraphicsPipeline.Proofs.Shader.Codec
import GraphicsPipeline.Proofs.Shader.Value
import GraphicsPipeline.Vertex.Encoding

/-!
# Layouts and their bytes

A layout is read from its own bytes and from no others (`Layout.decode_eq_ok`): the header, the
number of attributes and the length leave no byte open, nor do the records. What is pushed to a
layout is what such bytes can hold, so compiled layouts are read back (`Layout.encoding_bijective`).
-/

namespace GraphicsPipeline

open LittleEndian

/-! ### Attributes -/

namespace Attribute

variable {a : Attribute} {bytes rest : Bytes}

lemma length_encode (a : Attribute) : a.encode.length = encodedLength := rfl

/-- An attribute is read from its twelve bytes, and from no others. -/
lemma take_eq_ok : take bytes = .ok (a, rest) ↔ bytes = a.encode ++ rest := by
  constructor
  · intro h
    unfold take at h
    split at h
    case h_2 => cases h
    case h_1 code r₀ r₁ r₂ bytes =>
      split at h
      case h_2 => cases h
      case h_1 offset stride rest' hwords =>
        obtain ⟨-, rfl⟩ := takeWords?_eq_some.1 hwords
        simp only [ite_error_eq_ok, ne_eq, not_not, Prod.mk.injEq] at h
        obtain ⟨⟨rfl, rfl, rfl⟩, h⟩ := h
        cases hcode : Arity.ofCode? code with
        | none => simp [hcode] at h
        | some arity =>
          simp only [hcode, Except.ok.injEq, Prod.mk.injEq] at h
          obtain ⟨rfl, rfl⟩ := h
          obtain rfl := Arity.ofCode?_eq_some.1 hcode
          simp [encode]
  · rintro rfl
    have hwords : takeWords? 2
        (LittleEndian.encode a.offset ++ (LittleEndian.encode a.stride ++ rest)) =
          some ([a.offset, a.stride], rest) :=
      takeWords?_eq_some.2 ⟨rfl, by simp⟩
    simp only [encode, List.append_assoc, List.cons_append, List.nil_append, take, hwords,
      Arity.ofCode?_code, ne_eq, not_true, if_false]

end Attribute

/-! ### Layouts -/

namespace Layout

variable {l l' : Layout} {a : Attribute} {attributes : List Attribute} {bytes : Bytes}

lemma push_eq_ok : l.push a = .ok l' ↔ a.arity.isFloat ∧ l' = ⟨l.attributes ++ [a]⟩ := by
  rw [push, ite_ok_eq_ok, eq_comm (a := l')]

lemma build_eq_ok : l.build = .ok l' ↔ l.attributes ≠ [] ∧ l' = l := by
  rw [build, ite_error_eq_ok, List.isEmpty_iff, Except.ok.injEq, eq_comm (a := l')]

/-- Attributes are read from their bytes one after another and pushed. -/
lemma pushDecoded_eq_ok {count : Nat} (hlength : bytes.length = Attribute.encodedLength * count) :
    l.pushDecoded count bytes = .ok l' ↔ ∃ attributes : List Attribute,
      attributes.length = count ∧ (∀ a ∈ attributes, a.arity.isFloat) ∧
        bytes = attributes.flatMap Attribute.encode ∧ l' = ⟨l.attributes ++ attributes⟩ := by
  induction count generalizing l bytes with
  | zero =>
    obtain rfl : bytes = [] := List.eq_nil_of_length_eq_zero hlength
    simp only [pushDecoded, Except.ok.injEq, List.length_eq_zero_iff]
    constructor
    · rintro rfl
      exact ⟨[], rfl, by simp, rfl, by simp⟩
    · rintro ⟨_, rfl, -, -, rfl⟩
      simp
  | succ count ih =>
    simp only [pushDecoded, bind_eq_ok, Prod.exists, Attribute.take_eq_ok, push_eq_ok]
    constructor
    · rintro ⟨a, rest, rfl, _, ⟨ha, rfl⟩, h⟩
      have hrest : rest.length = Attribute.encodedLength * count := by
        rw [List.length_append, Attribute.length_encode, Nat.mul_succ, Nat.add_comm] at hlength
        exact Nat.add_right_cancel hlength
      obtain ⟨attributes, rfl, hfloats, rfl, rfl⟩ := (ih hrest).1 h
      exact ⟨a :: attributes, rfl, List.forall_mem_cons.2 ⟨ha, hfloats⟩, rfl, by simp⟩
    · rintro ⟨attributes, hcount, hfloats, rfl, rfl⟩
      cases attributes with
      | nil => simp at hcount
      | cons a attributes =>
        obtain ⟨ha, hfloats⟩ := List.forall_mem_cons.1 hfloats
        have hrest : (attributes.flatMap Attribute.encode).length =
            Attribute.encodedLength * count := by
          rw [List.flatMap_cons, List.length_append, Attribute.length_encode, Nat.mul_succ,
            Nat.add_comm] at hlength
          exact Nat.add_right_cancel hlength
        exact ⟨a, _, rfl, _, ⟨ha, rfl⟩,
          (ih hrest).2 ⟨attributes, by simpa using hcount, hfloats, rfl, by simp⟩⟩

/-- There are attributes, and none of them is a word. -/
structure WellFormed (l : Layout) : Prop where
  nonempty : l.attributes ≠ []
  floats : ∀ a ∈ l.attributes, a.arity ≠ .int

lemma length_flatMap_encode (attributes : List Attribute) :
    (attributes.flatMap Attribute.encode).length =
      Attribute.encodedLength * attributes.length := by
  simp [List.length_flatMap, Attribute.length_encode, Nat.mul_comm]

/-- The header of a layout. -/
lemma takeWords?_header (l : Layout) : takeWords? 2 (l.encode.drop magic.length) =
    some ([version, UInt32.ofNat l.attributes.length], l.attributes.flatMap Attribute.encode) := by
  refine takeWords?_eq_some.2 ⟨rfl, ?_⟩
  simp [encode, magic]

/-- A layout is read from its bytes, and from no others. -/
theorem decode_eq_ok : decode bytes = .ok l ↔
    l.WellFormed ∧ l.attributes.length < 2 ^ 32 ∧ bytes = l.encode := by
  constructor
  · intro h
    unfold decode at h
    split at h
    case h_2 => cases h
    case h_1 found count body hwords =>
      obtain ⟨-, hdrop⟩ := takeWords?_eq_some.1 hwords
      simp only [ite_error_eq_ok, ne_eq, not_not, bind_eq_ok, build_eq_ok] at h
      obtain ⟨hmagic, rfl, hlength, _, h, hne, rfl⟩ := h
      obtain ⟨attributes, hcount, hfloats, rfl, rfl⟩ := (pushDecoded_eq_ok hlength).1 h
      refine ⟨⟨hne, fun a ha => Arity.isFloat_iff_ne_int.1 (hfloats a ha)⟩,
        hcount.trans_lt count.toNat_lt, ?_⟩
      rw [← List.take_append_drop magic.length bytes, hmagic, hdrop]
      simp [encode, empty, hcount]
  -- a count below `2 ^ 32` is its own word, so the reader finds as many attributes as were written
  · rintro ⟨⟨hne, hfloats⟩, hlt, rfl⟩
    have hcount : (UInt32.ofNat l.attributes.length).toNat = l.attributes.length :=
      UInt32.toNat_ofNat_of_lt' hlt
    have hmagic : l.encode.take magic.length = magic := by simp [encode, magic]
    have hlength : (l.attributes.flatMap Attribute.encode).length =
        Attribute.encodedLength * l.attributes.length := length_flatMap_encode _
    have hpush : empty.pushDecoded l.attributes.length (l.attributes.flatMap Attribute.encode) =
        .ok l :=
      (pushDecoded_eq_ok hlength).2
        ⟨l.attributes, rfl, fun a ha => Arity.isFloat_iff_ne_int.2 (hfloats a ha), rfl, rfl⟩
    simp only [decode, takeWords?_header, hmagic, hcount, hlength, hpush, ne_eq, not_true, if_false,
      ok_bind]
    exact build_eq_ok.2 ⟨hne, rfl⟩

/-! ### Layouts that are built -/

lemma compile_of_ne_nil (h : l.attributes ≠ []) : l.compile = .ok l.encode := by
  rw [compile, build_eq_ok.2 ⟨h, rfl⟩]
  rfl

lemma compile_of_eq_nil (h : l.attributes = []) : l.compile = .error .emptyLayout := by
  rw [compile, build, h]
  rfl

/-- What is pushed is kept, but for words. -/
lemma attributes_afterPushes (l : Layout) (pushed : List Attribute) :
    (l.afterPushes pushed).attributes = l.attributes ++ pushed.filter fun a => a.arity ≠ .int := by
  induction pushed generalizing l with
  | nil => simp [afterPushes]
  | cons a pushed ih =>
    have hstep : l.afterPushes (a :: pushed) =
        ((l.push a).toOption.getD l).afterPushes pushed := rfl
    rw [hstep, ih, List.filter_cons]
    by_cases ha : a.arity = .int
    · simp [push, ha, Arity.isFloat, Except.toOption]
    · simp [push, ha, Arity.isFloat_iff_ne_int.2 ha, Except.toOption]

/-- Layouts of fewer than `2 ^ 32` attributes, some but no words, and the bytes that are accepted
determine each other. So decoding undoes encoding, and encoding undoes decoding. Whatever is pushed
to an empty layout, it keeps all but words, and unless nothing is left it compiles to bytes that are
decoded to what it keeps. -/
theorem encoding_bijective :
    (∀ bytes l, l.attributes.length < 2 ^ 32 →
      (decode bytes = .ok l ↔ l.WellFormed ∧ bytes = l.encode)) ∧
    (∀ l, l.WellFormed → l.attributes.length < 2 ^ 32 → decode l.encode = .ok l) ∧
    (∀ bytes l, decode bytes = .ok l → l.attributes.length < 2 ^ 32 ∧ l.encode = bytes) ∧
    ∀ pushed : List Attribute,
      (empty.afterPushes pushed).attributes = pushed.filter (fun a => a.arity ≠ .int) ∧
      ((empty.afterPushes pushed).attributes = [] →
        (empty.afterPushes pushed).compile = .error .emptyLayout) ∧
      ((empty.afterPushes pushed).attributes ≠ [] →
        (empty.afterPushes pushed).attributes.length < 2 ^ 32 →
          ∃ bytes, (empty.afterPushes pushed).compile = .ok bytes ∧
            decode bytes = .ok (empty.afterPushes pushed)) := by
  refine ⟨?exact, ?decodes, ?encodes, fun pushed => ?builds⟩
  case exact =>
    intro bytes l hlt
    rw [decode_eq_ok]
    exact and_congr_right fun _ => and_iff_right hlt
  case decodes => exact fun l wellFormed hlt => decode_eq_ok.2 ⟨wellFormed, hlt, rfl⟩
  case encodes =>
    intro bytes l h
    obtain ⟨-, hlt, rfl⟩ := decode_eq_ok.1 h
    exact ⟨hlt, rfl⟩
  case builds =>
    have hpushed : (empty.afterPushes pushed).attributes =
        pushed.filter fun a => a.arity ≠ .int := attributes_afterPushes empty pushed
    refine ⟨hpushed, compile_of_eq_nil, fun hne hlt => ⟨_, compile_of_ne_nil hne, ?_⟩⟩
    refine decode_eq_ok.2 ⟨⟨hne, fun a ha => ?_⟩, hlt, rfl⟩
    rw [hpushed] at ha
    simpa using (List.mem_filter.1 ha).2

/-- The bytes of a layout of one vector of four. -/
def positionBytes : Bytes :=
  [0x53, 0x47, 0x49, 0x4c, 1, 0, 0, 0, 1, 0, 0, 0, 3, 0, 0, 0, 0, 0, 0, 0, 16, 0, 0, 0]

/-- A vector of four and a word are pushed, and the vector is compiled and read back. -/
theorem encoding_bijective_position :
    (empty.afterPushes [⟨.vec4, 0, 16⟩, ⟨.int, 16, 16⟩]).compile = .ok positionBytes ∧
      decode positionBytes = .ok ⟨[⟨.vec4, 0, 16⟩]⟩ := by
  obtain ⟨-, -, -, hbuilds⟩ := encoding_bijective
  obtain ⟨hattributes, -, hcompile⟩ := hbuilds [⟨.vec4, 0, 16⟩, ⟨.int, 16, 16⟩]
  obtain ⟨bytes, hbytes, hdecode⟩ := hcompile (by rw [hattributes]; decide) (by
    rw [hattributes]
    decide)
  have hposition : (empty.afterPushes [⟨.vec4, 0, 16⟩, ⟨.int, 16, 16⟩]).compile =
      .ok positionBytes := by decide
  cases hbytes.symm.trans hposition
  exact ⟨hposition, hdecode⟩

end Layout

end GraphicsPipeline
