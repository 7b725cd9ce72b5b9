import GraphicsPipeline.Proofs.Vertex.Encoding
import GraphicsPipeline.Proofs.Word.Basic
import GraphicsPipeline.Proofs.Word.Storage
import GraphicsPipeline.Vertex.Extent

/-!
# Fetching vertices

The places of a vertex's attributes are computed in words, and a place that no word can count is
beyond every buffer. So a vertex is fetched exactly where its extents, counted without bound, lie in
the buffer (`Layout.fetch_exact`). Later vertices take later bytes (`Attribute.LiesIn.of_le`).
-/

namespace GraphicsPipeline

open LittleEndian

namespace Attribute

variable {a : Attribute} {buffer : ByteArray} {vertex : UInt64} {m n : Nat} {u v : Value}

/-! ### Extents -/

/-- The byte range of an attribute is its extent, where words can count it. -/
lemma byteRange?_eq_some {start stop : UInt64} : a.byteRange? vertex = some (start, stop) ↔
    start.toNat = a.start vertex.toNat ∧
      stop.toNat = a.start vertex.toNat + 4 * a.arity.width := by
  have hwidth : (UInt64.ofNat (a.arity.width * 4)).toNat = 4 * a.arity.width := by
    cases a.arity <;> rfl
  simp only [byteRange?, Option.bind_eq_bind, Option.bind_eq_some_iff, Checked.mul64?_eq_some,
    Checked.add64?_eq_some, hwidth, Option.pure_def, Option.some.injEq, Prod.mk.injEq,
    Attribute.start, UInt32.toNat_toUInt64]
  constructor
  · rintro ⟨skipped, hskipped, start, hstart, stop, hstop, rfl, rfl⟩
    rw [hstop, hstart, hskipped]
    constructor <;> ring
  · rintro ⟨hstart, hstop⟩
    -- the sum is a word, so every part of it is one, and no checked operation fails
    have hskipped : a.stride.toNat * vertex.toNat < UInt64.size := by
      have := start.toNat_lt_size
      rw [Nat.mul_comm]
      omega
    refine ⟨UInt64.ofNat (a.stride.toNat * vertex.toNat), UInt64.toNat_ofNat_of_lt' hskipped,
      start, ?_, stop, ?_, rfl, rfl⟩
    · rw [UInt64.toNat_ofNat_of_lt' hskipped, hstart]
      ring
    · rw [hstart, hstop]

/-- What lies in a buffer can be counted in words, as the buffer can. -/
lemma LiesIn.components?_eq (h : a.LiesIn buffer vertex.toNat) (size : buffer.size < 2 ^ 64) :
    a.components? buffer vertex =
      (Storage.words? buffer (a.start vertex.toNat) a.arity.width).map (List.map .mk) := by
  have hwords : UInt64.size = 2 ^ 64 := rfl
  unfold LiesIn at h
  have hstart : (UInt64.ofNat (a.start vertex.toNat)).toNat = a.start vertex.toNat :=
    UInt64.toNat_ofNat_of_lt' (by omega)
  have hstop : (UInt64.ofNat (a.start vertex.toNat + 4 * a.arity.width)).toNat =
      a.start vertex.toNat + 4 * a.arity.width :=
    UInt64.toNat_ofNat_of_lt' (by omega)
  have hrange := byteRange?_eq_some.2 ⟨hstart, hstop⟩
  simp only [components?, hrange, Option.bind_eq_bind, Option.bind_some, hstart, hstop, if_pos h]
  cases Storage.words? buffer (a.start vertex.toNat) a.arity.width <;> rfl

/-- No range that wraps around reaches into the buffer. -/
lemma components?_eq_none (h : ¬a.LiesIn buffer vertex.toNat) :
    a.components? buffer vertex = none := by
  rw [Option.eq_none_iff_forall_ne_some]
  intro numbers hnumbers
  simp only [components?, Option.bind_eq_bind, Option.bind_eq_some_iff, Prod.exists,
    byteRange?_eq_some] at hnumbers
  obtain ⟨start, stop, ⟨-, hstop⟩, hnumbers⟩ := hnumbers
  split at hnumbers
  case isTrue hle => exact h (by rwa [LiesIn, ← hstop])
  case isFalse => cases hnumbers

/-- What an attribute of numbers says is one value. -/
lemma LiesIn.exists_holds (h : a.LiesIn buffer vertex.toNat) (size : buffer.size < 2 ^ 64)
    (hf : a.arity.isFloat) :
    ∃ numbers v, a.components? buffer vertex = some numbers ∧
      Value.ofComponents? a.arity numbers = some v ∧ a.Holds buffer vertex.toNat v := by
  obtain ⟨ws, hws, hlength⟩ := Storage.exists_words? buffer (a.start vertex.toNat) h
  obtain ⟨v, hv, harity, hcomponents⟩ :=
    Value.exists_ofComponents? hf (hlength ▸ List.length_map Binary32.mk)
  refine ⟨ws.map .mk, v, by rw [h.components?_eq size, hws, Option.map_some], hv, harity, ?_⟩
  rw [hcomponents, List.flatMap_map, ← (Storage.words?_eq_some.1 hws).2]

lemma Holds.unique (hf : a.arity.isFloat) (hu : a.Holds buffer n u) (hv : a.Holds buffer n v) :
    u = v := by
  refine Value.eq_of_components_eq (hv.arity ▸ hf) (hu.arity.trans hv.arity.symm) ?_
  have hbits : Function.Injective Binary32.bits := by
    rintro ⟨_⟩ ⟨_⟩ rfl
    rfl
  have hbytes := hu.bytes.trans hv.bytes.symm
  rw [← List.flatMap_map Binary32.bits, ← List.flatMap_map Binary32.bits] at hbytes
  exact List.map_injective_iff.2 hbits (flatMap_encode_injective hbytes)

/-- An attribute of a vertex lies before those of later vertices. -/
lemma LiesIn.of_le (h : a.LiesIn buffer n) (hle : m ≤ n) : a.LiesIn buffer m := by
  have hskipped : m * a.stride.toNat ≤ n * a.stride.toNat := Nat.mul_le_mul_right _ hle
  unfold LiesIn start at h ⊢
  omega

end Attribute

namespace Layout

variable {l : Layout} {buffer : ByteArray} {vertex : UInt64} {attributes : List Attribute}
  {values : Array Value} {place place' k m n : Nat} {a : Attribute}

/-! ### Attributes in order -/

lemma fetchFrom_of_liesIn (place : Nat) (values : Array Value) (size : buffer.size < 2 ^ 64)
    (hf : ∀ a ∈ attributes, a.arity.isFloat) (h : ∀ a ∈ attributes, a.LiesIn buffer vertex.toNat) :
    ∃ fetched, fetchFrom buffer vertex place attributes values = .ok (values ++ fetched) ∧
      List.Forall₂ (fun a v => a.Holds buffer vertex.toNat v) attributes fetched.toList := by
  induction attributes generalizing place values with
  | nil => exact ⟨#[], by simp [fetchFrom], .nil⟩
  | cons a attributes ih =>
    rw [List.forall_mem_cons] at hf h
    obtain ⟨numbers, v, hnumbers, hv, hholds⟩ := h.1.exists_holds size hf.1
    obtain ⟨fetched, hfetched, hall⟩ := ih (place + 1) (values.push v) hf.2 h.2
    refine ⟨#[v] ++ fetched, ?_, by simpa using ⟨hholds, hall⟩⟩
    simp only [fetchFrom, hnumbers, hv, hfetched]
    simp

lemma fetchFrom_of_outside (place : Nat) (values : Array Value) (size : buffer.size < 2 ^ 64)
    (hf : ∀ a ∈ attributes, a.arity.isFloat) (ha : attributes[k]? = some a)
    (hout : ¬a.LiesIn buffer vertex.toNat)
    (hbefore : ∀ j < k, ∀ b, attributes[j]? = some b → b.LiesIn buffer vertex.toNat) :
    fetchFrom buffer vertex place attributes values =
      .error (.vertexFetchOutOfBounds vertex (place + k)) := by
  -- attributes before the one outside are read, and `place` counts them
  induction attributes generalizing place values k with
  | nil => cases ha
  | cons b attributes ih =>
    rw [List.forall_mem_cons] at hf
    cases k with
    | zero =>
      cases ha
      simp [fetchFrom, Attribute.components?_eq_none hout]
    | succ k =>
      have hb := hbefore 0 (Nat.succ_pos k) b rfl
      obtain ⟨numbers, v, hnumbers, hv, -⟩ := hb.exists_holds size hf.1
      have hrest := ih (place + 1) (values.push v) hf.2 ha fun j hj c hc =>
        hbefore (j + 1) (Nat.succ_lt_succ hj) c hc
      simp only [fetchFrom, hnumbers, hv, hrest]
      rw [Nat.add_assoc, Nat.add_comm 1]

/-! ### Vertices -/

lemma fetch_of_liesIn (wellFormed : l.WellFormed) (size : buffer.size < 2 ^ 64)
    (h : l.LiesIn buffer vertex.toNat) :
    ∃ values, l.fetch buffer vertex = .ok values ∧ l.Holds buffer vertex.toNat values.toList := by
  obtain ⟨fetched, hfetched, hholds⟩ := fetchFrom_of_liesIn 0 #[] size
    (fun a ha => Arity.isFloat_iff_ne_int.2 (wellFormed.floats a ha)) h
  exact ⟨fetched, by rw [fetch, hfetched, Array.empty_append], hholds⟩

lemma LeavesAt.fetch_eq (wellFormed : l.WellFormed) (size : buffer.size < 2 ^ 64)
    (h : l.LeavesAt buffer vertex.toNat place) :
    l.fetch buffer vertex = .error (.vertexFetchOutOfBounds vertex place) := by
  obtain ⟨⟨a, ha, hout⟩, hbefore⟩ := h
  rw [fetch, fetchFrom_of_outside 0 #[] size
    (fun a ha => Arity.isFloat_iff_ne_int.2 (wellFormed.floats a ha)) ha hout hbefore, Nat.zero_add]

/-- A vertex lies in a buffer, or it has a first attribute that does not. -/
lemma liesIn_or_leavesAt (l : Layout) (buffer : ByteArray) (n : Nat) :
    l.LiesIn buffer n ∨ ∃ place, l.LeavesAt buffer n place := by
  by_cases hex : ∃ place : Nat, ∃ a : Attribute, l.attributes[place]? = some a ∧ ¬a.LiesIn buffer n
  · refine .inr ⟨Nat.find hex, Nat.find_spec hex, fun k hk a ha => ?_⟩
    by_contra hout
    exact Nat.find_min hex hk ⟨a, ha, hout⟩
  · refine .inl fun a ha => ?_
    obtain ⟨place, hplace⟩ := List.mem_iff_getElem?.1 ha
    by_contra hout
    exact hex ⟨place, a, hplace, hout⟩

lemma LeavesAt.not_liesIn (h : l.LeavesAt buffer n place) : ¬l.LiesIn buffer n := by
  obtain ⟨⟨a, ha, hout⟩, -⟩ := h
  exact fun hall => hout (hall a (List.mem_of_getElem? ha))

/-- The first attribute that does not lie in a buffer is one. -/
lemma LeavesAt.unique (h : l.LeavesAt buffer n place) (h' : l.LeavesAt buffer n place') :
    place = place' := by
  have hle : ∀ {i j}, l.LeavesAt buffer n i → l.LeavesAt buffer n j → i ≤ j := by
    intro i j hi hj
    obtain ⟨a, ha, hout⟩ := hj.outside
    by_contra hlt
    exact hout (hi.before j (not_le.1 hlt) a ha)
  exact (hle h h').antisymm (hle h' h)

lemma LiesIn.of_le (h : l.LiesIn buffer n) (hle : m ≤ n) : l.LiesIn buffer m :=
  fun a ha => (h a ha).of_le hle

lemma LiesIn.of_lt (h : l.LiesIn buffer (n - 1)) (hlt : m < n) : l.LiesIn buffer m :=
  h.of_le (Nat.le_sub_one_of_lt hlt)

/-- Of a number of vertices all lie in a buffer, or there is a first that does not. -/
lemma liesIn_or_exists_leavesAt (l : Layout) (buffer : ByteArray) (count : Nat) :
    (∀ k < count, l.LiesIn buffer k) ∨
      ∃ n < count, (∀ k < n, l.LiesIn buffer k) ∧ ∃ place, l.LeavesAt buffer n place := by
  induction count with
  | zero => exact .inl fun k hk => absurd hk k.not_lt_zero
  | succ count ih =>
    rcases ih with hin | ⟨n, hn, hout⟩
    · rcases l.liesIn_or_leavesAt buffer count with hlast | hlast
      · exact .inl fun k hk => hlast.of_le (Nat.lt_succ_iff.1 hk)
      · exact .inr ⟨count, Nat.lt_succ_self count, hin, hlast⟩
    · exact .inr ⟨n, hn.trans (Nat.lt_succ_self count), hout⟩

/-- The bytes of a vertex say one list of values. -/
lemma Holds.unique (wellFormed : l.WellFormed) {us vs : List Value}
    (hus : l.Holds buffer n us) (hvs : l.Holds buffer n vs) : us = vs := by
  obtain ⟨attributes⟩ := l
  obtain ⟨-, hf⟩ := wellFormed
  simp only [Holds] at hf hus hvs
  induction hus generalizing vs with
  | nil => exact (List.forall₂_nil_left_iff.1 hvs).symm
  | cons hu _ ih =>
    obtain ⟨v, vs', hv, hvs', rfl⟩ := List.forall₂_cons_left_iff.1 hvs
    rw [List.forall_mem_cons] at hf
    rw [hu.unique (Arity.isFloat_iff_ne_int.2 hf.1) hv, ih hvs' hf.2]

/-- A vertex is fetched if and only if all its attributes lie in the buffer, where bytes are counted
without bound, and its values are what the bytes say. Otherwise the error names the vertex and the
first attribute that does not lie in the buffer. A vertex may be any word, and so may the size of
the buffer. -/
theorem fetch_exact (wellFormed : l.WellFormed) (size : buffer.size < 2 ^ 64) (vertex : UInt64) :
    ((∃ values, l.fetch buffer vertex = .ok values) ↔ l.LiesIn buffer vertex.toNat) ∧
    (∀ values, l.fetch buffer vertex = .ok values ↔
      l.LiesIn buffer vertex.toNat ∧ l.Holds buffer vertex.toNat values.toList) ∧
    ∀ e, l.fetch buffer vertex = .error e ↔
      ∃ place, l.LeavesAt buffer vertex.toNat place ∧
        e = .vertexFetchOutOfBounds vertex place := by
  rcases l.liesIn_or_leavesAt buffer vertex.toNat with hin | ⟨place, hout⟩
  · obtain ⟨values, hfetch, hholds⟩ := fetch_of_liesIn wellFormed size hin
    refine ⟨by simp [hfetch, hin], fun values' => ?_, fun e => ?_⟩
    · simp only [hfetch, Except.ok.injEq, hin, true_and]
      constructor
      · rintro rfl
        exact hholds
      · exact fun hholds' => Array.toList_inj.1 (hholds.unique wellFormed hholds')
    · simp only [hfetch, reduceCtorEq, false_iff, not_exists, not_and]
      exact fun place hout => absurd hin hout.not_liesIn
  · have hfetch := hout.fetch_eq wellFormed size
    refine ⟨by simp [hfetch, hout.not_liesIn], by simp [hfetch, hout.not_liesIn], fun e => ?_⟩
    rw [hfetch, Except.error.injEq]
    constructor
    · rintro rfl
      exact ⟨place, hout, rfl⟩
    · rintro ⟨place', hout', rfl⟩
      exact Except.error.inj (hfetch.symm.trans (hout'.fetch_eq wellFormed size))

/-- A vector of two that all vertices share, and a number that each vertex has half of all 32-bit
words further on. -/
def farApart : Layout := ⟨[⟨.vec2, 0, 0⟩, ⟨.scalar, 8, 0x80000000⟩]⟩

/-- Twelve bytes, the numbers one, two and a NaN with a payload. -/
def threeNumbers : ByteArray := ⟨#[0, 0, 0x80, 0x3f, 0, 0, 0, 0x40, 1, 0, 0xc0, 0x7f]⟩

/-- The number of vertex `2 ^ 33` starts `2 ^ 64` bytes after that of vertex 0. In words it would be
the same place, but it is not fetched. -/
theorem fetch_exact_farApart :
    farApart.fetch threeNumbers 0 =
        .ok #[.vec2 ⟨0x3f800000⟩ ⟨0x40000000⟩, .scalar ⟨0x7fc00001⟩] ∧
      farApart.fetch threeNumbers 0x200000000 =
        .error (.vertexFetchOutOfBounds 0x200000000 1) := by
  have wellFormed : farApart.WellFormed := ⟨by decide, by decide⟩
  have size : threeNumbers.size < 2 ^ 64 := by decide
  constructor
  · refine ((fetch_exact wellFormed size 0).2.1 _).2 ⟨by decide, .cons ⟨rfl, by decide⟩ ?_⟩
    exact .cons ⟨rfl, by decide⟩ .nil
  · refine ((fetch_exact wellFormed size 0x200000000).2.2 _).2 ⟨1, ⟨⟨_, rfl, by decide⟩, ?_⟩, rfl⟩
    intro k hk a ha
    obtain rfl := Nat.lt_one_iff.1 hk
    cases ha
    decide

end Layout

end GraphicsPipeline
