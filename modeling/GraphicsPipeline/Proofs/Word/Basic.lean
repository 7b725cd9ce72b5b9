import Mathlib
import GraphicsPipeline.Word.Basic

/-!
# Words as numbers

Checked operations on words give the number that they stand for, wherever it fits. A word is the
number with its four bytes as digits, so it is read back from them.
-/

namespace GraphicsPipeline

/-! ### The smaller and the larger word -/

lemma UInt32.toNat_min (a b : UInt32) : (min a b).toNat = min a.toNat b.toNat := by
  change (if a ≤ b then a else b).toNat = _
  split <;> rename_i h <;> rw [UInt32.le_iff_toNat_le] at h <;> omega

lemma UInt32.toNat_max (a b : UInt32) : (max a b).toNat = max a.toNat b.toNat := by
  change (if a ≤ b then b else a).toNat = _
  split <;> rename_i h <;> rw [UInt32.le_iff_toNat_le] at h <;> omega

lemma UInt64.toNat_max (a b : UInt64) : (max a b).toNat = max a.toNat b.toNat := by
  change (if a ≤ b then b else a).toNat = _
  split <;> rename_i h <;> rw [UInt64.le_iff_toNat_le] at h <;> omega

namespace Checked

variable {n : Nat} {x y : UInt32} {u v : UInt64}

/-! ### Checked results -/

lemma word32?_eq_some {w : UInt32} : word32? n = some w ↔ w.toNat = n := by
  unfold word32?
  split
  case isTrue h =>
    rw [Option.some_inj, ← UInt32.toNat_inj, UInt32.toNat_ofNat_of_lt' h]
    exact eq_comm
  case isFalse h =>
    have := w.toNat_lt_size
    simp
    omega

lemma word64?_eq_some {w : UInt64} : word64? n = some w ↔ w.toNat = n := by
  unfold word64?
  split
  case isTrue h =>
    rw [Option.some_inj, ← UInt64.toNat_inj, UInt64.toNat_ofNat_of_lt' h]
    exact eq_comm
  case isFalse h =>
    have := w.toNat_lt_size
    simp
    omega

lemma add32?_eq_some {w : UInt32} : add32? x y = some w ↔ w.toNat = x.toNat + y.toNat :=
  word32?_eq_some

lemma sub32?_eq_some {w : UInt32} :
    sub32? x y = some w ↔ y.toNat ≤ x.toNat ∧ w.toNat = x.toNat - y.toNat := by
  simp only [sub32?, UInt32.le_iff_toNat_le]
  split_ifs with h
  · have hsub : (x - y).toNat = x.toNat - y.toNat :=
      UInt32.toNat_sub_of_le _ _ (UInt32.le_iff_toNat_le.2 h)
    rw [Option.some_inj, ← UInt32.toNat_inj, hsub]
    simp [h, eq_comm]
  · simp [h]

lemma mul32?_eq_some {w : UInt32} : mul32? x y = some w ↔ w.toNat = x.toNat * y.toNat :=
  word32?_eq_some

lemma add64?_eq_some {w : UInt64} : add64? u v = some w ↔ w.toNat = u.toNat + v.toNat :=
  word64?_eq_some

lemma mul64?_eq_some {w : UInt64} : mul64? u v = some w ↔ w.toNat = u.toNat * v.toNat :=
  word64?_eq_some

end Checked

/-! ### Words and their bytes -/

namespace LittleEndian

lemma or_shiftLeft {low i : Nat} (high : Nat) (h : low < 2 ^ i) :
    low ||| high <<< i = low + 2 ^ i * high := by
  rw [Nat.or_comm, ← Nat.shiftLeft_add_eq_or_of_lt h, Nat.shiftLeft_eq, Nat.mul_comm, Nat.add_comm]

/-- The bytes are the digits of the word to the base 256. -/
lemma toNat_decode (b₀ b₁ b₂ b₃ : UInt8) : (decode b₀ b₁ b₂ b₃).toNat =
    b₀.toNat + 256 * b₁.toNat + 65536 * b₂.toNat + 16777216 * b₃.toNat := by
  have h₀ := b₀.toNat_lt
  have h₁ := b₁.toNat_lt
  have h₂ := b₂.toNat_lt
  have h₃ := b₃.toNat_lt
  simp only [decode, UInt32.toNat_or, UInt32.toNat_shiftLeft, UInt8.toNat_toUInt32,
    UInt32.toNat_ofNat, Nat.reducePow, Nat.reduceMod]
  -- no byte is shifted out of the word, and no two bytes overlap
  rw [Nat.mod_eq_of_lt (by rw [Nat.shiftLeft_eq]; omega),
    Nat.mod_eq_of_lt (by rw [Nat.shiftLeft_eq]; omega),
    Nat.mod_eq_of_lt (by rw [Nat.shiftLeft_eq]; omega),
    or_shiftLeft b₁.toNat h₀, or_shiftLeft b₂.toNat (by omega), or_shiftLeft b₃.toNat (by omega)]
  norm_num

lemma decode_encode (w : UInt32) :
    decode w.toUInt8 (w >>> 8).toUInt8 (w >>> 16).toUInt8 (w >>> 24).toUInt8 = w := by
  have hw := w.toNat_lt_size
  rw [← UInt32.toNat_inj, toNat_decode]
  simp only [UInt32.toNat_toUInt8, UInt32.toNat_shiftRight, Nat.shiftRight_eq_div_pow,
    UInt32.toNat_ofNat, Nat.reducePow, Nat.reduceMod, UInt32.size] at hw ⊢
  omega

lemma encode_decode (b₀ b₁ b₂ b₃ : UInt8) : encode (decode b₀ b₁ b₂ b₃) = [b₀, b₁, b₂, b₃] := by
  have hdigits := toNat_decode b₀ b₁ b₂ b₃
  have h₀ := b₀.toNat_lt
  have h₁ := b₁.toNat_lt
  have h₂ := b₂.toNat_lt
  have h₃ := b₃.toNat_lt
  simp only [encode, List.cons.injEq, ← UInt8.toNat_inj, UInt32.toNat_toUInt8,
    UInt32.toNat_shiftRight, Nat.shiftRight_eq_div_pow, UInt32.toNat_ofNat, Nat.reducePow,
    Nat.reduceMod, hdigits, and_true]
  omega

lemma length_encode (w : UInt32) : (encode w).length = 4 := rfl

/-- All strings of four bytes are words. -/
lemma exists_encode_eq (bytes : Bytes) (h : bytes.length = 4) : ∃ w, encode w = bytes := by
  obtain ⟨b₀, b₁, b₂, b₃, rfl⟩ := List.length_eq_four.1 h
  exact ⟨_, encode_decode b₀ b₁ b₂ b₃⟩

/-! ### Readers -/

/-- A word is read from its four bytes, and from no others. -/
lemma takeWord?_eq_some {bytes rest : Bytes} {w : UInt32} :
    takeWord? bytes = some (w, rest) ↔ bytes = encode w ++ rest := by
  constructor
  · intro h
    unfold takeWord? at h
    split at h
    · cases h
      rw [encode_decode]
      rfl
    · cases h
  · rintro rfl
    simp [encode, takeWord?, decode_encode]

/-- Different words have different bytes. -/
lemma encode_injective : Function.Injective encode := by
  intro w w' h
  have hw : takeWord? (encode w) = some (w', []) := takeWord?_eq_some.2 (by simpa using h)
  rw [takeWord?_eq_some.2 (List.append_nil _).symm] at hw
  cases hw
  rfl

/-- Words are read in order from the bytes of one after another, and from no others. -/
lemma takeWords?_eq_some {n : Nat} {bytes rest : Bytes} {ws : List UInt32} :
    takeWords? n bytes = some (ws, rest) ↔ ws.length = n ∧ bytes = ws.flatMap encode ++ rest := by
  induction n generalizing bytes rest ws with
  | zero =>
    simp only [takeWords?, Option.some.injEq, Prod.mk.injEq, List.length_eq_zero_iff]
    constructor
    · rintro ⟨rfl, rfl⟩
      exact ⟨rfl, rfl⟩
    · rintro ⟨rfl, rfl⟩
      exact ⟨rfl, rfl⟩
  | succ n ih =>
    simp only [takeWords?, Option.bind_eq_bind, Option.bind_eq_some_iff, Prod.exists,
      takeWord?_eq_some, ih, Option.some.injEq, Prod.mk.injEq]
    constructor
    · rintro ⟨w, _, rfl, ws, _, ⟨rfl, rfl⟩, rfl, rfl⟩
      exact ⟨rfl, by simp⟩
    · rintro ⟨hlength, rfl⟩
      cases ws with
      | nil => simp at hlength
      | cons w ws => exact ⟨w, _, by simp, ws, rest, ⟨by simpa using hlength, rfl⟩, rfl, rfl⟩

/-! ### Words that follow one another -/

lemma length_flatMap_encode (ws : List UInt32) : (ws.flatMap encode).length = 4 * ws.length := by
  simp [List.length_flatMap, length_encode, Nat.mul_comm]

lemma flatMap_encode_injective : Function.Injective fun ws : List UInt32 => ws.flatMap encode := by
  intro ws ws' h
  have hlength : ws.length = ws'.length := by
    have htotal := congrArg List.length h
    simp only [length_flatMap_encode] at htotal
    exact Nat.eq_of_mul_eq_mul_left (by decide) htotal
  have hws : takeWords? ws'.length (ws'.flatMap encode) = some (ws, []) :=
    takeWords?_eq_some.2 ⟨hlength, by simpa using h.symm⟩
  rw [takeWords?_eq_some.2 ⟨rfl, (List.append_nil _).symm⟩] at hws
  cases hws
  rfl

end LittleEndian

end GraphicsPipeline
