import GraphicsPipeline.Proofs.Outcome
import GraphicsPipeline.Proofs.Word.Basic
import GraphicsPipeline.Word.Storage

/-!
# Accesses to storage

An access to a byte array succeeds exactly if all its bytes lie within the array. A texel that was
written is read back, and all others stay.
-/

namespace GraphicsPipeline.Storage

open LittleEndian

variable {storage storage' : ByteArray} {i j : Nat} {t : Texel}

/-! ### Sizes -/

lemma size_zeroed {n : Nat} : (zeroed n).size = n := by
  have hfold : ∀ (m : Nat) (storage : ByteArray),
      (m.fold (fun _ _ storage => storage.push 0) storage).size = storage.size + m := by
    intro m
    induction m with
    | zero => simp
    | succ m ih =>
      intro storage
      rw [Nat.fold_succ, ByteArray.size_push, ih, Nat.add_assoc]
  rw [zeroed, hfold]
  exact Nat.zero_add n

/-- Bytes that are overwritten are as many as before. -/
lemma size_overwrite? {offset : Nat} {bytes : ByteArray}
    (h : overwrite? storage offset bytes = some storage') : storage'.size = storage.size := by
  unfold overwrite? at h
  split at h
  · cases h
    simp [ByteArray.copySlice_eq_append]
    omega
  · cases h

/-- As many bytes as there are take the place of all of them. -/
lemma overwrite?_of_size_eq {bytes : ByteArray} (h : storage.size = bytes.size) :
    overwrite? storage 0 bytes = some bytes := by
  rw [overwrite?, if_pos (by omega)]
  simp [ByteArray.copySlice_eq_append, h]

/-! ### Words -/

lemma word?_eq_none : word? storage i = none ↔ storage.size ≤ i + 3 := by
  unfold word?
  split <;> simp <;> omega

lemma length_toBytes : (toBytes storage).length = storage.size := by
  simp [toBytes]

lemma drop_toBytes (h : i < storage.size) :
    (toBytes storage).drop i = storage[i] :: (toBytes storage).drop (i + 1) :=
  List.drop_eq_getElem_cons (by rwa [length_toBytes])

/-- A word is read where its four bytes are. -/
lemma word?_eq_some {w : UInt32} :
    word? storage i = some w ↔ encode w = ((toBytes storage).drop i).take 4 := by
  unfold word?
  split
  case isTrue h =>
    rw [drop_toBytes (by omega), drop_toBytes (by omega), drop_toBytes (by omega),
      drop_toBytes (by omega), Option.some_inj, ← encode_injective.eq_iff, encode_decode, eq_comm]
    rfl
  case isFalse h =>
    have hshort : encode w ≠ ((toBytes storage).drop i).take 4 := by
      intro heq
      have hlength := congrArg List.length heq
      rw [length_encode, List.length_take, List.length_drop, length_toBytes] at hlength
      omega
    simp [hshort]

/-- Words that follow one another lie within the array if the last of them does. -/
lemma words?_succ {count : Nat} :
    words? storage i (count + 1) =
      (words? storage i count).bind fun ws => (word? storage (i + 4 * count)).map (ws ++ [·]) := by
  unfold words?
  rw [List.range_succ, List.mapM_append]
  simp only [List.mapM_cons, List.mapM_nil]
  cases List.mapM (fun k => word? storage (i + 4 * k)) (List.range count) with
  | none => rfl
  | some ws => cases word? storage (i + 4 * count) <;> rfl

/-- Words that follow one another are read where their bytes are. -/
lemma words?_eq_some {count : Nat} {ws : List UInt32} : words? storage i count = some ws ↔
    ws.length = count ∧ ws.flatMap encode = ((toBytes storage).drop i).take (4 * count) := by
  induction count generalizing ws with
  | zero =>
    have hnone : words? storage i 0 = some [] := rfl
    simp only [hnone, Option.some_inj, List.length_eq_zero_iff, Nat.mul_zero, List.take_zero]
    constructor
    · rintro rfl
      exact ⟨rfl, rfl⟩
    · rintro ⟨rfl, -⟩
      rfl
  | succ count ih =>
    simp only [words?_succ, Option.bind_eq_some_iff, Option.map_eq_some_iff, ih, word?_eq_some,
      Nat.mul_succ, List.take_add, List.drop_drop]
    constructor
    · rintro ⟨ws, ⟨rfl, hws⟩, w, hw, rfl⟩
      exact ⟨by simp, by rw [List.flatMap_append, hws, List.flatMap_singleton, hw]⟩
    · rintro ⟨hlength, hbytes⟩
      obtain rfl | ⟨ws, w, rfl⟩ := ws.eq_nil_or_concat'
      · cases hlength
      · rw [List.length_append, List.length_singleton, Nat.add_right_cancel_iff] at hlength
        subst hlength
        rw [List.flatMap_append, List.flatMap_singleton] at hbytes
        -- the bytes are as many as the words need, so they are cut at the same place
        have hfront : (ws.flatMap encode).length =
            (((toBytes storage).drop i).take (4 * ws.length)).length := by
          have htotal := congrArg List.length hbytes
          simp only [List.length_append, length_flatMap_encode, length_encode, List.length_take,
            List.length_drop] at htotal ⊢
          omega
        obtain ⟨hws, hw⟩ := List.append_inj hbytes hfront
        exact ⟨ws, ⟨rfl, hws⟩, w, hw, rfl⟩

/-- Words can be read if all their bytes lie within the array. -/
lemma exists_words? (storage : ByteArray) (i : Nat) {count : Nat}
    (h : i + 4 * count ≤ storage.size) :
    ∃ ws, words? storage i count = some ws ∧ ws.length = count := by
  induction count with
  | zero => exact ⟨[], rfl, rfl⟩
  | succ count ih =>
    obtain ⟨ws, hws, hlength⟩ := ih (by omega)
    cases hw : word? storage (i + 4 * count) with
    | none =>
      rw [word?_eq_none] at hw
      omega
    | some w => exact ⟨ws ++ [w], by simp [words?_succ, hws, hw], by simp [hlength]⟩

/-- Words cannot be read if their last byte lies beyond the array. -/
lemma words?_eq_none (storage : ByteArray) (i : Nat) {count : Nat}
    (h : storage.size < i + 4 * (count + 1)) :
    words? storage i (count + 1) = none := by
  have hw : word? storage (i + 4 * count) = none := by
    rw [word?_eq_none]
    omega
  cases hws : words? storage i count <;> simp [words?_succ, hws, hw]

/-! ### Texels -/

lemma exists_texel? (storage : ByteArray) (i : Nat) (h : 4 * i + 3 < storage.size) :
    ∃ t, texel? storage i = some t := by
  simp [texel?, h]

lemma setTexel?_eq_some (h : 4 * i + 3 < storage.size) :
    setTexel? storage i t =
      some ((((storage.set! (4 * i) t.x).set! (4 * i + 1) t.y).set! (4 * i + 2) t.z).set!
        (4 * i + 3) t.w) := by
  simp [setTexel?, h]

lemma exists_setTexel? (h : 4 * i + 3 < storage.size) : ∃ s, setTexel? storage i t = some s :=
  ⟨_, setTexel?_eq_some h⟩

/-- A texel is written within the array. -/
lemma lt_of_setTexel? (h : setTexel? storage i t = some storage') : 4 * i + 3 < storage.size := by
  by_contra hi
  simp [setTexel?, hi] at h

/-- A texel is read within the array. -/
lemma lt_of_texel? (h : texel? storage i = some t) : 4 * i + 3 < storage.size := by
  by_contra hi
  simp [texel?, hi] at h

/-- Writing a texel keeps the size. -/
lemma size_setTexel? (h : setTexel? storage i t = some storage') :
    storage'.size = storage.size := by
  unfold setTexel? at h
  split at h
  · cases h
    simp [ByteArray.size_set!]
  · simp at h

/-- The bytes of a texel that was written, and of those that were not. -/
lemma getElem_of_setTexel? (h : setTexel? storage i t = some storage') {k : Nat}
    (hk : k < storage.size) (hk' : k < storage'.size) :
    storage'[k] =
      if k = 4 * i then t.x else if k = 4 * i + 1 then t.y else if k = 4 * i + 2 then t.z
        else if k = 4 * i + 3 then t.w else storage[k] := by
  unfold setTexel? at h
  split at h
  case isFalse => simp at h
  case isTrue hi =>
    cases h
    rw [ByteArray.getElem_set! _ _ _ _ (by simp only [ByteArray.size_set!]; omega)
        (by simp only [ByteArray.size_set!]; omega),
      ByteArray.getElem_set! _ _ _ _ (by simp only [ByteArray.size_set!]; omega)
        (by simp only [ByteArray.size_set!]; omega),
      ByteArray.getElem_set! _ _ _ _ (by simp only [ByteArray.size_set!]; omega)
        (by simp only [ByteArray.size_set!]; omega),
      ByteArray.getElem_set! _ _ _ _ (by omega) hk]
    split_ifs <;> first | rfl | omega

lemma getElem_of_setTexel?_of_ne (h : setTexel? storage i t = some storage') {k : Nat}
    (hk : k < storage.size) (hk' : k < storage'.size) (hne : k / 4 ≠ i) :
    storage'[k] = storage[k] := by
  rw [getElem_of_setTexel? h hk hk', if_neg (by omega), if_neg (by omega), if_neg (by omega),
    if_neg (by omega)]

/-- The texel that was written is read back, and every other one stays. -/
theorem texel?_setTexel? (h : setTexel? storage i t = some storage') :
    texel? storage' j = if j = i then some t else texel? storage j := by
  have hsize := size_setTexel? h
  by_cases hj : 4 * j + 3 < storage.size
  · simp only [texel?, hsize, hj, dite_true]
    rcases eq_or_ne j i with rfl | hne
    · rw [getElem_of_setTexel? h (by omega), getElem_of_setTexel? h (by omega),
        getElem_of_setTexel? h (by omega), getElem_of_setTexel? h (by omega)]
      simp
    · rw [getElem_of_setTexel?_of_ne h (by omega) (by omega) (by omega),
        getElem_of_setTexel?_of_ne h (by omega) (by omega) (by omega),
        getElem_of_setTexel?_of_ne h (by omega) (by omega) (by omega),
        getElem_of_setTexel?_of_ne h (by omega) (by omega) (by omega), if_neg hne]
  · have hne : j ≠ i := by
      rintro rfl
      simp [setTexel?, hj] at h
    simp [texel?, hsize, hj, hne]

/-! ### Texels and bytes -/

/-- The texels of bytes are made of four of them each. -/
lemma texel?_ofBytes {bytes : Bytes} : texel? (ofBytes bytes) i = (do
    return ⟨← bytes[4 * i]?, ← bytes[4 * i + 1]?, ← bytes[4 * i + 2]?, ← bytes[4 * i + 3]?⟩) := by
  have hsize : (ofBytes bytes).size = bytes.length := List.size_toArray
  unfold texel?
  split
  case isTrue hi =>
    rw [hsize] at hi
    rw [List.getElem?_eq_getElem (by omega), List.getElem?_eq_getElem (by omega),
      List.getElem?_eq_getElem (by omega), List.getElem?_eq_getElem hi]
    rfl
  case isFalse hi =>
    rw [hsize, not_lt] at hi
    rw [List.getElem?_eq_none hi]
    cases bytes[4 * i]? <;> cases bytes[4 * i + 1]? <;> cases bytes[4 * i + 2]? <;> rfl

/-- Byte arrays of whole texels are known by their texels. -/
lemma eq_of_texel?_eq {count : Nat} (hsize : storage.size = 4 * count)
    (hsize' : storage'.size = 4 * count)
    (h : ∀ i < count, texel? storage' i = texel? storage i) : storage' = storage := by
  refine ByteArray.ext_getElem (by omega) fun k hk' hk => ?_
  obtain ⟨i, hi, hplace⟩ : ∃ i < count,
      k = 4 * i ∨ k = 4 * i + 1 ∨ k = 4 * i + 2 ∨ k = 4 * i + 3 :=
    ⟨k / 4, by omega, by omega⟩
  have hlast : 4 * i + 3 < storage.size := by omega
  have hlast' : 4 * i + 3 < storage'.size := by omega
  have htexel := h i hi
  simp only [texel?, hlast, hlast', dite_true, Option.some.injEq, Vec4.mk.injEq] at htexel
  obtain ⟨h₀, h₁, h₂, h₃⟩ := htexel
  rcases hplace with rfl | rfl | rfl | rfl
  · exact h₀
  · exact h₁
  · exact h₂
  · exact h₃

/-! ### Parts -/

/-- The bytes of the texels from one place to below another. -/
def texels (storage : ByteArray) (first last : Nat) : ByteArray :=
  storage.extract (4 * first) (4 * last)

variable {first last : Nat}

lemma size_texels (first : Nat) (h : 4 * last ≤ storage.size) :
    (texels storage first last).size = 4 * (last - first) := by
  rw [texels, ByteArray.size_extract]
  omega

/-- A texel of a part is one of the whole. -/
lemma texel?_texels (h : 4 * last ≤ storage.size) (hi : first + i < last) :
    texel? (texels storage first last) i = texel? storage (first + i) := by
  have hsize := size_texels first h
  have hwhole : 4 * (first + i) + 3 < storage.size := by omega
  have hpart : 4 * i + 3 < (texels storage first last).size := by omega
  simp only [texel?, hwhole, hpart, dite_true]
  simp only [texels, ByteArray.getElem_extract, ← Nat.add_assoc, Nat.mul_add]

/-- A texel that is written within a part is written in the part. -/
lemma setTexel?_texels (h : 4 * last ≤ storage.size) (hi : first + i < last)
    (hset : setTexel? storage (first + i) t = some storage') :
    setTexel? (texels storage first last) i t = some (texels storage' first last) := by
  have hsize := size_texels first h
  have hsize' := size_setTexel? hset
  have hwithin : 4 * i + 3 < (texels storage first last).size := by omega
  obtain ⟨part, hpart⟩ := exists_setTexel? (t := t) hwithin
  rw [hpart, Option.some.injEq]
  have hsizes := size_setTexel? hpart
  have hsize'' := size_texels first (h.trans_eq hsize'.symm)
  refine ByteArray.ext_getElem (by omega) fun k hk hk' => ?_
  rw [getElem_of_setTexel? hpart (by omega)]
  simp only [texels, ByteArray.getElem_extract]
  rw [getElem_of_setTexel? hset (by omega)]
  split_ifs <;> first | rfl | omega

/-- A texel that is written elsewhere leaves a part as it was. -/
lemma texels_of_setTexel? (hj : j < first ∨ last ≤ j)
    (hset : setTexel? storage j t = some storage') :
    texels storage' first last = texels storage first last := by
  have hsize := size_setTexel? hset
  refine ByteArray.ext_getElem (by simp [texels, hsize]) fun k hk hk' => ?_
  simp only [texels, ByteArray.size_extract] at hk hk'
  simp only [texels, ByteArray.getElem_extract]
  exact getElem_of_setTexel?_of_ne hset (by omega) (by omega) (by omega)

end GraphicsPipeline.Storage
