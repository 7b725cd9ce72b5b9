import GraphicsPipeline.Proofs.Outcome
import GraphicsPipeline.Proofs.Word.Basic
import GraphicsPipeline.Proofs.Word.Storage
import GraphicsPipeline.Raster.Target

/-!
# Cutting a target into bands

The pieces of a byte array make up the array again, so a target is what its bands make up.
-/

namespace GraphicsPipeline.Target

variable {n : Nat} {data : ByteArray}

/-! ### Pieces -/

lemma length_pieces : (pieces n data).length = (data.size + n - 1) / n := by
  simp [pieces]

lemma getElem_pieces {i : Nat} (h : i < (pieces n data).length) :
    (pieces n data)[i] = data.extract (i * n) ((i + 1) * n) := by
  simp [pieces]

lemma zipIdx_pieces : (pieces n data).zipIdx =
    (List.range (pieces n data).length).map fun i =>
      (data.extract (i * n) ((i + 1) * n), i) := by
  apply List.ext_getElem (by simp)
  intro i hi hi'
  rw [List.length_zipIdx] at hi
  simp [getElem_pieces hi]

/-- A piece starts before the end of the array. -/
lemma lt_of_lt_length_pieces (hn : 0 < n) {i : Nat} (h : i < (pieces n data).length) :
    i * n < data.size := by
  rw [length_pieces] at h
  have hi := (Nat.lt_div_iff_mul_lt hn).1 h
  have := Nat.mul_comm n i
  omega

/-- The pieces reach to the end of the array. -/
lemma size_le_of_length_pieces (data : ByteArray) (hn : 0 < n) :
    data.size ≤ (pieces n data).length * n := by
  rw [length_pieces]
  have hdiv := Nat.div_add_mod (data.size + n - 1) n
  have hmod := Nat.mod_lt (data.size + n - 1) hn
  rw [Nat.mul_comm] at hdiv
  omega

lemma join_append {xs ys : List ByteArray} : join (xs ++ ys) = join xs ++ join ys := by
  induction ys using List.reverseRecOn with
  | nil => simp [join]
  | append_singleton ys y ih =>
    simp only [join, List.foldl_append, List.foldl_cons, List.foldl_nil, ← List.append_assoc]
      at ih ⊢
    rw [ih, ByteArray.append_assoc]

lemma join_singleton {x : ByteArray} : join [x] = x := by
  simp [join]

lemma size_join {xs : List ByteArray} : (join xs).size = (xs.map ByteArray.size).sum := by
  induction xs using List.reverseRecOn with
  | nil => rfl
  | append_singleton xs x ih =>
    rw [join_append, join_singleton, ByteArray.size_append, ih]
    simp

/-- Pieces that reach to the end of the array make up the array. -/
theorem join_extract {m : Nat} (h : data.size ≤ m * n) :
    join ((List.range m).map fun i => data.extract (i * n) ((i + 1) * n)) = data := by
  have hfront : ∀ m, join ((List.range m).map fun i => data.extract (i * n) ((i + 1) * n)) =
      data.extract 0 (m * n) := by
    intro m
    induction m with
    | zero => simp [join]
    | succ m ih =>
      rw [List.range_succ, List.map_append, join_append, ih, List.map_singleton, join_singleton,
        ByteArray.extract_append_extract]
      simp [Nat.succ_mul]
  rw [hfront, ← Nat.max_eq_left h, ByteArray.extract_zero_max_size]

/-! ### Bands -/

variable {t : Target} {bandRows length : UInt64} {bands : List Band}

/-- There are pixels in a row, and a depth for every pixel. -/
structure Sized (t : Target) : Prop where
  width : 0 < t.width.toNat
  depth : ∀ d, t.depth = some d → d.size = t.color.size

/-- The rows of the target that lie in one band, where a band has so many bytes. -/
def part (t : Target) (bandRows length : UInt64) (i : Nat) : Band where
  y₀ := UInt32.ofNat (i * (rowsPerBand bandRows).toNat)
  rows := min (rowsPerBand bandRows).toUInt32
    (t.height - UInt32.ofNat (i * (rowsPerBand bandRows).toNat))
  width := t.width
  color := t.color.extract (i * length.toNat) ((i + 1) * length.toNat)
  depth := t.depth.map fun d => d.extract (i * length.toNat) ((i + 1) * length.toNat)

/-- The number of bands, where a band has so many bytes. -/
def bandCount (t : Target) (length : UInt64) : Nat := (pieces length.toNat t.color).length

/-- The target cut into its parts. -/
def parts (t : Target) (bandRows length : UInt64) : List Band :=
  (List.range (t.bandCount length)).map (t.part bandRows length)

lemma toNat_rowsPerBand (bandRows : UInt64) : (rowsPerBand bandRows).toNat = max bandRows.toNat 1 :=
  UInt64.toNat_max bandRows 1

lemma rowsPerBand_pos (bandRows : UInt64) : 0 < (rowsPerBand bandRows).toNat := by
  have hmax := toNat_rowsPerBand bandRows
  omega

lemma bandLength?_eq_some : t.bandLength? bandRows = some length ↔
    length.toNat = t.width.toNat * 4 * (rowsPerBand bandRows).toNat := by
  have hwidth := t.width.toNat_lt_size
  have hmul : (t.width.toUInt64 * 4).toNat = t.width.toNat * 4 := by
    simp only [UInt32.size] at hwidth
    simp only [UInt64.toNat_mul, UInt32.toNat_toUInt64, UInt64.reduceToNat]
    omega
  rw [bandLength?, Checked.mul64?_eq_some, hmul]

lemma Sized.length_pos (h : t.Sized) (hlength : t.bandLength? bandRows = some length) :
    0 < length.toNat := by
  have hwidth := h.width
  rw [bandLength?_eq_some.1 hlength]
  exact Nat.mul_pos (by omega) (rowsPerBand_pos bandRows)

/-- One band is a part of the target, if it starts within it. -/
lemma Sized.band_eq_ok (h : t.Sized) {i : Nat} {b : Band}
    (hi : i < t.bandCount length) :
    t.band bandRows i (t.color.extract (i * length.toNat) ((i + 1) * length.toNat))
        ((t.depth.map (pieces length.toNat)).bind fun d => d[i]?) = .ok b ↔
      (UInt32.ofNat (i * (rowsPerBand bandRows).toNat)).toNat ≤ t.height.toNat ∧
        b = t.part bandRows length i := by
  have hdepth : ((t.depth.map (pieces length.toNat)).bind fun d => d[i]?) =
      t.depth.map fun d => d.extract (i * length.toNat) ((i + 1) * length.toNat) := by
    cases hd : t.depth with
    | none => rfl
    | some d =>
      have hlength : i < (pieces length.toNat d).length := by
        rwa [length_pieces, h.depth d hd, ← length_pieces]
      simp [List.getElem?_eq_getElem hlength, getElem_pieces hlength]
  simp only [band, bind_eq_ok, orAbort_eq_ok, Checked.sub32?_eq_some, pure_eq_ok, hdepth, part]
  constructor
  · rintro ⟨left, ⟨hle, hleft⟩, rfl⟩
    have hsub : left = t.height - UInt32.ofNat (i * (rowsPerBand bandRows).toNat) := by
      rw [← UInt32.toNat_inj, hleft, UInt32.toNat_sub_of_le _ _ (UInt32.le_iff_toNat_le.2 hle)]
    exact ⟨hle, by rw [hsub]⟩
  · rintro ⟨hle, rfl⟩
    exact ⟨_, ⟨hle, UInt32.toNat_sub_of_le _ _ (UInt32.le_iff_toNat_le.2 hle)⟩, rfl⟩

/-- The bands of a target are its parts, each of which has to start within the target. -/
theorem Sized.bands_eq_ok (h : t.Sized) :
    t.bands bandRows = .ok bands ↔ ∃ length, t.bandLength? bandRows = some length ∧
      (∀ i < t.bandCount length,
        (UInt32.ofNat (i * (rowsPerBand bandRows).toNat)).toNat ≤ t.height.toNat) ∧
      bands = t.parts bandRows length := by
  have hpart : ∀ length : UInt64, ∀ a ∈ (pieces length.toNat t.color).zipIdx, ∀ b : Band,
      t.band bandRows a.2 a.1 ((t.depth.map (pieces length.toNat)).bind fun d => d[a.2]?) = .ok b ↔
        (UInt32.ofNat (a.2 * (rowsPerBand bandRows).toNat)).toNat ≤ t.height.toNat ∧
          t.part bandRows length a.2 = b := by
    intro length a ha b
    rw [zipIdx_pieces, List.mem_map] at ha
    obtain ⟨i, hi, rfl⟩ := ha
    rw [h.band_eq_ok (List.mem_range.1 hi), eq_comm (a := b)]
  -- every band needs its first row, counted in words, to lie in the target
  simp only [Target.bands, bind_eq_ok, orAbort_eq_ok, mapM_eq_ok_iff (hpart _)]
  refine exists_congr fun length => and_congr_right fun _ => ?_
  rw [zipIdx_pieces, List.map_map, List.forall_mem_map, eq_comm (a := bands)]
  simp only [List.mem_range]
  rfl

/-- The bands of a target make up the target again. -/
theorem Sized.ofBands_bands (h : t.Sized) (hbands : t.bands bandRows = .ok bands) :
    ofBands t.width bands t.depth.isSome = t := by
  obtain ⟨length, hlength, -, rfl⟩ := h.bands_eq_ok.1 hbands
  have hcolor := size_le_of_length_pieces t.color (h.length_pos hlength)
  obtain ⟨width, color, depth⟩ := t
  simp only [ofBands, parts, bandCount, List.map_map, Target.mk.injEq, true_and]
  constructor
  · exact join_extract hcolor
  · cases depth with
    | none => rfl
    | some d =>
      have hd := join_extract ((h.depth d rfl).trans_le hcolor)
      simpa [part, Function.comp_def] using hd

end GraphicsPipeline.Target
