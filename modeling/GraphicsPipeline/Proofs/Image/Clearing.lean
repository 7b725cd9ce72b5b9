import GraphicsPipeline.Image.Bytewise
import GraphicsPipeline.Proofs.Image.Texture
import GraphicsPipeline.Proofs.Stepwise

/-!
# Clears, pixel by pixel

A step on bytes that is done on a span of them, or on one piece after another, writes to the places
of the span or of the pieces (`Bytes.Writes.onSpan`, `Bytes.Writes.onPieces`). So a clear that goes
over rows, spans and texels writes the bytes of its rectangle, and leaves the same image as one that
goes from pixel to pixel (`Texture.Bytewise.fill_eq`). It fails, with nothing changed, where the
rectangle reaches beyond the image and nowhere else (`Texture.Bytewise.clear_exact`).
-/

namespace GraphicsPipeline

/-! ### Steps on bytes -/

namespace Bytes

open Step

variable {f g : Step Bytes} {new new' : Nat → Option UInt8} {bytes : Bytes}
  {i size start length : Nat}

/-- Bytes with others at some of their places. -/
def written (new : Nat → Option UInt8) (bytes : Bytes) : Bytes :=
  bytes.mapIdx fun i b => (new i).getD b

@[simp] lemma length_written : (written new bytes).length = bytes.length := List.length_mapIdx

lemma getElem?_written : (written new bytes)[i]? = bytes[i]?.map fun b => (new i).getD b :=
  List.getElem?_mapIdx

lemma written_congr (h : ∀ i < bytes.length, new i = new' i) :
    written new bytes = written new' bytes := by
  apply List.ext_getElem?
  intro i
  rw [getElem?_written, getElem?_written]
  by_cases hi : i < bytes.length
  · rw [h i hi]
  · rw [List.getElem?_eq_none (not_lt.1 hi)]
    rfl

lemma written_eq_self (h : ∀ i < bytes.length, new i = none) : written new bytes = bytes := by
  rw [written_congr h]
  apply List.ext_getElem?
  intro i
  rw [getElem?_written]
  simp

lemma written_written : written new' (written new bytes) =
    written (fun i => (new' i).or (new i)) bytes := by
  apply List.ext_getElem?
  intro i
  rw [getElem?_written, getElem?_written, getElem?_written, Option.map_map]
  congr 1
  funext b
  cases new' i <;> rfl

lemma written_append {as bs : Bytes} :
    written new (as ++ bs) = written new as ++ written (fun i => new (i + as.length)) bs :=
  List.mapIdx_append

/-- On so many bytes, the step succeeds, and it writes the bytes that are given for some of the
places. The other places keep theirs. -/
def Writes (f : Step Bytes) (length : Nat) (new : Nat → Option UInt8) : Prop :=
  ∀ bytes : Bytes, bytes.length = length → f bytes = (written new bytes, .ok ())

lemma Writes.congr (hf : Writes f length new) (h : ∀ i < length, new i = new' i) :
    Writes f length new' := by
  intro bytes hlength
  rw [hf bytes hlength, written_congr fun i hi => h i (hlength ▸ hi)]

lemma writes_skip : Writes skip length fun _ => none := by
  intro bytes _
  rw [written_eq_self fun _ _ => rfl]
  rfl

lemma writes_replace (bytes : Bytes) : Writes (replace bytes) bytes.length fun i => bytes[i]? := by
  intro old hlength
  rw [replace, if_pos hlength]
  congr 1
  apply List.ext_getElem?
  intro i
  rw [getElem?_written]
  by_cases hi : i < bytes.length
  · simp [hi, hlength ▸ hi]
  · simp [not_lt.1 hi, hlength ▸ not_lt.1 hi]

/-- What is written last counts. -/
lemma Writes.andThen (hf : Writes f length new) (hg : Writes g length new') :
    Writes (f.andThen g) length fun i => (new' i).or (new i) := by
  intro bytes hlength
  rw [andThen_of_ok (hf bytes hlength), hg _ (length_written.trans hlength), written_written]

/-- What is written to a span is written from its start on. -/
lemma Writes.onSpan (hf : Writes f length new) (hfit : start + length ≤ size) :
    Writes (onSpan start (start + length) f) size fun i =>
      if start ≤ i ∧ i < start + length then new (i - start) else none := by
  intro bytes hsize
  -- the bytes before the span, in it and behind it
  obtain ⟨as, bs, cs, rfl, rfl, rfl⟩ :
      ∃ as bs cs : Bytes, as ++ bs ++ cs = bytes ∧ as.length = start ∧ bs.length = length :=
    ⟨bytes.take start, (bytes.drop start).take length, bytes.drop (start + length), by simp,
      by simp; omega, by simp; omega⟩
  have hspan : span as.length (as.length + bs.length) (as ++ bs ++ cs) = .ok bs := by
    simp [span]
  have hbefore : (as ++ bs ++ cs).take as.length = as := by simp
  have hafter : (as ++ bs ++ cs).drop (as.length + bs.length) = cs := by simp
  rw [Bytes.onSpan, onPart, hspan]
  simp only [hf bs rfl, hbefore, hafter, written_append]
  congr 3
  · exact (written_eq_self fun i hi => if_neg (by omega)).symm
  · refine written_congr fun i hi => ?_
    rw [if_pos (by omega), Nat.add_sub_cancel]
  · refine (written_eq_self fun i _ => ?_).symm
    rw [List.length_append, if_neg (by omega)]

/-- What is written to every chosen piece is written at every place in one of these pieces. -/
lemma Writes.each (hf : Writes f size new) (hsize : 0 < size) {pieces : List Nat}
    (hfit : ∀ k ∈ pieces, size * k + size ≤ length) :
    Writes (each (fun k => Bytes.onSpan (size * k) (size * k + size) f) pieces) length fun i =>
      if i / size ∈ pieces then new (i % size) else none := by
  induction pieces with
  | nil => exact writes_skip.congr fun i _ => by simp
  | cons k pieces ih =>
    rw [List.forall_mem_cons] at hfit
    refine ((hf.onSpan hfit.1).andThen (ih hfit.2)).congr fun i _ => ?_
    have hpiece : size * k ≤ i ∧ i < size * k + size ↔ i / size = k := by
      rw [Nat.div_eq_iff hsize, Nat.mul_comm k]
      omega
    by_cases hk : i / size = k
    · have hrest : i - size * k = i % size := by
        rw [← hk]
        exact (Nat.mod_eq_sub_mul_div).symm
      simp only [hpiece, hk, hrest, if_true, List.mem_cons, true_or]
      split <;> simp
    · simp [hpiece, hk]

lemma Writes.onPieces (hf : Writes f size new) (hsize : 0 < size) {choose : List Nat → List Nat}
    (hchoose : choose (List.range (length / size)) ⊆ List.range (length / size)) :
    Writes (onPieces size choose f) length fun i =>
      if i / size ∈ choose (List.range (length / size)) then new (i % size) else none := by
  intro bytes hlength
  rw [Bytes.onPieces, if_neg hsize.ne', hlength]
  refine hf.each hsize (fun k hk => ?_) bytes hlength
  have hk := List.mem_range.1 (hchoose hk)
  calc
    size * k + size = size * (k + 1) := rfl
    _ ≤ size * (length / size) := Nat.mul_le_mul_left size hk
    _ ≤ length := Nat.mul_div_le length size

end Bytes

/-! ### Texels -/

namespace Storage

open Bytes

variable {new : Nat → Option UInt8} {bytes : Bytes} {texel : Texel} {i : Nat}

/-- A texel of which all bytes are written is the one that is written. -/
lemma texel?_written (hi : 4 * i + 3 < bytes.length)
    (h : ∀ c < 4, new (4 * i + c) = texel.toList[c]?) :
    texel? (ofBytes (written new bytes)) i = some texel := by
  have hx : new (4 * i) = some texel.x := h 0 (by decide)
  have hy : new (4 * i + 1) = some texel.y := h 1 (by decide)
  have hz : new (4 * i + 2) = some texel.z := h 2 (by decide)
  have hw : new (4 * i + 3) = some texel.w := h 3 (by decide)
  rw [texel?_ofBytes]
  simp only [getElem?_written, hx, hy, hz, hw]
  rw [List.getElem?_eq_getElem (by omega), List.getElem?_eq_getElem (by omega),
    List.getElem?_eq_getElem (by omega), List.getElem?_eq_getElem hi]
  rfl

/-- A texel of which no byte is written stays. -/
lemma texel?_written_of_none (h : ∀ c < 4, new (4 * i + c) = none) :
    texel? (ofBytes (written new bytes)) i = texel? (ofBytes bytes) i := by
  have hx : new (4 * i) = none := h 0 (by decide)
  rw [texel?_ofBytes, texel?_ofBytes]
  simp only [getElem?_written, hx, h 1 (by decide), h 2 (by decide), h 3 (by decide),
    Option.getD_none, Option.map_id']

end Storage

/-! ### Bytes of rows -/

namespace Texture.Bytewise

open Bytes Step

variable {texel : Texel} {minX maxX minY maxY width height x y c : Nat} {bytes : Bytes}
  {t : Texture}

/-- The byte that a fill writes at a place, if the row and the column of its pixel say so. -/
def filled (texel : Texel) (minX maxX minY maxY width : Nat) (i : Nat) : Option UInt8 :=
  if minX ≤ i % (width * 4) / 4 ∧ i % (width * 4) / 4 < maxX ∧
    minY ≤ i / (width * 4) ∧ i / (width * 4) < maxY
  then texel.toList[i % 4]? else none

lemma filled_channel (hx : x < width) (hc : c < 4) :
    filled texel minX maxX minY maxY width (4 * (y * width + x) + c) =
      if minX ≤ x ∧ x < maxX ∧ minY ≤ y ∧ y < maxY then texel.toList[c]? else none := by
  obtain ⟨hrow, hplace⟩ : (4 * (y * width + x) + c) / (width * 4) = y ∧
      (4 * (y * width + x) + c) % (width * 4) = 4 * x + c :=
    (Nat.div_mod_unique (by omega)).2 ⟨by ring, by omega⟩
  have hcolumn : (4 * x + c) / 4 = x := by omega
  have hchannel : (4 * (y * width + x) + c) % 4 = c := by omega
  rw [filled, hrow, hplace, hcolumn, hchannel]

/-- The texels that are filled byte by byte, by row and column. -/
lemma texel?_written_filled (hx : x < width) (hy : y < height)
    (hlength : bytes.length = width * height * 4) :
    Storage.texel? (Storage.ofBytes (written (filled texel minX maxX minY maxY width) bytes))
        (y * width + x) =
      if minX ≤ x ∧ x < maxX ∧ minY ≤ y ∧ y < maxY then some texel
      else Storage.texel? (Storage.ofBytes bytes) (y * width + x) := by
  split
  case isTrue hin =>
    refine Storage.texel?_written ?_ fun c hc => by rw [filled_channel hx hc, if_pos hin]
    have hrow : (y + 1) * width ≤ height * width := Nat.mul_le_mul_right width hy
    rw [hlength, Nat.mul_comm width]
    rw [Nat.succ_mul] at hrow
    omega
  case isFalse hout =>
    exact Storage.texel?_written_of_none fun c hc => by rw [filled_channel hx hc, if_neg hout]

lemma mem_take_drop_range {first count n k : Nat} :
    k ∈ ((List.range n).drop first).take count ↔ first ≤ k ∧ k < first + count ∧ k < n := by
  simp only [List.mem_take_iff_getElem, List.getElem_drop, List.getElem_range, List.length_drop,
    List.length_range, lt_min_iff]
  constructor
  · rintro ⟨j, hj, rfl⟩
    omega
  · intro h
    exact ⟨k - first, by omega, by omega⟩

/-- A span in each of some rows is filled with the bytes of the texel, over and over. -/
lemma writes_filled (texel : Texel) (height : Nat) (hmin : minX ≤ maxX) (hmax : maxX ≤ width)
    (hwidth : 0 < width) (hrows : minY ≤ maxY) :
    Writes (onPieces (width * 4) (fun rows => (rows.drop minY).take (maxY - minY))
        (onSpan (minX * 4) (maxX * 4) (onPieces 4 id (replace texel.toList))))
      (width * height * 4) (filled texel minX maxX minY maxY width) := by
  -- from the inside out: a texel, the texels of a row, the span of columns, the chosen rows
  have htexel : Writes (replace texel.toList) 4 fun i => texel.toList[i]? :=
    writes_replace texel.toList
  have htexels : Writes (onPieces 4 id (replace texel.toList)) ((maxX - minX) * 4) fun i =>
      texel.toList[i % 4]? :=
    (htexel.onPieces (by decide) fun _ hk => hk).congr fun i hi =>
      if_pos (List.mem_range.2 (by omega))
  have hspan : Writes (onSpan (minX * 4) (maxX * 4) (onPieces 4 id (replace texel.toList)))
      (width * 4) fun i => if minX ≤ i / 4 ∧ i / 4 < maxX then texel.toList[i % 4]? else none := by
    have hstop : maxX * 4 = minX * 4 + (maxX - minX) * 4 := by omega
    rw [hstop]
    refine (htexels.onSpan (by omega)).congr fun i hi => ?_
    have hcolumn : minX * 4 ≤ i ∧ i < minX * 4 + (maxX - minX) * 4 ↔
        minX ≤ i / 4 ∧ i / 4 < maxX := by omega
    simp only [hcolumn]
    refine ite_congr rfl (fun hi => ?_) fun _ => rfl
    have hchannel : (i - minX * 4) % 4 = i % 4 := by omega
    rw [hchannel]
  refine (hspan.onPieces (by omega) ?_).congr fun i hi => ?_
  · exact ((List.take_sublist _ _).trans (List.drop_sublist _ _)).subset
  · have hlast : i / (width * 4) < width * height * 4 / (width * 4) := by
      rw [Nat.mul_right_comm, Nat.mul_div_cancel_left height (by omega)]
      exact Nat.div_lt_of_lt_mul (by rwa [Nat.mul_right_comm])
    have hrow : i / (width * 4) ∈
          ((List.range (width * height * 4 / (width * 4))).drop minY).take (maxY - minY) ↔
        minY ≤ i / (width * 4) ∧ i / (width * 4) < maxY := by
      rw [mem_take_drop_range]
      omega
    have hchannel : i % (width * 4) % 4 = i % 4 := Nat.mod_mod_of_dvd i (Nat.dvd_mul_left 4 width)
    simp only [hrow, hchannel, ← ite_and, filled]
    refine if_congr ?_ rfl rfl
    tauto

lemma onData_eq {f : Step Bytes} {new : Nat → Option UInt8} (hf : Writes f t.data.size new) :
    onData f t =
      ({ t with data := Storage.ofBytes (written new (Storage.toBytes t.data)) }, .ok ()) := by
  simp only [onData, onPart, hf _ Storage.length_toBytes]

/-- Rows filled byte by byte have the same texel at every row and column as rows filled texel by
texel. -/
lemma written_filled_eq (hsize : t.data.size = t.width.toNat * t.height.toNat * 4)
    (hwidth : 0 < t.width.toNat) {data' : ByteArray}
    (hrows : fillRows t.data t.width.toNat (minY * t.width.toNat + minX) (maxX - minX) texel
      (maxY - minY) = .ok data') (hmin : minX ≤ maxX) (hmax : maxX ≤ t.width.toNat) :
    Storage.ofBytes (written (filled texel minX maxX minY maxY t.width.toNat)
      (Storage.toBytes t.data)) = data' := by
  have hlength : (Storage.toBytes t.data).length = t.width.toNat * t.height.toNat * 4 :=
    Storage.length_toBytes.trans hsize
  have hwritten : (Storage.ofBytes (written (filled texel minX maxX minY maxY t.width.toNat)
      (Storage.toBytes t.data))).size = t.width.toNat * t.height.toNat * 4 :=
    (List.size_toArray.trans length_written).trans hlength
  rw [Nat.mul_comm] at hsize hwritten
  refine Storage.eq_of_texel?_eq ((size_of_fillRows hrows).trans hsize) hwritten fun i hi => ?_
  obtain ⟨x, y, hx, hy, rfl⟩ : ∃ x y, x < t.width.toNat ∧ y < t.height.toNat ∧
      y * t.width.toNat + x = i :=
    ⟨i % t.width.toNat, i / t.width.toNat, Nat.mod_lt i hwidth, Nat.div_lt_of_lt_mul hi,
      Nat.div_add_mod' i t.width.toNat⟩
  rw [texel?_written_filled hx hy hlength, texel?_of_fillRows_at hrows hx hmin hmax]
  rfl

/-- A clear byte by byte fills its rectangle as a whole, or writes nothing. -/
theorem fill_eq (h : t.WellSized) (texel : Texel) (r : Rect) :
    fill texel r t = atOnce t (t.fill texel r) := by
  unfold fill
  by_cases hout : t.width < r.maxX ∨ t.height < r.maxY
  · rw [if_pos hout, fill_of_out hout]
    rfl
  · by_cases hempty : r.isEmpty
    · rw [if_neg hout, if_pos hempty, fill_of_isEmpty hout hempty]
      rfl
    · obtain ⟨data', hrows, hfill⟩ := h.exists_fill texel hout hempty
      rw [if_neg hout, if_neg hempty, hfill]
      obtain ⟨hmaxX, -⟩ := Rect.not_out_iff.1 hout
      rw [Rect.isEmpty_iff, not_or, not_le, not_le] at hempty
      obtain ⟨hminX, hminY⟩ := hempty
      obtain ⟨hwidth, -, hsize⟩ := h
      obtain ⟨count, hcount⟩ : ∃ count, Checked.sub32? r.maxY r.minY = some count :=
        ⟨_, if_pos (UInt32.le_iff_toNat_le.2 hminY.le)⟩
      have hwrites := writes_filled texel t.height.toNat hminX.le hmaxX hwidth hminY.le
      rw [← hsize, ← (Checked.sub32?_eq_some.1 hcount).2] at hwrites
      have hrow : orAbort (Checked.sub32? r.maxY r.minY) = .ok count := orAbort_eq_ok.2 hcount
      simp only [looking, hrow, stride, onData_eq hwrites,
        written_filled_eq hsize hwidth hrows hminX.le hmaxX]
      rfl

end Texture.Bytewise

/-! ### Clears -/

namespace Texture

variable {t : Texture}

/-- What a clear leaves and gives. It is refused if and only if the rectangle reaches beyond the
image on the right or below, and then nothing has changed. Otherwise the pixels of the rectangle
have the texel, and all others what they had. -/
structure Clears (t : Texture) (texel : Texel) (r : Rect) (after : Texture × Except Fault Unit) :
    Prop where
  refused_iff : (∃ fault, after.2 = .error fault) ↔ t.width < r.maxX ∨ t.height < r.maxY
  refused : ∀ fault, after.2 = .error fault →
    fault = .refused (.badRect r.minX r.maxX r.minY r.maxY) ∧ after.1 = t
  size : after.1.width = t.width ∧ after.1.height = t.height ∧ after.1.data.size = t.data.size
  pixel : after.2 = .ok () → ∀ x y, x < t.width → y < t.height →
    after.1.texel x y = if r.Contains x y then .ok texel else t.texel x y

lemma WellSized.clears_fill (h : t.WellSized) (texel : Texel) (r : Rect) :
    t.Clears texel r (Step.atOnce t (t.fill texel r)) := by
  by_cases hout : t.width < r.maxX ∨ t.height < r.maxY
  · rw [fill_of_out hout]
    refine ⟨iff_of_true ⟨_, rfl⟩ hout, ?_, ⟨rfl, rfl, rfl⟩, nofun⟩
    rintro _ ⟨⟩
    exact ⟨rfl, rfl⟩
  · obtain ⟨t', hfill⟩ := h.exists_fill_eq_ok texel hout
    rw [hfill]
    exact ⟨iff_of_false (by simp [Step.atOnce]) hout, nofun, sizes_of_fill hfill,
      fun _ x y hx _ => h.texel_of_fill hfill hx⟩

/-- Clears touch the pixels of their rectangle only, and all of them, when they go over the bytes
row by row and when they are done as a whole. -/
theorem Bytewise.clear_exact (h : t.WellSized) (r : Rect) (c : Color) (d : UInt32) :
    t.Clears c.pack r (clearColor c r t) ∧ t.Clears (.ofWord d) r (clearDepth d r t) ∧
      clearColor c r t = Step.atOnce t (t.clearColor c r) ∧
      clearDepth d r t = Step.atOnce t (t.clearDepth d r) := by
  have hcolor : clearColor c r t = Step.atOnce t (t.clearColor c r) := fill_eq h c.pack r
  have hdepth : clearDepth d r t = Step.atOnce t (t.clearDepth d r) := fill_eq h (.ofWord d) r
  rw [hcolor, hdepth]
  exact ⟨h.clears_fill c.pack r, h.clears_fill (.ofWord d) r, rfl, rfl⟩

/-- Three columns and two rows, all zero. -/
def threeByTwo : Texture := ⟨3, 2, Storage.zeroed 24⟩

/-- Two pixels of the lower row are cleared, and the third is not. A rectangle without a pixel is
refused where one of its bounds lies beyond the image. -/
theorem Bytewise.clear_exact_threeByTwo :
    (clearDepth 7 ⟨1, 3, 1, 2⟩ threeByTwo).2 = .ok () ∧
      (clearDepth 7 ⟨1, 3, 1, 2⟩ threeByTwo).1.texel 2 1 = .ok (.ofWord 7) ∧
      (clearDepth 7 ⟨1, 3, 1, 2⟩ threeByTwo).1.texel 0 1 = .ok (.fill 0) ∧
      (clearColor (.fill .one) ⟨4, 0, 4, 3⟩ threeByTwo).2 =
        .error (.refused (.badRect 4 0 4 3)) := by
  have wellSized : threeByTwo.WellSized := by decide
  obtain ⟨-, hdepth, -, -⟩ := clear_exact wellSized ⟨1, 3, 1, 2⟩ (.fill .one) 7
  obtain ⟨hcolor, -, -, -⟩ := clear_exact wellSized ⟨4, 0, 4, 3⟩ (.fill .one) 7
  have hok : (clearDepth 7 ⟨1, 3, 1, 2⟩ threeByTwo).2 = .ok () := by
    cases hdone : (clearDepth 7 ⟨1, 3, 1, 2⟩ threeByTwo).2 with
    | ok _ => rfl
    | error fault => exact absurd (hdepth.refused_iff.1 ⟨fault, hdone⟩) (by decide)
  refine ⟨hok, ?_, ?_, ?_⟩
  · rw [hdepth.pixel hok 2 1 (by decide) (by decide), if_pos (by decide)]
  · rw [hdepth.pixel hok 0 1 (by decide) (by decide), if_neg (by decide)]
    decide
  · obtain ⟨fault, hfault⟩ := hcolor.refused_iff.2 (by decide)
    rw [hfault, (hcolor.refused fault hfault).1]

end Texture

end GraphicsPipeline
