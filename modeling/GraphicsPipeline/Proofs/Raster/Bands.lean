import GraphicsPipeline.Proofs.Raster.Painting

/-!
# Painting all bands

Bands are painted one after another, or in an order of one's choice. Either way every band is
painted as it is by itself, so what holds of one band holds of all (`Target.PaintsEach`), and if
each has its turn once, all of them show what they show by themselves (`Target.PaintsAll`).
-/

namespace GraphicsPipeline

namespace Target

variable {s : FragmentStage} {t : Triangle Binary32} {ts : List (Triangle Binary32)}
  {keeps : Band → Band → Prop} {fails : Fault → Prop}

/-! ### What painting does to each band -/

/-- A way to paint bands does to each band of a list what painting does to a band. -/
def PaintsEach (s : FragmentStage) (ts : List (Triangle Binary32))
    (paintAll : List Band → List Band × Except Fault Unit) : Prop :=
  ∀ (keeps : Band → Band → Prop) (fails : Fault → Prop), (∀ b, keeps b b) →
    (∀ a b c, keeps a b → keeps b c → keeps a c) → (Band.paint s ts).Satisfies keeps fails →
      ∀ bands, List.Forall₂ keeps bands (paintAll bands).1 ∧
        ∀ fault, (paintAll bands).2 = .error fault → fails fault

/-- Band after band is a way to paint. -/
theorem paintBands_paintsEach (m : Machine) : PaintsEach s ts (paintBands s ts m) := by
  intro keeps fails hrefl htrans h bands
  induction bands generalizing m with
  | nil => exact ⟨.nil, by simp [paintBands]⟩
  | cons b rest ih =>
    obtain ⟨hkeeps, hfails⟩ := h b
    unfold paintBands
    rcases hp : Painter.paint s ts ⟨m, b⟩ with ⟨p, fault | _⟩ <;>
      rw [Painter.paint_band hp] at hkeeps hfails
    · exact ⟨.cons hkeeps (List.forall₂_same.2 fun b _ => hrefl b), hfails⟩
    · obtain ⟨hrest, hrestFails⟩ := ih p.machine
      exact ⟨.cons hkeeps hrest, hrestFails⟩

lemma forall₂_set (hrefl : ∀ b, keeps b b) {bands : List Band} {i : Nat} {b b' : Band}
    (hb : bands[i]? = some b) (h : keeps b b') : List.Forall₂ keeps bands (bands.set i b') := by
  induction bands generalizing i with
  | nil => exact .nil
  | cons a rest ih =>
    cases i with
    | zero =>
      cases hb
      exact .cons h (List.forall₂_same.2 fun b _ => hrefl b)
    | succ i => exact .cons (hrefl a) (ih (by simpa using hb))

lemma forall₂_trans (htrans : ∀ a b c, keeps a b → keeps b c → keeps a c)
    {as bs cs : List Band} (h : List.Forall₂ keeps as bs) (h' : List.Forall₂ keeps bs cs) :
    List.Forall₂ keeps as cs := by
  induction h generalizing cs with
  | nil => exact h'
  | cons hab _ ih =>
    obtain ⟨c, cs, hbc, hbcs, rfl⟩ := List.forall₂_cons_left_iff.1 h'
    exact .cons (htrans _ _ _ hab hbc) (ih hbcs)

/-- The bands in any order, also several times or not at all, is a way to paint. -/
theorem paintPlaces_paintsEach (m : Machine) (places : List Nat) :
    PaintsEach s ts fun bands => paintPlaces s ts m bands places := by
  intro keeps fails hrefl htrans h bands
  induction places generalizing m bands with
  | nil => exact ⟨List.forall₂_same.2 fun b _ => hrefl b, by simp [paintPlaces]⟩
  | cons i places ih =>
    rcases hb : bands[i]? with _ | b
    · simp only [paintPlaces, hb]
      exact ih m bands
    · obtain ⟨hkeeps, hfails⟩ := h b
      rcases hp : Painter.paint s ts ⟨m, b⟩ with ⟨p, fault | _⟩ <;>
        rw [Painter.paint_band hp] at hkeeps hfails
      · simp only [paintPlaces, hb, hp]
        exact ⟨forall₂_set hrefl hb hkeeps, hfails⟩
      · simp only [paintPlaces, hb, hp]
        obtain ⟨hrest, hrestFails⟩ := ih p.machine (bands.set i p.band)
        exact ⟨forall₂_trans htrans (forall₂_set hrefl hb hkeeps) hrest, hrestFails⟩

variable {bands : List Band} {paintAll : List Band → List Band × Except Fault Unit}

/-! ### Every band once -/

/-- A way to paint bands paints each of them once: all are painted if none of them fails, and it
fails if one of them does, as one of them does. -/
structure PaintsAll (s : FragmentStage) (ts : List (Triangle Binary32))
    (paintAll : List Band → List Band × Except Fault Unit) (bands : List Band) : Prop where
  of_ok : (∀ b ∈ bands, (Band.paint s ts b).2 = .ok ()) →
    paintAll bands = (bands.map fun b => (Band.paint s ts b).1, .ok ())
  ok : (paintAll bands).2 = .ok () → ∀ b ∈ bands, (Band.paint s ts b).2 = .ok ()
  error : ∀ fault, (paintAll bands).2 = .error fault →
    ∃ b ∈ bands, (Band.paint s ts b).2 = .error fault

/-- Band after band, each is painted once. -/
theorem paintBands_paintsAll (m : Machine) (bands : List Band) :
    PaintsAll s ts (paintBands s ts m) bands := by
  -- the machine is handed from band to band, but `paint_band` says that no band sees what it holds
  induction bands generalizing m with
  | nil => exact ⟨fun _ => rfl, by simp, by simp [paintBands]⟩
  | cons b rest ih =>
    rcases hp : Painter.paint s ts ⟨m, b⟩ with ⟨p, fault | _⟩ <;>
      have hband := Painter.paint_band hp
    · refine ⟨fun h => ?_, by simp [paintBands, hp], fun fault' h => ⟨b, by simp, ?_⟩⟩
      · have hb := h b (by simp)
        rw [hband] at hb
        cases hb
      · simpa [paintBands, hp, hband] using h
    · obtain ⟨hall, hok, herror⟩ := ih p.machine
      refine ⟨fun h => ?_, fun h => ?_, fun fault h => ?_⟩
      · have hrest := hall fun b hb => h b (List.mem_cons_of_mem _ hb)
        simp [paintBands, hp, hrest, hband]
      · simp only [paintBands, hp] at h
        simp only [List.forall_mem_cons, hband, true_and]
        exact hok h
      · simp only [paintBands, hp] at h
        obtain ⟨b', hb', hfault⟩ := herror fault h
        exact ⟨b', List.mem_cons_of_mem _ hb', hfault⟩

/-- The bands at some places are painted, if none of them fails. -/
lemma paintPlaces_of_ok (m : Machine) (bands : List Band) {places : List Nat}
    (hnodup : places.Nodup)
    (h : ∀ i ∈ places, ∀ b, bands[i]? = some b → (Band.paint s ts b).2 = .ok ()) :
    (paintPlaces s ts m bands places).2 = .ok () ∧ ∀ k,
      (paintPlaces s ts m bands places).1[k]? =
        if k ∈ places then bands[k]?.map fun b => (Band.paint s ts b).1 else bands[k]? := by
  -- no place comes twice, so every band is still untouched when its turn comes
  induction places generalizing m bands with
  | nil => simp [paintPlaces]
  | cons i places ih =>
    obtain ⟨hi, hrest⟩ := List.nodup_cons.1 hnodup
    rcases hb : bands[i]? with _ | b
    · simp only [paintPlaces, hb]
      obtain ⟨hok, hget⟩ := ih m bands hrest fun j hj => h j (List.mem_cons_of_mem i hj)
      refine ⟨hok, fun k => ?_⟩
      rw [hget]
      rcases eq_or_ne k i with rfl | hne
      · simp [hb]
      · simp [hne]
    · have hpaint := h i (by simp) b hb
      rcases hp : Painter.paint s ts ⟨m, b⟩ with ⟨p, fault | _⟩ <;>
        have hband := Painter.paint_band hp
      · rw [hband] at hpaint
        cases hpaint
      · simp only [paintPlaces, hb, hp]
        have hset : ∀ k ≠ i, (bands.set i p.band)[k]? = bands[k]? := fun k hk =>
          List.getElem?_set_ne hk.symm
        have hne : ∀ j ∈ places, j ≠ i := by
          rintro j hj rfl
          exact hi hj
        obtain ⟨hok, hget⟩ := ih p.machine (bands.set i p.band) hrest
          fun j hj b' hb' => h j (List.mem_cons_of_mem i hj) b' (by rwa [hset j (hne j hj)] at hb')
        refine ⟨hok, fun k => ?_⟩
        rw [hget]
        rcases eq_or_ne k i with rfl | hk
        · obtain ⟨hlt, -⟩ := List.getElem?_eq_some_iff.1 hb
          rw [if_neg hi, if_pos (by simp), List.getElem?_set_self hlt, hb, Option.map_some, hband]
        · simp [hk, hset k hk]

/-- The bands at some places come to the end that each comes to by itself. -/
lemma paintPlaces_result (m : Machine) (bands : List Band) {places : List Nat}
    (hnodup : places.Nodup) :
    ((paintPlaces s ts m bands places).2 = .ok () →
      ∀ i ∈ places, ∀ b, bands[i]? = some b → (Band.paint s ts b).2 = .ok ()) ∧
    ∀ fault, (paintPlaces s ts m bands places).2 = .error fault →
      ∃ i ∈ places, ∃ b, bands[i]? = some b ∧ (Band.paint s ts b).2 = .error fault := by
  induction places generalizing m bands with
  | nil => simp [paintPlaces]
  | cons i places ih =>
    obtain ⟨hi, hrest⟩ := List.nodup_cons.1 hnodup
    rcases hb : bands[i]? with _ | b
    · simp only [paintPlaces, hb]
      obtain ⟨hok, herror⟩ := ih m bands hrest
      refine ⟨fun h j hj b' hb' => ?_, fun fault h => ?_⟩
      · rcases List.mem_cons.1 hj with rfl | hj
        · simp [hb] at hb'
        · exact hok h j hj b' hb'
      · obtain ⟨j, hj, hfault⟩ := herror fault h
        exact ⟨j, List.mem_cons_of_mem i hj, hfault⟩
    · rcases hp : Painter.paint s ts ⟨m, b⟩ with ⟨p, fault | _⟩ <;>
        simp only [paintPlaces, hb, hp] <;> have hband := Painter.paint_band hp
      · refine ⟨by simp, fun fault' h => ⟨i, by simp, b, hb, ?_⟩⟩
        rw [hband]
        exact h
      · have hset : ∀ j ∈ places, (bands.set i p.band)[j]? = bands[j]? := by
          intro j hj
          rw [List.getElem?_set_ne]
          rintro rfl
          exact hi hj
        obtain ⟨hok, herror⟩ := ih p.machine (bands.set i p.band) hrest
        refine ⟨fun h j hj b' hb' => ?_, fun fault h => ?_⟩
        · rcases List.mem_cons.1 hj with rfl | hj
          · cases hb.symm.trans hb'
            rw [hband]
          · exact hok h j hj b' (by rwa [hset j hj])
        · obtain ⟨j, hj, b', hb', hfault⟩ := herror fault h
          exact ⟨j, List.mem_cons_of_mem i hj, b', by rwa [hset j hj] at hb', hfault⟩

/-- In any order of all bands, each is painted once. -/
theorem paintPlaces_paintsAll (m : Machine) {places : List Nat}
    (h : places.Perm (List.range bands.length)) :
    PaintsAll s ts (fun bands => paintPlaces s ts m bands places) bands := by
  have hnodup : places.Nodup := h.nodup_iff.2 List.nodup_range
  have hmem : ∀ k, k ∈ places ↔ k < bands.length := fun k => by rw [h.mem_iff, List.mem_range]
  obtain ⟨hok, herror⟩ := paintPlaces_result m bands hnodup
  refine ⟨fun hall => ?_, fun h b hb => ?_, fun fault h => ?_⟩
  · obtain ⟨hok, hget⟩ := paintPlaces_of_ok m bands hnodup fun i _ b hb =>
      hall b (List.mem_of_getElem? hb)
    refine Prod.ext (List.ext_getElem? fun k => ?_) hok
    rw [hget, List.getElem?_map]
    split_ifs with hk
    · rfl
    · rw [hmem, not_lt] at hk
      simp [List.getElem?_eq_none hk]
  · obtain ⟨i, hi, rfl⟩ := List.mem_iff_getElem.1 hb
    exact hok h i ((hmem i).2 hi) _ (List.getElem?_eq_getElem hi)
  · obtain ⟨i, -, b, hb, hfault⟩ := herror fault h
    exact ⟨b, List.mem_of_getElem? hb, hfault⟩

/-! ### Targets -/

/-- Paints the bands of a target in some way. -/
def onBands (bandRows : UInt64) (paintAll : List Band → List Band × Except Fault Unit) :
    Step Target := fun t =>
  match t.bands bandRows with
  | .error fault => (t, .error fault)
  | .ok bands => (ofBands t.width (paintAll bands).1 t.depth.isSome, (paintAll bands).2)

lemma paint_eq_onBands {bandRows : UInt64} :
    paint s ts bandRows = onBands bandRows (paintBands s ts .new) := rfl

lemma width_paint {bandRows : UInt64} {target : Target} :
    (paint s ts bandRows target).1.width = target.width := by
  unfold paint
  split <;> rfl

lemma paintInOrder_eq_onBands {bandRows : UInt64} {places : List Nat} :
    paintInOrder s ts bandRows places =
      onBands bandRows fun bands => paintPlaces s ts .new bands places := rfl

variable {target : Target} {bandRows : UInt64}

/-- A painting that refuses leaves the target as it is, in whatever order the bands come. -/
theorem onBands_refused (hpaint : PaintsEach s ts paintAll) (ready : s.Ready)
    (feeds : ∀ t ∈ ts, t.Feeds s.varyingWidth) (sized : target.Sized) {e : Error}
    (h : (onBands bandRows paintAll target).2 = .error (.refused e)) :
    (onBands bandRows paintAll target).1 = target := by
  unfold onBands at h ⊢
  rcases hbands : target.bands bandRows with fault | bands
  · rfl
  · simp only [hbands] at h ⊢
    cases hrefusal : s.refusal? with
    | none =>
      have hfails := (hpaint _ _ (fun _ => trivial) (fun _ _ _ _ _ => trivial)
        (Band.paint_of_no_refusal ready feeds hrefusal) bands).2
      cases hfails _ h
    | some e' =>
      have hkeeps := (hpaint Eq _ (fun _ => rfl) (fun _ _ _ => Eq.trans)
        (Band.paint_of_refusal ready feeds hrefusal) bands).1
      rw [List.forall₂_eq_eq_eq] at hkeeps
      rw [← hkeeps]
      exact sized.ofBands_bands hbands

lemma size_join_of_forall₂ {xs ys : List ByteArray}
    (h : List.Forall₂ (fun x y => y.size = x.size) xs ys) : (join ys).size = (join xs).size := by
  rw [size_join, size_join]
  congr 1
  induction h with
  | nil => rfl
  | cons hxy _ ih => simp [hxy, ih]

/-- Painting keeps the number of bytes. -/
theorem onBands_size (hpaint : PaintsEach s ts paintAll) (sized : target.Sized) :
    (onBands bandRows paintAll target).1.color.size = target.color.size ∧
      (onBands bandRows paintAll target).1.depth.map ByteArray.size =
        target.depth.map ByteArray.size := by
  unfold onBands
  rcases hbands : target.bands bandRows with fault | bands
  · exact ⟨rfl, rfl⟩
  · have hshape := (hpaint _ _ Band.SameShape.refl Band.SameShape.trans Band.paint_sameShape
      bands).1
    have hself := sized.ofBands_bands hbands
    constructor
    · have hcolor := congrArg (fun t : Target => t.color.size) hself
      refine Eq.trans (size_join_of_forall₂ ?_) hcolor
      rw [List.forall₂_map_left_iff, List.forall₂_map_right_iff]
      exact hshape.imp fun _ _ h => h.color
    · have hdepth := congrArg (fun t : Target => t.depth.map ByteArray.size) hself
      refine Eq.trans ?_ hdepth
      simp only [ofBands]
      split_ifs
      · simp only [Option.map_some, Option.some.injEq]
        refine size_join_of_forall₂ ?_
        rw [List.forall₂_map_left_iff, List.forall₂_map_right_iff]
        refine hshape.imp fun b b' h => ?_
        have hsizes := h.depth
        cases hb : b.depth <;> cases hb' : b'.depth <;> simp_all
      · rfl

/-- A way to paint that leaves the target as it is when it refuses, and that never changes the
number of bytes. -/
structure Careful (paint : FragmentStage → List (Triangle Binary32) → Step Target) : Prop where
  refused : ∀ s ts target e, s.Ready → (∀ t ∈ ts, t.Feeds s.varyingWidth) → target.Sized →
    (paint s ts target).2 = .error (.refused e) → (paint s ts target).1 = target
  size : ∀ s ts target, target.Sized → (paint s ts target).1.color.size = target.color.size ∧
    (paint s ts target).1.depth.map ByteArray.size = target.depth.map ByteArray.size

/-- Painting band after band is careful. -/
theorem paint_careful : Careful fun s ts => paint s ts bandRows where
  refused _ _ _ _ ready feeds sized h :=
    onBands_refused (paintBands_paintsEach .new) ready feeds sized h
  size _ _ _ sized := onBands_size (paintBands_paintsEach .new) sized

/-- Painting is careful in whatever order the bands come. -/
theorem paintInOrder_careful {places : List Nat} :
    Careful fun s ts => paintInOrder s ts bandRows places where
  refused _ _ _ _ ready feeds sized h :=
    onBands_refused (paintPlaces_paintsEach .new places) ready feeds sized h
  size _ _ _ sized := onBands_size (paintPlaces_paintsEach .new places) sized

end Target

end GraphicsPipeline
