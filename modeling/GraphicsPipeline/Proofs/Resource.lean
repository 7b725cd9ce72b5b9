import GraphicsPipeline.Proofs.Image.Texture
import GraphicsPipeline.Proofs.Outcome
import GraphicsPipeline.Resource

/-!
# Tables of resources

What a table holds after it was changed, seen through its ids. In a well-formed table every id
stands for one resource and every texture has all its bytes; every operation keeps the table well
formed. Two such tables with the same resources differ at most in the order of their entries.
-/

namespace GraphicsPipeline

/-! ### Entries by key -/

section Lookup

variable {κ α : Type} [DecidableEq κ] [BEq κ] [LawfulBEq κ] {entries : List (κ × α)} {key k : κ}

lemma lookup_filter_ne :
    (entries.filter fun e => e.1 ≠ key).lookup k = if k = key then none else entries.lookup k := by
  induction entries with
  | nil => simp
  | cons e entries ih =>
    obtain ⟨key', x⟩ := e
    rw [List.filter_cons, List.lookup_cons]
    rcases eq_or_ne key' key with rfl | hne
    · rw [if_neg (by simp), ih]
      split_ifs with hk
      · rfl
      · simp [beq_false_of_ne hk]
    · rw [if_pos (by simpa using hne), List.lookup_cons, ih]
      rcases eq_or_ne k key' with rfl | hk
      · simp [hne]
      · simp [beq_false_of_ne hk]

lemma lookup_map_replace {a : α} :
    (entries.map fun e => if e.1 = key then (key, a) else e).lookup k =
      if k = key then (entries.lookup key).map fun _ => a else entries.lookup k := by
  induction entries with
  | nil => simp
  | cons e entries ih =>
    obtain ⟨key', x⟩ := e
    rw [List.map_cons, List.lookup_cons, List.lookup_cons]
    rcases eq_or_ne key' key with rfl | hne
    · rw [if_pos rfl, List.lookup_cons, ih]
      split_ifs with hk
      · simp [hk]
      · simp [beq_false_of_ne hk]
    · rw [if_neg hne, List.lookup_cons, ih]
      rcases eq_or_ne k key' with rfl | hk
      · simp [hne]
      · simp [beq_false_of_ne hk, beq_false_of_ne hne.symm]

end Lookup

namespace ResourceTable

variable {r r' : ResourceTable} {id k : UInt64} {x y : Resource} {t : Texture}

/-! ### Resources by id -/

@[simp] lemma get?_empty : empty.get? k = none := rfl

lemma get?_add (h : r.get? id = none) :
    (r.add id x).get? k = if k = id then some x else r.get? k := by
  simp only [get?, add, List.lookup_append] at h ⊢
  split_ifs with hk
  · subst hk
    simp [h]
  · simp [List.lookup_cons, beq_false_of_ne hk]

lemma get?_erase : (r.erase id).get? k = if k = id then none else r.get? k := lookup_filter_ne

lemma get?_put :
    (r.put id x).get? k = if k = id then (r.get? id).map fun _ => x else r.get? k :=
  lookup_map_replace

lemma get?_restore : (r.restore id t).get? k = if k = id then some (.texture t) else r.get? k := by
  have hnone : (r.erase id).get? id = none := by rw [get?_erase, if_pos rfl]
  rw [restore, get?_add hnone, get?_erase]
  split_ifs <;> rfl

lemma texture_eq_ok : r.texture id = .ok t ↔ r.get? id = some (.texture t) := by
  unfold texture
  rcases r.get? id with _ | _ | _ <;> simp

lemma take_eq_ok : r.take id = .ok (t, r') ↔ r.get? id = some (.texture t) ∧ r' = r.erase id := by
  simp only [take, bind_eq_ok, pure_eq_ok, texture_eq_ok, Prod.mk.injEq]
  constructor
  · rintro ⟨_, h, rfl, rfl⟩
    exact ⟨h, rfl⟩
  · rintro ⟨h, rfl⟩
    exact ⟨t, h, rfl, rfl⟩

lemma buffer_eq_ok {bytes : ByteArray} :
    r.buffer id = .ok bytes ↔ r.get? id = some (.buffer bytes) := by
  unfold buffer
  rcases r.get? id with _ | _ | _ <;> simp

/-! ### Well-formed tables -/

/-- Every id stands for one resource, and every texture has all its bytes. -/
structure WellFormed (r : ResourceTable) : Prop where
  ids : (r.entries.map Prod.fst).Nodup
  textures : ∀ id t, r.get? id = some (.texture t) → t.WellSized

lemma mem_entries_iff (h : (r.entries.map Prod.fst).Nodup) :
    (id, x) ∈ r.entries ↔ r.get? id = some x := by
  obtain ⟨entries⟩ := r
  simp only [get?]
  induction entries with
  | nil => simp
  | cons e entries ih =>
    obtain ⟨id', x'⟩ := e
    simp only [List.map_cons, List.nodup_cons] at h
    rw [List.mem_cons, List.lookup_cons, ih h.2]
    rcases eq_or_ne id id' with rfl | hne
    -- the id stands for the first entry under it, which no later one contradicts
    · have hnone : entries.lookup id = none := by
        rw [List.lookup_eq_none_iff]
        rintro ⟨k, y⟩ hmem
        rw [bne_iff_ne]
        rintro rfl
        exact h.1 (List.mem_map_of_mem hmem)
      simp [hnone, eq_comm]
    · simp [hne, beq_false_of_ne hne]

/-- What is put back in its own place changes nothing. -/
lemma put_self (h : (r.entries.map Prod.fst).Nodup) (hx : r.get? id = some x) : r.put id x = r := by
  have hentry : ∀ e ∈ r.entries, (if e.1 = id then (id, x) else e) = e := by
    rintro ⟨k, y⟩ hmem
    split_ifs with hk
    · cases hk
      rw [mem_entries_iff h, hx] at hmem
      rw [Option.some.inj hmem]
    · rfl
  rw [put, List.map_congr_left hentry, List.map_id']

/-- What was just added can be replaced. -/
lemma put_add (h : r.get? id = none) : (r.add id y).put id x = r.add id x := by
  have hentry : ∀ e ∈ r.entries, (if e.1 = id then (id, x) else e) = e := by
    intro e hmem
    rw [get?, List.lookup_eq_none_iff] at h
    have hne := h e hmem
    rw [bne_iff_ne] at hne
    exact if_neg hne.symm
  rw [put, add, add, List.map_append, List.map_congr_left hentry, List.map_id']
  simp

/-- Tables that hold the same under every id have the same entries. -/
theorem perm_of_get?_eq (h : r.WellFormed) (h' : r'.WellFormed)
    (heq : ∀ k, r'.get? k = r.get? k) : r'.entries.Perm r.entries := by
  rw [List.perm_ext_iff_of_nodup (.of_map _ h'.ids) (.of_map _ h.ids)]
  rintro ⟨id, x⟩
  rw [mem_entries_iff h'.ids, mem_entries_iff h.ids, heq]

namespace WellFormed

lemma empty : WellFormed .empty := ⟨List.nodup_nil, by simp⟩

lemma add (h : r.WellFormed) (hid : r.get? id = none)
    (hx : ∀ t, x = .texture t → t.WellSized) : (r.add id x).WellFormed where
  ids := by
    simp only [ResourceTable.add, List.map_append, List.map_singleton]
    refine List.nodup_append.2 ⟨h.ids, List.nodup_singleton id, ?_⟩
    rintro k hk _ hid' rfl
    rw [List.mem_singleton] at hid'
    subst hid'
    obtain ⟨⟨k, y⟩, hmem, rfl⟩ := List.mem_map.1 hk
    rw [mem_entries_iff h.ids, hid] at hmem
    cases hmem
  textures k t hk := by
    rw [get?_add hid] at hk
    split_ifs at hk
    · exact hx t (Option.some.inj hk)
    · exact h.textures k t hk

lemma erase (h : r.WellFormed) : (r.erase id).WellFormed where
  ids := h.ids.sublist (List.filter_sublist.map _)
  textures k t hk := by
    rw [get?_erase] at hk
    split_ifs at hk
    exact h.textures k t hk

lemma put (h : r.WellFormed) (hx : ∀ t, x = .texture t → t.WellSized) :
    (r.put id x).WellFormed where
  ids := by
    have hids : (r.put id x).entries.map Prod.fst = r.entries.map Prod.fst := by
      simp only [ResourceTable.put, List.map_map]
      refine List.map_congr_left fun e _ => ?_
      simp only [Function.comp_apply]
      split_ifs with he
      · exact he.symm
      · rfl
    rw [hids]
    exact h.ids
  textures k t hk := by
    rw [get?_put] at hk
    split_ifs at hk
    · obtain ⟨-, -, hk⟩ := Option.map_eq_some_iff.1 hk
      exact hx t hk
    · exact h.textures k t hk

lemma restore (h : r.WellFormed) (ht : t.WellSized) : (r.restore id t).WellFormed :=
  h.erase.add (by rw [get?_erase, if_pos rfl]) fun _ h => Resource.texture.inj h ▸ ht

lemma texture (h : r.WellFormed) (ht : r.texture id = .ok t) : t.WellSized :=
  h.textures id t (texture_eq_ok.1 ht)

end WellFormed

/-! ### Changes -/

lemma free_of_none (h : r.get? id = none) : r.free id = .ok r := by
  simp [free, contains, h]

lemma free_of_some (h : r.get? id = some x) : r.free id = .error (.resourceExists id) := by
  simp [free, contains, h]

lemma free_eq_ok : r.free id = .ok r' ↔ r.get? id = none ∧ r' = r := by
  unfold free contains
  rcases r.get? id with _ | _ <;> simp [eq_comm]

/-- Creating and freeing keep a table well formed. -/
lemma WellFormed.createTexture [Allocator] (h : r.WellFormed) {width height : UInt32}
    (hr : r.createTexture id width height = .ok r') : r'.WellFormed := by
  simp only [ResourceTable.createTexture, bind_eq_ok, pure_eq_ok, free_eq_ok] at hr
  obtain ⟨_, ⟨hid, rfl⟩, t, ht, rfl⟩ := hr
  exact h.add hid fun _ h => Resource.texture.inj h ▸ Texture.wellSized_of_new ht

lemma WellFormed.createBuffer [Allocator] (h : r.WellFormed) {size : UInt64}
    (hr : r.createBuffer id size = .ok r') : r'.WellFormed := by
  simp only [ResourceTable.createBuffer, bind_eq_ok, pure_eq_ok, free_eq_ok] at hr
  obtain ⟨_, ⟨hid, rfl⟩, _, _, rfl⟩ := hr
  exact h.add hid (by simp)

lemma WellFormed.createBufferFrom [Allocator] (h : r.WellFormed) {bytes : ByteArray}
    (hr : r.createBufferFrom id bytes = .ok r') : r'.WellFormed := by
  simp only [ResourceTable.createBufferFrom, bind_eq_ok, pure_eq_ok, free_eq_ok] at hr
  obtain ⟨_, ⟨hid, rfl⟩, _, _, rfl⟩ := hr
  exact h.add hid (by simp)

lemma WellFormed.freeTexture (h : r.WellFormed) (hr : r.freeTexture id = .ok r') :
    r'.WellFormed := by
  simp only [ResourceTable.freeTexture, bind_eq_ok, pure_eq_ok] at hr
  obtain ⟨_, _, rfl⟩ := hr
  exact h.erase

lemma WellFormed.freeBuffer (h : r.WellFormed) (hr : r.freeBuffer id = .ok r') :
    r'.WellFormed := by
  simp only [ResourceTable.freeBuffer, bind_eq_ok, pure_eq_ok] at hr
  obtain ⟨_, _, rfl⟩ := hr
  exact h.erase

/-- Changed contents keep their size, and so the table well formed. -/
lemma WellFormed.clearColor (h : r.WellFormed) {c : Color} {rect : Rect}
    (hr : r.clearColor id c rect = .ok r') : r'.WellFormed := by
  simp only [ResourceTable.clearColor, bind_eq_ok, pure_eq_ok, orRefuse_eq_ok] at hr
  obtain ⟨t, ht, _, hfill, rfl⟩ := hr
  exact h.put fun _ heq => Resource.texture.inj heq ▸ (h.texture ht).fill hfill

lemma WellFormed.clearDepth (h : r.WellFormed) {d : UInt32} {rect : Rect}
    (hr : r.clearDepth id d rect = .ok r') : r'.WellFormed := by
  simp only [ResourceTable.clearDepth, bind_eq_ok, pure_eq_ok, orRefuse_eq_ok] at hr
  obtain ⟨t, ht, _, hfill, rfl⟩ := hr
  exact h.put fun _ heq => Resource.texture.inj heq ▸ (h.texture ht).fill hfill

lemma WellFormed.writeBuffer (h : r.WellFormed) {offset : Nat} {bytes : ByteArray}
    (hr : r.writeBuffer id offset bytes = .ok r') : r'.WellFormed := by
  simp only [ResourceTable.writeBuffer, bind_eq_ok, pure_eq_ok] at hr
  obtain ⟨_, _, _, _, rfl⟩ := hr
  exact h.put (by simp)

lemma WellFormed.writeTexture (h : r.WellFormed) {offset : Nat} {bytes : ByteArray}
    (hr : r.writeTexture id offset bytes = .ok r') : r'.WellFormed := by
  simp only [ResourceTable.writeTexture, bind_eq_ok, pure_eq_ok, orRefuse_eq_ok,
    orAbort_eq_ok] at hr
  obtain ⟨t, ht, data, hdata, rfl⟩ := hr
  have hsize := Storage.size_overwrite? hdata
  obtain ⟨hwidth, hheight, ht⟩ := h.texture ht
  exact h.put fun _ heq => Resource.texture.inj heq ▸ ⟨hwidth, hheight, hsize.trans ht⟩

end ResourceTable

end GraphicsPipeline
