import Mathlib
import GraphicsPipeline.Error
import GraphicsPipeline.Word.Basic

/-!
# Outcomes

How a sequence of operations that may fail comes to its end: it succeeds if every operation does,
and of several failures the first counts.
-/

namespace GraphicsPipeline

variable {ε α β : Type}

/-! ### Sequences -/

@[simp] lemma pure_eq_ok {a b : α} : (pure a : Except ε α) = .ok b ↔ a = b := by
  simp [pure, Except.pure]

@[simp] lemma pure_ne_error {a : α} {e : ε} : (pure a : Except ε α) ≠ .error e := by
  simp [pure, Except.pure]

@[simp] lemma throw_ne_ok {e : ε} {b : α} : (throw e : Except ε α) ≠ .ok b := by
  simp [throw, throwThe, MonadExceptOf.throw]

@[simp] lemma throw_eq_error {e e' : ε} : (throw e : Except ε α) = .error e' ↔ e = e' := by
  simp [throw, throwThe, MonadExceptOf.throw]

@[simp] lemma ok_bind {a : α} {f : α → Except ε β} : (Except.ok a >>= f) = f a := rfl

@[simp] lemma error_bind {e : ε} {f : α → Except ε β} : (Except.error e >>= f) = .error e := rfl

@[simp] lemma throw_bind {e : ε} {f : α → Except ε β} : (throw e >>= f) = .error e := rfl

/-- What stands behind a guard counts where the guard lets it. -/
@[simp] lemma ite_error_eq_ok {c : Prop} [Decidable c] {x : Except ε α} {e : ε} {a : α} :
    (if c then .error e else x) = .ok a ↔ ¬c ∧ x = .ok a := by
  split <;> simp [*]

lemma ite_ok_eq_ok {c : Prop} [Decidable c] {a b : α} {e : ε} :
    (if c then .ok a else .error e : Except ε α) = .ok b ↔ c ∧ a = b := by
  split <;> simp [*]

@[simp] lemma bind_eq_ok {x : Except ε α} {f : α → Except ε β} {b : β} :
    (x >>= f) = .ok b ↔ ∃ a, x = .ok a ∧ f a = .ok b := by
  cases x <;> simp

@[simp] lemma bind_eq_error {x : Except ε α} {f : α → Except ε β} {e : ε} :
    (x >>= f) = .error e ↔ x = .error e ∨ ∃ a, x = .ok a ∧ f a = .error e := by
  cases x <;> simp

@[simp] lemma map_eq_ok {f : α → β} {x : Except ε α} {b : β} :
    (f <$> x) = .ok b ↔ ∃ a, x = .ok a ∧ f a = b := by
  cases x <;> simp [Functor.map, Except.map]

@[simp] lemma map_eq_error {f : α → β} {x : Except ε α} {e : ε} :
    (f <$> x) = .error e ↔ x = .error e := by
  cases x <;> simp [Functor.map, Except.map]

/-- A function succeeds on a list, member by member. -/
lemma mapM_eq_ok {f : α → Except ε β} {as : List α} {bs : List β} :
    as.mapM f = .ok bs ↔ List.Forall₂ (fun a b => f a = .ok b) as bs := by
  induction as generalizing bs with
  | nil => rw [List.mapM_nil, pure_eq_ok, List.forall₂_nil_left_iff, eq_comm]
  | cons a as ih =>
    simp only [List.mapM_cons, bind_eq_ok, pure_eq_ok, ih, List.forall₂_cons_left_iff]
    constructor
    · rintro ⟨b, hb, bs', hbs, rfl⟩
      exact ⟨b, bs', hb, hbs, rfl⟩
    · rintro ⟨b, bs', hb, hbs, rfl⟩
      exact ⟨b, hb, bs', hbs, rfl⟩

/-- A function that succeeds under a condition succeeds on a list where all members meet it. -/
lemma mapM_eq_ok_iff {f : α → Except ε β} {g : α → β} {P : α → Prop} {as : List α} {bs : List β}
    (h : ∀ a ∈ as, ∀ b, f a = .ok b ↔ P a ∧ g a = b) :
    as.mapM f = .ok bs ↔ (∀ a ∈ as, P a) ∧ as.map g = bs := by
  induction as generalizing bs with
  | nil => simp [List.mapM_nil]
  | cons a as ih =>
    have ha := h a (by simp)
    have has : ∀ {bs : List β}, as.mapM f = .ok bs ↔ (∀ c ∈ as, P c) ∧ as.map g = bs :=
      ih fun c hc => h c (List.mem_cons_of_mem a hc)
    simp only [List.mapM_cons, bind_eq_ok, pure_eq_ok, ha, has, List.forall_mem_cons, List.map_cons]
    constructor
    · rintro ⟨_, ⟨hP, rfl⟩, _, ⟨hPs, rfl⟩, rfl⟩
      exact ⟨⟨hP, hPs⟩, rfl⟩
    · rintro ⟨⟨hP, hPs⟩, rfl⟩
      exact ⟨_, ⟨hP, rfl⟩, _, ⟨hPs, rfl⟩, rfl⟩

/-- A function succeeds on a list if it succeeds on each member. -/
lemma exists_mapM_eq_ok {f : α → Except ε β} {as : List α} (h : ∀ a ∈ as, ∃ b, f a = .ok b) :
    ∃ bs, as.mapM f = .ok bs ∧ bs.length = as.length := by
  induction as with
  | nil => exact ⟨[], rfl, rfl⟩
  | cons a as ih =>
    obtain ⟨b, hb⟩ := h a (by simp)
    obtain ⟨bs, hbs, hlength⟩ := ih fun c hc => h c (List.mem_cons_of_mem a hc)
    exact ⟨b :: bs, by simp [hb, hbs], by simp [hlength]⟩

/-- Of several failures on a list the first counts. -/
lemma mapM_eq_error {f : α → Except ε β} {as : List α} {a : α} {e : ε} {k : Nat}
    (ha : as[k]? = some a) (he : f a = .error e)
    (hbefore : ∀ j < k, ∀ b, as[j]? = some b → ∃ c, f b = .ok c) : as.mapM f = .error e := by
  induction as generalizing k with
  | nil => simp at ha
  | cons b as ih =>
    rw [List.mapM_cons]
    cases k with
    | zero =>
      obtain rfl : b = a := by simpa using ha
      rw [he, error_bind]
    | succ k =>
      obtain ⟨c, hc⟩ := hbefore 0 (Nat.succ_pos k) b rfl
      have hrest := ih ha fun j hj d hd => hbefore (j + 1) (Nat.succ_lt_succ hj) d hd
      rw [hc, ok_bind, hrest, error_bind]

/-- A failure on a list is one on a member. -/
lemma mapM_ne_error {f : α → Except ε β} {as : List α} {e : ε} (h : ∀ a ∈ as, f a ≠ .error e) :
    as.mapM f ≠ .error e := by
  induction as with
  | nil => simp [List.mapM_nil]
  | cons a as ih =>
    rw [List.forall_mem_cons] at h
    simp [List.mapM_cons, h.1, ih h.2]

/-! ### Refusals and accesses -/

@[simp] lemma orRefuse_eq_ok {x : Except Error α} {a : α} : orRefuse x = .ok a ↔ x = .ok a := by
  cases x <;> simp [orRefuse]

@[simp] lemma orRefuse_ok {a : α} : orRefuse (.ok a) = .ok a := rfl

@[simp] lemma orRefuse_error {e : Error} :
    orRefuse (.error e : Except Error α) = .error (.refused e) := rfl

lemma orRefuse_pure {a : α} : orRefuse (pure a) = pure a := rfl

lemma orRefuse_bind {x : Except Error α} {f : α → Except Error β} :
    orRefuse (x >>= f) = orRefuse x >>= fun a => orRefuse (f a) := by
  cases x <;> rfl

@[simp] lemma orAbort_eq_ok {x : Option α} {a : α} : orAbort x = .ok a ↔ x = some a := by
  cases x <;> simp [orAbort]

@[simp] lemma orAbort_some {a : α} : orAbort (some a) = .ok a := rfl

@[simp] lemma orAbort_none : orAbort (none : Option α) = .error .aborted := rfl

/-! ### Results without their errors -/

lemma toOption_eq_some {x : Except ε α} {a : α} : x.toOption = some a ↔ x = .ok a := by
  cases x <;> simp [Except.toOption]

@[simp] lemma toOption_ok {a : α} : (.ok a : Except ε α).toOption = some a := rfl

@[simp] lemma toOption_error {e : ε} : (.error e : Except ε α).toOption = none := rfl

@[simp] lemma toOption_pure {a : α} : (pure a : Except ε α).toOption = some a := rfl

@[simp] lemma toOption_throw {e : ε} : (throw e : Except ε α).toOption = none := rfl

lemma toOption_bind {x : Except ε α} {f : α → Except ε β} :
    (x >>= f).toOption = x.toOption.bind fun a => (f a).toOption := by
  cases x <;> rfl

/-! ### Quadruples -/

namespace Vec4

@[simp] lemma mem_toList {v : Vec4 α} {a : α} :
    a ∈ v.toList ↔ a = v.x ∨ a = v.y ∨ a = v.z ∨ a = v.w := by
  simp [toList]

lemma toList_injective : Function.Injective (toList (α := α)) := by
  rintro ⟨x, y, z, w⟩ ⟨x', y', z', w'⟩ h
  simpa [toList] using h

/-- A function succeeds on a quadruple if it succeeds on each channel. -/
lemma mapM_eq_ok {f : α → Except ε β} {v : Vec4 α} {u : Vec4 β} :
    v.mapM f = .ok u ↔
      f v.x = .ok u.x ∧ f v.y = .ok u.y ∧ f v.z = .ok u.z ∧ f v.w = .ok u.w := by
  obtain ⟨x, y, z, w⟩ := u
  simp only [mapM, bind_eq_ok, pure_eq_ok, mk.injEq]
  constructor
  · rintro ⟨x', hx, y', hy, z', hz, w', hw, rfl, rfl, rfl, rfl⟩
    exact ⟨hx, hy, hz, hw⟩
  · rintro ⟨hx, hy, hz, hw⟩
    exact ⟨x, hx, y, hy, z, hz, w, hw, rfl, rfl, rfl, rfl⟩

/-- Only the values at the channels matter. -/
lemma mapM_congr {f g : α → Except ε β} {v : Vec4 α} (h : ∀ a ∈ v.toList, f a = g a) :
    v.mapM f = v.mapM g := by
  simp only [mapM, h v.x (by simp), h v.y (by simp), h v.z (by simp), h v.w (by simp)]

end Vec4

end GraphicsPipeline
