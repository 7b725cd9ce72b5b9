import GraphicsPipeline.Proofs.Outcome
import GraphicsPipeline.Shader.Value

/-!
# Values with their arities

A value of single precision numbers is its arity and its numbers, as many as the arity takes.
-/

namespace GraphicsPipeline

lemma Arity.isFloat_of_isVector {a : Arity} (h : a.isVector) : a.isFloat := by
  cases a <;> first | rfl | cases h

lemma Arity.isFloat_iff_ne_int {a : Arity} : a.isFloat ↔ a ≠ .int := by
  cases a <;> decide

namespace Value

variable {u v : Value} {a : Arity} {numbers : List Binary32} {f : Binary32 → Binary32 → Binary32}

/-! ### Numbers -/

lemma length_components (h : v.arity.isFloat) : v.components.length = v.arity.width := by
  cases v <;> first | rfl | cases h

lemma arity_of_ofComponents? (h : ofComponents? a numbers = some v) : v.arity = a := by
  unfold ofComponents? at h
  split at h <;> cases h <;> rfl

/-- As many numbers as an arity takes make a value of it. -/
lemma exists_ofComponents? (hf : a.isFloat) (h : numbers.length = a.width) :
    ∃ v, ofComponents? a numbers = some v ∧ v.arity = a ∧ v.components = numbers := by
  cases a with
  | scalar =>
    obtain ⟨x, rfl⟩ := List.length_eq_one_iff.1 h
    exact ⟨_, rfl, rfl, rfl⟩
  | vec2 =>
    obtain ⟨x, y, rfl⟩ := List.length_eq_two.1 h
    exact ⟨_, rfl, rfl, rfl⟩
  | vec3 =>
    obtain ⟨x, y, z, rfl⟩ := List.length_eq_three.1 h
    exact ⟨_, rfl, rfl, rfl⟩
  | vec4 =>
    obtain ⟨x, y, z, w, rfl⟩ := List.length_eq_four.1 h
    exact ⟨_, rfl, rfl, rfl⟩
  | int => simp [Arity.isFloat] at hf

lemma ofComponents?_components (h : v.arity.isFloat) :
    ofComponents? v.arity v.components = some v := by
  cases v <;> first | rfl | cases h

/-- Values of one arity are told apart by their numbers. -/
lemma eq_of_components_eq (hf : v.arity.isFloat) (harity : u.arity = v.arity)
    (h : u.components = v.components) : u = v := by
  have hu := ofComponents?_components (harity ▸ hf)
  rw [harity, h, ofComponents?_components hf, Option.some_inj] at hu
  exact hu.symm

/-! ### Operations -/

lemma exists_channel {c : Channel} (h : v.arity.isVector) (hc : c.index < v.arity.width) :
    ∃ x, v.channel c = .ok x := by
  have hlt : c.index < v.components.length := by
    rwa [length_components (Arity.isFloat_of_isVector h)]
  exact ⟨v.components[c.index], by simp [channel, h, hlt]⟩

lemma exists_zipWith (h : u.arity = v.arity) (hf : v.arity.isFloat) :
    ∃ w, u.zipWith f v = .ok w ∧ w.arity = v.arity := by
  cases u <;> cases v <;> simp_all [arity, zipWith, Arity.isFloat]

end Value

end GraphicsPipeline
