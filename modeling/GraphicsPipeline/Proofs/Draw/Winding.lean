import GraphicsPipeline.Draw.Stages
import GraphicsPipeline.Proofs.Number.Reversal

/-!
# Winding

The corners of a triangle are brought into clockwise order when it is set up. In single precision
too, the area the other way round is the negated one, so that vertices in either order give the
same triangle, and draws that differ in nothing else paint the same.
-/

namespace GraphicsPipeline

open Coordinate (zero)

namespace Corners

variable {α β : Type}

@[simp] lemma flip_flip (q : Corners α) : q.flip.flip = q := rfl

@[simp] lemma map_flip (f : α → β) (q : Corners α) : q.flip.map f = (q.map f).flip := rfl

@[simp] lemma all_flip (p : α → Bool) (q : Corners α) : q.flip.all p = q.all p :=
  Bool.and_right_comm (p q.a) (p q.c) (p q.b)

end Corners

namespace Triangle

variable {width height : UInt32}

/-- The area of three corners, in the order in which they stand. -/
def signedArea (corners : Corners (Corner Binary32)) : Binary32 :=
  edge corners.a.point corners.b.point corners.c.point

variable {corners : Corners (Corner Binary32)}

/-- The area is a difference, taken the other way round if the corners are. -/
lemma exists_signedArea_eq_sub (corners : Corners (Corner Binary32)) :
    ∃ p q : Binary32, signedArea corners = p - q ∧ signedArea corners.flip = q - p :=
  ⟨_, _, rfl, congrArg₂ (· - ·) (Binary32.mul_comm _ _) (Binary32.mul_comm _ _)⟩

lemma signedArea_lt_zero_iff : signedArea corners < zero ↔ zero < signedArea corners.flip := by
  obtain ⟨p, q, harea, hflip⟩ := exists_signedArea_eq_sub corners
  rw [harea, hflip]
  exact Binary32.sub_lt_zero_iff

lemma neg_signedArea (h : signedArea corners < zero) :
    -signedArea corners = signedArea corners.flip := by
  obtain ⟨p, q, harea, hflip⟩ := exists_signedArea_eq_sub corners
  rw [harea] at h ⊢
  rw [hflip]
  exact (Binary32.sub_swap_of_lt h).symm

lemma ofCorners_of_not_pos {α : Type} [Coordinate α] {corners : Corners (Corner α)} {area : α}
    (h : ¬zero < area) : ofCorners corners area width height = none :=
  if_neg fun hpos => h hpos.1

/-- The triangle of three corners, brought into clockwise order. -/
def ofOriented (corners : Corners (Corner Binary32)) (width height : UInt32) :
    Option (Triangle Binary32) :=
  if signedArea corners < zero then ofCorners corners.flip (-signedArea corners) width height
  else ofCorners corners (signedArea corners) width height

/-- A triangle is that of its corners if all of its vertices are in front of the camera. -/
lemma ofVertices_eq (v : Corners (ShadedVertex Binary32)) :
    ofVertices v width height =
      if v.all (fun v => zero < v.clip.w) then
        ofOriented (v.map (Corner.ofVertex width height)) width height
      else none :=
  rfl

/-- Corners are set up in the order in which their area is positive. -/
lemma ofOriented_eq (corners : Corners (Corner Binary32)) :
    ofOriented corners width height =
      if zero < signedArea corners.flip then
        ofCorners corners.flip (signedArea corners.flip) width height
      else ofCorners corners (signedArea corners) width height := by
  rw [ofOriented]
  by_cases hneg : signedArea corners < zero
  · rw [if_pos hneg, if_pos (signedArea_lt_zero_iff.1 hneg), neg_signedArea hneg]
  · rw [if_neg hneg, if_neg (mt signedArea_lt_zero_iff.2 hneg)]

/-- At most one of the two orders has a positive area. -/
lemma not_pos_signedArea_flip (h : zero < signedArea corners) :
    ¬zero < signedArea corners.flip :=
  fun hpos => Binary32.not_lt_zero h (signedArea_lt_zero_iff.2 hpos)

lemma ofOriented_flip (corners : Corners (Corner Binary32)) :
    ofOriented corners.flip width height = ofOriented corners width height := by
  rw [ofOriented_eq, ofOriented_eq, Corners.flip_flip]
  -- of the two orders at most one has a positive area; where neither has, no triangle is set up
  by_cases harea : zero < signedArea corners
  · rw [if_pos harea, if_neg (not_pos_signedArea_flip harea)]
  · by_cases hflip : zero < signedArea corners.flip
    · rw [if_neg harea, if_pos hflip]
    · rw [if_neg harea, if_neg hflip, ofCorners_of_not_pos harea, ofCorners_of_not_pos hflip]

/-- The triangle of three vertices is that of the vertices the other way round. -/
lemma ofVertices_flip (v : Corners (ShadedVertex Binary32)) :
    ofVertices v.flip width height = ofVertices v width height := by
  rw [ofVertices_eq, ofVertices_eq, Corners.all_flip, Corners.map_flip, ofOriented_flip]

end Triangle

/-! ### Draws -/

/-- The vertices with the last two of each chosen triangle exchanged. -/
def exchanged {β : Type} (chosen : Nat → Bool) : List β → List β
  | a :: b :: c :: rest =>
    (if chosen 0 then [a, c, b] else [a, b, c]) ++ exchanged (fun k => chosen (k + 1)) rest
  | rest => rest

/-- What does not look at the order of the last two vertices of a triangle does not look at whether
they were exchanged. -/
lemma map_triples_exchanged {β γ : Type} {f : Corners β → γ} (hf : ∀ t : Corners β, f t.flip = f t)
    (chosen : Nat → Bool) (bs : List β) :
    (triples (exchanged chosen bs)).map f = (triples bs).map f := by
  induction bs using triples.induct generalizing chosen with
  | case1 a b c rest ih =>
    rw [exchanged, triples]
    split
    · exact congrArg₂ List.cons (hf ⟨a, b, c⟩) (ih _)
    · exact congrArg (List.cons _) (ih _)
  | case2 bs hne =>
    rw [exchanged]
    exact hne

/-- Winding does not matter. The same triangle is set up from three vertices with the last two
exchanged, or none as before. If the last two vertices of any of the triangles of a draw are
exchanged, as many triangles are left out, and every target is painted as before. -/
theorem assemble_exchanged :
    (∀ (v : Corners (ShadedVertex Binary32)) (width height : UInt32),
      Triangle.ofVertices v.flip width height = Triangle.ofVertices v width height) ∧
      ∀ (vertices : List (ShadedVertex Binary32)) (chosen : Nat → Bool) (width height : UInt32),
        (assemble (exchanged chosen vertices) width height).2 =
          (assemble vertices width height).2 ∧
        ∀ stage bandRows target,
          Target.paint stage (assemble (exchanged chosen vertices) width height).1 bandRows target =
            Target.paint stage (assemble vertices width height).1 bandRows target := by
  refine ⟨fun v width height => Triangle.ofVertices_flip v, ?_⟩
  intro vertices chosen width height
  have hassemble : assemble (exchanged chosen vertices) width height =
      assemble vertices width height := by
    simp only [assemble, map_triples_exchanged (f := fun v => Triangle.ofVertices v width height)
      Triangle.ofVertices_flip]
  rw [hassemble]
  exact ⟨rfl, fun stage bandRows target => rfl⟩

end GraphicsPipeline
