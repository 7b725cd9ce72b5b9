import GraphicsPipeline.Proofs.Shader.Running
import GraphicsPipeline.Proofs.Stepwise
import GraphicsPipeline.Vertex.Worker

/-!
# Workers and new machines

A worker shades every vertex as a new machine does: its room for inputs is emptied, and no run of a
program sees what an earlier one left (`Worker.shadeVertices_eq`).
-/

namespace GraphicsPipeline

namespace Layout

/-- Values that are appended one by one are those that are fetched, if all of them are. -/
lemma each_append_eq (buffer : ByteArray) (vertex : UInt64) (place : Nat)
    (attributes : List Attribute) (values : Array Value) : ∃ left,
    Step.each (append buffer vertex) (attributes.zipIdx place) values =
        (left, (orRefuse (fetchFrom buffer vertex place attributes values)).map fun _ => ()) ∧
      ∀ fetched, fetchFrom buffer vertex place attributes values = .ok fetched →
        left = fetched := by
  -- after a failure the scratch holds what was read until then; nothing is said of it
  fun_induction fetchFrom buffer vertex place attributes values with
  | case1 place values => exact ⟨values, rfl, fun fetched h => Except.ok.inj h⟩
  | case2 place a attributes values hnumbers =>
    refine ⟨values, ?_, by simp⟩
    simp only [List.zipIdx_cons, Step.each, Step.andThen, append, hnumbers]
    rfl
  | case3 place a attributes values numbers hnumbers hvalue =>
    refine ⟨values, ?_, by simp⟩
    simp only [List.zipIdx_cons, Step.each, Step.andThen, append, hnumbers, hvalue]
    rfl
  | case4 place a attributes values numbers hnumbers value hvalue ih =>
    obtain ⟨left, heach, hleft⟩ := ih
    refine ⟨left, ?_, hleft⟩
    have hfirst : append buffer vertex (a, place) values = (values.push value, .ok ()) := by
      simp only [append, hnumbers, hvalue]
    rw [List.zipIdx_cons, Step.each, Step.andThen_of_ok hfirst, heach]

end Layout

namespace Worker

variable {p : Program} {layout : Layout} {buffer : ByteArray} {b : Bindings} {vertex : UInt64}
  {done : Array (ShadedVertex Binary32)} {n : Nat}

/-- A worker shades a vertex as a new machine does, whatever it has shaded before. -/
lemma shade_snd_eq (p : Program) (layout : Layout) (buffer : ByteArray) (b : Bindings)
    (vertex : UInt64) (w : Worker) (m : Machine) :
    (w.shade p layout buffer b vertex).2 = (shadeVertex p layout buffer b vertex m).2 := by
  obtain ⟨left, heach, hleft⟩ := Layout.each_append_eq buffer vertex 0 layout.attributes #[]
  have hempty : w.inputs.shrink 0 = #[] := by simp
  have hinto : layout.fetchInto buffer vertex (w.inputs.shrink 0) =
      (left, (orRefuse (layout.fetch buffer vertex)).map fun _ => ()) := by
    rw [hempty]
    exact heach
  unfold shade shadeVertex
  cases hfetch : layout.fetch buffer vertex with
  | error e =>
    rw [hinto, hfetch]
    rfl
  | ok inputs =>
    obtain rfl : left = inputs := hleft inputs hfetch
    -- the scratch was emptied, and a run clears its machine: nothing of the worker is seen
    have hrun : (w.machine.run p left b).2 = (m.run p left b).2 := Machine.run_snd_eq
    rw [hinto, hfetch]
    simp only [orRefuse_ok, Except.map]
    rcases hw : w.machine.run p left b with ⟨m₁, r₁⟩
    rcases hm : m.run p left b with ⟨m₂, r₂⟩
    rw [hw, hm] at hrun
    obtain rfl : r₁ = r₂ := hrun
    cases r₁ <;> rfl

lemma shadeFrom_eq (w : Worker) (m : Machine) :
    w.shadeFrom p layout buffer b vertex done n =
      GraphicsPipeline.shadeFrom p layout buffer b vertex m done n := by
  induction n generalizing vertex w m done with
  | zero => rfl
  | succ n ih =>
    unfold shadeFrom GraphicsPipeline.shadeFrom
    have hfirst := shade_snd_eq p layout buffer b vertex w m
    rcases hw : w.shade p layout buffer b vertex with ⟨w', r₁⟩
    rcases hm : shadeVertex p layout buffer b vertex m with ⟨m', r₂⟩
    rw [hw, hm] at hfirst
    obtain rfl : r₁ = r₂ := hfirst
    cases r₁ with
    | error fault => rfl
    | ok v => exact ih w' m'

/-- Storage that is used again changes nothing. -/
theorem shadeVertices_eq (p : Program) (layout : Layout) (buffer : ByteArray) (b : Bindings)
    (count : UInt64) : Worker.shadeVertices p layout buffer b count =
      GraphicsPipeline.shadeVertices p layout buffer b count :=
  shadeFrom_eq {} .new

end Worker

end GraphicsPipeline
