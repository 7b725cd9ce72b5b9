import Mathlib.Data.List.SplitLengths
import GraphicsPipeline.Draw.Stages
import GraphicsPipeline.Raster.Fragment

/-!
# Interpolated values

What linked programs hand to each other, value by value: the fragment program is run on the weighted
sums of what the vertex program gives for three vertices. How values are strung together and cut
apart on the way does not come in.
-/

namespace GraphicsPipeline

/-- The sum of three lists of numbers, each times the weight of its corner, place by place. -/
def Corners.weightedSum (weights : Corners Binary32) (numbers : Corners (List Binary32)) :
    List Binary32 :=
  List.zipWith (· + ·)
    (List.zipWith (· + ·) (numbers.a.map (weights.a * ·)) (numbers.b.map (weights.b * ·)))
    (numbers.c.map (weights.c * ·))

/-- A point is shaded by a run of the program on the given inputs. The texel is the colour of the
first output that the run has on a new machine, an error is the error that it has there, and the
machine is left as the run leaves it. -/
structure FragmentStage.RunsOn (s : FragmentStage) (t : Triangle Binary32)
    (weights : Corners Binary32) (inputs : Array Value) : Prop where
  texel : ∀ m texel, (s.shade t weights m).2 = .ok texel ↔
    ∃ outputs v, (Machine.new.run s.program inputs s.bindings).2 = .ok outputs ∧
      outputs[0]? = some v ∧ (colorOf v).pack = texel
  fault : ∀ m fault, (s.shade t weights m).2 = .error fault ↔
    (Machine.new.run s.program inputs s.bindings).2 = .error fault
  machine : ∀ m, (s.shade t weights m).1 = (m.run s.program inputs s.bindings).1

/-- The output at a place among those other than the position. -/
def Program.varying? (p : Program) (outputs : Array Value) (place : Nat) : Option Value := do
  let (slot, _) ← p.varyings[place]?
  outputs[slot]?

namespace Pipeline

/-- What the vertex program gives for a vertex of a buffer. -/
def vertexOutputs (p : Pipeline) (buffer : ByteArray) (bindings : Bindings) (vertex : Nat) :
    Except Fault (Array Value) := do
  let inputs ← orRefuse (p.layout.fetch buffer (UInt64.ofNat vertex))
  (Machine.new.run p.vertex inputs bindings).2

/-- The output of the vertex program for a vertex, at a place among those other than the
position. -/
def varying? (p : Pipeline) (buffer : ByteArray) (bindings : Bindings) (vertex place : Nat) :
    Option Value :=
  match p.vertexOutputs buffer bindings vertex with
  | .ok outputs => p.vertex.varying? outputs place
  | .error _ => none

/-- The numbers of a vertex, one list for each input of the fragment program. -/
def cut (p : Pipeline) (v : ShadedVertex Binary32) : List (List Binary32) :=
  (p.fragment.inputs.map Arity.width).splitLengths v.varyings.toList

variable (p : Pipeline) (buffer : ByteArray) (bindings : Bindings) (width : Nat)

/-- A vertex has at least so many numbers. They fall into the outputs that the vertex program has
for the vertex at the place, as they fall into the inputs of the fragment program. -/
structure Carries (vertex : Nat) (v : ShadedVertex Binary32) : Prop where
  width : width ≤ v.varyings.size
  piece : ∀ (k : Nat) a, p.fragment.inputs[k]? = some a →
    ∃ x, p.varying? buffer bindings vertex k = some x ∧ x.arity = a ∧
      (p.cut v)[k]? = some x.components

/-- For given weights, the fragment program is run on the weighted sums of the outputs that the
vertex program has for three vertices. It fails on them for nothing but what the bindings lack. -/
structure Interpolates (vertices : Corners Nat) (t : Triangle Binary32)
    (weights : Corners Binary32) : Prop where
  inputs : ∃ inputs, FragmentStage.inputs ⟨p.fragment, bindings, width⟩ t weights = .ok inputs ∧
    inputs.toList.map Value.arity = p.fragment.inputs ∧
      (∀ k < p.fragment.inputs.length, ∃ x : Corners Value,
        (vertices.map fun vertex => p.varying? buffer bindings vertex k) = x.map some ∧
          (inputs.toList.map Value.components)[k]? =
            some (weights.weightedSum (x.map Value.components))) ∧
      FragmentStage.RunsOn ⟨p.fragment, bindings, width⟩ t weights inputs
  fault : ∀ m fault,
    (FragmentStage.shade ⟨p.fragment, bindings, width⟩ t weights m).2 = .error fault →
      fault = .refused .missingUniformBuffer ∨ fault = .refused .missingSampler ∨
        ∃ group index, fault = .refused (.uniformOutOfBounds group index)

end Pipeline

end GraphicsPipeline
