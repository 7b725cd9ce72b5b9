import GraphicsPipeline.Shader.Draft
import GraphicsPipeline.Shader.Semantics

/-!
# Evaluation by register names

The meaning of a draft without compiling it: its instructions are evaluated in order over an
environment that gives a value to each register that was defined.
-/

namespace GraphicsPipeline

/-- The values of registers and of output slots while a draft is evaluated. -/
structure Environment where
  register : Reg → Option Value
  outputs : Array Value

namespace Environment

/-- Before the first instruction no register has a value and all outputs are zero. -/
def start (outputs : List Arity) : Environment :=
  ⟨fun _ => none, (outputs.map Value.zero).toArray⟩

/-- What an instruction finds in the environment. -/
def surroundings (e : Environment) (inputs : Array Value) (bindings : Bindings) : Surroundings where
  register r := orAbort (e.register r)
  input slot := orAbort inputs[slot.toNat]?
  output slot := orAbort e.outputs[slot.toNat]?
  bindings := bindings

def perform (e : Environment) : Effect → Environment
  | .define out value =>
    { e with register := fun r => if r = out then some value else e.register r }
  | .store slot value => { e with outputs := e.outputs.setIfInBounds slot.toNat value }

def evaluate (inputs : Array Value) (bindings : Bindings) :
    List Instr → Environment → Except Fault Environment
  | [], e => .ok e
  | i :: rest, e => do
    let effect ← (e.surroundings inputs bindings).effect i
    evaluate inputs bindings rest (e.perform effect)

end Environment

/-- The outputs of a draft on inputs. -/
def Draft.evaluate (d : Draft) (inputs : Array Value) (bindings : Bindings) :
    Except Fault (Array Value) := do
  orRefuse (checkInputs d.inputs inputs)
  let e ← (Environment.start d.outputs).evaluate inputs bindings d.instrs
  return e.outputs

end GraphicsPipeline
