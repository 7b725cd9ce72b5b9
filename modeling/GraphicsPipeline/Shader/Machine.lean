import GraphicsPipeline.Shader.Program
import GraphicsPipeline.Shader.Semantics
import GraphicsPipeline.Stepwise

/-!
# The machine

Runs programs over an array of registers. The storage of a machine outlives a run and is used again
by the next one, which begins by clearing it: whatever a run leaves there, the next job in order
starts with it.
-/

namespace GraphicsPipeline

/-- The storage of a machine. -/
structure Machine where
  regs : Array Value := #[]
  outputs : Array Value := #[]
deriving DecidableEq, Inhabited

namespace Machine

/-- A machine that has run nothing yet. -/
def new : Machine := {}

/-- An array emptied and filled with other values. -/
def refill (storage : Array Value) (values : List Value) : Array Value :=
  values.foldl Array.push (storage.shrink 0)

/-- The storage at the start of a run: registers hold the word zero, outputs are zero. -/
def clear (m : Machine) (p : Program) : Machine :=
  ⟨refill m.regs (List.replicate p.regCount.toNat (.int 0)),
    refill m.outputs (p.outputs.map Value.zero)⟩

/-- What an instruction finds in the machine. -/
def surroundings (m : Machine) (inputs : Array Value) (bindings : Bindings) : Surroundings where
  register r := orAbort m.regs[r.toNat]?
  input slot := orAbort inputs[slot.toNat]?
  output slot := orAbort m.outputs[slot.toNat]?
  bindings := bindings

/-- Keeps an effect, which must stay within the storage. -/
def perform : Effect → Step Machine
  | .define out value => fun m =>
    if out.toNat < m.regs.size then
      ({ m with regs := m.regs.setIfInBounds out.toNat value }, .ok ())
    else (m, .error .aborted)
  | .store slot value => fun m =>
    if slot.toNat < m.outputs.size then
      ({ m with outputs := m.outputs.setIfInBounds slot.toNat value }, .ok ())
    else (m, .error .aborted)

/-- Executes one instruction. -/
def execute (inputs : Array Value) (bindings : Bindings) (i : Instr) : Step Machine := fun m =>
  match (m.surroundings inputs bindings).effect i with
  | .error fault => (m, .error fault)
  | .ok effect => perform effect m

/-- Runs a program on inputs. The result is the final value of every output slot; also after a
failure the machine can be used again. -/
def run (m : Machine) (p : Program) (inputs : Array Value) (bindings : Bindings) :
    Machine × Except Fault (Array Value) :=
  match checkInputs p.inputs inputs with
  | .error e => (m, .error (.refused e))
  | .ok () =>
    match Step.each (execute inputs bindings) p.instrs (m.clear p) with
    | (m, .ok ()) => (m, .ok m.outputs)
    | (m, .error fault) => (m, .error fault)

end Machine

/-! ### Jobs in order -/

/-- A program that is to run, with all that it can read. -/
structure Job where
  program : Program
  inputs : Array Value
  bindings : Bindings

namespace Job

/-- The inputs are those that the program declares. -/
def accepted (j : Job) : Bool := (checkInputs j.program.inputs j.inputs).toBool

end Job

namespace Machine

/-- The machine that a job leaves, and what the job gives. -/
def work (m : Machine) (j : Job) : Machine × Except Fault (Array Value) :=
  m.run j.program j.inputs j.bindings

/-- The machine after jobs in order. A failed job hands on what it has written. -/
def after (m : Machine) : List Job → Machine
  | [] => m
  | j :: rest => (m.work j).1.after rest

/-- What jobs in order give. -/
def results (m : Machine) : List Job → List (Except Fault (Array Value))
  | [] => []
  | j :: rest => (m.work j).2 :: (m.work j).1.results rest

end Machine

end GraphicsPipeline
