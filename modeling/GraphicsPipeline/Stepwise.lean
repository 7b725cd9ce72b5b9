import GraphicsPipeline.Error

/-!
# Steps

Work that is done step by step on a state and may fail. Unlike an operation that gives a new state
or none, a step that fails hands back what was done so far.
-/

namespace GraphicsPipeline

/-- A change of a state that may fail half way. -/
abbrev Step (σ : Type) := σ → σ × Except Fault Unit

namespace Step

variable {σ τ α ι : Type}

def skip : Step σ := fun s => (s, .ok ())

/-- A change that cannot fail. -/
def modify (f : σ → σ) : Step σ := fun s => (f s, .ok ())

/-- The step that does nothing but fail. -/
def fail (fault : Fault) : Step σ := fun s => (s, .error fault)

/-- One step after another, if the first does not fail. -/
def andThen (f g : Step σ) : Step σ := fun s =>
  match f s with
  | (s, .ok ()) => g s
  | (s, .error fault) => (s, .error fault)

/-- Goes on with what is looked up in the state, if it is there. -/
def looking (look : σ → Except Fault α) (next : α → Step σ) : Step σ := fun s =>
  match look s with
  | .ok a => next a s
  | .error fault => (s, .error fault)

/-- A step on a part of the state, if it is there. What the step leaves of the part stays, also
where it fails. -/
def onPart (part : σ → Except Fault τ) (put : τ → σ → σ) (f : Step τ) : Step σ := fun s =>
  match part s with
  | .ok t => (put (f t).1 s, (f t).2)
  | .error fault => (s, .error fault)

/-- One step for each member of a list, in order, up to the first that fails. -/
def each (f : ι → Step σ) : List ι → Step σ
  | [] => skip
  | i :: rest => (f i).andThen (each f rest)

/-- One step for each of `count` words from `start` on, up to the first that fails. -/
def upwards (f : UInt32 → Step σ) : (count : Nat) → (start : UInt32) → Step σ
  | 0, _ => skip
  | count + 1, start => (f start).andThen (upwards f count (start + 1))

end Step

end GraphicsPipeline
