import GraphicsPipeline.Proofs.Shader.Running
import GraphicsPipeline.Shader.Machine

/-!
# Machines that are used again

A run sees nothing of the runs before it. It ends with the same result on every machine, and an
accepted one leaves the same storage on every machine, where it fails half way as well
(`Machine.work_eq`). So the storage after any jobs is that of the last accepted one alone
(`Machine.after_eq`), and no sequence of jobs can be told from single runs on new machines.
-/

namespace GraphicsPipeline.Machine

variable {m m' : Machine} {j : Job}

/-! ### One job -/

/-- A refused job is over before the storage is cleared. -/
lemma work_fst_of_refused (h : j.accepted = false) : (m.work j).1 = m := by
  unfold Job.accepted at h
  unfold work run
  cases hinputs : checkInputs j.program.inputs j.inputs with
  | error e => rfl
  | ok u =>
    rw [hinputs] at h
    cases h

/-- An accepted job starts from the cleared storage, which is the same on every machine. -/
lemma work_of_accepted (h : j.accepted = true) : m.work j = m'.work j := by
  unfold Job.accepted at h
  unfold work run
  cases hinputs : checkInputs j.program.inputs j.inputs with
  | error e =>
    rw [hinputs] at h
    cases h
  | ok u => rw [clear_eq, clear_eq]

/-- What a job gives depends on the job alone, and what it leaves on the machine only where the job
is refused. -/
lemma work_eq : m.work j = (if j.accepted then (new.work j).1 else m, (new.work j).2) := by
  cases h : j.accepted with
  | true => exact work_of_accepted h
  | false => exact Prod.ext (work_fst_of_refused h) run_snd_eq

/-! ### Jobs in order -/

/-- Of all jobs, the storage holds what the last accepted one leaves on a new machine. -/
lemma after_eq (m : Machine) (jobs : List Job) :
    m.after jobs =
      ((jobs.filter Job.accepted).getLast?.map fun j => (new.work j).1).getD m := by
  induction jobs generalizing m with
  | nil => rfl
  | cons j rest ih =>
    rw [after, ih, work_eq, List.filter_cons]
    cases j.accepted with
    | false => rfl
    -- an accepted job clears the storage before it runs, and all before it is forgotten
    | true =>
      simp only [if_true, List.getLast?_cons]
      cases (rest.filter Job.accepted).getLast? <;> rfl

/-- Jobs in order give what each of them gives on a new machine. -/
lemma results_eq (m : Machine) (jobs : List Job) :
    m.results jobs = jobs.map fun j => (new.work j).2 := by
  induction jobs generalizing m with
  | nil => rfl
  | cons j rest ih => rw [results, ih, List.map_cons, work_eq]

/-- After any jobs, whether they succeeded, failed at some instruction or were refused, a job gives
the outputs or the error that it gives on a new machine. Not even the storage tells them apart
afterwards, unless the job is refused and nothing was touched. -/
theorem work_after (history : List Job) (j : Job) :
    ((new.after history).work j).2 = (new.work j).2 ∧
      ((new.after history).work j).1 =
        (if j.accepted then (new.work j).1 else new.after history) ∧
      ∀ jobs, (new.after history).results jobs = new.results jobs := by
  refine ⟨run_snd_eq, by rw [work_eq], fun jobs => ?_⟩
  rw [results_eq, results_eq]

/-- A run that ends at its second instruction, for want of a buffer, and then one without inputs. -/
def interrupted : List Job :=
  [⟨litTexture, #[.vec2 .one .zero], {}⟩, ⟨litTexture, #[], {}⟩]

/-- The coordinates of the first run are still in the storage, and the next job does not see them:
it has the error that it has on a new machine. -/
theorem work_after_interrupted :
    (new.after interrupted).regs[0]? = some (.vec2 .one .zero) ∧ new.regs[0]? = none ∧
      ((new.after interrupted).work ⟨litTexture, #[.vec2 .zero .zero], {}⟩).2 =
        .error (.refused .missingUniformBuffer) :=
  ⟨by rfl, by rfl, (work_after interrupted _).1.trans (by rfl)⟩

end GraphicsPipeline.Machine
