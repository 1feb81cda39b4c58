import TreeOps.Proofs.Memory.Replies
import TreeOps.Proofs.Program.Moments

/-!
# The history of a run on a file system in memory

What a run comes to is read off its history: the progress that was reported is that of its events,
and the file system is the one that the last event led to.
-/

namespace TreeOps.Memory

variable {α : Type}

/-- The events of a run, each with the file system that it led to. -/
def history (m : Memory) (listener : Listener) (p : Operation α) : List (Event × Memory) :=
  p.run.history (fileSystem.handler listener) m

/-- The moments of a run. -/
def moments (m : Memory) (listener : Listener) (p : Operation α) : List (Moment Memory) :=
  p.run.moments (fileSystem.handler listener) m

theorem runs_eq (m : Memory) (listener : Listener) (p : Operation α) :
    m.runs listener p =
      ⟨(p.run.run (fileSystem.handler listener) m).1, (p.run.run (fileSystem.handler listener) m).2,
        (m.history listener p).filterMap fun e => e.1.progress?⟩ := by
  simp only [runs, Operation.runRecorded, Program.runRecorded_eq, List.filterMap_map]
  rfl

/-- What an observed operation ensures is true of a run, with what is good about all its moments. -/
theorem ends_runs_observed {good : Moment Memory → Prop} {m : Memory} {listener : Listener}
    {p : Operation α} {ok : α → Watch Memory → Prop} {err : Halt → Watch Memory → Prop}
    (hp : Operation.Ensures ((fileSystem.handler listener).answering.observing good) p ⟨m, True⟩
      ok err) :
    Operation.Ends ok err (m.runs listener p).result
      ⟨(m.runs listener p).memory, True ∧ ∀ x ∈ m.moments listener p, good x⟩ := by
  rw [runs_eq]
  exact Program.Ensures.observed hp

/-- Paths are taken as they are. -/
theorem runs_resolve (m : Memory) (listener : Listener) (path : Path) (f : Path → Operation α) :
    m.runs listener (Operation.resolve path >>= f) = m.runs listener (f path) := by
  rw [runs_eq, runs_eq]
  rfl

/-- Where no failure was scripted, none is after a run. -/
theorem failures_runs {m : Memory} (hcalm : m.failures = []) (listener : Listener)
    (p : Operation α) : (m.runs listener p).memory.failures = [] := by
  rw [runs_eq]
  refine Program.run_keeps (fun m : Memory => m.failures = []) (fun r m h => ?_) _ hcalm
  cases r with
  | call tx c => exact (call_of_no_failures h c).2
  | resolve | consult | report | pause | note => exact h

end TreeOps.Memory
