import TreeOps.Proofs.Memory.Strikes
import TreeOps.Proofs.Requests

/-!
# Scripted failures

A failure is scripted for one kind of call on one path. A call that it strikes changes nothing but
the failures that are left, and any other call does what the nodes tell. So where all failures are
scripted for one kind of call, an operation that makes no call of this kind does what it does where
no failures are scripted. `Performs` is how the file system itself answers.
-/

namespace TreeOps

/-- Whether a request is no primitive call of a kind. -/
def Request.Avoids (primitive : Primitive) : Request → Prop
  | .call _ c => c.primitive ≠ primitive
  | _ => True

namespace Memory

open Operation

/-! ### Answers -/

/-- How the file system answers; a listener may answer anything. -/
def Performs : Answering Memory
  | .call _ c, m, a, m' => a = (m.call c).1 ∧ m' = (m.call c).2
  | .resolve path, m, a, m' => a = path ∧ m' = m
  | .report _, m, _, m' => m' = m
  | .consult .., m, _, m' => m' = m
  | .pause _, m, _, m' => m' = m
  | .note _, m, _, m' => m' = m

section Rules

variable {α : Type} {m : Memory} {err : Halt → Memory → Prop}

theorem performs_attempt {tx : Option Transaction} {c : Call}
    {ok : Except NativeError c.Result → Memory → Prop} :
    Ensures Performs (attempt tx c) m ok err ↔ ok (m.call c).1 (m.call c).2 := by
  rw [Operation.ensures_attempt]
  exact ⟨fun h => h _ _ ⟨rfl, rfl⟩, by rintro h _ _ ⟨rfl, rfl⟩; exact h⟩

theorem performs_note {n : Note} {ok : Unit → Memory → Prop} :
    Ensures Performs (note n) m ok err ↔ ok () m := by
  rw [Operation.ensures_note]
  exact ⟨fun h => h () m rfl, by rintro h _ _ rfl; exact h⟩

theorem performs_report {progress : Progress} {ok : ProgressAction → Memory → Prop} :
    Ensures Performs (ExceptT.lift (Program.request (.report progress))) m ok err ↔
      ∀ action, ok action m := by
  rw [Operation.ensures_request]
  exact ⟨fun h action => h action m rfl, by rintro h action _ rfl; exact h action⟩

/-- Where failures are scripted for one kind of call only, what avoids it ensures what it does
without failures, and leaves all of them. -/
theorem performs_avoiding {primitive : Primitive} (h : ∀ f ∈ m.failures, f.primitive = primitive)
    {p : Operation α} {value : α → Prop} (hp : Asks (Request.Avoids primitive) p value)
    {ok : α → Scene → Prop} {err : Halt → Scene → Prop}
    (hcalm : Ensures (Replies False True) p ⟨m.nodes, []⟩ ok err) :
    Ensures Performs p m
      (fun a m' => m'.failures = m.failures ∧ ∃ s, s.nodes = m'.nodes ∧ ok a s)
      (fun halt m' => m'.failures = m.failures ∧ ∃ s, s.nodes = m'.nodes ∧ err halt s) := by
  let sim (m' : Memory) (s : Scene) : Prop := m'.failures = m.failures ∧ s.nodes = m'.nodes
  have hfollow (r : Request) (m₁ : Memory) (s : Scene) (a : r.Answer) (m₂ : Memory)
      (hr : r.Avoids primitive) (hsim : sim m₁ s) (hstep : Performs r m₁ a m₂) :
      ∃ s', Replies False True r s a s' ∧ sim m₂ s' := by
    obtain ⟨hfailures, hnodes⟩ := hsim
    cases r with
    | call tx c =>
      obtain ⟨rfl, rfl⟩ := hstep
      have hmiss : strike c.primitive c.path m₁.failures = (none, m₁.failures) :=
        strike_of_forall_not (hfailures ▸ fun f hf hawaits => hr (hawaits.1.symm.trans (h f hf)))
      obtain ⟨hresult, htree, hleft⟩ := m₁.call_eq c
      rw [hmiss] at hresult htree hleft
      exact ⟨_, .inl ⟨by rw [hresult, hnodes], rfl⟩, hleft.trans hfailures, by rw [htree, hnodes]⟩
    | resolve path =>
      obtain ⟨ha, rfl⟩ := hstep
      exact ⟨s, ⟨ha, rfl⟩, hfailures, hnodes⟩
    | report progress =>
      obtain rfl := hstep
      exact ⟨_, ⟨fun _ => trivial, rfl⟩, hfailures, hnodes⟩
    | consult | pause | note =>
      obtain rfl := hstep
      exact ⟨s, rfl, hfailures, hnodes⟩
  apply (hp.simulate sim hfollow ⟨rfl, rfl⟩ hcalm).mono
  · rintro a m' ⟨s, ⟨hfailures, hnodes⟩, hok⟩
    exact ⟨hfailures, s, hnodes, hok⟩
  · rintro halt m' ⟨s, ⟨hfailures, hnodes⟩, herr⟩
    exact ⟨hfailures, s, hnodes, herr⟩

/-- What the answers of the file system ensure is true of a run. -/
theorem ends_runs_performed (listener : Listener) {p : Operation α} {ok : α → Memory → Prop}
    (hp : Ensures Performs p m ok err) :
    Ends ok err (m.runs listener p).result (m.runs listener p).memory := by
  rw [runs_eq]
  refine Program.Ensures.run id (fun _ => True) (fun r m' _ => ?_) (p := p.run) hp trivial
  cases r with
  | call tx c => exact ⟨trivial, rfl, rfl⟩
  | resolve path => exact ⟨trivial, rfl, rfl⟩
  | report progress => exact ⟨trivial, rfl⟩
  | consult dir e => exact ⟨trivial, rfl⟩
  | pause milliseconds => exact ⟨trivial, rfl⟩
  | note n => exact ⟨trivial, rfl⟩

end Rules

end Memory

end TreeOps
