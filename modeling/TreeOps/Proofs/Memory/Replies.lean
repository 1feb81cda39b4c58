import TreeOps.Memory.Calls
import TreeOps.Proofs.Program.Ensures

/-!
# How a file system in memory answers

What an operation on a file system in memory reads and changes is a scene: the nodes, and the
progress that was reported so far. `Replies` says how a request may be answered in a scene. Whether
primitive calls may fail without a reason in the nodes, and whether the listener may cancel, are two
conditions of it, so what is ensured for both true holds whatever failures are scripted, and what is
ensured for both false holds without failures and for a listener that never cancels.
-/

namespace TreeOps

theorem Tree.update_of_error {t : Tree} {r : Except NativeError Tree} {e : NativeError}
    (h : (t.update r).1 = .error e) : (t.update r).2 = t := by
  cases r with
  | ok t' => cases h
  | error e' => rfl

/-- A call that fails changes no node. -/
theorem Tree.perform_error {t : Tree} {c : Call} {e : NativeError}
    (h : (t.perform c).1 = .error e) : (t.perform c).2 = t := by
  cases c with
  | list | query | sameVolume => rfl
  | copy source destination flags =>
    simp only [Tree.perform] at h ⊢
    cases hcopied : t.withCopy source destination flags with
    | ok copied =>
      rw [hcopied] at h
      cases h
    | error e' => rfl
  | createDirectory | removeDirectory | deleteFile | move | setAttributes | unmount =>
    exact Tree.update_of_error h

/-- What operations on a file system in memory read and change. -/
structure Scene where
  nodes : Tree
  /-- The progress reported so far, in order. -/
  records : List Progress := []

namespace Memory

/-- How a request may be answered in a scene. A call does to the nodes what they tell, or fails if
it may fail for another reason. -/
def Replies (failing canceling : Prop) : Answering Scene
  | .call _ c, s, a, s' =>
    a = (s.nodes.perform c).1 ∧ s' = { s with nodes := (s.nodes.perform c).2 } ∨
      failing ∧ s' = s ∧ ∃ e, a = .error e
  | .resolve path, s, a, s' => a = path ∧ s' = s
  | .report progress, s, a, s' =>
    (a = .cancel → canceling) ∧ s' = { s with records := s.records ++ [progress] }
  | .consult .., s, _, s' => s' = s
  | .pause _, s, _, s' => s' = s
  | .note _, s, _, s' => s' = s

section Rules

variable {α : Type} {failing canceling : Prop} {s : Scene} {err : Halt → Scene → Prop}

theorem ensures_attempt {tx : Option Transaction} {c : Call}
    {ok : Except NativeError c.Result → Scene → Prop} :
    Operation.Ensures (Replies failing canceling) (Operation.attempt tx c) s ok err ↔
      (∀ value, (s.nodes.perform c).1 = .ok value →
        ok (.ok value) { s with nodes := (s.nodes.perform c).2 }) ∧
      ∀ e, failing ∨ (s.nodes.perform c).1 = .error e → ok (.error e) s := by
  rw [Operation.ensures_attempt]
  constructor
  · intro h
    refine ⟨fun value hv => h _ _ (.inl ⟨hv.symm, rfl⟩), ?_⟩
    rintro e (hf | he)
    · exact h _ _ (.inr ⟨hf, rfl, e, rfl⟩)
    · exact h _ _ (.inl ⟨he.symm, by rw [Tree.perform_error he]⟩)
  · rintro ⟨hok, herr⟩ a s' (⟨rfl, rfl⟩ | ⟨hf, rfl, e, rfl⟩)
    · cases hp : (s.nodes.perform c).1 with
      | ok value => exact hok value hp
      | error e =>
        rw [Tree.perform_error hp]
        exact herr e (.inr hp)
    · exact herr e (.inl hf)

theorem ensures_perform {tx : Option Transaction} {c : Call} {error : NativeError → TreeError}
    {ok : c.Result → Scene → Prop} :
    Operation.Ensures (Replies failing canceling) (Operation.perform tx c error) s ok err ↔
      (∀ value, (s.nodes.perform c).1 = .ok value →
        ok value { s with nodes := (s.nodes.perform c).2 }) ∧
      ∀ e, failing ∨ (s.nodes.perform c).1 = .error e → err (.failed (error e)) s := by
  unfold Operation.perform
  rw [Operation.ensures_bind, ensures_attempt]
  exact Iff.rfl

theorem ensures_note {n : Note} {ok : Unit → Scene → Prop} :
    Operation.Ensures (Replies failing canceling) (Operation.note n) s ok err ↔ ok () s := by
  rw [Operation.ensures_note]
  exact ⟨fun h => h () s rfl, by rintro h _ _ rfl; exact h⟩

theorem ensures_pause {milliseconds : Nat} {ok : Unit → Scene → Prop} :
    Operation.Ensures (Replies failing canceling)
      (ExceptT.lift (Program.request (.pause milliseconds))) s ok err ↔ ok () s := by
  rw [Operation.ensures_request]
  exact ⟨fun h => h () s rfl, by rintro h _ _ rfl; exact h⟩

theorem ensures_resolve {path : Path} {ok : Path → Scene → Prop} :
    Operation.Ensures (Replies failing canceling) (Operation.resolve path) s ok err ↔
      ok path s := by
  rw [Operation.ensures_resolve]
  constructor
  · intro h
    exact h path s ⟨rfl, rfl⟩
  · rintro h a s' ⟨ha, rfl⟩
    rw [ha]
    exact h

theorem ensures_progress {progress : Progress} {ok : ProgressAction → Scene → Prop} :
    Operation.Ensures (Replies failing canceling)
        (ExceptT.lift (Program.request (.report progress))) s ok err ↔
      ok .proceed { s with records := s.records ++ [progress] } ∧
        (canceling → ok .cancel { s with records := s.records ++ [progress] }) := by
  rw [Operation.ensures_request]
  constructor
  · intro h
    exact ⟨h _ _ ⟨by simp, rfl⟩, fun hc => h _ _ ⟨fun _ => hc, rfl⟩⟩
  · rintro ⟨hproceed, hcancel⟩ a s' ⟨hc, rfl⟩
    cases a with
    | proceed => exact hproceed
    | cancel => exact hcancel (hc rfl)

/-! A call whose outcome is known, without other failures. -/

theorem ensures_attempt_ok {tx : Option Transaction} {c : Call} {value : c.Result} {t : Tree}
    {ok : Except NativeError c.Result → Scene → Prop} (h : s.nodes.perform c = (.ok value, t))
    (hok : ok (.ok value) { s with nodes := t }) :
    Operation.Ensures (Replies False canceling) (Operation.attempt tx c) s ok err := by
  rw [ensures_attempt, h]
  refine ⟨fun v hv => ?_, fun e he => ?_⟩
  · rw [← Except.ok.inj hv]
    exact hok
  · exact nomatch he.resolve_left id

theorem ensures_attempt_error {tx : Option Transaction} {c : Call} {e : NativeError}
    {ok : Except NativeError c.Result → Scene → Prop} (h : (s.nodes.perform c).1 = .error e)
    (hok : ok (.error e) s) :
    Operation.Ensures (Replies False canceling) (Operation.attempt tx c) s ok err := by
  rw [ensures_attempt, h]
  refine ⟨fun v hv => (nomatch hv), fun e' he => ?_⟩
  rw [← Except.error.inj (he.resolve_left id)]
  exact hok

theorem ensures_perform_ok {tx : Option Transaction} {c : Call} {value : c.Result} {t : Tree}
    {error : NativeError → TreeError} {ok : c.Result → Scene → Prop}
    (h : s.nodes.perform c = (.ok value, t)) (hok : ok value { s with nodes := t }) :
    Operation.Ensures (Replies False canceling) (Operation.perform tx c error) s ok err := by
  unfold Operation.perform
  rw [Operation.ensures_bind]
  exact ensures_attempt_ok h hok

end Rules

/-! ### Runs -/

theorem strike_nil (primitive : Primitive) (path : Path) : strike primitive path [] = (none, []) :=
  rfl

theorem enter_nodes (m : Memory) (c : Call) : (m.enter c).2.nodes = m.nodes := rfl

/-- A call does to the nodes what they tell, unless a failure strikes. -/
theorem call_nodes (m : Memory) (c : Call) :
    (m.enter c).1 = none ∧ (m.call c).1 = (m.nodes.perform c).1 ∧
        (m.call c).2.nodes = (m.nodes.perform c).2 ∨
      (m.enter c).1 ≠ none ∧ (∃ e, (m.call c).1 = .error e) ∧ (m.call c).2.nodes = m.nodes := by
  have hnodes := m.enter_nodes c
  unfold call
  generalize m.enter c = entered at hnodes
  obtain ⟨code, m'⟩ := entered
  simp only at hnodes
  cases code with
  | none =>
    left
    simp only [hnodes]
    exact ⟨trivial, trivial, trivial⟩
  | some code =>
    right
    exact ⟨by simp, ⟨code, rfl⟩, hnodes⟩

theorem call_of_no_failures {m : Memory} (h : m.failures = []) (c : Call) :
    (m.enter c).1 = none ∧ (m.call c).2.failures = [] := by
  have henter : m.enter c =
      (none, { m with calls := (c.primitive, c.path) :: m.calls, failures := [] }) := by
    simp only [enter, h, strike_nil]
  unfold call
  rw [henter]
  exact ⟨rfl, rfl⟩

/-- The scene that a recorded run has come to. -/
def scene (state : Memory × List Event) : Scene where
  nodes := state.1.nodes
  records := state.2.reverse.filterMap Event.progress?

variable {α : Type} {failing canceling : Prop} {listener : Listener}

/-- Every step of a run is a reply. -/
theorem replies_handler (hcancel : ∀ p, listener.progress p = .cancel → canceling) (r : Request)
    (state : Memory × List Event) (h : failing ∨ state.1.failures = []) :
    (failing ∨ ((fileSystem.handler listener).recorded r state).2.1.failures = []) ∧
      Replies failing canceling r (scene state) ((fileSystem.handler listener).recorded r state).1
        (scene ((fileSystem.handler listener).recorded r state).2) := by
  obtain ⟨m, journal⟩ := state
  have unrecorded {e : Event} (he : e.progress? = none) (m' : Memory) :
      scene (m', e :: journal) = { scene (m, journal) with nodes := m'.nodes } := by
    simp [scene, he]
  cases r with
  | call tx c =>
    have hscene := unrecorded (e := ⟨.call tx c, (m.call c).1⟩) rfl (m.call c).2
    constructor
    · exact h.imp_right fun h => (call_of_no_failures h c).2
    · change Replies failing canceling (.call tx c) (scene (m, journal)) (m.call c).1
        (scene ((m.call c).2, ⟨.call tx c, (m.call c).1⟩ :: journal))
      rw [hscene]
      rcases call_nodes m c with ⟨-, hresult, hnodes⟩ | ⟨hstruck, hresult, hnodes⟩
      · left
        exact ⟨hresult, by rw [hnodes]; rfl⟩
      · right
        refine ⟨h.resolve_right fun h => hstruck (call_of_no_failures h c).1, ?_, hresult⟩
        rw [hnodes]
        rfl
  | resolve path => exact ⟨h, rfl, unrecorded rfl m⟩
  | report progress =>
    refine ⟨h, hcancel progress, ?_⟩
    simp [scene, Handler.recorded, FileSystem.handler, Event.progress?]
  | consult dir e => exact ⟨h, unrecorded rfl m⟩
  | pause milliseconds => exact ⟨h, unrecorded rfl m⟩
  | note n => exact ⟨h, unrecorded rfl m⟩

/-- What the run of an operation comes to. -/
structure Run (α : Type) where
  result : Except Halt α
  memory : Memory
  /-- The progress that was reported, in order. -/
  records : List Progress

/-- The nodes and the progress after a run. -/
def Run.scene (run : Run α) : Scene := ⟨run.memory.nodes, run.records⟩

/-- Run an operation on a file system with a listener. -/
def runs (m : Memory) (listener : Listener) (p : Operation α) : Run α :=
  let (result, memory, journal) := p.runRecorded (fileSystem.handler listener) m
  ⟨result, memory, journal.filterMap Event.progress?⟩

/-- What the replies ensure is true of a run. -/
theorem ends_runs {m : Memory} (listener : Listener) (hfail : failing ∨ m.failures = [])
    (hcancel : ∀ p, listener.progress p = .cancel → canceling) {p : Operation α}
    {ok : α → Scene → Prop} {err : Halt → Scene → Prop}
    (h : Operation.Ensures (Replies failing canceling) p ⟨m.nodes, []⟩ ok err) :
    Operation.Ends ok err (m.runs listener p).result (m.runs listener p).scene :=
  Program.Ensures.run scene (fun state => failing ∨ state.1.failures = [])
    (replies_handler hcancel) (t := (m, [])) h hfail

/-- Without scripted failures and with a listener that never cancels, what the replies ensure that
are possible then is true of a run. -/
theorem ends_runs_calm {m : Memory} (hcalm : m.failures = [])
    (hproceed : ∀ p, listener.progress p = .proceed) {p : Operation α}
    {ok : α → Scene → Prop} {err : Halt → Scene → Prop}
    (h : Operation.Ensures (Replies False False) p ⟨m.nodes, []⟩ ok err) :
    Operation.Ends ok err (m.runs listener p).result (m.runs listener p).scene := by
  refine ends_runs listener (.inr hcalm) (fun p hp => ?_) h
  rw [hproceed] at hp
  cases hp

end Memory

end TreeOps
