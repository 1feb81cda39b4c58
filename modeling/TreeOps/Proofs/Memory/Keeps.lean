import TreeOps.Proofs.Memory.Listing
import TreeOps.Proofs.Program.Keeps

/-!
# What operations keep of a file system in memory

An invariant of the whole file system, with the calls made so far and the failures still to strike.
Only primitive calls change it, so an operation keeps an invariant that each of its calls keeps. A
call that succeeds tells what the nodes held at that time.
-/

namespace TreeOps.Memory

open Operation

/-! ### Calls -/

/-- Every call is recorded. -/
theorem calls_call (m : Memory) (c : Call) :
    (m.call c).2.calls = (c.primitive, c.path) :: m.calls := by
  unfold call enter
  generalize strike c.primitive c.path m.failures = struck
  obtain ⟨code, failures⟩ := struck
  cases code <;> rfl

/-- A call leaves the nodes as they are, or does to them what they tell. -/
theorem nodes_call (m : Memory) (c : Call) :
    (m.call c).2.nodes = m.nodes ∨ (m.call c).2.nodes = (m.nodes.perform c).2 := by
  rcases m.call_nodes c with ⟨-, -, h⟩ | ⟨-, -, h⟩
  · exact .inr h
  · exact .inl h

/-- A call that succeeds gives what the nodes tell. -/
theorem perform_of_call_ok {m : Memory} {c : Call} {value : c.Result}
    (h : (m.call c).1 = .ok value) : (m.nodes.perform c).1 = .ok value := by
  rcases m.call_nodes c with ⟨-, hresult, -⟩ | ⟨-, ⟨e, he⟩, -⟩
  · exact hresult ▸ h
  · cases he.symm.trans h

/-- Without failures a call gives what the nodes tell. -/
theorem result_of_no_failures {m : Memory} (h : m.failures = []) (c : Call) :
    (m.call c).1 = (m.nodes.perform c).1 := by
  rcases m.call_nodes c with ⟨-, hresult, -⟩ | ⟨hstruck, -⟩
  · exact hresult
  · exact (hstruck (call_of_no_failures h c).1).elim

/-! ### Requests -/

/-- How a file system in memory and a listener answer. -/
abbrev answers (listener : Listener) : Answering Memory :=
  (fileSystem.handler listener).answering

variable {α : Type} {listener : Listener} {inv : Memory → Prop} {tx : Option Transaction}

theorem ensures_call {m : Memory} {c : Call} {Q : Except NativeError c.Result → Memory → Prop} :
    Program.Ensures (answers listener) (Program.call tx c) m Q ↔ Q (m.call c).1 (m.call c).2 := by
  constructor
  · intro h
    exact h _ _ rfl
  · intro h a m' hr
    obtain ⟨rfl, rfl⟩ := Prod.mk.inj hr
    exact h

theorem keeps_attempt {c : Call} {value : Except NativeError c.Result → Prop}
    (h : ∀ m, inv m → inv (m.call c).2 ∧ value (m.call c).1) :
    Keeps (answers listener) inv (attempt tx c) value := by
  apply keeps_request
  intro m a m' hm hr
  obtain ⟨rfl, rfl⟩ := Prod.mk.inj hr
  exact h m hm

theorem keeps_note {n : Note} : Keeps (answers listener) inv (Operation.note n) := by
  apply keeps_request
  intro m a m' hm hr
  obtain ⟨-, rfl⟩ := Prod.mk.inj hr
  exact ⟨hm, trivial⟩

theorem keeps_pause {milliseconds : Nat} :
    Keeps (answers listener) inv (ExceptT.lift (Program.request (.pause milliseconds))) := by
  apply keeps_request
  intro m a m' hm hr
  obtain ⟨-, rfl⟩ := Prod.mk.inj hr
  exact ⟨hm, trivial⟩

theorem keeps_progress {progress : Progress} :
    Keeps (answers listener) inv (ExceptT.lift (Program.request (.report progress))) := by
  apply keeps_request
  intro m a m' hm hr
  obtain ⟨-, rfl⟩ := Prod.mk.inj hr
  exact ⟨hm, trivial⟩

theorem keeps_resolve {path : Path} :
    Keeps (answers listener) inv (Operation.resolve path) (· = path) := by
  apply keeps_request
  intro m a m' hm hr
  obtain ⟨rfl, rfl⟩ := Prod.mk.inj hr
  exact ⟨hm, rfl⟩

/-- The outcome of a query tells about the node that is there. -/
theorem keeps_query {path : Path} {value : Entry → Prop}
    (hcall : ∀ m, inv m → inv (m.call (.query path)).2)
    (hvalue : ∀ m n e, inv m → m.nodes.lookup path.components = some n → e.Describes n → value e) :
    Keeps (answers listener) inv (attempt tx (.query path))
      fun result => ∀ e, result = .ok e → value e := by
  apply keeps_attempt
  intro m hm
  refine ⟨hcall m hm, fun e he => ?_⟩
  obtain ⟨n, hn, rfl⟩ := Tree.entry_eq_ok.mp (perform_of_call_ok he)
  exact hvalue m n _ hm hn (n.describes_entryAt path)

/-- A listing gives the entries that are there. -/
theorem keeps_listEntries {dir : Path} {value : Entry → Prop}
    (hcall : ∀ m, inv m → inv (m.call (.list dir)).2)
    (hvalue : ∀ m, inv m → ∀ e ∈ m.nodes.entriesOf dir, value e) :
    Keeps (answers listener) inv (listEntries tx dir)
      fun result => ∀ entries, result = .ok entries → ∀ e ∈ entries, value e := by
  have hlist : Keeps (answers listener) inv (attempt tx (.list dir)) fun result =>
      ∀ children, result = .ok children →
        ∀ e ∈ entriesIn dir (children.filter fun c => !c.name.contains separator), value e := by
    apply keeps_attempt
    intro m hm
    refine ⟨hcall m hm, fun children hc => ?_⟩
    obtain ⟨n, -, -, rfl⟩ := Tree.listing_eq_ok.mp (perform_of_call_ok hc)
    rw [Tree.entriesIn_eq]
    exact hvalue m hm
  apply keeps_bind hlist
  intro result hresult
  cases result with
  | ok children =>
    apply keeps_pure
    intro entries hentries
    obtain rfl := Except.ok.inj hentries
    exact hresult children rfl
  | error e =>
    apply keeps_seq keeps_note
    exact keeps_pure nofun

theorem keeps_childEntries {dir : Path} {value : Entry → Prop}
    (hcall : ∀ m, inv m → inv (m.call (.list dir)).2)
    (hvalue : ∀ m, inv m → ∀ e ∈ m.nodes.entriesOf dir, value e) :
    Keeps (answers listener) inv (childEntries tx dir) fun entries => ∀ e ∈ entries, value e := by
  apply keeps_bind (keeps_listEntries hcall hvalue)
  intro result hresult
  cases result with
  | ok entries => exact keeps_pure (hresult entries rfl)
  | error code => exact keeps_fail

/-! ### Runs -/

/-- What an operation keeps holds after its run. -/
theorem keeps_runs {m : Memory} {p : Operation α} {value : α → Prop}
    (h : Keeps (answers listener) inv p value) (hm : inv m) : inv (m.runs listener p).memory := by
  have hends := Program.Ensures.runRecorded (h m hm)
  change Ends _ _ (m.runs listener p).result (m.runs listener p).memory at hends
  cases hresult : (m.runs listener p).result with
  | ok a =>
    rw [hresult] at hends
    exact hends.1
  | error halt =>
    rw [hresult] at hends
    exact hends

end TreeOps.Memory
