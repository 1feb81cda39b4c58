import TreeOps.Proofs.Memory.Sound
import TreeOps.Proofs.Memory.Strikes
import TreeOps.Proofs.Requests

/-!
# A file system that is sound at every moment

Operations on a file system in memory are watched for the soundness of its nodes. Any call may fail
for a reason that is not in the nodes, but no query is told that something is missing when it is
there: a move relies on that to tell what is in its way. An operation whose calls are safe holds the
nodes sound, and then they are sound after every request of a run.
-/

namespace TreeOps

namespace Memory

/-- How a request may be answered. A call does to the nodes what they tell, or fails for another
reason, but a call of an honest kind is not told of something that it is missing when it is there.
-/
def Honestly (honest : Primitive → Prop) : Answering Tree
  | .call _ c, t, a, t' =>
    a = (t.perform c).1 ∧ t' = (t.perform c).2 ∨
      t' = t ∧ ∃ e, a = .error e ∧ (honest c.primitive → e.code.isNotFound = false)
  | .resolve path, t, a, t' => a = path ∧ t' = t
  | _, t, _, t' => t' = t

/-- Queries are told the truth. -/
abbrev Truthful : Answering Tree := Honestly (· = .query)

/-- Truthful answers, watched for sound nodes. -/
abbrev Watched : Answering (Watch Tree) := Truthful.watching Tree.Sound

/-- The nodes are sound, and have been so far. -/
structure Held (s : Watch Tree) : Prop where
  good : s.good
  sound : s.state.Sound

open Operation

section Rules

variable {α : Type} {s s' : Watch Tree} {err : Halt → Watch Tree → Prop} {tx : Option Transaction}
  {allowed : Request → Prop}

theorem Held.step {r : Request} {a : r.Answer} (h : Held s) (hr : Watched r s a s')
    (hsound : s'.state.Sound) : Held s' := ⟨hr.2.mpr ⟨h.good, hsound⟩, hsound⟩

/-- A safe call holds the nodes sound. If it fails, nothing has changed, and what a query reports as
missing is. -/
theorem holds_attempt {c : Call} {ok : Except NativeError c.Result → Watch Tree → Prop}
    (h : Held s) (hc : c.IsSafe s.state)
    (hok : ∀ value s', Held s' → (s.state.perform c).1 = .ok value →
      s'.state = (s.state.perform c).2 → ok (.ok value) s')
    (herr : ∀ e s', Held s' → s'.state = s.state → (c.primitive = .query →
      e.code.isNotFound = true → s.state.lookup c.path.components = none) → ok (.error e) s') :
    Ensures Watched (attempt tx c) s ok err := by
  rw [Operation.ensures_attempt]
  rintro a s' hr
  rcases hr.1 with ⟨ha, hstate⟩ | ⟨hstate, e, ha, htruth⟩
  · have hs' : Held s' := h.step hr (hstate ▸ h.sound.perform hc)
    cases hp : (s.state.perform c).1 with
    | ok value =>
      rw [ha, hp]
      exact hok value s' hs' hp hstate
    | error e =>
      rw [ha, hp]
      refine herr e s' hs' (hstate.trans (Tree.perform_error hp)) fun hquery _ => ?_
      cases c with
      | query path => exact (Tree.entry_eq_error.mp hp).1
      | _ => cases hquery
  · rw [ha]
    refine herr e s' (h.step hr (hstate ▸ h.sound)) hstate fun hquery hmissing => ?_
    rw [htruth hquery] at hmissing
    cases hmissing

theorem holds_perform {c : Call} {error : NativeError → TreeError}
    {ok : c.Result → Watch Tree → Prop} (h : Held s) (hc : c.IsSafe s.state)
    (hok : ∀ value s', Held s' → (s.state.perform c).1 = .ok value →
      s'.state = (s.state.perform c).2 → ok value s')
    (herr : ∀ e s', Held s' → err (.failed (error e)) s') :
    Ensures Watched (perform tx c error) s ok err := by
  unfold perform
  rw [ensures_bind]
  refine holds_attempt h hc (fun value s' hs' hp hstate => ?_) fun e s' hs' _ _ => ?_
  · exact ensures_pure.mpr (hok value s' hs' hp hstate)
  · exact ensures_fail.mpr (herr e s' hs')

theorem holds_note {n : Note} {ok : Unit → Watch Tree → Prop} (h : Held s)
    (hok : ∀ s', Held s' → s'.state = s.state → ok () s') :
    Ensures Watched (Operation.note n) s ok err := by
  rw [Operation.ensures_note]
  intro a s' hr
  have hstate : s'.state = s.state := hr.1
  exact hok s' (h.step hr (hstate ▸ h.sound)) hstate

theorem holds_resolve {path : Path} {ok : Path → Watch Tree → Prop} (h : Held s)
    (hok : ∀ s', Held s' → s'.state = s.state → ok path s') :
    Ensures Watched (resolve path) s ok err := by
  rw [Operation.ensures_resolve]
  intro a s' hr
  obtain ⟨ha, hstate⟩ := hr.1
  rw [ha]
  exact hok s' (h.step hr (hstate ▸ h.sound)) hstate

theorem holds_progress {progress : Progress} {ok : ProgressAction → Watch Tree → Prop}
    (h : Held s) (hok : ∀ action s', Held s' → s'.state = s.state → ok action s') :
    Ensures Watched (ExceptT.lift (Program.request (.report progress))) s ok err := by
  rw [Operation.ensures_request]
  intro a s' hr
  have hstate : s'.state = s.state := hr.1
  exact hok a s' (h.step hr (hstate ▸ h.sound)) hstate

/-- A listing gives the entries that are there. -/
theorem holds_childEntries {dir : Path} {ok : List Entry → Watch Tree → Prop} (h : Held s)
    (hok : ∀ s', Held s' → s'.state = s.state → ok (s.state.entriesOf dir) s')
    (herr : ∀ halt s', Held s' → err halt s') :
    Ensures Watched (childEntries tx dir) s ok err := by
  unfold childEntries listEntries
  rw [Operation.ensures_bind, Operation.ensures_bind]
  refine holds_attempt h trivial (fun children s' hs' hc hstate => ?_) fun e s' hs' _ _ => ?_
  · obtain ⟨n, -, -, rfl⟩ := Tree.listing_eq_ok.mp hc
    simp only [ensures_pure, Tree.entriesIn_eq]
    exact hok s' hs' hstate
  · simp only [ensures_pure, Operation.ensures_bind]
    exact holds_note hs' fun s'' hs'' _ => ensures_fail.mpr (herr _ s'' hs'')

/-- An operation that makes only safe calls holds the nodes sound, and keeps what they keep. -/
theorem holds_of_asks (P : Tree → Prop) {p : Operation α} {value : α → Prop}
    (h : Asks allowed p value) (hsafe : ∀ tx c, allowed (.call tx c) → ∀ t, t.Sound → P t →
      c.IsSafe t ∧ P (t.perform c).2) (hs : Held s) (hP : P s.state) :
    Ensures Watched p s (fun a s' => Held s' ∧ P s'.state ∧ value a)
      (fun _ s' => Held s' ∧ P s'.state) := by
  have hkeeps : Keeps Watched (fun s => Held s ∧ P s.state) p value := by
    refine h.keeps _ fun r s a s' hr hs hstep => ?_
    have hsame (hstate : s'.state = s.state) : Held s' ∧ P s'.state :=
      ⟨hs.1.step hstep (hstate ▸ hs.1.sound), hstate ▸ hs.2⟩
    cases r with
    | call tx c =>
      obtain ⟨hc, hp⟩ := hsafe tx c hr s.state hs.1.sound hs.2
      rcases hstep.1 with ⟨-, hstate⟩ | ⟨hstate, -⟩
      · exact ⟨hs.1.step hstep (hstate ▸ hs.1.sound.perform hc), hstate ▸ hp⟩
      · exact hsame hstate
    | resolve path => exact hsame hstep.1.2
    | consult | report | pause | note => exact hsame hstep.1
  exact (hkeeps s ⟨hs, hP⟩).mono_ok fun a s' ha => ⟨ha.1.1, ha.1.2, ha.2⟩

/-- Looking changes nothing. -/
theorem holds_of_looks {p : Operation α} {value : α → Prop} (h : Asks (Request.Looks tx) p value)
    (hs : Held s) :
    Ensures Watched p s (fun a s' => Held s' ∧ s'.state = s.state ∧ value a)
      (fun _ s' => Held s' ∧ s'.state = s.state) := by
  refine holds_of_asks (· = s.state) h (fun tx' c hc t _ ht => ?_) hs rfl
  cases c with
  | list | query | sameVolume => exact ⟨trivial, ht⟩
  | _ => exact hc.elim

/-- Removing makes nothing anew. -/
theorem lookup_perform_of_removes {tx' : Option Transaction} {c : Call} {t : Tree}
    {root place : Place} (hc : Request.Removes tx root (.call tx' c))
    (hnone : t.lookup place = none) : (t.perform c).2.lookup place = none := by
  have herase (path : Path) : PathMap.lookup (t.erase path) place = none := by
    rw [PathMap.lookup_erase, hnone, ite_self]
  have hmodify (path : Path) (f : Node → Node) :
      PathMap.lookup (t.modify path f) place = none := by
    rw [PathMap.lookup_modify, hnone, Option.map_none, ite_self]
  have hupdate {result : Except NativeError Tree}
      (h : ∀ t', result = .ok t' → t'.lookup place = none) :
      (t.update result).2.lookup place = none :=
    Tree.update_keeps (P := fun t => t.lookup place = none) hnone h
  cases c with
  | list | query => exact hnone
  | removeDirectory path =>
    refine hupdate fun t' ht' => ?_
    obtain ⟨-, -, -, -, rfl⟩ := Tree.withoutDirectory_eq_ok.mp ht'
    exact herase path
  | deleteFile path =>
    refine hupdate fun t' ht' => ?_
    obtain ⟨-, -, -, -, rfl⟩ := Tree.withoutFile_eq_ok.mp ht'
    exact herase path
  | setAttributes path attributes =>
    refine hupdate fun t' ht' => ?_
    obtain ⟨-, rfl⟩ := Tree.withAttributes_eq_ok.mp ht'
    exact hmodify path _
  | unmount path =>
    refine hupdate fun t' ht' => ?_
    obtain ⟨-, rfl⟩ := Tree.withUnmounted_eq_ok.mp ht'
    exact hmodify path _
  | createDirectory | move | copy | sameVolume => exact hc.elim

/-- A removal holds the nodes sound and makes nothing anew. -/
theorem holds_of_removes {p : Operation α} {value : α → Prop} {root : Place}
    (h : Asks (Request.Removes tx root) p value) (hs : Held s) :
    Ensures Watched p s
      (fun a s' => Held s' ∧
        (∀ place, s.state.lookup place = none → s'.state.lookup place = none) ∧ value a)
      (fun _ s' => Held s' ∧
        ∀ place, s.state.lookup place = none → s'.state.lookup place = none) := by
  refine holds_of_asks
    (fun t => ∀ place, s.state.lookup place = none → t.lookup place = none) h
    (fun tx' c hc t _ hnone => ⟨?_, fun place hplace => ?_⟩) hs fun _ => id
  · cases c with
    | createDirectory | move | copy => exact hc.elim
    | _ => trivial
  · exact lookup_perform_of_removes hc (hnone place hplace)

/-- Creating directories holds the nodes sound, and touches only what may be made. -/
theorem holds_of_creates {made : Path → Prop} {p : Operation α} {value : α → Prop}
    (places : Place → Prop) (h : Asks (Request.Creates tx made) p value)
    (hmade : ∀ path, made path → Rooted path.components ∧ places path.components) (hs : Held s) :
    Ensures Watched p s
      (fun a s' => Held s' ∧ Tree.AgreeOutside places s.state s'.state ∧ value a)
      (fun _ s' => Held s' ∧ Tree.AgreeOutside places s.state s'.state) := by
  refine holds_of_asks (Tree.AgreeOutside places s.state) h (fun tx' c hc t _ hagree => ?_) hs
    (.refl _)
  cases c with
  | query path => exact ⟨trivial, hagree⟩
  | createDirectory path =>
    obtain ⟨hpath, hplace⟩ := hmade path hc.2
    refine ⟨hpath, hagree.trans ?_⟩
    exact (Tree.agreeOutside_perform (.createDirectory path) t).mono fun place he => he ▸ hplace
  | _ => exact hc.elim

end Rules

/-! ### Scripted failures -/

/-- No failure is scripted by which a query would report something as missing. -/
def TellsTruth (m : Memory) : Prop :=
  ∀ f ∈ m.failures, f.primitive = .query → f.remaining ≠ some 0 → f.code.isNotFound = false

instance (m : Memory) : Decidable m.TellsTruth :=
  inferInstanceAs (Decidable (∀ f ∈ m.failures, _ → _ → _))

/-- What holds of the failures that can strike holds of the one that does, and of those left. -/
theorem strike_keeps (P : Primitive → NativeCode → Prop) (primitive : Primitive) (path : Path)
    {failures : List Failure} (h : ∀ f ∈ failures, f.remaining ≠ some 0 → P f.primitive f.code) :
    (∀ code, (strike primitive path failures).1 = some code → P primitive code) ∧
    ∀ f ∈ (strike primitive path failures).2, f.remaining ≠ some 0 → P f.primitive f.code := by
  constructor
  · intro code hcode
    rcases strike_cases primitive path failures with
      ⟨before, f, rest, rfl, -, hf, hstrike⟩ | ⟨-, hstrike⟩
    · rw [hstrike] at hcode
      rw [← Option.some.inj hcode, ← hf.1]
      exact h f (by simp) hf.2.2
    · rw [hstrike] at hcode
      cases hcode
  · exact forall_strike h fun f hf hkept _ => hkept hf.2.2

/-- No failure is scripted by which a call of an honest kind would report something as missing. -/
def IsHonest (honest : Primitive → Prop) (m : Memory) : Prop :=
  ∀ f ∈ m.failures, f.remaining ≠ some 0 → honest f.primitive → f.code.isNotFound = false

/-- A call is answered honestly, and the failures stay so. -/
theorem IsHonest.call {honest : Primitive → Prop} {m : Memory} (h : m.IsHonest honest)
    (tx : Option Transaction) (c : Call) : (m.call c).2.IsHonest honest ∧
      Honestly honest (.call tx c) m.nodes (m.call c).1 (m.call c).2.nodes := by
  obtain ⟨hcode, hleft⟩ := strike_keeps
    (fun primitive code => honest primitive → code.isNotFound = false) c.primitive c.path h
  obtain ⟨hresult, hnodes, hfailures⟩ := m.call_eq c
  refine ⟨by rw [IsHonest, hfailures]; exact hleft, ?_⟩
  cases hstruck : (strike c.primitive c.path m.failures).1 with
  | none =>
    rw [hstruck] at hresult hnodes
    exact .inl ⟨hresult, hnodes⟩
  | some code =>
    rw [hstruck] at hresult hnodes
    exact .inr ⟨hnodes, code, hresult, hcode code hstruck⟩

/-- Every step of a run is an honest answer. -/
theorem honest_handler {honest : Primitive → Prop} {listener : Listener} (r : Request) (m : Memory)
    (h : m.IsHonest honest) : (fileSystem.handler listener r m).2.IsHonest honest ∧
      Honestly honest r m.nodes (fileSystem.handler listener r m).1
        (fileSystem.handler listener r m).2.nodes := by
  cases r with
  | call tx c => exact h.call tx c
  | resolve path => exact ⟨h, rfl, rfl⟩
  | consult | report | pause | note => exact ⟨h, rfl⟩

theorem tellsTruth_iff {m : Memory} : m.TellsTruth ↔ m.IsHonest (· = .query) :=
  forall₂_congr fun _ _ => ⟨fun h hremaining hquery => h hquery hremaining,
    fun h hquery hremaining => h hremaining hquery⟩

/-! ### Runs -/

variable {α : Type} {listener : Listener}

theorem truthful_handler (r : Request) (m : Memory) (h : m.TellsTruth) :
    (fileSystem.handler listener r m).2.TellsTruth ∧
      Truthful r m.nodes (fileSystem.handler listener r m).1
        (fileSystem.handler listener r m).2.nodes := by
  rw [tellsTruth_iff] at h ⊢
  exact honest_handler r m h

/-- A file system whose nodes are sound and whose queries are told the truth. -/
structure Healthy (m : Memory) : Prop where
  sound : m.nodes.Sound
  truth : m.TellsTruth

/-- An operation that holds the nodes sound does so at every moment of a run. -/
theorem Healthy.runs {m : Memory} {p : Operation α} {value : α → Prop} (h : m.Healthy)
    (listener : Listener) (hp : Keeps Watched Held p value) :
    (∀ e ∈ m.history listener p, e.2.nodes.Sound) ∧ (m.runs listener p).memory.Healthy := by
  have hgood : p.run.Ensures Watched ⟨m.nodes, True⟩ fun _ s => s.good := by
    refine Program.Ensures.mono (hp ⟨m.nodes, True⟩ ⟨trivial, h.sound⟩) fun result s hs => ?_
    cases result with
    | ok a => exact hs.1.good
    | error halt => exact hs.good
  have hhistory : True ∧ ∀ e ∈ m.history listener p, e.2.nodes.Sound :=
    Program.Ensures.history Memory.nodes TellsTruth truthful_handler hgood h.truth
  have htruth : (m.runs listener p).memory.TellsTruth := by
    rw [runs_eq]
    exact Program.run_keeps TellsTruth (fun r m hm => (truthful_handler r m hm).1) _ h.truth
  refine ⟨hhistory.2, ?_, htruth⟩
  -- The last event of the run has led to the file system that it leaves.
  rw [runs_eq, Program.run_state_eq]
  cases hlast : (m.history listener p).getLast? with
  | none =>
    rw [history] at hlast
    rw [hlast]
    exact h.sound
  | some e =>
    rw [history] at hlast
    rw [hlast]
    exact hhistory.2 e (List.mem_of_getLast? hlast)

end Memory

end TreeOps
