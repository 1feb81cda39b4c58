import Mathlib.Data.ENat.Basic
import TreeOps.Proofs.Memory.Scripted
import TreeOps.Proofs.Removal.Passing

/-!
# Directories that refuse to be removed

A scripted failure may report a directory full that is not, a number of times or for ever. Where no
other failures are scripted, a removal is refused exactly as long as it has been attempted less
often than there are refusals for its place. `Refuses` are the answers of such a file system; what
they lead on are the nodes, and for each place how often a removal was attempted there.
-/

namespace TreeOps

namespace Memory

open Operation

/-! ### Scripted refusals -/

/-- Whether a scripted failure reports a directory full that is to be removed. -/
def IsRefusal (f : Failure) : Prop :=
  f.primitive = .removeDirectory ∧ f.code = .directoryNotEmpty

instance (f : Failure) : Decidable (IsRefusal f) := inferInstanceAs (Decidable (_ ∧ _))

/-- How often some failures may still refuse the removal of what is at a place. -/
noncomputable def refusals (failures : List Failure) (place : Place) : ℕ∞ :=
  ((failures.filter fun f => f.path.components == place).map fun f =>
    f.remaining.elim ⊤ Nat.cast).sum

theorem refusals_nil (place : Place) : refusals [] place = 0 := rfl

theorem refusals_cons (f : Failure) (failures : List Failure) (place : Place) :
    refusals (f :: failures) place =
      (if f.path.components = place then f.remaining.elim ⊤ Nat.cast else 0) +
        refusals failures place := by
  unfold refusals
  rw [List.filter_cons]
  by_cases h : f.path.components = place <;> simp [h]

/-- What the removal of a directory makes of the refusals scripted for it. -/
structure Refused (failures : List Failure) (path : Path)
    (struck : Option NativeCode × List Failure) : Prop where
  code : struck.1 = if refusals failures path.components = 0 then none else some .directoryNotEmpty
  refusals : ∀ f ∈ struck.2, IsRefusal f
  used : Memory.refusals struck.2 path.components = Memory.refusals failures path.components - 1
  kept : ∀ place, place ≠ path.components →
    Memory.refusals struck.2 place = Memory.refusals failures place

/-- A failure that has nothing to refuse stays in front of what is left of the others. -/
theorem Refused.cons {f : Failure} {failures : List Failure} {path : Path}
    {struck : Option NativeCode × List Failure} (h : Refused failures path struck)
    (hf : IsRefusal f) (hspent : f.path.components = path.components → f.remaining = some 0) :
    Refused (f :: failures) path (struck.1, f :: struck.2) := by
  have hnothing : (if f.path.components = path.components then
      f.remaining.elim (⊤ : ℕ∞) Nat.cast else 0) = 0 := by
    split
    · next heq => simp [hspent heq]
    · rfl
  constructor
  · rw [refusals_cons, hnothing, zero_add]
    exact h.code
  · exact List.forall_mem_cons.mpr ⟨hf, h.refusals⟩
  · rw [refusals_cons, refusals_cons, hnothing, zero_add, zero_add]
    exact h.used
  · intro place hplace
    rw [refusals_cons, refusals_cons, h.kept place hplace]

/-- A refusal that strikes has had one strike more, for ever or a number of times. -/
theorem refusals_used {f : Failure} {primitive : Primitive} {path : Path}
    (h : f.Awaits primitive path) (failures : List Failure) :
    refusals (f :: failures) path.components =
      refusals (f.used :: failures) path.components + 1 := by
  rw [refusals_cons, refusals_cons, Failure.used_path, if_pos h.components, if_pos h.components]
  rcases h.remaining with hforever | ⟨k, hk⟩
  · simp [Failure.used, hforever]
  · simp [Failure.used, hk, add_right_comm]

theorem refused_strike {failures : List Failure} (h : ∀ f ∈ failures, IsRefusal f) (path : Path) :
    Refused failures path (strike .removeDirectory path failures) := by
  induction failures with
  | nil => exact ⟨rfl, by simp [strike_nil], by simp [strike_nil, refusals_nil], fun _ _ => rfl⟩
  | cons f failures ih =>
    obtain ⟨hf, hrest⟩ := List.forall_mem_cons.mp h
    rw [strike_cons]
    by_cases hawaits : f.Awaits .removeDirectory path
    · rw [if_pos hawaits]
      constructor
      · rw [refusals_used hawaits, if_neg (by simp), hf.2]
      · exact List.forall_mem_cons.mpr ⟨hf, hrest⟩
      · rw [refusals_used hawaits]
        exact (ENat.addLECancellable_of_ne_top ENat.one_ne_top).add_tsub_cancel_right.symm
      · intro place hplace
        have hother : f.path.components ≠ place := hawaits.components ▸ hplace.symm
        rw [refusals_cons, refusals_cons, Failure.used_path, if_neg hother, if_neg hother]
    · rw [if_neg hawaits]
      refine (ih hrest).cons hf fun hhere => ?_
      by_contra hspent
      exact hawaits ⟨hf.1, Path.same_iff.mpr hhere, hspent⟩

/-! ### Answers while removals are refused -/

/-- The nodes of a file system, and how often a removal has been attempted at each place. -/
structure Tried where
  nodes : Tree
  attempts : Place → Nat

/-- Other nodes, and another number of attempts at a place. -/
def Tried.withAttempts (s : Tried) (place : Place) (count : Nat) (nodes : Tree) : Tried where
  nodes
  attempts := Function.update s.attempts place count

/-- A further attempt to remove what is at a place, which leaves the given nodes. -/
def Tried.attempt (s : Tried) (place : Place) (nodes : Tree) : Tried :=
  s.withAttempts place (s.attempts place + 1) nodes

theorem Tried.attempts_withAttempts_self (s : Tried) (place : Place) (count : Nat) (nodes : Tree) :
    (s.withAttempts place count nodes).attempts place = count := Function.update_self ..

theorem Tried.attempts_withAttempts_of_ne (s : Tried) {place other : Place} (h : other ≠ place)
    (count : Nat) (nodes : Tree) :
    (s.withAttempts place count nodes).attempts other = s.attempts other :=
  Function.update_of_ne h ..

theorem Tried.withAttempts_withAttempts (s : Tried) (place : Place) (count count' : Nat)
    (nodes nodes' : Tree) :
    (s.withAttempts place count nodes).withAttempts place count' nodes' =
      s.withAttempts place count' nodes' := by
  simp only [withAttempts, Function.update_idem]

/-- How a request may be answered where the removal of a directory is refused as often as told for
its place, and no other call fails without a reason in the nodes. -/
def Refuses (t : Place → ℕ∞) : Answering Tried
  | .call _ c, s, a, s' =>
    c.primitive ≠ .removeDirectory ∧
        a = (s.nodes.perform c).1 ∧ s' = { s with nodes := (s.nodes.perform c).2 } ∨
      c.primitive = .removeDirectory ∧ t c.path.components ≤ s.attempts c.path.components ∧
        a = (s.nodes.perform c).1 ∧ s' = s.attempt c.path.components (s.nodes.perform c).2 ∨
      c.primitive = .removeDirectory ∧ s.attempts c.path.components < t c.path.components ∧
        a = .error (NativeCode.directoryNotEmpty : NativeError) ∧
          s' = s.attempt c.path.components s.nodes
  | .resolve path, s, a, s' => a = path ∧ s' = s
  | .report _, s, _, s' => s' = s
  | .consult .., s, _, s' => s' = s
  | .pause _, s, _, s' => s' = s
  | .note _, s, _, s' => s' = s

section Rules

variable {t : Place → ℕ∞} {s : Tried} {err : Halt → Tried → Prop} {tx : Option Transaction}

theorem refusing_attempt {c : Call} {ok : Except NativeError c.Result → Tried → Prop}
    (hc : c.primitive ≠ .removeDirectory) :
    Ensures (Refuses t) (Operation.attempt tx c) s ok err ↔
      ok (s.nodes.perform c).1 { s with nodes := (s.nodes.perform c).2 } := by
  rw [Operation.ensures_attempt]
  constructor
  · intro h
    exact h _ _ (.inl ⟨hc, rfl, rfl⟩)
  · rintro h a s' (⟨-, rfl, rfl⟩ | ⟨heq, -⟩ | ⟨heq, -⟩)
    · exact h
    · exact absurd heq hc
    · exact absurd heq hc

theorem refusing_removeDirectory {path : Path}
    {ok : Except NativeError Unit → Tried → Prop} :
    Ensures (Refuses t) (Operation.attempt tx (.removeDirectory path)) s ok err ↔
      (t path.components ≤ s.attempts path.components →
        ok (s.nodes.perform (.removeDirectory path)).1
          (s.attempt path.components (s.nodes.perform (.removeDirectory path)).2)) ∧
      (s.attempts path.components < t path.components →
        ok (.error (NativeCode.directoryNotEmpty : NativeError))
          (s.attempt path.components s.nodes)) := by
  rw [Operation.ensures_attempt]
  constructor
  · intro h
    constructor
    · intro hle
      exact h _ _ (.inr (.inl ⟨rfl, hle, rfl, rfl⟩))
    · intro hlt
      exact h _ _ (.inr (.inr ⟨rfl, hlt, rfl, rfl⟩))
  · rintro ⟨hgives, hrefuses⟩ a s' (⟨hne, -⟩ | ⟨-, hle, rfl, rfl⟩ | ⟨-, hlt, rfl, rfl⟩)
    · exact absurd rfl hne
    · exact hgives hle
    · exact hrefuses hlt

theorem refusing_note {n : Note} {ok : Unit → Tried → Prop} :
    Ensures (Refuses t) (Operation.note n) s ok err ↔ ok () s := by
  rw [Operation.ensures_note]
  exact ⟨fun h => h () s rfl, by rintro h _ _ rfl; exact h⟩

theorem refusing_pause {milliseconds : Nat} {ok : Unit → Tried → Prop} :
    Ensures (Refuses t) (ExceptT.lift (Program.request (.pause milliseconds))) s ok err ↔
      ok () s := by
  rw [Operation.ensures_request]
  exact ⟨fun h => h () s rfl, by rintro h _ _ rfl; exact h⟩

theorem refusing_resolve {path : Path} {ok : Path → Tried → Prop} :
    Ensures (Refuses t) (Operation.resolve path) s ok err ↔ ok path s := by
  rw [Operation.ensures_resolve]
  constructor
  · intro h
    exact h path s ⟨rfl, rfl⟩
  · rintro h a s' ⟨ha, rfl⟩
    rw [ha]
    exact h

/-- A listing is never refused. -/
theorem refusing_listEntries {dir : Path} {n : Node}
    {ok : Except NativeCode (List Entry) → Tried → Prop}
    (hn : s.nodes.lookup dir.components = some n) (hk : n.kind ≠ .file) :
    Ensures (Refuses t) (listEntries tx dir) s ok err ↔ ok (.ok (s.nodes.entriesOf dir)) s := by
  have hlisted : s.nodes.perform (.list dir) =
      (.ok ((s.nodes.children dir).map fun e => e.2.child e.1), s.nodes) :=
    Prod.ext (Tree.listing_eq_ok.mpr ⟨n, hn, hk, rfl⟩) rfl
  unfold listEntries
  rw [Operation.ensures_bind, refusing_attempt (by simp [Call.primitive]), hlisted]
  simp only [Operation.ensures_pure, Tree.entriesIn_eq]

/-- What only deletes or changes one entry is not refused: what it ensures where no call fails
without a reason in the nodes, it ensures here. -/
theorem refusing_edits {p : Operation Unit} {path : Path} {P : Tree → Prop}
    (hp : Asks (Request.Edits tx path) p) (h : Leaves True p ⟨s.nodes, []⟩ P) :
    Ensures (Refuses t) p s (fun _ s' => P s'.nodes ∧ s'.attempts = s.attempts)
      (fun _ _ => False) := by
  let sim (s₁ : Tried) (scene : Scene) : Prop :=
    s₁.nodes = scene.nodes ∧ s₁.attempts = s.attempts
  have hfollow (r : Request) (s₁ : Tried) (scene : Scene) (a : r.Answer) (s₂ : Tried)
      (hr : r.Edits tx path) (hsim : sim s₁ scene) (hstep : Refuses t r s₁ a s₂) :
      ∃ scene', Replies False True r scene a scene' ∧ sim s₂ scene' := by
    obtain ⟨hnodes, hattempts⟩ := hsim
    cases r with
    | call tx' c =>
      have hc : c.primitive ≠ .removeDirectory := by
        cases c with
        | removeDirectory => exact hr.elim
        | _ => simp [Call.primitive]
      obtain ⟨-, rfl, rfl⟩ := hstep.resolve_right fun h => h.elim (hc ·.1) (hc ·.1)
      exact ⟨_, .inl ⟨by rw [hnodes], rfl⟩, by rw [hnodes], hattempts⟩
    | note n =>
      obtain rfl := hstep
      exact ⟨scene, rfl, hnodes, hattempts⟩
    | resolve | consult | report | pause => exact hr.elim
  apply (hp.simulate sim hfollow ⟨rfl, rfl⟩ h).mono
  · rintro _ s' ⟨scene, ⟨hnodes, hattempts⟩, -, hP⟩
    rw [← hnodes] at hP
    exact ⟨hP, hattempts⟩
  · rintro _ _ ⟨_, _, h⟩
    exact h

end Rules

/-! ### Runs -/

/-- How often the removal of what is at a place has been attempted. -/
def removals (m : Memory) (place : Place) : Nat :=
  m.calls.countP fun c => c.1 == .removeDirectory && c.2.components == place

theorem removals_eq_callCount (m : Memory) (path : Path) :
    m.removals path.components = m.callCount .removeDirectory path := rfl

theorem removals_call (m : Memory) (c : Call) :
    (m.call c).2.removals =
      if c.primitive = .removeDirectory then
        Function.update m.removals c.path.components (m.removals c.path.components + 1)
      else m.removals := by
  funext place
  rw [removals, calls_call, List.countP_cons]
  by_cases hc : c.primitive = .removeDirectory
  · rw [if_pos hc, Function.update_apply]
    by_cases hplace : place = c.path.components
    · simp [hc, hplace, removals]
    · simp [hplace, Ne.symm hplace, removals]
  · simp [hc, removals]

/-- The nodes of a file system, and how often a removal has been attempted at each place since
another state of it. -/
def triedSince (base m : Memory) : Tried where
  nodes := m.nodes
  attempts place := m.removals place - base.removals place

/-- What is left of the refusals that were scripted at first. -/
structure Wearing (base m : Memory) : Prop where
  refusals : ∀ f ∈ m.failures, IsRefusal f
  since : ∀ place, base.removals place ≤ m.removals place
  left : ∀ place, Memory.refusals m.failures place =
    Memory.refusals base.failures place - (triedSince base m).attempts place

theorem wearing_self {m : Memory} (h : ∀ f ∈ m.failures, IsRefusal f) : Wearing m m where
  refusals := h
  since _ := Nat.le_refl _
  left place := by simp [triedSince]

/-- A removal is counted. -/
theorem Wearing.attempts {base m : Memory} (h : Wearing base m) {c : Call}
    (hc : c.primitive = .removeDirectory) :
    triedSince base (m.call c).2 =
      (triedSince base m).attempt c.path.components (m.call c).2.nodes := by
  unfold triedSince Tried.attempt Tried.withAttempts
  rw [removals_call, if_pos hc]
  congr 1
  funext place
  by_cases hplace : place = c.path.components
  · rw [hplace, Function.update_self, Function.update_self]
    exact Nat.sub_add_comm (h.since _)
  · rw [Function.update_of_ne hplace, Function.update_of_ne hplace]

/-- A removal is refused as long as there are refusals left, and uses up one of them. -/
theorem Wearing.remove {base m : Memory} (h : Wearing base m) {c : Call} (tx : Option Transaction)
    (hc : c.primitive = .removeDirectory) :
    Wearing base (m.call c).2 ∧
      Refuses (Memory.refusals base.failures) (.call tx c) (triedSince base m) (m.call c).1
        (triedSince base (m.call c).2) := by
  have hrefused := refused_strike h.refusals c.path
  obtain ⟨hresult, hnodes, hfailures⟩ := m.call_eq c
  rw [hc] at hresult hnodes hfailures
  have hattempts := h.attempts hc
  constructor
  · constructor
    · rw [hfailures]
      exact hrefused.refusals
    · intro place
      rw [removals_call, if_pos hc, Function.update_apply]
      have hsince := h.since place
      split
      · next hplace =>
        rw [← hplace]
        omega
      · exact hsince
    · intro place
      rw [hfailures, hattempts]
      by_cases hplace : place = c.path.components
      · rw [hplace, hrefused.used, h.left, Tried.attempt, Tried.attempts_withAttempts_self,
          Nat.cast_succ, tsub_tsub]
      · rw [hrefused.kept place hplace, h.left, Tried.attempt,
          Tried.attempts_withAttempts_of_ne _ hplace]
  · rw [hattempts]
    have hcode := hrefused.code
    rw [h.left] at hcode
    rcases le_or_gt (Memory.refusals base.failures c.path.components)
      ((triedSince base m).attempts c.path.components) with hle | hlt
    · rw [if_pos (tsub_eq_zero_of_le hle)] at hcode
      rw [hcode] at hresult hnodes
      exact .inr (.inl ⟨hc, hle, hresult, congrArg _ hnodes⟩)
    · rw [if_neg (tsub_pos_of_lt hlt).ne'] at hcode
      rw [hcode] at hresult hnodes
      exact .inr (.inr ⟨hc, hlt, hresult, congrArg _ hnodes⟩)

/-- No other call is struck. -/
theorem Wearing.leave {base m : Memory} (h : Wearing base m) {c : Call} (tx : Option Transaction)
    (hc : c.primitive ≠ .removeDirectory) :
    Wearing base (m.call c).2 ∧
      Refuses (Memory.refusals base.failures) (.call tx c) (triedSince base m) (m.call c).1
        (triedSince base (m.call c).2) := by
  have hmiss : strike c.primitive c.path m.failures = (none, m.failures) :=
    strike_of_forall_not fun f hf hawaits => hc (hawaits.1.symm.trans (h.refusals f hf).1)
  obtain ⟨hresult, hnodes, hfailures⟩ := m.call_eq c
  rw [hmiss] at hresult hnodes hfailures
  have hremovals := m.removals_call c
  rw [if_neg hc] at hremovals
  have htried : triedSince base (m.call c).2 =
      { triedSince base m with nodes := (m.nodes.perform c).2 } := by
    unfold triedSince
    rw [hremovals, hnodes]
  constructor
  · constructor
    · rw [hfailures]
      exact h.refusals
    · rw [hremovals]
      exact h.since
    · rw [htried, hfailures]
      exact h.left
  · rw [htried]
    exact .inl ⟨hc, hresult, rfl⟩

/-- What the refusing answers ensure is true of a run on a file system where only refusals are
scripted. -/
theorem ends_runs_refusing {m : Memory} {α : Type} (listener : Listener)
    (h : ∀ f ∈ m.failures, IsRefusal f) {p : Operation α} {ok : α → Tried → Prop}
    {err : Halt → Tried → Prop}
    (hp : Ensures (Refuses (refusals m.failures)) p ⟨m.nodes, fun _ => 0⟩ ok err) :
    Ends ok err (m.runs listener p).result (triedSince m (m.runs listener p).memory) := by
  have hstart : triedSince m m = ⟨m.nodes, fun _ => 0⟩ := by simp [triedSince]
  rw [← hstart] at hp
  rw [runs_eq]
  refine Program.Ensures.run (triedSince m) (Wearing m) (fun r m' hm => ?_) (p := p.run) hp
    (wearing_self h)
  cases r with
  | call tx c =>
    by_cases hc : c.primitive = .removeDirectory
    · exact hm.remove tx hc
    · exact hm.leave tx hc
  | resolve path => exact ⟨hm, rfl, rfl⟩
  | report progress => exact ⟨hm, rfl⟩
  | consult dir e => exact ⟨hm, rfl⟩
  | pause milliseconds => exact ⟨hm, rfl⟩
  | note n => exact ⟨hm, rfl⟩

end Memory

end TreeOps
