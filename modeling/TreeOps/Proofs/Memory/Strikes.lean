import TreeOps.Proofs.Memory.Keeps

/-!
# Calls that fail

Failures are scripted in a list, and a call is struck by the first of them that awaits it, which is
used by that; no other failure changes. A call that is not struck does what the nodes tell. Either
way it is recorded, and if it fails no node has changed.
-/

namespace TreeOps

namespace Failure

/-- Whether a failure strikes a call unless another one does first: it is scripted for the kind of
the call and for its path, and it is not used up. -/
def Awaits (f : Failure) (primitive : Primitive) (path : Path) : Prop :=
  f.primitive = primitive ∧ f.path.same path = true ∧ f.remaining ≠ some 0

instance (f : Failure) (primitive : Primitive) (path : Path) :
    Decidable (f.Awaits primitive path) :=
  inferInstanceAs (Decidable (_ ∧ _ ∧ _))

/-- A failure after one more strike, of which it has one less left if they are limited. -/
def used (f : Failure) : Failure := { f with remaining := f.remaining.map (· - 1) }

variable {f : Failure} {primitive : Primitive} {path : Path}

theorem Awaits.components (h : f.Awaits primitive path) :
    f.path.components = path.components :=
  Path.same_iff.mp h.2.1

/-- A failure that strikes does so for ever or has a strike left. -/
theorem Awaits.remaining (h : f.Awaits primitive path) :
    f.remaining = none ∨ ∃ n, f.remaining = some (n + 1) := by
  obtain ⟨-, -, hspent⟩ := h
  cases hremaining : f.remaining with
  | none => exact .inl rfl
  | some n =>
    cases n with
    | zero => exact absurd hremaining hspent
    | succ n => exact .inr ⟨n, rfl⟩

@[simp] theorem used_path (f : Failure) : f.used.path = f.path := rfl

theorem used_eq_self (h : f.remaining = none) : f.used = f := by
  cases f
  simp_all [used]

end Failure

namespace Memory

/-! ### Strikes -/

section Strikes

variable {primitive : Primitive} {path : Path} {failures : List Failure}

/-- A failure strikes if it awaits the call, and is passed over otherwise. -/
theorem strike_cons (primitive : Primitive) (path : Path) (f : Failure) (rest : List Failure) :
    strike primitive path (f :: rest) =
      if f.Awaits primitive path then (some f.code, f.used :: rest)
      else ((strike primitive path rest).1, f :: (strike primitive path rest).2) := by
  rw [strike]
  by_cases hmatch : f.primitive = primitive ∧ f.path.same path = true
  · rw [if_pos hmatch]
    split
    · next hforever =>
      rw [if_pos ⟨hmatch.1, hmatch.2, by simp [hforever]⟩, Failure.used_eq_self hforever]
    · next n hn =>
      rw [if_pos ⟨hmatch.1, hmatch.2, by simp [hn]⟩]
      simp [Failure.used, hn]
    · next hspent => rw [if_neg fun h => h.2.2 hspent]
  · rw [if_neg hmatch, if_neg fun h => hmatch ⟨h.1, h.2.1⟩]

/-- The first failure that awaits a call strikes and is used by that; where none does, all are left
as they are. -/
theorem strike_cases (primitive : Primitive) (path : Path) (failures : List Failure) :
    (∃ before f rest, failures = before ++ f :: rest ∧
      (∀ g ∈ before, ¬g.Awaits primitive path) ∧ f.Awaits primitive path ∧
      strike primitive path failures = (some f.code, before ++ f.used :: rest)) ∨
    (∀ f ∈ failures, ¬f.Awaits primitive path) ∧
      strike primitive path failures = (none, failures) := by
  induction failures with
  | nil => exact .inr ⟨nofun, rfl⟩
  | cons f failures ih =>
    rw [strike_cons]
    by_cases hf : f.Awaits primitive path
    · rw [if_pos hf]
      exact .inl ⟨[], f, failures, rfl, nofun, hf, rfl⟩
    · rw [if_neg hf]
      rcases ih with ⟨before, g, rest, rfl, hbefore, hg, hstrike⟩ | ⟨hnone, hstrike⟩
      · rw [hstrike]
        exact .inl ⟨f :: before, g, rest, rfl, List.forall_mem_cons.mpr ⟨hf, hbefore⟩, hg, rfl⟩
      · rw [hstrike]
        exact .inr ⟨List.forall_mem_cons.mpr ⟨hf, hnone⟩, rfl⟩

/-- Where no failure awaits a call, none strikes. -/
theorem strike_of_forall_not (h : ∀ f ∈ failures, ¬f.Awaits primitive path) :
    strike primitive path failures = (none, failures) := by
  rcases strike_cases primitive path failures with ⟨before, f, rest, rfl, -, hf, -⟩ | ⟨-, hstrike⟩
  · exact absurd hf (h f (by simp))
  · exact hstrike

/-- Where none strikes, all failures are left. -/
theorem strike_eq_of_none (h : (strike primitive path failures).1 = none) :
    (strike primitive path failures).2 = failures := by
  rcases strike_cases primitive path failures with
    ⟨before, f, rest, -, -, -, hstrike⟩ | ⟨-, hstrike⟩
  · rw [hstrike] at h
    cases h
  · rw [hstrike]

/-- What holds of all failures, however often they still strike, holds of those left. -/
theorem forall_strike {P : Failure → Prop} (h : ∀ f ∈ failures, P f)
    (hused : ∀ f, f.Awaits primitive path → P f → P f.used) :
    ∀ f ∈ (strike primitive path failures).2, P f := by
  rcases strike_cases primitive path failures with
    ⟨before, f, rest, rfl, -, hf, hstrike⟩ | ⟨-, hstrike⟩
  · rw [hstrike]
    obtain ⟨hbefore, hrest⟩ := List.forall_mem_append.mp h
    obtain ⟨hhere, hrest⟩ := List.forall_mem_cons.mp hrest
    exact List.forall_mem_append.mpr
      ⟨hbefore, List.forall_mem_cons.mpr ⟨hused f hf hhere, hrest⟩⟩
  · rw [hstrike]
    exact h

end Strikes

/-! ### Calls -/

/-- A call is told by the failures and, if none strikes, by the nodes. -/
theorem call_eq (m : Memory) (c : Call) :
    (m.call c).1 = (match (strike c.primitive c.path m.failures).1 with
      | some code => .error code
      | none => (m.nodes.perform c).1) ∧
    (m.call c).2.nodes = (match (strike c.primitive c.path m.failures).1 with
      | some _ => m.nodes
      | none => (m.nodes.perform c).2) ∧
    (m.call c).2.failures = (strike c.primitive c.path m.failures).2 := by
  unfold call enter
  generalize strike c.primitive c.path m.failures = struck
  obtain ⟨code, failures⟩ := struck
  cases code with
  | none => exact ⟨rfl, rfl, rfl⟩
  | some code => exact ⟨rfl, rfl, rfl⟩

/-- A call that fails changes no node. -/
theorem nodes_of_call_error {m m' : Memory} {c : Call} {e : NativeError}
    (h : m.call c = (.error e, m')) : m'.nodes = m.nodes := by
  rcases m.call_nodes c with ⟨-, hresult, hnodes⟩ | ⟨-, -, hnodes⟩
  · rw [h] at hresult hnodes
    exact hnodes.trans (Tree.perform_error hresult.symm)
  · rw [h] at hnodes
    exact hnodes

/-- Whatever the nodes are, a call is recorded. The first failure that awaits it strikes and is used
by that, and where none does, no failure changes and the nodes tell what the call does. A call that
fails, for either reason, changes no node. -/
theorem failed_call_keeps_nodes (m : Memory) (tx : Option Transaction) (c : Call) :
    let outcome := fileSystem.call tx c m
    outcome.2.calls = (c.primitive, c.path) :: m.calls ∧
      ((∃ f ∈ m.failures, f.Awaits c.primitive c.path) →
        ∃ before f rest, m.failures = before ++ f :: rest ∧
          (∀ g ∈ before, ¬g.Awaits c.primitive c.path) ∧ f.Awaits c.primitive c.path ∧
          outcome.1 = .error f.code ∧ outcome.2.failures = before ++ f.used :: rest) ∧
      ((∀ f ∈ m.failures, ¬f.Awaits c.primitive c.path) →
        outcome.1 = (m.nodes.perform c).1 ∧ outcome.2.nodes = (m.nodes.perform c).2 ∧
          outcome.2.failures = m.failures) ∧
      ∀ e, outcome.1 = .error e → outcome.2.nodes = m.nodes := by
  obtain ⟨hresult, hnodes, hfailures⟩ := m.call_eq c
  refine ⟨m.calls_call c, ?struck, ?spared, fun e he => nodes_of_call_error (Prod.ext he rfl)⟩
  case struck =>
    rintro ⟨f, hf, hawaits⟩
    rcases strike_cases c.primitive c.path m.failures with
      ⟨before, g, rest, hsplit, hbefore, hg, hstrike⟩ | ⟨hnone, -⟩
    · rw [hstrike] at hresult hfailures
      exact ⟨before, g, rest, hsplit, hbefore, hg, hresult, hfailures⟩
    · exact absurd hawaits (hnone f hf)
  case spared =>
    intro hnone
    rw [strike_of_forall_not hnone] at hresult hnodes hfailures
    exact ⟨hresult, hnodes, hfailures⟩

/-- The second of two failures strikes a removal, and the nodes do not let a directory take the
place of a file. -/
theorem failed_call_keeps_nodes_struck :
    let m := ((new.addFile "/d/f" 3).addFailure ⟨.deleteFile, "/d/f", .accessDenied, some 0⟩)
      |>.addFailure ⟨.deleteFile, "/d//f", .sharingViolation, some 2⟩
    let removing := Call.deleteFile "/d/f"
    let moving := Call.move "/d" "/d/f" true
    (∃ f ∈ m.failures, f.Awaits removing.primitive removing.path) ∧
      (∀ f ∈ m.failures, ¬f.Awaits moving.primitive moving.path) ∧
      (∃ before f rest, m.failures = before ++ f :: rest ∧
        (∀ g ∈ before, ¬g.Awaits removing.primitive removing.path) ∧
        f.Awaits removing.primitive removing.path ∧ (m.call removing).1 = .error f.code ∧
        (m.call removing).2.failures = before ++ f.used :: rest) ∧
      (m.call removing).1 = .error NativeCode.sharingViolation ∧
      (m.call removing).2.nodes = m.nodes ∧
      (m.call moving).1 = .error NativeCode.notADirectory ∧ (m.call moving).2.nodes = m.nodes ∧
      (m.call moving).2.failures = m.failures := by
  intro m removing moving
  have hawaited : ∃ f ∈ m.failures, f.Awaits removing.primitive removing.path := by decide
  have hspared : ∀ f ∈ m.failures, ¬f.Awaits moving.primitive moving.path := by decide
  obtain ⟨-, hstruck, -, hremoving⟩ := failed_call_keeps_nodes m none removing
  obtain ⟨-, -, hfailures, hmoving⟩ := failed_call_keeps_nodes m none moving
  exact ⟨hawaited, hspared, hstruck hawaited, rfl, hremoving _ rfl, rfl, hmoving _ rfl,
    (hfailures hspared).2.2⟩

end Memory

end TreeOps
