import TreeOps.Proofs.Removal.Single

/-!
# Deleting one file

A file that is deleted is gone and nothing else has changed. What cannot be deleted is a directory,
or a file whose read-only attribute stands and may not be cleared, and then nothing has changed,
with one exception: the denial of a read-only directory looks like that of a read-only file, so its
attribute is cleared before the second attempt shows that it is no file.
-/

namespace TreeOps

/-- A node without its read-only attribute. -/
def Node.cleared (n : Node) : Node := n.withAttributes (n.shownAttributes.without .readOnly)

theorem Node.isReadOnly_cleared (n : Node) : n.cleared.attributes.isReadOnly = false :=
  Attributes.isReadOnly_neutral_without _

namespace Tree

variable {t t' : Tree} {path : Path} {n : Node} {ignoreReadOnly : Bool}

/-- Nothing at a path keeps a file from being deleted: what is there is no directory, and if it is
read-only, that may be cleared. -/
def Deletable (t : Tree) (path : Path) (ignoreReadOnly : Bool) : Prop :=
  ∀ n, t.lookup path.components = some n →
    n.kind ≠ .directory ∧ (n.attributes.isReadOnly = true → ignoreReadOnly = true)

/-- A read-only directory is at a path. -/
def IsReadOnlyDirectory (t : Tree) (path : Path) : Prop :=
  ∃ n, t.lookup path.components = some n ∧ n.kind = .directory ∧ n.attributes.isReadOnly = true

theorem deletable_of_none (hnone : t.lookup path.components = none) :
    t.Deletable path ignoreReadOnly := by
  intro n hn
  cases hnone.symm.trans hn

theorem deletable_iff (hn : t.lookup path.components = some n) :
    t.Deletable path ignoreReadOnly ↔
      n.kind ≠ .directory ∧ (n.attributes.isReadOnly = true → ignoreReadOnly = true) := by
  simp [Deletable, hn]

/-- What the delete of a file leaves of the nodes when it fails: all of them, but a read-only
directory without its attribute if that could be cleared. -/
structure Refused (t t' : Tree) (path : Path) (ignoreReadOnly : Bool) : Prop where
  cleared : ignoreReadOnly = true → ∀ n, t.lookup path.components = some n → n.kind = .directory →
    n.attributes.isReadOnly = true → t.With t' path n.cleared
  kept : ¬(ignoreReadOnly = true ∧ t.IsReadOnlyDirectory path) → t' = t

/-- Nothing has changed unless the attribute of a directory was cleared. -/
theorem Refused.eq_iff (h : t.Refused t' path ignoreReadOnly) :
    t' = t ↔ ¬(ignoreReadOnly = true ∧ t.IsReadOnlyDirectory path) := by
  refine ⟨?_, h.kept⟩
  rintro rfl ⟨hignore, n, hn, hk, hreadOnly⟩
  have hwith := h.cleared hignore n hn hk hreadOnly
  have hsame : n = n.cleared := Option.some.inj (hn.symm.trans hwith.node)
  have hcleared := n.isReadOnly_cleared
  rw [← hsame, hreadOnly] at hcleared
  cases hcleared

end Tree

namespace Memory

open Removal Operation

variable {canceling : Prop} {s : Scene} {tx : Option Transaction} {path : Path} {n : Node}
  {ignoreReadOnly : Bool} {attributes : Attributes}

/-- A directory, or what is read-only, is denied. -/
theorem ensures_attemptDelete {err : Halt → Scene → Prop}
    {ok : Except NativeError Unit → Scene → Prop} (hn : s.nodes.lookup path.components = some n)
    (hk : n.kind = .directory ∨ n.attributes.isReadOnly = true)
    (hok : ok (.error (NativeCode.accessDenied : NativeError)) s) :
    Ensures (Replies False canceling) (attempt tx (.deleteFile path)) s ok err := by
  refine ensures_attempt_error ?_ hok
  change (s.nodes.update (s.nodes.withoutFile path)).1 = _
  rw [Tree.withoutFile_denied hn hk]
  rfl

/-- A read-only directory is denied again when its attribute is cleared. -/
theorem ensures_deleteCleared (hn : s.nodes.lookup path.components = some n)
    (hk : n.kind = .directory) :
    Ensures (Replies False canceling) (deleteCleared tx path n.shownAttributes) s
      (fun _ _ => False) (fun _ s' => s.nodes.With s'.nodes path n.cleared) := by
  have hcleared : Leaves canceling (clearReadOnly tx path n.shownAttributes) s
      (· = s.nodes.modify path (Node.withAttributes · (n.shownAttributes.without .readOnly))) :=
    leaves_clearReadOnly hn
  unfold deleteCleared
  rw [Operation.ensures_bind]
  refine hcleared.mono ?_ fun _ _ hno => hno.elim
  rintro _ s' ⟨-, hnodes⟩
  have hwith : s.nodes.With s'.nodes path n.cleared := hnodes ▸ (Tree.With.self hn).modify _
  rw [Operation.ensures_bind]
  refine ensures_attemptDelete hwith.node (.inl hk) ?_
  dsimp only
  rw [if_neg (by simp [NativeCode.isNotFound])]
  exact ensures_fail.mpr hwith

/-- A directory is not deleted as a file. -/
theorem ensures_removeFile_directory (hn : s.nodes.lookup path.components = some n)
    (hk : n.kind = .directory) :
    Ensures (Replies False canceling) (removeFile tx path n.shownAttributes ignoreReadOnly) s
      (fun _ _ => False) (fun _ s' => s.nodes.Refused s'.nodes path ignoreReadOnly) := by
  have hkept (hnot : n.attributes.isReadOnly = true → ignoreReadOnly = false) :
      s.nodes.Refused s.nodes path ignoreReadOnly := by
    refine ⟨fun hignore n' hn' _ hreadOnly => ?_, fun _ => rfl⟩
    obtain rfl := Option.some.inj (hn.symm.trans hn')
    cases hignore.symm.trans (hnot hreadOnly)
  unfold removeFile
  rw [n.isReadOnly_shownAttributes]
  split
  · next hset =>
    simp only [Bool.and_eq_true, Bool.not_eq_true'] at hset
    exact ensures_fail.mpr (hkept fun _ => hset.2)
  · next hset =>
    rw [Operation.ensures_bind]
    refine ensures_attemptDelete hn (.inl hk) ?_
    dsimp only
    rw [if_neg (by simp [NativeCode.isNotFound])]
    split
    · next hreadOnly =>
      have hset' : n.attributes.isReadOnly = true := by simpa using hreadOnly
      refine (ensures_deleteCleared hn hk).mono (fun _ _ => id) fun _ s' hwith => ?_
      refine ⟨fun _ n' hn' _ _ => ?_, fun hnot => (hnot ⟨?_, n, hn, hk, hset'⟩).elim⟩
      · rwa [← Option.some.inj (hn.symm.trans hn')]
      · simpa [hset'] using hset
    · next hwritable =>
      refine ensures_fail.mpr (hkept fun hreadOnly => ?_)
      simp [hreadOnly] at hwritable

/-- A file is deleted unless its attribute may not be cleared, and is kept then. -/
theorem ensures_removeFile_file (hn : s.nodes.lookup path.components = some n)
    (hk : n.kind ≠ .directory) :
    Ensures (Replies False canceling) (removeFile tx path n.shownAttributes ignoreReadOnly) s
      (fun _ s' => s.nodes.Deletable path ignoreReadOnly ∧ s.nodes.Erased s'.nodes path)
      (fun _ s' => ¬s.nodes.Deletable path ignoreReadOnly ∧ s' = s) := by
  have hattributes := n.isReadOnly_shownAttributes
  by_cases hdeletable : n.attributes.isReadOnly = true → ignoreReadOnly = true
  · have herased : Leaves canceling (removeFile tx path n.shownAttributes ignoreReadOnly) s
        (s.nodes.Erased · path) := by
      cases hreadOnly : n.attributes.isReadOnly with
      | false => exact leaves_eraseWritable hn hk hattributes hreadOnly
      | true =>
        rw [hdeletable hreadOnly]
        exact leaves_eraseFile hn hk hattributes
    refine herased.mono ?_ fun _ _ hno => hno.elim
    rintro _ s' ⟨-, h⟩
    exact ⟨(Tree.deletable_iff hn).mpr ⟨hk, hdeletable⟩, h⟩
  · obtain ⟨hset, hignore⟩ := Classical.not_imp.mp hdeletable
    unfold removeFile
    rw [if_pos (by simp [hattributes, hset, hignore])]
    refine ensures_fail.mpr ⟨fun h => hdeletable ((Tree.deletable_iff hn).mp h).2, rfl⟩

/-- A delete of one file succeeds exactly if the file can be deleted. -/
theorem ensures_deleteFile :
    Ensures (Replies False canceling) (deleteFile tx path ignoreReadOnly) s
      (fun _ s' => s.nodes.Deletable path ignoreReadOnly ∧ s.nodes.Erased s'.nodes path)
      (fun _ s' => ¬s.nodes.Deletable path ignoreReadOnly ∧
        s.nodes.Refused s'.nodes path ignoreReadOnly) := by
  unfold deleteFile
  rw [Operation.ensures_bind, ensures_resolve, Operation.ensures_bind, ensures_attempt]
  constructor
  · intro info hentry
    obtain ⟨n, hn, rfl⟩ := Tree.entry_eq_ok.mp hentry
    have hattributes := (n.describes_entryAt path).attributes
    dsimp only
    rw [hattributes]
    by_cases hk : n.kind = .directory
    · refine (ensures_removeFile_directory hn hk).mono (fun _ _ hno => hno.elim) fun _ s' h => ?_
      exact ⟨fun hdeletable => ((Tree.deletable_iff hn).mp hdeletable).1 hk, h⟩
    · refine (ensures_removeFile_file hn hk).mono (fun _ _ => id) ?_
      rintro _ s' ⟨hnot, rfl⟩
      refine ⟨hnot, fun _ n' hn' hk' _ => ?_, fun _ => rfl⟩
      obtain rfl := Option.some.inj (hn.symm.trans hn')
      exact absurd hk' hk
  · intro e he
    obtain ⟨hnone, rfl⟩ := Tree.entry_eq_error.mp (he.resolve_left id)
    refine ensures_pure.mpr ⟨Tree.deletable_of_none hnone, fun place => ?_⟩
    split
    · next heq => rw [← heq, hnone]
    · rfl

/-- A delete of one file where no failure is scripted succeeds exactly if what is at the path is no
directory and is not read-only, or may be cleared of that. If it succeeds, nothing is at the path
and everything else is as it was. If it fails, everything is as it was exactly if it may not clear
attributes or no read-only directory is at the path; such a directory loses its attribute. -/
theorem failed_file_delete_keeps_iff (m : Memory) (listener : Listener) (tx : Option Transaction)
    (path : Path) (ignoreReadOnly : Bool) (hcalm : m.failures = []) :
    let run := m.runs listener (deleteFile tx path ignoreReadOnly)
    let after := run.memory.nodes
    (run.result = .ok () ↔ m.nodes.Deletable path ignoreReadOnly) ∧
      (run.result = .ok () → m.nodes.Erased after path) ∧
      (run.result ≠ .ok () → m.nodes.Refused after path ignoreReadOnly ∧
        (after = m.nodes ↔ ¬(ignoreReadOnly = true ∧ m.nodes.IsReadOnlyDirectory path))) := by
  intro run after
  have hends : Ends _ _ run.result run.scene :=
    ends_runs listener (.inr hcalm) (fun _ _ => (trivial : True)) ensures_deleteFile
  cases hresult : run.result with
  | ok _ =>
    rw [hresult] at hends
    obtain ⟨hdeletable, herased⟩ := hends
    exact ⟨iff_of_true rfl hdeletable, fun _ => herased, fun hfailed => absurd rfl hfailed⟩
  | error halt =>
    rw [hresult] at hends
    obtain ⟨hnot, hrefused⟩ := hends
    exact ⟨iff_of_false nofun hnot, nofun, fun _ => ⟨hrefused, hrefused.eq_iff⟩⟩

/-- A read-only link is deleted when its attribute may be cleared. -/
theorem failed_file_delete_keeps_iff_link :
    let m := (new.addLink "/d/l" true).setReadOnly "/d/l"
    let run := m.runs {} (deleteFile none "/d/l" true)
    let after := run.memory.nodes
    m.failures = [] ∧ run.result.isOk = true ∧
      (run.result = .ok () ↔ m.nodes.Deletable "/d/l" true) ∧
      (run.result = .ok () → m.nodes.Erased after "/d/l") ∧
      (run.result ≠ .ok () → m.nodes.Refused after "/d/l" true ∧
        (after = m.nodes ↔ ¬(true = true ∧ m.nodes.IsReadOnlyDirectory "/d/l"))) :=
  ⟨rfl, by decide +kernel, failed_file_delete_keeps_iff _ {} none "/d/l" true rfl⟩

/-- A delete of a read-only directory as a file fails, and its attribute is gone then. -/
theorem failed_file_delete_clears_directory :
    let m := (new.addDirectory "/d").setReadOnly "/d"
    let run := m.runs {} (deleteFile none "/d" true)
    m.nodes.WellFormed ∧ m.failures = [] ∧
      run.result.isOk = false ∧
      (m.nodes.lookup (Path.components "/d")).map (·.attributes.isReadOnly) = some true ∧
      (run.memory.nodes.lookup (Path.components "/d")).map (·.attributes.isReadOnly) =
        some false :=
  ⟨by decide, rfl, by decide +kernel, by decide +kernel, by decide +kernel⟩

end Memory

end TreeOps
