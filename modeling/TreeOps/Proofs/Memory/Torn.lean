import TreeOps.Proofs.Memory.Closed
import TreeOps.Proofs.Memory.Replies

/-!
# Calls that tear a tree

A call keeps a well-formed tree well-formed unless it succeeds in one of two ways: a copy takes the
place of a directory that has something in it, or a rename leads below its own source. Then what was
in the directory, or the subtree that was renamed, lies in no directory any more.
-/

namespace TreeOps

namespace Call

/-- The paths of a call. -/
def paths : Call → List Path
  | list p | query p | createDirectory p | removeDirectory p | deleteFile p | setAttributes p _
  | unmount p => [p]
  | move p q _ | copy p q _ | sameVolume p q => [p, q]

/-- Every path of a call is absolute and goes on with names only. -/
def IsNormal (c : Call) : Prop := ∀ p ∈ c.paths, p.isNormal = true

/-- What a call would have to leave without a directory above it: it copies over a directory that
has something in it, or renames to below what it renames. -/
def Tears (t : Tree) : Call → Prop
  | copy _ destination _ => t.hasChildren destination = true
  | move source destination _ =>
    source.components <+: destination.components ∧ source.components ≠ destination.components
  | _ => False

instance (c : Call) : Decidable c.IsNormal :=
  inferInstanceAs (Decidable (∀ p ∈ c.paths, p.isNormal = true))

instance (t : Tree) (c : Call) : Decidable (c.Tears t) := by
  cases c <;> unfold Tears <;> infer_instance

end Call

theorem Path.byNames_of_isNormal {p : Path} (h : p.isNormal = true) :
    ByNames (fun _ => True) p.components := by
  obtain ⟨way, hway, hnames⟩ := isNormal_iff.mp h
  refine ⟨way, hway, fun c hc => ?_⟩
  obtain ⟨b, rfl⟩ := hnames c hc
  exact ⟨b, rfl, trivial⟩

namespace Tree

variable {t t' : Tree} {c : Call} {source destination : Path}

/-- What does not tear a tree is safe, as far as it succeeds. -/
theorem isSafeFor_of_not_tears (hc : c.IsNormal) (hwhole : ¬c.Tears t) :
    c.IsSafeFor (fun _ => True) t := by
  cases c with
  | createDirectory path => exact Path.byNames_of_isNormal (hc path (by simp [Call.paths]))
  | copy source destination flags =>
    refine ⟨Path.byNames_of_isNormal (hc destination (by simp [Call.paths])), fun _ b => ?_⟩
    exact hasChildren_eq_false.mp (Bool.not_eq_true _ ▸ hwhole) (.name b) (by simp)
  | move source destination replace =>
    exact ⟨Path.byNames_of_isNormal (hc destination (by simp [Call.paths])), hwhole⟩
  | list | query | removeDirectory | deleteFile | setAttributes | unmount | sameVolume => trivial

/-- What was in a directory that a copy took the place of lies in no directory any more. -/
theorem not_wellFormed_of_copied {flags : CopyFlags} {bytes : UInt64}
    (hcopied : t.withCopy source destination flags = .ok (bytes, t'))
    (hnormal : destination.isNormal = true) (hchildren : t.hasChildren destination = true) :
    ¬t'.WellFormed := by
  intro hwf
  obtain ⟨n, -, hk, -, parent, -, -, rfl⟩ := withCopy_eq_ok.mp hcopied
  obtain ⟨c, m, hm⟩ := exists_of_hasChildren hchildren
  have hinserted := t.lookup_insert destination { n with volume := parent.volume, mounted := false }
  have hchild := hinserted (destination.components ++ [c])
  rw [if_neg (by simp), hm] at hchild
  have hhere := hinserted destination.components
  rw [if_pos rfl] at hhere
  have hdir := hwf.directory_above hchild (Path.byNames_of_isNormal hnormal).ne_nil
  exact not_isDirectoryAt hhere hk hdir

/-- A subtree that was renamed to below itself lies in no directory any more. -/
theorem not_wellFormed_of_moved {replace : Bool} (hwf : t.WellFormed)
    (hmoved : t.withMoved source destination replace = .ok t')
    (hbelow : source.components <+: destination.components)
    (hne : source.components ≠ destination.components) : ¬t'.WellFormed := by
  intro hwf'
  obtain ⟨n, parent, hn, hparent, -, v, hv, rfl⟩ := withMoved_eq_ok.mp hmoved
  obtain ⟨-, base, c, -, hplace, -⟩ := exists_of_parentDirectory_eq_ok hparent
  have hsource := hwf.ne_nil hn
  rw [hplace] at hbelow hne
  have habove : source.components <+: base :=
    (List.prefix_concat_iff.mp hbelow).resolve_left hne
  -- The renamed node is at the destination, and the directory above it was renamed along.
  have hvacated : v.lookup source.components = some n :=
    (agreeOutside_vacated hv _ (by rw [hplace]; exact hne.symm)).trans hn
  have hthere : (v.relocate source destination).lookup (base ++ [c]) = some n := by
    rw [← hplace, ← List.append_nil destination.components, lookup_relocate_below hsource,
      List.append_nil, hvacated, Option.some_or]
  have hgone : (v.relocate source destination).lookup base = none := by
    rw [lookup_relocate_of_not_below hsource (hplace ▸ concat_not_prefix_self), if_pos habove]
  have hbase : base ≠ [] := by
    rintro rfl
    exact hsource (List.prefix_nil.mp habove)
  obtain ⟨d, hd, -⟩ := hwf'.directory_above hthere hbase
  cases hgone.symm.trans hd

/-- A call keeps a well-formed tree well-formed exactly if it does not succeed in tearing it. -/
theorem WellFormed.perform_iff (h : t.WellFormed) (hc : c.IsNormal) :
    (t.perform c).2.WellFormed ↔ ¬((∃ value, (t.perform c).1 = .ok value) ∧ c.Tears t) := by
  constructor
  · rintro hwf ⟨⟨value, hvalue⟩, htears⟩
    cases c with
    | copy source destination flags =>
      simp only [perform] at hwf hvalue
      cases hcopied : t.withCopy source destination flags with
      | error e =>
        rw [hcopied] at hvalue
        cases hvalue
      | ok copied =>
        rw [hcopied] at hwf
        exact not_wellFormed_of_copied hcopied (hc destination (by simp [Call.paths])) htears hwf
    | move source destination replace =>
      exact not_wellFormed_of_moved h (update_ok hvalue) htears.1 htears.2 hwf
    | list | query | createDirectory | removeDirectory | deleteFile | setAttributes | unmount
    | sameVolume => exact htears
  · intro hnot
    cases hresult : (t.perform c).1 with
    | error e =>
      rw [perform_error hresult]
      exact h
    | ok value =>
      have hwhole : ¬c.Tears t := fun htears => hnot ⟨⟨value, hresult⟩, htears⟩
      exact ((closed_iff.mpr h).perform (isSafeFor_of_not_tears hc hwhole)).wellFormed

end Tree

namespace Memory

/-- Whatever failures are scripted, a call with absolute paths of names keeps the nodes well-formed,
unless it succeeds in copying over a directory that has something in it, or in renaming to below
what it renames. Then the nodes are not well-formed any more. -/
theorem call_wellFormed_iff (m : Memory) (c : Call) (hwf : m.nodes.WellFormed) (hc : c.IsNormal) :
    (m.call c).2.nodes.WellFormed ↔
      ¬((∃ value, (m.call c).1 = .ok value) ∧ c.Tears m.nodes) := by
  rcases m.call_nodes c with ⟨-, hresult, hnodes⟩ | ⟨-, ⟨e, he⟩, hnodes⟩
  · rw [hresult, hnodes]
    exact hwf.perform_iff hc
  · simp [hnodes, he, hwf]

/-- A rename over an empty directory, and the failures of a copy over a full one. -/
theorem call_wellFormed_iff_replacing :
    let m := ((new.addFile "/a/f" 3).addDirectory "/b").addFailure
      ⟨.copy, "/a/f", .accessDenied, some 1⟩
    let moving := Call.move "/a" "/b" true
    let copying := Call.copy "/a/f" "/a" { overwrite := true }
    m.nodes.WellFormed ∧ moving.IsNormal ∧ copying.IsNormal ∧
      ((m.call moving).2.nodes.WellFormed ↔
        ¬((∃ value, (m.call moving).1 = .ok value) ∧ moving.Tears m.nodes)) ∧
      ((m.call copying).2.nodes.WellFormed ↔
        ¬((∃ value, (m.call copying).1 = .ok value) ∧ copying.Tears m.nodes)) :=
  ⟨by decide, by decide, by decide, call_wellFormed_iff _ _ (by decide) (by decide),
    call_wellFormed_iff _ _ (by decide) (by decide)⟩

/-- A copy takes the place of a directory with a file in it, and a directory is renamed to below
itself; both calls succeed. -/
theorem call_tears_tree :
    let m := (new.addFile "/d/f" 3).addFile "/g" 5
    let copying := Call.copy "/g" "/d" { overwrite := true }
    let moving := Call.move "/d" "/d/e" false
    m.nodes.WellFormed ∧ copying.IsNormal ∧ moving.IsNormal ∧
      (m.call copying).1.isOk = true ∧ ¬(m.call copying).2.nodes.WellFormed ∧
      (m.call moving).1.isOk = true ∧ ¬(m.call moving).2.nodes.WellFormed := by
  decide +kernel

end Memory

end TreeOps
