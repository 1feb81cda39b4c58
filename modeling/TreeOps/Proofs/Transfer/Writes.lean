import TreeOps.Proofs.Create
import TreeOps.Proofs.Memory.Keeps
import TreeOps.Proofs.Transfer.Frame

/-!
# Where a copy writes

Whatever fails and however it ends, a copy makes directories where there were none on the way to the
destination, and writes at and below the destination. It replaces nothing there unless it may
overwrite, so a copy that may not only adds nodes.
-/

namespace TreeOps

/-- The calls of a copy to a target: it only looks, makes a directory on the way to the target or
below it, or copies a file or link to below the target. -/
def Call.WritesTo (overwrite : Bool) (target : Place) : Call → Prop
  | .list _ | .query _ => True
  | .createDirectory path => path.components <+: target ∨ target <+: path.components
  | .copy _ path flags => target <+: path.components ∧ flags.overwrite = overwrite
  | _ => False

/-- What a copy to a target may come to: a place is as it was, or a directory was made where there
was none on the way to the target, or the place is at or below the target and held nothing unless
the copy may overwrite. -/
def Tree.Writes (t t' : Tree) (overwrite : Bool) (target : Place) : Prop :=
  ∀ place, t'.lookup place = t.lookup place ∨
    t.lookup place = none ∧ place <+: target ∧ t'.IsDirectoryAt place ∨
    target <+: place ∧ (overwrite = false → t.lookup place = none)

namespace Tree.Writes

variable {t t' : Tree} {overwrite : Bool} {target : Place} {path : Path} {n : Node}

theorem refl (t : Tree) : t.Writes t overwrite target := fun _ => .inl rfl

/-- A place keeps what was written there as long as it stays as it is. -/
theorem of_lookup_eq {t'' : Tree} {place : Place} (h : t.Writes t' overwrite target)
    (heq : t''.lookup place = t'.lookup place) :
    t''.lookup place = t.lookup place ∨
      t.lookup place = none ∧ place <+: target ∧ t''.IsDirectoryAt place ∨
      target <+: place ∧ (overwrite = false → t.lookup place = none) := by
  rw [IsDirectoryAt, heq]
  exact h place

/-- Where nothing is now, there was nothing before, or a copy that may overwrite has been there. -/
theorem eq_none {place : Place} (h : t.Writes t' overwrite target)
    (hnone : t'.lookup place = none) :
    t.lookup place = none ∨ target <+: place ∧ overwrite = true := by
  rcases h place with heq | ⟨-, -, n, hn, -⟩ | ⟨hbelow, hfree⟩
  · exact .inl (heq ▸ hnone)
  · cases hnone.symm.trans hn
  · cases overwrite with
    | false => exact .inl (hfree rfl)
    | true => exact .inr ⟨hbelow, rfl⟩

/-- A directory is made where nothing is. -/
theorem place (h : t.Writes t' overwrite target) (hnone : t'.lookup path.components = none)
    (hpath : path.components <+: target ∨ target <+: path.components) :
    t.Writes (t'.place path .directory) overwrite target := by
  intro place
  have hlookup := t'.lookup_place path .directory place
  by_cases hplace : path.components = place
  · subst hplace
    rw [if_pos rfl] at hlookup
    rcases h.eq_none hnone with hfree | ⟨hbelow, hmay⟩
    · rcases hpath with habove | hbelow
      · exact .inr (.inl ⟨hfree, habove, _, hlookup, rfl⟩)
      · exact .inr (.inr ⟨hbelow, fun _ => hfree⟩)
    · exact .inr (.inr ⟨hbelow, fun hno => by simp [hno] at hmay⟩)
  · rw [if_neg hplace] at hlookup
    exact h.of_lookup_eq hlookup

/-- A file or link is put at or below the target, where nothing is unless it may be overwritten. -/
theorem insert (h : t.Writes t' overwrite target) (hbelow : target <+: path.components)
    (hnone : overwrite = false → t'.lookup path.components = none) :
    t.Writes (t'.insert path n) overwrite target := by
  intro place
  have hlookup := t'.lookup_insert path n place
  by_cases hplace : path.components = place
  · subst hplace
    refine .inr (.inr ⟨hbelow, fun hno => ?_⟩)
    exact (h.eq_none (hnone hno)).resolve_right fun hmay => by simp [hno] at hmay
  · rw [if_neg hplace] at hlookup
    exact h.of_lookup_eq hlookup

theorem perform {c : Call} (h : t.Writes t' overwrite target) (hc : c.WritesTo overwrite target) :
    t.Writes (t'.perform c).2 overwrite target := by
  cases c with
  | list dir => exact h
  | query path => exact h
  | createDirectory path =>
    apply update_keeps (P := (t.Writes · overwrite target)) h
    intro made hmade
    obtain ⟨hnone, -, rfl⟩ := withDirectory_eq_ok.mp hmade
    exact h.place hnone hc
  | copy source path flags =>
    obtain ⟨hbelow, rfl⟩ := hc
    simp only [Tree.perform]
    cases hcopied : t'.withCopy source path flags with
    | error e => exact h
    | ok copied =>
      obtain ⟨bytes, t''⟩ := copied
      obtain ⟨n, -, -, hfree, parent, -, -, rfl⟩ := withCopy_eq_ok.mp hcopied
      exact h.insert hbelow hfree
  | removeDirectory | deleteFile | move | setAttributes | unmount | sameVolume => exact hc.elim

end Tree.Writes

namespace Memory

open Transfer Operation

variable {listener : Listener} {tx : Option Transaction} {flags : CopyFlags}
  {source destination path : Path} {target : Place}

/-! ### The calls of a copy

What each call of a copy keeps, the copy keeps. -/

section Calls

variable {inv : Memory → Prop}
  (hinv : ∀ c : Call, c.WritesTo flags.overwrite target → ∀ m, inv m → inv (m.call c).2)

include hinv

theorem keeps_attempt_copying {c : Call} (hc : c.WritesTo flags.overwrite target) :
    Keeps (answers listener) inv (attempt tx c) :=
  keeps_attempt fun m hm => ⟨hinv c hc m hm, trivial⟩

theorem keeps_perform_copying {c : Call} {error : NativeError → TreeError}
    (hc : c.WritesTo flags.overwrite target) :
    Keeps (answers listener) inv (perform tx c error) :=
  keeps_perform (keeps_attempt fun m hm => ⟨hinv c hc m hm, fun _ _ => trivial⟩)

theorem keeps_createOne (hpath : path.components <+: target ∨ target <+: path.components) :
    Keeps (answers listener) inv (createOne tx path) := by
  apply keeps_bind (keeps_attempt_copying hinv (c := .createDirectory path) hpath)
  intro result _
  cases result with
  | ok _ => exact keeps_note
  | error e =>
    dsimp only
    split
    · apply keeps_bind (keeps_perform_copying hinv (c := .query path) trivial)
      intro existing _
      split
      · exact keeps_pure trivial
      · exact keeps_fail
    · exact keeps_fail

/-- The directories that are missing are among the paths looked at. -/
theorem keeps_missingDirectories (l missing : List Path) :
    Keeps (answers listener) inv (missingDirectories tx l missing) fun result =>
      ∀ p ∈ result, p ∈ l ∨ p ∈ missing := by
  induction l generalizing missing with
  | nil => exact keeps_pure fun p hp => .inr hp
  | cons q l ih =>
    apply keeps_bind (keeps_attempt_copying hinv (c := .query q) trivial)
    intro result _
    cases result with
    | ok e =>
      dsimp only
      split
      · exact keeps_pure fun p hp => .inr hp
      · exact keeps_fail
    | error e =>
      dsimp only
      split
      · apply (ih (q :: missing)).mono
        intro result h p hp
        simpa [or_assoc, or_comm, or_left_comm] using h p hp
      · exact keeps_fail

theorem keeps_createResolved (htarget : path.components = target) :
    Keeps (answers listener) inv (createResolved tx path) := by
  apply keeps_bind (keeps_missingDirectories hinv _ _)
  intro missing hmissing
  apply keeps_forM
  intro p hp
  apply keeps_createOne hinv
  left
  rw [← htarget]
  exact (Path.climbs_namedAncestors path).above ((hmissing p hp).resolve_right (by simp))

omit hinv in
theorem keeps_report {t : Tally} {kind : ProgressKind} {bytes : UInt64} :
    Keeps (answers listener) inv (report t kind source destination bytes) := by
  have hrecord : Keeps (answers listener) inv (record t kind source destination bytes) := by
    apply keeps_bind keeps_progress
    intro action _
    exact keeps_pure trivial
  apply keeps_bind hrecord
  rintro ⟨t', action⟩ _
  cases action with
  | proceed => exact keeps_pure trivial
  | cancel => exact keeps_seq keeps_note (keeps_pure trivial)

theorem keeps_copyLeaf {e : Entry} {asLink : Bool} {t : Tally}
    (hbelow : target <+: path.components) :
    Keeps (answers listener) inv (copyLeaf tx flags e path asLink t) := by
  have hcopy : (Call.copy e.path path { flags with copySymlink := asLink }).WritesTo
      flags.overwrite target := ⟨hbelow, rfl⟩
  apply keeps_bind (keeps_perform_copying hinv hcopy)
  intro bytes _
  exact keeps_seq keeps_note keeps_report

theorem keeps_copyEntry {copyBelow : Path → Path → Tally → Operation Tally}
    (hcopy : ∀ source destination t, target <+: destination.components →
      Keeps (answers listener) inv (copyBelow source destination t))
    {e : Entry} {b : Bytes} (hname : IsName b) (htext : e.name = Utf8.lossy b) (t : Tally)
    (hbelow : target <+: destination.components) :
    Keeps (answers listener) inv (copyEntry tx flags copyBelow destination t e) := by
  have hchild : target <+: (destination.child (Utf8.encode e.name)).components := by
    rw [htext, components_copied destination hname]
    exact hbelow.trans (List.prefix_append _ _)
  unfold copyEntry
  dsimp only
  split
  · exact keeps_pure trivial
  · split
    · exact keeps_copyLeaf hinv hchild
    · split
      · exact hcopy _ _ t hchild
      · exact keeps_copyLeaf hinv hchild

theorem keeps_copyContents {copyBelow : Path → Path → Tally → Operation Tally}
    (hcopy : ∀ source destination t, target <+: destination.components →
      Keeps (answers listener) inv (copyBelow source destination t))
    (t : Tally) (hbelow : target <+: destination.components) :
    Keeps (answers listener) inv (copyContents tx flags copyBelow source destination t) := by
  apply keeps_bind keeps_report
  intro t _
  split
  · exact keeps_pure trivial
  · have hentries : Keeps (answers listener) inv (childEntries tx source) fun entries =>
        ∀ e ∈ entries, ∃ b, IsName b ∧ e.name = Utf8.lossy b := by
      apply keeps_childEntries (hinv (.list source) trivial)
      intro m _ e he
      obtain ⟨b, -, hname, -, htext, -⟩ := Tree.exists_of_mem_entriesOf he
      exact ⟨b, hname, htext⟩
    apply keeps_bind hentries
    intro entries hnames
    apply keeps_foldlM
    intro t e he
    obtain ⟨b, hname, htext⟩ := hnames e he
    exact keeps_copyEntry hinv hcopy hname htext t hbelow

theorem keeps_copyTree (levels : Nat) (isRoot : Bool) (source destination : Path) (t : Tally)
    (hbelow : target <+: destination.components)
    (hroot : isRoot = true → destination.components = target) :
    Keeps (answers listener) inv (copyTree tx flags levels isRoot source destination t) := by
  induction levels generalizing isRoot source destination t with
  | zero => exact keeps_throw
  | succ levels ih =>
    have hcontents : Keeps (answers listener) inv
        (copyContents tx flags (copyTree tx flags levels false) source destination t) := by
      apply keeps_copyContents hinv _ t hbelow
      intro source destination t h
      exact ih false source destination t h (by simp)
    cases isRoot with
    | false =>
      rw [copyTree_inner]
      exact keeps_seq (keeps_createOne hinv (.inr hbelow)) hcontents
    | true =>
      rw [copyTree_root]
      exact keeps_seq (keeps_createResolved hinv (hroot rfl)) hcontents

end Calls

/-- A copy is refused before it makes a call if its paths are not apart up to case, and otherwise
keeps what its calls keep. -/
theorem keeps_copyOrMove {inv : Memory → Prop} {levels : Nat} {opts : TransferOptions}
    {copy : CopyOptions} (hmode : opts.mode = .ok (.copy copy))
    (hinv : Apart source.foldedComponents destination.foldedComponents →
      ∀ c : Call, c.WritesTo copy.overwriteExisting destination.components →
        ∀ m, inv m → inv (m.call c).2) :
    Keeps (answers listener) inv (copyOrMove levels opts source destination) := by
  unfold copyOrMove
  rw [hmode]
  apply keeps_bind keeps_resolve
  intro _ hsource
  apply keeps_bind keeps_resolve
  intro _ hdestination
  rw [hsource, hdestination]
  split
  · exact keeps_fail
  · next hoverlap =>
    replace hinv := hinv (overlap_eq_none_iff.mp hoverlap)
    let flags : CopyFlags :=
      { overwrite := copy.overwriteExisting, copySymlink := false
        preserveTimestamps := copy.preserveTimestamps }
    have hquery : (Call.query source).WritesTo flags.overwrite destination.components := trivial
    apply keeps_bind (keeps_perform_copying hinv hquery)
    intro info _
    split
    · exact keeps_fail
    · apply keeps_seq keeps_note
      have htree : Keeps (answers listener) inv
          (copyTree opts.transaction flags levels true source destination {}) :=
        keeps_copyTree hinv levels true source destination {} (List.prefix_refl _) fun _ => rfl
      apply keeps_bind htree
      intro t _
      exact keeps_pure trivial

/-! ### Runs -/

/-- Where a copy writes, whatever fails and however it ends. -/
structure WritesOnly (t t' : Tree) (overwrite : Bool) (source destination : Place) : Prop where
  unchanged : ∀ place n, t.lookup place = some n → ¬destination <+: place →
    t'.lookup place = some n
  source : ∀ way, t'.lookup (source ++ way) = t.lookup (source ++ way)
  made : ∀ place n, t.lookup place = none → t'.lookup place = some n → ¬destination <+: place →
    place <+: destination ∧ n.kind = .directory
  added : overwrite = false → ∀ place n, t.lookup place = some n → t'.lookup place = some n

/-- A copy to a target does not write to what is apart from the target. -/
theorem lookup_eq_of_writes {t t' : Tree} {overwrite : Bool} {source target : Place}
    (h : t.Writes t' overwrite target) (hapart : Apart source target) (way : Place) :
    t'.lookup (source ++ way) = t.lookup (source ++ way) := by
  have haway := hapart.below way
  rcases h (source ++ way) with heq | ⟨-, habove, -⟩ | ⟨hbelow, -⟩
  · exact heq
  · exact (haway.1 habove).elim
  · exact (haway.2 hbelow).elim

theorem writesOnly_of_writes {t t' : Tree} {overwrite : Bool} {source destination : Place}
    (h : t.Writes t' overwrite destination)
    (hsource : ∀ way, t'.lookup (source ++ way) = t.lookup (source ++ way)) :
    WritesOnly t t' overwrite source destination where
  source := hsource
  unchanged := by
    intro place n hn hout
    rcases h place with heq | ⟨hnone, -⟩ | ⟨hbelow, -⟩
    · rw [heq, hn]
    · cases hnone.symm.trans hn
    · exact (hout hbelow).elim
  made := by
    intro place n hnone hn hout
    rcases h place with heq | ⟨-, habove, n', hn', hkind⟩ | ⟨hbelow, -⟩
    · cases hn.symm.trans (heq.trans hnone)
    · obtain rfl := Option.some.inj (hn.symm.trans hn')
      exact ⟨habove, hkind⟩
    · exact (hout hbelow).elim
  added := by
    intro hno place n hn
    rcases h place with heq | ⟨hnone, -⟩ | ⟨-, hfree⟩
    · rw [heq, hn]
    · cases hnone.symm.trans hn
    · cases (hfree hno).symm.trans hn

/-- Whatever failures are scripted, wherever the listener cancels and however the copy ends, it
writes at and below the destination only, apart from directories that were missing on the way there.
If it may not overwrite, it only adds nodes. -/
theorem copy_writes_only (m : Memory) (listener : Listener) (levels : Nat) (opts : TransferOptions)
    (copy : CopyOptions) (source destination : Path) (hmode : opts.mode = .ok (.copy copy)) :
    WritesOnly m.nodes (m.runs listener (copyOrMove levels opts source destination)).memory.nodes
      copy.overwriteExisting source.components destination.components := by
  -- The source is kept because no call is made at all when it is not apart from the destination.
  let inv (m' : Memory) : Prop :=
    m.nodes.Writes m'.nodes copy.overwriteExisting destination.components ∧
      (¬Apart source.foldedComponents destination.foldedComponents → m'.nodes = m.nodes)
  have hinv (hapart : Apart source.foldedComponents destination.foldedComponents) (c : Call)
      (hc : c.WritesTo copy.overwriteExisting destination.components) (m' : Memory)
      (hm : inv m') : inv (m'.call c).2 := by
    refine ⟨?_, fun h => (h hapart).elim⟩
    rcases m'.nodes_call c with h | h
    · exact h ▸ hm.1
    · exact h ▸ hm.1.perform hc
  obtain ⟨hwrites, hstays⟩ : inv (m.runs listener _).memory :=
    keeps_runs (keeps_copyOrMove hmode hinv) ⟨.refl _, fun _ => rfl⟩
  apply writesOnly_of_writes hwrites
  intro way
  by_cases hapart : Apart source.foldedComponents destination.foldedComponents
  · exact lookup_eq_of_writes hwrites (Path.apart hapart) way
  · rw [hstays hapart]

/-- A copy into a full directory that may not overwrite and fails at the file in its way. -/
theorem copy_writes_only_merging :
    let m := (((new.addFile "/s/f" 3).addFile "/s/g" 4).addFile "/d/g" 5).addFailure
      ⟨.copy, "/s/g", .accessDenied, some 1⟩
    let run := m.runs {} (copyOrMove m.levels { copy := some {} } "/s" "/d")
    WritesOnly m.nodes run.memory.nodes false (Path.components "/s") (Path.components "/d") :=
  copy_writes_only _ _ _ _ {} _ _ rfl

end Memory

end TreeOps
