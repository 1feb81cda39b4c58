import TreeOps.Proofs.Errors.Copies
import TreeOps.Proofs.Reachable
import TreeOps.Proofs.Transfer.Phases
import TreeOps.Proofs.Transfer.Whole

/-!
# Errors name the path that they are about

Without failures, an error that says that a path is missing, present, no directory or not empty is
true of the nodes that an operation leaves. A copy and a rename have two paths, and there the error
can name the wrong one: where the target lies in no directory, the call says that a path is missing
and means the parent of the target, but the error names the source. This is the only way in which an
error can be untrue.
-/

namespace TreeOps

namespace Tree

variable {t : Tree} {source destination : Path} {n : Node}

/-- Something at or below the source cannot be put at its place at the destination, since that place
lies in no directory. -/
def Stranded (t : Tree) (source destination p : Path) : Prop :=
  ∃ way n, p.components = source.components ++ way ∧ t.lookup p.components = some n ∧
    ¬t.IsDirectoryAt (destination.components ++ way).dropLast

theorem stranded_of_parentDirectory_error {p target : Path} {way : Place} {e : NativeError}
    (hn : t.lookup p.components = some n) (hp : p.components = source.components ++ way)
    (htarget : target.components = destination.components ++ way)
    (hlast : ∃ base c, c ≠ .root ∧ target.components = base ++ [c])
    (h : t.parentDirectory target = .error e) : t.Stranded source destination p := by
  refine ⟨way, n, hp, hn, ?_⟩
  obtain ⟨base, c, hc, hplace⟩ := hlast
  rw [← htarget, hplace, List.dropLast_concat]
  rintro ⟨d, hd, hk⟩
  rw [parentDirectory_eq_ok hplace hc hd hk] at h
  cases h

theorem withCopy_of_missing {flags : CopyFlags} (hn : t.lookup source.components = none) :
    t.withCopy source destination flags = .error (NativeCode.fileNotFound : NativeError) := by
  unfold withCopy
  rw [node_eq_error hn]
  rfl

/-- A copy whose source is there fails because that is a directory, or because its target is taken
or lies in no directory. -/
theorem cases_of_withCopy_error {flags : CopyFlags} {e : NativeError}
    (hn : t.lookup source.components = some n)
    (h : t.withCopy source destination flags = .error e) :
    e.code = .accessDenied ∨
      e.code = .fileExists ∧ (∃ target, t.lookup destination.components = some target) ∨
      e.code = .pathNotFound ∧ ∃ e', t.parentDirectory destination = .error e' := by
  unfold withCopy at h
  rw [PathMap.contains_eq] at h
  simp only [bind, Except.bind, node_eq_ok.mpr hn] at h
  by_cases hk : n.kind = .directory
  · simp only [hk, if_true] at h
    obtain rfl := Except.error.inj h
    exact .inl rfl
  · simp only [hk, if_false, pure, Except.pure] at h
    by_cases htaken : ((t.lookup destination.components).isSome && !flags.overwrite) = true
    · rw [if_pos htaken] at h
      obtain rfl := Except.error.inj h
      rw [Bool.and_eq_true] at htaken
      exact .inr (.inl ⟨rfl, Option.isSome_iff_exists.mp htaken.1⟩)
    · rw [if_neg htaken] at h
      cases hparent : t.parentDirectory destination with
      | error e' =>
        rw [hparent] at h
        obtain rfl := Except.error.inj h
        exact .inr (.inr ⟨parentDirectory_error hparent, _, rfl⟩)
      | ok parent =>
        rw [hparent] at h
        cases h

/-- What changes only along a place apart leaves names as they are. -/
theorem AgreeOutside.textual {t' : Tree} {place target : Place} (happart : Apart place target)
    (hagree : AgreeOutside (fun p => target <+: p ∨ p <+: target) t t')
    (h : Textual (t.branch place)) : Textual (t'.branch place) := by
  have heq : t'.branch place = t.branch place := funext fun way => happart.lookup_eq hagree way
  exact heq ▸ h

end Tree

namespace Memory

open Removal Transfer Operation

/-- What the errors of a transfer tell is true, or something could not be put at its place. -/
def Reported (source destination : Path) : Halt → Scene → Prop
  | .failed e, s => e.IsTrueOf s.nodes ∨
      ∃ p, e = .notFound p ∧ s.nodes.Stranded source destination p
  | .tooDeep, _ => True

variable {tx : Option Transaction} {flags : CopyFlags} {s : Scene} {source destination : Path}
  {opts : TransferOptions} {m : MoveOptions} {levels : Nat} {t : Tally}

theorem admits_reported : Admits False (fun _ => True) (Reported source destination) :=
  fun _ _ _ _ h => .inl (h.resolve_left id)

/-! ### Copying and moving -/

section Transfer

variable (happart : Apart source.components destination.components)
include happart

/-- What a copy puts at its place lies as far below the destination as its source lies below the
source of the copy. -/
theorem copyRule_reported :
    CopyRule False flags destination.components
      (fun _ p target => ∃ way, p.components = source.components ++ way ∧
        target.components = destination.components ++ way)
      (fun t => Textual (t.branch source.components)) (Reported source destination) where
  admits := admits_reported
  below := by
    rintro _ p target ⟨way, -, htarget⟩
    rw [htarget]
    exact List.prefix_append _ _
  kept _ _ hagree hnames := hagree.textual happart hnames
  child := by
    rintro _ p target t e ⟨way, hp, htarget⟩ hnames he
    obtain ⟨b, n, hname, hpath, htext, hn, -⟩ := Tree.exists_of_mem_entriesOf he
    rw [hp, List.append_assoc] at hpath
    rw [hpath] at hn
    have hb : Utf8.IsText b := hnames (way ++ [Component.name b]) n hn b (by simp)
    refine ⟨way ++ [.name b], hpath, ?_⟩
    rw [htext, components_copied target hname, Utf8.encode_lossy hb, htarget, List.append_assoc]
  refused := by
    rintro _ p target base b asLink s ⟨code, osCode⟩ ⟨way, hp, htarget⟩ hlast hfailed
    cases hn : s.nodes.lookup p.components with
    | none =>
      rw [Tree.withCopy_of_missing hn] at hfailed
      cases hfailed.resolve_left id
      exact .inl hn
    | some n =>
      rcases Tree.cases_of_withCopy_error hn (hfailed.resolve_left id) with
        rfl | ⟨rfl, htaken⟩ | ⟨rfl, e', hparent⟩
      · exact .inl trivial
      · exact .inl htaken
      · exact .inr ⟨p, rfl, Tree.stranded_of_parentDirectory_error hn hp htarget
          ⟨base, .name b, nofun, hlast⟩ hparent⟩
  deep _ _ _ _ _ := trivial

theorem reports_copyTree_reported :
    Reports False (fun t => Textual (t.branch source.components)) (Reported source destination)
      (copyTree tx flags levels true source destination t) :=
  (copyRule_reported happart).reports_copyTree true ⟨[], by simp, by simp⟩

theorem reports_copyAndDelete (hnames : Textual (s.nodes.branch source.components)) :
    Ensures (Replies False True) (copyAndDelete levels m opts source destination t) s
      (fun _ _ => True) (Reported source destination) := by
  unfold copyAndDelete
  rw [Operation.ensures_bind]
  apply (reports_copyTree_reported happart s hnames).mono_ok
  intro t' s' _
  split
  · exact (reports_bind reports_note fun _ => reports_pure).ensures s'
  · exact (reports_bind (reports_delete admits_reported (fun _ => trivial) levels _) fun _ =>
      reports_bind reports_note fun _ => reports_pure).ensures s'

/-- What a move without failures goes on from: the source is there, with the names that it had, and
what is at the destination is known and can be deleted. -/
structure MoveReady (source destination : Place) (levels : Nat) (n : Node) (existing : Option Entry)
    (s : Scene) : Prop where
  names : Textual (s.nodes.branch source)
  there : s.nodes.lookup source = some n
  found : Found s.nodes destination existing
  regular : existing.isSome = true → Regular (s.nodes.branch destination) levels

theorem phases_reported {n : Node}
    (hlast : ∃ base c, c ≠ .root ∧ destination.components = base ++ [c]) :
    Phases (Replies False True) levels m opts source destination t
      (MoveReady source.components destination.components levels n) (fun _ _ => True)
      (Reported source destination) where
  taken := by
    intro _ old s hs
    obtain ⟨target, htarget, -⟩ := hs.found
    exact .inl ⟨target, htarget⟩
  refuse _ _ _ _ := .inl trivial
  attempt := by
    intro existing s hs
    have hfree (hnone : existing.isSome = false) :
        s.nodes.lookup destination.components = none := by
      have hfound := hs.found
      rw [Option.isSome_eq_false_iff, Option.isNone_iff_eq_none] at hnone
      rwa [hnone] at hfound
    apply (ensures_tryRename_calm hs.there hfree).mono
    · intro r s' hr
      cases r with
      | renamed t' => trivial
      | crossedVolumes => exact hr ▸ hs
      | occupied => exact hr.1 ▸ hs
    · rintro halt s' ⟨rfl, ⟨rfl, e, hparent⟩ | ⟨rfl, -⟩⟩
      · exact .inr ⟨source, rfl, Tree.stranded_of_parentDirectory_error hs.there
          (List.append_nil _).symm (List.append_nil _).symm hlast hparent⟩
      · exact .inl trivial
  replace := by
    intro old s hs
    obtain ⟨target, htarget, hold⟩ := hs.found
    apply (leaves_replaceDestination (hs.regular rfl) htarget hold).mono
    · rintro _ s' ⟨-, hwithout⟩
      have hagree := hwithout.agreeOutside
      refine ⟨(hagree.mono fun _ => .inl).textual happart hs.names, ?_, ?_, nofun⟩
      · rw [hagree _ happart.2, hs.there]
      · exact hwithout.gone_self
    · exact fun _ _ => False.elim

theorem reports_moveTree {n : Node} (hwf : s.nodes.WellFormed) (hlevels : s.nodes.levels ≤ levels)
    (hnames : Textual (s.nodes.branch source.components))
    (hn : s.nodes.lookup source.components = some n) (hnormal : destination.isNormal = true) :
    Ensures (Replies False True) (moveTree levels m opts source destination t) s
      (fun _ _ => True) (Reported source destination) := by
  obtain ⟨base, c, -, hc, hplace⟩ := hwf.exists_parent hn hnormal happart
  apply (phases_reported (n := n) happart ⟨base, c, hc, hplace⟩).ensures_moveTree
  · apply (ensures_surveyMove hwf hn hnormal).mono
    · rintro survey _ ⟨rfl, hfound⟩
      exact ⟨hnames, hn, hfound, fun _ => hwf.regular hlevels (by simp [hplace])⟩
    · exact fun _ _ => False.elim
  · intro s' hs'
    exact reports_copyAndDelete happart hs'.names

end Transfer

theorem reports_copyOrMove (hwf : s.nodes.WellFormed) (htext : s.nodes.IsTextual)
    (hlevels : s.nodes.levels ≤ levels) (hnormal : destination.isNormal = true) :
    Ensures (Replies False True) (copyOrMove levels opts source destination) s (fun _ _ => True)
      (Reported source destination) := by
  have hnames : Textual (s.nodes.branch source.components) := htext.textual_branch _
  rw [copyOrMove_eq, Operation.ensures_bind]
  apply ensures_makePlan
  · intro e hmode
    unfold TransferOptions.mode at hmode
    split at hmode
    all_goals cases hmode
    all_goals exact .inl trivial
  · intro e hoverlap
    unfold overlap? at hoverlap
    repeat' split at hoverlap
    all_goals cases hoverlap
    all_goals exact .inl trivial
  · intro e he
    exact .inl (Tree.isTrueOf_entry (he.resolve_left id))
  · intro n hn hlike
    exact .inl ⟨n, hn, hlike⟩
  · intro mode n _ hoverlap hn _
    have happart := Path.apart (overlap_eq_none_iff.mp hoverlap)
    unfold transferTree
    cases mode with
    | copy c =>
      simp only [Operation.ensures_bind, ensures_note]
      apply (reports_copyTree_reported happart s hnames).mono_ok
      exact fun _ _ _ => ensures_pure.mpr trivial
    | move m =>
      simp only [Operation.ensures_bind, ensures_note]
      apply (reports_moveTree happart hwf hlevels hnames hn hnormal).mono_ok
      exact fun _ _ _ => ensures_pure.mpr trivial

/-! ### Pruning -/

section Prune

variable {opts : PruneOptions} {path : Path} {err : Halt → Scene → Prop}
  (herr : Admits False (fun _ => True) err) (hdepth : ∀ s, err .tooDeep s)

include herr hdepth

theorem reports_removeEmpty : Reports False (fun _ => True) err (removeEmpty opts path) := by
  unfold removeEmpty
  apply reports_bind
  · apply reports_tryCatch (reports_bind (reports_delete herr hdepth 1 true) fun _ => reports_pure)
    intro halt s hhalt
    split
    · exact ensures_pure.mpr trivial
    · exact ensures_throw.mpr hhalt
  · intro removed
    split
    · exact reports_bind reports_note fun _ => reports_pure
    · exact reports_bind reports_note fun _ => reports_pure

theorem reports_pruneDirectory {pruneBelow : Path → Operation (List Path)}
    (h : ∀ dir, Reports False (fun _ => True) err (pruneBelow dir)) (dir : Path) :
    Reports False (fun _ => True) err (pruneDirectory opts pruneBelow dir) := by
  have hbelow : Reports False (fun _ => True) err
      (if opts.recursive then pruneBelow dir else pure []) := by
    split
    · exact h dir
    · exact reports_pure
  have hlist : Reports False (fun _ => True) err (isEmptyDirectory opts.transaction dir) :=
    reports_bind (reports_perform herr (c := .list dir) (fun _ _ => trivial) ⟨nofun, nofun, nofun⟩)
      fun _ => reports_pure
  rw [pruneDirectory_eq]
  apply reports_bind hbelow
  intro below
  apply reports_bind hlist
  intro isEmpty
  split
  · exact reports_bind (reports_removeEmpty herr hdepth) fun _ => reports_pure
  · exact reports_pure

omit herr hdepth in
theorem reports_pruneEach {pruneOne : Path → Operation (List Path)}
    (h : ∀ dir, Reports False (fun _ => True) err (pruneOne dir)) (entries : List Entry) :
    Reports False (fun _ => True) err (pruneEach pruneOne entries) := by
  induction entries with
  | nil => exact reports_pure
  | cons e entries ih =>
    exact reports_bind (h e.path) fun _ => reports_bind ih fun _ => reports_pure

theorem reports_pruneChildren (levels : Nat) (dir : Path) :
    Reports False (fun _ => True) err (pruneChildren opts levels dir) := by
  induction levels generalizing dir with
  | zero => exact fun s _ => ensures_throw.mpr (hdepth s)
  | succ levels ih =>
    apply reports_bind (reports_childEntries herr)
    intro entries
    exact reports_pruneEach (fun d => reports_pruneDirectory herr hdepth ih d) _

theorem reports_pruneEmpty (levels : Nat) (root : Path) :
    Reports False (fun _ => True) err (pruneEmpty levels opts root) := by
  intro s _
  rw [pruneEmpty, Operation.ensures_bind, ensures_resolve, Operation.ensures_bind, ensures_perform]
  constructor
  · intro info hinfo
    obtain ⟨n, hn, rfl⟩ := Tree.entry_eq_ok.mp hinfo
    rw [(n.describes_entryAt root).isDirectory]
    split
    · next hlike =>
      exact ensures_fail.mpr (herr _ _ rfl trivial (.inr ⟨n, hn, by simpa using hlike⟩))
    · have hpruned : Reports False (fun _ => True) err (do
          let removed ← pruneChildren opts levels root
          Operation.note (.pruneFinished root removed.length)
          return removed) :=
        reports_bind (reports_pruneChildren herr hdepth levels root) fun _ =>
          reports_bind reports_note fun _ => reports_pure
      exact (reports_bind reports_note fun _ => hpruned).ensures _
  · intro e he
    exact herr.ofNative trivial (he.imp_right Tree.isTrueOf_entry)

end Prune

/-! ### All operations -/

/-- What the errors of an operation tell is true, but for the one error of a transfer. -/
def ReportedBy (u : Use) : Halt → Scene → Prop
  | .failed e, s => e.IsTrueOf s.nodes ∨ ∃ opts source destination p,
      u = .copyOrMove opts source destination ∧ e = .notFound p ∧
        s.nodes.Stranded source destination p
  | .tooDeep, _ => True

theorem reports_use {u : Use} (hwf : s.nodes.WellFormed) (htext : s.nodes.IsTextual)
    (hlevels : s.nodes.levels ≤ levels) (hplain : u.IsPlain) :
    Ensures (Replies False True) (u.operation levels) s (fun _ _ => True) (ReportedBy u) := by
  have hadmits : Admits False (fun _ => True) (ReportedBy u) :=
    fun _ _ _ _ h => .inl (h.resolve_left id)
  cases u with
  | createDirectory tx path =>
    unfold Use.operation createDirectory
    rw [Operation.ensures_bind, ensures_resolve]
    exact (reports_createResolved hadmits).ensures s
  | deleteDirectory opts root =>
    unfold Use.operation deleteDirectory
    rw [Operation.ensures_bind, ensures_resolve, Operation.ensures_bind, ensures_note]
    exact (reports_delete hadmits (fun _ => trivial) levels _).ensures s
  | deleteFile tx path ignoreReadOnly =>
    exact (reports_deleteFile hadmits fun _ _ _ _ => trivial).ensures s
  | pruneEmpty opts root =>
    exact (reports_bind (reports_pruneEmpty hadmits (fun _ => trivial) levels root) fun _ =>
      reports_pure).ensures s
  | copyOrMove opts source destination =>
    obtain ⟨hnormal, -⟩ := hplain destination (by simp [Use.paths])
    unfold Use.operation
    rw [Operation.ensures_bind]
    apply (reports_copyOrMove hwf htext hlevels hnormal).mono
    · exact fun _ _ _ => ensures_pure.mpr trivial
    · intro halt s' hhalt
      cases halt with
      | tooDeep => trivial
      | failed e =>
        rcases hhalt with htrue | ⟨p, he, hstranded⟩
        · exact .inl htrue
        · exact .inr ⟨opts, source, destination, p, rfl, he, hstranded⟩

/-- Without failures, an error that says that a path is missing, present, no directory or not empty
is true of the nodes that the operation leaves, whatever its options and its listener. The one
exception is a transfer that says that something at or below its source is missing, when there is
no directory for it at the destination. -/
theorem error_names_path (m : Memory) (listener : Listener) (levels : Nat) (u : Use)
    (hwf : m.nodes.WellFormed) (htext : m.nodes.IsTextual) (hcalm : m.failures = [])
    (hlevels : m.nodes.levels ≤ levels) (hplain : u.IsPlain) :
    let run := m.runs listener (u.operation levels)
    match run.result with
    | .error (.failed e) => e.IsTrueOf run.memory.nodes ∨ ∃ opts source destination p,
        u = .copyOrMove opts source destination ∧ e = .notFound p ∧
          run.memory.nodes.Stranded source destination p
    | _ => True := by
  have hends := ends_runs listener (.inr hcalm) (fun _ _ => trivial)
    (reports_use (s := ⟨m.nodes, []⟩) hwf htext hlevels hplain)
  intro run
  cases hresult : run.result with
  | ok value => trivial
  | error halt =>
    rw [hresult] at hends
    cases halt with
    | failed e => exact hends
    | tooDeep => trivial

/-- A directory cannot be made below a file. -/
theorem error_names_path_below_file :
    let m := new.addFile "/d/f" 1
    let run := m.runs {} ((Use.createDirectory none "/d/f/x/y").operation m.levels)
    match run.result with
    | .error (.failed e) => e.IsTrueOf run.memory.nodes ∨ ∃ opts source destination p,
        Use.createDirectory none "/d/f/x/y" = .copyOrMove opts source destination ∧
          e = .notFound p ∧ run.memory.nodes.Stranded source destination p
    | _ => True :=
  error_names_path (new.addFile "/d/f" 1) {} _ (.createDirectory none "/d/f/x/y") (by decide)
    (by decide) rfl (Nat.le_refl _) (by decide)

/-- A rename to where the parent is missing says that its source is missing. -/
theorem rename_blames_source :
    let m := new.addFile "/s/f" 3
    let run := m.runs {} (copyOrMove m.levels { move := some { copyAllowed := true } } "/s" "/a/b")
    m.nodes.WellFormed ∧ m.nodes.IsTextual ∧ m.failures = [] ∧
      run.result = .error (.failed (.notFound "/s")) ∧
        ¬(TreeError.notFound "/s").IsTrueOf run.memory.nodes :=
  ⟨by decide, by decide, rfl, rfl, nofun⟩

end Memory

end TreeOps
