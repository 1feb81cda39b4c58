import TreeOps.Proofs.Transfer.Sound

/-!
# What a sequence of operations goes through

Operations follow one another on a file system in memory, each with its own options and listener,
and the next goes on with what the last has left, however that ended. Every file system on the way
is well-formed: those that the single requests lead to as well as those that the operations leave.
Failures may be scripted as long as no query reports something as missing that is there, and a copy
may not overwrite.
-/

namespace TreeOps

/-- An operation with all that it is given. -/
inductive Use where
  | createDirectory (transaction : Option Transaction) (path : Path)
  | deleteDirectory (opts : DeleteOptions) (root : Path)
  | deleteFile (transaction : Option Transaction) (path : Path) (ignoreReadOnly : Bool)
  | pruneEmpty (opts : PruneOptions) (root : Path)
  | copyOrMove (opts : TransferOptions) (source destination : Path)
deriving DecidableEq, Repr

namespace Use

/-- What is done; the result does not matter here. -/
def operation (levels : Nat) : Use → Operation Unit
  | createDirectory tx path => TreeOps.createDirectory tx path
  | deleteDirectory opts root => TreeOps.deleteDirectory levels opts root
  | deleteFile tx path ignoreReadOnly => TreeOps.deleteFile tx path ignoreReadOnly
  | pruneEmpty opts root => do
    let _ ← TreeOps.pruneEmpty levels opts root
    return ()
  | copyOrMove opts source destination => do
    let _ ← TreeOps.copyOrMove levels opts source destination
    return ()

/-- The paths that an operation is given. -/
def paths : Use → List Path
  | createDirectory _ path | deleteFile _ path _ => [path]
  | deleteDirectory _ root | pruneEmpty _ root => [root]
  | copyOrMove _ source destination => [source, destination]

/-- Whether an operation is a copy that may overwrite. -/
def overwrites : Use → Bool
  | copyOrMove opts _ _ =>
    match opts.mode with
    | .ok (.copy copy) => copy.overwriteExisting
    | _ => false
  | _ => false

/-- The paths of an operation are absolute and go on with names in valid UTF-8. -/
def IsPlain (u : Use) : Prop :=
  ∀ p ∈ u.paths, p.isNormal = true ∧ ∀ c ∈ p.components, Utf8.IsText c.bytes

instance (u : Use) : Decidable u.IsPlain :=
  inferInstanceAs (Decidable (∀ p ∈ u.paths, _ ∧ ∀ c ∈ p.components, Utf8.IsText c.bytes))

theorem IsPlain.rooted {u : Use} (h : u.IsPlain) {p : Path} (hp : p ∈ u.paths) :
    Rooted p.components := by
  obtain ⟨hnormal, htext⟩ := h p hp
  obtain ⟨way, hway, hnames⟩ := Path.isNormal_iff.mp hnormal
  refine ⟨way, hway, fun c hc => ?_⟩
  obtain ⟨b, rfl⟩ := hnames c hc
  exact ⟨b, rfl, htext (.name b) (by simp [hway, hc])⟩

end Use

/-- An operation in a sequence, how deep it may follow a tree, and its listener. -/
structure Job where
  use : Use
  levels : Nat
  listener : Listener := {}

namespace Memory

open Operation

/-- The file systems that a sequence of operations goes through: for each operation those that its
requests lead to, and the one that it leaves. -/
def passed (m : Memory) : List Job → List Memory
  | [] => []
  | job :: rest =>
    let operation := job.use.operation job.levels
    let left := (m.runs job.listener operation).memory
    (m.history job.listener operation).map Prod.snd ++ left :: left.passed rest

theorem holds_createDirectory {s : Watch Tree} {tx : Option Transaction} {path : Path}
    (hpath : Rooted path.components) (hs : Held s) :
    Ensures Watched (createDirectory tx path) s (fun _ s' => Held s') (fun _ s' => Held s') := by
  unfold createDirectory
  rw [Operation.ensures_bind]
  refine holds_resolve hs fun s₁ h₁ _ => ?_
  exact (holds_of_creates (fun _ => True) asks_createAbove
    (fun p hp => ⟨hpath.above hp.1 hp.2, trivial⟩) h₁).mono (fun _ _ h => h.1) fun _ _ h => h.1

/-- Every operation holds the nodes sound. -/
theorem holds_use {u : Use} (hplain : u.IsPlain) (hoverwrites : u.overwrites = false)
    (levels : Nat) : Keeps Watched Held (u.operation levels) := by
  intro s hs
  cases u with
  | createDirectory tx path =>
    exact (holds_createDirectory (hplain.rooted (by simp [Use.paths])) hs).mono_ok
      fun _ _ h => ⟨h, trivial⟩
  | deleteDirectory opts root =>
    exact (holds_of_removes (asks_deleteDirectory levels root) hs).mono
      (fun _ _ h => ⟨h.1, trivial⟩) fun _ _ h => h.1
  | deleteFile tx path ignoreReadOnly =>
    exact (holds_of_removes asks_deleteFile hs).mono (fun _ _ h => ⟨h.1, trivial⟩)
      fun _ _ h => h.1
  | pruneEmpty opts root =>
    unfold Use.operation
    rw [Operation.ensures_bind]
    exact (holds_of_removes (asks_pruneEmpty levels root) hs).mono
      (fun _ _ h => ensures_pure.mpr ⟨h.1, trivial⟩) fun _ _ h => h.1
  | copyOrMove opts source destination =>
    have hcopy (copy : CopyOptions) (hmode : opts.mode = .ok (.copy copy)) :
        copy.overwriteExisting = false := by
      simpa [Use.overwrites, hmode] using hoverwrites
    unfold Use.operation
    rw [Operation.ensures_bind]
    exact (holds_copyOrMove (hplain.rooted (by simp [Use.paths])) hcopy hs).mono_ok
      fun _ _ h => ensures_pure.mpr ⟨h, trivial⟩

/-- A sequence of operations goes through healthy file systems only. -/
theorem Healthy.passed {m : Memory} {jobs : List Job} (h : m.Healthy)
    (hjobs : ∀ job ∈ jobs, job.use.IsPlain ∧ job.use.overwrites = false) :
    ∀ m' ∈ m.passed jobs, m'.nodes.Sound := by
  induction jobs generalizing m with
  | nil => exact nofun
  | cons job rest ih =>
    obtain ⟨⟨hplain, hoverwrites⟩, hrest⟩ := List.forall_mem_cons.mp hjobs
    obtain ⟨hhistory, hleft⟩ :=
      h.runs job.listener (holds_use hplain hoverwrites job.levels)
    intro m' hm'
    rcases List.mem_append.mp hm' with hm' | hm'
    · obtain ⟨e, he, rfl⟩ := List.mem_map.mp hm'
      exact hhistory e he
    · rcases List.mem_cons.mp hm' with rfl | hm'
      · exact hleft.sound
      · exact ih hleft hrest m' hm'

/-- Whatever operations follow one another, with whatever failures and listeners, every file system
on the way is well-formed, so nothing is ever left below a missing directory, a file or a link. -/
theorem passed_wellFormed (m : Memory) (jobs : List Job) (hwf : m.nodes.WellFormed)
    (htext : m.nodes.IsTextual) (htruth : m.TellsTruth)
    (hplain : ∀ job ∈ jobs, job.use.IsPlain)
    (hoverwrites : ∀ job ∈ jobs, job.use.overwrites = false) :
    ∀ m' ∈ m.passed jobs, m'.nodes.WellFormed ∧ m'.nodes.IsTextual ∧
      ∀ base b n, m'.nodes.lookup (base ++ [.name b]) = some n → m'.nodes.IsDirectoryAt base := by
  have hhealthy : m.Healthy := ⟨Tree.sound_iff.mpr ⟨hwf, htext⟩, htruth⟩
  intro m' hm'
  have hsound := hhealthy.passed (fun job h => ⟨hplain job h, hoverwrites job h⟩) m' hm'
  obtain ⟨hwf', htext'⟩ := Tree.sound_iff.mp hsound
  exact ⟨hwf', htext', hsound.closed⟩

/-- A move across volumes that replaces its destination fails at the copy of a file; what it has
made is pruned and made again. -/
theorem passed_wellFormed_denied :
    let m := (((new.addFile "/s/f" 3).addFile "/d/g" 1).setVolume "/s" 1).addFailure
      ⟨.copy, "/s/f", .accessDenied, some 1⟩
    let jobs : List Job :=
      [⟨.copyOrMove { move := some { replaceExisting := true, copyAllowed := true } } "/s" "/d", 4,
        {}⟩, ⟨.pruneEmpty {} "/", 4, {}⟩, ⟨.createDirectory none "/d/e", 0, {}⟩]
    ∀ m' ∈ m.passed jobs, m'.nodes.WellFormed ∧ m'.nodes.IsTextual ∧
      ∀ base b n, m'.nodes.lookup (base ++ [.name b]) = some n → m'.nodes.IsDirectoryAt base :=
  passed_wellFormed _ _ (by decide) (by decide) (by decide) (by decide) (by decide)

end Memory

end TreeOps
