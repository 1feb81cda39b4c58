import TreeOps.Proofs.Memory.History
import TreeOps.Proofs.Transfer.Ends

/-!
# The check of source and destination

A transfer compares its two paths before it asks the file system for anything. It tells that they
overlap exactly where one of the folded lists of components is a prefix of the other, which of the
two it is, and nothing else that a transfer does tells so. The file system compares components as
they are, and folding keeps prefixes: paths that pass the check have no place in common.
-/

namespace TreeOps

namespace TreeError

@[simp] theorem isOverlap_copyError (source destination : Path) (e : NativeError) :
    (Transfer.copyError source destination e).isOverlap = false := by
  unfold Transfer.copyError
  split
  · rfl
  · exact isOverlap_ofNative ..

@[simp] theorem isOverlap_renameError (source destination : Path) (e : NativeError) :
    (Transfer.renameError source destination e).isOverlap = false := by
  unfold Transfer.renameError
  split
  · rfl
  · split
    · rfl
    · exact isOverlap_ofNative ..

end TreeError

namespace Memory

open Removal Transfer Operation

variable {source destination : Path} {levels : Nat} {opts : TransferOptions} {m : MoveOptions}
  {t : Tally} {s : Scene}

/-! ### Nothing but the check tells of an overlap -/

/-- What halts an operation is not that two paths overlap. -/
def NoOverlap : Halt → Scene → Prop := fun halt _ => ∀ e, halt = .failed e → e.isOverlap = false

theorem noOverlap_failed {e : TreeError} (h : e.isOverlap = false) : NoOverlap (.failed e) s := by
  rintro _ ⟨⟩
  exact h

theorem noOverlap_tooDeep : NoOverlap .tooDeep s := nofun

theorem admits_noOverlap {failing : Prop} {inv : Tree → Prop} : Admits failing inv NoOverlap :=
  fun _ _ h _ _ => noOverlap_failed h

theorem copyRule_noOverlap {flags : CopyFlags} {destination : Place} :
    CopyRule True flags destination (fun _ _ target => destination <+: target.components)
      (fun _ => True) NoOverlap where
  admits := admits_noOverlap
  below _ _ _ h := h
  kept _ _ _ _ := trivial
  child := by
    intro levels p target t e htarget _ he
    obtain ⟨b, -, hname, -, htext, -⟩ := Tree.exists_of_mem_entriesOf he
    rw [htext, components_copied target hname]
    exact htarget.trans (List.prefix_append _ _)
  refused _ _ _ _ _ _ _ _ _ _ _ := noOverlap_failed (TreeError.isOverlap_copyError ..)
  deep _ _ _ _ _ := noOverlap_tooDeep

theorem reports_replaceDestination_noOverlap {isDirectory : Bool} :
    Reports True (fun _ => True) NoOverlap
      (replaceDestination levels opts destination isDirectory) := by
  apply reports_bind reports_note
  intro _
  split
  · exact reports_delete admits_noOverlap (fun _ => noOverlap_tooDeep) levels _
  · exact reports_deleteFile admits_noOverlap fun _ _ _ _ => trivial

theorem phases_noOverlap : Phases (Replies True True) levels m opts source destination t
    (fun _ _ => True) (fun _ _ => True) NoOverlap where
  taken _ _ _ _ := noOverlap_failed rfl
  refuse _ _ _ _ := noOverlap_failed rfl
  attempt _ _ _ := attempted_tryRename trivial (fun _ _ _ _ => trivial) fun _ =>
    noOverlap_failed (TreeError.isOverlap_renameError ..)
  replace _ s _ := reports_replaceDestination_noOverlap s trivial

/-- Once its paths have passed the check, a transfer does not tell of an overlap. -/
theorem reports_transferTree_noOverlap {mode : TransferMode} :
    Reports True (fun _ => True) NoOverlap
      (transferTree levels mode opts source destination) := by
  have hcopy (flags : CopyFlags) (t : Tally) : Reports True (fun _ => True) NoOverlap
      (copyTree opts.transaction flags levels true source destination t) :=
    copyRule_noOverlap.reports_copyTree true (List.prefix_refl _)
  cases mode with
  | copy c =>
    exact reports_bind reports_note fun _ => reports_bind (hcopy _ _) fun _ => reports_pure
  | move m =>
    refine reports_bind reports_note fun _ => reports_bind ?_ fun _ => reports_pure
    intro s _
    apply phases_noOverlap.ensures_moveTree (reports_surveyMove admits_noOverlap s trivial)
    intro s' _
    refine reports_bind (hcopy _ _) (fun t' => ?_) s' trivial
    split
    · exact reports_bind reports_note fun _ => reports_pure
    · exact reports_bind (reports_delete admits_noOverlap (fun _ => noOverlap_tooDeep) levels _)
        fun _ => reports_bind reports_note fun _ => reports_pure

end Memory

namespace Path

variable {p q : Path}

theorem samePlace_iff : p.samePlace q = true ↔ p.foldedComponents = q.foldedComponents := by
  rw [samePlace, beq_iff_eq]

/-- Below a path, up to case, lies what has more components behind those of the path. -/
theorem isWithin_iff : p.isWithin q = true ↔
    q.foldedComponents <+: p.foldedComponents ∧ q.foldedComponents ≠ p.foldedComponents := by
  rw [isWithin, Bool.and_eq_true, decide_eq_true_iff, List.isPrefixOf_iff_prefix]
  constructor
  · rintro ⟨hlength, hleads⟩
    refine ⟨hleads, fun heq => ?_⟩
    rw [heq] at hlength
    exact Nat.lt_irrefl _ hlength
  · rintro ⟨hleads, hne⟩
    exact ⟨Nat.lt_of_le_of_ne hleads.length_le fun h => hne (hleads.eq_of_length h), hleads⟩

end Path

namespace Transfer

variable {source destination : Path}

/-- What the check tells of two paths. The three conditions exclude one another, so the order of the
tests makes no difference. -/
theorem overlap_eq_some_iff {e : TreeError} : overlap? source destination = some e ↔
    e = .sameSourceAndDestination source ∧
        source.foldedComponents = destination.foldedComponents ∨
      e = .destinationInsideSource source destination ∧
        (source.foldedComponents <+: destination.foldedComponents ∧
          source.foldedComponents ≠ destination.foldedComponents) ∨
      e = .sourceInsideDestination source destination ∧
        (destination.foldedComponents <+: source.foldedComponents ∧
          destination.foldedComponents ≠ source.foldedComponents) := by
  simp only [overlap?, Path.samePlace_iff, Path.isWithin_iff]
  generalize source.foldedComponents = a
  generalize destination.foldedComponents = b
  by_cases hsame : a = b
  · simp [hsame, eq_comm]
  · by_cases hinside : a <+: b
    · have houtside : ¬b <+: a := fun h =>
        hsame (hinside.eq_of_length (Nat.le_antisymm hinside.length_le h.length_le))
      simp [hsame, hinside, houtside, eq_comm]
    · simp [hsame, hinside, eq_comm, and_comm]

end Transfer

namespace TransferOptions

theorem exists_mode {opts : TransferOptions} (hone : opts.copy.isSome = !opts.move.isSome) :
    ∃ mode, opts.mode = .ok mode := by
  unfold mode
  cases hcopy : opts.copy with
  | none => cases hmove : opts.move with
    | none => simp [hcopy, hmove] at hone
    | some m => exact ⟨_, rfl⟩
  | some c => cases hmove : opts.move with
    | none => exact ⟨_, rfl⟩
    | some m => simp [hcopy, hmove] at hone

end TransferOptions

namespace Memory

open Removal Transfer Operation

variable {m : Memory} {listener : Listener} {levels : Nat} {opts : TransferOptions}
  {mode : TransferMode} {source destination : Path}

/-- A transfer between paths that overlap is refused before it asks for anything. -/
theorem runs_refused {e : TreeError} (hmode : opts.mode = .ok mode)
    (hoverlap : overlap? source destination = some e) :
    m.runs listener (copyOrMove levels opts source destination) = ⟨.error (.failed e), m, []⟩ := by
  unfold copyOrMove
  rw [hmode]
  dsimp only
  rw [runs_resolve, runs_resolve, hoverlap]
  rfl

/-- A transfer between paths that do not overlap does not tell that they do. -/
theorem not_isOverlap_of_runs {e : TreeError} (hmode : opts.mode = .ok mode)
    (hoverlap : overlap? source destination = none)
    (he : (m.runs listener (copyOrMove levels opts source destination)).result =
      .error (.failed e)) : e.isOverlap = false := by
  have hensures : Ensures (Replies True True) (copyOrMove levels opts source destination)
      ⟨m.nodes, []⟩ (fun _ _ => True) NoOverlap := by
    rw [copyOrMove_eq, Operation.ensures_bind]
    apply ensures_makePlan
    · intro e h
      rw [hmode] at h
      cases h
    · intro e h
      rw [hoverlap] at h
      cases h
    · exact fun _ _ => noOverlap_failed (TreeError.isOverlap_ofNative ..)
    · exact fun _ _ _ => noOverlap_failed rfl
    · exact fun _ _ _ _ _ _ => reports_transferTree_noOverlap _ trivial
  have hends := ends_runs listener (.inl trivial) (fun _ _ => trivial) hensures
  rw [he] at hends
  exact hends e rfl

/-- A transfer is refused for how its paths lie exactly where one folded list of components is a
prefix of the other, and then nothing is asked of the file system. Where it is not refused, no place
is at or below both paths. -/
theorem topology_check_is_exact (m : Memory) (listener : Listener) (levels : Nat)
    (opts : TransferOptions) (source destination : Path)
    (hone : opts.copy.isSome = !opts.move.isSome) :
    let run := m.runs listener (copyOrMove levels opts source destination)
    let a := source.foldedComponents
    let b := destination.foldedComponents
    (run.result = .error (.failed (.sameSourceAndDestination source)) ↔ a = b) ∧
      (run.result = .error (.failed (.destinationInsideSource source destination)) ↔
        a <+: b ∧ a ≠ b) ∧
      (run.result = .error (.failed (.sourceInsideDestination source destination)) ↔
        b <+: a ∧ b ≠ a) ∧
      (a <+: b ∨ b <+: a → run.memory = m ∧ run.records = []) ∧
      ((∀ e, run.result = .error (.failed e) → e.isOverlap = false) →
        ∀ place, ¬(source.components <+: place ∧ destination.components <+: place)) := by
  intro run a b
  obtain ⟨mode, hmode⟩ := TransferOptions.exists_mode hone
  have hrefused {e : TreeError} (h : overlap? source destination = some e) :
      run = ⟨.error (.failed e), m, []⟩ := runs_refused hmode h
  have hresult (e : TreeError) (he : e.isOverlap = true) :
      run.result = .error (.failed e) ↔ overlap? source destination = some e := by
    constructor
    · intro hresult
      cases hoverlap : overlap? source destination with
      | none =>
        rw [not_isOverlap_of_runs hmode hoverlap hresult] at he
        cases he
      | some e' =>
        rw [hrefused hoverlap] at hresult
        cases hresult
        rfl
    · intro hoverlap
      rw [hrefused hoverlap]
  refine ⟨?_, ?_, ?_, ?_, ?_⟩
  · rw [hresult _ rfl, overlap_eq_some_iff]
    simp [a, b]
  · rw [hresult _ rfl, overlap_eq_some_iff]
    simp [a, b]
  · rw [hresult _ rfl, overlap_eq_some_iff]
    simp [a, b]
  · intro hleads
    cases hoverlap : overlap? source destination with
    | none => exact absurd hleads (not_or.mpr (overlap_eq_none_iff.mp hoverlap))
    | some e =>
      rw [hrefused hoverlap]
      exact ⟨rfl, rfl⟩
  · rintro hpassed place ⟨hsource, hdestination⟩
    have hleads := List.prefix_or_prefix_of_prefix hsource hdestination
    cases hoverlap : overlap? source destination with
    | none =>
      exact absurd hleads (not_or.mpr (Path.apart (overlap_eq_none_iff.mp hoverlap)))
    | some e =>
      have hcalls := hpassed e (by rw [hrefused hoverlap])
      obtain ⟨rfl, -⟩ | ⟨rfl, -⟩ | ⟨rfl, -⟩ := overlap_eq_some_iff.mp hoverlap
      all_goals cases hcalls

/-- Paths that are the same up to case, a repeated separator and a dot. -/
theorem topology_check_is_exact_folded :
    let m := new.addDirectory "/Data/x"
    let opts : TransferOptions := { copy := some {} }
    let run := m.runs {} (copyOrMove m.levels opts "/Data//x/" "/data/./X")
    let a := Path.foldedComponents "/Data//x/"
    let b := Path.foldedComponents "/data/./X"
    opts.copy.isSome = (!opts.move.isSome) ∧
      (run.result = .error (.failed (.sameSourceAndDestination "/Data//x/")) ↔ a = b) ∧
      (run.result = .error (.failed (.destinationInsideSource "/Data//x/" "/data/./X")) ↔
        a <+: b ∧ a ≠ b) ∧
      (run.result = .error (.failed (.sourceInsideDestination "/Data//x/" "/data/./X")) ↔
        b <+: a ∧ b ≠ a) ∧
      (a <+: b ∨ b <+: a → run.memory = m ∧ run.records = []) ∧
      ((∀ e, run.result = .error (.failed e) → e.isOverlap = false) → ∀ place,
        ¬(Path.components "/Data//x/" <+: place ∧ Path.components "/data/./X" <+: place)) :=
  ⟨rfl, topology_check_is_exact _ {} _ { copy := some {} } "/Data//x/" "/data/./X" rfl⟩

end Memory

end TreeOps
