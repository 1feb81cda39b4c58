import TreeOps.Proofs.Memory.Listing
import TreeOps.Transfer

/-!
# The steps of a transfer

What the single steps of a copy or move do in memory, whether or not calls may fail without a reason
in the nodes and whether or not the listener may cancel.
-/

namespace TreeOps

/-- The flags that a transfer copies with. -/
def TransferMode.copyFlags : TransferMode → CopyFlags
  | .copy c =>
    { overwrite := c.overwriteExisting, copySymlink := false
      preserveTimestamps := c.preserveTimestamps }
  | .move m => { overwrite := m.replaceExisting, copySymlink := false, preserveTimestamps := true }

namespace Transfer

variable {levels : Nat} {m : MoveOptions} {opts : TransferOptions} {source destination : Path}

/-! ### The parts of a transfer -/

/-- A copy whose destination has been made. -/
def copyContents (tx : Option Transaction) (flags : CopyFlags)
    (copyBelow : Path → Path → Tally → Operation Tally) (source destination : Path) (t : Tally) :
    Operation Tally := do
  let t ← report t .directoryCreated source destination 0
  if t.canceled then return t
  let entries ← childEntries tx source
  entries.foldlM (copyEntry tx flags copyBelow destination) t

theorem copyTree_root (tx : Option Transaction) (flags : CopyFlags) (levels : Nat)
    (source destination : Path) (t : Tally) :
    copyTree tx flags (levels + 1) true source destination t = createResolved tx destination >>=
      fun _ => copyContents tx flags (copyTree tx flags levels false) source destination t := rfl

theorem copyTree_inner (tx : Option Transaction) (flags : CopyFlags) (levels : Nat)
    (source destination : Path) (t : Tally) :
    copyTree tx flags (levels + 1) false source destination t = createOne tx destination >>=
      fun _ => copyContents tx flags (copyTree tx flags levels false) source destination t := rfl

/-- The second attempt at a rename, once the destination has been removed. -/
def renameAgain (m : MoveOptions) (opts : TransferOptions) (source destination : Path) (t : Tally) :
    Operation Renaming := do
  match ← tryRename m opts source destination false t with
  | .renamed t => return .done t
  | _ => return .toCopy none

/-- What a move by copying does once nothing is in its way. -/
def copyAndDelete (levels : Nat) (m : MoveOptions) (opts : TransferOptions)
    (source destination : Path) (t : Tally) : Operation Tally := do
  let flags : CopyFlags :=
    { overwrite := m.replaceExisting, copySymlink := false, preserveTimestamps := true }
  let t ← copyTree opts.transaction flags levels true source destination t
  if t.canceled then
    Operation.note (.moveCanceled source)
    return t
  else
    Removal.deleteResolved levels opts.deletion source
    Operation.note (.movedByCopy source destination)
    return t

/-- What a move asks before it changes anything: whether the destination is on the volume of the
source, and what is there. -/
def surveyMove (opts : TransferOptions) (source destination : Path) :
    Operation (Bool × Option Entry) := do
  match ← firstExisting opts.transaction destination.namedAncestors with
  | none => Operation.fail (.notFound destination)
  | some anchor =>
    let onOneVolume ← Operation.perform opts.transaction (.sameVolume source anchor)
      (.ofNative source "volume query")
    let existing ← queryDestination opts.transaction destination
    return (onOneVolume, existing)

/-- What a move does when it knows that. -/
def moveSurveyed (levels : Nat) (m : MoveOptions) (opts : TransferOptions)
    (source destination : Path) (t : Tally) (survey : Bool × Option Entry) : Operation Tally :=
  if survey.2.isSome && !m.replaceExisting then Operation.fail (.alreadyExists destination)
  else if survey.1 then do
    match ← renameTree levels m opts source destination survey.2 t with
    | .done t => return t
    | .toCopy existing => moveByCopy levels m opts source destination existing t
  else if m.copyAllowed then moveByCopy levels m opts source destination survey.2 t
  else Operation.fail (.notSameDevice source destination)

theorem moveTree_eq (t : Tally) : moveTree levels m opts source destination t =
    surveyMove opts source destination >>= moveSurveyed levels m opts source destination t := by
  unfold moveTree surveyMove
  rw [bind_assoc]
  refine congrArg (firstExisting opts.transaction destination.namedAncestors >>= ·)
    (funext fun anchor => ?_)
  cases anchor with
  | none => rfl
  | some anchor =>
    simp only [bind_assoc, pure_bind]
    rfl

/-! ### The copy phase -/

/-- A transfer whose paths are resolved and checked. -/
structure Plan where
  mode : TransferMode
  source : Path
  destination : Path
deriving DecidableEq, Repr

/-- What a transfer checks before it begins. -/
def makePlan (opts : TransferOptions) (source destination : Path) : Operation Plan := do
  match opts.mode with
  | .error e => Operation.fail e
  | .ok mode =>
    let source ← Operation.resolve source
    let destination ← Operation.resolve destination
    match overlap? source destination with
    | some e => Operation.fail e
    | none =>
      let info ← Operation.perform opts.transaction (.query source) (.ofNative source "query")
      if !info.isDirectory then Operation.fail (.notADirectory source)
      else return ⟨mode, source, destination⟩

theorem copyOrMove_eq : copyOrMove levels opts source destination =
    makePlan opts source destination >>= fun plan =>
      transferTree levels plan.mode opts plan.source plan.destination := by
  unfold copyOrMove makePlan
  cases opts.mode with
  | error e => rfl
  | ok mode =>
    simp only [bind_assoc]
    apply bind_congr
    intro source
    apply bind_congr
    intro destination
    cases overlap? source destination with
    | some e => rfl
    | none =>
      simp only [bind_assoc]
      apply bind_congr
      intro info
      split
      · rfl
      · rfl

/-- Delete what is at the destination of a move by copying, if something is. -/
def clearDestination (levels : Nat) (opts : TransferOptions) (destination : Path) :
    Option Entry → Operation Unit
  | none => pure ()
  | some old => replaceDestination levels opts destination old.isDirectory

/-- A move up to its copy phase; it is over before if a rename has done it. -/
def moveUntilCopy (levels : Nat) (m : MoveOptions) (opts : TransferOptions)
    (source destination : Path) (t : Tally) : Operation (Option Tally) := do
  let survey ← surveyMove opts source destination
  if survey.2.isSome && !m.replaceExisting then Operation.fail (.alreadyExists destination)
  else if survey.1 then
    match ← renameTree levels m opts source destination survey.2 t with
    | .done t => return some t
    | .toCopy existing =>
      clearDestination levels opts destination existing
      return none
  else if m.copyAllowed then
    clearDestination levels opts destination survey.2
    return none
  else Operation.fail (.notSameDevice source destination)

/-- A transfer up to its copy phase; it is over before if a rename has done it. -/
def untilCopy (levels : Nat) (opts : TransferOptions) (source destination : Path) :
    Operation (Outcome ⊕ Plan) := do
  let plan ← makePlan opts source destination
  match plan.mode with
  | .copy _ =>
    Operation.note (.copyingTree plan.source plan.destination)
    return .inr plan
  | .move m =>
    Operation.note (.movingTree plan.source plan.destination)
    match ← moveUntilCopy levels m opts plan.source plan.destination {} with
    | some t =>
      return .inl ⟨plan.source, plan.destination, true, t.canceled, t.entries, t.bytes⟩
    | none => return .inr plan

/-- What a transfer does once the tree is copied. -/
def afterCopy (levels : Nat) (opts : TransferOptions) (plan : Plan) (t : Tally) :
    Operation Outcome := do
  match plan.mode with
  | .copy _ => return ⟨plan.source, plan.destination, false, t.canceled, t.entries, t.bytes⟩
  | .move _ =>
    if t.canceled then Operation.note (.moveCanceled plan.source)
    else
      Removal.deleteResolved levels opts.deletion plan.source
      Operation.note (.movedByCopy plan.source plan.destination)
    return ⟨plan.source, plan.destination, true, t.canceled, t.entries, t.bytes⟩

theorem moveByCopy_eq (existing : Option Entry) (t : Tally) :
    moveByCopy levels m opts source destination existing t =
      clearDestination levels opts destination existing >>= fun _ =>
        copyAndDelete levels m opts source destination t := by
  cases existing with
  | none => rfl
  | some old => rfl

theorem moveTree_eq_phases (t : Tally) : moveTree levels m opts source destination t =
    moveUntilCopy levels m opts source destination t >>= fun result =>
      match result with
      | some t => pure t
      | none => copyAndDelete levels m opts source destination t := by
  rw [moveTree_eq, moveUntilCopy, bind_assoc]
  apply bind_congr
  intro survey
  unfold moveSurveyed
  split
  · rfl
  · split
    · rw [bind_assoc]
      apply bind_congr
      intro r
      cases r with
      | done t => rfl
      | toCopy existing => simp only [moveByCopy_eq, bind_assoc, pure_bind]
    · split
      · simp only [moveByCopy_eq, bind_assoc, pure_bind]
      · rfl

theorem copyAndDelete_eq (t : Tally) : copyAndDelete levels m opts source destination t =
    copyTree opts.transaction (TransferMode.move m).copyFlags levels true source destination t >>=
      fun t => if t.canceled then do
          Operation.note (.moveCanceled source)
          return t
        else do
          Removal.deleteResolved levels opts.deletion source
          Operation.note (.movedByCopy source destination)
          return t := rfl

/-- A transfer is what comes before the copy phase, the copy, and what comes after. -/
theorem copyOrMove_eq_phases : copyOrMove levels opts source destination =
    untilCopy levels opts source destination >>= fun result =>
      match result with
      | .inl outcome => pure outcome
      | .inr plan =>
        copyTree opts.transaction plan.mode.copyFlags levels true plan.source plan.destination {}
          >>= afterCopy levels opts plan := by
  rw [copyOrMove_eq, untilCopy, bind_assoc]
  apply bind_congr
  rintro ⟨mode, source, destination⟩
  unfold transferTree
  cases mode with
  | copy c =>
    simp only [bind_assoc, pure_bind]
    rfl
  | move m =>
    simp only [bind_assoc]
    apply bind_congr
    intro _
    rw [moveTree_eq_phases, bind_assoc]
    apply bind_congr
    intro result
    cases result with
    | some t => rfl
    | none =>
      simp only [copyAndDelete_eq, bind_assoc, pure_bind]
      apply bind_congr
      intro t
      unfold afterCopy
      dsimp only
      split
      · rfl
      · simp only [bind_assoc, pure_bind]

/-- What is done with an entry that tells about a node: a directory is left to `copyBelow`, a file
or link is copied. -/
theorem copyEntry_eq {tx : Option Transaction} {flags : CopyFlags}
    {copyBelow : Path → Path → Tally → Operation Tally} {destination : Path} {t : Tally} {e : Entry}
    {n : Node} (he : e.Describes n) :
    copyEntry tx flags copyBelow destination t e =
      if t.canceled then pure t
      else if n.kind = .directory then copyBelow e.path (destination.child (Utf8.encode e.name)) t
      else copyLeaf tx flags e (destination.child (Utf8.encode e.name)) n.isLink t := by
  unfold copyEntry
  rw [he.isReparsePoint, he.isDirectory, Node.isLink, Node.isDirectoryLike]
  cases n.kind <;> rfl

/-- An entry whose name is a text goes to a place of the same name. -/
theorem copyEntry_of_isText {tx : Option Transaction} {flags : CopyFlags}
    {copyBelow : Path → Path → Tally → Operation Tally} {destination : Path} {t : Tally} {e : Entry}
    {b : Bytes} {n : Node} (htext : Utf8.IsText b) (hname : e.name = Utf8.lossy b)
    (he : e.Describes n) :
    copyEntry tx flags copyBelow destination t e =
      if t.canceled then pure t
      else if n.kind = .directory then copyBelow e.path (destination.child b) t
      else copyLeaf tx flags e (destination.child b) n.isLink t := by
  rw [copyEntry_eq he, hname, Utf8.encode_lossy htext]

/-! ### Renames that fail -/

/-- The error for a rename that failed and is not made up for. -/
def renameError (source destination : Path) (e : NativeError) : TreeError :=
  if e.code = .notSameDevice then .notSameDevice source destination
  else if e.code.isAlreadyExists || e.code == .directoryNotEmpty then .alreadyExists destination
  else .ofNative source "move" e

/-- A missing source, a missing parent and another volume are no sign of something at the
destination. -/
theorem ne_of_isOccupied {code : NativeCode} (h : isOccupied code = true) :
    code ≠ .fileNotFound ∧ code ≠ .pathNotFound ∧ code ≠ .notSameDevice := by
  refine ⟨?_, ?_, ?_⟩
  · rintro rfl
    cases h
  · rintro rfl
    cases h
  · rintro rfl
    cases h

end Transfer

namespace Tree

variable {t : Tree} {source destination : Path} {n : Node}

/-- What prevents a rename at its destination is in the way. -/
theorem isOccupied_of_vacated_error {replace : Bool} {e : NativeError}
    (h : t.vacated n destination replace = .error e) :
    Transfer.isOccupied e.code = true ∧
      ∃ target, t.lookup destination.components = some target := by
  unfold vacated at h
  rw [PathMap.find?_eq_lookup] at h
  cases hl : t.lookup destination.components with
  | none =>
    rw [hl] at h
    cases h
  | some target =>
    simp only [hl] at h
    repeat' split at h
    all_goals cases h
    all_goals exact ⟨rfl, target, rfl⟩

/-- A rename whose source is there fails because its target lies in no directory, is on another
volume, or is taken. -/
theorem cases_of_withMoved_error {replace : Bool} {e : NativeError}
    (hn : t.lookup source.components = some n)
    (h : t.withMoved source destination replace = .error e) :
    e.code = .pathNotFound ∧ (∃ e', t.parentDirectory destination = .error e') ∨
      e.code = .notSameDevice ∨ Transfer.isOccupied e.code = true ∧
        ∃ target, t.lookup destination.components = some target := by
  unfold withMoved at h
  simp only [bind, Except.bind, node_eq_ok.mpr hn] at h
  cases hparent : t.parentDirectory destination with
  | error e' =>
    rw [hparent] at h
    obtain rfl := Except.error.inj h
    exact .inl ⟨parentDirectory_error hparent, _, rfl⟩
  | ok parent =>
    simp only [hparent] at h
    by_cases hvolume : parent.volume = n.volume
    · simp only [ne_eq, hvolume, not_true_eq_false, if_false, pure, Except.pure] at h
      cases hvacated : t.vacated n destination replace with
      | error e' =>
        rw [hvacated] at h
        obtain rfl := Except.error.inj h
        exact .inr (.inr (isOccupied_of_vacated_error hvacated))
      | ok v =>
        rw [hvacated] at h
        cases h
    · simp only [ne_eq, hvolume, not_false_eq_true, if_true] at h
      obtain rfl := Except.error.inj h
      exact .inr (.inl rfl)

end Tree

namespace Memory

open Transfer Operation

variable {tx : Option Transaction} {flags : CopyFlags} {failing canceling : Prop} {s : Scene}
  {err : Halt → Scene → Prop}

/-! ### Records -/

/-- The count with one more completed entry. -/
def counted (t : Tally) (bytes : UInt64) : Tally :=
  { t with entries := t.entries + 1, bytes := t.bytes + bytes }

/-- The scene with one more entry reported. -/
def reported (s : Scene) (t : Tally) (kind : ProgressKind) (source destination : Path)
    (bytes : UInt64) : Scene :=
  { s with
    records := s.records ++ [⟨kind, source, destination, bytes, t.entries + 1, t.bytes + bytes⟩] }

theorem ensures_record {t : Tally} {kind : ProgressKind} {source destination : Path}
    {bytes : UInt64} {ok : Tally × ProgressAction → Scene → Prop} :
    Ensures (Replies failing canceling) (record t kind source destination bytes) s ok err ↔
      ok (counted t bytes, .proceed) (reported s t kind source destination bytes) ∧
        (canceling →
          ok (counted t bytes, .cancel) (reported s t kind source destination bytes)) := by
  unfold record
  rw [Operation.ensures_bind]
  exact ensures_progress

theorem ensures_report {t : Tally} {kind : ProgressKind} {source destination : Path}
    {bytes : UInt64} {ok : Tally → Scene → Prop} :
    Ensures (Replies failing canceling) (report t kind source destination bytes) s ok err ↔
      ok (counted t bytes) (reported s t kind source destination bytes) ∧
        (canceling → ok { counted t bytes with canceled := true }
          (reported s t kind source destination bytes)) := by
  unfold report
  rw [Operation.ensures_bind, ensures_record]
  simp only [Operation.ensures_bind, ensures_note, ensures_pure]

/-! ### Copying and renaming -/

/-- Copying a file or link puts it at the target, or fails and changes nothing. -/
theorem ensures_copyLeaf {e : Entry} {target : Path} {asLink : Bool} {t : Tally} {n : Node}
    (hn : s.nodes.lookup e.path.components = some n) :
    Ensures (Replies failing canceling) (copyLeaf tx flags e target asLink t) s
      (fun t' s' => ∃ parent, s.nodes.parentDirectory target = .ok parent ∧
        s' = reported
          { s with
            nodes := s.nodes.insert target { n with volume := parent.volume, mounted := false } }
          t (if asLink then .linkCopied else .fileCopied) e.path target n.size ∧
        (t' = counted t n.size ∨ canceling ∧ t' = { counted t n.size with canceled := true }))
      (fun _ s' => s' = s ∧ (failing ∨ ¬∃ bytes t',
        s.nodes.withCopy e.path target { flags with copySymlink := asLink } =
          .ok (bytes, t'))) := by
  unfold copyLeaf
  rw [Operation.ensures_bind, ensures_perform]
  refine ⟨fun bytes hbytes => ?_, fun failure hfailure => ⟨rfl, ?_⟩⟩
  · simp only [Tree.perform] at hbytes ⊢
    split at hbytes
    · next bytes' t' hcopy =>
      obtain rfl := Except.ok.inj hbytes
      obtain ⟨n', hn', -, -, parent, hparent, rfl, rfl⟩ := Tree.withCopy_eq_ok.mp hcopy
      obtain rfl := Option.some.inj (hn.symm.trans hn')
      rw [hcopy, Operation.ensures_bind, ensures_note, ensures_report]
      exact ⟨⟨parent, hparent, rfl, .inl rfl⟩, fun hc => ⟨parent, hparent, rfl, .inr ⟨hc, rfl⟩⟩⟩
    · cases hbytes
  · refine hfailure.imp_right fun he => ?_
    rintro ⟨bytes, t', hcopy⟩
    simp only [Tree.perform, hcopy] at he
    cases he

/-- A rename moves the nodes as the call does, or changes nothing. -/
theorem ensures_tryRename {m : MoveOptions} {opts : TransferOptions} {source destination : Path}
    {mayRemove : Bool} {t : Tally} :
    Ensures (Replies failing canceling) (tryRename m opts source destination mayRemove t) s
      (fun r s' => match r with
        | .renamed t' => t'.canceled = t.canceled ∧
            s.nodes.withMoved source destination m.replaceExisting = .ok s'.nodes
        | .crossedVolumes => s' = s ∧
            (failing ∨ ∃ e, s.nodes.withMoved source destination m.replaceExisting = .error e)
        | .occupied => s' = s ∧ mayRemove = true ∧ ∃ e, isOccupied e.code = true ∧
            (failing ∨ s.nodes.withMoved source destination m.replaceExisting = .error e))
      (fun halt s' => s' = s ∧ ∃ e,
        (failing ∨ s.nodes.withMoved source destination m.replaceExisting = .error e) ∧
          halt = .failed (renameError source destination e) ∧
          (e.code = .notSameDevice → m.copyAllowed = false) ∧
          (mayRemove && isOccupied e.code) = false) := by
  unfold tryRename
  rw [Operation.ensures_bind, ensures_attempt]
  refine ⟨fun value hv => ?_, fun e he => ?_⟩
  · simp only [Operation.ensures_bind, ensures_record, ensures_note]
    exact ⟨ensures_pure.mpr ⟨rfl, Tree.update_ok hv⟩,
      fun _ => ensures_pure.mpr ⟨rfl, Tree.update_ok hv⟩⟩
  · replace he := he.imp_right Tree.update_error
    dsimp only
    by_cases hdevice : e.code = .notSameDevice
    · rw [if_pos hdevice]
      split
      · rw [Operation.ensures_bind, ensures_note]
        exact ensures_pure.mpr ⟨rfl, he.imp_right fun he => ⟨e, he⟩⟩
      · next hcopy =>
        refine ensures_fail.mpr ⟨rfl, e, he, ?_, fun _ => by simpa using hcopy, ?_⟩
        · rw [renameError, if_pos hdevice]
        · rw [hdevice]
          exact Bool.and_false _
    · rw [if_neg hdevice]
      split
      · next hoccupied =>
        rw [Bool.and_eq_true] at hoccupied
        exact ensures_pure.mpr ⟨rfl, hoccupied.1, e, hoccupied.2, he⟩
      · next hfree =>
        have hfailed (error : TreeError) (herror : error = renameError source destination e) :
            s = s ∧ ∃ e,
              (failing ∨ s.nodes.withMoved source destination m.replaceExisting = .error e) ∧
                Halt.failed error = .failed (renameError source destination e) ∧
                (e.code = .notSameDevice → m.copyAllowed = false) ∧
                (mayRemove && isOccupied e.code) = false :=
          ⟨rfl, e, he, by rw [herror], fun h => absurd h hdevice, by simpa using hfree⟩
        split
        · next htaken =>
          exact ensures_fail.mpr (hfailed _ (by rw [renameError, if_neg hdevice, if_pos htaken]))
        · next htaken =>
          exact ensures_fail.mpr (hfailed _ (by rw [renameError, if_neg hdevice, if_neg htaken]))

/-- Without failures, a rename of something that is there is refused only where there is no
directory for it, or on another volume if it may not be copied. It finds something in the way only
where that may be removed. -/
theorem ensures_tryRename_calm {m : MoveOptions} {opts : TransferOptions}
    {source destination : Path} {mayRemove : Bool} {t : Tally} {n : Node}
    (hn : s.nodes.lookup source.components = some n)
    (hfree : mayRemove = false → s.nodes.lookup destination.components = none) :
    Ensures (Replies False canceling) (tryRename m opts source destination mayRemove t) s
      (fun r s' => match r with
        | .renamed t' => t'.canceled = t.canceled ∧
            s.nodes.withMoved source destination m.replaceExisting = .ok s'.nodes
        | .crossedVolumes => s' = s
        | .occupied => s' = s ∧ mayRemove = true)
      (fun halt s' => s' = s ∧
        (halt = .failed (.notFound source) ∧ (∃ e, s.nodes.parentDirectory destination = .error e) ∨
          halt = .failed (.notSameDevice source destination) ∧ m.copyAllowed = false)) := by
  apply ensures_tryRename.mono
  · intro r s' hr
    cases r with
    | renamed t' => exact hr
    | crossedVolumes => exact hr.1
    | occupied => exact ⟨hr.1, hr.2.1⟩
  · rintro halt s' ⟨hs', e, hfailed, rfl, hdevice, hoccupied⟩
    refine ⟨hs', ?_⟩
    obtain ⟨code, osCode⟩ := e
    rcases Tree.cases_of_withMoved_error hn (hfailed.resolve_left id) with
      ⟨rfl, hparent⟩ | rfl | ⟨hcode, target, htarget⟩
    · exact .inl ⟨rfl, hparent⟩
    · exact .inr ⟨rfl, hdevice rfl⟩
    · rw [hcode, Bool.and_true] at hoccupied
      rw [hfree hoccupied] at htarget
      cases htarget

/-! ### Checking a transfer -/

/-- A transfer is refused for its options, for how its paths lie, or for what is at the source. -/
theorem ensures_makePlan {opts : TransferOptions} {source destination : Path}
    {ok : Plan → Scene → Prop} (hmode : ∀ e, opts.mode = .error e → err (.failed e) s)
    (hoverlap : ∀ e, overlap? source destination = some e → err (.failed e) s)
    (hmissing : ∀ e, failing ∨ s.nodes.entry source = .error e →
      err (.failed (.ofNative source "query" e)) s)
    (hfile : ∀ n, s.nodes.lookup source.components = some n → n.isDirectoryLike = false →
      err (.failed (.notADirectory source)) s)
    (hok : ∀ mode n, opts.mode = .ok mode → overlap? source destination = none →
      s.nodes.lookup source.components = some n → n.isDirectoryLike = true →
      ok ⟨mode, source, destination⟩ s) :
    Ensures (Replies failing canceling) (makePlan opts source destination) s ok err := by
  unfold makePlan
  split
  · next e he => exact ensures_fail.mpr (hmode e he)
  · next mode he =>
    simp only [Operation.ensures_bind, ensures_resolve]
    split
    · next e hoverlaps => exact ensures_fail.mpr (hoverlap e hoverlaps)
    · next hapart =>
      rw [Operation.ensures_bind, ensures_perform]
      constructor
      · intro info hinfo
        obtain ⟨n, hn, rfl⟩ := Tree.entry_eq_ok.mp hinfo
        rw [(n.describes_entryAt source).isDirectory]
        split
        · next hlike => exact ensures_fail.mpr (hfile n hn (by simpa using hlike))
        · next hlike => exact ensures_pure.mpr (hok mode n he hapart hn (by simpa using hlike))
      · exact hmissing

end Memory

end TreeOps
