import TreeOps.Proofs.Program.Ensures
import TreeOps.Proofs.Transfer.Steps

/-!
# The phases of a move

A move finds out what is at its destination and tries to rename. If something is in the way, that is
removed and the rename tried again; if a rename cannot be had, the tree is copied and the source
deleted. So what a move comes to follows from what each phase hands on to the next, and that is told
by what may still be at the destination.
-/

namespace TreeOps

namespace Transfer

open Operation

variable {σ : Type} {R : Answering σ} {levels : Nat} {m : MoveOptions} {opts : TransferOptions}
  {source destination : Path} {t : Tally} {ready : Option Entry → σ → Prop} {ok : Tally → σ → Prop}
  {err : Halt → σ → Prop}

/-- How things are after an attempt to rename: well, or as they were left. -/
def Attempted (ok : Tally → σ → Prop) (left : σ → Prop) : Rename → σ → Prop
  | .renamed t, s => ok t s
  | .crossedVolumes, s | .occupied, s => left s

/-- How things are when renaming has ended: well, or ready for copying. -/
def Renamed (ok : Tally → σ → Prop) (ready : Option Entry → σ → Prop) : Renaming → σ → Prop
  | .done t, s => ok t s
  | .toCopy existing, s => ready existing s

/-- What the phases of a move hand on. A state is ready if the move can go on from it, with the
given entry still to be removed from the destination. -/
structure Phases (R : Answering σ) (levels : Nat) (m : MoveOptions) (opts : TransferOptions)
    (source destination : Path) (t : Tally) (ready : Option Entry → σ → Prop)
    (ok : Tally → σ → Prop) (err : Halt → σ → Prop) : Prop where
  taken : m.replaceExisting = false → ∀ old s, ready (some old) s →
    err (.failed (.alreadyExists destination)) s
  refuse : m.copyAllowed = false → ∀ existing s, ready existing s →
    err (.failed (.notSameDevice source destination)) s
  attempt : ∀ existing s, ready existing s →
    Ensures R (tryRename m opts source destination existing.isSome t) s
      (Attempted ok (ready existing)) err
  replace : ∀ old s, ready (some old) s →
    Ensures R (replaceDestination levels opts destination old.isDirectory) s
      (fun _ s' => ready none s') err

namespace Phases

variable (h : Phases R levels m opts source destination t ready ok err) {existing : Option Entry}
  {s : σ}
include h

theorem ensures_renameAgain (hs : ready none s) :
    Ensures R (renameAgain m opts source destination t) s (Renamed ok ready) err := by
  unfold renameAgain
  rw [ensures_bind]
  refine (h.attempt none s hs).mono_ok fun r s' hr => ?_
  cases r with
  | renamed t' => exact hr
  | crossedVolumes => exact hr
  | occupied => exact hr

theorem ensures_renameTree (hs : ready existing s) :
    Ensures R (renameTree levels m opts source destination existing t) s (Renamed ok ready)
      err := by
  unfold renameTree
  rw [ensures_bind]
  refine (h.attempt existing s hs).mono_ok fun r s' hr => ?_
  cases r with
  | renamed t' => exact hr
  | crossedVolumes => exact hr
  | occupied =>
    cases existing with
    | none => exact h.ensures_renameAgain hr
    | some old =>
      change Ensures R (replaceDestination levels opts destination old.isDirectory >>=
        fun _ => renameAgain m opts source destination t) s' _ _
      rw [ensures_bind]
      exact (h.replace old s' hr).mono_ok fun _ _ hs' => h.ensures_renameAgain hs'

theorem ensures_cleared (hs : ready existing s) :
    Ensures R (do clearDestination levels opts destination existing; return none) s
      (fun result s' => match result with
        | some t' => ok t' s'
        | none => ready none s') err := by
  cases existing with
  | none => exact ensures_pure.mpr hs
  | some old =>
    rw [ensures_bind]
    apply (h.replace old s hs).mono_ok
    intro _ s' hs'
    exact ensures_pure.mpr hs'

/-- If the survey leaves things ready, a move is done or ready for the copy. -/
theorem ensures_moveUntilCopy (hsurvey : Ensures R (surveyMove opts source destination) s
      (fun survey s' => ready survey.2 s') err) :
    Ensures R (moveUntilCopy levels m opts source destination t) s
      (fun result s' => match result with
        | some t' => ok t' s'
        | none => ready none s') err := by
  unfold moveUntilCopy
  rw [ensures_bind]
  apply hsurvey.mono_ok
  rintro ⟨onOneVolume, existing⟩ s' hs
  dsimp only
  split
  · next htaken =>
    rw [Bool.and_eq_true] at htaken
    obtain ⟨old, rfl⟩ := Option.isSome_iff_exists.mp htaken.1
    exact ensures_fail.mpr (h.taken (by simpa using htaken.2) old s' hs)
  · split
    · rw [ensures_bind]
      apply (h.ensures_renameTree hs).mono_ok
      intro r s'' hr
      cases r with
      | done t' => exact ensures_pure.mpr hr
      | toCopy existing => exact h.ensures_cleared hr
    · split
      · exact h.ensures_cleared hs
      · next hcopy => exact ensures_fail.mpr (h.refuse (by simpa using hcopy) existing s' hs)

/-- If the survey leaves things ready, the move ends as its phases do. -/
theorem ensures_moveTree (hsurvey : Ensures R (surveyMove opts source destination) s
      (fun survey s' => ready survey.2 s') err)
    (hcopy : ∀ s, ready none s →
      Ensures R (copyAndDelete levels m opts source destination t) s ok err) :
    Ensures R (moveTree levels m opts source destination t) s ok err := by
  rw [moveTree_eq_phases, ensures_bind]
  apply (h.ensures_moveUntilCopy hsurvey).mono_ok
  intro result s' hs
  cases result with
  | some t' => exact ensures_pure.mpr hs
  | none => exact hcopy s' hs

end Phases

end Transfer

namespace Memory

open Transfer Operation

/-- An attempt to rename moves the nodes, or leaves everything as it was. -/
theorem attempted_tryRename {failing canceling : Prop} {m : MoveOptions} {opts : TransferOptions}
    {source destination : Path} {mayRemove : Bool} {t : Tally} {s : Scene} {inv : Scene → Prop}
    {ok : Tally → Scene → Prop} {err : Halt → Scene → Prop} (hs : inv s)
    (hrenamed : ∀ t' s', t'.canceled = t.canceled →
      s.nodes.withMoved source destination m.replaceExisting = .ok s'.nodes → ok t' s')
    (hfailed : ∀ e, err (.failed (renameError source destination e)) s) :
    Ensures (Replies failing canceling) (tryRename m opts source destination mayRemove t) s
      (Attempted ok inv) err := by
  apply ensures_tryRename.mono
  · intro r s' hr
    cases r with
    | renamed t' => exact hrenamed t' s' hr.1 hr.2
    | crossedVolumes => exact hr.1 ▸ hs
    | occupied => exact hr.1 ▸ hs
  · rintro halt _ ⟨rfl, e, -, rfl, -⟩
    exact hfailed e

end Memory

end TreeOps
