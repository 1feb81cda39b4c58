import TreeOps.Proofs.Removal.Frame
import TreeOps.Proofs.Transfer.Complete
import TreeOps.Proofs.Transfer.Phases

/-!
# A move loses nothing

Whatever fails on the way and wherever the listener cancels, every file and link of the source of a
move is at the source or at the destination afterwards. A rename takes all of them to the
destination at once. A move by copying starts to delete the source only after a copy that was not
canceled, which is complete, and the delete touches nothing at the destination.
-/

namespace TreeOps

/-- Every file and link that is seen is below one of two places, with the same kind and size. -/
def KeepsLeaves (view : Place → Option Node) (t : Tree) (source destination : Place) : Prop :=
  ∀ way n, view way = some n → n.kind ≠ .directory →
    (∃ n', t.lookup (source ++ way) = some n' ∧ n'.content = n.content) ∨
      ∃ n', t.lookup (destination ++ way) = some n' ∧ n'.content = n.content

section Leaves

variable {view : Place → Option Node} {t : Tree} {source destination : Place}

theorem keepsLeaves_of_source (h : ∀ way, t.branch source way = view way) :
    KeepsLeaves view t source destination :=
  fun way n hn _ => .inl ⟨n, (h way).trans hn, rfl⟩

theorem keepsLeaves_of_destination (h : HoldsLeaves view t destination) :
    KeepsLeaves view t source destination :=
  fun way n hn hk => .inr (h way n hn hk)

theorem HoldsLeaves.of_agree {t' : Tree} (h : HoldsLeaves view t destination)
    (hapart : Apart source destination) (hagree : Tree.AgreeOutside (source <+: ·) t t') :
    HoldsLeaves view t' destination := by
  intro way n hn hk
  obtain ⟨n', hn', hcontent⟩ := h way n hn hk
  exact ⟨n', (hapart.symm.lookup_eq (hagree.mono fun _ => .inl) way).trans hn', hcontent⟩

end Leaves

namespace Memory

open Transfer Operation

section Move

variable {view : Place → Option Node} {s : Scene} {source destination : Path} {levels : Nat}
  {opts : TransferOptions} {m : MoveOptions}
  (hsame : ∀ way, s.nodes.branch source.components way = view way)
  (hapart : Apart source.components destination.components)

include hsame hapart

/-- What changes along the destination only leaves the source as it is. -/
theorem branch_eq_of_agree {t : Tree}
    (hagree : Tree.AgreeOutside (destination.components <+: ·) s.nodes t) (way : Place) :
    t.branch source.components way = view way :=
  (hapart.lookup_eq (hagree.mono fun _ => .inl) way).trans (hsame way)

/-- A rename takes every file and link to the destination. -/
theorem holdsLeaves_of_withMoved {t : Tree} {replace : Bool} (hne : source.components ≠ [])
    (h : s.nodes.withMoved source destination replace = .ok t) :
    HoldsLeaves view t destination.components := by
  obtain ⟨n', -, -, -, -, v, hvacated, rfl⟩ := Tree.withMoved_eq_ok.mp h
  intro way n hn _
  have hagree : Tree.AgreeOutside (destination.components <+: ·) s.nodes v :=
    (Tree.agreeOutside_vacated hvacated).mono fun place he => he ▸ List.prefix_refl _
  have hv : v.lookup (source.components ++ way) = some n :=
    (branch_eq_of_agree hsame hapart hagree way).trans hn
  refine ⟨n, ?_, rfl⟩
  rw [Tree.lookup_relocate_below hne, hv, Option.some_or]

omit hsame in
/-- Until a rename takes everything to the destination, the source is as it was. -/
theorem phases_keepsLeaves (hne : source.components ≠ []) (t : Tally) :
    Phases (Replies True True) levels m opts source destination t
      (fun _ s => ∀ way, s.nodes.branch source.components way = view way)
      (fun _ s => KeepsLeaves view s.nodes source.components destination.components)
      (fun _ s => KeepsLeaves view s.nodes source.components destination.components) where
  taken _ _ _ hs := keepsLeaves_of_source hs
  refuse _ _ _ hs := keepsLeaves_of_source hs
  attempt _ s hs := by
    refine attempted_tryRename hs (fun _ _ _ hmoved => ?_) fun _ => keepsLeaves_of_source hs
    exact keepsLeaves_of_destination (holdsLeaves_of_withMoved hs hapart hne hmoved)
  replace _ s hs := by
    apply (touches_replaceDestination.ensures s).mono
    · exact fun _ _ h => branch_eq_of_agree hs hapart h.1
    · exact fun _ _ h => keepsLeaves_of_source (branch_eq_of_agree hs hapart h)

section Copy

variable {bound : Nat} (hview : Regular view bound) (htext : Textual view)
  (hroot : ∃ n, view [] = some n ∧ n.kind = .directory)

include hview htext hroot

/-- The source is deleted only after a copy that is complete, and what the copy has made is not
touched then. -/
theorem ensures_copyAndDelete_keepsLeaves (t : Tally) :
    Ensures (Replies True True) (copyAndDelete levels m opts source destination t) s
      (fun _ s' => KeepsLeaves view s'.nodes source.components destination.components)
      (fun _ s' => KeepsLeaves view s'.nodes source.components destination.components) := by
  have hsource {t' : Tree} (hagree : Tree.AgreeOutside (fun place =>
      Spelled destination.components place ∨ true = true ∧ place <+: destination.components)
        s.nodes t') (way : Place) : t'.branch source.components way = view way :=
    (hapart.lookup_eq (hagree.mono fun _ => Or.imp Spelled.below And.right) way).trans (hsame way)
  unfold copyAndDelete
  rw [Operation.ensures_bind]
  refine (((touches_copyTree levels true source destination t).ensures s).and
    (copiesLeaves_copyTree levels true view bound source destination t s hview htext hroot hsame
      hapart)).mono ?_ fun _ _ h => keepsLeaves_of_source (hsource h.1)
  rintro t' s' ⟨⟨hagree, -⟩, hcomplete⟩
  split
  · rw [Operation.ensures_bind, ensures_note]
    exact ensures_pure.mpr (keepsLeaves_of_source (hsource hagree))
  · next hcanceled =>
    -- The copy is complete here, so from now on only the destination has to be left alone.
    have hholds := hcomplete (by simpa using hcanceled)
    have hkept {t : Tree} (h : Tree.AgreeOutside (source.components <+: ·) s'.nodes t) :
        KeepsLeaves view t source.components destination.components :=
      keepsLeaves_of_destination (hholds.of_agree hapart h)
    rw [Operation.ensures_bind]
    refine ((touches_deleteResolved levels source).ensures s').mono (fun _ _ h => ?_)
      fun _ _ h => hkept h
    rw [Operation.ensures_bind, ensures_note]
    exact ensures_pure.mpr (hkept h.1)

theorem ensures_moveTree_keepsLeaves (hne : source.components ≠ []) (t : Tally) :
    Ensures (Replies True True) (moveTree levels m opts source destination t) s
      (fun _ s' => KeepsLeaves view s'.nodes source.components destination.components)
      (fun _ s' => KeepsLeaves view s'.nodes source.components destination.components) := by
  apply (phases_keepsLeaves hapart hne t).ensures_moveTree
  · apply (touches_surveyMove.ensures s).mono
    · exact fun _ _ h => branch_eq_of_agree hsame hapart h.1
    · exact fun _ _ h => keepsLeaves_of_source (branch_eq_of_agree hsame hapart h)
  · intro _ hs
    exact ensures_copyAndDelete_keepsLeaves hs hapart hview htext hroot t

end Copy

end Move

/-- A move keeps every file and link of the source at the source or at the destination, whatever
fails and however it ends. -/
theorem ensures_copyOrMove_keepsLeaves {s : Scene} {source destination : Path} {levels bound : Nat}
    {opts : TransferOptions} {m : MoveOptions} (hmode : opts.mode = .ok (.move m))
    (hview : Regular (s.nodes.branch source.components) bound)
    (htext : Textual (s.nodes.branch source.components))
    (hroot : s.nodes.IsDirectoryAt source.components) (hne : source.components ≠ []) :
    Ensures (Replies True True) (copyOrMove levels opts source destination) s
      (fun _ s' => KeepsLeaves (s.nodes.branch source.components) s'.nodes source.components
        destination.components)
      (fun _ s' => KeepsLeaves (s.nodes.branch source.components) s'.nodes source.components
        destination.components) := by
  have hkept : KeepsLeaves (s.nodes.branch source.components) s.nodes source.components
      destination.components := keepsLeaves_of_source fun _ => rfl
  rw [copyOrMove_eq, Operation.ensures_bind]
  apply ensures_makePlan
  · exact fun _ _ => hkept
  · exact fun _ _ => hkept
  · exact fun _ _ => hkept
  · exact fun _ _ _ => hkept
  · intro mode n hmode' hoverlap _ _
    obtain rfl := Except.ok.inj (hmode.symm.trans hmode')
    have hapart := Path.apart (overlap_eq_none_iff.mp hoverlap)
    have hroot' : ∃ n, s.nodes.branch source.components [] = some n ∧ n.kind = .directory := by
      rw [PathMap.branch_nil]
      exact hroot
    unfold transferTree
    simp only [Operation.ensures_bind, ensures_note]
    exact (ensures_moveTree_keepsLeaves (fun _ => rfl) hapart hview htext hroot' hne {}).mono_ok
      fun _ _ h => ensures_pure.mpr h

/-- No data is lost by a move. Whatever failures are scripted, at whichever entry the listener
cancels and however the move ends, each file and link of the source is at the same way from the
source or from the destination, with the kind and size that it had. -/
theorem leaves_survive_move (m : Memory) (listener : Listener) (levels : Nat)
    (opts : TransferOptions) (move : MoveOptions) (source destination : Path)
    (hwf : m.nodes.WellFormed) (htext : m.nodes.IsTextual) (hmode : opts.mode = .ok (.move move))
    (hsource : m.nodes.IsDirectoryAt source.components) :
    KeepsLeaves (m.nodes.branch source.components)
      (m.runs listener (copyOrMove levels opts source destination)).memory.nodes
      source.components destination.components := by
  have hne := hwf.ne_nil_of_directory hsource
  have hensures : Ensures (Replies True True) (copyOrMove levels opts source destination)
      ⟨m.nodes, []⟩ _ _ := ensures_copyOrMove_keepsLeaves hmode (hwf.regular (Nat.le_refl _) hne)
    (htext.textual_branch _) hsource hne
  exact (ends_runs listener (.inl trivial) (fun _ _ => trivial) hensures).elim

/-- A move across volumes whose copy fails at a file. -/
theorem leaves_survive_move_denied :
    let m := ((new.addFile "/s/f" 3).setVolume "/s" 1).addFailure
      ⟨.copy, "/s/f", .accessDenied, none⟩
    let run := m.runs {}
      (copyOrMove m.levels { move := some { copyAllowed := true } } "/s" "/d")
    KeepsLeaves (m.nodes.branch (Path.components "/s")) run.memory.nodes (Path.components "/s")
      (Path.components "/d") :=
  leaves_survive_move _ _ _ _ { copyAllowed := true } _ _ (by decide) (by decide) rfl ⟨_, rfl, rfl⟩

end Memory

end TreeOps
