import TreeOps.Proofs.Errors.Reports
import TreeOps.Proofs.Transfer.Complete

/-!
# What halts a copy

A copy follows the source and the destination together, so what can be said about its errors is said
of pairs of paths, each with the levels that are left there. A rule tells how a pair leads to the
pairs of its entries, which errors are admitted at a pair, and what is kept of the nodes although
the copy writes to the destination. Then one step makes a directory and goes through its entries,
and the whole copy follows by induction on the levels.
-/

namespace TreeOps.Memory

open Transfer Operation

/-- What is to be known of the pairs of paths that a copy to `destination` comes to. -/
structure CopyRule (failing : Prop) (flags : CopyFlags) (destination : Place)
    (pair : Nat → Path → Path → Prop) (inv : Tree → Prop) (err : Halt → Scene → Prop) : Prop where
  admits : Admits failing (fun _ => True) err
  below : ∀ levels p target, pair levels p target → destination <+: target.components
  kept : ∀ t t', Tree.AgreeOutside
    (fun place => destination <+: place ∨ place <+: destination) t t' → inv t → inv t'
  child : ∀ levels p target t e, pair (levels + 1) p target → inv t → e ∈ t.entriesOf p →
    pair levels e.path (target.child (Utf8.encode e.name))
  refused : ∀ levels p target base b asLink s e, pair levels p target →
    target.components = base ++ [.name b] →
      failing ∨ s.nodes.withCopy p target { flags with copySymlink := asLink } = .error e →
    err (.failed (copyError p target e)) s
  deep : ∀ p target s, pair 0 p target → inv s.nodes → err .tooDeep s

theorem reports_report {failing : Prop} {inv : Tree → Prop} {err : Halt → Scene → Prop} {t : Tally}
    {kind : ProgressKind} {source destination : Path} {bytes : UInt64} :
    Reports failing inv err (report t kind source destination bytes) :=
  fun _ hs => ensures_report.mpr ⟨hs, fun _ => hs⟩

namespace CopyRule

variable {failing : Prop} {flags : CopyFlags} {destination : Place}
  {pair : Nat → Path → Path → Prop} {inv : Tree → Prop} {err : Halt → Scene → Prop}
  {tx : Option Transaction} {levels : Nat} {p target : Path} {t : Tally}
  (h : CopyRule failing flags destination pair inv err)

include h

/-- What is done along the destination keeps the invariant. -/
theorem reports_of_touches {places : Place → Prop} {α : Type} {make : Operation α}
    (hreports : Reports failing (fun _ => True) err make) (htouches : Touches places make)
    (hplaces : ∀ place, places place → destination <+: place ∨ place <+: destination) :
    Reports failing inv err make := by
  intro s hs
  apply ((hreports.ensures s).and (htouches.ensures s)).mono
  · rintro _ s' ⟨-, hagree, -⟩
    exact h.kept _ _ (hagree.mono hplaces) hs
  · rintro _ _ ⟨herr, -⟩
    exact herr

theorem reports_copyLeaf {e : Entry} {asLink : Bool} {base : Place} {b : Bytes}
    (hpair : pair levels e.path target) (hlast : target.components = base ++ [.name b]) :
    Reports failing inv err (copyLeaf tx flags e target asLink t) := by
  refine h.reports_of_touches ?_ touches_copyLeaf ?_
  · intro s _
    unfold copyLeaf
    rw [Operation.ensures_bind, ensures_perform]
    constructor
    · intro bytes _
      exact (reports_bind reports_note fun _ => reports_report).ensures _
    · intro failure hfailure
      apply h.refused levels e.path target base b asLink s failure hpair hlast
      apply hfailure.imp_right
      intro hperform
      simp only [Tree.perform] at hperform
      split at hperform
      · cases hperform
      · next hcopy => exact hcopy.trans (congrArg _ (Except.error.inj hperform))
  · rintro place rfl
    exact .inl (h.below _ _ _ hpair)

theorem reports_copyEntry {copyBelow : Path → Path → Tally → Operation Tally}
    (hcopy : ∀ p target t, pair levels p target → Reports failing inv err (copyBelow p target t))
    (hpair : pair (levels + 1) p target) {t₀ : Tree} (ht₀ : inv t₀) {e : Entry}
    (he : e ∈ t₀.entriesOf p) :
    Reports failing inv err (copyEntry tx flags copyBelow target t e) := by
  obtain ⟨b, -, hname, -, htext, -⟩ := Tree.exists_of_mem_entriesOf he
  have hchild := h.child levels p target t₀ e hpair ht₀ he
  have hplace := components_copied target hname
  rw [← htext] at hplace
  unfold copyEntry
  dsimp only
  split
  · exact reports_pure
  · split
    · exact h.reports_copyLeaf hchild hplace
    · split
      · exact hcopy _ _ t hchild
      · exact h.reports_copyLeaf hchild hplace

theorem reports_copyContents {copyBelow : Path → Path → Tally → Operation Tally}
    (hcopy : ∀ p target t, pair levels p target → Reports failing inv err (copyBelow p target t))
    (hpair : pair (levels + 1) p target) :
    Reports failing inv err (copyContents tx flags copyBelow p target t) := by
  apply reports_bind reports_report
  intro t
  split
  · exact reports_pure
  · intro s hs
    rw [Operation.ensures_bind, ensures_childEntries]
    constructor
    · intro _ _ _
      apply ensures_foldlM (fun _ _ (s' : Scene) => inv s'.nodes) hs
      intro before e after t' s' hl hs'
      have he : e ∈ s.nodes.entriesOf p := by simp [hl]
      exact h.reports_copyEntry hcopy hpair hs he s' hs'
    · intro _ _
      exact h.admits _ _ rfl trivial (.inr trivial)

/-- A copy is halted as the rule admits, and keeps the invariant. -/
theorem reports_copyTree (isRoot : Bool) (hpair : pair levels p target) :
    Reports failing inv err (copyTree tx flags levels isRoot p target t) := by
  induction levels generalizing isRoot p target t with
  | zero => exact fun s hs => ensures_throw.mpr (h.deep p target s hpair hs)
  | succ levels ih =>
    have hbelow := h.below _ _ _ hpair
    have hcontents : Reports failing inv err
        (copyContents tx flags (copyTree tx flags levels false) p target t) := by
      apply h.reports_copyContents _ hpair
      intro p target t hpair
      exact ih false hpair
    cases isRoot with
    | true =>
      rw [copyTree_root]
      apply reports_bind _ fun _ => hcontents
      apply h.reports_of_touches (reports_createResolved h.admits) touches_createResolved
      intro place hplace
      exact List.prefix_or_prefix_of_prefix hbelow hplace
    | false =>
      rw [copyTree_inner]
      apply reports_bind _ fun _ => hcontents
      apply h.reports_of_touches (reports_createOne h.admits) touches_createOne
      rintro place rfl
      exact .inl hbelow

end CopyRule

end TreeOps.Memory
