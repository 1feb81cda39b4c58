import TreeOps.Proofs.Create
import TreeOps.Proofs.Path.Topology
import TreeOps.Proofs.Removal.Frame
import TreeOps.Proofs.Transfer.Steps

/-!
# What a copy leaves alone

Whatever fails on the way, a copy touches nothing but places at or below the destination, and places
above it where a directory was missing. What it writes below the destination has the text of a name
for its name, so all names on the way from the destination are valid UTF-8.
-/

namespace TreeOps

/-- The places at and below a place that are reached by names in valid UTF-8. -/
def Spelled (target place : Place) : Prop :=
  ∃ way, place = target ++ way ∧ ∀ b, .name b ∈ way → Utf8.IsText b

theorem spelled_self (target : Place) : Spelled target target := ⟨[], by simp, by simp⟩

theorem Spelled.below {target place : Place} (h : Spelled target place) : target <+: place := by
  obtain ⟨way, rfl, -⟩ := h
  exact List.prefix_append target way

theorem Spelled.of_child {target place : Place} {b : Bytes} (hb : Utf8.IsText b)
    (h : Spelled (target ++ [.name b]) place) : Spelled target place := by
  obtain ⟨way, rfl, hway⟩ := h
  refine ⟨.name b :: way, by simp, fun b' hb' => ?_⟩
  rcases List.mem_cons.mp hb' with hb' | hb'
  · rw [Component.name.inj hb']
    exact hb
  · exact hway b' hb'

/-- Where a copy puts an entry. -/
theorem components_copied (destination : Path) {b : Bytes} (h : IsName b) :
    (destination.child (Utf8.encode (Utf8.lossy b))).components =
      destination.components ++ [.name (Utf8.encode (Utf8.lossy b))] :=
  Path.components_child destination (Utf8.isName_encode_lossy h)

namespace Transfer

/-- A tree may be transferred if its source and its destination are apart up to case. -/
theorem overlap_eq_none_iff {source destination : Path} : overlap? source destination = none ↔
    Apart source.foldedComponents destination.foldedComponents := by
  constructor
  · intro h
    unfold overlap? at h
    split at h
    · cases h
    · split at h
      · cases h
      · split at h
        · cases h
        · next hsame hinside houtside =>
          simp only [Bool.not_eq_true] at hsame hinside houtside
          exact ⟨Path.not_prefix_of_isWithin_eq_false hsame hinside,
            Path.not_prefix_of_isWithin_eq_false (Path.samePlace_comm .. ▸ hsame) houtside⟩
  · intro h
    simp [overlap?, Path.samePlace_eq_false h, Path.isWithin_eq_false h,
      Path.isWithin_eq_false h.symm]

end Transfer

namespace Memory

open Transfer

variable {tx : Option Transaction} {flags : CopyFlags} {places : Place → Prop}
  {source destination : Path}

theorem touches_progress {progress : Progress} :
    Touches places (ExceptT.lift (Program.request (.report progress))) :=
  fun _ => ensures_progress.mpr ⟨⟨.refl _, trivial⟩, fun _ => ⟨.refl _, trivial⟩⟩

theorem touches_report {t : Tally} {kind : ProgressKind} {bytes : UInt64} :
    Touches places (report t kind source destination bytes) := by
  have hrecord : Touches places (record t kind source destination bytes) := by
    unfold record
    exact touches_bind touches_progress fun _ _ => touches_pure trivial
  refine touches_bind hrecord fun result _ => ?_
  obtain ⟨t', action⟩ := result
  cases action with
  | proceed => exact touches_pure trivial
  | cancel => exact touches_seq touches_note (touches_pure trivial)

theorem touches_copyLeaf {e : Entry} {asLink : Bool} {t : Tally} :
    Touches (destination.components = ·) (copyLeaf tx flags e destination asLink t) :=
  touches_bind touches_perform fun _ _ => touches_seq touches_note touches_report

theorem touches_copyEntry {copyBelow : Path → Path → Tally → Operation Tally}
    (h : ∀ source destination t,
      Touches (Spelled destination.components) (copyBelow source destination t))
    {e : Entry} {b : Bytes} (hname : IsName b) (htext : e.name = Utf8.lossy b) (t : Tally) :
    Touches (Spelled (destination.components ++ [.name (Utf8.encode (Utf8.lossy b))]))
      (copyEntry tx flags copyBelow destination t e) := by
  have htarget := components_copied destination hname
  rw [← htarget, ← htext]
  have hleaf (asLink : Bool) : Touches (Spelled (destination.child (Utf8.encode e.name)).components)
      (copyLeaf tx flags e (destination.child (Utf8.encode e.name)) asLink t) :=
    touches_copyLeaf.mono fun place he => he ▸ spelled_self _
  unfold copyEntry
  dsimp only
  split
  · exact touches_pure trivial
  · split
    · exact hleaf true
    · split
      · exact h _ _ t
      · exact hleaf false

theorem touches_copyContents {copyBelow : Path → Path → Tally → Operation Tally}
    (h : ∀ source destination t,
      Touches (Spelled destination.components) (copyBelow source destination t))
    (source destination : Path) (t : Tally) :
    Touches (Spelled destination.components)
      (copyContents tx flags copyBelow source destination t) := by
  refine touches_bind touches_report fun t _ => ?_
  split
  · exact touches_pure trivial
  · refine touches_bind touches_childEntries fun entries hentries => ?_
    refine touches_foldlM fun t e he => ?_
    obtain ⟨b, hname, -, htext⟩ := hentries e he
    exact (touches_copyEntry h hname htext t).mono fun place =>
      Spelled.of_child (Utf8.isText_encode _)

/-- A copy touches places reached from the destination by names in valid UTF-8, and its root copy
places above the destination as well. -/
theorem touches_copyTree (levels : Nat) (isRoot : Bool) (source destination : Path) (t : Tally) :
    Touches (fun place => Spelled destination.components place ∨
        isRoot = true ∧ place <+: destination.components)
      (copyTree tx flags levels isRoot source destination t) := by
  induction levels generalizing isRoot source destination t with
  | zero => exact touches_throw
  | succ levels ih =>
    have hbelow (source destination : Path) (t : Tally) :
        Touches (Spelled destination.components)
          (copyTree tx flags levels false source destination t) :=
      (ih false source destination t).mono fun place h => h.resolve_right (by simp)
    have hcontents : Touches (fun place => Spelled destination.components place ∨
        isRoot = true ∧ place <+: destination.components)
          (copyContents tx flags (copyTree tx flags levels false) source destination t) :=
      (touches_copyContents hbelow source destination t).mono fun _ => .inl
    cases isRoot with
    | false =>
      rw [copyTree_inner]
      exact touches_seq (touches_createOne.mono fun _ he => .inl (he ▸ spelled_self _)) hcontents
    | true =>
      rw [copyTree_root]
      exact touches_seq (touches_createResolved.mono fun _ h => .inr ⟨rfl, h⟩) hcontents

/-- Deleting what is at a destination touches nothing but what is at or below it. -/
theorem touches_replaceDestination {levels : Nat} {opts : TransferOptions} {isDirectory : Bool} :
    Touches (destination.components <+: ·)
      (replaceDestination levels opts destination isDirectory) := by
  refine touches_seq touches_note ?_
  split
  · exact touches_deleteResolved levels destination
  · exact touches_deleteFile.mono fun place he => he ▸ List.prefix_refl _

theorem touches_firstExisting (l : List Path) : Touches places (firstExisting tx l) := by
  induction l with
  | nil => exact touches_pure trivial
  | cons p l ih =>
    refine touches_bind (touches_attempt.mono fun _ => False.elim) fun result _ => ?_
    cases result with
    | ok e => exact touches_pure trivial
    | error e => exact ih

theorem touches_queryDestination : Touches places (queryDestination tx destination) := by
  refine touches_bind (touches_attempt.mono fun _ => False.elim) fun result _ => ?_
  cases result with
  | ok info => exact touches_pure trivial
  | error e =>
    dsimp only
    split
    · exact touches_pure trivial
    · exact touches_fail

theorem touches_surveyMove {opts : TransferOptions} :
    Touches places (surveyMove opts source destination) := by
  refine touches_bind (touches_firstExisting _) fun anchor _ => ?_
  cases anchor with
  | none => exact touches_fail
  | some anchor =>
    refine touches_bind (touches_perform.mono fun _ => False.elim) fun onOneVolume _ => ?_
    exact touches_bind touches_queryDestination fun _ _ => touches_pure trivial

end Memory

end TreeOps
