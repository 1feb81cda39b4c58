import Mathlib.Algebra.GroupWithZero.Nat
import TreeOps.Proofs.Requests
import TreeOps.Proofs.Transfer.Phases

/-!
# The course of a transfer

Seen by its listener, a transfer reports one entry after another until it is over or the listener
stops it. After that it asks for nothing any more and only leaves notes. Whatever the requests are
answered with, the count that a transfer keeps is the count of what it has reported, and it is
marked as canceled just when it was stopped. A rename is the one entry at which it cannot be
stopped, since nothing is left to do then; a copy reports none.
-/

namespace TreeOps

/-- How far a transfer has come, as its listener sees it. -/
inductive Course where
  | running (records : List Progress)
  | stopped (records : List Progress)
  /-- Something was asked for after the stop. -/
  | overrun

namespace Course

/-- What an answered request makes of the course. -/
def next (c : Course) : (r : Request) → r.Answer → Course
  | .note _, _ => c
  | .report p, action =>
    match c with
    | running records =>
      if action = ProgressAction.cancel ∧ p.kind ≠ .treeMoved then stopped (records ++ [p])
      else running (records ++ [p])
    | _ => overrun
  | _, _ =>
    match c with
    | running records => running records
    | _ => overrun

end Course

/-- Any answer will do; the course follows it. -/
def heeding : Answering Course := fun r c a c' => c' = c.next r a

/-- Whether a request reports no entry. -/
def Request.IsSilent : Request → Prop
  | .report _ => False
  | _ => True

theorem Request.Looks.silent {tx : Option Transaction} {r : Request} (h : r.Looks tx) :
    r.IsSilent := by
  cases r with
  | report p => exact h
  | _ => trivial

theorem Request.Removes.silent {tx : Option Transaction} {root : Place} {r : Request}
    (h : r.Removes tx root) : r.IsSilent := by
  cases r with
  | report p => exact h
  | _ => trivial

theorem Request.Creates.silent {tx : Option Transaction} {made : Path → Prop} {r : Request}
    (h : r.Creates tx made) : r.IsSilent := by
  cases r with
  | report p => exact h
  | _ => trivial

/-- The requests of a copy: it looks, makes directories and copies, and it reports no rename. -/
def Request.Copies (tx : Option Transaction) : Request → Prop
  | .call tx' (.list _) | .call tx' (.query _) | .call tx' (.createDirectory _)
  | .call tx' (.copy ..) => tx' = tx
  | .report p => p.kind ≠ .treeMoved
  | .resolve _ | .note _ => True
  | _ => False

theorem Request.Creates.copies {tx : Option Transaction} {made : Path → Prop} {r : Request}
    (h : r.Creates tx made) : r.Copies tx := by
  cases r with
  | call tx' c =>
    cases c with
    | query => exact h
    | createDirectory => exact h.1
    | list | removeDirectory | deleteFile | move | copy | setAttributes | unmount | sameVolume =>
      exact h.elim
  | report => exact h.elim
  | resolve | note => trivial
  | consult | pause => exact h.elim

namespace Transfer

open Operation

variable {α : Type} {records : List Progress} {c : Course} {t : Tally} {tx : Option Transaction}
  {flags : CopyFlags} {source destination : Path}

/-- The transfer has not been stopped. -/
def Running (c : Course) : Prop := ∃ records, c = .running records

/-- The bytes that some records tell of. -/
def toldBytes (records : List Progress) : Nat := (records.map fun r => r.entryBytes.toNat).sum

/-- Some totals are those of the course, as far as 64 bits hold them. -/
def Totals (entries bytes : UInt64) (canceled : Bool) (c : Course) : Prop :=
  ∃ records, entries = UInt64.ofNat records.length ∧ bytes = UInt64.ofNat (toldBytes records) ∧
    c = if canceled then .stopped records else .running records

/-- A count is that of the course. -/
abbrev Tallied (t : Tally) (c : Course) : Prop := Totals t.entries t.bytes t.canceled c

theorem Tallied.running (h : Tallied t c) (ht : t.canceled = false) : Running c := by
  obtain ⟨records, -, -, rfl⟩ := h
  exact ⟨records, by rw [ht]; rfl⟩

theorem totals_stopped {entries bytes : UInt64} {canceled : Bool} :
    Totals entries bytes canceled (.stopped records) ↔
      canceled = true ∧ entries = UInt64.ofNat records.length ∧
        bytes = UInt64.ofNat (toldBytes records) := by
  constructor
  · rintro ⟨records', hentries, hbytes, hcourse⟩
    cases canceled with
    | true =>
      obtain rfl := Course.stopped.inj hcourse
      exact ⟨rfl, hentries, hbytes⟩
    | false => cases hcourse
  · rintro ⟨rfl, hentries, hbytes⟩
    exact ⟨records, hentries, hbytes, rfl⟩

theorem totals_running {entries bytes : UInt64} {canceled : Bool}
    (h : Totals entries bytes canceled (.running records)) : canceled = false := by
  obtain ⟨records', -, -, hcourse⟩ := h
  cases canceled with
  | true => cases hcourse
  | false => rfl

theorem not_totals_overrun {entries bytes : UInt64} {canceled : Bool} :
    ¬Totals entries bytes canceled .overrun := by
  rintro ⟨records, -, -, hcourse⟩
  cases canceled <;> cases hcourse

/-- What reports nothing leaves a running course as it is. -/
theorem heeds_silent {p : Operation α} {value : α → Prop} (h : Asks Request.IsSilent p value)
    (hc : Running c) :
    Ensures heeding p c (fun a c' => c' = c ∧ value a) (fun _ c' => c' = c) := by
  obtain ⟨records, rfl⟩ := hc
  refine h.keeps (· = Course.running records) ?_ _ rfl
  rintro r _ a c' hr rfl rfl
  cases r with
  | report p => exact hr.elim
  | _ => rfl

/-- An operation counts on, and has not been stopped when it fails. -/
def Counts (p : Operation Tally) (c : Course) : Prop :=
  Ensures heeding p c (fun t' c' => Tallied t' c') (fun _ c' => Running c')

theorem totals_concat {entries bytes : UInt64} (canceled : Bool) (p : Progress)
    (hentries : entries = UInt64.ofNat records.length)
    (hbytes : bytes = UInt64.ofNat (toldBytes records)) :
    Totals (entries + 1) (bytes + p.entryBytes) canceled
      (if canceled then .stopped (records ++ [p]) else .running (records ++ [p])) :=
  ⟨records ++ [p], by simp [hentries, UInt64.ofNat_add],
    by simp [hbytes, toldBytes, UInt64.ofNat_add], rfl⟩

/-! ### Copying -/

theorem counts_report {kind : ProgressKind} {bytes : UInt64} (hkind : kind ≠ .treeMoved)
    (ht : t.canceled = false) (h : Tallied t c) :
    Counts (report t kind source destination bytes) c := by
  obtain ⟨records, hentries, hbytes, rfl⟩ := h
  have hconcat (canceled : Bool) := totals_concat canceled
    ⟨kind, source, destination, bytes, t.entries + 1, t.bytes + bytes⟩ hentries hbytes
  unfold Counts report record
  rw [Operation.ensures_bind, Operation.ensures_bind, ensures_request, ht]
  rintro action _ rfl
  cases action with
  | proceed =>
    simp only [ensures_pure]
    simpa [Tallied, ht, Course.next] using hconcat false
  | cancel =>
    simp only [Operation.ensures_bind, ensures_pure, ensures_note]
    rintro _ _ rfl
    simpa [Tallied, ht, Course.next, hkind] using hconcat true

theorem counts_copyLeaf {e : Entry} {target : Path} {asLink : Bool} (ht : t.canceled = false)
    (h : Tallied t c) : Counts (copyLeaf tx flags e target asLink t) c := by
  have hperform : Asks Request.IsSilent (perform tx
      (.copy e.path target { flags with copySymlink := asLink }) (copyError e.path target)) :=
    asks_perform trivial
  unfold Counts copyLeaf
  rw [Operation.ensures_bind]
  refine (heeds_silent hperform (h.running ht)).mono ?_ ?_
  · rintro bytes _ ⟨rfl, -⟩
    rw [Operation.ensures_bind, ensures_note]
    rintro _ _ rfl
    refine counts_report ?_ ht h
    cases asLink <;> exact nofun
  · rintro _ _ rfl
    exact h.running ht

theorem counts_copyEntry {copyBelow : Path → Path → Tally → Operation Tally}
    (hbelow : ∀ source destination t c, t.canceled = false → Tallied t c →
      Counts (copyBelow source destination t) c) (h : Tallied t c) (e : Entry) :
    Counts (copyEntry tx flags copyBelow destination t e) c := by
  unfold copyEntry
  dsimp only
  split
  · exact ensures_pure.mpr h
  · next hrunning =>
    have ht : t.canceled = false := by simpa using hrunning
    split
    · exact counts_copyLeaf ht h
    · split
      · exact hbelow _ _ t c ht h
      · exact counts_copyLeaf ht h

theorem counts_copyContents {copyBelow : Path → Path → Tally → Operation Tally}
    (hbelow : ∀ source destination t c, t.canceled = false → Tallied t c →
      Counts (copyBelow source destination t) c) (ht : t.canceled = false) (h : Tallied t c) :
    Counts (copyContents tx flags copyBelow source destination t) c := by
  unfold Counts copyContents
  rw [Operation.ensures_bind]
  refine (counts_report (by simp) ht h).mono_ok ?_
  intro t' c' h'
  split
  · exact ensures_pure.mpr h'
  · next hrunning =>
    have ht' : t'.canceled = false := by simpa using hrunning
    rw [Operation.ensures_bind]
    have hlist : Asks (Request.Removes tx []) (childEntries tx source) _ :=
      asks_childEntries List.nil_prefix
    refine (heeds_silent (hlist.mono fun _ => Request.Removes.silent) (h'.running ht')).mono ?_ ?_
    · rintro entries _ ⟨rfl, -⟩
      exact ensures_foldlM (fun _ t c => Tallied t c) h' fun _ e _ t c _ hinv =>
        counts_copyEntry hbelow hinv e
    · rintro _ _ rfl
      exact h'.running ht'

theorem counts_copyTree (levels : Nat) (isRoot : Bool) (source destination : Path) (t : Tally)
    (c : Course) (ht : t.canceled = false) (h : Tallied t c) :
    Counts (copyTree tx flags levels isRoot source destination t) c := by
  induction levels generalizing isRoot source destination t c with
  | zero => exact ensures_throw.mpr (h.running ht)
  | succ levels ih =>
    have hcontents : Counts (copyContents tx flags (copyTree tx flags levels false) source
        destination t) c := counts_copyContents (ih false) ht h
    have hmade {make : Operation Unit} (hmake : Asks Request.IsSilent make) :
        Counts (make >>= fun _ =>
          copyContents tx flags (copyTree tx flags levels false) source destination t) c := by
      unfold Counts
      rw [Operation.ensures_bind]
      refine (heeds_silent hmake (h.running ht)).mono ?_ ?_
      · rintro _ _ ⟨rfl, -⟩
        exact hcontents
      · rintro _ _ rfl
        exact h.running ht
    cases isRoot with
    | false =>
      rw [copyTree_inner]
      exact hmade ((asks_createOne (fun _ => True) trivial).mono fun _ => Request.Creates.silent)
    | true =>
      rw [copyTree_root]
      exact hmade ((asks_createResolved (fun _ => True) fun _ _ => trivial).mono
        fun _ => Request.Creates.silent)

/-! ### What a copy asks for -/

section Allowed

variable {allowed : Request → Prop} {kind : ProgressKind} {bytes : UInt64}

theorem asks_record (h : ∀ p : Progress, p.kind = kind → allowed (.report p)) :
    Asks allowed (record t kind source destination bytes) :=
  asks_bind (asks_request (h _ rfl)) fun _ _ => asks_pure trivial

variable (hreport : ∀ p : Progress, p.kind ≠ .treeMoved → allowed (.report p))
  (hnote : ∀ n, allowed (.note n))

include hreport hnote

theorem asks_report (hkind : kind ≠ .treeMoved) :
    Asks allowed (report t kind source destination bytes) := by
  refine asks_bind (asks_record fun p hp => hreport p (hp ▸ hkind)) ?_
  rintro ⟨t', action⟩ -
  cases action with
  | proceed => exact asks_pure trivial
  | cancel => exact asks_seq (asks_note (hnote _)) (asks_pure trivial)

theorem asks_copyLeaf {e : Entry} {target : Path} {asLink : Bool}
    (hcopy : allowed (.call tx (.copy e.path target { flags with copySymlink := asLink }))) :
    Asks allowed (copyLeaf tx flags e target asLink t) := by
  refine asks_bind (asks_perform hcopy) fun _ _ => asks_seq (asks_note (hnote _)) ?_
  refine asks_report hreport hnote ?_
  cases asLink <;> exact nofun

end Allowed

theorem asks_copyEntry {copyBelow : Path → Path → Tally → Operation Tally} {e : Entry}
    (h : ∀ source destination t, Asks (Request.Copies tx) (copyBelow source destination t)) :
    Asks (Request.Copies tx) (copyEntry tx flags copyBelow destination t e) := by
  unfold copyEntry
  dsimp only
  split
  · exact asks_pure trivial
  · split
    · exact asks_copyLeaf (fun _ => id) (fun _ => trivial) rfl
    · split
      · exact h _ _ _
      · exact asks_copyLeaf (fun _ => id) (fun _ => trivial) rfl

theorem copies_childEntries : Asks (Request.Copies tx) (childEntries tx source) := by
  have hlist : Asks (Request.Copies tx) (listEntries tx source) := by
    refine asks_bind (asks_attempt rfl) fun result _ => ?_
    cases result with
    | ok children => exact asks_pure trivial
    | error e => exact asks_seq (asks_note trivial) (asks_pure trivial)
  refine asks_bind hlist fun result _ => ?_
  cases result with
  | ok entries => exact asks_pure trivial
  | error code => exact asks_fail

theorem asks_copyContents {copyBelow : Path → Path → Tally → Operation Tally}
    (h : ∀ source destination t, Asks (Request.Copies tx) (copyBelow source destination t)) :
    Asks (Request.Copies tx) (copyContents tx flags copyBelow source destination t) := by
  refine asks_bind (asks_report (fun _ => id) (fun _ => trivial) nofun) fun t' _ => ?_
  split
  · exact asks_pure trivial
  · exact asks_bind copies_childEntries fun _ _ => asks_foldlM fun _ _ _ => asks_copyEntry h

theorem asks_copyTree (levels : Nat) (isRoot : Bool) (source destination : Path) (t : Tally) :
    Asks (Request.Copies tx) (copyTree tx flags levels isRoot source destination t) := by
  induction levels generalizing isRoot source destination t with
  | zero => exact asks_throw
  | succ levels ih =>
    have hcontents : Asks (Request.Copies tx)
        (copyContents tx flags (copyTree tx flags levels false) source destination t) :=
      asks_copyContents (ih false)
    cases isRoot with
    | true => exact asks_seq (asks_createAbove.mono fun _ => Request.Creates.copies) hcontents
    | false =>
      have hmake : Asks (Request.Creates tx fun _ => True) (createOne tx destination) :=
        asks_createOne (fun _ => True) trivial
      exact asks_seq (hmake.mono fun _ => Request.Creates.copies) hcontents

/-! ### Moving -/

variable {levels : Nat} {m : MoveOptions} {opts : TransferOptions}

/-- A part of a move that reports nothing comes before the rest. -/
theorem counts_after {p : Operation α} {value : α → Prop} {f : α → Operation Tally}
    (hp : Asks Request.IsSilent p value) (hc : Running c)
    (hf : ∀ a, value a → Counts (f a) c) : Counts (p >>= f) c := by
  unfold Counts
  rw [Operation.ensures_bind]
  refine (heeds_silent hp hc).mono ?_ ?_
  · rintro a _ ⟨rfl, ha⟩
    exact hf a ha
  · rintro _ _ rfl
    exact hc

theorem silent_delete {root : Path} :
    Asks Request.IsSilent (Removal.deleteResolved levels opts.deletion root) :=
  (Removal.asks_deleteResolved levels root).mono fun _ => Request.Removes.silent

theorem asks_replaceDestination {isDirectory : Bool} :
    Asks (Request.Removes opts.transaction [])
      (replaceDestination levels opts destination isDirectory) := by
  refine asks_seq (asks_note trivial) ?_
  split
  · exact (Removal.asks_deleteResolved levels destination).mono fun _ => Request.Removes.anywhere
  · exact asks_deleteFile

theorem silent_replaceDestination {isDirectory : Bool} :
    Asks Request.IsSilent (replaceDestination levels opts destination isDirectory) :=
  asks_replaceDestination.mono fun _ => Request.Removes.silent

theorem queries_firstExisting (l : List Path) :
    Asks (Request.Queries tx) (firstExisting tx l) := by
  induction l with
  | nil => exact asks_pure trivial
  | cons p l ih =>
    refine asks_bind (asks_attempt rfl) fun result _ => ?_
    cases result with
    | ok e => exact asks_pure trivial
    | error e => exact ih

theorem queries_queryDestination : Asks (Request.Queries tx) (queryDestination tx destination) := by
  refine asks_bind (asks_attempt rfl) fun result _ => ?_
  cases result with
  | ok info => exact asks_pure trivial
  | error e =>
    dsimp only
    split
    · exact asks_pure trivial
    · exact asks_fail

theorem queries_makePlan :
    Asks (Request.Queries opts.transaction) (makePlan opts source destination) := by
  unfold makePlan
  split
  · exact asks_fail
  · refine asks_bind (asks_resolve trivial) fun source _ => ?_
    refine asks_bind (asks_resolve trivial) fun destination _ => ?_
    split
    · exact asks_fail
    · refine asks_bind (asks_perform rfl) fun info _ => ?_
      split
      · exact asks_fail
      · exact asks_pure trivial

theorem queries_surveyMove :
    Asks (Request.Queries opts.transaction) (surveyMove opts source destination) := by
  refine asks_bind (queries_firstExisting _) fun anchor _ => ?_
  cases anchor with
  | none => exact asks_fail
  | some anchor =>
    refine asks_bind (asks_perform rfl) fun onOneVolume _ => ?_
    exact asks_bind queries_queryDestination fun _ _ => asks_pure trivial

theorem looks_makePlan :
    Asks (Request.Looks opts.transaction) (makePlan opts source destination) :=
  queries_makePlan.mono fun _ => Request.Queries.looks

theorem looks_surveyMove :
    Asks (Request.Looks opts.transaction) (surveyMove opts source destination) :=
  queries_surveyMove.mono fun _ => Request.Queries.looks

theorem heeds_notRenamed {p : Operation Rename}
    (h : Asks Request.IsSilent p fun r => ∀ t', r ≠ .renamed t') (hc : Running c) :
    Ensures heeding p c (Attempted Tallied (· = c)) (fun _ c' => Running c') := by
  refine (heeds_silent h hc).mono ?_ fun _ _ hc' => hc' ▸ hc
  rintro r c' ⟨hc', hr⟩
  cases r with
  | renamed t' => exact absurd rfl (hr t')
  | crossedVolumes => exact hc'
  | occupied => exact hc'

/-- The listener cannot stop a rename. -/
theorem heeds_tryRename {mayRemove : Bool} (ht : t.canceled = false) (h : Tallied t c) :
    Ensures heeding (tryRename m opts source destination mayRemove t) c
      (Attempted Tallied (· = c)) (fun _ c' => Running c') := by
  have hrunning := h.running ht
  have hmove : Asks Request.IsSilent
      (attempt opts.transaction (.move source destination m.replaceExisting)) :=
    asks_attempt trivial
  unfold tryRename
  rw [Operation.ensures_bind]
  refine (heeds_silent hmove hrunning).mono ?_ fun _ _ hc' => hc' ▸ hrunning
  rintro result _ ⟨rfl, -⟩
  cases result with
  | ok _ =>
    obtain ⟨records, hentries, hbytes, rfl⟩ := h
    have hconcat := totals_concat false
      ⟨.treeMoved, source, destination, 0, t.entries + 1, t.bytes + 0⟩ hentries hbytes
    unfold record
    simp only [Operation.ensures_bind, ensures_note, ensures_pure]
    rintro action _ rfl _ _ rfl
    simpa [Attempted, Tallied, ht, Course.next] using hconcat
  | error e =>
    dsimp only
    repeat' split
    · exact heeds_notRenamed (asks_seq (asks_note trivial) (asks_pure nofun)) hrunning
    · exact heeds_notRenamed asks_fail hrunning
    · exact heeds_notRenamed (asks_pure nofun) hrunning
    · exact heeds_notRenamed asks_fail hrunning
    · exact heeds_notRenamed asks_fail hrunning

theorem counts_copyAndDelete (ht : t.canceled = false) (h : Tallied t c) :
    Counts (copyAndDelete levels m opts source destination t) c := by
  unfold Counts copyAndDelete
  rw [Operation.ensures_bind]
  refine (counts_copyTree levels true source destination t c ht h).mono_ok ?_
  intro t' c' h'
  split
  · rw [Operation.ensures_bind, ensures_note]
    rintro _ _ rfl
    exact ensures_pure.mpr h'
  · next hrunning =>
    have ht' : t'.canceled = false := by simpa using hrunning
    refine counts_after silent_delete (h'.running ht') fun _ _ => ?_
    exact counts_after (asks_note trivial) (h'.running ht') fun _ _ => ensures_pure.mpr h'

/-- Nothing is reported before a move renames or copies. -/
theorem phases_counted (ht : t.canceled = false) (h : Tallied t c) :
    Phases heeding levels m opts source destination t (fun _ c' => c' = c) Tallied
      (fun _ c' => Running c') where
  taken := by
    rintro - _ _ rfl
    exact h.running ht
  refuse := by
    rintro - _ _ rfl
    exact h.running ht
  attempt := by
    rintro _ _ rfl
    exact heeds_tryRename ht h
  replace := by
    rintro _ _ rfl
    exact (heeds_silent silent_replaceDestination (h.running ht)).mono (fun _ _ hc => hc.1)
      fun _ _ hc => hc ▸ h.running ht

theorem counts_moveTree (ht : t.canceled = false) (h : Tallied t c) :
    Counts (moveTree levels m opts source destination t) c := by
  have hsurvey : Asks Request.IsSilent (surveyMove opts source destination) :=
    looks_surveyMove.mono fun _ => Request.Looks.silent
  apply (phases_counted ht h).ensures_moveTree
  · exact (heeds_silent hsurvey (h.running ht)).mono (fun _ _ hc => hc.1)
      fun _ _ hc => hc ▸ h.running ht
  · rintro _ rfl
    exact counts_copyAndDelete ht h

/-! ### Whole transfers -/

/-- An outcome has the totals of the course. -/
abbrev Accounts (o : Outcome) (c : Course) : Prop := Totals o.entries o.bytes o.canceled c

theorem accounts_transferTree {mode : TransferMode} :
    Ensures heeding (transferTree levels mode opts source destination) (.running [])
      Accounts (fun _ c => Running c) := by
  have hstart : Tallied {} (.running []) := ⟨[], rfl, rfl, rfl⟩
  unfold transferTree
  cases mode with
  | copy c =>
    simp only [Operation.ensures_bind, ensures_note]
    rintro _ _ rfl
    exact (counts_copyTree levels true source destination {} _ rfl hstart).mono_ok fun _ _ => id
  | move m =>
    simp only [Operation.ensures_bind, ensures_note]
    rintro _ _ rfl
    exact (counts_moveTree rfl hstart).mono_ok fun _ _ => id

/-- Whatever is answered, a transfer comes to an outcome with the totals of what it has reported,
and it is canceled just when it was stopped. -/
theorem accounts_copyOrMove :
    Ensures heeding (copyOrMove levels opts source destination) (.running [])
      Accounts (fun _ c => Running c) := by
  have hrunning : Running (.running []) := ⟨[], rfl⟩
  unfold copyOrMove
  split
  · exact ensures_fail.mpr hrunning
  · simp only [Operation.ensures_bind, ensures_resolve]
    rintro source _ rfl destination _ rfl
    split
    · exact ensures_fail.mpr hrunning
    · have hquery : Asks Request.IsSilent
          (perform opts.transaction (.query source) (.ofNative source "query")) :=
        asks_perform trivial
      rw [Operation.ensures_bind]
      refine (heeds_silent hquery hrunning).mono ?_ fun _ _ hc => hc ▸ hrunning
      rintro info c ⟨hc, -⟩
      split
      · exact ensures_fail.mpr (hc ▸ hrunning)
      · exact hc ▸ accounts_transferTree

end Transfer

end TreeOps
