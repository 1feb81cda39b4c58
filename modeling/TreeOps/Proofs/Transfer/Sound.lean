import TreeOps.Proofs.Memory.Watched
import TreeOps.Proofs.Transfer.Course
import TreeOps.Proofs.Transfer.Frame

/-!
# A transfer holds the nodes sound

A copy makes a directory before anything in it, and gives each entry a place of its own. So it may
overwrite safely if nothing was in its destination, and that is how a move by copying begins: what a
query has found at the destination is removed or is no directory, and what no query has found is not
there. A rename takes a subtree to a place that lies apart from it.
-/

namespace TreeOps

/-- Nothing is in a place. -/
def Tree.Bare (t : Tree) (place : Place) : Prop := ∀ b, t.lookup (place ++ [.name b]) = none

theorem Tree.Bare.of_agree {t t' : Tree} {place : Place} {places : Place → Prop} (h : t.Bare place)
    (hagree : AgreeOutside places t t') (hout : ∀ b, ¬places (place ++ [.name b])) :
    t'.Bare place :=
  fun b => (hagree _ (hout b)).trans (h b)

theorem Tree.Sound.bare_of_none {t : Tree} {place : Place} (h : t.Sound)
    (hnone : t.lookup place = none) : t.Bare place := by
  refine h.eq_none_in ?_
  rintro ⟨n, hn, -⟩
  cases hnone.symm.trans hn

theorem Rooted.isText {place : Place} {b : Bytes} (h : Rooted (place ++ [.name b])) :
    Utf8.IsText b := by
  obtain ⟨way, hway, hnames⟩ := h
  have hmem : Component.name b ∈ (.root :: way : Place) := hway ▸ by simp
  obtain ⟨b', hb', htext⟩ := hnames _ ((List.mem_cons.mp hmem).resolve_left nofun)
  rwa [Component.name.inj hb']

/-- An entry of a sound tree is copied to its name in the destination. -/
theorem Tree.Sound.copied_of_mem_entriesOf {t : Tree} (h : t.Sound) {dir : Path} {e : Entry}
    (he : e ∈ t.entriesOf dir) (destination : Path) :
    ∃ b, Utf8.IsText b ∧ e.path.components = dir.components ++ [.name b] ∧
      (destination.child (Utf8.encode e.name)).components =
        destination.components ++ [.name b] := by
  obtain ⟨b, n, hname, hpath, htext, hn, -⟩ := exists_of_mem_entriesOf he
  have hb : Utf8.IsText b := (h.rooted _ n (hpath ▸ hn)).isText
  refine ⟨b, hb, hpath, ?_⟩
  rw [htext, components_copied destination hname, Utf8.encode_lossy hb]

namespace Memory

open Transfer Operation

variable {s : Watch Tree} {tx : Option Transaction} {flags : CopyFlags} {source destination : Path}
  {levels : Nat} {opts : TransferOptions} {m : MoveOptions} {t : Tally}

/-! ### Copying -/

theorem holds_report {kind : ProgressKind} {bytes : UInt64} (h : Held s) :
    Ensures Watched (report t kind source destination bytes) s
      (fun _ s' => Held s' ∧ s'.state = s.state) (fun _ s' => Held s') := by
  unfold report record
  rw [Operation.ensures_bind, Operation.ensures_bind]
  refine holds_progress h fun action s' hs' hstate => ?_
  cases action with
  | proceed => exact ⟨hs', hstate⟩
  | cancel =>
    simp only [ensures_pure, Operation.ensures_bind]
    exact holds_note hs' fun s'' hs'' hstate' => ⟨hs'', hstate'.trans hstate⟩

/-- A copy holds the nodes sound, and changes nothing but what is at or below its destination. One
that may overwrite needs that nothing is in the destination. -/
def CopiesSoundly (overwrite : Bool) (copy : Path → Path → Tally → Operation Tally) : Prop :=
  ∀ source destination t s, Held s → Rooted destination.components →
    (overwrite = true → s.state.Bare destination.components) →
    Ensures Watched (copy source destination t) s
      (fun _ s' => Held s' ∧
        Tree.AgreeOutside (destination.components <+: ·) s.state s'.state)
      (fun _ s' => Held s')

theorem holds_copyLeaf {e : Entry} {target : Path} {asLink : Bool} (h : Held s)
    (hrooted : Rooted target.components)
    (hbare : flags.overwrite = true → s.state.Bare target.components) :
    Ensures Watched (copyLeaf tx flags e target asLink t) s
      (fun _ s' => Held s' ∧ Tree.AgreeOutside (target.components <+: ·) s.state s'.state)
      (fun _ s' => Held s') := by
  unfold copyLeaf
  rw [Operation.ensures_bind]
  refine holds_perform h ⟨hrooted, hbare⟩ (fun bytes s' hs' _ hstate => ?_) fun _ _ => id
  have hagree : Tree.AgreeOutside (target.components <+: ·) s.state s'.state :=
    hstate ▸ (Tree.agreeOutside_perform _ s.state).mono fun place he => he ▸ List.prefix_refl _
  rw [Operation.ensures_bind]
  refine holds_note hs' fun s'' hs'' hstate' => ?_
  refine (holds_report hs'').mono_ok fun _ s₃ h₃ => ⟨h₃.1, ?_⟩
  rw [h₃.2, hstate']
  exact hagree

theorem holds_copyEntry {copyBelow : Path → Path → Tally → Operation Tally}
    (hbelow : CopiesSoundly flags.overwrite copyBelow) {e : Entry} (h : Held s)
    (hrooted : Rooted (destination.child (Utf8.encode e.name)).components)
    (hbare : flags.overwrite = true →
      s.state.Bare (destination.child (Utf8.encode e.name)).components) :
    Ensures Watched (copyEntry tx flags copyBelow destination t e) s
      (fun _ s' => Held s' ∧ Tree.AgreeOutside
        ((destination.child (Utf8.encode e.name)).components <+: ·) s.state s'.state)
      (fun _ s' => Held s') := by
  unfold copyEntry
  dsimp only
  split
  · exact ensures_pure.mpr ⟨h, .refl _⟩
  · split
    · exact holds_copyLeaf h hrooted hbare
    · split
      · exact hbelow _ _ t s h hrooted hbare
      · exact holds_copyLeaf h hrooted hbare

/-- What has been copied from a directory is at or below the targets of the entries that are done.
-/
def Filled (destination : Path) (before : List Entry) (t : Tree) (s : Watch Tree) : Prop :=
  Held s ∧ Tree.AgreeOutside
    (fun place => ∃ d ∈ before, (destination.child (Utf8.encode d.name)).components <+: place)
    t s.state

/-- Two entries of a directory have targets of their own, so nothing is at that of the next one. -/
theorem holds_copyNext {copyBelow : Path → Path → Tally → Operation Tally}
    (hbelow : CopiesSoundly flags.overwrite copyBelow) {nodes : Tree} (hnodes : nodes.Sound)
    (hrooted : Rooted destination.components)
    (hbare : flags.overwrite = true → nodes.Bare destination.components)
    {before after : List Entry} {e : Entry} (hl : nodes.entriesOf source = before ++ e :: after)
    (hs : Filled destination before nodes s) :
    Ensures Watched (copyEntry tx flags copyBelow destination t e) s
      (fun _ s' => Filled destination (before ++ [e]) nodes s') (fun _ s' => Held s') := by
  have hmem : e ∈ nodes.entriesOf source := by simp [hl]
  obtain ⟨b, htext, hpath, htarget⟩ := hnodes.copied_of_mem_entriesOf hmem destination
  have htargetBare : flags.overwrite = true →
      s.state.Bare (destination.child (Utf8.encode e.name)).components := by
    intro hoverwrite
    refine hs.1.sound.bare_of_none ?_
    rw [htarget, hs.2, hbare hoverwrite]
    rintro ⟨d, hd, hbelow⟩
    have hmem' : d ∈ nodes.entriesOf source := by simp [hl, hd]
    obtain ⟨b', -, hpath', htarget'⟩ := hnodes.copied_of_mem_entriesOf hmem' destination
    have hne : b' ≠ b := by
      rintro rfl
      exact (Tree.entriesOf_distinct hl).1 d hd (hpath'.trans hpath.symm)
    rw [htarget'] at hbelow
    exact (Apart.children hne).1 hbelow
  refine (holds_copyEntry hbelow hs.1 (htarget ▸ hrooted.child htext) htargetBare).mono_ok ?_
  rintro _ s' ⟨hs', hagree⟩
  refine ⟨hs', (hs.2.mono ?_).trans (hagree.mono ?_)⟩
  · rintro place ⟨d, hd, hplace⟩
    exact ⟨d, List.mem_append_left [e] hd, hplace⟩
  · exact fun place hplace => ⟨e, by simp, hplace⟩

theorem holds_copyContents {copyBelow : Path → Path → Tally → Operation Tally}
    (hbelow : CopiesSoundly flags.overwrite copyBelow) :
    CopiesSoundly flags.overwrite (copyContents tx flags copyBelow) := by
  intro source destination t s hs hrooted hbare
  unfold copyContents
  rw [Operation.ensures_bind]
  refine (holds_report hs).mono_ok fun t' s₁ h₁ => ?_
  rw [← h₁.2]
  rw [← h₁.2] at hbare
  split
  · exact ensures_pure.mpr ⟨h₁.1, .refl _⟩
  · rw [Operation.ensures_bind]
    refine holds_childEntries h₁.1 (fun s₂ h₂ hstate => ?_) fun _ _ => id
    rw [← hstate]
    rw [← hstate] at hbare
    refine (ensures_foldlM (fun before _ s' => Filled destination before s₂.state s')
      ⟨h₂, .refl _⟩ fun before e after t₃ s₃ hl h₃ => ?_).mono_ok ?_
    · exact holds_copyNext hbelow h₂.sound hrooted hbare hl h₃
    · rintro _ s' ⟨hs', hagree⟩
      refine ⟨hs', hagree.mono ?_⟩
      rintro place ⟨d, hd, hplace⟩
      obtain ⟨b, -, -, htarget⟩ := h₂.sound.copied_of_mem_entriesOf hd destination
      rw [htarget] at hplace
      exact (List.prefix_append _ _).trans hplace

/-- Making the destination of a copy puts nothing in it. -/
theorem holds_made {make : Operation Unit} {made : Path → Prop} (places : Place → Prop)
    {copyBelow : Path → Path → Tally → Operation Tally}
    (hbelow : CopiesSoundly flags.overwrite copyBelow)
    (hmake : Asks (Request.Creates tx made) make)
    (hmade : ∀ path, made path → Rooted path.components ∧ places path.components)
    (hout : ∀ b, ¬places (destination.components ++ [.name b]))
    (hs : Held s) (hrooted : Rooted destination.components)
    (hbare : flags.overwrite = true → s.state.Bare destination.components) :
    Ensures Watched (make >>= fun _ => copyContents tx flags copyBelow source destination t) s
      (fun _ s' => Held s' ∧ Tree.AgreeOutside
        (fun place => places place ∨ destination.components <+: place) s.state s'.state)
      (fun _ s' => Held s') := by
  rw [Operation.ensures_bind]
  refine (holds_of_creates places hmake hmade hs).mono ?_ fun _ _ h => h.1
  rintro _ s₁ ⟨h₁, hagree, -⟩
  have hbare₁ : flags.overwrite = true → s₁.state.Bare destination.components :=
    fun hoverwrite => (hbare hoverwrite).of_agree hagree hout
  refine (holds_copyContents hbelow source destination t s₁ h₁ hrooted hbare₁).mono_ok ?_
  rintro _ s' ⟨hs', hagree'⟩
  exact ⟨hs', (hagree.mono fun _ => .inl).trans (hagree'.mono fun _ => .inr)⟩

theorem copiesSoundly_copyTree (levels : Nat) :
    CopiesSoundly flags.overwrite (copyTree tx flags levels false) := by
  induction levels with
  | zero => exact fun _ _ _ _ hs _ _ => ensures_throw.mpr hs
  | succ levels ih =>
    intro source destination t s hs hrooted hbare
    rw [copyTree_inner]
    have hmake : Asks (Request.Creates tx (·.components = destination.components))
        (createOne tx destination) := asks_createOne _ rfl
    refine (holds_made (· = destination.components) ih hmake
      (fun path hpath => ⟨hpath ▸ hrooted, hpath⟩) (fun b => by simp) hs hrooted hbare).mono_ok ?_
    rintro _ s' ⟨hs', hagree⟩
    refine ⟨hs', hagree.mono fun place hplace => ?_⟩
    rcases hplace with rfl | hplace
    · exact List.prefix_refl _
    · exact hplace

/-- The root of a copy may be made with what is missing above it. -/
theorem holds_copyTree_root (levels : Nat) (source destination : Path) (t : Tally) (hs : Held s)
    (hrooted : Rooted destination.components)
    (hbare : flags.overwrite = true → s.state.Bare destination.components) :
    Ensures Watched (copyTree tx flags levels true source destination t) s
      (fun _ s' => Held s') (fun _ s' => Held s') := by
  cases levels with
  | zero => exact ensures_throw.mpr hs
  | succ levels =>
    rw [copyTree_root]
    refine (holds_made (· <+: destination.components) (copiesSoundly_copyTree levels)
      asks_createAbove
      (fun path hpath => ⟨hrooted.above hpath.1 hpath.2, hpath.1⟩)
      (fun _ => concat_not_prefix_self) hs hrooted hbare).mono_ok ?_
    exact fun _ _ h => h.1

/-! ### Clearing the destination -/

section Gone

variable {deletion : DeleteOptions} {path : Path}

theorem classify_ne_success {code : NativeCode} {context : Removal.Context}
    (h : context.continueIfMissing = false) : Removal.classify code context ≠ .success := by
  unfold Removal.classify
  repeat' split
  all_goals simp_all

theorem lookup_of_removeDirectory {t : Tree} {value : Unit}
    (h : (t.perform (.removeDirectory path)).1 = .ok value) :
    (t.perform (.removeDirectory path)).2.lookup path.components = none := by
  obtain ⟨-, -, -, -, herased⟩ := Tree.withoutDirectory_eq_ok.mp (Tree.update_ok h)
  change PathMap.lookup (t.update (t.withoutDirectory path)).2 _ = none
  rw [← herased, PathMap.lookup_erase, if_pos rfl]

/-- A directory is gone at `path` when an operation ends well. -/
def Clears (path : Path) (p : Operation Unit) : Prop :=
  ∀ s, Held s → Ensures Watched p s
    (fun _ s' => Held s' ∧ s'.state.lookup path.components = none) (fun _ s' => Held s')

theorem clears_fail {e : TreeError} : Clears path (Operation.fail e) :=
  fun _ hs => ensures_fail.mpr hs

/-- What comes before is no hindrance if it only removes. -/
theorem clears_after {α : Type} (tx : Option Transaction) {p : Operation α} {q : Operation Unit}
    (hp : Asks (Request.Removes tx []) p) (hq : Clears path q) :
    Clears path (p >>= fun _ => q) := by
  intro s hs
  rw [Operation.ensures_bind]
  exact (holds_of_removes hp hs).mono (fun _ s₁ h₁ => hq s₁ h₁.1) fun _ _ h => h.1

/-- One attempt to remove a directory, and what is done if it fails. -/
theorem clears_attempt {n : Note} {again : NativeError → Operation Unit}
    (hagain : ∀ e, Clears path (again e)) :
    Clears path (Operation.attempt tx (.removeDirectory path) >>= fun result =>
      match result with
      | .ok () => Operation.note n
      | .error e => again e) := by
  intro s hs
  rw [Operation.ensures_bind]
  refine holds_attempt hs trivial (fun value s₁ h₁ hp hstate => ?_) fun e s₁ h₁ _ _ => ?_
  · refine holds_note h₁ fun s₂ h₂ hstate' => ⟨h₂, ?_⟩
    rw [hstate', hstate]
    exact lookup_of_removeDirectory hp
  · exact hagain e s₁ h₁

/-- Where a missing directory is a failure, a directory is gone when its removal ends well. -/
theorem clears_removeRepeatedly {emptyIt : Operation Unit} {attributes : Attributes}
    (hempty : Asks (Request.Removes deletion.transaction []) emptyIt) (context : Removal.Context)
    (hcontext : context.continueIfMissing = false) (retries attempt : Nat) :
    Clears path
      (Removal.removeRepeatedly deletion context path attributes emptyIt retries attempt) := by
  induction retries generalizing context attempt with
  | zero =>
    unfold Removal.removeRepeatedly
    refine clears_after _ hempty (clears_attempt fun e => ?_)
    split
    · next hsuccess => exact absurd hsuccess (classify_ne_success hcontext)
    · exact clears_fail
    · exact clears_fail
  | succ retries ih =>
    unfold Removal.removeRepeatedly
    refine clears_after _ hempty (clears_attempt fun e => ?_)
    split
    · next hsuccess => exact absurd hsuccess (classify_ne_success hcontext)
    · exact clears_fail
    · refine clears_after deletion.transaction (asks_note trivial) ?_
      split
      · split
        · exact clears_after deletion.transaction (asks_request trivial).forget
            (ih context hcontext (attempt + 1))
        · exact ih context hcontext (attempt + 1)
      · exact clears_after _ (Removal.asks_clearReadOnly List.nil_prefix)
          (ih { context with readOnly := false } hcontext (attempt + 1))

theorem clears_releaseAndRemove {emptyIt : Operation Unit} {info : Entry}
    (hempty : Asks (Request.Removes deletion.transaction []) emptyIt) {context : Removal.Context}
    (hcontext : context.continueIfMissing = false) {retries attempt : Nat} :
    Clears path (Removal.releaseReadOnly deletion path info >>= fun _ =>
      Removal.removeRepeatedly deletion context path info.attributes emptyIt retries attempt) :=
  clears_after _ (Removal.asks_releaseReadOnly List.nil_prefix)
    (clears_removeRepeatedly hempty context hcontext retries attempt)

theorem clears_deleteNode (levels : Nat) (path : Path) :
    Clears path (Removal.deleteNode deletion levels false path) := by
  cases levels with
  | zero => exact fun _ hs => ensures_throw.mpr hs
  | succ levels =>
    intro s hs
    unfold Removal.deleteNode
    rw [Operation.ensures_bind]
    refine holds_attempt hs trivial (fun info s₁ h₁ _ _ => ?_) fun e s₁ h₁ _ _ => ?_
    · dsimp only
      split
      · exact ensures_fail.mpr h₁
      · have hempty {descends : Bool} : Asks (Request.Removes deletion.transaction [])
            (if descends = true then
              Removal.emptyDirectory deletion (Removal.deleteNode deletion levels true) path
            else pure ()) :=
          Removal.asks_emptyIt List.nil_prefix (Removal.asks_deleteNode levels true)
        split
        · exact clears_after _ (Removal.asks_unmount List.nil_prefix)
            (clears_releaseAndRemove hempty rfl) s₁ h₁
        · exact clears_releaseAndRemove hempty rfl s₁ h₁
    · simp only [Bool.and_false]
      exact ensures_fail.mpr h₁

end Gone

/-- What has to be at a destination that is still to be cleared, or is clear already. -/
def Awaits (t : Tree) (place : Place) : Option Entry → Prop
  | none => t.Bare place
  | some old => ∃ n, t.lookup place = some n ∧ old.Describes n

/-- A directory at the destination is gone afterwards; nothing was in anything else, and nothing is
in what is left of it. -/
theorem holds_replaceDestination {old : Entry} (hs : Held s)
    (hold : Awaits s.state destination.components (some old)) :
    Ensures Watched (replaceDestination levels opts destination old.isDirectory) s
      (fun _ s' => Held s' ∧ s'.state.Bare destination.components) (fun _ s' => Held s') := by
  unfold replaceDestination
  rw [Operation.ensures_bind]
  refine holds_note hs fun s₁ h₁ hstate => ?_
  split
  · exact (clears_deleteNode levels destination s₁ h₁).mono_ok
      fun _ s' h => ⟨h.1, h.1.sound.bare_of_none h.2⟩
  · next hisDirectory =>
    obtain ⟨n, hn, hdescribes⟩ := hold
    have hk : n.kind ≠ .directory := by
      intro hk
      rw [hdescribes.isDirectory, n.isDirectoryLike_of_directory hk] at hisDirectory
      exact hisDirectory rfl
    have hbare : s₁.state.Bare destination.components :=
      h₁.sound.eq_none_in (Tree.not_isDirectoryAt (hstate ▸ hn) hk)
    refine (holds_of_removes asks_deleteFile h₁).mono ?_ fun _ _ h => h.1
    exact fun _ s' h => ⟨h.1, fun b => h.2.1 _ (hbare b)⟩

/-! ### Renaming -/

section Move

variable (hrooted : Rooted destination.components)
  (happart : Apart source.components destination.components)

include hrooted happart

theorem holds_tryRename {mayRemove : Bool} {existing : Option Entry} (hs : Held s)
    (hexisting : Awaits s.state destination.components existing) :
    Ensures Watched (tryRename m opts source destination mayRemove t) s
      (Attempted (fun _ => Held)
        fun s' => Held s' ∧ Awaits s'.state destination.components existing)
      (fun _ s' => Held s') := by
  unfold tryRename
  rw [Operation.ensures_bind]
  refine holds_attempt hs ⟨hrooted, happart⟩ (fun value s₁ h₁ _ _ => ?_) fun e s₁ h₁ hstate _ => ?_
  · unfold record
    simp only [Operation.ensures_bind]
    refine holds_progress h₁ fun action s₂ h₂ _ => ?_
    simp only [ensures_pure]
    exact holds_note h₂ fun s₃ h₃ _ => h₃
  · rw [← hstate] at hexisting
    dsimp only
    split
    · split
      · rw [Operation.ensures_bind]
        exact holds_note h₁ fun s₂ h₂ hstate' => ⟨h₂, hstate' ▸ hexisting⟩
      · exact ensures_fail.mpr h₁
    · split
      · exact ensures_pure.mpr ⟨h₁, hexisting⟩
      · split
        · exact ensures_fail.mpr h₁
        · exact ensures_fail.mpr h₁

/-! ### Moving -/

omit happart in
theorem holds_copyAndDelete (hs : Held s) (hbare : s.state.Bare destination.components) :
    Ensures Watched (copyAndDelete levels m opts source destination t) s
      (fun _ s' => Held s') (fun _ s' => Held s') := by
  unfold copyAndDelete
  rw [Operation.ensures_bind]
  refine (holds_copyTree_root levels source destination t hs hrooted fun _ => hbare).mono_ok ?_
  intro t' s₁ h₁
  split
  · rw [Operation.ensures_bind]
    exact holds_note h₁ fun _ h₂ _ => h₂
  · rw [Operation.ensures_bind]
    refine (holds_of_removes (Removal.asks_deleteResolved levels source) h₁).mono ?_
      fun _ _ h => h.1
    intro _ s₂ h₂
    rw [Operation.ensures_bind]
    exact holds_note h₂.1 fun _ h₃ _ => h₃

/-- The nodes are sound throughout a move, and what is at the destination is known. -/
theorem phases_held : Phases Watched levels m opts source destination t
    (fun existing s => Held s ∧ Awaits s.state destination.components existing) (fun _ => Held)
    (fun _ => Held) where
  taken _ _ _ hs := hs.1
  refuse _ _ _ hs := hs.1
  attempt _ _ hs := holds_tryRename hrooted happart hs.1 hs.2
  replace _ _ hs := holds_replaceDestination hs.1 hs.2

omit hrooted happart in
/-- A query of the destination finds what is there, or nothing is there. -/
theorem holds_surveyMove (hs : Held s) :
    Ensures Watched (surveyMove opts source destination) s
      (fun survey s' => Held s' ∧ Awaits s'.state destination.components survey.2)
      (fun _ s' => Held s') := by
  have hfirst : Asks (Request.Looks opts.transaction)
      (firstExisting opts.transaction destination.namedAncestors) :=
    (queries_firstExisting _).mono fun _ => Request.Queries.looks
  unfold surveyMove
  rw [Operation.ensures_bind]
  refine (holds_of_looks hfirst hs).mono ?_ fun _ _ h => h.1
  intro anchor s₁ h₁
  cases anchor with
  | none => exact ensures_fail.mpr h₁.1
  | some anchor =>
    rw [Operation.ensures_bind]
    refine holds_perform h₁.1 trivial (fun onOneVolume s₂ h₂ _ _ => ?_) fun _ _ => id
    unfold queryDestination
    rw [Operation.ensures_bind, Operation.ensures_bind]
    refine holds_attempt h₂ trivial (fun info s₃ h₃ hp hstate => ?_) ?_
    · obtain ⟨n, hn, rfl⟩ := Tree.entry_eq_ok.mp hp
      exact ⟨h₃, n, hstate ▸ hn, n.describes_entryAt destination⟩
    · intro e s₃ h₃ hstate hmissing
      dsimp only
      split
      · next hnotFound =>
        refine ⟨h₃, h₃.sound.bare_of_none ?_⟩
        rw [hstate]
        exact hmissing rfl hnotFound
      · exact ensures_fail.mpr h₃

theorem holds_moveTree (hs : Held s) :
    Ensures Watched (moveTree levels m opts source destination t) s
      (fun _ s' => Held s') (fun _ s' => Held s') :=
  (phases_held hrooted happart).ensures_moveTree (holds_surveyMove hs) fun _ hs =>
    holds_copyAndDelete hrooted hs.1 hs.2

end Move

/-- A copy that may not overwrite and any move hold the nodes sound. -/
theorem holds_copyOrMove (hrooted : Rooted destination.components)
    (hcopy : ∀ copy, opts.mode = .ok (.copy copy) → copy.overwriteExisting = false) (hs : Held s) :
    Ensures Watched (copyOrMove levels opts source destination) s
      (fun _ s' => Held s') (fun _ s' => Held s') := by
  unfold copyOrMove
  split
  · exact ensures_fail.mpr hs
  · next mode hmode =>
    rw [Operation.ensures_bind]
    refine holds_resolve hs fun s₁ h₁ _ => ?_
    rw [Operation.ensures_bind]
    refine holds_resolve h₁ fun s₂ h₂ _ => ?_
    split
    · exact ensures_fail.mpr h₂
    · next hoverlap =>
      have happart := Path.apart (overlap_eq_none_iff.mp hoverlap)
      rw [Operation.ensures_bind]
      refine holds_perform h₂ trivial (fun info s₃ h₃ _ _ => ?_) fun _ _ => id
      split
      · exact ensures_fail.mpr h₃
      · unfold transferTree
        cases mode with
        | copy copy =>
          simp only [Operation.ensures_bind]
          refine holds_note h₃ fun s₄ h₄ _ => ?_
          refine (holds_copyTree_root levels source destination {} h₄ hrooted ?_).mono_ok
            fun _ _ h => ensures_pure.mpr h
          rw [hcopy copy hmode]
          exact nofun
        | move m =>
          simp only [Operation.ensures_bind]
          refine holds_note h₃ fun s₄ h₄ _ => ?_
          exact (holds_moveTree hrooted happart h₄).mono_ok fun _ _ h => ensures_pure.mpr h

end Memory

end TreeOps
