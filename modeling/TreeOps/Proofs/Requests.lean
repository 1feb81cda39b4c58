import TreeOps.Create
import TreeOps.Proofs.Path.Ancestors
import TreeOps.Proofs.Program.Asks
import TreeOps.Proofs.Removal.Prune

/-!
# What creating and removing ask for

Creating directories asks only to query paths and to create directories. A delete or a prune asks
only to list and query, to remove single entries, to unmount, and to set attributes, all of it at or
below its root. Neither reports any progress, and neither does what only looks. All calls are made
in the transaction of the caller.
-/

namespace TreeOps

/-- The requests of an operation that only looks. -/
def Request.Looks (tx : Option Transaction) : Request → Prop
  | .call tx' (.list _) | .call tx' (.query _) | .call tx' (.sameVolume ..) => tx' = tx
  | .resolve _ | .note _ => True
  | _ => False

/-- The requests of an operation that looks at single entries and lists nothing. -/
def Request.Queries (tx : Option Transaction) : Request → Prop
  | .call tx' (.query _) | .call tx' (.sameVolume ..) => tx' = tx
  | .resolve _ | .note _ => True
  | _ => False

theorem Request.Queries.looks {tx : Option Transaction} {r : Request} (h : r.Queries tx) :
    r.Looks tx := by
  cases r with
  | call tx' c =>
    cases c with
    | query | sameVolume => exact h
    | _ => exact h.elim
  | resolve | note => trivial
  | consult | report | pause => exact h.elim

/-- The requests of a creation of some directories. -/
def Request.Creates (tx : Option Transaction) (made : Path → Prop) : Request → Prop
  | .call tx' (.query _) => tx' = tx
  | .call tx' (.createDirectory dir) => tx' = tx ∧ made dir
  | .resolve _ | .note _ => True
  | _ => False

/-- The requests of what only deletes or changes the entry at a path. -/
def Request.Edits (tx : Option Transaction) (path : Path) : Request → Prop
  | .call tx' (.deleteFile p) | .call tx' (.setAttributes p _) => tx' = tx ∧ p = path
  | .note _ => True
  | _ => False

/-- The requests of a removal at or below a place. -/
def Request.Removes (tx : Option Transaction) (root : Place) : Request → Prop
  | .call tx' (.list path) | .call tx' (.query path) | .call tx' (.removeDirectory path)
  | .call tx' (.deleteFile path) | .call tx' (.setAttributes path _) | .call tx' (.unmount path) =>
    tx' = tx ∧ root <+: path.components
  | .resolve _ | .pause _ | .note _ => True
  | _ => False

/-- The requests of attempts to remove the directory at a path, besides those that empty it. -/
def Request.Attempts (tx : Option Transaction) (path : Path) : Request → Prop
  | .call tx' (.removeDirectory p) | .call tx' (.setAttributes p _) => tx' = tx ∧ p = path
  | .pause _ | .note _ => True
  | _ => False

theorem Request.Edits.removes {tx : Option Transaction} {path : Path} {root : Place} {r : Request}
    (h : root <+: path.components) (hr : r.Edits tx path) : r.Removes tx root := by
  cases r with
  | call tx' c =>
    cases c with
    | deleteFile | setAttributes => exact ⟨hr.1, hr.2 ▸ h⟩
    | list | query | createDirectory | removeDirectory | move | copy | unmount | sameVolume =>
      exact hr.elim
  | note => trivial
  | resolve | consult | report | pause => exact hr.elim

open Operation

variable {tx : Option Transaction} {made : Path → Prop} {path : Path} {root : Place}

/-! ### Creating -/

theorem asks_createOne (made : Path → Prop) (h : made path) :
    Asks (Request.Creates tx made) (createOne tx path) := by
  refine asks_bind (asks_attempt ⟨rfl, h⟩) fun result _ => ?_
  cases result with
  | ok _ => exact asks_note trivial
  | error e =>
    dsimp only
    split
    · refine asks_bind (asks_perform rfl) fun existing _ => ?_
      split
      · exact asks_pure trivial
      · exact asks_fail
    · exact asks_fail

theorem asks_missingDirectories (l missing : List Path) (hl : ∀ p ∈ l, made p)
    (hmissing : ∀ p ∈ missing, made p) :
    Asks (Request.Creates tx made) (missingDirectories tx l missing)
      fun dirs => ∀ p ∈ dirs, made p := by
  induction l generalizing missing with
  | nil => exact asks_pure hmissing
  | cons p l ih =>
    refine asks_bind (asks_attempt rfl) fun result _ => ?_
    cases result with
    | ok e =>
      dsimp only
      split
      · exact asks_pure hmissing
      · exact asks_fail
    | error e =>
      dsimp only
      split
      · obtain ⟨hp, hl⟩ := List.forall_mem_cons.mp hl
        exact ih (p :: missing) hl (List.forall_mem_cons.mpr ⟨hp, hmissing⟩)
      · exact asks_fail

/-- Only the path itself and paths above it are created. -/
theorem asks_createResolved (made : Path → Prop) (h : ∀ p ∈ path.namedAncestors, made p) :
    Asks (Request.Creates tx made) (createResolved tx path) :=
  asks_bind (asks_missingDirectories _ [] h (by simp)) fun _ hdirs =>
    asks_forM fun p hp => asks_createOne made (hdirs p hp)

/-- Nothing is created but the path and what is above it. -/
theorem asks_createAbove : Asks
    (Request.Creates tx fun p => p.components <+: path.components ∧ p.components ≠ [])
    (createResolved tx path) := by
  refine asks_createResolved _ fun p hp => ?_
  have hclimbs := Path.climbs_namedAncestors path
  exact ⟨hclimbs.above hp, hclimbs.ne_nil hp⟩

/-! ### Listing -/

/-- Whatever a listing reports, its entries lie in the directory or stand for it. -/
theorem below_of_mem_entriesIn {children : List Child} {e : Entry}
    (h : e ∈ entriesIn path (children.filter fun c => !c.name.contains separator)) :
    path.components <+: e.path.components := by
  obtain ⟨c, hc, rfl⟩ := List.mem_map.mp h
  obtain ⟨hc, hdots⟩ := List.mem_filter.mp hc
  have hwhole : separator ∉ c.name := by simpa using (List.mem_filter.mp hc).2
  simp only [Child.isDots, Bool.not_eq_true', Bool.or_eq_false_iff, beq_eq_false_iff_ne] at hdots
  change path.components <+: (path.child c.name).components
  by_cases hnil : c.name = []
  · rw [hnil, Path.child, Path.components_join rfl]
    exact List.prefix_append ..
  · rw [Path.components_child path ⟨hnil, hdots.1, hdots.2, hwhole⟩]
    exact List.prefix_append ..

theorem asks_listEntries (h : root <+: path.components) :
    Asks (Request.Removes tx root) (listEntries tx path)
      fun result => ∀ entries, result = .ok entries →
        ∀ e ∈ entries, root <+: e.path.components := by
  refine asks_bind (asks_attempt ⟨rfl, h⟩) fun result _ => ?_
  cases result with
  | ok children =>
    refine asks_pure ?_
    rintro _ ⟨⟩ e he
    exact h.trans (below_of_mem_entriesIn he)
  | error e => exact asks_seq (asks_note trivial) (asks_pure nofun)

theorem asks_childEntries (h : root <+: path.components) :
    Asks (Request.Removes tx root) (childEntries tx path)
      fun entries => ∀ e ∈ entries, root <+: e.path.components := by
  refine asks_bind (asks_listEntries h) fun result hresult => ?_
  cases result with
  | ok entries => exact asks_pure (hresult entries rfl)
  | error code => exact asks_fail

theorem asks_isEmptyDirectory (h : root <+: path.components) :
    Asks (Request.Removes tx root) (isEmptyDirectory tx path) :=
  asks_bind (asks_perform ⟨rfl, h⟩) fun _ _ => asks_pure trivial

/-! ### Deleting -/

namespace Removal

variable {opts : DeleteOptions} {attributes : Attributes}

theorem edits_clearReadOnly : Asks (Request.Edits tx path) (clearReadOnly tx path attributes) :=
  asks_seq (asks_note trivial) (asks_perform ⟨rfl, rfl⟩)

theorem asks_clearReadOnly (h : root <+: path.components) :
    Asks (Request.Removes tx root) (clearReadOnly tx path attributes) :=
  edits_clearReadOnly.mono fun _ => Request.Edits.removes h

theorem asks_unmount (h : root <+: path.components) :
    Asks (Request.Removes tx root) (unmount tx path) := by
  refine asks_bind (asks_attempt ⟨rfl, h⟩) fun result _ => ?_
  cases result with
  | ok _ => exact asks_note trivial
  | error e =>
    dsimp only
    split
    · exact asks_note trivial
    · exact asks_fail

theorem edits_deleteCleared : Asks (Request.Edits tx path) (deleteCleared tx path attributes) := by
  refine asks_seq edits_clearReadOnly (asks_bind (asks_attempt ⟨rfl, rfl⟩) fun result _ => ?_)
  cases result with
  | ok _ => exact asks_note trivial
  | error e =>
    dsimp only
    split
    · exact asks_note trivial
    · exact asks_fail

theorem edits_removeFile {ignoreReadOnly : Bool} :
    Asks (Request.Edits tx path) (removeFile tx path attributes ignoreReadOnly) := by
  unfold removeFile
  split
  · exact asks_fail
  · refine asks_bind (asks_attempt ⟨rfl, rfl⟩) fun result _ => ?_
    cases result with
    | ok _ => exact asks_note trivial
    | error e =>
      dsimp only
      split
      · exact asks_note trivial
      · split
        · exact edits_deleteCleared
        · exact asks_fail

theorem asks_removeFile {ignoreReadOnly : Bool} (h : root <+: path.components) :
    Asks (Request.Removes tx root) (removeFile tx path attributes ignoreReadOnly) :=
  edits_removeFile.mono fun _ => Request.Edits.removes h

theorem edits_releaseReadOnly {info : Entry} :
    Asks (Request.Edits opts.transaction path) (releaseReadOnly opts path info) := by
  unfold releaseReadOnly
  split
  · split
    · exact edits_clearReadOnly
    · exact asks_fail
  · exact asks_pure trivial

theorem asks_releaseReadOnly {info : Entry} (h : root <+: path.components) :
    Asks (Request.Removes opts.transaction root) (releaseReadOnly opts path info) :=
  edits_releaseReadOnly.mono fun _ => Request.Edits.removes h

/-- A directory may have to be emptied first. -/
theorem asks_emptyIt {descends : Bool} {deleteChild : Path → Operation Unit}
    (h : root <+: path.components)
    (hchild : ∀ child : Path, root <+: child.components →
      Asks (Request.Removes opts.transaction root) (deleteChild child)) :
    Asks (Request.Removes opts.transaction root)
      (if descends = true then emptyDirectory opts deleteChild path else pure ()) := by
  split
  · refine asks_bind (asks_listEntries h) fun result hresult => ?_
    cases result with
    | ok entries =>
      refine asks_forM fun e he => ?_
      have hbelow := hresult entries rfl e he
      split
      · exact hchild e.path hbelow
      · exact asks_removeFile hbelow
    | error code =>
      dsimp only
      split
      · exact asks_pure trivial
      · exact asks_fail
  · exact asks_pure trivial

theorem asks_removeRepeatedly {emptyIt : Operation Unit} (h : root <+: path.components)
    (hempty : Asks (Request.Removes opts.transaction root) emptyIt) (context : Context)
    (retries attempt : Nat) :
    Asks (Request.Removes opts.transaction root)
      (removeRepeatedly opts context path attributes emptyIt retries attempt) := by
  induction retries generalizing context attempt with
  | zero =>
    unfold removeRepeatedly
    refine asks_seq hempty (asks_bind (asks_attempt ⟨rfl, h⟩) fun result _ => ?_)
    cases result with
    | ok _ => exact asks_note trivial
    | error e =>
      dsimp only
      split
      · exact asks_pure trivial
      · exact asks_fail
      · exact asks_fail
  | succ retries ih =>
    unfold removeRepeatedly
    refine asks_seq hempty (asks_bind (asks_attempt ⟨rfl, h⟩) fun result _ => ?_)
    cases result with
    | ok _ => exact asks_note trivial
    | error e =>
      dsimp only
      split
      · exact asks_pure trivial
      · exact asks_fail
      · refine asks_seq (asks_note trivial) ?_
        split
        · split
          · exact asks_seq (asks_request trivial).forget (ih context (attempt + 1))
          · exact ih context (attempt + 1)
        · exact asks_seq (asks_clearReadOnly h) (ih _ (attempt + 1))

theorem attempts_clearReadOnly :
    Asks (Request.Attempts tx path) (clearReadOnly tx path attributes) :=
  asks_seq (asks_note trivial) (asks_perform ⟨rfl, rfl⟩)

/-- Attempts to remove a directory keep what emptying it keeps, and every other request of them. -/
theorem keeps_attempts {σ : Type} {R : Answering σ} {inv : σ → Prop} {emptyIt : Operation Unit}
    (hempty : Keeps R inv emptyIt)
    (hkeeps : ∀ r s a s', Request.Attempts opts.transaction path r → inv s → R r s a s' → inv s')
    (context : Context) (retries attempt : Nat) :
    Keeps R inv (removeRepeatedly opts context path attributes emptyIt retries attempt) := by
  have hasked {α : Type} {p : Operation α}
      (hp : Asks (Request.Attempts opts.transaction path) p) : Keeps R inv p := hp.keeps inv hkeeps
  have hremove : Keeps R inv (Operation.attempt opts.transaction (.removeDirectory path)) :=
    hasked (asks_attempt ⟨rfl, rfl⟩)
  have hclear : Keeps R inv (clearReadOnly opts.transaction path attributes) :=
    hasked attempts_clearReadOnly
  have hnote (n : Note) : Keeps R inv (note n) := hasked (asks_note trivial)
  induction retries generalizing context attempt with
  | zero =>
    unfold removeRepeatedly
    apply keeps_seq hempty
    apply keeps_bind hremove
    intro result _
    cases result with
    | ok _ => exact hnote _
    | error e =>
      dsimp only
      split
      · exact keeps_pure trivial
      · exact keeps_fail
      · exact keeps_fail
  | succ retries ih =>
    unfold removeRepeatedly
    apply keeps_seq hempty
    apply keeps_bind hremove
    intro result _
    cases result with
    | ok _ => exact hnote _
    | error e =>
      dsimp only
      split
      · exact keeps_pure trivial
      · exact keeps_fail
      · apply keeps_seq (hnote _)
        split
        · split
          · exact keeps_seq (hasked (asks_request trivial).forget) (ih context (attempt + 1))
          · exact ih context (attempt + 1)
        · exact keeps_seq hclear (ih _ (attempt + 1))

/-- The same holds if the read-only attribute is seen to before. -/
theorem keeps_removal {σ : Type} {R : Answering σ} {inv : σ → Prop} {emptyIt : Operation Unit}
    {info : Entry} (hempty : Keeps R inv emptyIt)
    (hkeeps : ∀ r s a s', Request.Attempts opts.transaction path r → inv s → R r s a s' → inv s')
    (context : Context) (retries attempt : Nat) :
    Keeps R inv (releaseReadOnly opts path info >>= fun _ =>
      removeRepeatedly opts context path info.attributes emptyIt retries attempt) := by
  have hrelease : Asks (Request.Attempts opts.transaction path)
      (releaseReadOnly opts path info) := by
    unfold releaseReadOnly
    split
    · split
      · exact attempts_clearReadOnly
      · exact asks_fail
    · exact asks_pure trivial
  exact keeps_seq (hrelease.keeps inv hkeeps) (keeps_attempts hempty hkeeps context retries attempt)

/-- What is asked for lies at or below the directory that is deleted. -/
theorem asks_deleteNode (levels : Nat) (continueIfMissing : Bool) (path : Path)
    (h : root <+: path.components) : Asks (Request.Removes opts.transaction root)
      (deleteNode opts levels continueIfMissing path) := by
  induction levels generalizing continueIfMissing path with
  | zero => exact asks_throw
  | succ levels ih =>
    refine asks_bind (asks_attempt ⟨rfl, h⟩) fun result _ => ?_
    cases result with
    | error e =>
      dsimp only
      split
      · exact asks_note trivial
      · exact asks_fail
    | ok info =>
      dsimp only
      split
      · exact asks_fail
      · split
        · exact asks_seq (asks_unmount h) (asks_seq (asks_releaseReadOnly h)
            (asks_removeRepeatedly h (asks_emptyIt h (ih true)) _ _ _))
        · exact asks_seq (asks_releaseReadOnly h)
            (asks_removeRepeatedly h (asks_emptyIt h (ih true)) _ _ _)

theorem asks_deleteResolved (levels : Nat) (root : Path) :
    Asks (Request.Removes opts.transaction root.components) (deleteResolved levels opts root) :=
  asks_deleteNode levels opts.continueIfMissing root (List.prefix_refl _)

/-! ### Pruning -/

variable {pruning : PruneOptions}

theorem asks_removeEmpty (h : root <+: path.components) :
    Asks (Request.Removes pruning.transaction root) (removeEmpty pruning path) := by
  have hdelete : Asks (Request.Removes pruning.transaction root)
      (deleteNode pruning.deletion 1 true path >>= fun _ => pure true) :=
    asks_seq (asks_deleteNode 1 true path h) (asks_pure trivial)
  refine asks_bind (asks_tryCatch hdelete fun halt => ?_) fun removed _ => ?_
  · split
    · exact asks_pure trivial
    · exact asks_throw
  · split
    · exact asks_seq (asks_note trivial) (asks_pure trivial)
    · exact asks_seq (asks_note trivial) (asks_pure trivial)

theorem asks_pruneDirectory {pruneBelow : Path → Operation (List Path)}
    (h : root <+: path.components)
    (hbelow : Asks (Request.Removes pruning.transaction root) (pruneBelow path)) :
    Asks (Request.Removes pruning.transaction root) (pruneDirectory pruning pruneBelow path) := by
  have hbefore : Asks (Request.Removes pruning.transaction root)
      (if pruning.recursive then pruneBelow path else pure []) := by
    split
    · exact hbelow
    · exact asks_pure trivial
  rw [pruneDirectory_eq]
  refine asks_bind hbefore fun below _ => asks_bind (asks_isEmptyDirectory h) fun isEmpty _ => ?_
  split
  · exact asks_bind (asks_removeEmpty h) fun _ _ => asks_pure trivial
  · exact asks_pure trivial

theorem asks_pruneEach {pruneOne : Path → Operation (List Path)} {entries : List Entry}
    (h : ∀ e ∈ entries, Asks (Request.Removes pruning.transaction root) (pruneOne e.path)) :
    Asks (Request.Removes pruning.transaction root) (pruneEach pruneOne entries) := by
  induction entries with
  | nil => exact asks_pure trivial
  | cons e rest ih =>
    obtain ⟨he, hrest⟩ := List.forall_mem_cons.mp h
    exact asks_bind he fun _ _ => asks_bind (ih hrest) fun _ _ => asks_pure trivial

/-- What is asked for lies at or below the directory whose children are pruned. -/
theorem asks_pruneChildren (levels : Nat) (path : Path) (h : root <+: path.components) :
    Asks (Request.Removes pruning.transaction root) (pruneChildren pruning levels path) := by
  induction levels generalizing path with
  | zero => exact asks_throw
  | succ levels ih =>
    refine asks_bind (asks_childEntries h) fun entries hentries => asks_pruneEach fun e he => ?_
    have hbelow := hentries e (List.mem_filter.mp he).1
    exact asks_pruneDirectory hbelow (ih e.path hbelow)

/-- A prune whose root is resolved. -/
def pruneResolved (levels : Nat) (opts : PruneOptions) (root : Path) : Operation (List Path) := do
  let info ← Operation.perform opts.transaction (.query root) (.ofNative root "query")
  if !info.isDirectory then Operation.fail (.notADirectory root)
  else
    Operation.note (.pruning root opts.recursive)
    let removed ← pruneChildren opts levels root
    Operation.note (.pruneFinished root removed.length)
    return removed

theorem asks_pruneResolved (levels : Nat) (root : Path) :
    Asks (Request.Removes pruning.transaction root.components)
      (pruneResolved levels pruning root) := by
  refine asks_bind (asks_perform ⟨rfl, List.prefix_refl _⟩) fun info _ => ?_
  split
  · exact asks_fail
  · have hchildren : Asks (Request.Removes pruning.transaction root.components)
        (pruneChildren pruning levels root) := asks_pruneChildren levels root (List.prefix_refl _)
    refine asks_seq (asks_note trivial) (asks_bind hchildren fun removed _ => ?_)
    exact asks_seq (asks_note trivial) (asks_pure trivial)

end Removal

open Removal

/-! ### Whole operations

Where their paths lead is for the file system to tell. -/

theorem Request.Removes.anywhere {r : Request} (h : r.Removes tx root) : r.Removes tx [] := by
  cases r with
  | call tx' c =>
    cases c with
    | list | query | removeDirectory | deleteFile | setAttributes | unmount =>
      exact ⟨h.1, List.nil_prefix⟩
    | createDirectory | move | copy | sameVolume => exact h.elim
  | report => exact h.elim
  | consult => exact h.elim
  | resolve | pause | note => trivial

theorem asks_deleteDirectory {opts : DeleteOptions} (levels : Nat) (root : Path) :
    Asks (Request.Removes opts.transaction []) (deleteDirectory levels opts root) :=
  asks_bind (asks_resolve trivial) fun root _ => asks_seq (asks_note trivial)
    ((asks_deleteResolved levels root).mono fun _ => Request.Removes.anywhere)

theorem asks_deleteFile {ignoreReadOnly : Bool} :
    Asks (Request.Removes tx []) (deleteFile tx path ignoreReadOnly) := by
  refine asks_bind (asks_resolve trivial) fun path _ => ?_
  refine asks_bind (asks_attempt ⟨rfl, List.nil_prefix⟩) fun result _ => ?_
  cases result with
  | ok info => exact asks_removeFile List.nil_prefix
  | error e =>
    dsimp only
    split
    · exact asks_pure trivial
    · exact asks_fail

theorem pruneEmpty_eq {opts : PruneOptions} (levels : Nat) (root : Path) :
    pruneEmpty levels opts root = Operation.resolve root >>= pruneResolved levels opts := rfl

theorem asks_pruneEmpty {opts : PruneOptions} (levels : Nat) (root : Path) :
    Asks (Request.Removes opts.transaction []) (pruneEmpty levels opts root) := by
  rw [pruneEmpty_eq]
  refine asks_bind (asks_resolve trivial) fun root _ => ?_
  exact (asks_pruneResolved levels root).mono fun _ => Request.Removes.anywhere

end TreeOps
