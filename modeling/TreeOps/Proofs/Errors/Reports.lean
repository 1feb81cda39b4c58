import TreeOps.Create
import TreeOps.Proofs.Memory.Listing
import TreeOps.Removal.Delete

/-!
# What halts an operation

Every error is raised right after the call that it comes from, so what it tells about the nodes
follows from the code of that call. An error that says that a path is missing, present, no directory
or not empty is true of the nodes when the code tells about the path that the error names, as it
does for calls on one path. What halts an operation is told for any condition that admits such
errors, and for any invariant of the nodes that the calls keep; the invariant tells how deep an
operation has to follow the nodes.
-/

namespace TreeOps

/-- Whether an error is true of the nodes, as far as it tells about a node at all. -/
def TreeError.IsTrueOf (t : Tree) : TreeError → Prop
  | notFound path => t.lookup path.components = none
  | alreadyExists path => ∃ n, t.lookup path.components = some n
  | notADirectory path => ∃ n, t.lookup path.components = some n ∧ n.isDirectoryLike = false
  | directoryNotEmpty path => t.hasChildren path = true
  | _ => True

namespace TreeError

/-- Whether an error tells that the source and the destination of a transfer overlap. It is raised
before any call is made, all others come from calls. -/
def isOverlap : TreeError → Bool
  | sameSourceAndDestination _ | destinationInsideSource .. | sourceInsideDestination .. => true
  | _ => false

@[simp] theorem isOverlap_ofNative (path : Path) (what : String) (e : NativeError) :
    (ofNative path what e).isOverlap = false := by
  unfold ofNative
  split <;> rfl

@[simp] theorem isOverlap_fatal (kind : Removal.Fatal) (path : Path) (e : NativeError) :
    (kind.error path e).isOverlap = false := by
  cases kind <;> rfl

end TreeError

/-! ### What the codes of calls tell -/

namespace Tree

variable {t : Tree} {path : Path} {what : String} {e : NativeError}

open TreeError (ofNative)

theorem isTrueOf_entry (h : t.entry path = .error e) : (ofNative path what e).IsTrueOf t := by
  obtain ⟨hnone, rfl⟩ := entry_eq_error.mp h
  exact hnone

/-- A call that asks for the node at its path first fails if there is none, or goes on with it. -/
theorem isTrueOf_node {α : Type} {missing : NativeCode} {f : Node → Except NativeError α}
    (h : (t.node path missing >>= f) = .error e)
    (hmissing : missing = .pathNotFound ∨ missing = .fileNotFound)
    (hf : ∀ n, t.lookup path.components = some n → f n = .error e →
      (ofNative path what e).IsTrueOf t) : (ofNative path what e).IsTrueOf t := by
  cases hl : t.lookup path.components with
  | none =>
    rw [node_eq_error hl] at h
    obtain rfl := Except.error.inj h
    rcases hmissing with rfl | rfl
    · exact hl
    · exact hl
  | some n =>
    rw [node_eq_ok.mpr hl] at h
    exact hf n hl h

theorem isTrueOf_listing (h : t.listing path = .error e) : (ofNative path what e).IsTrueOf t := by
  apply isTrueOf_node h (.inl rfl)
  intro n hl h
  by_cases hk : n.kind = .file
  · simp only [hk, if_true] at h
    obtain rfl := Except.error.inj h
    exact ⟨n, hl, by simp [Node.isDirectoryLike, hk]⟩
  · simp [hk, pure, Except.pure] at h

theorem isTrueOf_withDirectory (h : t.withDirectory path = .error e) :
    (ofNative path what e).IsTrueOf t := by
  cases hl : t.lookup path.components with
  | none =>
    obtain ⟨code, osCode⟩ := e
    obtain rfl : code = .pathNotFound := withDirectory_error hl h
    exact hl
  | some n =>
    have hcontains : t.contains path = true := by rw [PathMap.contains_eq, hl]; rfl
    simp only [withDirectory, hcontains, if_true] at h
    obtain rfl := Except.error.inj h
    exact ⟨n, hl⟩

theorem isTrueOf_withoutDirectory (h : t.withoutDirectory path = .error e) :
    (ofNative path what e).IsTrueOf t := by
  apply isTrueOf_node h (.inl rfl)
  intro n hl h
  split at h
  · next hk =>
    obtain rfl := Except.error.inj h
    exact ⟨n, hl, by simp [Node.isDirectoryLike, hk]⟩
  · next hk =>
    obtain rfl := Except.error.inj h
    exact ⟨n, hl, by simp [Node.isDirectoryLike, hk]⟩
  · cases h
  · by_cases hchildren : t.hasChildren path = true
    · simp only [hchildren, if_true] at h
      obtain rfl := Except.error.inj h
      exact hchildren
    · cases hmounted : n.mounted with
      | false => simp [hchildren, hmounted, pure, Except.pure] at h
      | true =>
        simp only [hchildren, hmounted, if_true] at h
        obtain rfl := Except.error.inj h
        trivial

theorem isTrueOf_withoutFile (h : t.withoutFile path = .error e) :
    (ofNative path what e).IsTrueOf t := by
  apply isTrueOf_node h (.inr rfl)
  intro n _ h
  split at h
  · obtain rfl := Except.error.inj h
    trivial
  · cases h

theorem isTrueOf_withAttributes {attributes : Attributes}
    (h : t.withAttributes path attributes = .error e) : (ofNative path what e).IsTrueOf t := by
  apply isTrueOf_node h (.inl rfl)
  rintro n _ ⟨⟩

/-- A call on one path that fails tells about that path. -/
theorem isTrueOf_perform {c : Call} (h : (t.perform c).1 = .error e)
    (hc : c.primitive ≠ .move ∧ c.primitive ≠ .copy ∧ c.primitive ≠ .sameVolume) :
    (ofNative c.path what e).IsTrueOf t := by
  cases c with
  | list dir => exact isTrueOf_listing h
  | query path => exact isTrueOf_entry h
  | createDirectory path => exact isTrueOf_withDirectory (update_error h)
  | removeDirectory path => exact isTrueOf_withoutDirectory (update_error h)
  | deleteFile path => exact isTrueOf_withoutFile (update_error h)
  | setAttributes path attributes => exact isTrueOf_withAttributes (update_error h)
  | unmount path =>
    have hfailed := update_error h
    unfold withUnmounted at hfailed
    split at hfailed
    · cases hfailed
    · obtain rfl := Except.error.inj hfailed
      trivial
  | move | copy | sameVolume => simp [Call.primitive] at hc

/-- What makes a failed removal fatal is what its error says. -/
theorem isTrueOf_fatal {context : Removal.Context} {kind : Removal.Fatal}
    (h : (ofNative path "" e).IsTrueOf t)
    (hfatal : Removal.classify e.code context = .fatal kind) :
    (kind.error path e).IsTrueOf t := by
  obtain ⟨code, osCode⟩ := e
  unfold Removal.classify at hfatal
  dsimp only at hfatal
  repeat' split at hfatal
  all_goals cases hfatal
  all_goals first | exact h | trivial

end Tree

/-- The calls that remove something, or get it ready to be removed. -/
def Call.Removing : Call → Prop
  | .removeDirectory _ | .deleteFile _ | .setAttributes .. | .unmount _ => True
  | _ => False

namespace Memory

open Removal Operation

/-- A condition on what halts an operation that admits every error from calls that is true of the
nodes, and any error from calls where they may fail for other reasons. -/
def Admits (failing : Prop) (inv : Tree → Prop) (err : Halt → Scene → Prop) : Prop :=
  ∀ e s, e.isOverlap = false → inv s.nodes → failing ∨ e.IsTrueOf s.nodes → err (.failed e) s

/-- The error for a call that failed comes from a call. -/
theorem Admits.ofNative {failing : Prop} {inv : Tree → Prop} {err : Halt → Scene → Prop}
    (h : Admits failing inv err) {path : Path} {what : String} {e : NativeError} {s : Scene}
    (hs : inv s.nodes) (he : failing ∨ (TreeError.ofNative path what e).IsTrueOf s.nodes) :
    err (.failed (.ofNative path what e)) s :=
  h _ _ (TreeError.isOverlap_ofNative ..) hs he

/-- However its requests are answered, an operation keeps an invariant of the nodes, and is halted
only as a condition says. -/
def Reports (failing : Prop) (inv : Tree → Prop) (err : Halt → Scene → Prop) {α : Type}
    (p : Operation α) : Prop :=
  ∀ s, inv s.nodes → Ensures (Replies failing True) p s (fun _ s' => inv s'.nodes) err

/-- A child that a listing of a directory may have told about. -/
def Listed (inv : Tree → Prop) (dir child : Path) : Prop :=
  ∃ t b n, inv t ∧ child.components = dir.components ++ [.name b] ∧
    t.lookup child.components = some n

section Rules

variable {α β : Type} {failing : Prop} {inv : Tree → Prop} {err : Halt → Scene → Prop}
  {tx : Option Transaction} {path : Path}

/-! ### Rules -/

/-- What halts an operation wherever it starts. -/
theorem Reports.ensures {p : Operation α} (h : Reports failing (fun _ => True) err p) (s : Scene) :
    Ensures (Replies failing True) p s (fun _ _ => True) err := h s trivial

theorem reports_pure {a : α} : Reports failing inv err (pure a) :=
  fun _ hs => ensures_pure.mpr hs

theorem reports_bind {p : Operation α} {f : α → Operation β} (h : Reports failing inv err p)
    (hf : ∀ a, Reports failing inv err (f a)) : Reports failing inv err (p >>= f) := by
  intro s hs
  rw [Operation.ensures_bind]
  apply (h s hs).mono_ok
  intro a s' hs'
  exact hf a s' hs'

theorem reports_tryCatch {p : Operation α} {f : Halt → Operation α}
    (h : Reports failing inv err p)
    (hf : ∀ halt s, err halt s →
      Ensures (Replies failing True) (f halt) s (fun _ s' => inv s'.nodes) err) :
    Reports failing inv err (p.tryCatch f) := by
  intro s hs
  apply ensures_tryCatch.mpr
  exact (h s hs).mono (fun _ _ => id) hf

theorem reports_note {n : Note} : Reports failing inv err (Operation.note n) :=
  fun _ hs => ensures_note.mpr hs

theorem reports_pause {milliseconds : Nat} :
    Reports failing inv err (ExceptT.lift (Program.request (.pause milliseconds))) :=
  fun _ hs => ensures_pause.mpr hs

theorem reports_forM {f : β → Operation Unit} {l : List β}
    (h : ∀ b ∈ l, Reports failing inv err (f b)) : Reports failing inv err (l.forM f) := by
  intro s hs
  apply ensures_forM (fun _ (s' : Scene) => inv s'.nodes) hs
  intro before b after s' hl hs'
  exact h b (by simp [hl]) s' hs'

/-- An attempt that fails leaves the nodes as they are, and what comes next may tell of it. -/
theorem reports_attempt {c : Call} {f : Except NativeError c.Result → Operation α}
    (hkeeps : ∀ t, inv t → inv (t.perform c).2)
    (hok : ∀ value, Reports failing inv err (f (.ok value)))
    (herror : ∀ s e, inv s.nodes → failing ∨ (s.nodes.perform c).1 = .error e →
      Ensures (Replies failing True) (f (.error e)) s (fun _ s' => inv s'.nodes) err) :
    Reports failing inv err (Operation.attempt tx c >>= f) := by
  intro s hs
  rw [Operation.ensures_bind, ensures_attempt]
  constructor
  · intro value _
    exact hok value _ (hkeeps _ hs)
  · intro e he
    exact herror s e hs he

/-- A query that succeeds tells about the node that is there. -/
theorem reports_query {f : Except NativeError Entry → Operation α}
    (hok : ∀ s n info, inv s.nodes → s.nodes.lookup path.components = some n → info.Describes n →
      Ensures (Replies failing True) (f (.ok info)) s (fun _ s' => inv s'.nodes) err)
    (herror : ∀ s e, inv s.nodes → failing ∨ s.nodes.entry path = .error e →
      Ensures (Replies failing True) (f (.error e)) s (fun _ s' => inv s'.nodes) err) :
    Reports failing inv err (Operation.attempt tx (.query path) >>= f) := by
  intro s hs
  rw [Operation.ensures_bind, ensures_attempt]
  constructor
  · intro info hinfo
    obtain ⟨n, hn, rfl⟩ := Tree.entry_eq_ok.mp hinfo
    exact hok s n _ hs hn (n.describes_entryAt path)
  · intro e he
    exact herror s e hs he

variable (herr : Admits failing inv err)
include herr

theorem reports_fail {e : TreeError} (hcalls : e.isOverlap = false) (h : ∀ t, e.IsTrueOf t) :
    Reports failing inv err (Operation.fail e : Operation α) :=
  fun _ hs => ensures_fail.mpr (herr _ _ hcalls hs (.inr (h _)))

/-- A call on one path that fails is reported for that path. -/
theorem reports_perform {c : Call} {what : String} (hkeeps : ∀ t, inv t → inv (t.perform c).2)
    (hc : c.primitive ≠ .move ∧ c.primitive ≠ .copy ∧ c.primitive ≠ .sameVolume) :
    Reports failing inv err (Operation.perform tx c (.ofNative c.path what)) := by
  intro s hs
  rw [ensures_perform]
  constructor
  · intro _ _
    exact hkeeps _ hs
  · intro e he
    exact herr.ofNative hs (he.imp_right fun he => Tree.isTrueOf_perform he hc)

/-- What a listing that fails halts is always admitted. -/
theorem reports_childEntries {dir : Path} : Reports failing inv err (childEntries tx dir) := by
  intro s hs
  rw [ensures_childEntries]
  exact ⟨fun _ _ _ => hs, fun _ _ => herr _ _ rfl hs (.inr trivial)⟩

/-! ### Deleting -/

section Deleting

variable (hremoves : ∀ c : Call, c.Removing → ∀ t, inv t → inv (t.perform c).2)
include hremoves

theorem reports_clearReadOnly {attributes : Attributes} :
    Reports failing inv err (clearReadOnly tx path attributes) :=
  reports_bind reports_note fun _ =>
    reports_perform herr (c := .setAttributes path (attributes.without .readOnly))
      (hremoves _ trivial) ⟨nofun, nofun, nofun⟩

theorem reports_unmount : Reports failing inv err (unmount tx path) := by
  apply reports_attempt (hremoves (.unmount path) trivial)
  · intro _
    exact reports_note
  · intro s e hs _
    dsimp only
    split
    · exact ensures_note.mpr hs
    · exact ensures_fail.mpr (herr _ _ rfl hs (.inr trivial))

theorem reports_removeFile {attributes : Attributes} {ignoreReadOnly : Bool} :
    Reports failing inv err (removeFile tx path attributes ignoreReadOnly) := by
  have hfailed (s : Scene) (e : NativeError) (hs : inv s.nodes)
      (he : failing ∨ (s.nodes.perform (.deleteFile path)).1 = .error e) :
      err (.failed (.ofNative path "delete file" e)) s :=
    herr.ofNative hs (he.imp_right fun he => Tree.isTrueOf_withoutFile (Tree.update_error he))
  have hcleared : Reports failing inv err (deleteCleared tx path attributes) := by
    apply reports_bind (reports_clearReadOnly herr hremoves)
    intro _
    apply reports_attempt (hremoves (.deleteFile path) trivial)
    · intro _
      exact reports_note
    · intro s e hs he
      dsimp only
      split
      · exact ensures_note.mpr hs
      · exact ensures_fail.mpr (hfailed s e hs he)
  unfold removeFile
  split
  · exact reports_fail herr rfl fun _ => trivial
  · apply reports_attempt (hremoves (.deleteFile path) trivial)
    · intro _
      exact reports_note
    · intro s e hs he
      dsimp only
      split
      · exact ensures_note.mpr hs
      · split
        · exact hcleared s hs
        · exact ensures_fail.mpr (hfailed s e hs he)

theorem reports_emptyDirectory {opts : DeleteOptions} {deleteChild : Path → Operation Unit}
    (h : ∀ child, Listed inv path child → Reports failing inv err (deleteChild child)) :
    Reports failing inv err (emptyDirectory opts deleteChild path) := by
  intro s hs
  unfold emptyDirectory
  rw [Operation.ensures_bind, ensures_listEntries]
  constructor
  · intro _ _ _
    have hentries : Reports failing inv err ((s.nodes.entriesOf path).forM fun e =>
        if e.isDirectory then deleteChild e.path
        else removeFile opts.transaction e.path e.attributes opts.ignoreReadOnly) := by
      apply reports_forM
      intro e he
      obtain ⟨b, n, -, hpath, -, hn, -⟩ := Tree.exists_of_mem_entriesOf he
      split
      · exact h e.path ⟨s.nodes, b, n, hs, hpath, hn⟩
      · exact reports_removeFile herr hremoves
    exact hentries s hs
  · intro e _
    dsimp only
    split
    · exact ensures_pure.mpr hs
    · exact ensures_fail.mpr (herr _ _ rfl hs (.inr trivial))

/-- One attempt to remove a directory, and what is done where it may be tried again. -/
theorem reports_removal {context : Context} {n : Note}
    {again : NativeError → RetryAction → Operation Unit}
    (hagain : ∀ e action, Reports failing inv err (again e action)) :
    Reports failing inv err (Operation.attempt tx (.removeDirectory path) >>= fun result =>
      match result with
      | .ok () => Operation.note n
      | .error e =>
        match classify e.code context with
        | .success => pure ()
        | .fatal kind => Operation.fail (kind.error path e)
        | .retry action => again e action) := by
  apply reports_attempt (hremoves (.removeDirectory path) trivial)
  · intro _
    exact reports_note
  · intro s e hs he
    dsimp only
    split
    · exact ensures_pure.mpr hs
    · next hfatal =>
      apply ensures_fail.mpr
      apply herr _ _ (TreeError.isOverlap_fatal ..) hs
      apply he.imp_right
      intro he
      exact Tree.isTrueOf_fatal (Tree.isTrueOf_withoutDirectory (Tree.update_error he)) hfatal
    · exact hagain e _ s hs

theorem reports_removeRepeatedly {opts : DeleteOptions} {emptyIt : Operation Unit}
    (h : Reports failing inv err emptyIt) (context : Context) (attributes : Attributes)
    (retries attempt : Nat) :
    Reports failing inv err
      (removeRepeatedly opts context path attributes emptyIt retries attempt) := by
  induction retries generalizing context attempt with
  | zero =>
    unfold removeRepeatedly
    apply reports_bind h
    intro _
    apply reports_removal herr hremoves
    intro e action
    exact reports_fail herr rfl fun _ => trivial
  | succ retries ih =>
    unfold removeRepeatedly
    apply reports_bind h
    intro _
    apply reports_removal herr hremoves
    intro e action
    apply reports_bind reports_note
    intro _
    cases action with
    | pause =>
      dsimp only
      split
      · exact reports_bind reports_pause fun _ => ih context (attempt + 1)
      · exact ih context (attempt + 1)
    | clearReadOnly =>
      exact reports_bind (reports_clearReadOnly herr hremoves) fun _ =>
        ih { context with readOnly := false } (attempt + 1)

/-- A directory is deleted as its children are. -/
theorem reports_deleteNode_succ {opts : DeleteOptions} {levels : Nat}
    (h : ∀ child, Listed inv path child →
      Reports failing inv err (deleteNode opts levels true child)) (continueIfMissing : Bool) :
    Reports failing inv err (deleteNode opts (levels + 1) continueIfMissing path) := by
  apply reports_query
  · intro s n info hs hn hinfo
    have hrelease : Reports failing inv err (releaseReadOnly opts path info) := by
      unfold releaseReadOnly
      split
      · split
        · exact reports_clearReadOnly herr hremoves
        · exact reports_fail herr rfl fun _ => trivial
      · exact reports_pure
    have hempty : Reports failing inv err
        (if (opts.recursive && (!info.isReparsePoint || info.isMountPoint)) = true then
          emptyDirectory opts (deleteNode opts levels true) path else pure ()) := by
      split
      · exact reports_emptyDirectory herr hremoves h
      · exact reports_pure
    have hrest : Reports failing inv err (releaseReadOnly opts path info >>= fun _ =>
        removeRepeatedly opts
          { requireEmpty := !opts.recursive && opts.requireEmptyIfNotRecursive
            continueIfMissing
            ignoreReadOnly := opts.ignoreReadOnly } path info.attributes
          (if (opts.recursive && (!info.isReparsePoint || info.isMountPoint)) = true then
            emptyDirectory opts (deleteNode opts levels true) path else pure ())
          (opts.retry.attempts - 1) 1) :=
      reports_bind hrelease fun _ => reports_removeRepeatedly herr hremoves hempty _ _ _ _
    dsimp only
    split
    · next hlike =>
      rw [hinfo.isDirectory] at hlike
      exact ensures_fail.mpr (herr _ _ rfl hs (.inr ⟨n, hn, by simpa using hlike⟩))
    · split
      · exact reports_bind (reports_unmount herr hremoves) (fun _ => hrest) s hs
      · exact hrest s hs
  · intro s e hs he
    dsimp only
    split
    · exact ensures_note.mpr hs
    · exact ensures_fail.mpr (herr.ofNative hs (he.imp_right Tree.isTrueOf_entry))

theorem reports_deleteFile {ignoreReadOnly : Bool} :
    Reports failing inv err (deleteFile tx path ignoreReadOnly) := by
  intro s hs
  rw [deleteFile, Operation.ensures_bind, ensures_resolve]
  refine reports_query ?_ ?_ s hs
  · intro s' n info hs' _ _
    exact reports_removeFile herr hremoves s' hs'
  · intro s' e hs' he
    dsimp only
    split
    · exact ensures_pure.mpr hs'
    · exact ensures_fail.mpr (herr.ofNative hs' (he.imp_right Tree.isTrueOf_entry))

end Deleting

end Rules

/-- A delete is halted as a condition says that admits what comes from calls. -/
theorem reports_delete {failing : Prop} {err : Halt → Scene → Prop} {opts : DeleteOptions}
    {path : Path} (herr : Admits failing (fun _ => True) err) (hdepth : ∀ s, err .tooDeep s)
    (levels : Nat) (continueIfMissing : Bool) :
    Reports failing (fun _ => True) err (deleteNode opts levels continueIfMissing path) := by
  induction levels generalizing continueIfMissing path with
  | zero => exact fun s _ => ensures_throw.mpr (hdepth s)
  | succ levels ih =>
    apply reports_deleteNode_succ herr fun _ _ _ _ => trivial
    intro child _
    exact ih true

/-! ### Creating

Where a directory is made does not matter here, so nothing is kept of the nodes. -/

section Creating

variable {failing : Prop} {err : Halt → Scene → Prop} {tx : Option Transaction} {path : Path}
  (herr : Admits failing (fun _ => True) err)

include herr

theorem reports_createOne : Reports failing (fun _ => True) err (createOne tx path) := by
  apply reports_attempt fun _ _ => trivial
  · intro _
    exact reports_note
  · intro s e _ he
    dsimp only
    split
    · rw [Operation.ensures_bind, ensures_perform]
      constructor
      · intro info hinfo
        obtain ⟨n, hn, rfl⟩ := Tree.entry_eq_ok.mp hinfo
        rw [(n.describes_entryAt path).isDirectory]
        split
        · exact ensures_pure.mpr trivial
        · next hlike =>
          exact ensures_fail.mpr (herr _ _ rfl trivial (.inr ⟨n, hn, by simpa using hlike⟩))
      · intro e' he'
        exact herr.ofNative trivial (he'.imp_right Tree.isTrueOf_entry)
    · apply ensures_fail.mpr
      apply herr.ofNative trivial
      exact he.imp_right fun he => Tree.isTrueOf_withDirectory (Tree.update_error he)

theorem reports_missingDirectories (l missing : List Path) :
    Reports failing (fun _ => True) err (missingDirectories tx l missing) := by
  induction l generalizing missing with
  | nil => exact reports_pure
  | cons q l ih =>
    apply reports_query
    · intro s n info _ hn hinfo
      dsimp only
      rw [hinfo.isDirectory]
      split
      · exact ensures_pure.mpr trivial
      · next hlike =>
        exact ensures_fail.mpr (herr _ _ rfl trivial (.inr ⟨n, hn, by simpa using hlike⟩))
    · intro s e _ he
      dsimp only
      split
      · exact ih (q :: missing) s trivial
      · exact ensures_fail.mpr (herr.ofNative trivial (he.imp_right Tree.isTrueOf_entry))

theorem reports_createResolved : Reports failing (fun _ => True) err (createResolved tx path) := by
  apply reports_bind (reports_missingDirectories herr _ _)
  intro missing
  apply reports_forM
  intro p _
  exact reports_createOne herr

end Creating

end Memory

end TreeOps
