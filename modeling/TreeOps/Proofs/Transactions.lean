import TreeOps.Proofs.Reachable
import TreeOps.Proofs.Transfer.Course
import TreeOps.Proofs.Walk.Lazy

/-!
# The caller's transaction

The caller of an operation may hand it a transaction: in its options, in its traversal or as an
argument. Every primitive call of the operation is made in just that transaction, or in none if none
was given. So options that are rebuilt for an inner delete and the state that a walk keeps between
its steps pass it on, whatever the file system answers and whatever the listener decides.
-/

namespace TreeOps

/-- A primitive call is made in a given transaction. -/
def Request.IsIn (tx : Option Transaction) : Request → Prop
  | .call tx' _ => tx' = tx
  | _ => True

namespace Request

variable {tx : Option Transaction} {made : Path → Prop} {root : Place} {r : Request}

theorem Looks.isIn (h : r.Looks tx) : r.IsIn tx := by
  cases r with
  | call tx' c =>
    cases c with
    | list | query | sameVolume => exact h
    | createDirectory | removeDirectory | deleteFile | move | copy | setAttributes | unmount =>
      exact h.elim
  | resolve | consult | report | pause | note => trivial

theorem Creates.isIn (h : r.Creates tx made) : r.IsIn tx := by
  cases r with
  | call tx' c =>
    cases c with
    | query => exact h
    | createDirectory => exact h.1
    | list | removeDirectory | deleteFile | move | copy | setAttributes | unmount | sameVolume =>
      exact h.elim
  | resolve | consult | report | pause | note => trivial

theorem Copies.isIn (h : r.Copies tx) : r.IsIn tx := by
  cases r with
  | call tx' c =>
    cases c with
    | list | query | createDirectory | copy => exact h
    | removeDirectory | deleteFile | move | setAttributes | unmount | sameVolume => exact h.elim
  | resolve | consult | report | pause | note => trivial

theorem Removes.isIn (h : r.Removes tx root) : r.IsIn tx := by
  cases r with
  | call tx' c =>
    cases c with
    | list | query | removeDirectory | deleteFile | setAttributes | unmount => exact h.1
    | createDirectory | move | copy | sameVolume => exact h.elim
  | resolve | consult | report | pause | note => trivial

end Request

open Operation

variable {tx : Option Transaction}

/-! ### Walking -/

theorem Traversal.Requests.isIn {t : Traversal} {r : Request} (h : t.Requests r) :
    r.IsIn t.transaction := by
  cases r with
  | call tx c => exact h.1
  | resolve | consult | report | pause | note => trivial

namespace Walker

theorem asks_tolerates (w : Walker) (dir : Path) (e : NativeError) :
    (w.tolerates dir e).Asks w.traversal.Requests fun _ => True := by
  unfold tolerates
  split
  · trivial
  · split
    · exact ⟨trivial, fun _ => trivial⟩
    · trivial

/-- A step leaves the traversal as it is. -/
theorem asks_step (w : Walker) :
    w.step.Asks w.traversal.Requests fun r => r.2.traversal = w.traversal := by
  unfold step
  split
  · rfl
  · split
    · next dir _ =>
      refine Program.asks_request_bind.mpr ⟨⟨rfl, dir, rfl⟩, fun result => ?_⟩
      cases result with
      | ok children => rfl
      | error e =>
        have htolerates := asks_tolerates { w with pending := none } dir e
        refine Program.asks_bind.mpr (htolerates.mono (fun _ => id) fun accepted _ => ?_)
        cases accepted with
        | true => exact Program.asks_request_bind.mpr ⟨trivial, fun _ => rfl⟩
        | false => exact Program.asks_request_bind.mpr ⟨trivial, fun _ => rfl⟩
    · unfold takeEntry
      split
      · rfl
      · rfl
      · rfl

theorem asks_next (budget : Nat) (w : Walker) :
    (w.next budget).Asks w.traversal.Requests fun r => r.2.traversal = w.traversal := by
  induction budget generalizing w with
  | zero => rfl
  | succ budget ih =>
    refine Program.asks_bind.mpr (w.asks_step.mono (fun _ => id) ?_)
    rintro ⟨turn, w'⟩ hw'
    cases turn with
    | moved =>
      replace hw' : w'.traversal = w.traversal := hw'
      exact hw' ▸ ih w'
    | yielded item => exact hw'
    | ended => exact hw'

theorem asks_collect (budget rounds : Nat) (count : Option Nat) (w : Walker) :
    (w.collect budget count rounds).Asks w.traversal.Requests fun _ => True := by
  induction rounds generalizing count w with
  | zero =>
    rw [collect_zero]
    trivial
  | succ rounds ih =>
    by_cases hcount : count = some 0
    · rw [hcount]
      trivial
    · rw [collect_succ budget rounds hcount]
      refine Program.asks_bind.mpr ((w.asks_next budget).mono (fun _ => id) ?_)
      rintro ⟨turn, w'⟩ hw'
      replace hw' : w'.traversal = w.traversal := hw'
      cases turn with
      | yielded item =>
        have hrest := ih (count.map (· - 1)) w'
        rw [hw'] at hrest
        exact Program.asks_bind.mpr (hrest.mono (fun _ => id) fun _ _ => trivial)
      | moved => trivial
      | ended => trivial

theorem transaction_start (t : Traversal) :
    (start t).traversal.transaction = t.transaction := by
  unfold start Traversal.withKinds
  split <;> rfl

end Walker

/-! ### Copying and moving -/

namespace Transfer

variable {flags : CopyFlags} {levels : Nat} {m : MoveOptions} {opts : TransferOptions}
  {source destination : Path} {t : Tally}

theorem isIn_delete {root : Path} :
    Asks (Request.IsIn opts.transaction) (Removal.deleteResolved levels opts.deletion root) :=
  (Removal.asks_deleteResolved levels root).mono fun _ => Request.Removes.isIn

theorem isIn_clearDestination (existing : Option Entry) :
    Asks (Request.IsIn opts.transaction) (clearDestination levels opts destination existing) := by
  cases existing with
  | none => exact asks_pure trivial
  | some old => exact asks_replaceDestination.mono fun _ => Request.Removes.isIn

theorem isIn_tryRename {mayRemove : Bool} :
    Asks (Request.IsIn opts.transaction) (tryRename m opts source destination mayRemove t) := by
  refine asks_bind (asks_attempt rfl) fun result _ => ?_
  cases result with
  | ok _ =>
    refine asks_bind (asks_record fun _ _ => trivial) ?_
    rintro ⟨t', -⟩ -
    exact asks_seq (asks_note trivial) (asks_pure trivial)
  | error e =>
    dsimp only
    split
    · split
      · exact asks_seq (asks_note trivial) (asks_pure trivial)
      · exact asks_fail
    · split
      · exact asks_pure trivial
      · split
        · exact asks_fail
        · exact asks_fail

theorem isIn_renameAgain :
    Asks (Request.IsIn opts.transaction) (renameAgain m opts source destination t) := by
  refine asks_bind isIn_tryRename fun r _ => ?_
  cases r with
  | renamed _ => exact asks_pure trivial
  | crossedVolumes => exact asks_pure trivial
  | occupied => exact asks_pure trivial

theorem renameTree_eq (existing : Option Entry) :
    renameTree levels m opts source destination existing t =
      tryRename m opts source destination existing.isSome t >>= fun r =>
        match r with
        | .renamed t => pure (.done t)
        | .crossedVolumes => pure (.toCopy existing)
        | .occupied => clearDestination levels opts destination existing >>= fun _ =>
            renameAgain m opts source destination t := by
  unfold renameTree
  refine bind_congr fun r => ?_
  cases r with
  | renamed t => rfl
  | crossedVolumes => rfl
  | occupied => cases existing <;> rfl

theorem isIn_renameTree (existing : Option Entry) :
    Asks (Request.IsIn opts.transaction)
      (renameTree levels m opts source destination existing t) := by
  rw [renameTree_eq]
  refine asks_bind isIn_tryRename fun r _ => ?_
  cases r with
  | renamed _ => exact asks_pure trivial
  | crossedVolumes => exact asks_pure trivial
  | occupied => exact asks_seq (isIn_clearDestination existing) isIn_renameAgain

theorem isIn_moveUntilCopy :
    Asks (Request.IsIn opts.transaction)
      (moveUntilCopy levels m opts source destination t) := by
  refine asks_bind (looks_surveyMove.mono fun _ => Request.Looks.isIn) fun survey _ => ?_
  split
  · exact asks_fail
  · split
    · refine asks_bind (isIn_renameTree _) fun r _ => ?_
      cases r with
      | done _ => exact asks_pure trivial
      | toCopy existing => exact asks_seq (isIn_clearDestination existing) (asks_pure trivial)
    · split
      · exact asks_seq (isIn_clearDestination survey.2) (asks_pure trivial)
      · exact asks_fail

theorem isIn_untilCopy :
    Asks (Request.IsIn opts.transaction) (untilCopy levels opts source destination) := by
  refine asks_bind (looks_makePlan.mono fun _ => Request.Looks.isIn) fun plan _ => ?_
  split
  · exact asks_seq (asks_note trivial) (asks_pure trivial)
  · refine asks_seq (asks_note trivial) (asks_bind isIn_moveUntilCopy fun result _ => ?_)
    cases result with
    | some t' => exact asks_pure trivial
    | none => exact asks_pure trivial

theorem isIn_afterCopy (plan : Plan) :
    Asks (Request.IsIn opts.transaction) (afterCopy levels opts plan t) := by
  unfold afterCopy
  split
  · exact asks_pure trivial
  · split
    · exact asks_seq (asks_note trivial) (asks_pure trivial)
    · exact asks_bind isIn_delete fun _ _ => asks_seq (asks_note trivial) (asks_pure trivial)

theorem isIn_copyOrMove :
    Asks (Request.IsIn opts.transaction) (copyOrMove levels opts source destination) := by
  rw [copyOrMove_eq_phases]
  refine asks_bind isIn_untilCopy fun result _ => ?_
  cases result with
  | inl outcome => exact asks_pure trivial
  | inr plan =>
    have hcopy : Asks (Request.IsIn opts.transaction) (copyTree opts.transaction
        plan.mode.copyFlags levels true plan.source plan.destination {}) :=
      (asks_copyTree ..).mono fun _ => Request.Copies.isIn
    exact asks_bind hcopy fun _ _ => isIn_afterCopy plan

end Transfer

/-! ### Whole operations -/

/-- The transaction that the caller hands to an operation. -/
def Use.transaction : Use → Option Transaction
  | .createDirectory tx _ | .deleteFile tx _ _ => tx
  | .deleteDirectory opts _ => opts.transaction
  | .pruneEmpty opts _ => opts.transaction
  | .copyOrMove opts _ _ => opts.transaction

theorem isIn_use (levels : Nat) (u : Use) :
    Asks (Request.IsIn u.transaction) (u.operation levels) := by
  cases u with
  | createDirectory tx path =>
    exact asks_bind (asks_resolve trivial) fun _ _ =>
      asks_createAbove.mono fun _ => Request.Creates.isIn
  | deleteDirectory opts root =>
    exact (asks_deleteDirectory levels root).mono fun _ => Request.Removes.isIn
  | deleteFile tx path ignoreReadOnly =>
    exact asks_deleteFile.mono fun _ => Request.Removes.isIn
  | pruneEmpty opts root =>
    have hprune : Asks (Request.Removes opts.transaction []) (pruneEmpty levels opts root) :=
      asks_pruneEmpty levels root
    exact asks_seq (hprune.mono fun _ => Request.Removes.isIn) (asks_pure trivial)
  | copyOrMove opts source destination =>
    exact asks_seq Transfer.isIn_copyOrMove (asks_pure trivial)

/-- Whatever a caller can start, with all that it hands over. -/
inductive Errand where
  | use (u : Use) (levels : Nat)
  | isEmptyDirectory (transaction : Option Transaction) (dir : Path)
  /-- A walk whose items are taken one after another, at most `count` of them if a count is given;
  the other two numbers bound the steps to each item and the number of items. -/
  | walk (t : Traversal) (count : Option Nat) (budget rounds : Nat)

namespace Errand

/-- The transaction that the caller hands over. -/
def transaction : Errand → Option Transaction
  | use u _ => u.transaction
  | isEmptyDirectory tx _ => tx
  | walk t _ _ _ => t.transaction

/-- What is done; the result does not matter here. -/
def program : Errand → Program Unit
  | use u levels => do
    let _ ← (u.operation levels).run
    return ()
  | isEmptyDirectory tx dir => do
    let _ ← (TreeOps.isEmptyDirectory tx dir).run
    return ()
  | walk t count budget rounds => do
    let w ← openWalk t
    let _ ← w.collect budget count rounds
    return ()

theorem isIn_program (errand : Errand) :
    errand.program.Asks (Request.IsIn errand.transaction) fun _ => True := by
  have discard {α : Type} {p : Operation α} (h : Asks (Request.IsIn errand.transaction) p) :
      Program.Asks (Request.IsIn errand.transaction) (fun _ => True)
        (do let _ ← p.run; return ()) :=
    Program.asks_bind.mpr (Program.Asks.mono h (fun _ => id) fun _ _ => trivial)
  cases errand with
  | use u levels => exact discard (isIn_use levels u)
  | isEmptyDirectory tx dir =>
    exact discard ((asks_isEmptyDirectory List.nil_prefix).mono fun _ => Request.Removes.isIn)
  | walk t count budget rounds =>
    refine Program.asks_request_bind.mpr ⟨trivial, fun root => ?_⟩
    refine Program.asks_request_bind.mpr ⟨trivial, fun _ => ?_⟩
    have hcollect := (Walker.start { t with root }).asks_collect budget rounds count
    have hstart : (Walker.start { t with root }).traversal.transaction = t.transaction :=
      Walker.transaction_start _
    refine Program.asks_bind.mpr (hcollect.mono ?_ fun _ _ => trivial)
    intro r hr
    have hin := hr.isIn
    rw [hstart] at hin
    exact hin

end Errand

/-- Whatever the file system answers and whatever the listener decides, every primitive call of an
operation is made in the transaction that its caller has handed over, or in none if there is none.
-/
theorem calls_in_transaction {σ : Type} (h : Handler σ) (s : σ) (errand : Errand) :
    ∀ e ∈ errand.program.history h s, ∀ tx c, e.1.request = .call tx c →
      tx = errand.transaction := by
  intro e he tx c hcall
  have hin := errand.isIn_program.history s e he
  rw [hcall] at hin
  exact hin

/-- A move across volumes deletes what is at its destination, and then its source, in the
transaction that it was given. -/
theorem calls_in_transaction_replacing :
    let m := (((Memory.new.addFile "/s/f" 3).addFile "/d/g" 1).setVolume "/s" 1)
    let errand : Errand := .use (.copyOrMove
      { move := some { replaceExisting := true, copyAllowed := true }, transaction := some ⟨7⟩ }
      "/s" "/d") 4
    ∀ dir : Path, dir ∈ [Path.ofString "/d", Path.ofString "/s"] →
      ∃ e ∈ errand.program.history (Memory.fileSystem.handler {}) m, ∃ tx,
        e.1.request = .call tx (.removeDirectory dir) ∧ tx = errand.transaction := by
  intro m errand dir hdir
  have hmade : ∀ dir ∈ [Path.ofString "/d", Path.ofString "/s"],
      (errand.program.history (Memory.fileSystem.handler {}) m).any (fun e =>
        e.1.request = .call (some ⟨7⟩) (.removeDirectory dir)) = true := by decide +kernel
  obtain ⟨e, he, hrequest⟩ := List.any_eq_true.mp (hmade dir hdir)
  replace hrequest := of_decide_eq_true hrequest
  exact ⟨e, he, _, hrequest, calls_in_transaction _ m errand e he _ _ hrequest⟩

end TreeOps
