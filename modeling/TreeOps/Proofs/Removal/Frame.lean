import TreeOps.Proofs.Memory.Touches
import TreeOps.Removal.Delete

/-!
# What a delete leaves alone

Whatever fails on the way, a delete touches nothing but what is at or below its root. The removal of
a single entry touches its place only; everything else follows along the recursion.
-/

namespace TreeOps.Memory

open Removal

variable {tx : Option Transaction} {path : Path} {opts : DeleteOptions}

theorem touches_clearReadOnly {attributes : Attributes} :
    Touches (path.components = ·) (clearReadOnly tx path attributes) :=
  touches_seq touches_note touches_perform

theorem touches_unmount : Touches (path.components = ·) (unmount tx path) := by
  refine touches_bind touches_attempt fun result _ => ?_
  cases result with
  | ok _ => exact touches_note
  | error e =>
    dsimp only
    split
    · exact touches_note
    · exact touches_fail

theorem touches_deleteCleared {attributes : Attributes} :
    Touches (path.components = ·) (deleteCleared tx path attributes) := by
  refine touches_seq touches_clearReadOnly (touches_bind touches_attempt fun result _ => ?_)
  cases result with
  | ok _ => exact touches_note
  | error e =>
    dsimp only
    split
    · exact touches_note
    · exact touches_fail

theorem touches_removeFile {attributes : Attributes} {ignoreReadOnly : Bool} :
    Touches (path.components = ·) (removeFile tx path attributes ignoreReadOnly) := by
  unfold removeFile
  split
  · exact touches_fail
  · refine touches_bind touches_attempt fun result _ => ?_
    cases result with
    | ok _ => exact touches_note
    | error e =>
      dsimp only
      split
      · exact touches_note
      · split
        · exact touches_deleteCleared
        · exact touches_fail

theorem touches_releaseReadOnly {info : Entry} :
    Touches (path.components = ·) (releaseReadOnly opts path info) := by
  unfold releaseReadOnly
  split
  · split
    · exact touches_clearReadOnly
    · exact touches_fail
  · exact touches_pure trivial

/-- Removing the children of a directory touches what is below it. -/
theorem touches_emptyDirectory {deleteChild : Path → Operation Unit}
    (h : ∀ child, Touches (child.components <+: ·) (deleteChild child)) :
    Touches (path.components <+: ·) (emptyDirectory opts deleteChild path) := by
  refine touches_bind touches_listEntries fun result hresult => ?_
  cases result with
  | ok entries =>
    refine touches_forM fun e he => ?_
    obtain ⟨b, -, hpath, -⟩ := hresult entries rfl e he
    have hbelow (place : Place) (hp : e.path.components <+: place) : path.components <+: place := by
      rw [hpath] at hp
      exact (List.prefix_append _ _).trans hp
    split
    · exact (h e.path).mono hbelow
    · exact touches_removeFile.mono fun place hp => hbelow place (hp ▸ List.prefix_refl _)
  | error code =>
    dsimp only
    split
    · exact touches_pure trivial
    · exact touches_fail

theorem touches_removeRepeatedly (opts : DeleteOptions) {emptyIt : Operation Unit}
    (h : Touches (path.components <+: ·) emptyIt) (context : Context) (attributes : Attributes)
    (retries attempt : Nat) :
    Touches (path.components <+: ·)
      (removeRepeatedly opts context path attributes emptyIt retries attempt) := by
  have here (place : Place) (hp : path.components = place) : path.components <+: place :=
    hp ▸ List.prefix_refl _
  induction retries generalizing context attempt with
  | zero =>
    unfold removeRepeatedly
    refine touches_seq h (touches_bind (touches_attempt.mono here) fun result _ => ?_)
    cases result with
    | ok _ => exact touches_note
    | error e =>
      dsimp only
      split
      · exact touches_pure trivial
      · exact touches_fail
      · exact touches_fail
  | succ retries ih =>
    unfold removeRepeatedly
    refine touches_seq h (touches_bind (touches_attempt.mono here) fun result _ => ?_)
    cases result with
    | ok _ => exact touches_note
    | error e =>
      dsimp only
      split
      · exact touches_pure trivial
      · exact touches_fail
      · refine touches_seq touches_note ?_
        split
        · split
          · exact touches_seq touches_pause (ih context (attempt + 1))
          · exact ih context (attempt + 1)
        · exact touches_seq (touches_clearReadOnly.mono here) (ih _ (attempt + 1))

theorem touches_deleteNode (levels : Nat) (continueIfMissing : Bool) (path : Path) :
    Touches (path.components <+: ·) (deleteNode opts levels continueIfMissing path) := by
  induction levels generalizing continueIfMissing path with
  | zero => exact touches_throw
  | succ levels ih =>
    have here (place : Place) (hp : path.components = place) : path.components <+: place :=
      hp ▸ List.prefix_refl _
    refine touches_bind (touches_attempt.mono fun _ => False.elim) fun result _ => ?_
    cases result with
    | error e =>
      dsimp only
      split
      · exact touches_note
      · exact touches_fail
    | ok info =>
      dsimp only
      split
      · exact touches_fail
      · have hempty (b : Bool) : Touches (path.components <+: ·)
            (if b = true then emptyDirectory opts (deleteNode opts levels true) path
              else pure ()) := by
          split
          · exact touches_emptyDirectory fun child => ih true child
          · exact touches_pure trivial
        have hrelease : Touches (path.components <+: ·) (releaseReadOnly opts path info) :=
          touches_releaseReadOnly.mono here
        have hrest := touches_seq hrelease
          (touches_removeRepeatedly opts
            (hempty (opts.recursive && (!info.isReparsePoint || info.isMountPoint)))
            { requireEmpty := !opts.recursive && opts.requireEmptyIfNotRecursive
              continueIfMissing
              ignoreReadOnly := opts.ignoreReadOnly }
            info.attributes (opts.retry.attempts - 1) 1)
        split
        · exact touches_seq (touches_unmount.mono here) hrest
        · exact hrest

/-- A delete touches nothing but what is at or below its root. -/
theorem touches_deleteResolved (levels : Nat) (root : Path) :
    Touches (root.components <+: ·) (deleteResolved levels opts root) :=
  touches_deleteNode levels opts.continueIfMissing root

/-- The delete of a file touches its place only. -/
theorem touches_deleteFile {ignoreReadOnly : Bool} :
    Touches (path.components = ·) (deleteFile tx path ignoreReadOnly) := by
  refine touches_bind touches_resolve ?_
  rintro _ rfl
  refine touches_bind (touches_attempt.mono fun _ => False.elim) fun result _ => ?_
  cases result with
  | ok info => exact touches_removeFile
  | error e =>
    dsimp only
    split
    · exact touches_pure trivial
    · exact touches_fail

end TreeOps.Memory
