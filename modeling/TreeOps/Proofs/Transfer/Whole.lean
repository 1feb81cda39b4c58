import TreeOps.Proofs.Removal.Exact
import TreeOps.Proofs.Transfer.Exact

/-!
# A move without failures is all or nothing

If no call fails without a reason in the nodes and the listener never cancels, a move either fails
and changes nothing, or takes the whole source to the destination. What can make a move fail is
found out before anything is deleted: a rename that the destination prevents is possible once the
destination is gone, and a copy cannot fail any more when its place has been made.
-/

namespace TreeOps

/-- What a move has done: nothing is left at the source, the destination has the contents that the
source had, missing places above the destination are directories, and nothing else has changed. -/
structure Moved (t t' : Tree) (source destination : Place) : Prop where
  gone : ∀ way, t'.lookup (source ++ way) = none
  relocated : ∀ way, (t'.lookup (destination ++ way)).map Node.content =
    (t.lookup (source ++ way)).map Node.content
  elsewhere : ∀ place, ¬source <+: place → ¬destination <+: place →
    t.SameOrMade t' destination place

namespace Tree.WellFormed

variable {t : Tree} {place : Place} {n : Node} {destination : Path}

/-- A destination that lies apart from something is not the root. -/
theorem exists_parent (h : t.WellFormed) (hn : t.lookup place = some n)
    (hnormal : destination.isNormal = true) (happart : Apart place destination.components) :
    ∃ base c, base ≠ [] ∧ c ≠ .root ∧ destination.components = base ++ [c] := by
  obtain ⟨way, hway, -⟩ := Path.isNormal_iff.mp hnormal
  have hne : way ≠ [] := by
    rintro rfl
    obtain ⟨way', hway', -⟩ := h.normal_of_lookup hn
    refine happart.2 ?_
    rw [hway, hway']
    exact List.prefix_append [.root] way'
  have hplace : destination.components = (.root :: way.dropLast) ++ [way.getLast hne] := by
    rw [hway, List.cons_append, List.dropLast_concat_getLast]
  exact ⟨_, _, by simp, Path.ne_root_of_components hplace (by simp), hplace⟩

/-- Something is at or above a destination, the root at least. -/
theorem exists_nearest (h : t.WellFormed) (hn : t.lookup place = some n)
    (hnormal : destination.isNormal = true) : ∃ d, t.nearest destination = some d := by
  obtain ⟨way, hway, -⟩ := h.normal_of_lookup hn
  obtain ⟨way', hway', -⟩ := Path.isNormal_iff.mp hnormal
  rw [hway] at hn
  have hbelow : t.lookup ([.root] ++ way) = some n := hn
  obtain ⟨d, hd⟩ := h.exists_above hbelow (by simp)
  exact Tree.exists_nearest (by simp) (hway' ▸ List.prefix_append [.root] way') hd

end Tree.WellFormed

/-- What a move finds: a well-formed tree with names in valid UTF-8, a directory to be moved, and a
destination apart from it. -/
structure Movable (t : Tree) (source destination : Path) (levels : Nat) : Prop where
  wellFormed : t.WellFormed
  textual : t.IsTextual
  levels : t.levels ≤ levels
  directory : t.IsDirectoryAt source.components
  normal : destination.isNormal = true
  apart : Apart source.components destination.components

namespace Movable

variable {t : Tree} {source destination : Path} {levels : Nat}
  (h : Movable t source destination levels)

include h

theorem source_ne_nil : source.components ≠ [] := h.wellFormed.ne_nil_of_directory h.directory

theorem levels_pos : 0 < levels := Nat.lt_of_lt_of_le (Nat.succ_pos _) h.levels

theorem exists_parent : ∃ base c, base ≠ [] ∧ c ≠ .root ∧
    destination.components = base ++ [c] := by
  obtain ⟨n, hn, -⟩ := h.directory
  exact h.wellFormed.exists_parent hn h.normal h.apart

/-- What is at a destination lies in a directory. -/
theorem directory_above {old : Node} (hold : t.lookup destination.components = some old) :
    t.IsDirectoryAt destination.components.dropLast := by
  obtain ⟨base, c, hbase, -, hplace⟩ := h.exists_parent
  rw [hplace, List.dropLast_concat]
  exact h.wellFormed.directory_above (hplace ▸ hold) hbase

theorem destination_ne_nil : destination.components ≠ [] := by
  obtain ⟨base, c, -, -, hplace⟩ := h.exists_parent
  simp [hplace]

theorem copyable : Copyable t source.components destination.components levels where
  regular := h.wellFormed.regular h.levels h.source_ne_nil
  textual := h.textual.textual_branch _
  directory := h.directory
  apart := h.apart

theorem exists_nearest : ∃ n, t.nearest destination = some n := by
  obtain ⟨n, hn, -⟩ := h.directory
  exact h.wellFormed.exists_nearest hn h.normal

theorem regular_destination : Regular (t.branch destination.components) levels := by
  obtain ⟨base, c, -, -, hplace⟩ := h.exists_parent
  exact h.wellFormed.regular h.levels (by simp [hplace])

/-- A missing place above an existing one there is not. -/
theorem elsewhere_of_existing {t' : Tree} {base : Place} {c : Component} {n : Node}
    (hplace : destination.components = base ++ [c]) (hn : t.lookup base = some n) {place : Place}
    (hnot : ¬destination.components <+: place) (hsame : t'.lookup place = t.lookup place) :
    t.SameOrMade t' destination.components place := by
  unfold Tree.SameOrMade
  split
  · next hp =>
    obtain ⟨hne, hpre, hnone⟩ := hp
    rw [hplace] at hpre hnot
    rcases List.prefix_concat_iff.mp hpre with rfl | ⟨way, rfl⟩
    · exact absurd (List.prefix_refl _) hnot
    · obtain ⟨d, hd⟩ := h.wellFormed.exists_above hn hne
      rw [hnone] at hd
      cases hd
  · exact hsame

end Movable

theorem Tree.onOneVolume_eq_ok {t : Tree} {a b : Path} {x y : Node}
    (hx : t.lookup a.components = some x) (hy : t.lookup b.components = some y) :
    t.onOneVolume a b = .ok (x.volume == y.volume) := by
  simp [Tree.onOneVolume, Tree.node_eq_ok.mpr hx, Tree.node_eq_ok.mpr hy, bind, Except.bind, pure,
    Except.pure]

/-- Once the destination is gone, nothing but the volume of its directory can prevent a rename. -/
theorem Tree.Without.withMoved_eq {t t' : Tree} {source destination : Path} {n parent : Node}
    (h : t.Without t' destination.components)
    (happart : Apart source.components destination.components)
    (hn : t.lookup source.components = some n)
    (hparent : t.parentDirectory destination = .ok parent) (replace : Bool) :
    t'.withMoved source destination replace =
      if parent.volume = n.volume then .ok (t'.relocate source destination)
      else .error (NativeCode.notSameDevice : NativeError) := by
  obtain ⟨hk, base, c, hc, hplace, hlookup⟩ := Tree.exists_of_parentDirectory_eq_ok hparent
  have hagree := h.agreeOutside
  have hn' : t'.lookup source.components = some n := by rw [hagree _ happart.2, hn]
  have hlookup' : t'.lookup base = some parent := by
    rw [hagree _ (hplace ▸ concat_not_prefix_self), hlookup]
  have hparent' := Tree.parentDirectory_eq_ok hplace hc hlookup' hk
  have hvacated : t'.vacated n destination replace = .ok t' := by
    have hnone : t'.find? destination = none := h.gone_self
    simp [Tree.vacated, hnone]
  by_cases hvolume : parent.volume = n.volume
  · rw [if_pos hvolume]
    exact Tree.withMoved_eq_ok.mpr ⟨n, parent, hn', hparent', hvolume, t', hvacated, rfl⟩
  · simp [Tree.withMoved, Tree.node_eq_ok.mpr hn', hparent', hvolume, bind, Except.bind, throw,
      throwThe, MonadExceptOf.throw]

/-- What a query of a place has found out. -/
def Found (t : Tree) (place : Place) : Option Entry → Prop
  | none => t.lookup place = none
  | some info => ∃ n, t.lookup place = some n ∧ info.Describes n

namespace Memory

open Transfer Operation

variable {s : Scene} {source destination : Path} {levels : Nat} {opts : TransferOptions}
  {m : MoveOptions}

/-! ### Renaming -/

/-- A rename onto a place with nothing at or below it moves the whole source. -/
theorem moved_relocate {v : Tree} (h : Movable s.nodes source destination levels)
    {base : Place} {c : Component} {parent : Node}
    (hplace : destination.components = base ++ [c]) (hparent : s.nodes.lookup base = some parent)
    (hagree : Tree.AgreeOutside (destination.components <+: ·) s.nodes v)
    (hvacant : ∀ way, v.lookup (destination.components ++ way) = none) :
    Moved s.nodes (v.relocate source destination) source.components destination.components where
  gone way := by
    rw [Tree.lookup_relocate_of_not_below h.source_ne_nil (h.apart.below way).2,
      if_pos (List.prefix_append _ _)]
  relocated way := by
    have hsource := h.apart.lookup_eq (hagree.mono fun _ => .inl) way
    rw [Tree.lookup_relocate_below h.source_ne_nil, hvacant, ite_self, Option.or_none, hsource]
  elsewhere place hsource hdestination := by
    refine h.elsewhere_of_existing hplace hparent hdestination ?_
    rw [Tree.lookup_relocate_of_not_below h.source_ne_nil hdestination, if_neg hsource,
      hagree place hdestination]

/-- What a rename makes room for is gone with everything below it. -/
theorem vacant_of_vacated {t v : Tree} {n : Node} {replace : Bool} (hwf : t.WellFormed)
    (hk : n.kind = .directory) (hne : destination.components ≠ [])
    (hv : t.vacated n destination replace = .ok v) (way : Place) :
    v.lookup (destination.components ++ way) = none := by
  rcases (Tree.vacated_eq_ok hk).mp hv with ⟨hnone, rfl⟩ | ⟨⟨target, htarget, -⟩, -, hchildren, rfl⟩
  · exact hwf.eq_none_below hnone hne way
  · rw [PathMap.lookup_erase]
    split
    · rfl
    · next hway =>
      cases way with
      | nil => simp at hway
      | cons c way =>
        rw [List.append_cons]
        by_cases hc : c = .root
        · cases hl : t.lookup (destination.components ++ [c] ++ way) with
          | none => rfl
          | some x =>
            obtain ⟨b, hb⟩ := (hwf.regular (Nat.le_refl _) hne).names (c :: way) x
              (by rw [← hl, List.append_assoc]; rfl) c (by simp)
            rw [hc] at hb
            cases hb
        · exact hwf.eq_none_below (Tree.hasChildren_eq_false.mp hchildren c hc) (by simp) way

/-- A rename that succeeds where the destination has been left alone, or cleared, moves the whole
source. -/
theorem moved_of_withMoved {t₁ t' : Tree} {replace : Bool}
    (h : Movable s.nodes source destination levels)
    (hagree : s.nodes.AgreeOutside (destination.components <+: ·) t₁)
    (hvacant : ∀ n v, n.kind = .directory → t₁.vacated n destination replace = .ok v →
      ∀ way, v.lookup (destination.components ++ way) = none)
    (hok : t₁.withMoved source destination replace = .ok t') :
    Moved s.nodes t' source.components destination.components := by
  obtain ⟨n, parent, hn, hparent, -, v, hvacated, rfl⟩ := Tree.withMoved_eq_ok.mp hok
  obtain ⟨n', hn', hk⟩ := h.directory
  rw [hagree _ h.apart.2, hn'] at hn
  obtain rfl := Option.some.inj hn
  obtain ⟨-, base, c, -, hplace, hlookup⟩ := Tree.exists_of_parentDirectory_eq_ok hparent
  rw [hagree _ (hplace ▸ concat_not_prefix_self)] at hlookup
  refine moved_relocate h hplace hlookup ?_ (hvacant _ v hk hvacated)
  exact hagree.trans ((Tree.agreeOutside_vacated hvacated).mono fun place he =>
    he ▸ List.prefix_refl _)

/-- How a rename ends without failures. -/
def Renames (s : Scene) (source destination : Path) (mayRemove : Bool) : Rename → Scene → Prop
  | .renamed t, s' =>
    t.canceled = false ∧ Moved s.nodes s'.nodes source.components destination.components
  | .crossedVolumes, s' => s' = s
  | .occupied, s' => s' = s ∧ mayRemove = true ∧ ∃ n parent,
      s.nodes.lookup source.components = some n ∧
      s.nodes.parentDirectory destination = .ok parent ∧ parent.volume = n.volume

theorem ensures_tryRename_exact (h : Movable s.nodes source destination levels) (mayRemove : Bool)
    {t : Tally} (hcanceled : t.canceled = false) :
    Ensures (Replies False False) (tryRename m opts source destination mayRemove t) s
      (Renames s source destination mayRemove) (fun _ s' => s' = s) := by
  refine ensures_tryRename.mono (fun r s' hr => ?_) fun _ _ h => h.1
  cases r with
  | renamed t' =>
    refine ⟨hr.1.trans hcanceled, moved_of_withMoved h (.refl _) ?_ hr.2⟩
    exact fun n v hk => vacant_of_vacated h.wellFormed hk h.destination_ne_nil
  | crossedVolumes => exact hr.1
  | occupied =>
    obtain ⟨rfl, hmay, e, hoccupied, hfailed⟩ := hr
    obtain ⟨hfile, hpath, hdevice⟩ := ne_of_isOccupied hoccupied
    exact ⟨rfl, hmay,
      Tree.exists_of_withMoved_error (hfailed.resolve_left id) hfile hpath hdevice⟩

/-- Once the destination is gone, a rename that only the destination prevented succeeds. -/
theorem ensures_tryRename_vacated {s₁ : Scene} {n parent : Node}
    (h : Movable s.nodes source destination levels)
    (hwithout : s.nodes.Without s₁.nodes destination.components)
    (hn : s.nodes.lookup source.components = some n)
    (hparent : s.nodes.parentDirectory destination = .ok parent)
    (hvolume : parent.volume = n.volume) {t : Tally} (hcanceled : t.canceled = false) :
    Ensures (Replies False False) (tryRename m opts source destination false t) s₁
      (fun r s' => ∃ t', r = .renamed t' ∧ t'.canceled = false ∧
        Moved s.nodes s'.nodes source.components destination.components)
      (fun _ _ => False) := by
  obtain ⟨-, base, c, -, hplace, hlookup⟩ := Tree.exists_of_parentDirectory_eq_ok hparent
  have hagree := hwithout.agreeOutside
  have hmoved := hwithout.withMoved_eq h.apart hn hparent m.replaceExisting
  rw [if_pos hvolume] at hmoved
  have hnot (hfailed : ∃ e,
      False ∨ s₁.nodes.withMoved source destination m.replaceExisting = .error e) : False := by
    obtain ⟨e, he⟩ := hfailed
    rw [hmoved] at he
    cases he.resolve_left id
  refine ensures_tryRename.mono (fun r s' hr => ?_) fun _ _ h => hnot (h.2.imp fun _ => And.left)
  cases r with
  | renamed t' =>
    obtain ⟨hcanceled', hok⟩ := hr
    obtain hnodes := Except.ok.inj (hmoved.symm.trans hok)
    exact ⟨t', rfl, hcanceled'.trans hcanceled,
      hnodes ▸ moved_relocate h hplace hlookup hagree hwithout.gone⟩
  | crossedVolumes => exact (hnot (by simpa using hr.2)).elim
  | occupied => cases hr.2.1

/-! ### Replacing the destination -/

/-- What is at the destination can be deleted, whatever it is. -/
theorem leaves_replaceDestination {old : Node} {info : Entry} {canceling : Prop}
    (hview : Regular (s.nodes.branch destination.components) levels)
    (hold : s.nodes.lookup destination.components = some old) (hinfo : info.Describes old) :
    Leaves canceling (replaceDestination levels opts destination info.isDirectory) s
      (s.nodes.Without · destination.components) := by
  unfold Leaves replaceDestination
  rw [Operation.ensures_bind, ensures_note, hinfo.isDirectory]
  split
  · next hlike => exact leaves_deleteResolved rfl rfl hview hold hlike
  · next hlike =>
    exact leaves_deleteFile hview hold fun hk => hlike (Node.isDirectoryLike_of_directory hk)

/-- A rename that the destination prevents is tried again once the destination is gone. -/
theorem ensures_renameTree_exact (h : Movable s.nodes source destination levels)
    {existing : Option Entry} (hfound : Found s.nodes destination.components existing) {t : Tally}
    (hcanceled : t.canceled = false) :
    Ensures (Replies False False) (renameTree levels m opts source destination existing t) s
      (fun r s' => match r with
        | .done t' => t'.canceled = false ∧
            Moved s.nodes s'.nodes source.components destination.components
        | .toCopy existing' => s' = s ∧ existing' = existing)
      (fun _ s' => s' = s) := by
  unfold renameTree
  rw [Operation.ensures_bind]
  refine (ensures_tryRename_exact h existing.isSome hcanceled).mono_ok fun r s' hr => ?_
  cases r with
  | renamed t' => exact hr
  | crossedVolumes => exact ⟨hr, rfl⟩
  | occupied =>
    obtain ⟨rfl, hsome, n, parent, hn, hparent, hvolume⟩ := hr
    obtain ⟨info, rfl⟩ := Option.isSome_iff_exists.mp hsome
    obtain ⟨old, hold, hinfo⟩ := hfound
    rw [Operation.ensures_bind]
    refine (leaves_replaceDestination h.regular_destination hold hinfo).mono ?_
      fun _ _ => False.elim
    rintro _ s₁ ⟨-, hwithout⟩
    rw [Operation.ensures_bind]
    refine (ensures_tryRename_vacated h hwithout hn hparent hvolume hcanceled).mono ?_
      fun _ _ => False.elim
    rintro _ s₂ ⟨t', rfl, hcanceled', hmoved⟩
    exact ⟨hcanceled', hmoved⟩

/-! ### Copying and deleting -/

section Copy

variable {s₁ : Scene} {base missing : Place}
  (h : Movable s.nodes source destination levels)
  (hagree : Tree.AgreeOutside (destination.components <+: ·) s.nodes s₁.nodes)
  (hplace : destination.components = base ++ missing)
  (hlacks : s₁.nodes.Lacks base missing)

include h hagree hplace hlacks

/-- Where nothing is in the way, a copy can be made below a directory, and then the source can be
deleted. -/
theorem ensures_copyAndDelete (hdir : s.nodes.IsDirectoryAt base) (hmissing : missing ≠ [])
    (hvacant : ∀ way, s₁.nodes.lookup (destination.components ++ way) = none) {t : Tally}
    (hcanceled : t.canceled = false) :
    Ensures (Replies False False) (copyAndDelete levels m opts source destination t) s₁
      (fun t' s' => t'.canceled = false ∧
        Moved s.nodes s'.nodes source.components destination.components)
      (fun _ _ => False) := by
  have hsource (way : Place) := h.apart.lookup_eq (hagree.mono fun _ => .inl) way
  have hcopyable := h.copyable.of_agree hsource
  have hdir₁ : s₁.nodes.IsDirectoryAt base := by
    obtain ⟨d, hd, hdk⟩ := hdir
    refine ⟨d, (hagree base fun hpre => hmissing ?_).trans hd, hdk⟩
    rw [hplace] at hpre
    exact Classical.byContradiction fun hne => append_not_prefix_self hne hpre
  have hbase := h.wellFormed.ne_nil_of_directory hdir
  unfold copyAndDelete
  rw [Operation.ensures_bind]
  refine (ensures_copyTree_root hcopyable hplace hbase hdir₁ hlacks hvacant hcanceled).mono_ok ?_
  rintro t₂ s₂ ⟨hmirrored, helsewhere⟩
  have hcanceled₂ : t₂.canceled = false := by
    rw [hmirrored.counted]
    exact hcanceled
  have hsource₂ (way : Place) : s₂.nodes.lookup (source.components ++ way) =
      s₁.nodes.lookup (source.components ++ way) := by
    have happart := h.apart.below way
    exact (helsewhere _ happart.2).lookup_eq happart.1
  have hcopyable₂ := hcopyable.of_agree hsource₂
  obtain ⟨n, hn, hk⟩ := hcopyable₂.directory
  rw [if_neg (by simp [hcanceled₂]), Operation.ensures_bind]
  refine (leaves_deleteResolved rfl rfl hcopyable₂.regular hn
    (Node.isDirectoryLike_of_directory hk)).mono ?_ fun _ _ => False.elim
  rintro _ s₃ ⟨-, hwithout⟩
  rw [Operation.ensures_bind, ensures_note]
  refine ensures_pure.mpr ⟨hcanceled₂, ?_, ?_, ?_⟩
  · exact hwithout.gone
  · intro way
    rw [hwithout.agreeOutside _ (h.apart.symm.below way).2, hmirrored.mirrored, hsource]
  · intro place hnotSource hnotDestination
    have hmade := (helsewhere place hnotDestination).sameOrMade h.wellFormed hdir hagree hplace
      hlacks hnotDestination
    rw [Tree.SameOrMade, Tree.IsDirectoryAt, hwithout.agreeOutside _ hnotSource]
    exact hmade

omit h hagree in
/-- A copy below anything but a directory fails before it changes something. -/
theorem ensures_copyAndDelete_of_not_directory {n : Node} (hpos : 0 < levels) (hbase : base ≠ [])
    (hn : s₁.nodes.lookup base = some n) (hk : n.kind ≠ .directory) (hmissing : missing ≠ [])
    (t : Tally) :
    Ensures (Replies False False) (copyAndDelete levels m opts source destination t) s₁
      (fun _ _ => False) (fun halt s' => s' = s₁ ∧
        (n.isDirectoryLike = true → ∃ p, halt = .failed (.notFound p))) := by
  obtain ⟨levels, rfl⟩ := Nat.exists_eq_add_one.mpr hpos
  unfold copyAndDelete
  rw [Operation.ensures_bind, copyTree_root, Operation.ensures_bind]
  exact (ensures_createResolved_of_not_directory hplace hbase hn hk hmissing hlacks).mono
    (fun _ _ => False.elim) fun _ _ => id

end Copy

/-- Once the destination has been removed from its directory, a copy can be made there. -/
theorem ensures_copyAndDelete_cleared {s₁ : Scene} (h : Movable s.nodes source destination levels)
    (hdir : s.nodes.IsDirectoryAt destination.components.dropLast)
    (hwithout : s.nodes.Without s₁.nodes destination.components) {t : Tally}
    (hcanceled : t.canceled = false) :
    Ensures (Replies False False) (copyAndDelete levels m opts source destination t) s₁
      (fun t' s' => t'.canceled = false ∧
        Moved s.nodes s'.nodes source.components destination.components)
      (fun _ _ => False) := by
  obtain ⟨base, c, -, -, hplace⟩ := h.exists_parent
  rw [hplace, List.dropLast_concat] at hdir
  have hnone := hwithout.gone_self
  rw [hplace] at hnone
  exact ensures_copyAndDelete h hwithout.agreeOutside hplace (Tree.lacks_singleton hnone) hdir
    (by simp) hwithout.gone hcanceled

/-- A move by copying swaps the destination for the source, or changes nothing. -/
theorem ensures_moveByCopy_exact (h : Movable s.nodes source destination levels)
    {existing : Option Entry} (hfound : Found s.nodes destination.components existing) {t : Tally}
    (hcanceled : t.canceled = false) :
    Ensures (Replies False False) (moveByCopy levels m opts source destination existing t) s
      (fun t' s' => t'.canceled = false ∧
        Moved s.nodes s'.nodes source.components destination.components)
      (fun _ s' => s' = s) := by
  rw [moveByCopy_eq, Operation.ensures_bind]
  cases existing with
  | none =>
    have hnone : s.nodes.lookup destination.components = none := hfound
    have hvacant := h.wellFormed.eq_none_below hnone h.destination_ne_nil
    obtain ⟨n, hn⟩ := h.exists_nearest
    obtain ⟨base, missing, hplace, hbase, hlookup, hlacks⟩ :=
      Tree.exists_lacks_of_climbs (Path.climbs_namedAncestors destination) hn
    have hmissing : missing ≠ [] := by
      rintro rfl
      rw [hplace, List.append_nil, hlookup] at hnone
      cases hnone
    apply ensures_pure.mpr
    -- Whether the copy can be made depends on the nearest node alone.
    by_cases hk : n.kind = .directory
    · exact (ensures_copyAndDelete h (.refl _) hplace hlacks ⟨n, hlookup, hk⟩ hmissing hvacant
        hcanceled).mono (fun _ _ => id) fun _ _ => False.elim
    · exact (ensures_copyAndDelete_of_not_directory hplace hlacks h.levels_pos hbase hlookup hk
        hmissing t).mono (fun _ _ => False.elim) fun _ _ => And.left
  | some info =>
    obtain ⟨old, hold, hinfo⟩ := hfound
    -- What exists lies in a directory, so nothing can fail once the old destination is deleted.
    apply (leaves_replaceDestination h.regular_destination hold hinfo).mono
    · rintro _ s₁ ⟨-, hwithout⟩
      exact (ensures_copyAndDelete_cleared h (h.directory_above hold) hwithout hcanceled).mono
        (fun _ _ => id) fun _ _ => False.elim
    · exact fun _ _ => False.elim

/-! ### Choosing the way to move -/

/-- The search for an existing path finds one if there is one. -/
theorem ensures_firstExisting {tx : Option Transaction} {l : List Path} {canceling : Prop} :
    Ensures (Replies False canceling) (firstExisting tx l) s
      (fun r s' => s' = s ∧ match r with
        | none => ∀ p ∈ l, s.nodes.lookup p.components = none
        | some p => ∃ n, s.nodes.lookup p.components = some n)
      (fun _ _ => False) := by
  induction l with
  | nil => exact ensures_pure.mpr ⟨rfl, nofun⟩
  | cons q l ih =>
    rw [firstExisting, Operation.ensures_bind, ensures_attempt]
    refine ⟨fun info hinfo => ?_, fun e he => ?_⟩
    · obtain ⟨n, hn, -⟩ := Tree.entry_eq_ok.mp hinfo
      exact ensures_pure.mpr ⟨rfl, n, hn⟩
    · obtain ⟨hq, -⟩ := Tree.entry_eq_error.mp (he.resolve_left id)
      refine ih.mono_ok fun r s' hr => ⟨hr.1, ?_⟩
      cases r with
      | none => exact List.forall_mem_cons.mpr ⟨hq, hr.2⟩
      | some p => exact hr.2

theorem ensures_queryDestination {tx : Option Transaction} {canceling : Prop} :
    Ensures (Replies False canceling) (queryDestination tx destination) s
      (fun existing s' => s' = s ∧ Found s.nodes destination.components existing)
      (fun _ _ => False) := by
  rw [queryDestination, Operation.ensures_bind]
  cases hl : s.nodes.lookup destination.components with
  | some n =>
    have hentry := Tree.entry_eq_ok.mpr ⟨n, hl, rfl⟩
    refine ensures_attempt_ok (Prod.ext hentry rfl) (ensures_pure.mpr ⟨rfl, n, hl, ?_⟩)
    exact n.describes_entryAt destination
  | none =>
    exact ensures_attempt_error (Tree.entry_eq_error.mpr ⟨hl, rfl⟩) ⟨rfl, hl⟩

/-- A move of something that is there finds out what is at its destination. -/
theorem ensures_surveyMove {canceling : Prop} {n : Node} (hwf : s.nodes.WellFormed)
    (hn : s.nodes.lookup source.components = some n) (hnormal : destination.isNormal = true) :
    Ensures (Replies False canceling) (surveyMove opts source destination) s
      (fun survey s' => s' = s ∧ Found s.nodes destination.components survey.2)
      (fun _ _ => False) := by
  unfold surveyMove
  rw [Operation.ensures_bind]
  refine ensures_firstExisting.mono ?_ fun _ _ => False.elim
  rintro anchor s₁ ⟨rfl, hanchor⟩
  cases anchor with
  | none =>
    obtain ⟨d, hd⟩ := hwf.exists_nearest hn hnormal
    obtain ⟨p, hp, hfound⟩ := List.exists_of_findSome?_eq_some hd
    exact nomatch (hanchor p hp).symm.trans hfound
  | some anchor =>
    obtain ⟨d, hd⟩ := hanchor
    rw [Operation.ensures_bind]
    refine ensures_perform_ok (Prod.ext (Tree.onOneVolume_eq_ok hn hd) rfl) ?_
    rw [Operation.ensures_bind]
    refine ensures_queryDestination.mono ?_ fun _ _ => False.elim
    rintro existing _ ⟨rfl, hfound⟩
    exact ensures_pure.mpr ⟨rfl, hfound⟩

theorem ensures_moveTree_exact (h : Movable s.nodes source destination levels) {t : Tally}
    (hcanceled : t.canceled = false) :
    Ensures (Replies False False) (moveTree levels m opts source destination t) s
      (fun t' s' => t'.canceled = false ∧
        Moved s.nodes s'.nodes source.components destination.components)
      (fun _ s' => s' = s) := by
  obtain ⟨n, hn, -⟩ := h.directory
  rw [moveTree_eq, Operation.ensures_bind]
  refine (ensures_surveyMove h.wellFormed hn h.normal).mono ?_ fun _ _ => False.elim
  rintro ⟨onOneVolume, existing⟩ _ ⟨rfl, hfound⟩
  unfold moveSurveyed
  dsimp only
  split
  · exact ensures_fail.mpr rfl
  · split
    · rw [Operation.ensures_bind]
      refine (ensures_renameTree_exact h hfound hcanceled).mono_ok fun r s' hr => ?_
      cases r with
      | done t' => exact hr
      | toCopy existing' =>
        obtain ⟨rfl, rfl⟩ := hr
        exact ensures_moveByCopy_exact h hfound hcanceled
    · split
      · exact ensures_moveByCopy_exact h hfound hcanceled
      · exact ensures_fail.mpr rfl

/-- Without failures, a move takes the whole source to the destination or changes nothing. -/
theorem ensures_copyOrMove_whole (hmode : opts.mode = .ok (.move m)) (hwf : s.nodes.WellFormed)
    (htext : s.nodes.IsTextual) (hlevels : s.nodes.levels ≤ levels)
    (hsource : s.nodes.IsDirectoryAt source.components) (hnormal : destination.isNormal = true) :
    Ensures (Replies False False) (copyOrMove levels opts source destination) s
      (fun outcome s' => outcome.canceled = false ∧
        Moved s.nodes s'.nodes source.components destination.components)
      (fun _ s' => s'.nodes = s.nodes) := by
  rw [copyOrMove_eq, Operation.ensures_bind]
  apply ensures_makePlan
  · exact fun _ _ => rfl
  · exact fun _ _ => rfl
  · exact fun _ _ => rfl
  · exact fun _ _ _ => rfl
  · intro mode n hmode' hoverlap _ _
    obtain rfl := Except.ok.inj (hmode.symm.trans hmode')
    have h : Movable s.nodes source destination levels :=
      ⟨hwf, htext, hlevels, hsource, hnormal, Path.apart (overlap_eq_none_iff.mp hoverlap)⟩
    unfold transferTree
    simp only [Operation.ensures_bind, ensures_note]
    refine (ensures_moveTree_exact h rfl).mono (fun t' s' ht' => ?_) fun _ s' he => he ▸ rfl
    exact ensures_pure.mpr ht'

/-- Without scripted failures and with a listener that never cancels, a move is all or nothing: if
it fails, the nodes are what they were, and otherwise the whole source is at the destination. -/
theorem move_all_or_nothing (m : Memory) (listener : Listener) (levels : Nat)
    (opts : TransferOptions) (move : MoveOptions) (source destination : Path)
    (hwf : m.nodes.WellFormed) (htext : m.nodes.IsTextual) (hcalm : m.failures = [])
    (hproceed : ∀ p, listener.progress p = .proceed) (hlevels : m.nodes.levels ≤ levels)
    (hmode : opts.mode = .ok (.move move)) (hsource : m.nodes.IsDirectoryAt source.components)
    (hnormal : destination.isNormal = true) :
    let run := m.runs listener (copyOrMove levels opts source destination)
    match run.result with
    | .error _ => run.memory.nodes = m.nodes
    | .ok outcome => outcome.canceled = false ∧
        Moved m.nodes run.memory.nodes source.components destination.components := by
  have hends := ends_runs_calm hcalm hproceed
    (ensures_copyOrMove_whole hmode hwf htext hlevels hsource hnormal)
  intro run
  cases hresult : run.result with
  | ok outcome =>
    rw [hresult] at hends
    exact hends
  | error halt =>
    rw [hresult] at hends
    exact hends

/-- A move across volumes onto a full directory that may be replaced. -/
theorem move_all_or_nothing_replacing :
    let m := ((new.addFile "/s/f" 3).addFile "/d/old" 5).setVolume "/s" 1
    let run := m.runs {} (copyOrMove m.levels
      { move := some { replaceExisting := true, copyAllowed := true } } "/s" "/d")
    match run.result with
    | .error _ => run.memory.nodes = m.nodes
    | .ok outcome => outcome.canceled = false ∧
        Moved m.nodes run.memory.nodes (Path.components "/s") (Path.components "/d") :=
  move_all_or_nothing _ _ _ _ { replaceExisting := true, copyAllowed := true } _ _ (by decide)
    (by decide) rfl (fun _ => rfl) (Nat.le_refl _) rfl ⟨_, rfl, rfl⟩ (by decide)

end Memory

end TreeOps
