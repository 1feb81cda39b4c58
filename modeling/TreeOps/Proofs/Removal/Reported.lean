import TreeOps.Proofs.Errors.Reports
import TreeOps.Proofs.Memory.Watched
import TreeOps.Proofs.Removal.Confined

/-!
# Pruning under failures

A prune that ends well reports what it has removed. It takes a directory for removed when the delete
of it ends well, and that is also the case when the directory is said to be missing; if no failure
says so of a directory that is there, the report is exact. A directory that has got entries, or
whose delete fails with that code, is left out of the report and left where it is.

So a prune is safe whatever fails: it changes nothing that it must not, and it reports what it does.
-/

namespace TreeOps

/-- A tree has lost the listed paths and nothing else, no path is listed twice, and none is listed
after one above it. -/
structure Tree.Sheds (t t' : Tree) (removed : List Path) : Prop where
  left : ∀ place, (t'.lookup place).isSome = true ↔
    (t.lookup place).isSome = true ∧ ∀ p ∈ removed, p.components ≠ place
  there : ∀ p ∈ removed, (t.lookup p.components).isSome = true
  ordered : (removed.map Path.components).Pairwise fun a b => ¬a <+: b

namespace Tree.Sheds

variable {t t' t'' : Tree} {path : Path} {removed removed' : List Path}

theorem nothing (h : ∀ place, (t'.lookup place).isSome = (t.lookup place).isSome) :
    t.Sheds t' [] where
  left place := by simp [h place]
  there := nofun
  ordered := .nil

theorem refl (t : Tree) : t.Sheds t [] := nothing fun _ => rfl

theorem modify (t : Tree) (path : Path) (f : Node → Node) : t.Sheds (t.modify path f) [] := by
  refine nothing fun place => ?_
  rw [PathMap.lookup_modify]
  split
  · exact Option.isSome_map
  · rfl

theorem erase (h : (t.lookup path.components).isSome = true) : t.Sheds (t.erase path) [path] where
  left place := by
    rw [PathMap.lookup_erase]
    split
    · next heq => simp [heq]
    · next hne => simp [hne]
  there := by simpa using h
  ordered := List.pairwise_singleton ..

/-- What is removed first is not above what is removed later. -/
theorem append (h : t.Sheds t' removed) (h' : t'.Sheds t'' removed')
    (horder : ∀ p ∈ removed, ∀ q ∈ removed', ¬p.components <+: q.components) :
    t.Sheds t'' (removed ++ removed') where
  left place := by
    rw [h'.left, h.left, and_assoc, ← List.forall_mem_append]
  there := by
    refine List.forall_mem_append.mpr ⟨h.there, fun p hp => ?_⟩
    exact ((h.left _).mp (h'.there p hp)).1
  ordered := by
    rw [List.map_append, List.pairwise_append]
    refine ⟨h.ordered, h'.ordered, fun a ha b hb => ?_⟩
    obtain ⟨p, hp, rfl⟩ := List.mem_map.mp ha
    obtain ⟨q, hq, rfl⟩ := List.mem_map.mp hb
    exact horder p hp q hq

/-- What is not removed is still there. -/
theorem stays (h : t.Sheds t' removed) {place : Place} (hsome : (t.lookup place).isSome = true)
    (hnot : ∀ p ∈ removed, p.components ≠ place) : (t'.lookup place).isSome = true :=
  (h.left place).mpr ⟨hsome, hnot⟩

/-- The paths that are listed are those of the nodes that are gone. -/
theorem listed_iff (h : t.Sheds t' removed) (place : Place) :
    (∃ p ∈ removed, p.components = place) ↔
      (t.lookup place).isSome = true ∧ t'.lookup place = none := by
  rw [← Option.not_isSome_iff_eq_none, h.left]
  constructor
  · rintro ⟨p, hp, rfl⟩
    exact ⟨h.there p hp, fun hleft => hleft.2 p hp rfl⟩
  · rintro ⟨hsome, hgone⟩
    refine Classical.byContradiction fun hnone => hgone ⟨hsome, fun p hp heq => ?_⟩
    exact hnone ⟨p, hp, heq⟩

end Tree.Sheds

/-- What a prune below a root may do to a tree. -/
structure Tree.OnlyPruned (t t' : Tree) (root : Place) (clears : Bool) : Prop where
  /-- The root and what is not below it are as they were. -/
  elsewhere : ∀ place, ¬root <+: place ∨ place = root → t'.lookup place = t.lookup place
  /-- So are files and links. -/
  leaves : ∀ place n, t.lookup place = some n → n.kind ≠ .directory → t'.lookup place = some n
  /-- So are mounted nodes. -/
  mounted : ∀ place n, t.lookup place = some n → n.mounted = true → t'.lookup place = some n
  /-- So is what lies below mounted nodes. -/
  below_mounted : ∀ place way n, root <+: place → place ≠ root → t.lookup place = some n →
    n.mounted = true → t'.lookup (place ++ way) = t.lookup (place ++ way)
  /-- What is left of a node is the node, but for a read-only attribute. -/
  left : ∀ place n', t'.lookup place = some n' →
    ∃ n, t.lookup place = some n ∧ n.Cleared clears n'
  /-- What is gone lay below the root and was a directory with directories alone below it, which are
  gone too. -/
  gone : ∀ place n, t.lookup place = some n → t'.lookup place = none →
    root <+: place ∧ place ≠ root ∧ ∀ way d, t.lookup (place ++ way) = some d →
      d.kind = .directory ∧ t'.lookup (place ++ way) = none

theorem Tree.Thins.onlyPruned {t t' : Tree} {root : Place} {clears : Bool}
    (h : t.Thins t' root clears) (hwf : t.WellFormed) : t.OnlyPruned t' root clears where
  elsewhere := by
    intro place helse
    refine h.outside place ?_
    rintro ⟨way, rfl, hreached⟩
    rcases helse with hnot | hroot
    · exact hnot (List.prefix_append root way)
    · exact hreached.ne_nil (by simpa using hroot)
  leaves := by
    intro place n hn hkind
    rw [h.outside place fun hgoes => hkind (plain_of_goes hgoes hn).1, hn]
  mounted := by
    intro place n hn hmounted
    refine (h.outside place fun hgoes => ?_).trans hn
    have hplain := (plain_of_goes hgoes hn).2
    rw [hmounted] at hplain
    cases hplain
  below_mounted := by
    rintro place way n ⟨above, rfl⟩ hne hn hmounted
    refine h.outside _ ?_
    rintro ⟨way', hway, hreached⟩
    rw [List.append_assoc, List.append_cancel_left_eq] at hway
    have hunmounted := hreached.unmounted above way n hway.symm (by simpa using hne) hn
    rw [hmounted] at hunmounted
    cases hunmounted
  left := h.left
  gone := by
    intro place n hn hnone
    have hgoes (way : Place) (d : Node) (hd : t.lookup (place ++ way) = some d) :
        t.Goes Reached root (place ++ way) := by
      refine Classical.byContradiction fun hnot => ?_
      have hstays := h.outside _ hnot
      rw [h.lookup_below hwf hn hnone, hd] at hstays
      cases hstays
    obtain ⟨way, hway, hreached⟩ := hgoes [] n (by rw [List.append_nil, hn])
    rw [List.append_nil] at hway
    refine ⟨hway ▸ List.prefix_append root way, fun heq => ?_, fun way' d hd => ?_⟩
    · exact hreached.ne_nil (by simpa [heq] using hway)
    · exact ⟨(plain_of_goes (hgoes way' d hd) hd).1, h.lookup_below hwf hn hnone way'⟩

/-- What a call on one path reports as missing is missing. -/
theorem Tree.lookup_eq_none_of_error {t : Tree} {c : Call} {e : NativeError}
    (hc : c.primitive ≠ .move ∧ c.primitive ≠ .copy ∧ c.primitive ≠ .sameVolume)
    (h : (t.perform c).1 = .error e) (hmissing : e.code.isNotFound = true) :
    t.lookup c.path.components = none := by
  have htrue : (TreeError.ofNative c.path "" e).IsTrueOf t := isTrueOf_perform h hc
  unfold TreeError.ofNative at htrue
  unfold NativeCode.isNotFound at hmissing
  cases hcode : e.code <;> simp_all [TreeError.IsTrueOf]

namespace Memory

open Removal Operation

/-- The calls whose word on what is missing pruning relies on. -/
def IsRelied (primitive : Primitive) : Prop := primitive = .query ∨ primitive = .removeDirectory

instance : DecidablePred IsRelied := fun _ => inferInstanceAs (Decidable (_ ∨ _))

instance (m : Memory) : Decidable (m.IsHonest IsRelied) :=
  inferInstanceAs (Decidable (∀ f ∈ m.failures, _ → _ → _))

section Rules

variable {t : Tree} {err : Halt → Tree → Prop} {tx : Option Transaction} {path dir : Path}

/-- What a call that is relied on reports as missing is missing. -/
theorem relied_attempt {c : Call} {ok : Except NativeError c.Result → Tree → Prop}
    (hok : ∀ value, (t.perform c).1 = .ok value → ok (.ok value) (t.perform c).2)
    (herr : ∀ e, (IsRelied c.primitive → e.code.isNotFound = true →
      t.lookup c.path.components = none) → ok (.error e) t) :
    Ensures (Honestly IsRelied) (attempt tx c) t ok err := by
  rw [Operation.ensures_attempt]
  rintro a t' (⟨rfl, rfl⟩ | ⟨rfl, e, rfl, hhonest⟩)
  · cases hp : (t.perform c).1 with
    | ok value => exact hok value hp
    | error e =>
      rw [Tree.perform_error hp]
      refine herr e fun hkind => Tree.lookup_eq_none_of_error ?_ hp
      rcases hkind with hkind | hkind <;> simp [hkind]
  · refine herr e fun hkind hmissing => ?_
    rw [hhonest hkind] at hmissing
    cases hmissing

theorem relied_perform {c : Call} {error : NativeError → TreeError} {ok : c.Result → Tree → Prop}
    (hok : ∀ value, (t.perform c).1 = .ok value → ok value (t.perform c).2)
    (herr : ∀ e, err (.failed (error e)) t) :
    Ensures (Honestly IsRelied) (perform tx c error) t ok err := by
  unfold perform
  rw [ensures_bind]
  exact relied_attempt (fun value hv => ensures_pure.mpr (hok value hv)) fun e _ =>
    ensures_fail.mpr (herr e)

theorem relied_note {n : Note} {ok : Unit → Tree → Prop} (h : ok () t) :
    Ensures (Honestly IsRelied) (Operation.note n) t ok err := by
  rw [Operation.ensures_note]
  rintro _ _ rfl
  exact h

/-- A listing gives the entries that are there. -/
theorem relied_childEntries {ok : List Entry → Tree → Prop} (hok : ok (t.entriesOf dir) t)
    (herr : ∀ halt, err halt t) :
    Ensures (Honestly IsRelied) (childEntries tx dir) t ok err := by
  unfold childEntries listEntries
  rw [Operation.ensures_bind, Operation.ensures_bind]
  refine relied_attempt (fun children hc => ?_) fun e _ => ?_
  · obtain ⟨n, -, -, rfl⟩ := Tree.listing_eq_ok.mp hc
    simp only [ensures_pure, Tree.entriesIn_eq]
    exact hok
  · simp only [ensures_pure, Operation.ensures_bind]
    exact relied_note (ensures_fail.mpr (herr _))

end Rules

section Parts

variable {t t' : Tree} {dir : Path} {opts : PruneOptions}

/-- However it ends, an operation removes nothing. -/
abbrev Holds {α : Type} (p : Operation α) (t : Tree) : Prop :=
  Ensures (Honestly IsRelied) p t (fun _ t' => t.Sheds t' []) fun _ t' => t.Sheds t' []

theorem holds_unmount {tx : Option Transaction} : Holds (unmount tx dir) t := by
  unfold Holds unmount
  rw [ensures_bind]
  refine relied_attempt (fun value _ => relied_note ?_) fun e _ => ?_
  · refine Tree.update_keeps (P := (t.Sheds · [])) (.refl t) fun t' ht' => ?_
    obtain ⟨-, rfl⟩ := Tree.withUnmounted_eq_ok.mp ht'
    exact .modify t dir _
  · dsimp only
    split
    · exact relied_note (.refl t)
    · exact ensures_fail.mpr (.refl t)

theorem holds_releaseReadOnly {info : Entry} :
    Holds (releaseReadOnly opts.deletion dir info) t := by
  unfold Holds releaseReadOnly
  split
  · split
    · unfold clearReadOnly
      rw [ensures_bind]
      refine relied_note (relied_perform (fun value _ => ?_) fun e => .refl t)
      refine Tree.update_keeps (P := (t.Sheds · [])) (.refl t) fun t' ht' => ?_
      obtain ⟨-, rfl⟩ := Tree.withAttributes_eq_ok.mp ht'
      exact .modify t dir _
    · exact ensures_fail.mpr (.refl t)
  · exact ensures_pure.mpr (.refl t)

/-- What comes before, if it removes nothing, is no hindrance. -/
theorem sheds_after {α β : Type} {p : Operation α} {q : Operation β} {removed : β → List Path}
    (hp : Holds p t)
    (hq : ∀ t', t.Sheds t' [] → Ensures (Honestly IsRelied) q t'
      (fun b t'' => t'.Sheds t'' (removed b)) fun _ t'' => t'.Sheds t'' []) :
    Ensures (Honestly IsRelied) (p >>= fun _ => q) t
      (fun b t' => t.Sheds t' (removed b)) fun _ t' => t.Sheds t' [] := by
  rw [ensures_bind]
  refine hp.mono_ok fun _ t' ht' => ?_
  exact (hq t' ht').mono (fun b t'' h => ht'.append h nofun) fun _ t'' h => ht'.append h nofun

/-- One attempt removes the directory or fails; it is not said to be missing. -/
theorem sheds_removeOnce {tx : Option Transaction} {attempt : Nat}
    (hsome : (t.lookup dir.components).isSome = true) :
    Ensures (Honestly IsRelied) (removeOnce tx (pruningContext opts) dir attempt) t
      (fun _ t' => t.Sheds t' [dir]) fun _ t' => t.Sheds t' [] := by
  unfold removeOnce
  rw [ensures_bind]
  refine relied_attempt (fun value hv => relied_note ?_) fun e hmissing => ?_
  · have hremoved := Tree.update_ok hv
    obtain ⟨-, -, -, -, herase⟩ := Tree.withoutDirectory_eq_ok.mp hremoved
    exact herase ▸ .erase hsome
  · dsimp only
    split
    · exact ensures_fail.mpr (.refl t)
    · next hsuccess =>
      have hnone := hmissing (.inr rfl) (isNotFound_of_classify hsuccess)
      change t.lookup dir.components = none at hnone
      rw [hnone] at hsome
      cases hsome

/-- The directory that was found there is removed or left. -/
theorem sheds_removeFound {info : Entry} (hsome : (t.lookup dir.components).isSome = true) :
    Ensures (Honestly IsRelied) (removeFound opts dir info) t
      (fun _ t' => t.Sheds t' [dir]) fun _ t' => t.Sheds t' [] := by
  have hrest (t' : Tree) (ht' : t.Sheds t' []) :
      Ensures (Honestly IsRelied)
        (releaseReadOnly opts.deletion dir info >>= fun _ =>
          removeOnce opts.transaction (pruningContext opts) dir 1) t'
        (fun _ t'' => t'.Sheds t'' [dir]) fun _ t'' => t'.Sheds t'' [] :=
    sheds_after holds_releaseReadOnly fun t'' ht'' =>
      sheds_removeOnce (ht''.stays (ht'.stays hsome nofun) nofun)
  unfold removeFound
  split
  · exact ensures_fail.mpr (.refl t)
  · split
    · exact sheds_after holds_unmount hrest
    · exact hrest t (.refl t)

/-- A delete that ends well has removed the directory, for it is not said to be missing. -/
theorem sheds_deleteNode (hsome : (t.lookup dir.components).isSome = true) :
    Ensures (Honestly IsRelied) (deleteNode opts.deletion 1 true dir) t
      (fun _ t' => t.Sheds t' [dir]) fun _ t' => t.Sheds t' [] := by
  rw [deleteNode_pruning, ensures_bind]
  refine relied_attempt (fun info _ => sheds_removeFound hsome) fun e hmissing => ?_
  dsimp only
  split
  · next hnotFound =>
    have hnone := hmissing (.inl rfl) hnotFound
    change t.lookup dir.components = none at hnone
    rw [hnone] at hsome
    cases hsome
  · exact ensures_fail.mpr (.refl t)

/-- An operation that ends well lists what it has removed, and that is where it may remove. -/
abbrev Lists (p : Operation (List Path)) (t : Tree) (places : Place → Prop) : Prop :=
  Ensures (Honestly IsRelied) p t
    (fun removed t' => t.Sheds t' removed ∧ ∀ q ∈ removed, places q.components) fun _ _ => True

theorem lists_nil {places : Place → Prop} : Lists (pure []) t places :=
  ensures_pure.mpr ⟨.refl t, nofun⟩

theorem lists_removeEmpty (hsome : (t.lookup dir.components).isSome = true) :
    Lists (removeEmpty opts dir) t (dir.components = ·) := by
  unfold Lists removeEmpty
  have hdelete : Ensures (Honestly IsRelied)
      (deleteNode opts.deletion 1 true dir >>= fun _ => pure true) t
      (fun removed t' => t.Sheds t' (if removed then [dir] else [])) fun _ t' => t.Sheds t' [] := by
    rw [ensures_bind]
    exact (sheds_deleteNode hsome).mono_ok fun _ t' ht' => ensures_pure.mpr ht'
  rw [ensures_bind, ensures_tryCatch]
  refine hdelete.mono (fun removed t' ht' => ?_) fun halt t' ht' => ?_
  · cases removed with
    | true =>
      rw [if_pos rfl, ensures_bind]
      exact relied_note (ensures_pure.mpr ⟨ht', by simp⟩)
    | false =>
      rw [if_neg Bool.false_ne_true, ensures_bind]
      exact relied_note (ensures_pure.mpr ⟨ht', nofun⟩)
  · split
    · rw [ensures_pure, if_neg Bool.false_ne_true, ensures_bind]
      exact relied_note (ensures_pure.mpr ⟨ht', nofun⟩)
    · exact ensures_throw.mpr trivial

theorem relied_isEmptyDirectory {tx : Option Transaction} {ok : Bool → Tree → Prop}
    (hok : ∀ isEmpty, ok isEmpty t) :
    Ensures (Honestly IsRelied) (isEmptyDirectory tx dir) t ok fun _ _ => True := by
  unfold isEmptyDirectory
  rw [ensures_bind]
  exact relied_perform (fun _ _ => ensures_pure.mpr (hok _)) fun _ => trivial

/-- The directory is still there when what is below it has been pruned. -/
theorem lists_pruneDirectory {pruneBelow : Path → Operation (List Path)}
    (hsome : (t.lookup dir.components).isSome = true)
    (hbelow : Lists (pruneBelow dir) t fun place =>
      dir.components <+: place ∧ dir.components ≠ place) :
    Lists (pruneDirectory opts pruneBelow dir) t (dir.components <+: ·) := by
  have hbefore : Lists (if opts.recursive then pruneBelow dir else pure []) t fun place =>
      dir.components <+: place ∧ dir.components ≠ place := by
    split
    · exact hbelow
    · exact lists_nil
  unfold Lists
  rw [pruneDirectory_eq, ensures_bind]
  refine hbefore.mono_ok ?_
  rintro below t' ⟨hsheds, hplaces⟩
  have hstill : (t'.lookup dir.components).isSome = true :=
    hsheds.stays hsome fun p hp heq => (hplaces p hp).2 heq.symm
  rw [ensures_bind]
  refine relied_isEmptyDirectory fun isEmpty => ?_
  cases isEmpty with
  | false => exact ensures_pure.mpr ⟨hsheds, fun p hp => (hplaces p hp).1⟩
  | true =>
    rw [if_pos rfl, ensures_bind]
    refine (lists_removeEmpty hstill).mono_ok ?_
    rintro removed t'' ⟨hsheds', hself⟩
    refine ensures_pure.mpr ⟨hsheds.append hsheds' fun p hp q hq habove => ?_, ?_⟩
    · rw [← hself q hq] at habove
      obtain ⟨hat, hne⟩ := hplaces p hp
      exact hne (hat.eq_of_length_le habove.length_le)
    · refine List.forall_mem_append.mpr ⟨fun p hp => (hplaces p hp).1, fun q hq => ?_⟩
      exact hself q hq ▸ List.prefix_rfl

/-- What is pruned later is neither gone before nor above what is pruned before. -/
theorem lists_pruneEach {pruneOne : Path → Operation (List Path)} {entries : List Entry}
    (hone : ∀ e ∈ entries, ∀ t' : Tree, (t'.lookup e.path.components).isSome = true →
      Lists (pruneOne e.path) t' (e.path.components <+: ·))
    (hsome : ∀ e ∈ entries, (t.lookup e.path.components).isSome = true)
    (hparted : entries.Pairwise fun d e => ∀ way way',
      PostOrder (d.path.components ++ way) (e.path.components ++ way')) :
    Lists (pruneEach pruneOne entries) t fun place =>
      ∃ e ∈ entries, e.path.components <+: place := by
  induction entries generalizing t with
  | nil => exact lists_nil
  | cons e rest ih =>
    rw [List.forall_mem_cons] at hone hsome
    rw [List.pairwise_cons] at hparted
    unfold Lists pruneEach
    rw [ensures_bind]
    refine (hone.1 t hsome.1).mono_ok ?_
    rintro removed t' ⟨hsheds, hplaces⟩
    have hsome' : ∀ d ∈ rest, (t'.lookup d.path.components).isSome = true := by
      refine fun d hd => hsheds.stays (hsome.2 d hd) fun p hp heq => ?_
      obtain ⟨way, hway⟩ := hplaces p hp
      refine (hparted.1 d hd way []).ne ?_
      rw [hway, heq, List.append_nil]
    rw [ensures_bind]
    refine (ih hone.2 hsome' hparted.2).mono_ok ?_
    rintro removed' t'' ⟨hsheds', hplaces'⟩
    refine ensures_pure.mpr ⟨hsheds.append hsheds' fun p hp q hq => ?_, ?_⟩
    · obtain ⟨way, hway⟩ := hplaces p hp
      obtain ⟨d, hd, way', hway'⟩ := hplaces' q hq
      rw [← hway, ← hway']
      exact (hparted.1 d hd way way').not_above
    · refine List.forall_mem_append.mpr ⟨fun p hp => ?_, fun q hq => ?_⟩
      · exact ⟨e, List.mem_cons_self, hplaces p hp⟩
      · obtain ⟨d, hd, hat⟩ := hplaces' q hq
        exact ⟨d, List.mem_cons_of_mem e hd, hat⟩

theorem lists_pruneChildren (levels : Nat) :
    Lists (pruneChildren opts levels dir) t fun place =>
      dir.components <+: place ∧ dir.components ≠ place := by
  induction levels generalizing t dir with
  | zero => exact ensures_throw.mpr trivial
  | succ levels ih =>
    unfold Lists pruneChildren
    rw [ensures_bind]
    refine relied_childEntries ?_ fun _ => trivial
    have hfound (e : Entry) (he : e ∈ (t.entriesOf dir).filter isPrunable) :
        ∃ b n, e.path.components = dir.components ++ [.name b] ∧
          t.lookup e.path.components = some n := by
      obtain ⟨b, n, -, hpath, -, hn, -⟩ := Tree.exists_of_mem_entriesOf (List.mem_filter.mp he).1
      exact ⟨b, n, hpath, hn⟩
    have hsome (e : Entry) (he : e ∈ (t.entriesOf dir).filter isPrunable) :
        (t.lookup e.path.components).isSome = true := by
      obtain ⟨-, n, -, hn⟩ := hfound e he
      rw [hn]
      rfl
    refine (lists_pruneEach (fun e _ t' hsome => lists_pruneDirectory hsome ih) hsome
      ((entries_parted t dir).filter _)).mono_ok ?_
    rintro removed t' ⟨hsheds, hplaces⟩
    refine ⟨hsheds, fun p hp => ?_⟩
    obtain ⟨e, he, hat⟩ := hplaces p hp
    obtain ⟨b, -, hpath, -⟩ := hfound e he
    rw [hpath] at hat
    refine ⟨(List.prefix_append _ _).trans hat, fun heq => ?_⟩
    have hlength := hat.length_le
    rw [← heq, List.length_append, List.length_singleton] at hlength
    omega

theorem lists_pruneEmpty (levels : Nat) (root : Path) :
    Lists (pruneEmpty levels opts root) t fun place =>
      root.components <+: place ∧ root.components ≠ place := by
  unfold Lists pruneEmpty
  rw [ensures_bind, Operation.ensures_resolve]
  rintro a t' ⟨ha, ht'⟩
  rw [ha, ht', ensures_bind]
  refine relied_perform (fun info _ => ?_) fun _ => trivial
  split
  · exact ensures_fail.mpr trivial
  · rw [ensures_bind]
    refine relied_note ?_
    rw [ensures_bind]
    refine (lists_pruneChildren levels).mono_ok fun removed t' h => ?_
    rw [ensures_bind]
    exact relied_note (ensures_pure.mpr h)

end Parts

/-! ### Whole prunes -/

/-- Whatever fails, a prune adds nothing, unmounts nothing, and removes nothing but directories
below the root that hold nothing but directories. If it ends well, and no failure says of something
that is there that it is missing, it lists exactly what it has removed, each path once and after
those below it. -/
theorem prune_is_safe (m : Memory) (listener : Listener) (levels : Nat) (opts : PruneOptions)
    (root : Path) (hwf : m.nodes.WellFormed) :
    let run := m.runs listener (pruneEmpty levels opts root)
    m.nodes.OnlyPruned run.memory.nodes root.components opts.ignoreReadOnly ∧
      run.memory.totalCalls .unmount = m.totalCalls .unmount ∧
      (m.IsHonest IsRelied → ∀ removed, run.result = .ok removed →
        (∀ place, (∃ p ∈ removed, p.components = place) ↔
          (m.nodes.lookup place).isSome = true ∧ run.memory.nodes.lookup place = none) ∧
        (removed.map Path.components).Pairwise fun a b => ¬a <+: b) := by
  intro run
  have hconfined : m.Confined root.components opts.ignoreReadOnly run.memory :=
    keeps_runs (confined_pruneEmpty hwf levels root) ⟨.refl m.nodes, rfl⟩
  refine ⟨hconfined.nodes.onlyPruned hwf, hconfined.unmounts, fun hhonest removed hok => ?_⟩
  have hlists : Lists (pruneEmpty levels opts root) m.nodes _ := lists_pruneEmpty levels root
  have hends := Program.Ensures.run Memory.nodes (IsHonest IsRelied)
    (h := fileSystem.handler listener) honest_handler hlists hhonest
  simp only [run, runs_eq] at hok ⊢
  rw [hok] at hends
  exact ⟨hends.1.listed_iff, hends.1.ordered⟩

/-- A directory gets an entry as it is removed, another one is not removed at first, and a third one
is read-only. -/
theorem prune_is_safe_failing :
    let m := ((((((new.addDirectory "/r/a/b").addDirectory "/r/c/d").addFile "/r/e/f"
      1).addDirectory "/r/v/x").mount "/r/v").setReadOnly "/r/a/b").addFailure
        ⟨.removeDirectory, "/r/c/d", .directoryNotEmpty, some 1⟩
    let opts : PruneOptions := { ignoreReadOnly := true }
    let run := m.runs {} (pruneEmpty 6 opts "/r")
    (m.nodes.WellFormed ∧ m.IsHonest IsRelied ∧
        run.result.toOption = some (["/r/a/b", "/r/a"] : List Path)) ∧
      m.nodes.OnlyPruned run.memory.nodes (Path.components "/r") opts.ignoreReadOnly ∧
      run.memory.totalCalls .unmount = m.totalCalls .unmount ∧
      (m.IsHonest IsRelied → ∀ removed, run.result = .ok removed →
        (∀ place, (∃ p ∈ removed, p.components = place) ↔
          (m.nodes.lookup place).isSome = true ∧ run.memory.nodes.lookup place = none) ∧
        (removed.map Path.components).Pairwise fun a b => ¬a <+: b) :=
  ⟨⟨by decide, by decide, by decide +kernel⟩,
    prune_is_safe _ {} 6 { ignoreReadOnly := true } "/r" (by decide)⟩

end Memory

end TreeOps
