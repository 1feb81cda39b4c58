import TreeOps.Proofs.Memory.Shape
import TreeOps.Proofs.Path.Topology
import TreeOps.Proofs.Removal.Frame

/-!
# A delete without failures

If no call fails without a reason in the nodes, a recursive delete that may clear read-only
attributes succeeds: volumes are unmounted, files and directories are removed whatever their
attributes, and in the end nothing is at or below the root and everything else is as it was. The
number of levels has to exceed the nesting of directories.
-/

namespace TreeOps

/-- What is left of a tree without a place and everything below it. -/
def Tree.Without (t t' : Tree) (root : Place) : Prop :=
  ∀ place, t'.lookup place = if root <+: place then none else t.lookup place

namespace Tree.Without

variable {t t' : Tree} {root : Place} (h : t.Without t' root)
include h

theorem gone (way : Place) : t'.lookup (root ++ way) = none :=
  (h _).trans (if_pos (List.prefix_append _ _))

theorem gone_self : t'.lookup root = none := (h _).trans (if_pos (List.prefix_refl _))

theorem agreeOutside : t.AgreeOutside (root <+: ·) t' :=
  fun place hnot => (h place).trans (if_neg hnot)

end Tree.Without

/-- What is left of a tree without the node at one path. -/
def Tree.Erased (t t' : Tree) (path : Path) : Prop :=
  ∀ place, t'.lookup place = if path.components = place then none else t.lookup place

/-- Where nothing is below a node, nothing is left below it without the node. -/
theorem Tree.Erased.without {t t' : Tree} {path : Path} (h : t.Erased t' path)
    (hbelow : ∀ way, way ≠ [] → t.lookup (path.components ++ way) = none) :
    t.Without t' path.components := by
  intro place
  rw [h place]
  by_cases hplace : path.components <+: place
  · rw [if_pos hplace]
    split
    · rfl
    · next hne =>
      obtain ⟨way, rfl⟩ := hplace
      exact hbelow way fun h => hne (by rw [h, List.append_nil])
  · have hne : path.components ≠ place := by
      rintro rfl
      exact hplace (List.prefix_refl _)
    rw [if_neg hplace, if_neg hne]

namespace Memory

open Removal Operation

variable {tx : Option Transaction} {canceling : Prop} {s : Scene} {path : Path} {n : Node}
  {opts : DeleteOptions}

/-- After a step of a removal: no failure, nothing reported, and the nodes as stated. -/
abbrev Leaves (canceling : Prop) (p : Operation Unit) (s : Scene) (nodes : Tree → Prop) : Prop :=
  Ensures (Replies False canceling) p s (fun _ s' => s'.records = s.records ∧ nodes s'.nodes)
    (fun _ _ => False)

/-! ### Files -/

theorem leaves_clearReadOnly {attributes : Attributes}
    (hn : s.nodes.lookup path.components = some n) :
    Leaves canceling (clearReadOnly tx path attributes) s
      (· = s.nodes.modify path (Node.withAttributes · (attributes.without .readOnly))) := by
  unfold Leaves clearReadOnly
  rw [Operation.ensures_bind, ensures_note]
  exact ensures_perform_ok (Tree.update_eq (Tree.withAttributes_eq_ok.mpr ⟨⟨n, hn⟩, rfl⟩))
    ⟨rfl, rfl⟩

/-- A file that is not read-only is deleted whether or not the attribute may be cleared. -/
theorem leaves_eraseWritable {attributes : Attributes} {ignoreReadOnly : Bool}
    (hn : s.nodes.lookup path.components = some n) (hk : n.kind ≠ .directory)
    (hattributes : attributes.isReadOnly = n.attributes.isReadOnly)
    (hwritable : n.attributes.isReadOnly = false) :
    Leaves canceling (removeFile tx path attributes ignoreReadOnly) s
      (s.nodes.Erased · path) := by
  unfold Leaves removeFile
  rw [if_neg (by simp [hattributes, hwritable]), Operation.ensures_bind]
  refine ensures_attempt_ok
    (Tree.update_eq (Tree.withoutFile_eq_ok.mpr ⟨n, hn, hk, hwritable, rfl⟩)) ?_
  exact ensures_note.mpr ⟨rfl, fun place => PathMap.lookup_erase ..⟩

/-- A read-only file is deleted at the second attempt, when the attribute is cleared. -/
theorem leaves_eraseFile {attributes : Attributes} (hn : s.nodes.lookup path.components = some n)
    (hk : n.kind ≠ .directory) (hattributes : attributes.isReadOnly = n.attributes.isReadOnly) :
    Leaves canceling (removeFile tx path attributes true) s (s.nodes.Erased · path) := by
  cases hr : n.attributes.isReadOnly with
  | false => exact leaves_eraseWritable hn hk hattributes hr
  | true =>
    unfold Leaves removeFile
    rw [if_neg (by simp), Operation.ensures_bind]
    have hdenied := Tree.withoutFile_denied hn (.inr hr)
    refine ensures_attempt_error (e := (NativeCode.accessDenied : NativeError)) ?_ ?_
    · change (s.nodes.update (s.nodes.withoutFile path)).1 = _
      rw [hdenied]
      rfl
    · dsimp only
      rw [if_neg (by simp [NativeCode.isNotFound]), if_pos (by simp [hattributes, hr])]
      unfold deleteCleared
      rw [Operation.ensures_bind]
      refine (leaves_clearReadOnly hn).mono_ok ?_
      rintro _ s' ⟨hrecords, hnodes⟩
      have hn' : s'.nodes.lookup path.components =
          some (n.withAttributes (attributes.without .readOnly)) := by
        rw [hnodes, PathMap.lookup_modify, if_pos rfl, hn]
        rfl
      have hcleared := attributes.isReadOnly_neutral_without
      rw [Operation.ensures_bind]
      refine ensures_attempt_ok
        (Tree.update_eq (Tree.withoutFile_eq_ok.mpr ⟨_, hn', hk, hcleared, rfl⟩)) ?_
      refine ensures_note.mpr ⟨hrecords, fun place => ?_⟩
      rw [PathMap.lookup_erase, hnodes, PathMap.lookup_modify]
      split <;> rfl

theorem leaves_removeWritable {attributes : Attributes} {ignoreReadOnly : Bool}
    (hn : s.nodes.lookup path.components = some n) (hk : n.kind ≠ .directory)
    (hattributes : attributes.isReadOnly = n.attributes.isReadOnly)
    (hwritable : n.attributes.isReadOnly = false)
    (hbelow : ∀ way, way ≠ [] → s.nodes.lookup (path.components ++ way) = none) :
    Leaves canceling (removeFile tx path attributes ignoreReadOnly) s
      (s.nodes.Without · path.components) :=
  (leaves_eraseWritable hn hk hattributes hwritable).mono_ok fun _ _ h =>
    ⟨h.1, h.2.without hbelow⟩

theorem leaves_removeFile {attributes : Attributes} (hn : s.nodes.lookup path.components = some n)
    (hk : n.kind ≠ .directory) (hattributes : attributes.isReadOnly = n.attributes.isReadOnly)
    (hbelow : ∀ way, way ≠ [] → s.nodes.lookup (path.components ++ way) = none) :
    Leaves canceling (removeFile tx path attributes true) s
      (s.nodes.Without · path.components) :=
  (leaves_eraseFile hn hk hattributes).mono_ok fun _ _ h => ⟨h.1, h.2.without hbelow⟩

/-! ### Directories -/

/-- A node may have other attributes and be mounted or not, but nothing else differs. -/
structure Prepared (t t' : Tree) (path : Path) (kind : NodeKind) (mounted : Bool) : Prop where
  agree : Tree.AgreeOutside (path.components = ·) t t'
  node : ∃ n, t'.lookup path.components = some n ∧ n.kind = kind ∧ n.mounted = mounted

theorem prepared_modify {t : Tree} (hn : t.lookup path.components = some n) (f : Node → Node)
    (hkind : (f n).kind = n.kind) :
    Prepared t (t.modify path f) path n.kind (f n).mounted where
  agree := Tree.agreeOutside_modify t path f
  node := ⟨f n, by rw [PathMap.lookup_modify, if_pos rfl, hn]; rfl, hkind, rfl⟩

theorem leaves_unmounted (hn : s.nodes.lookup path.components = some n) (hm : n.mounted = true) :
    Leaves canceling (unmount tx path) s
      (· = s.nodes.modify path fun n => { n with mounted := false }) := by
  unfold Leaves unmount
  rw [Operation.ensures_bind]
  refine ensures_attempt_ok
    (Tree.update_eq (Tree.withUnmounted_eq_ok.mpr ⟨⟨n, hn, hm⟩, rfl⟩)) ?_
  exact ensures_note.mpr ⟨rfl, rfl⟩

theorem leaves_unmount (hn : s.nodes.lookup path.components = some n) (hm : n.mounted = true) :
    Leaves canceling (unmount tx path) s (Prepared s.nodes · path n.kind false) := by
  refine (leaves_unmounted hn hm).mono_ok ?_
  rintro _ s' ⟨hrecords, hnodes⟩
  exact ⟨hrecords, hnodes ▸ prepared_modify hn (fun n => { n with mounted := false }) rfl⟩

theorem leaves_releaseReadOnly (hopts : opts.ignoreReadOnly = true)
    (hn : s.nodes.lookup path.components = some n) (info : Entry) :
    Leaves canceling (releaseReadOnly opts path info) s
      (Prepared s.nodes · path n.kind n.mounted) := by
  unfold Leaves releaseReadOnly
  rw [hopts]
  split
  · refine (leaves_clearReadOnly hn).mono_ok ?_
    rintro _ s' ⟨hrecords, hnodes⟩
    refine ⟨hrecords, hnodes ▸ ?_⟩
    exact prepared_modify hn (Node.withAttributes · (info.attributes.without .readOnly)) rfl
  · exact ensures_pure.mpr ⟨rfl, .refl _, n, hn, rfl, rfl⟩

/-- A way to delete directories that nest less deeply than some levels. -/
def Deletes (canceling : Prop) (delete : Path → Operation Unit) (levels : Nat) : Prop :=
  ∀ (s : Scene) (path : Path) (n : Node), Regular (s.nodes.branch path.components) levels →
    s.nodes.lookup path.components = some n → n.isDirectoryLike = true →
    Leaves canceling (delete path) s (s.nodes.Without · path.components)

/-- Nothing is left strictly below a place, and all else is as it was. -/
def EmptiedBelow (t t' : Tree) (root : Place) : Prop :=
  ∀ place, t'.lookup place = if root <+: place ∧ place ≠ root then none else t.lookup place

theorem emptiedBelow_self {t : Tree} {root : Place}
    (h : ∀ way, way ≠ [] → t.lookup (root ++ way) = none) : EmptiedBelow t t root := by
  intro place
  split
  · next hplace =>
    obtain ⟨⟨way, rfl⟩, hne⟩ := hplace
    exact h way (by simpa using hne)
  · rfl

/-- What is left of a tree without some entries and everything below them. -/
structure WithoutEntries (t t' : Tree) (gone : List Entry) : Prop where
  removed : ∀ e ∈ gone, ∀ way, t'.lookup (e.path.components ++ way) = none
  kept : ∀ place, (∀ e ∈ gone, ¬e.path.components <+: place) → t'.lookup place = t.lookup place

theorem WithoutEntries.concat {t t' t'' : Tree} {gone : List Entry} {e : Entry}
    (h : WithoutEntries t t' gone) (he : t'.Without t'' e.path.components) :
    WithoutEntries t t'' (gone ++ [e]) where
  removed d hd way := by
    rw [he]
    split
    · rfl
    · next hnot =>
      rcases List.mem_append.mp hd with hd | hd
      · exact h.removed d hd way
      · obtain rfl := List.mem_singleton.mp hd
        exact absurd (List.prefix_append _ _) hnot
  kept place hplace := by
    rw [he, if_neg (hplace e (by simp))]
    exact h.kept place fun d hd => hplace d (by simp [hd])

/-- Without all of its entries, a directory has nothing below it. -/
theorem WithoutEntries.below {t t' : Tree} {bound : Nat}
    (hview : Regular (t.branch path.components) bound)
    (h : WithoutEntries t t' (t.entriesOf path)) : EmptiedBelow t t' path.components := by
  intro place
  by_cases habove : ∃ e ∈ t.entriesOf path, e.path.components <+: place
  · obtain ⟨e, he, way, rfl⟩ := habove
    obtain ⟨b, -, -, hpath, -⟩ := Tree.exists_of_mem_entriesOf he
    rw [h.removed e he way, hpath, List.append_assoc, if_pos ⟨List.prefix_append _ _, by simp⟩]
  · rw [h.kept place fun e he hpre => habove ⟨e, he, hpre⟩]
    split
    · next hplace =>
      obtain ⟨⟨way, rfl⟩, hne⟩ := hplace
      cases hl : t.lookup (path.components ++ way) with
      | none => rfl
      | some m => exact absurd (Tree.exists_entry_above hview hl (by simpa using hne)) habove
    · rfl

/-- What is at and below an entry is not within an earlier one. -/
theorem not_prefix_of_earlier {t : Tree} {before after : List Entry} {d e : Entry}
    (hl : t.entriesOf path = before ++ e :: after) (hd : d ∈ before) (way : Place) :
    ¬d.path.components <+: e.path.components ++ way := by
  have hapart := (Tree.entriesOf_apart hl hd).append [] way
  rw [List.append_nil] at hapart
  exact hapart.1

/-- What is at and below an entry is as it was while only entries before it are touched. -/
theorem lookup_below_entry {t t' : Tree} {before after : List Entry} {e : Entry}
    (hl : t.entriesOf path = before ++ e :: after)
    (hkept : ∀ place, (∀ d ∈ before, ¬d.path.components <+: place) →
      t'.lookup place = t.lookup place) (way : Place) :
    t'.lookup (e.path.components ++ way) = t.lookup (e.path.components ++ way) := by
  exact hkept _ fun d hd => not_prefix_of_earlier hl hd way

/-- The node of an entry, when only entries before it are touched. -/
theorem exists_node_of_entry {t t' : Tree} {before after : List Entry} {e : Entry}
    (hl : t.entriesOf path = before ++ e :: after)
    (hkept : ∀ place, (∀ d ∈ before, ¬d.path.components <+: place) →
      t'.lookup place = t.lookup place) :
    ∃ m c, (t'.branch e.path.components = fun way => t.branch path.components (c :: way)) ∧
      t'.lookup e.path.components = some m ∧ e.Describes m := by
  have hmem : e ∈ t.entriesOf path := by simp [hl]
  obtain ⟨b, m, -, hpath, -, hm, hdescribes⟩ := Tree.exists_of_mem_entriesOf hmem
  have hsame : t'.branch e.path.components =
      fun way => t.branch path.components (.name b :: way) := by
    funext way
    rw [← PathMap.branch_concat, ← hpath]
    exact lookup_below_entry hl hkept way
  refine ⟨m, .name b, hsame, ?_, hdescribes⟩
  rw [← PathMap.branch_nil, hsame, ← hm, hpath]
  rfl

theorem WithoutEntries.lookup_below {t t' : Tree} {before after : List Entry} {e : Entry}
    (h : WithoutEntries t t' before) (hl : t.entriesOf path = before ++ e :: after) (way : Place) :
    t'.lookup (e.path.components ++ way) = t.lookup (e.path.components ++ way) :=
  lookup_below_entry hl h.kept way

/-- Removing one entry after others is removing it from the tree as it was. -/
theorem leaves_removeEntry {levels : Nat} {deleteChild : Path → Operation Unit} {t : Tree}
    {before after : List Entry} {e : Entry} (hdelete : Deletes canceling deleteChild levels)
    (hview : Regular (t.branch path.components) (levels + 1))
    (hl : t.entriesOf path = before ++ e :: after) (hgone : WithoutEntries t s.nodes before) :
    Leaves canceling
      (if e.isDirectory = true then deleteChild e.path
        else removeFile tx e.path e.attributes true) s
      (s.nodes.Without · e.path.components) := by
  obtain ⟨m, c, hsame, hm, hdescribes⟩ := exists_node_of_entry hl hgone.kept
  have hregular : Regular (s.nodes.branch e.path.components) levels := by
    rw [hsame]
    exact hview.below c
  rw [hdescribes.isDirectory]
  split
  · next hlike => exact hdelete s e.path m hregular hm hlike
  · next hlike =>
    have hkind : m.kind ≠ .directory := fun hk => hlike (Node.isDirectoryLike_of_directory hk)
    refine leaves_removeFile hm hkind ?_ fun way hway => ?_
    · rw [hdescribes.attributes, Node.isReadOnly_shownAttributes]
    · exact hregular.eq_none_below (by rw [PathMap.branch_nil]; exact hm) hkind hway

theorem leaves_emptyDirectory {levels : Nat} {deleteChild : Path → Operation Unit}
    (hdelete : Deletes canceling deleteChild levels) (hopts : opts.ignoreReadOnly = true)
    (hview : Regular (s.nodes.branch path.components) (levels + 1))
    (hn : s.nodes.lookup path.components = some n) (hk : n.kind ≠ .file) :
    Leaves canceling (emptyDirectory opts deleteChild path) s
      (EmptiedBelow s.nodes · path.components) := by
  unfold Leaves emptyDirectory
  rw [Operation.ensures_bind, ensures_listEntries, hopts]
  refine ⟨fun _ _ _ => ?_, fun e he => ?_⟩
  · refine (ensures_forM (fun gone s' =>
      s'.records = s.records ∧ WithoutEntries s.nodes s'.nodes gone)
        ⟨rfl, ⟨by simp, fun _ _ => rfl⟩⟩ ?_).mono_ok ?_
    · intro before e after s' hl ⟨hrecords, hgone⟩
      refine (leaves_removeEntry hdelete hview hl hgone).mono_ok fun _ s'' h => ?_
      exact ⟨h.1.trans hrecords, hgone.concat h.2⟩
    · rintro _ s' ⟨hrecords, hgone⟩
      exact ⟨hrecords, hgone.below hview⟩
  · have hlisted := Tree.listing_eq_ok.mpr ⟨n, hn, hk, rfl⟩
    rw [he.resolve_left id] at hlisted
    cases hlisted

/-- A directory that is not mounted and has nothing in it, or a link to a directory, can be removed.
-/
theorem perform_removeDirectory {t : Tree} (hn : t.lookup path.components = some n)
    (hlike : n.isDirectoryLike = true) (hmounted : n.mounted = false)
    (hempty : ∀ c, t.lookup (path.components ++ [c]) = none) :
    t.perform (.removeDirectory path) = (.ok (), t.erase path) := by
  have hchildren : t.hasChildren path = false := Tree.hasChildren_eq_false.mpr fun c _ => hempty c
  exact Tree.update_eq
    (Tree.withoutDirectory_eq_ok.mpr ⟨n, hn, hlike, fun _ => ⟨hchildren, hmounted⟩, rfl⟩)

/-- Once it is emptied, a directory that is not mounted, or a link to a directory, is removed at the
first attempt. What may halt the emptying may halt the removal. -/
theorem ensures_removeRepeatedly {emptyIt : Operation Unit} {context : Context}
    {attributes : Attributes} {retries attempt : Nat} {ok : Unit → Scene → Prop}
    {err : Halt → Scene → Prop} (hn : s.nodes.lookup path.components = some n)
    (hlike : n.isDirectoryLike = true) (hmounted : n.mounted = false)
    (hempty : Ensures (Replies False canceling) emptyIt s
      (fun _ s' => EmptiedBelow s.nodes s'.nodes path.components ∧
        ∀ t, s.nodes.Without t path.components → ok () { s' with nodes := t }) err) :
    Ensures (Replies False canceling)
      (removeRepeatedly opts context path attributes emptyIt retries attempt) s ok err := by
  unfold removeRepeatedly
  rw [Operation.ensures_bind]
  refine hempty.mono_ok ?_
  rintro _ s' ⟨hplaces, hok⟩
  have hn' : s'.nodes.lookup path.components = some n := by
    rw [hplaces, if_neg (by simp), hn]
  have hempty' (c : Component) : s'.nodes.lookup (path.components ++ [c]) = none := by
    rw [hplaces, if_pos ⟨List.prefix_append _ _, by simp⟩]
  rw [Operation.ensures_bind]
  refine ensures_attempt_ok (perform_removeDirectory hn' hlike hmounted hempty')
    (ensures_note.mpr (hok _ fun place => ?_))
  rw [PathMap.lookup_erase, hplaces]
  by_cases hplace : path.components = place
  · rw [if_pos hplace, if_pos (hplace ▸ List.prefix_refl _)]
  · simp only [if_neg hplace, Ne.symm hplace, ne_eq, not_false_eq_true, and_true]

theorem Prepared.without {t t' t'' : Tree} {kind : NodeKind} {mounted : Bool}
    (h : Prepared t t' path kind mounted) (hwithout : t'.Without t'' path.components) :
    t.Without t'' path.components := by
  intro place
  rw [hwithout]
  split
  · rfl
  · next hplace =>
    refine h.agree place ?_
    rintro rfl
    exact hplace (List.prefix_refl _)

theorem Prepared.regular {t t' : Tree} {mounted : Bool} {bound : Nat}
    (h : Prepared t t' path n.kind mounted) (hn : t.lookup path.components = some n)
    (hview : Regular (t.branch path.components) bound) :
    Regular (t'.branch path.components) bound := by
  obtain ⟨n', hn', hkind, -⟩ := h.node
  have hbelow (way : Place) (hway : way ≠ []) :
      t'.branch path.components way = t.branch path.components way :=
    h.agree _ fun he => hway (List.self_eq_append_right.mp he)
  have hsome {way : Place} {m : Node} (hm : t'.branch path.components way = some m) :
      ∃ m', t.branch path.components way = some m' := by
    by_cases hway : way = []
    · exact ⟨n, by rw [hway, PathMap.branch_nil, hn]⟩
    · exact ⟨m, by rw [← hbelow way hway, hm]⟩
  constructor
  · intro way m hm
    obtain ⟨m', hm'⟩ := hsome hm
    exact hview.names way m' hm'
  · intro way c m hm
    obtain ⟨m', hm'⟩ := hsome hm
    obtain ⟨d, hd, hdir⟩ := hview.closed way c m' hm'
    by_cases hway : way = []
    · rw [hway, PathMap.branch_nil] at hd ⊢
      obtain rfl := Option.some.inj (hn.symm.trans hd)
      exact ⟨n', hn', hkind.trans hdir⟩
    · exact ⟨d, by rw [hbelow way hway, hd], hdir⟩
  · intro way m hm
    obtain ⟨m', hm'⟩ := hsome hm
    exact hview.shallow way m' hm'

theorem Prepared.trans {t t' t'' : Tree} {kind : NodeKind} {mounted mounted' : Bool}
    (h : Prepared t t' path kind mounted) (h' : Prepared t' t'' path kind mounted') :
    Prepared t t'' path kind mounted' := ⟨h.agree.trans h'.agree, h'.node⟩

/-- An entry is emptied unless it is a link, and then nothing is below it. -/
theorem leaves_emptyIt {levels : Nat} {deleteChild : Path → Operation Unit} {descends : Bool}
    (hdelete : Deletes canceling deleteChild levels) (hopts : opts.ignoreReadOnly = true)
    (hview : Regular (s.nodes.branch path.components) (levels + 1))
    (hn : s.nodes.lookup path.components = some n) (hlike : n.isDirectoryLike = true)
    (hdescends : descends = false → n.isLink = true) :
    Leaves canceling
      (if descends = true then emptyDirectory opts deleteChild path else pure ()) s
      (EmptiedBelow s.nodes · path.components) := by
  split
  · refine leaves_emptyDirectory hdelete hopts hview hn fun hk => ?_
    simp [Node.isDirectoryLike, hk] at hlike
  · next hno =>
    have hlink := hdescends (by simpa using hno)
    have hkind : n.kind ≠ .directory := by
      intro hk
      rw [Node.isLink_of_directory hk] at hlink
      cases hlink
    refine ensures_pure.mpr ⟨rfl, emptiedBelow_self fun way hway => ?_⟩
    exact hview.eq_none_below (by rw [PathMap.branch_nil, hn]) hkind hway

/-- What is done once nothing is mounted at the path any more. -/
theorem leaves_releaseAndRemove {t : Tree} {levels retries attempt : Nat} {info : Entry}
    {context : Context} {deleteChild : Path → Operation Unit} {descends : Bool}
    (hdelete : Deletes canceling deleteChild levels) (hopts : opts.ignoreReadOnly = true)
    (hview : Regular (t.branch path.components) (levels + 1))
    (hn : t.lookup path.components = some n) (hlike : n.isDirectoryLike = true)
    (hdescends : descends = false → n.isLink = true)
    (hprepared : Prepared t s.nodes path n.kind false) :
    Leaves canceling
      (releaseReadOnly opts path info >>= fun _ =>
        removeRepeatedly opts context path info.attributes
          (if descends = true then emptyDirectory opts deleteChild path else pure ()) retries
          attempt)
      s (t.Without · path.components) := by
  obtain ⟨n₁, hn₁, hkind₁, hmounted₁⟩ := hprepared.node
  unfold Leaves
  rw [Operation.ensures_bind]
  refine (leaves_releaseReadOnly hopts hn₁ info).mono_ok ?_
  rintro _ s' ⟨hrecords, hreleased⟩
  rw [hkind₁, hmounted₁] at hreleased
  have hboth := hprepared.trans hreleased
  obtain ⟨n₂, hn₂, hkind₂, hmounted₂⟩ := hboth.node
  have hlike₂ : n₂.isDirectoryLike = true := by
    rw [← hlike, Node.isDirectoryLike, Node.isDirectoryLike, hkind₂]
  have hlink₂ : descends = false → n₂.isLink = true := by
    intro hno
    rw [← hdescends hno, Node.isLink, Node.isLink, hkind₂]
  have hempty := leaves_emptyIt hdelete hopts (hboth.regular hn hview) hn₂ hlike₂ hlink₂
  refine ensures_removeRepeatedly hn₂ hlike₂ hmounted₂ (hempty.mono_ok fun _ s'' h => ?_)
  exact ⟨h.2, fun t ht => ⟨h.1.trans hrecords, hboth.without ht⟩⟩

theorem deletes_deleteNode (hrecursive : opts.recursive = true)
    (hopts : opts.ignoreReadOnly = true) (levels : Nat) (continueIfMissing : Bool) :
    Deletes canceling (deleteNode opts levels continueIfMissing) levels := by
  induction levels generalizing continueIfMissing with
  | zero =>
    intro s path n hview hn _
    exact absurd (hview.bound_pos (by rw [PathMap.branch_nil, hn])) (Nat.lt_irrefl 0)
  | succ levels ih =>
    intro s path n hview hn hlike
    have hentry : s.nodes.entry path = .ok ((n.child path).entryAt path) :=
      Tree.entry_eq_ok.mpr ⟨n, hn, rfl⟩
    have hdescribes := n.describes_entryAt path
    unfold Leaves deleteNode
    rw [Operation.ensures_bind]
    refine ensures_attempt_ok (Prod.ext hentry rfl) ?_
    generalize (n.child path).entryAt path = info at hdescribes
    dsimp only
    rw [hdescribes.isDirectory, hlike, if_neg (by simp), hrecursive]
    have hdescends : (true && (!info.isReparsePoint || info.isMountPoint)) = false →
        n.isLink = true := by
      rw [hdescribes.isReparsePoint]
      intro hno
      simp only [Bool.true_and, Bool.or_eq_false_iff, Bool.not_eq_false'] at hno
      exact hno.1
    split
    · next hmount =>
      rw [hdescribes.isMountPoint] at hmount
      rw [Operation.ensures_bind]
      refine (leaves_unmount hn hmount).mono_ok ?_
      rintro _ s' ⟨hrecords, hprepared⟩
      refine (leaves_releaseAndRemove (ih true) hopts hview hn hlike hdescends hprepared).mono_ok ?_
      exact fun _ s'' h => ⟨h.1.trans hrecords, h.2⟩
    · next hmount =>
      rw [hdescribes.isMountPoint] at hmount
      exact leaves_releaseAndRemove (ih true) hopts hview hn hlike hdescends
        ⟨.refl _, n, hn, rfl, by simpa using hmount⟩

/-! ### Whole deletes -/

/-- A recursive delete of a directory or of a link to one removes it with everything below it. -/
theorem leaves_deleteResolved {levels : Nat} (hrecursive : opts.recursive = true)
    (hopts : opts.ignoreReadOnly = true) (hview : Regular (s.nodes.branch path.components) levels)
    (hn : s.nodes.lookup path.components = some n) (hlike : n.isDirectoryLike = true) :
    Leaves canceling (deleteResolved levels opts path) s (s.nodes.Without · path.components) :=
  deletes_deleteNode hrecursive hopts levels opts.continueIfMissing s path n hview hn hlike

/-- A delete is the delete at the canonical path, which is the path itself. -/
theorem ensures_deleteDirectory {failing : Prop} {levels : Nat} {root : Path}
    {ok : Unit → Scene → Prop} {err : Halt → Scene → Prop} :
    Ensures (Replies failing canceling) (deleteDirectory levels opts root) s ok err ↔
      Ensures (Replies failing canceling) (deleteResolved levels opts root) s ok err := by
  simp only [deleteDirectory, Operation.ensures_bind, ensures_resolve, ensures_note]

/-- The delete of a file or of a link removes it. -/
theorem leaves_deleteFile {bound : Nat} (hview : Regular (s.nodes.branch path.components) bound)
    (hn : s.nodes.lookup path.components = some n) (hk : n.kind ≠ .directory) :
    Leaves canceling (deleteFile tx path true) s (s.nodes.Without · path.components) := by
  have hentry : s.nodes.entry path = .ok ((n.child path).entryAt path) :=
    Tree.entry_eq_ok.mpr ⟨n, hn, rfl⟩
  unfold Leaves deleteFile
  rw [Operation.ensures_bind, ensures_resolve, Operation.ensures_bind]
  refine ensures_attempt_ok (Prod.ext hentry rfl) ?_
  refine leaves_removeFile hn hk ?_ fun way hway => ?_
  · rw [(n.describes_entryAt path).attributes, Node.isReadOnly_shownAttributes]
  · exact hview.eq_none_below (by rw [PathMap.branch_nil, hn]) hk hway

end Memory

end TreeOps
