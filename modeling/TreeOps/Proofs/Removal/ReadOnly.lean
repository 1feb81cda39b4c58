import TreeOps.Proofs.Memory.Below
import TreeOps.Proofs.Removal.Exact

/-!
# How far a delete gets

Where nothing is mounted and no call fails, a recursive delete that may not clear read-only
attributes removes everything at and below its root, unless there is a read-only node. The first one
in path order stops it: a directory is looked at before what is below it but removed after that, so
what has gone by then is what comes before the stop in path order and is not above it.
-/

namespace TreeOps

namespace Tree

variable {t t' t'' : Tree} {dir : Path}

/-- The first read-only node at or below a place, in path order. -/
def firstReadOnly (t : Tree) (root : Place) : Option (Place × Node) :=
  (t.below root).find? fun e => e.2.attributes.isReadOnly

/-- What is left of a tree when the removal of what is at and below a root has come to a stop. -/
def WithoutBefore (t t' : Tree) (root stop : Place) : Prop :=
  ∀ place, t'.lookup place =
    if root <+: place ∧ compare place stop = .lt ∧ ¬place <+: stop then none else t.lookup place

theorem firstReadOnly_congr {root : Place}
    (h : ∀ way, t'.lookup (root ++ way) = t.lookup (root ++ way)) :
    t'.firstReadOnly root = t.firstReadOnly root := by
  rw [firstReadOnly, firstReadOnly, below_congr h]

theorem exists_of_firstReadOnly {root : Place} {e : Place × Node}
    (h : t.firstReadOnly root = some e) :
    ∃ way, e.1 = root ++ way ∧ t.lookup e.1 = some e.2 ∧ e.2.attributes.isReadOnly = true := by
  unfold firstReadOnly at h
  obtain ⟨way, hway, hn⟩ := mem_below.mp (List.mem_of_find?_eq_some h)
  exact ⟨way, hway, hway ▸ hn, by simpa using List.find?_some h⟩

/-- Without anything below it, a node is read-only first or not at all. -/
theorem firstReadOnly_of_leaf {place : Place} {n : Node} (hn : t.lookup place = some n)
    (hnone : ∀ way, way ≠ [] → t.lookup (place ++ way) = none) :
    t.firstReadOnly place = if n.attributes.isReadOnly then some (place, n) else none := by
  rw [firstReadOnly, below_of_leaf hn hnone, List.find?_singleton]

/-- A directory is looked at before its entries, and these one after another. -/
theorem firstReadOnly_eq {n : Node} {bound : Nat}
    (hview : Regular (t.branch dir.components) bound) (hn : t.lookup dir.components = some n) :
    t.firstReadOnly dir.components =
      if n.attributes.isReadOnly then some (dir.components, n)
      else (t.entriesOf dir).findSome? fun e => t.firstReadOnly e.path.components := by
  rw [firstReadOnly, below_eq hview hn, List.find?_cons]
  cases n.attributes.isReadOnly with
  | true => rfl
  | false => exact List.find?_flatMap

/-- Nothing at or below a read-only node has gone when it stops a removal there. -/
theorem withoutBefore_self (t : Tree) (root : Place) : t.WithoutBefore t root root := by
  intro place
  rw [if_neg]
  rintro ⟨hbelow, hlt, -⟩
  exact not_prefix_of_compare_lt hlt hbelow

/-- Entries come in path order, and so does what is at and below them. -/
theorem compare_entries {before after : List Entry} {d e : Entry}
    (hl : t.entriesOf dir = before ++ e :: after) (hd : d ∈ before) (way way' : Place) :
    compare (d.path.components ++ way) (e.path.components ++ way') = .lt := by
  have hsorted := t.entriesOf_sorted dir
  rw [hl, List.pairwise_append] at hsorted
  have hde : compare d.path.components e.path.components = .lt :=
    hsorted.2.2 d hd e (by simp)
  have hmem : d ∈ t.entriesOf dir := by simp [hl, hd]
  have hmem' : e ∈ t.entriesOf dir := by simp [hl]
  obtain ⟨b, -, -, hb, -⟩ := exists_of_mem_entriesOf hmem
  obtain ⟨b', -, -, hb', -⟩ := exists_of_mem_entriesOf hmem'
  rw [hb, hb', compare_append] at hde
  rw [hb, hb', List.append_assoc, List.append_assoc, compare_append]
  exact compare_cons_lt hde way way'

/-- A stop within an entry, after the entries before it have gone, is a stop within the directory.
-/
theorem WithoutBefore.of_entry {before after : List Entry} {e : Entry} {bound : Nat} {stop : Place}
    (h : t'.WithoutBefore t'' e.path.components stop)
    (hview : Regular (t.branch dir.components) bound)
    (hl : t.entriesOf dir = before ++ e :: after) (hgone : Memory.WithoutEntries t t' before)
    (hstop : e.path.components <+: stop) : t.WithoutBefore t'' dir.components stop := by
  have hbelow {d : Entry} (hd : d ∈ t.entriesOf dir) : dir.components <+: d.path.components :=
    prefix_of_mem_entriesOf hd
  obtain ⟨rest, rfl⟩ := hstop
  intro place
  rw [h place]
  by_cases hbefore : ∃ d ∈ before, d.path.components <+: place
  · obtain ⟨d, hd, way, rfl⟩ := hbefore
    have hapart := (entriesOf_apart hl hd).append way rest
    rw [hgone.removed d hd, ite_self, if_pos]
    refine ⟨(hbelow (by simp [hl, hd])).trans (List.prefix_append _ _), ?_, hapart.1⟩
    exact compare_entries hl hd way rest
  · have hkept : t'.lookup place = t.lookup place :=
      hgone.kept place fun d hd hpre => hbefore ⟨d, hd, hpre⟩
    rw [hkept]
    by_cases he : e.path.components <+: place
    · have hdir : dir.components <+: place := (hbelow (by simp [hl])).trans he
      simp only [he, hdir, true_and]
    · rw [if_neg fun hp => he hp.1]
      split
      · next hp =>
        -- Whatever else is before the stop would be above it, or at or below an entry after it.
        obtain ⟨⟨way, rfl⟩, hlt, habove⟩ := hp
        cases hn : t.lookup (dir.components ++ way) with
        | none => rfl
        | some n =>
          have hway : way ≠ [] := by
            rintro rfl
            rw [List.append_nil] at habove
            exact habove ((hbelow (by simp [hl])).trans (List.prefix_append _ _))
          obtain ⟨d, hd, hpre⟩ := exists_entry_above hview hn hway
          rw [hl] at hd
          rcases List.mem_append.mp hd with hd | hd
          · exact absurd ⟨d, hd, hpre⟩ hbefore
          · rcases List.mem_cons.mp hd with rfl | hd
            · exact absurd hpre he
            · obtain ⟨before', after', rfl⟩ := List.append_of_mem hd
              obtain ⟨more, hmore⟩ := hpre
              have hl' : t.entriesOf dir = (before ++ e :: before') ++ d :: after' := by simp [hl]
              have hgt := compare_entries hl' (d := e) (by simp) rest more
              rw [hmore] at hgt
              exact absurd (Std.TransCmp.lt_trans hlt hgt) (by simp)
      · rfl

end Tree

namespace Memory

open Removal Operation

variable {tx : Option Transaction} {s : Scene} {path : Path} {n : Node} {opts : DeleteOptions}

/-- What stops the removal of what is at and below a place, and what is left then. -/
def Stopped (t : Tree) (root : Place) (halt : Halt) (s' : Scene) : Prop :=
  ∃ stop m, halt = .failed (.readOnly stop) ∧ t.firstReadOnly root = some (stop.components, m) ∧
    t.WithoutBefore s'.nodes root stop.components

/-- A removal of what is at and below a place removes all of it if nothing there is read-only, and
else comes to a stop at the first read-only node. -/
def RemovesWritable (p : Operation Unit) (s : Scene) (root : Place) : Prop :=
  Ensures (Replies False True) p s
    (fun _ s' => s.nodes.firstReadOnly root = none ∧ s.nodes.Without s'.nodes root)
    (Stopped s.nodes root)

theorem removesWritable_removeFile {attributes : Attributes}
    (hn : s.nodes.lookup path.components = some n) (hk : n.kind ≠ .directory)
    (hattributes : attributes.isReadOnly = n.attributes.isReadOnly)
    (hbelow : ∀ way, way ≠ [] → s.nodes.lookup (path.components ++ way) = none) :
    RemovesWritable (removeFile tx path attributes false) s path.components := by
  have hfirst := Tree.firstReadOnly_of_leaf hn hbelow
  cases hr : n.attributes.isReadOnly with
  | false =>
    rw [if_neg (by simp [hr])] at hfirst
    apply (leaves_removeWritable hn hk hattributes hr hbelow).mono
    · intro _ s' h
      exact ⟨hfirst, h.2⟩
    · intro _ _ h
      exact h.elim
  | true =>
    rw [if_pos hr] at hfirst
    unfold RemovesWritable removeFile
    rw [if_pos (by simp [hattributes, hr])]
    exact ensures_fail.mpr ⟨path, n, rfl, hfirst, s.nodes.withoutBefore_self _⟩

/-- Nothing is mounted anywhere. -/
def Unmounted (view : Place → Option Node) : Prop :=
  ∀ way n, view way = some n → n.mounted = false

/-- A way to delete directories that nest less deeply than some levels and hold no mounts, up to the
first read-only node. -/
def DeletesWritable (delete : Path → Operation Unit) (levels : Nat) : Prop :=
  ∀ (s : Scene) (path : Path) (n : Node), Regular (s.nodes.branch path.components) levels →
    Unmounted (s.nodes.branch path.components) → s.nodes.lookup path.components = some n →
    n.isDirectoryLike = true → RemovesWritable (delete path) s path.components

/-- The removal of one entry after others is the removal from the tree as it was. -/
theorem removesWritable_entry {levels : Nat} {deleteChild : Path → Operation Unit} {t : Tree}
    {before after : List Entry} {e : Entry} (hdelete : DeletesWritable deleteChild levels)
    (hview : Regular (t.branch path.components) (levels + 1))
    (hunmounted : Unmounted (t.branch path.components))
    (hl : t.entriesOf path = before ++ e :: after) (hgone : WithoutEntries t s.nodes before) :
    RemovesWritable
      (if e.isDirectory = true then deleteChild e.path
        else removeFile tx e.path e.attributes false) s e.path.components := by
  obtain ⟨m, c, hsame, hm, hdescribes⟩ := exists_node_of_entry hl hgone.kept
  have hregular : Regular (s.nodes.branch e.path.components) levels := by
    rw [hsame]
    exact hview.below c
  have hunmounted' : Unmounted (s.nodes.branch e.path.components) := by
    rw [hsame]
    intro way n hn
    exact hunmounted (c :: way) n hn
  rw [hdescribes.isDirectory]
  split
  · next hlike => exact hdelete s e.path m hregular hunmounted' hm hlike
  · next hlike =>
    have hkind : m.kind ≠ .directory := fun hk => hlike (Node.isDirectoryLike_of_directory hk)
    apply removesWritable_removeFile hm hkind
    · rw [hdescribes.attributes, Node.isReadOnly_shownAttributes]
    · intro way hway
      exact hregular.eq_none_below (by rw [PathMap.branch_nil]; exact hm) hkind hway

/-- The emptying of a directory removes entry by entry, up to the first read-only node. -/
theorem ensures_emptyDirectory_writable {levels : Nat} {deleteChild : Path → Operation Unit}
    (hdelete : DeletesWritable deleteChild levels) (hopts : opts.ignoreReadOnly = false)
    (hview : Regular (s.nodes.branch path.components) (levels + 1))
    (hunmounted : Unmounted (s.nodes.branch path.components))
    (hn : s.nodes.lookup path.components = some n) (hk : n.kind ≠ .file)
    (hwritable : n.attributes.isReadOnly = false) :
    Ensures (Replies False True) (emptyDirectory opts deleteChild path) s
      (fun _ s' => s.nodes.firstReadOnly path.components = none ∧
        EmptiedBelow s.nodes s'.nodes path.components)
      (Stopped s.nodes path.components) := by
  have hfirst := Tree.firstReadOnly_eq hview hn
  rw [if_neg (by simp [hwritable])] at hfirst
  unfold emptyDirectory
  rw [Operation.ensures_bind, ensures_listEntries, hopts]
  constructor
  · intro _ _ _
    -- The entries that are done have gone, and none of them held a read-only node.
    let inv (gone : List Entry) (s' : Scene) : Prop :=
      WithoutEntries s.nodes s'.nodes gone ∧
        ∀ d ∈ gone, s.nodes.firstReadOnly d.path.components = none
    have hstep (before : List Entry) (e : Entry) (after : List Entry) (s' : Scene)
        (hl : s.nodes.entriesOf path = before ++ e :: after) (hinv : inv before s') :
        Ensures (Replies False True)
          (if e.isDirectory = true then deleteChild e.path
            else removeFile opts.transaction e.path e.attributes false) s'
          (fun _ s'' => inv (before ++ [e]) s'') (Stopped s.nodes path.components) := by
      obtain ⟨hgone, hnone⟩ := hinv
      have hsame : s'.nodes.firstReadOnly e.path.components =
          s.nodes.firstReadOnly e.path.components := by
        apply Tree.firstReadOnly_congr
        intro way
        exact hgone.lookup_below hl way
      apply (removesWritable_entry hdelete hview hunmounted hl hgone).mono
      · rintro _ s'' ⟨hfree, hwithout⟩
        refine ⟨hgone.concat hwithout, ?_⟩
        intro d hd
        rcases List.mem_append.mp hd with hd | hd
        · exact hnone d hd
        · rw [List.mem_singleton.mp hd, ← hsame, hfree]
      · rintro halt s'' ⟨stop, m, hhalt, hstop, hleft⟩
        obtain ⟨way, hway, -⟩ := Tree.exists_of_firstReadOnly hstop
        refine ⟨stop, m, hhalt, ?_, ?_⟩
        · rw [hfirst, hl, List.findSome?_append, List.findSome?_eq_none_iff.mpr hnone,
            Option.none_or, List.findSome?_cons, ← hsame, hstop]
        · exact hleft.of_entry hview hl hgone ⟨way, hway.symm⟩
    have hinit : inv [] s := ⟨⟨by simp, fun _ _ => rfl⟩, by simp⟩
    apply (ensures_forM inv hinit hstep).mono_ok
    rintro _ s' ⟨hgone, hnone⟩
    rw [hfirst]
    exact ⟨List.findSome?_eq_none_iff.mpr hnone, hgone.below hview⟩
  · intro e he
    have hlisted := Tree.listing_eq_ok.mpr ⟨n, hn, hk, rfl⟩
    rw [he.resolve_left id] at hlisted
    cases hlisted

/-- What a directory or a link to one is emptied of before it is removed; nothing is below a
link. -/
theorem ensures_emptyIt_writable {levels : Nat} {deleteChild : Path → Operation Unit}
    {descends : Bool} (hdelete : DeletesWritable deleteChild levels)
    (hopts : opts.ignoreReadOnly = false)
    (hview : Regular (s.nodes.branch path.components) (levels + 1))
    (hunmounted : Unmounted (s.nodes.branch path.components))
    (hn : s.nodes.lookup path.components = some n) (hlike : n.isDirectoryLike = true)
    (hdescends : descends = false → n.isLink = true) (hwritable : n.attributes.isReadOnly = false) :
    Ensures (Replies False True)
      (if descends = true then emptyDirectory opts deleteChild path else pure ()) s
      (fun _ s' => s.nodes.firstReadOnly path.components = none ∧
        EmptiedBelow s.nodes s'.nodes path.components)
      (Stopped s.nodes path.components) := by
  split
  · apply ensures_emptyDirectory_writable hdelete hopts hview hunmounted hn _ hwritable
    intro hk
    simp [Node.isDirectoryLike, hk] at hlike
  · next hno =>
    have hlink := hdescends (by simpa using hno)
    have hkind : n.kind ≠ .directory := by
      intro hk
      rw [Node.isLink_of_directory hk] at hlink
      cases hlink
    have hbelow (way : Place) (hway : way ≠ []) :
        s.nodes.lookup (path.components ++ way) = none :=
      hview.eq_none_below (by rw [PathMap.branch_nil, hn]) hkind hway
    refine ensures_pure.mpr ⟨?_, emptiedBelow_self hbelow⟩
    rw [Tree.firstReadOnly_of_leaf hn hbelow, if_neg (by simp [hwritable])]

theorem deletesWritable_deleteNode (hrecursive : opts.recursive = true)
    (hopts : opts.ignoreReadOnly = false) (levels : Nat) (continueIfMissing : Bool) :
    DeletesWritable (deleteNode opts levels continueIfMissing) levels := by
  induction levels generalizing continueIfMissing with
  | zero =>
    intro s path n hview _ hn _
    exact absurd (hview.bound_pos (by rw [PathMap.branch_nil, hn])) (Nat.lt_irrefl 0)
  | succ levels ih =>
    intro s path n hview hunmounted hn hlike
    have hmounted : n.mounted = false := hunmounted [] n (by rw [PathMap.branch_nil, hn])
    have hentry : s.nodes.entry path = .ok ((n.child path).entryAt path) :=
      Tree.entry_eq_ok.mpr ⟨n, hn, rfl⟩
    have hdescribes := n.describes_entryAt path
    unfold RemovesWritable deleteNode
    rw [Operation.ensures_bind]
    refine ensures_attempt_ok (Prod.ext hentry rfl) ?_
    generalize (n.child path).entryAt path = info at hdescribes
    dsimp only
    rw [hdescribes.isDirectory, hlike, if_neg (by simp), hdescribes.isMountPoint, hmounted,
      if_neg (by simp), hrecursive, hopts, Operation.ensures_bind, releaseReadOnly, hopts]
    have hreadOnly : info.isReadOnly = n.attributes.isReadOnly := by
      rw [Entry.isReadOnly, hdescribes.attributes, Node.isReadOnly_shownAttributes]
    rw [hreadOnly]
    cases hr : n.attributes.isReadOnly with
    | true =>
      rw [if_pos rfl, if_neg (by simp)]
      refine ensures_fail.mpr ⟨path, n, rfl, ?_, s.nodes.withoutBefore_self _⟩
      rw [Tree.firstReadOnly_eq hview hn, if_pos hr]
    | false =>
      rw [if_neg (by simp)]
      have hdescends : (true && (!info.isReparsePoint || false)) = false → n.isLink = true := by
        rw [hdescribes.isReparsePoint]
        simp
      apply ensures_pure.mpr
      apply ensures_removeRepeatedly hn hlike hmounted
      apply (ensures_emptyIt_writable (ih true) hopts hview hunmounted hn hlike hdescends
        hr).mono_ok
      rintro _ s' ⟨hfree, hemptied⟩
      exact ⟨hemptied, fun t ht => ⟨hfree, ht⟩⟩

/-! ### Runs -/

/-- A delete that may not clear read-only attributes removes everything or comes to a stop. -/
theorem ends_delete_writable {m : Memory} {levels : Nat} {root : Path} (listener : Listener)
    (hcalm : m.failures = []) (hunmounted : ∀ e ∈ m.nodes.entries, e.2.mounted = false)
    (hrecursive : opts.recursive = true) (hopts : opts.ignoreReadOnly = false)
    (hview : Regular (m.nodes.branch root.components) levels)
    (hn : m.nodes.lookup root.components = some n) (hlike : n.isDirectoryLike = true) :
    Ends (fun _ s' => m.nodes.firstReadOnly root.components = none ∧
        m.nodes.Without s'.nodes root.components)
      (Stopped m.nodes root.components) (m.runs listener (deleteDirectory levels opts root)).result
      (m.runs listener (deleteDirectory levels opts root)).scene := by
  have hclear : Unmounted (m.nodes.branch root.components) := by
    intro way m' hm'
    obtain ⟨key, hkey, -⟩ := PathMap.lookup_eq_some_iff.mp hm'
    exact hunmounted _ hkey
  have hdeletes : RemovesWritable (deleteResolved levels opts root) ⟨m.nodes, []⟩ root.components :=
    deletesWritable_deleteNode hrecursive hopts levels opts.continueIfMissing ⟨m.nodes, []⟩ root n
      hview hclear hn hlike
  exact ends_runs listener (.inr hcalm) (fun _ _ => trivial) (ensures_deleteDirectory.mpr hdeletes)

/-- Without scripted failures and where nothing is mounted, a recursive delete of a directory or of
a link to one removes exactly what is at and below it, if it may clear read-only attributes or meets
none. Otherwise it fails at the first read-only node in path order, and exactly what comes before
that node and is not above it has gone. -/
theorem delete_removes_before_readOnly (m : Memory) (listener : Listener) (levels : Nat)
    (opts : DeleteOptions) (root : Path) (hwf : m.nodes.WellFormed) (hcalm : m.failures = [])
    (hunmounted : ∀ e ∈ m.nodes.entries, e.2.mounted = false) (hlevels : m.nodes.levels ≤ levels)
    (hrecursive : opts.recursive = true)
    (hroot : ∃ n, m.nodes.lookup root.components = some n ∧ n.isDirectoryLike = true) :
    let run := m.runs listener (deleteDirectory levels opts root)
    (opts.ignoreReadOnly = true ∨ m.nodes.firstReadOnly root.components = none →
      run.result = .ok () ∧ m.nodes.Without run.memory.nodes root.components) ∧
    (opts.ignoreReadOnly = false →
      ∀ stop n, m.nodes.firstReadOnly root.components = some (stop, n) →
        (∃ p, run.result = .error (.failed (.readOnly p)) ∧ p.components = stop) ∧
          m.nodes.WithoutBefore run.memory.nodes root.components stop) := by
  intro run
  obtain ⟨n, hn, hlike⟩ := hroot
  have hview := hwf.regular hlevels (hwf.ne_nil hn)
  cases hopts : opts.ignoreReadOnly with
  | true =>
    refine ⟨fun _ => ?_, by simp⟩
    have hleaves : Leaves True (deleteResolved levels opts root) ⟨m.nodes, []⟩
        (m.nodes.Without · root.components) :=
      leaves_deleteResolved hrecursive hopts hview hn hlike
    have hends := ends_runs listener (.inr hcalm) (fun _ _ => trivial)
      (ensures_deleteDirectory.mpr hleaves)
    obtain ⟨_, hresult, -, hwithout⟩ := hends.exists_ok
    exact ⟨hresult, hwithout⟩
  | false =>
    have hends := ends_delete_writable listener hcalm hunmounted hrecursive hopts hview hn hlike
    change Ends _ _ run.result run.scene at hends
    cases hresult : run.result with
    | ok _ =>
      rw [hresult] at hends
      obtain ⟨hfree, hwithout⟩ := hends
      refine ⟨fun _ => ⟨rfl, hwithout⟩, fun _ stop n' hstop => ?_⟩
      cases hfree.symm.trans hstop
    | error halt =>
      rw [hresult] at hends
      obtain ⟨p, n', rfl, hfirst, hleft⟩ := hends
      refine ⟨fun h => ?_, fun _ stop m' hstop => ?_⟩
      · cases hfirst.symm.trans (h.resolve_left (by simp))
      · obtain ⟨rfl, rfl⟩ := Prod.mk.inj (Option.some.inj (hfirst.symm.trans hstop))
        exact ⟨⟨p, rfl, rfl⟩, hleft⟩

/-- The second of three directories is read-only: the first has gone, the root and the third
stay. -/
theorem delete_removes_before_readOnly_second :
    let m := (((new.addFile "/r/a/f" 1).addFile "/r/b/f" 2).addFile "/r/c" 3).setReadOnly "/r/b"
    let run := m.runs {} (deleteDirectory m.levels { recursive := true } "/r")
    (∃ p, run.result = .error (.failed (.readOnly p)) ∧ p.components = Path.components "/r/b") ∧
      m.nodes.WithoutBefore run.memory.nodes (Path.components "/r") (Path.components "/r/b") :=
  (delete_removes_before_readOnly _ _ _ { recursive := true } "/r" (by decide) rfl (by decide)
    (Nat.le_refl _) rfl ⟨_, rfl, rfl⟩).2 rfl _ _ rfl

end Memory

end TreeOps
