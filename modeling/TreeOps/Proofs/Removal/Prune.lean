import TreeOps.Proofs.Memory.History
import TreeOps.Proofs.Removal.Exact
import TreeOps.Proofs.Removal.Hollow
import TreeOps.Removal.Prune

/-!
# Pruning without failures

If no call fails without a reason in the nodes, pruning removes exactly what it is told to take
away, and lists it in post-order. The entries of a directory are listed before any of them is
pruned; pruning one of them changes nothing at or below another, so what goes below each can be told
from the tree as it was. Once that has gone, the directory is empty if everything below it has gone.
-/

namespace TreeOps

/-! ### The nodes after a prune -/

/-- What is left of a tree when some places have gone, and the removed paths in order of removal. -/
structure Pruned (t t' : Tree) (goes : Place → Prop) (removed : List Path) : Prop where
  gone : ∀ place, goes place → t'.lookup place = none
  kept : ∀ place, ¬goes place → t'.lookup place = t.lookup place
  listed : ∀ place, (∃ p ∈ removed, p.components = place) ↔ goes place
  ordered : (removed.map Path.components).Pairwise PostOrder
  unchanged : removed = [] → t' = t

/-- The places that go at and below a place, told by the ways that lead there. -/
def Tree.Goes (t : Tree) (goes : (Place → Option Node) → Place → Prop) (root place : Place) :
    Prop :=
  ∃ way, place = root ++ way ∧ goes (t.branch root) way

namespace Pruned

variable {t t' t'' : Tree} {goes goes' : Place → Prop} {removed removed' : List Path}
  {leaves : (Place → Option Node) → Place → Prop} {root : Place}

theorem nothing (h : ∀ place, ¬goes place) : Pruned t t goes [] where
  gone place hgoes := absurd hgoes (h place)
  kept _ _ := rfl
  listed place := by simp [h place]
  ordered := .nil
  unchanged _ := rfl

theorem congr (h : Pruned t t' goes removed) (hiff : ∀ place, goes place ↔ goes' place) :
    Pruned t t' goes' removed := by
  rwa [← funext fun place => propext (hiff place)]

/-- One prune after another, of places that come later. -/
theorem append (h : Pruned t t' goes removed) (h' : Pruned t' t'' goes' removed')
    (horder : ∀ a b, goes a → goes' b → PostOrder a b) :
    Pruned t t'' (fun place => goes place ∨ goes' place) (removed ++ removed') where
  gone place hgoes := by
    by_cases hgoes' : goes' place
    · exact h'.gone place hgoes'
    · rw [h'.kept place hgoes', h.gone place (hgoes.resolve_right hgoes')]
  kept place hkept := by
    rw [not_or] at hkept
    rw [h'.kept place hkept.2, h.kept place hkept.1]
  listed place := by
    rw [← h.listed, ← h'.listed]
    simp only [List.mem_append, or_and_right, exists_or]
  ordered := by
    rw [List.map_append, List.pairwise_append]
    refine ⟨h.ordered, h'.ordered, fun a ha b hb => ?_⟩
    obtain ⟨p, hp, rfl⟩ := List.mem_map.mp ha
    obtain ⟨q, hq, rfl⟩ := List.mem_map.mp hb
    exact horder _ _ ((h.listed _).mp ⟨p, hp, rfl⟩) ((h'.listed _).mp ⟨q, hq, rfl⟩)
  unchanged hnil := by
    rw [List.append_eq_nil_iff] at hnil
    rw [h'.unchanged hnil.2, h.unchanged hnil.1]

/-- No path is listed twice. -/
theorem distinct (h : Pruned t t' goes removed) : (removed.map Path.components).Nodup :=
  h.ordered.imp PostOrder.ne

/-- A directory that is empty is removed with everything at and below it. -/
theorem single {path : Path} (h : t.Without t' path.components)
    (hempty : ∀ way, way ≠ [] → t.lookup (path.components ++ way) = none) :
    Pruned t t' (· = path.components) [path] where
  gone place hgoes := by rw [h, if_pos (hgoes ▸ List.prefix_refl _)]
  kept place hkept := by
    rw [h]
    split
    · next hbelow =>
      obtain ⟨way, rfl⟩ := hbelow
      rw [hempty way fun hnil => hkept (by rw [hnil, List.append_nil])]
    · rfl
  listed place := by simp [eq_comm]
  ordered := List.pairwise_singleton ..
  unchanged := nofun

/-- What is left was there and stays. -/
theorem lookup_eq_some (h : Pruned t t' (t.Goes leaves root) removed) {way : Place} {n : Node}
    (hn : t'.branch root way = some n) :
    t.branch root way = some n ∧ ¬leaves (t.branch root) way := by
  by_cases hgoes : t.Goes leaves root (root ++ way)
  · exact nomatch (h.gone _ hgoes).symm.trans hn
  · exact ⟨(h.kept _ hgoes).symm.trans hn, fun hleaves => hgoes ⟨way, rfl, hleaves⟩⟩

theorem lookup_of_stays (h : Pruned t t' (t.Goes leaves root) removed) {way : Place}
    (hstays : ¬leaves (t.branch root) way) : t'.branch root way = t.branch root way := by
  refine h.kept _ ?_
  rintro ⟨way', heq, hleaves⟩
  exact hstays (List.append_cancel_left heq ▸ hleaves)

end Pruned

namespace Removal

/-- The directory itself comes after what is below it. -/
theorem pruneDirectory_eq (opts : PruneOptions) (pruneBelow : Path → Operation (List Path))
    (dir : Path) :
    pruneDirectory opts pruneBelow dir =
      (if opts.recursive then pruneBelow dir else pure []) >>= fun below => do
        if ← isEmptyDirectory opts.transaction dir then
          return below ++ (← removeEmpty opts dir)
        else return below := by
  unfold pruneDirectory
  cases opts.recursive <;> rfl

end Removal

namespace Memory

open Removal Operation

variable {tx : Option Transaction} {canceling : Prop} {s : Scene} {path : Path} {n : Node}

/-! ### One directory -/

theorem leaves_releaseClearable {opts : DeleteOptions} {info : Entry}
    (hn : s.nodes.lookup path.components = some n) (hinfo : info.Describes n)
    (hclear : opts.ignoreReadOnly = true ∨ n.attributes.isReadOnly = false) :
    Leaves canceling (releaseReadOnly opts path info) s
      (Prepared s.nodes · path n.kind n.mounted) := by
  rcases hclear with hclear | hwritable
  · exact leaves_releaseReadOnly hclear hn info
  · have hinfo' : info.isReadOnly = false := by
      rw [Entry.isReadOnly, hinfo.attributes, Node.isReadOnly_shownAttributes, hwritable]
    unfold Leaves releaseReadOnly
    rw [hinfo', if_neg (by simp)]
    exact ensures_pure.mpr ⟨rfl, .refl _, n, hn, rfl, rfl⟩

/-- A directory that is empty and has no volume is removed. -/
theorem leaves_deleteEmpty {opts : DeleteOptions} {levels : Nat} {continueIfMissing : Bool}
    (hopts : opts.recursive = false) (hn : s.nodes.lookup path.components = some n)
    (hplain : n.IsPlain)
    (hclear : opts.ignoreReadOnly = true ∨ n.attributes.isReadOnly = false)
    (hempty : ∀ way, way ≠ [] → s.nodes.lookup (path.components ++ way) = none) :
    Leaves canceling (deleteNode opts (levels + 1) continueIfMissing path) s
      (s.nodes.Without · path.components) := by
  have hentry : s.nodes.entry path = .ok ((n.child path).entryAt path) :=
    Tree.entry_eq_ok.mpr ⟨n, hn, rfl⟩
  have hdescribes := n.describes_entryAt path
  have hlike := Node.isDirectoryLike_of_directory hplain.1
  unfold Leaves deleteNode
  rw [Operation.ensures_bind]
  refine ensures_attempt_ok (Prod.ext hentry rfl) ?_
  generalize (n.child path).entryAt path = info at hdescribes
  dsimp only
  rw [hdescribes.isDirectory, hlike, if_neg (by simp), hdescribes.isMountPoint, hplain.2,
    if_neg (by simp), hopts, Operation.ensures_bind]
  refine (leaves_releaseClearable hn hdescribes hclear).mono_ok ?_
  rintro _ s' ⟨hrecords, hprepared⟩
  obtain ⟨n', hn', hkind', hmounted'⟩ := hprepared.node
  have hlike' : n'.isDirectoryLike = true :=
    Node.isDirectoryLike_of_directory (hkind'.trans hplain.1)
  have hempty' : ∀ way, way ≠ [] → s'.nodes.lookup (path.components ++ way) = none := by
    intro way hway
    rw [hprepared.agree _ (by simpa using hway), hempty way hway]
  refine ensures_removeRepeatedly hn' hlike' (hmounted'.trans hplain.2) ?_
  simp only [Bool.false_and, Bool.false_eq_true, if_false]
  exact ensures_pure.mpr ⟨emptiedBelow_self hempty', fun t ht => ⟨hrecords, hprepared.without ht⟩⟩

theorem ensures_removeEmpty {opts : PruneOptions}
    (hn : s.nodes.lookup path.components = some n) (hplain : n.IsPlain)
    (hclear : opts.ignoreReadOnly = true ∨ n.attributes.isReadOnly = false)
    (hempty : ∀ way, way ≠ [] → s.nodes.lookup (path.components ++ way) = none) :
    Ensures (Replies False canceling) (removeEmpty opts path) s
      (fun removed s' => s'.records = s.records ∧ removed = [path] ∧
        Pruned s.nodes s'.nodes (· = path.components) removed)
      (fun _ _ => False) := by
  unfold removeEmpty
  rw [Operation.ensures_bind, ensures_tryCatch, Operation.ensures_bind]
  have hdelete : Leaves canceling (deleteNode opts.deletion 1 true path) s
      (s.nodes.Without · path.components) :=
    leaves_deleteEmpty rfl hn hplain hclear hempty
  refine hdelete.mono ?_ fun _ _ => False.elim
  rintro _ s' ⟨hrecords, hwithout⟩
  rw [ensures_pure, if_pos rfl, Operation.ensures_bind, ensures_note]
  exact ⟨hrecords, rfl, .single hwithout hempty⟩

/-- Whether a directory is empty is told by the places right below it, if only names lead there. -/
theorem ensures_isEmptyDirectory (hn : s.nodes.lookup path.components = some n)
    (hk : n.kind = .directory)
    (hnames : ∀ c m, s.nodes.lookup (path.components ++ [c]) = some m → ∃ b, c = .name b) :
    Ensures (Replies False canceling) (isEmptyDirectory tx path) s
      (fun isEmpty s' => s' = s ∧
        (isEmpty = true ↔ ∀ c, s.nodes.lookup (path.components ++ [c]) = none))
      (fun _ _ => False) := by
  unfold isEmptyDirectory
  rw [Operation.ensures_bind]
  have hlisted : s.nodes.listing path = .ok _ :=
    Tree.listing_eq_ok.mpr ⟨n, hn, by simp [hk], rfl⟩
  refine ensures_perform_ok (Prod.ext hlisted rfl) (ensures_pure.mpr ⟨rfl, ?_⟩)
  rw [List.all_eq_true]
  constructor
  · intro hdots c
    cases hm : s.nodes.lookup (path.components ++ [c]) with
    | none => rfl
    | some m =>
      obtain ⟨b, rfl⟩ := hnames c m hm
      obtain ⟨p, hp, hcomponents⟩ := PathMap.lookup_eq_some_iff.mp hm
      have hchild : (p, m) ∈ s.nodes.children path :=
        PathMap.mem_children_iff.mpr ⟨hp, .name b, by simp, hcomponents⟩
      obtain ⟨-, hkept, -⟩ :=
        @Tree.kept_of_fileName_eq_some path p m b (Path.fileName_eq_some hcomponents)
      exact absurd (hdots _ (List.mem_map_of_mem hchild)) (by simp [hkept])
  · intro hnone child hchild
    obtain ⟨⟨p, m⟩, hmem, -⟩ := List.mem_map.mp hchild
    obtain ⟨hentry, c, -, hcomponents⟩ := PathMap.mem_children_iff.mp hmem
    have hm := PathMap.lookup_of_mem hentry
    rw [hcomponents, hnone c] at hm
    cases hm

/-! ### A directory after those below it -/

/-- After a prune: no failure, nothing reported, and the places that go are gone. -/
abbrev Takes (canceling : Prop) (p : Operation (List Path)) (s : Scene) (goes : Place → Prop) :
    Prop :=
  Ensures (Replies False canceling) p s
    (fun removed s' => s'.records = s.records ∧ Pruned s.nodes s'.nodes goes removed)
    (fun _ _ => False)

variable {opts : PruneOptions} {bound : Nat}

theorem takes_below {pruneBelow : Path → Operation (List Path)}
    (hbelow : opts.recursive = true →
      Takes canceling (pruneBelow path) s (s.nodes.Goes (Prunes opts.recursive) path.components)) :
    Takes canceling (if opts.recursive then pruneBelow path else pure []) s
      (s.nodes.Goes (PrunesBelow opts.recursive) path.components) := by
  unfold PrunesBelow
  cases hrecursive : opts.recursive with
  | true =>
    rw [hrecursive] at hbelow
    simpa only [true_and, if_true] using hbelow rfl
  | false =>
    refine ensures_pure.mpr ⟨rfl, .nothing ?_⟩
    rintro place ⟨way, -, hno, -⟩
    cases hno

/-- When what goes below a directory has gone, it is empty if that was everything. -/
theorem empty_iff {t t' : Tree} {recursive : Bool} {removed : List Path}
    (hregular : Regular (t.branch path.components) bound)
    (hpruned : Pruned t t' (t.Goes (PrunesBelow recursive) path.components) removed) :
    (∀ c, t'.lookup (path.components ++ [c]) = none) ↔
      ∀ way n, way ≠ [] → t.branch path.components way = some n →
        PrunesBelow recursive (t.branch path.components) way := by
  constructor
  · intro hnone way n hne hn
    obtain ⟨c, way, rfl⟩ := List.exists_cons_of_ne_nil hne
    obtain ⟨d, hd⟩ : ∃ d, t.branch path.components [c] = some d := by
      by_cases hway : way = []
      · exact ⟨n, hway ▸ hn⟩
      · obtain ⟨d, hd, -⟩ := hregular.directory_above [c] hn hway
        exact ⟨d, hd⟩
    have hgoes : t.Goes (PrunesBelow recursive) path.components (path.components ++ [c]) := by
      refine Classical.byContradiction fun hstays => ?_
      exact nomatch (hnone c).symm.trans ((hpruned.kept _ hstays).trans hd)
    obtain ⟨way', heq, hrecursive, hprunes⟩ := hgoes
    obtain rfl := List.append_cancel_left heq
    exact ⟨hrecursive, Prunes.below hprunes hn⟩
  · intro hall c
    by_cases hgoes : t.Goes (PrunesBelow recursive) path.components (path.components ++ [c])
    · exact hpruned.gone _ hgoes
    · rw [hpruned.kept _ hgoes]
      cases hm : t.lookup (path.components ++ [c]) with
      | none => rfl
      | some m => exact absurd ⟨[c], rfl, hall [c] m (by simp) hm⟩ hgoes

/-- A directory goes after what goes below it, if that is everything. -/
theorem goes_of_empty {t : Tree} {recursive : Bool} {root place : Place}
    (hall : ∀ way n, way ≠ [] → t.branch root way = some n →
      PrunesBelow recursive (t.branch root) way) :
    (t.Goes (PrunesBelow recursive) root place ∨ place = root) ↔
      t.Goes (PrunesFrom recursive) root place := by
  constructor
  · rintro (⟨way, rfl, hprunes⟩ | rfl)
    · exact ⟨way, rfl, .inl hprunes⟩
    · exact ⟨[], (List.append_nil _).symm, .inr ⟨rfl, hall⟩⟩
  · rintro ⟨way, rfl, hprunes | ⟨rfl, -⟩⟩
    · exact .inl ⟨way, rfl, hprunes⟩
    · exact .inr (List.append_nil _)

/-- A directory stays if not everything below it goes. -/
theorem goes_of_not_empty {t : Tree} {recursive : Bool} {root place : Place}
    (hsome : ¬∀ way n, way ≠ [] → t.branch root way = some n →
      PrunesBelow recursive (t.branch root) way) :
    t.Goes (PrunesBelow recursive) root place ↔ t.Goes (PrunesFrom recursive) root place :=
  exists_congr fun _ => and_congr_right fun _ =>
    ⟨.inl, fun hfrom => hfrom.resolve_right fun hself => hsome hself.2⟩

theorem takes_pruneDirectory {pruneBelow : Path → Operation (List Path)}
    (hbelow : opts.recursive = true →
      Takes canceling (pruneBelow path) s (s.nodes.Goes (Prunes opts.recursive) path.components))
    (hregular : Regular (s.nodes.branch path.components) bound)
    (hn : s.nodes.lookup path.components = some n) (hplain : n.IsPlain)
    (hclear : opts.ignoreReadOnly = true ∨ n.attributes.isReadOnly = false) :
    Takes canceling (pruneDirectory opts pruneBelow path) s
      (s.nodes.Goes (PrunesFrom opts.recursive) path.components) := by
  rw [Takes, pruneDirectory_eq, Operation.ensures_bind]
  refine (takes_below hbelow).mono_ok ?_
  rintro below s₁ ⟨hrecords, hpruned⟩
  have hself : ¬PrunesBelow opts.recursive (s.nodes.branch path.components) [] :=
    fun hprunes => hprunes.2.ne_nil rfl
  have hn₁ : s₁.nodes.lookup path.components = some n := by
    rw [← PathMap.branch_nil, hpruned.lookup_of_stays hself, PathMap.branch_nil, hn]
  rw [Operation.ensures_bind]
  refine (ensures_isEmptyDirectory hn₁ hplain.1 fun c m hm => ?_).mono_ok ?_
  · exact hregular.names [c] m (hpruned.lookup_eq_some hm).1 c (by simp)
  · rintro isEmpty s₂ ⟨rfl, hempty⟩
    rw [empty_iff hregular hpruned] at hempty
    cases isEmpty with
    | true =>
      have hall := hempty.mp rfl
      have hnone : ∀ way, way ≠ [] → s₂.nodes.lookup (path.components ++ way) = none := by
        intro way hne
        refine Option.eq_none_iff_forall_ne_some.mpr fun m hm => ?_
        obtain ⟨hview, hstays⟩ := hpruned.lookup_eq_some hm
        exact hstays (hall way m hne hview)
      rw [if_pos rfl, Operation.ensures_bind]
      refine (ensures_removeEmpty hn₁ hplain hclear hnone).mono_ok ?_
      rintro removed s₃ ⟨hrecords', -, hpruned'⟩
      refine ensures_pure.mpr ⟨hrecords'.trans hrecords, ?_⟩
      refine (hpruned.append hpruned' ?_).congr fun place => goes_of_empty hall
      rintro a b ⟨way, rfl, -, hprunes⟩ rfl
      exact postOrder_of_below hprunes.ne_nil
    | false =>
      have hsome : ¬_ := fun hall => Bool.false_ne_true (hempty.mpr hall)
      rw [if_neg Bool.false_ne_true]
      exact ensures_pure.mpr ⟨hrecords, hpruned.congr fun place => goes_of_not_empty hsome⟩

/-! ### One directory after another -/

theorem takes_pruneEach (goes : (Place → Option Node) → Place → Prop)
    {pruneOne : Path → Operation (List Path)} {entries : List Entry}
    (hone : ∀ e ∈ entries, ∀ s' : Scene,
      s'.nodes.branch e.path.components = s.nodes.branch e.path.components →
        Takes canceling (pruneOne e.path) s' (s'.nodes.Goes goes e.path.components))
    (hparted : entries.Pairwise fun d e => ∀ way way',
      PostOrder (d.path.components ++ way) (e.path.components ++ way')) :
    Takes canceling (pruneEach pruneOne entries) s
      (fun place => ∃ e ∈ entries, s.nodes.Goes goes e.path.components place) := by
  induction entries generalizing s with
  | nil => exact ensures_pure.mpr ⟨rfl, .nothing (by simp)⟩
  | cons e rest ih =>
    rw [List.pairwise_cons] at hparted
    unfold Takes pruneEach
    rw [Operation.ensures_bind]
    refine (hone e List.mem_cons_self s rfl).mono_ok ?_
    rintro removed s₁ ⟨hrecords, hpruned⟩
    have hsame : ∀ d ∈ rest,
        s₁.nodes.branch d.path.components = s.nodes.branch d.path.components := by
      intro d hd
      funext way
      refine hpruned.kept _ ?_
      rintro ⟨way', heq, -⟩
      exact (hparted.1 d hd way' way).ne heq.symm
    have hrest := ih
      (fun d hd s' hs' => hone d (List.mem_cons_of_mem e hd) s' (hs'.trans (hsame d hd))) hparted.2
    rw [Operation.ensures_bind]
    refine hrest.mono_ok ?_
    rintro removed' s₂ ⟨hrecords', hpruned'⟩
    refine ensures_pure.mpr ⟨hrecords'.trans hrecords, (hpruned.append hpruned' ?_).congr ?_⟩
    · rintro a b ⟨way, rfl, -⟩ ⟨d, hd, way', rfl, -⟩
      exact hparted.1 d hd way way'
    · intro place
      have hsplit : (∃ d ∈ e :: rest, s.nodes.Goes goes d.path.components place) ↔
          s.nodes.Goes goes e.path.components place ∨
            ∃ d ∈ rest, s.nodes.Goes goes d.path.components place := by simp
      rw [hsplit]
      refine or_congr_right (exists_congr fun d => and_congr_right fun hd => ?_)
      rw [Tree.Goes, Tree.Goes, hsame d hd]

/-- Pruning looks at the entries that are directories without volumes. -/
theorem isPrunable_iff {e : Entry} (h : e.Describes n) : isPrunable e = true ↔ n.IsPlain := by
  rw [isPrunable, h.isDirectory, h.isReparsePoint, h.isMountPoint, Node.IsPlain,
    Node.isDirectoryLike, Node.isLink]
  cases n.kind with
  | directory => simp
  | file => simp
  | link toDirectory => cases toDirectory <;> simp

/-- Entries side by side are pruned in post-order. -/
theorem entries_parted (t : Tree) (dir : Path) :
    (t.entriesOf dir).Pairwise fun d e => ∀ way way',
      PostOrder (d.path.components ++ way) (e.path.components ++ way') := by
  refine (t.entriesOf_sorted dir).imp_of_mem ?_
  intro d e hd he hde way way'
  obtain ⟨b, -, -, hb, -⟩ := Tree.exists_of_mem_entriesOf hd
  obtain ⟨b', -, -, hb', -⟩ := Tree.exists_of_mem_entriesOf he
  replace hde : compare d.path.components e.path.components = .lt := hde
  rw [hb, hb', compare_append] at hde
  rw [hb, hb', List.append_assoc, List.append_assoc]
  exact postOrder_of_children hde way way'

/-- The entries that pruning looks at are the plain directories right below. -/
theorem mem_prunable {t : Tree} {e : Entry}
    (h : e ∈ (t.entriesOf path).filter isPrunable) :
    ∃ b n, e.path.components = path.components ++ [.name b] ∧
      t.branch e.path.components = (fun way => t.branch path.components (.name b :: way)) ∧
      t.branch path.components [.name b] = some n ∧ n.IsPlain := by
  obtain ⟨hmem, hprunable⟩ := List.mem_filter.mp h
  obtain ⟨b, n, -, hpath, -, hn, hdescribes⟩ := Tree.exists_of_mem_entriesOf hmem
  rw [hpath] at hn ⊢
  refine ⟨b, n, rfl, ?_, hn, (isPrunable_iff hdescribes).mp hprunable⟩
  funext way
  rw [PathMap.branch_concat]

theorem exists_prunable {t : Tree} {b : Bytes} (hn : t.branch path.components [.name b] = some n)
    (hplain : n.IsPlain) : ∃ e ∈ (t.entriesOf path).filter isPrunable,
      e.path.components = path.components ++ [.name b] := by
  have hname : IsName b := Tree.isName_of_lookup hn
  refine ⟨n.entryIn path b, List.mem_filter.mpr ⟨Tree.mem_entriesOf.mpr ⟨b, n, hn, rfl⟩, ?_⟩, ?_⟩
  · exact (isPrunable_iff (n.describes_entryIn path b)).mpr hplain
  · exact Path.components_child path hname

/-- What goes below a directory goes at or below an entry that pruning looks at. -/
theorem goes_entries {t : Tree} {recursive : Bool} {place : Place}
    (hregular : Regular (t.branch path.components) bound) :
    (∃ e ∈ (t.entriesOf path).filter isPrunable,
        t.Goes (PrunesFrom recursive) e.path.components place) ↔
      t.Goes (Prunes recursive) path.components place := by
  constructor
  · rintro ⟨e, he, way, rfl, hprunes⟩
    obtain ⟨b, n, hpath, hbranch, hn, hplain⟩ := mem_prunable he
    rw [hbranch] at hprunes
    refine ⟨.name b :: way, by rw [hpath, List.append_assoc]; rfl, ?_⟩
    exact (prunes_cons hregular).mpr ⟨⟨n, hn, hplain⟩, hprunes⟩
  · rintro ⟨way, rfl, hprunes⟩
    obtain ⟨c, way, rfl⟩ := List.exists_cons_of_ne_nil hprunes.ne_nil
    obtain ⟨⟨n, hn, hplain⟩, hfrom⟩ := (prunes_cons hregular).mp hprunes
    obtain ⟨b, rfl⟩ := hregular.names [c] n hn c (by simp)
    obtain ⟨e, he, hpath⟩ := exists_prunable hn hplain
    obtain ⟨b', -, hpath', hbranch, -⟩ := mem_prunable he
    rw [hpath] at hpath'
    simp only [List.append_cancel_left_eq, List.cons.injEq, Component.name.injEq, and_true]
      at hpath'
    subst hpath'
    exact ⟨e, he, way, by rw [hpath, List.append_assoc]; rfl, hbranch ▸ hfrom⟩

theorem takes_pruneChildren {levels : Nat}
    (hregular : Regular (s.nodes.branch path.components) levels)
    (hdir : s.nodes.IsDirectoryAt path.components)
    (hclear : opts.ignoreReadOnly = true ∨ ∀ way n, way ≠ [] →
      s.nodes.branch path.components way = some n → n.kind = .directory →
        n.attributes.isReadOnly = false) :
    Takes canceling (pruneChildren opts levels path) s
      (s.nodes.Goes (Prunes opts.recursive) path.components) := by
  induction levels generalizing s path with
  | zero =>
    obtain ⟨n, hn, -⟩ := hdir
    exact absurd (hregular.bound_pos (by rw [PathMap.branch_nil, hn])) (Nat.lt_irrefl 0)
  | succ levels ih =>
    obtain ⟨n, hn, hk⟩ := hdir
    unfold Takes pruneChildren
    rw [Operation.ensures_bind, ensures_childEntries]
    refine ⟨fun _ _ _ => ?_, fun e he => ?_⟩
    · refine (takes_pruneEach (PrunesFrom opts.recursive) ?_
        ((entries_parted _ _).filter _)).mono_ok ?_
      · intro e he s' hsame
        obtain ⟨b, m, hpath, hbranch, hm, hplain⟩ := mem_prunable he
        rw [hbranch] at hsame
        have hregular' : Regular (s'.nodes.branch e.path.components) levels := by
          rw [hsame]
          exact hregular.below (.name b)
        have hm' : s'.nodes.lookup e.path.components = some m := by
          rw [← PathMap.branch_nil, hsame]
          exact hm
        refine takes_pruneDirectory (fun _ => ?_) hregular' hm' hplain ?_
        · refine ih hregular' ⟨m, hm', hplain.1⟩ (hclear.imp_right fun hclear way d _ hd => ?_)
          rw [hsame] at hd
          exact hclear (.name b :: way) d (by simp) hd
        · exact hclear.imp_right fun hclear => hclear [.name b] m (by simp) hm hplain.1
      · exact fun removed s' h => ⟨h.1, h.2.congr fun place => goes_entries hregular⟩
    · have hlisted := Tree.listing_eq_ok.mpr ⟨n, hn, by simp [hk], rfl⟩
      rw [he.resolve_left id] at hlisted
      cases hlisted

/-! ### Whole prunes -/

theorem takes_pruneEmpty {levels : Nat} {root : Path}
    (hregular : Regular (s.nodes.branch root.components) levels)
    (hdir : s.nodes.IsDirectoryAt root.components)
    (hclear : opts.ignoreReadOnly = true ∨ ∀ way n, way ≠ [] →
      s.nodes.branch root.components way = some n → n.kind = .directory →
        n.attributes.isReadOnly = false) :
    Takes canceling (pruneEmpty levels opts root) s
      (s.nodes.Goes (Prunes opts.recursive) root.components) := by
  obtain ⟨n, hn, hk⟩ := hdir
  have hentry : s.nodes.entry root = .ok ((n.child root).entryAt root) :=
    Tree.entry_eq_ok.mpr ⟨n, hn, rfl⟩
  have hinfo : ((n.child root).entryAt root).isDirectory = true :=
    (n.describes_entryAt root).isDirectory.trans (Node.isDirectoryLike_of_directory hk)
  unfold Takes pruneEmpty
  rw [Operation.ensures_bind, ensures_resolve, Operation.ensures_bind]
  refine ensures_perform_ok (Prod.ext hentry rfl) ?_
  rw [hinfo, if_neg (by simp), Operation.ensures_bind, ensures_note, Operation.ensures_bind]
  refine (takes_pruneChildren hregular ⟨n, hn, hk⟩ hclear).mono_ok ?_
  rintro removed s' h
  rw [Operation.ensures_bind, ensures_note]
  exact ensures_pure.mpr h

end Memory

/-! ### What is left -/

namespace Pruned

variable {t t' : Tree} {recursive : Bool} {root : Place} {removed : List Path}

theorem regular (h : Pruned t t' (t.Goes (Prunes recursive) root) removed) {bound : Nat}
    (hregular : Regular (t.branch root) bound) : Regular (t'.branch root) bound where
  names way n hn := hregular.names way n (h.lookup_eq_some hn).1
  closed way c n hn := by
    obtain ⟨hview, hstays⟩ := h.lookup_eq_some hn
    obtain ⟨d, hd, hdir⟩ := hregular.closed way c n hview
    exact ⟨d, by rw [h.lookup_of_stays fun hprunes => hstays (hprunes.below hview), hd], hdir⟩
  shallow way n hn := hregular.shallow way n (h.lookup_eq_some hn).1

/-- After a prune nothing is left that another would take away. -/
theorem settled (h : Pruned t t' (t.Goes (Prunes recursive) root) removed) (way : Place) :
    ¬Prunes recursive (t'.branch root) way := by
  intro hprunes
  obtain ⟨n, hn, hplain⟩ := hprunes.plain
  obtain ⟨hview, hstays⟩ := h.lookup_eq_some hn
  refine hstays ?_
  cases recursive with
  | true =>
    obtain ⟨hne, -, hhollow, hreached⟩ : ReachedHollow (t'.branch root) way := hprunes
    refine ⟨hne, ⟨n, hview⟩, fun more m hm => ?_, fun above more m hsplit hne' hm => ?_⟩
    · by_cases hgone : Prunes true (t.branch root) (way ++ more)
      · obtain ⟨d, hd, hplain'⟩ := hgone.plain
        exact Option.some.inj (hm.symm.trans hd) ▸ hplain'
      · exact hhollow more m ((h.lookup_of_stays hgone).trans hm)
    · by_cases hgone : Prunes true (t.branch root) above
      · exact absurd (hsplit ▸ hgone.below (hsplit ▸ hview)) hstays
      · exact hreached above more m hsplit hne' ((h.lookup_of_stays hgone).trans hm)
  | false =>
    obtain ⟨hchild, -, hempty⟩ : EmptyChild (t'.branch root) way := hprunes
    refine ⟨hchild, ⟨n, hview, hplain⟩, fun more hne => ?_⟩
    have hgone : ¬Prunes false (t.branch root) (way ++ more) := by
      intro hgone
      have hlength := EmptyChild.child hgone
      rw [List.length_append, hchild] at hlength
      exact hne (List.length_eq_zero_iff.mp (by omega))
    rw [← h.lookup_of_stays hgone]
    exact hempty more hne

end Pruned

namespace Memory

theorem runs_pruneEmpty {m : Memory} {levels : Nat} {opts : PruneOptions} {root : Path}
    (listener : Listener) (hcalm : m.failures = [])
    (hregular : Regular (m.nodes.branch root.components) levels)
    (hdir : m.nodes.IsDirectoryAt root.components)
    (hclear : opts.ignoreReadOnly = true ∨ ∀ way n, way ≠ [] →
      m.nodes.branch root.components way = some n → n.kind = .directory →
        n.attributes.isReadOnly = false) :
    let run := m.runs listener (pruneEmpty levels opts root)
    ∃ removed, run.result = .ok removed ∧
      Pruned m.nodes run.memory.nodes (m.nodes.Goes (Prunes opts.recursive) root.components)
        removed := by
  have htakes : Takes True (pruneEmpty levels opts root) ⟨m.nodes, []⟩ _ :=
    takes_pruneEmpty hregular hdir hclear
  obtain ⟨removed, hresult, -, hpruned⟩ :=
    (ends_runs listener (.inr hcalm) (fun _ _ => trivial) htakes).exists_ok
  exact ⟨removed, hresult, hpruned⟩

/-- Without failures a prune removes exactly the directories that are empty after pruning, and lists
them in post-order. A second one finds nothing to remove. -/
theorem prune_removes_hollow (m : Memory) (listener : Listener) (levels : Nat)
    (opts : PruneOptions) (root : Path) (hwf : m.nodes.WellFormed) (hcalm : m.failures = [])
    (hdir : m.nodes.IsDirectoryAt root.components) (hlevels : m.levels ≤ levels)
    (hclear : opts.ignoreReadOnly = true ∨ ∀ way n, way ≠ [] →
      m.nodes.lookup (root.components ++ way) = some n → n.kind = .directory →
        n.attributes.isReadOnly = false) :
    let run := m.runs listener (pruneEmpty levels opts root)
    let again := run.memory.runs listener (pruneEmpty levels opts root)
    ∃ removed, run.result = .ok removed ∧
      Pruned m.nodes run.memory.nodes (m.nodes.Goes (Prunes opts.recursive) root.components)
        removed ∧
      (removed.map Path.components).Nodup ∧
      again.result = .ok [] ∧ again.memory.nodes = run.memory.nodes := by
  dsimp only
  have hregular := hwf.regular hlevels (hwf.ne_nil_of_directory hdir)
  obtain ⟨removed, hresult, hpruned⟩ := runs_pruneEmpty listener hcalm hregular hdir hclear
  have hregular' := hpruned.regular hregular
  have hself : ¬Prunes opts.recursive (m.nodes.branch root.components) [] :=
    fun hprunes => hprunes.ne_nil rfl
  obtain ⟨n, hn, hk⟩ := hdir
  have hdir' : (m.runs listener (pruneEmpty levels opts root)).memory.nodes.IsDirectoryAt
      root.components :=
    ⟨n, by rw [← PathMap.branch_nil, hpruned.lookup_of_stays hself, PathMap.branch_nil, hn], hk⟩
  have hclear' := hclear.imp_right fun hclear way d hne hd =>
    hclear way d hne (hpruned.lookup_eq_some hd).1
  obtain ⟨removed', hresult', hpruned'⟩ :=
    runs_pruneEmpty listener (failures_runs hcalm listener _) hregular' hdir' hclear'
  have hnothing : removed' = [] := by
    refine List.eq_nil_iff_forall_not_mem.mpr fun p hp => ?_
    obtain ⟨way, -, hprunes⟩ := (hpruned'.listed _).mp ⟨p, hp, rfl⟩
    exact hpruned.settled way hprunes
  subst hnothing
  exact ⟨removed, hresult, hpruned, hpruned.distinct, hresult', hpruned'.unchanged rfl⟩

/-- A prune past a read-only directory, a link, a file and a mounted volume. -/
theorem prune_removes_hollow_mounted :
    let m := ((((((new.addDirectory "/r/a/b").addDirectory "/r/a/c").addFile "/r/d/f" 1).addLink
      "/r/e/l" true).addDirectory "/r/v/x").mount "/r/v").setReadOnly "/r/a/b"
    let opts : PruneOptions := { ignoreReadOnly := true }
    let run := m.runs {} (pruneEmpty 6 opts "/r")
    let again := run.memory.runs {} (pruneEmpty 6 opts "/r")
    (m.nodes.WellFormed ∧ m.failures = [] ∧ m.levels ≤ 6) ∧
      ∃ removed, run.result = .ok removed ∧
        Pruned m.nodes run.memory.nodes
          (m.nodes.Goes (Prunes opts.recursive) (Path.components "/r")) removed ∧
        (removed.map Path.components).Nodup ∧
        again.result = .ok [] ∧ again.memory.nodes = run.memory.nodes :=
  ⟨⟨by decide, rfl, by decide⟩, prune_removes_hollow _ {} 6 { ignoreReadOnly := true } "/r"
    (by decide) rfl ⟨_, rfl, rfl⟩ (by decide) (.inl rfl)⟩

end Memory

end TreeOps
