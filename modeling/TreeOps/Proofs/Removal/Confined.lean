import TreeOps.Proofs.Removal.Prune
import TreeOps.Proofs.Removal.Shrinks

/-!
# Where pruning can change something

Pruning uses the general delete, which could unmount, clear attributes and remove what is not empty.
But it uses it on plain directories that it has come to through plain directories, it makes one
attempt at each, and what is not empty it leaves. So whatever fails, it changes no other node; what
it removes has lost everything below it before; and what is left of a directory is the directory,
but for a read-only attribute.
-/

namespace TreeOps

/-! ### The places that pruning comes to -/

/-- A plain directory below the root, with no mounted node in between. -/
structure Reached (view : Place → Option Node) (way : Place) : Prop where
  ne_nil : way ≠ []
  plain : ∃ n, view way = some n ∧ n.IsPlain
  unmounted : ∀ above more n, way = above ++ more → above ≠ [] → view above = some n →
    n.mounted = false

/-- Pruning goes on from the root and from each directory that it has come to. -/
theorem reached_concat {view : Place → Option Node} {way : Place} {c : Component} {n : Node}
    (hway : way = [] ∨ Reached view way) (hn : view (way ++ [c]) = some n) (hplain : n.IsPlain) :
    Reached view (way ++ [c]) where
  ne_nil := by simp
  plain := ⟨n, hn, hplain⟩
  unmounted := by
    intro above more d hsplit hne hd
    rcases List.eq_nil_or_concat more with rfl | ⟨front, last, rfl⟩
    · rw [List.append_nil] at hsplit
      rw [← hsplit, hn] at hd
      exact Option.some.inj hd ▸ hplain.2
    · rw [List.concat_eq_append, ← List.append_assoc] at hsplit
      obtain ⟨hfront, -⟩ := List.append_inj' hsplit rfl
      rcases hway with rfl | hreached
      · exact absurd (List.append_eq_nil_iff.mp hfront.symm).1 hne
      · exact hreached.unmounted above front d hfront hne hd

/-- Nothing but a plain directory is found where pruning comes to. -/
theorem Tree.plain_of_goes {t : Tree} {root place : Place} {n : Node}
    (h : t.Goes Reached root place) (hn : t.lookup place = some n) : n.IsPlain := by
  obtain ⟨way, rfl, hreached⟩ := h
  obtain ⟨d, hd, hplain⟩ := hreached.plain
  obtain rfl := Option.some.inj (hn.symm.trans hd)
  exact hplain

/-! ### What is left of a node -/

namespace Node

variable {clears : Bool} {n n' : Node}

/-- A node as it was, or without its read-only attribute if that may be cleared. -/
def Cleared (clears : Bool) (n n' : Node) : Prop :=
  n' = n ∨ clears = true ∧ n' = n.withAttributes (n.attributes.without .readOnly)

theorem Cleared.isPlain (h : n.Cleared clears n') : n'.IsPlain ↔ n.IsPlain := by
  rcases h with rfl | ⟨-, rfl⟩
  · exact Iff.rfl
  · exact Iff.rfl

theorem Cleared.remains (h : n.Cleared clears n') : n.Remains clears n' := by
  rcases h with rfl | ⟨hclears, rfl⟩
  · exact .refl n'
  · exact (Remains.refl n).withAttributes hclears
      (Attributes.neutral_of_isNeutral (Attributes.isNeutral_without n.neutral))

/-- Clearing the attribute once more changes nothing. -/
theorem Cleared.withAttributes {attributes : Attributes} (h : n.Cleared clears n')
    (hclears : clears = true) (ha : attributes.neutral = n.attributes.without .readOnly) :
    n.Cleared clears (n'.withAttributes attributes) := by
  have hsame : n'.withAttributes attributes = n.withAttributes attributes := by
    rcases h with rfl | ⟨-, rfl⟩
    · rfl
    · rfl
  have hneutral : (n.attributes.without .readOnly).neutral = n.attributes.without .readOnly :=
    Attributes.neutral_of_isNeutral (Attributes.isNeutral_without n.neutral)
  refine .inr ⟨hclears, hsame.trans ?_⟩
  simp only [Node.withAttributes, ha, hneutral]

end Node

/-! ### The nodes -/

/-- The calls of a prune below a root of a tree: it looks, and removes plain directories that it has
come to or clears their read-only attribute. -/
def Call.Prunes (t : Tree) (root : Place) (clears : Bool) : Call → Prop
  | .list _ | .query _ => True
  | .removeDirectory path => t.Goes Reached root path.components
  | .setAttributes path attributes => clears = true ∧ t.Goes Reached root path.components ∧
      ∃ n, t.lookup path.components = some n ∧ attributes.neutral = n.attributes.without .readOnly
  | _ => False

/-- What a prune below a root may leave of a tree. Where something has gone, nothing is left below
it. -/
structure Tree.Thins (t t' : Tree) (root : Place) (clears : Bool) : Prop where
  outside : Tree.AgreeOutside (t.Goes Reached root) t t'
  left : ∀ place n', t'.lookup place = some n' →
    ∃ n, t.lookup place = some n ∧ n.Cleared clears n'
  closed : ∀ place c, (t.lookup place).isSome = true → t'.lookup place = none →
    t'.lookup (place ++ [c]) = none

namespace Tree.Thins

variable {t t' : Tree} {root : Place} {clears : Bool} {path : Path}

theorem refl (t : Tree) : t.Thins t root clears where
  outside := .refl t
  left _ n hn := ⟨n, hn, .inl rfl⟩
  closed place c hsome hnone := by simp [hnone] at hsome

theorem lookup_eq_none (h : t.Thins t' root clears) {place : Place}
    (hnone : t.lookup place = none) : t'.lookup place = none := by
  cases hn' : t'.lookup place with
  | none => rfl
  | some n' =>
    obtain ⟨n, hn, -⟩ := h.left place n' hn'
    exact nomatch hnone.symm.trans hn

/-- A directory that pruning has come to goes when it is empty. -/
theorem erase (h : t.Thins t' root clears) (hreached : t.Goes Reached root path.components)
    (hempty : ∀ c, t'.lookup (path.components ++ [c]) = none) :
    t.Thins (t'.erase path) root clears where
  outside := h.outside.trans ((agreeOutside_erase t' path).mono fun _ heq => heq ▸ hreached)
  left := by
    intro place n' hn'
    rw [PathMap.lookup_erase] at hn'
    split at hn'
    · cases hn'
    · exact h.left place n' hn'
  closed := by
    intro place c hsome hnone
    rw [PathMap.lookup_erase] at hnone ⊢
    split
    · rfl
    · split at hnone
      · next heq => exact heq ▸ hempty c
      · exact h.closed place c hsome hnone

/-- A directory that pruning has come to loses its read-only attribute. -/
theorem clear (h : t.Thins t' root clears) (hreached : t.Goes Reached root path.components)
    {n : Node} {attributes : Attributes} (hclears : clears = true)
    (hn : t.lookup path.components = some n)
    (ha : attributes.neutral = n.attributes.without .readOnly) :
    t.Thins (t'.modify path (Node.withAttributes · attributes)) root clears where
  outside := h.outside.trans ((agreeOutside_modify t' path _).mono fun _ heq => heq ▸ hreached)
  left := by
    intro place n' hn'
    rw [PathMap.lookup_modify] at hn'
    split at hn'
    · next heq =>
      obtain ⟨n'', hn'', rfl⟩ := Option.map_eq_some_iff.mp hn'
      obtain ⟨d, hd, hcleared⟩ := h.left place n'' hn''
      obtain rfl := Option.some.inj (hn.symm.trans (heq ▸ hd))
      exact ⟨n, hd, hcleared.withAttributes hclears ha⟩
    · exact h.left place n' hn'
  closed := by
    intro place c hsome hnone
    have hnone' : t'.lookup place = none := by
      rw [PathMap.lookup_modify] at hnone
      split at hnone
      · exact Option.map_eq_none_iff.mp hnone
      · exact hnone
    rw [PathMap.lookup_modify, h.closed place c hsome hnone', Option.map_none, ite_self]

/-- A tree thins with every call of a prune. -/
theorem perform {c : Call} (h : t.Thins t' root clears) (hwf : t.WellFormed)
    (hc : c.Prunes t root clears) : t.Thins (t'.perform c).2 root clears := by
  cases c with
  | list dir => exact h
  | query path => exact h
  | removeDirectory path =>
    refine update_keeps (P := (t.Thins · root clears)) h fun t'' ht'' => ?_
    obtain ⟨n', hn', -, hempty, rfl⟩ := withoutDirectory_eq_ok.mp ht''
    obtain ⟨n, hn, hcleared⟩ := h.left _ _ hn'
    have hchildren := (hempty (hcleared.isPlain.mpr (plain_of_goes hc hn)).1).1
    refine h.erase hc fun c => ?_
    by_cases hc : c = .root
    · -- No well-formed tree has the root below something.
      refine h.lookup_eq_none ?_
      cases hl : t.lookup (path.components ++ [c]) with
      | none => rfl
      | some m =>
        obtain ⟨b, rfl⟩ := (hwf.regular (Nat.le_refl _) (hwf.ne_nil hn)).names [c] m hl c (by simp)
        cases hc
    · exact hasChildren_eq_false.mp hchildren c hc
  | setAttributes path attributes =>
    obtain ⟨hclears, hreached, n, hn, ha⟩ := hc
    refine update_keeps (P := (t.Thins · root clears)) h fun t'' ht'' => ?_
    obtain ⟨-, rfl⟩ := withAttributes_eq_ok.mp ht''
    exact h.clear hreached hclears hn ha
  | createDirectory | deleteFile | move | copy | unmount | sameVolume => exact hc.elim

/-- Below what has gone, everything has gone. -/
theorem lookup_below (h : t.Thins t' root clears) (hwf : t.WellFormed) {place : Place} {n : Node}
    (hn : t.lookup place = some n) (hnone : t'.lookup place = none) (way : Place) :
    t'.lookup (place ++ way) = none := by
  induction way generalizing place n with
  | nil => rwa [List.append_nil]
  | cons c way ih =>
    have hchild := h.closed place c (by rw [hn]; rfl) hnone
    rw [List.append_cons]
    cases hm : t.lookup (place ++ [c]) with
    | none => exact h.lookup_eq_none (hwf.eq_none_below hm (by simp) way)
    | some m => exact ih hm hchild

end Tree.Thins

/-! ### One directory -/

namespace Removal

/-- Remove a directory in one attempt. -/
def removeOnce (tx : Option Transaction) (context : Context) (path : Path) (attempt : Nat) :
    Operation Unit := do
  match ← Operation.attempt tx (.removeDirectory path) with
  | .ok () => Operation.note (.removedDirectory path attempt)
  | .error e =>
    match classify e.code context with
    | .fatal kind => Operation.fail (kind.error path e)
    | _ => pure ()

/-- Where no failure is worth another attempt, there is one. -/
theorem removeRepeatedly_once (opts : DeleteOptions) {context : Context}
    (h : ∀ code action, classify code context ≠ .retry action) (path : Path)
    (attributes : Attributes) (emptyIt : Operation Unit) (retries attempt : Nat) :
    removeRepeatedly opts context path attributes emptyIt retries attempt =
      emptyIt >>= fun _ => removeOnce opts.transaction context path attempt := by
  unfold removeRepeatedly removeOnce
  cases retries with
  | zero =>
    refine bind_congr fun _ => bind_congr fun result => ?_
    cases result with
    | ok _ => rfl
    | error e =>
      dsimp only
      cases hc : classify e.code context with
      | success => rfl
      | fatal kind => rfl
      | retry action => exact absurd hc (h e.code action)
  | succ retries =>
    refine bind_congr fun _ => bind_congr fun result => ?_
    cases result with
    | ok _ => rfl
    | error e =>
      dsimp only
      cases hc : classify e.code context with
      | success => rfl
      | fatal kind => rfl
      | retry action => exact absurd hc (h e.code action)

/-- A directory that must be empty is not waited for, and one that is taken for writable is not
cleared again. -/
theorem classify_ne_retry {context : Context} (hrequire : context.requireEmpty = true)
    (hwritable : context.readOnly = false) (code : NativeCode) (action : RetryAction) :
    classify code context ≠ .retry action := by
  cases hmissing : context.continueIfMissing <;> cases code <;>
    simp [classify, hrequire, hwritable, hmissing]

/-- Free a directory of which the given is known of its marks, and remove it in one attempt. -/
def removeReadied (opts : DeleteOptions) (context : Context) (dir : Path) (info : Entry) :
    Operation Unit :=
  if !info.isDirectory then Operation.fail (.notADirectory dir)
  else do
    if info.isMountPoint then unmount opts.transaction dir
    releaseReadOnly opts dir info
    removeOnce opts.transaction context dir 1

/-- What is known of a directory that must be empty. -/
def emptyContext (opts : DeleteOptions) (continueIfMissing : Bool) : Context :=
  { requireEmpty := true, continueIfMissing, ignoreReadOnly := opts.ignoreReadOnly }

/-- What the general delete does to a directory that must be empty. -/
theorem deleteNode_single {opts : DeleteOptions} (hrecursive : opts.recursive = false)
    (hrequire : opts.requireEmptyIfNotRecursive = true) (levels : Nat) (continueIfMissing : Bool)
    (dir : Path) :
    deleteNode opts (levels + 1) continueIfMissing dir =
      Operation.attempt opts.transaction (.query dir) >>= fun result =>
        match result with
        | .error e =>
          if e.code.isNotFound && continueIfMissing then Operation.note (.alreadyGone dir)
          else Operation.fail (.ofNative dir "query" e)
        | .ok info => removeReadied opts (emptyContext opts continueIfMissing) dir info := by
  have hne : ∀ code action,
      classify code (emptyContext opts continueIfMissing) ≠ .retry action :=
    classify_ne_retry rfl rfl
  unfold deleteNode
  refine bind_congr fun result => ?_
  cases result with
  | error e => rfl
  | ok info =>
    have honce := removeRepeatedly_once opts hne dir info.attributes (pure ())
      (opts.retry.attempts - 1) 1
    rw [pure_bind] at honce
    unfold removeReadied
    dsimp only
    rw [hrecursive, hrequire]
    split
    · rfl
    · split
      · exact bind_congr fun _ => bind_congr fun _ => honce
      · exact bind_congr fun _ => honce

/-- What is known of a directory that pruning removes. -/
def pruningContext (opts : PruneOptions) : Context :=
  { requireEmpty := true, continueIfMissing := true, ignoreReadOnly := opts.ignoreReadOnly }

/-- What is taken for a success though it failed was said to be missing. -/
theorem isNotFound_of_classify {opts : PruneOptions} {code : NativeCode}
    (h : ∀ kind, classify code (pruningContext opts) ≠ .fatal kind) : code.isNotFound = true := by
  cases code <;> simp_all [classify, pruningContext, NativeCode.isNotFound]

/-- Remove a directory of which the given is known. -/
def removeFound (opts : PruneOptions) (dir : Path) (info : Entry) : Operation Unit :=
  if !info.isDirectory then Operation.fail (.notADirectory dir)
  else do
    if info.isMountPoint then unmount opts.transaction dir
    releaseReadOnly opts.deletion dir info
    removeOnce opts.transaction (pruningContext opts) dir 1

/-- What the general delete does for pruning. -/
theorem deleteNode_pruning (opts : PruneOptions) (dir : Path) :
    deleteNode opts.deletion 1 true dir =
      Operation.attempt opts.transaction (.query dir) >>= fun result =>
        match result with
        | .error e =>
          if e.code.isNotFound then Operation.note (.alreadyGone dir)
          else Operation.fail (.ofNative dir "query" e)
        | .ok info => removeFound opts dir info := by
  rw [deleteNode_single rfl rfl]
  refine bind_congr fun result => ?_
  cases result with
  | error e => simp only [Bool.and_true]
  | ok info => rfl

end Removal

namespace Memory

open Removal Operation

/-- What a prune below a root may leave of a file system: it does not unmount. -/
structure Confined (m : Memory) (root : Place) (clears : Bool) (m' : Memory) : Prop where
  nodes : m.nodes.Thins m'.nodes root clears
  unmounts : m'.totalCalls .unmount = m.totalCalls .unmount

section Parts

variable {m m' : Memory} {root : Place} {clears : Bool} {listener : Listener} {dir : Path}
  {opts : PruneOptions} (hwf : m.nodes.WellFormed)

include hwf

/-- The step of the invariant. -/
theorem Confined.call {c : Call} (h : m.Confined root clears m')
    (hc : c.Prunes m.nodes root clears) : m.Confined root clears (m'.call c).2 where
  nodes := by
    rcases m'.nodes_call c with heq | heq
    · exact heq ▸ h.nodes
    · exact heq ▸ h.nodes.perform hwf hc
  unmounts := by
    rw [← h.unmounts, totalCalls, calls_call, List.countP_cons_of_neg]
    · rfl
    · cases c with
      | unmount path => exact hc.elim
      | _ => simp [Call.primitive]

theorem confined_attempt {tx : Option Transaction} {c : Call}
    (hc : c.Prunes m.nodes root clears) :
    Keeps (answers listener) (m.Confined root clears) (attempt tx c) :=
  keeps_attempt fun _ hm => ⟨hm.call hwf hc, trivial⟩

theorem confined_removeOnce {tx : Option Transaction} {context : Context} {attempt : Nat}
    (hreached : m.nodes.Goes Reached root dir.components) :
    Keeps (answers listener) (m.Confined root clears) (removeOnce tx context dir attempt) := by
  refine keeps_bind (confined_attempt hwf (c := .removeDirectory dir) hreached) fun result _ => ?_
  cases result with
  | ok _ => exact keeps_note
  | error e =>
    dsimp only
    split
    · exact keeps_fail
    · exact keeps_pure trivial

/-- The directory is taken for what it was, so nothing is unmounted, and its attribute is cleared
only if that is allowed. -/
theorem confined_removeFound {info : Entry} {n : Node}
    (hreached : m.nodes.Goes Reached root dir.components)
    (hn : m.nodes.lookup dir.components = some n) (hinfo : info.Recalls opts.ignoreReadOnly n) :
    Keeps (answers listener) (m.Confined root opts.ignoreReadOnly) (removeFound opts dir info) := by
  have hmount : info.isMountPoint = false := by
    rw [← Bool.not_eq_true]
    intro hmounted
    have hplain := (Tree.plain_of_goes hreached hn).2
    rw [hinfo.isMountPoint hmounted] at hplain
    cases hplain
  unfold removeFound
  split
  · exact keeps_fail
  · rw [hmount, if_neg Bool.false_ne_true]
    refine keeps_seq ?_ (confined_removeOnce hwf hreached)
    unfold releaseReadOnly
    split
    · split
      · next hclears =>
        have hset : (Call.setAttributes dir (info.attributes.without .readOnly)).Prunes m.nodes root
            opts.ignoreReadOnly := ⟨hclears, hreached, n, hn, hinfo.cleared⟩
        refine keeps_seq keeps_note (keeps_perform ?_)
        exact (confined_attempt hwf hset).mono fun _ _ _ _ => trivial
      · exact keeps_fail
    · exact keeps_pure trivial

theorem confined_removeEmpty (hreached : m.nodes.Goes Reached root dir.components) :
    Keeps (answers listener) (m.Confined root opts.ignoreReadOnly) (removeEmpty opts dir) := by
  have hquery : Keeps (answers listener) (m.Confined root opts.ignoreReadOnly)
      (attempt opts.transaction (.query dir)) fun result => ∀ info, result = .ok info →
        ∃ n, m.nodes.lookup dir.components = some n ∧ info.Recalls opts.ignoreReadOnly n := by
    refine keeps_query (fun m' hm' => hm'.call hwf (c := .query dir) trivial) ?_
    intro m' n' info hm' hn' hdescribes
    obtain ⟨n, hn, hcleared⟩ := hm'.nodes.left _ _ hn'
    exact ⟨n, hn, hdescribes.recalls hcleared.remains⟩
  have hdelete : Keeps (answers listener) (m.Confined root opts.ignoreReadOnly)
      (deleteNode opts.deletion 1 true dir) := by
    rw [deleteNode_pruning]
    refine keeps_bind hquery fun result hresult => ?_
    cases result with
    | ok info =>
      obtain ⟨n, hn, hinfo⟩ := hresult info rfl
      exact confined_removeFound hwf hreached hn hinfo
    | error e =>
      dsimp only
      split
      · exact keeps_note
      · exact keeps_fail
  have hdeleted : Keeps (answers listener) (m.Confined root opts.ignoreReadOnly)
      (deleteNode opts.deletion 1 true dir >>= fun _ => pure true) :=
    keeps_seq hdelete (keeps_pure trivial)
  refine keeps_bind (keeps_tryCatch hdeleted fun halt => ?_) ?_
  · split
    · exact keeps_pure trivial
    · exact keeps_throw
  · intro removed _
    split
    · exact keeps_seq keeps_note (keeps_pure trivial)
    · exact keeps_seq keeps_note (keeps_pure trivial)

theorem confined_pruneDirectory {pruneBelow : Path → Operation (List Path)}
    (hbelow : Keeps (answers listener) (m.Confined root opts.ignoreReadOnly) (pruneBelow dir))
    (hreached : m.nodes.Goes Reached root dir.components) :
    Keeps (answers listener) (m.Confined root opts.ignoreReadOnly)
      (pruneDirectory opts pruneBelow dir) := by
  rw [pruneDirectory_eq]
  have hbefore : Keeps (answers listener) (m.Confined root opts.ignoreReadOnly)
      (if opts.recursive then pruneBelow dir else pure []) := by
    split
    · exact hbelow
    · exact keeps_pure trivial
  have hempty : Keeps (answers listener) (m.Confined root opts.ignoreReadOnly)
      (isEmptyDirectory opts.transaction dir) := by
    have hlist : Keeps (answers listener) (m.Confined root opts.ignoreReadOnly)
        (attempt opts.transaction (.list dir)) := confined_attempt hwf (c := .list dir) trivial
    exact keeps_bind (keeps_perform (hlist.mono fun _ _ _ _ => trivial)) fun _ _ =>
      keeps_pure trivial
  refine keeps_bind hbefore fun below _ => keeps_bind hempty fun isEmpty _ => ?_
  split
  · exact keeps_bind (confined_removeEmpty hwf hreached) fun _ _ => keeps_pure trivial
  · exact keeps_pure trivial

omit hwf in
theorem confined_pruneEach {inv : Memory → Prop} {pruneOne : Path → Operation (List Path)}
    {entries : List Entry}
    (h : ∀ e ∈ entries, Keeps (answers listener) inv (pruneOne e.path)) :
    Keeps (answers listener) inv (pruneEach pruneOne entries) := by
  induction entries with
  | nil => exact keeps_pure trivial
  | cons e rest ih =>
    obtain ⟨he, hrest⟩ := List.forall_mem_cons.mp h
    exact keeps_bind he fun _ _ => keeps_bind (ih hrest) fun _ _ => keeps_pure trivial

omit hwf in
/-- The entries that pruning goes on with are places that it comes to. -/
theorem goes_of_entry (h : m.Confined root clears m') {way : Place}
    (hdir : dir.components = root ++ way) (hway : way = [] ∨ Reached (m.nodes.branch root) way)
    {e : Entry} (he : e ∈ m'.nodes.entriesOf dir) (hprunable : isPrunable e = true) :
    m.nodes.Goes Reached root e.path.components := by
  obtain ⟨b, n', -, hpath, -, hn', hdescribes⟩ := Tree.exists_of_mem_entriesOf he
  obtain ⟨n, hn, hcleared⟩ := h.nodes.left _ _ hn'
  have hplain := hcleared.isPlain.mp ((isPrunable_iff hdescribes).mp hprunable)
  rw [hpath, hdir, List.append_assoc] at hn ⊢
  exact ⟨_, rfl, reached_concat hway hn hplain⟩

theorem confined_pruneChildren (levels : Nat) (way : Place) (hdir : dir.components = root ++ way)
    (hway : way = [] ∨ Reached (m.nodes.branch root) way) :
    Keeps (answers listener) (m.Confined root opts.ignoreReadOnly)
      (pruneChildren opts levels dir) := by
  induction levels generalizing dir way with
  | zero => exact keeps_throw
  | succ levels ih =>
    have hentries : Keeps (answers listener) (m.Confined root opts.ignoreReadOnly)
        (childEntries opts.transaction dir) fun entries => ∀ e ∈ entries,
          isPrunable e = true → m.nodes.Goes Reached root e.path.components :=
      keeps_childEntries (fun m' hm' => hm'.call hwf (c := .list dir) trivial)
        fun m' hm' e he hprunable => goes_of_entry hm' hdir hway he hprunable
    refine keeps_bind hentries fun entries hreached => confined_pruneEach fun e he => ?_
    obtain ⟨hmem, hprunable⟩ := List.mem_filter.mp he
    have hgoes := hreached e hmem hprunable
    obtain ⟨way', hdir', hway'⟩ := id hgoes
    exact confined_pruneDirectory hwf (ih way' hdir' (.inr hway')) hgoes

theorem confined_pruneEmpty (levels : Nat) (root : Path) :
    Keeps (answers listener) (m.Confined root.components opts.ignoreReadOnly)
      (pruneEmpty levels opts root) := by
  have hquery : Keeps (answers listener) (m.Confined root.components opts.ignoreReadOnly)
      (perform opts.transaction (.query root) (.ofNative root "query")) :=
    keeps_perform ((confined_attempt hwf (c := .query root) trivial).mono fun _ _ _ _ => trivial)
  refine keeps_bind keeps_resolve fun _ hroot => ?_
  rw [hroot]
  refine keeps_bind hquery fun info _ => ?_
  split
  · exact keeps_fail
  · have hchildren : Keeps (answers listener) (m.Confined root.components opts.ignoreReadOnly)
        (pruneChildren opts levels root) :=
      confined_pruneChildren hwf levels [] (List.append_nil root.components).symm (.inl rfl)
    refine keeps_seq keeps_note (keeps_bind hchildren fun removed _ => ?_)
    exact keeps_seq keeps_note (keeps_pure trivial)

end Parts

end Memory

end TreeOps
