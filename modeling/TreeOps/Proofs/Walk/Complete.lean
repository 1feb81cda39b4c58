import TreeOps.Proofs.Memory.Below
import TreeOps.Proofs.Memory.Keeps

/-!
# A walk visits everything

Where no call fails, a walk through everything below a directory yields each node there once and in
path order, lists each directory once, and ends. What the walker holds, a directory to be listed
next and listings that are partly used up, stands for the nodes that are still ahead: what has been
yielded, followed by these, is all there is at any time.
-/

namespace TreeOps

/-! ### The pattern that every name matches -/

namespace Pattern

theorem atStart_behindRun {name : Bytes} (h : separator ∉ name) :
    atStart (behindRun name (emptyRow name)) = true := by
  induction name with
  | nil => rfl
  | cons c name ih =>
    rw [List.mem_cons, not_or] at h
    have hc : (c != separator) = true := bne_iff_ne.mpr (Ne.symm h.1)
    show (false || c != separator && atStart (behindRun name (emptyRow name))) = true
    rw [hc, ih h.2]
    rfl

theorem accepts_star {name : String} (h : separator ∉ Utf8.encode name) :
    accepts "*" name = true := by
  have htokens : tokens "*" = [.run] := by decide
  rw [accepts, matchTokens, htokens]
  exact Bool.or_eq_true_iff.mpr (.inr (atStart_behindRun h))

end Pattern

namespace Traversal

variable {t : Traversal} {e : Entry} {n : Node}

/-- Everything below the root is asked for. -/
structure Whole (t : Traversal) : Prop where
  recursive : t.recursive = true
  files : t.includeFiles = true
  folders : t.includeFolders = true
  pattern : t.pattern = "*"

/-- Whether a walk through everything lists a node that it comes to. -/
def opens (t : Traversal) (n : Node) : Bool :=
  n.isDirectoryLike && (!n.isLink || !t.skipReparsePoints)

theorem Whole.yields (h : t.Whole) {b : Bytes} (hname : IsName b) (htext : e.name = Utf8.lossy b) :
    t.yields e = true := by
  have haccepts : Pattern.accepts t.pattern e.name = true := by
    rw [h.pattern, htext]
    exact Pattern.accepts_star (Utf8.isName_encode_lossy hname).whole
  rw [Traversal.yields, h.files, h.folders, ite_self, haccepts]
  rfl

theorem Whole.enters (h : t.Whole) (hn : e.Describes n) : t.enters e = t.opens n := by
  rw [Traversal.enters, opens, h.recursive, hn.isDirectory, hn.isReparsePoint, Bool.and_true]

theorem opens_of_directory (h : n.kind = .directory) : t.opens n = true := by
  simp [opens, Node.isDirectoryLike_of_directory h, Node.isLink_of_directory h]

/-- Asking for neither kind of entries is asking for both. -/
theorem whole_withKinds (hrecursive : t.recursive = true)
    (hkinds : t.includeFiles = t.includeFolders) (hpattern : t.pattern = "*") :
    t.withKinds.Whole := by
  unfold withKinds
  split
  · next h =>
    rw [hkinds, Bool.or_self] at h
    exact ⟨hrecursive, hkinds.trans h, h, hpattern⟩
  · exact ⟨hrecursive, rfl, rfl, hpattern⟩

end Traversal

/-! ### What is ahead of a walk -/

namespace Walker

variable {t : Tree} {w : Walker}

/-- The nodes that the listings on the stack lead to. -/
def stacked (w : Walker) (t : Tree) : List (Place × Node) :=
  w.stack.flatten.flatMap fun e => t.below e.path.components

/-- The nodes that are still to be yielded, in order. -/
def unseen (w : Walker) (t : Tree) : List (Place × Node) :=
  (match w.pending with
    | some dir => t.inside dir.components
    | none => []) ++ w.stacked t

/-- The nodes that are still to be listed, in order. -/
def unlisted (w : Walker) (t : Tree) : List (Place × Node) :=
  ((match w.pending with
    | some dir => t.below dir.components
    | none => []) ++ w.stacked t).filter fun e => w.traversal.opens e.2

/-- A bound for the steps that are still to be made before the last. -/
def effort (w : Walker) (t : Tree) : Nat :=
  2 * (w.unlisted t).length + w.stack.length + (w.unseen t).length

theorem unseen_of_pending {dir : Path} (h : w.pending = some dir) :
    w.unseen t = t.inside dir.components ++ w.stacked t := by
  rw [unseen, h]

theorem unseen_of_none (h : w.pending = none) : w.unseen t = w.stacked t := by
  rw [unseen, h]
  rfl

theorem unlisted_of_pending {dir : Path} (h : w.pending = some dir) :
    w.unlisted t =
      (t.below dir.components ++ w.stacked t).filter fun e => w.traversal.opens e.2 := by
  rw [unlisted, h]

theorem unlisted_of_none (h : w.pending = none) :
    w.unlisted t = (w.stacked t).filter fun e => w.traversal.opens e.2 := by
  rw [unlisted, h]
  rfl

theorem stacked_cons {entries : List Entry} {rest : List (List Entry)}
    (h : w.stack = entries :: rest) :
    w.stacked t = (entries.flatMap fun e => t.below e.path.components) ++
      rest.flatten.flatMap fun e => t.below e.path.components := by
  rw [stacked, h, List.flatten_cons, List.flatMap_append]

/-- The listing of a directory takes its place: what is below it is at or below its entries. -/
theorem ahead_listed {dir : Path} {n : Node} (hwf : t.WellFormed) (hdir : w.pending = some dir)
    (hn : t.lookup dir.components = some n) (hopens : w.traversal.opens n = true) :
    let w' : Walker := { w with pending := none, stack := t.entriesOf dir :: w.stack }
    w.unseen t = w'.unseen t ∧ w.unlisted t = (dir.components, n) :: w'.unlisted t := by
  intro w'
  have hview := hwf.regular (Nat.le_refl _) (hwf.ne_nil hn)
  have hstacked : w'.stacked t = t.inside dir.components ++ w.stacked t := by
    rw [stacked_cons rfl, Tree.inside_eq hview hn]
    rfl
  constructor
  · rw [unseen_of_pending hdir, unseen_of_none rfl, hstacked]
  · rw [unlisted_of_pending hdir, unlisted_of_none rfl, hstacked, Tree.below_eq_inside hn,
      List.cons_append, List.filter_cons_of_pos (a := (dir.components, n)) hopens]

/-- The next entry is the next node. What is below it stays ahead: either it is to be listed next,
or nothing is below it. -/
theorem ahead_taken {e : Entry} {batch : List Entry} {rest : List (List Entry)} {n : Node}
    (hwf : t.WellFormed) (hpending : w.pending = none) (hstack : w.stack = (e :: batch) :: rest)
    (hn : t.lookup e.path.components = some n) :
    let w' : Walker := { w with
      stack := batch :: rest
      pending := if w.traversal.opens n then some e.path else none }
    w.unseen t = (e.path.components, n) :: w'.unseen t ∧ w.unlisted t = w'.unlisted t := by
  intro w'
  have hstacked : w.stacked t = t.below e.path.components ++ w'.stacked t := by
    rw [stacked_cons hstack, stacked_cons rfl, List.flatMap_cons, List.append_assoc]
  rw [unseen_of_none hpending, unlisted_of_none hpending, hstacked]
  cases hopens : w.traversal.opens n with
  | true =>
    have hpending' : w'.pending = some e.path := by simp [w', hopens]
    rw [unseen_of_pending hpending', unlisted_of_pending hpending', Tree.below_eq_inside hn]
    exact ⟨rfl, rfl⟩
  | false =>
    have hpending' : w'.pending = none := by simp [w', hopens]
    have hkind : n.kind ≠ .directory := by
      intro hk
      rw [Traversal.opens_of_directory hk] at hopens
      cases hopens
    have hregular := hwf.regular (Nat.le_refl _) (hwf.ne_nil hn)
    have hleaf : t.below e.path.components = [(e.path.components, n)] := by
      apply Tree.below_of_leaf hn
      intro way hway
      exact hregular.eq_none_below (by rw [PathMap.branch_nil, hn]) hkind hway
    rw [unseen_of_none hpending', unlisted_of_none hpending', hleaf, List.singleton_append,
      List.filter_cons_of_neg (by simp [hopens])]
    exact ⟨rfl, rfl⟩

end Walker

namespace Memory

open Walker

variable {m m' : Memory} {t : Traversal} {entries : List Entry} {w : Walker}
  {unseen unlisted : List (Place × Node)}

/-- How far a walk through a file system has come: the entries that it has yielded, the nodes it has
still to yield, and those it has still to list. -/
structure Visited (m : Memory) (t : Traversal) (entries : List Entry)
    (unseen unlisted : List (Place × Node)) (m' : Memory) : Prop where
  shown : ∀ e ∈ entries, ∃ dir, e ∈ m.nodes.entriesOf dir
  seen : entries.map (fun e => e.path.components) ++ unseen.map Prod.fst =
    (m.nodes.inside t.root.components).map Prod.fst
  listed : ∃ dirs : List Path, m'.calls = (dirs.map (Primitive.list, ·)).reverse ++ m.calls ∧
    dirs.map Path.components ++ unlisted.map Prod.fst =
      ((m.nodes.below t.root.components).filter fun e => t.opens e.2).map Prod.fst
  nodes : m'.nodes = m.nodes
  calm : m'.failures = []

/-- One more entry has been yielded. -/
theorem Visited.yield {x : Place × Node} {e : Entry} {dir : Path}
    (h : Visited m t entries (x :: unseen) unlisted m') (he : e ∈ m.nodes.entriesOf dir)
    (hplace : e.path.components = x.1) : Visited m t (entries ++ [e]) unseen unlisted m' where
  shown := by
    intro d hd
    rcases List.mem_append.mp hd with hd | hd
    · exact h.shown d hd
    · exact ⟨dir, List.mem_singleton.mp hd ▸ he⟩
  seen := by
    rw [← h.seen]
    simp [hplace]
  listed := h.listed
  nodes := h.nodes
  calm := h.calm

/-- One more directory has been listed. -/
theorem Visited.list {x : Place × Node} {dir : Path}
    (h : Visited m t entries unseen (x :: unlisted) m') (hplace : dir.components = x.1) :
    Visited m t entries unseen unlisted (m'.call (.list dir)).2 where
  shown := h.shown
  seen := h.seen
  listed := by
    obtain ⟨dirs, hcalls, hdirs⟩ := h.listed
    refine ⟨dirs ++ [dir], ?_, ?_⟩
    · rw [calls_call, hcalls]
      simp [Call.primitive, Call.path]
    · rw [← hdirs]
      simp [hplace]
  nodes := by
    rcases m'.nodes_call (.list dir) with heq | heq
    · exact heq.trans h.nodes
    · exact heq.trans h.nodes
  calm := (call_of_no_failures h.calm _).2

/-- A walk through everything that is under way. -/
structure Walking (m : Memory) (t : Traversal) (entries : List Entry) (w : Walker) (m' : Memory) :
    Prop where
  visited : Visited m t entries (w.unseen m.nodes) (w.unlisted m.nodes) m'
  traversal : w.traversal = t
  running : w.finished = false
  pending : ∀ dir, w.pending = some dir →
    ∃ n, m.nodes.lookup dir.components = some n ∧ t.opens n = true
  stack : ∀ e ∈ w.stack.flatten, ∃ dir, e ∈ m.nodes.entriesOf dir

/-- What a turn of a walk comes to. -/
def Advances (m : Memory) (t : Traversal) (entries : List Entry) (bound : Nat) :
    Turn × Walker → Memory → Prop
  | (.moved, w), m' => Walking m t entries w m' ∧ w.effort m.nodes < bound
  | (.yielded item, w), m' => ∃ e, item = .ok e ∧ Walking m t (entries ++ [e]) w m' ∧
      w.effort m.nodes < bound
  | (.ended, _), m' => Visited m t entries [] [] m'

/-! ### One step -/

section Step

variable {listener : Listener} (hwf : m.nodes.WellFormed) (hwhole : t.Whole)

include hwf in
theorem ensures_descend {dir : Path} (h : Walking m t entries w m') (hdir : w.pending = some dir) :
    Program.Ensures (answers listener) (w.descend dir) m'
      (Advances m t entries (w.effort m.nodes)) := by
  obtain ⟨n, hn, hopens⟩ := h.pending dir hdir
  have hkind : n.kind ≠ .file := by
    intro hk
    simp [Traversal.opens, Node.isDirectoryLike, hk] at hopens
  have hlisting : (m'.call (.list dir)).1 =
      .ok ((m.nodes.children dir).map fun e => e.2.child e.1) := by
    rw [result_of_no_failures h.visited.calm, h.visited.nodes]
    exact Tree.listing_eq_ok.mpr ⟨n, hn, hkind, rfl⟩
  let w' : Walker := { w with pending := none, stack := m.nodes.entriesOf dir :: w.stack }
  obtain ⟨hunseen, hunlisted⟩ : w.unseen m.nodes = w'.unseen m.nodes ∧
      w.unlisted m.nodes = (dir.components, n) :: w'.unlisted m.nodes :=
    ahead_listed hwf hdir hn (h.traversal ▸ hopens)
  unfold descend
  rw [Program.ensures_bind, ensures_call, hlisting]
  dsimp only
  rw [Tree.entriesIn_children hwf (hwf.ne_nil hn)]
  show Walking m t entries w' _ ∧ w'.effort m.nodes < w.effort m.nodes
  constructor
  · have hvisited := h.visited
    rw [hunseen, hunlisted] at hvisited
    refine ⟨hvisited.list rfl, h.traversal, h.running, by simp [w'], ?_⟩
    intro e he
    rcases List.mem_append.mp he with he | he
    · exact ⟨dir, he⟩
    · exact h.stack e he
  · have hlength : w'.stack.length = w.stack.length + 1 := rfl
    have hcount : (w.unlisted m.nodes).length = (w'.unlisted m.nodes).length + 1 := by
      rw [hunlisted, List.length_cons]
    rw [effort, effort, hunseen, hlength, hcount]
    omega

/-- A listing that is used up is put away. -/
theorem advances_usedUp {rest : List (List Entry)} (h : Walking m t entries w m')
    (hstack : w.stack = [] :: rest) :
    Advances m t entries (w.effort m.nodes) (.moved, { w with stack := rest }) m' := by
  let w' : Walker := { w with stack := rest }
  have hstacked : w'.stacked m.nodes = w.stacked m.nodes := by
    rw [stacked_cons hstack]
    rfl
  have hunseen : w'.unseen m.nodes = w.unseen m.nodes := by
    rw [unseen, hstacked]
    rfl
  have hunlisted : w'.unlisted m.nodes = w.unlisted m.nodes := by
    rw [unlisted, hstacked]
    rfl
  show Walking m t entries w' m' ∧ w'.effort m.nodes < w.effort m.nodes
  constructor
  · refine ⟨?_, h.traversal, h.running, h.pending, ?_⟩
    · rw [hunseen, hunlisted]
      exact h.visited
    · intro e he
      exact h.stack e (by rw [hstack]; exact he)
  · have hlength : w.stack.length = w'.stack.length + 1 := by rw [hstack]; rfl
    rw [effort, effort, hunseen, hunlisted, hlength]
    omega

include hwf hwhole in
/-- The next entry on the stack is yielded. -/
theorem advances_entry {e : Entry} {batch : List Entry} {rest : List (List Entry)}
    (h : Walking m t entries w m') (hpending : w.pending = none)
    (hstack : w.stack = (e :: batch) :: rest) :
    Advances m t entries (w.effort m.nodes)
      (if w.traversal.yields e then .yielded (.ok e) else .moved, { w with
        stack := batch :: rest
        pending := if w.traversal.enters e then some e.path else none }) m' := by
  obtain ⟨dir, he⟩ := h.stack e (by simp [hstack])
  obtain ⟨b, n, hname, -, htext, hn, hdescribes⟩ := Tree.exists_of_mem_entriesOf he
  have hyields : w.traversal.yields e = true := by
    rw [h.traversal]
    exact hwhole.yields hname htext
  have henters : w.traversal.enters e = w.traversal.opens n := by
    rw [h.traversal]
    exact hwhole.enters hdescribes
  rw [if_pos hyields, henters]
  let w' : Walker := { w with
    stack := batch :: rest
    pending := if w.traversal.opens n then some e.path else none }
  obtain ⟨hunseen, hunlisted⟩ : w.unseen m.nodes = (e.path.components, n) :: w'.unseen m.nodes ∧
      w.unlisted m.nodes = w'.unlisted m.nodes := ahead_taken hwf hpending hstack hn
  refine ⟨e, rfl, ?_, ?_⟩
  · have hvisited := h.visited
    rw [hunseen, hunlisted] at hvisited
    refine ⟨hvisited.yield he rfl, h.traversal, h.running, ?_, ?_⟩
    · intro dir hdir
      obtain ⟨hopens, rfl⟩ : w.traversal.opens n = true ∧ e.path = dir := by simpa using hdir
      exact ⟨n, hn, h.traversal ▸ hopens⟩
    · intro d hd
      apply h.stack d
      rw [hstack]
      exact List.mem_cons_of_mem _ hd
  · show w'.effort m.nodes < w.effort m.nodes
    have hlength : w.stack.length = w'.stack.length := by rw [hstack]; rfl
    have hcount : (w.unseen m.nodes).length = (w'.unseen m.nodes).length + 1 := by
      rw [hunseen, List.length_cons]
    rw [effort, effort, hunlisted, hlength, hcount]
    omega

include hwf hwhole in
theorem advances_takeEntry (h : Walking m t entries w m') (hpending : w.pending = none) :
    Advances m t entries (w.effort m.nodes) w.takeEntry m' := by
  unfold takeEntry
  split
  · next hstack =>
    have hstacked : w.stacked m.nodes = [] := by
      rw [stacked, hstack]
      rfl
    have hvisited := h.visited
    rw [unseen_of_none hpending, unlisted_of_none hpending, hstacked] at hvisited
    exact hvisited
  · next rest hstack => exact advances_usedUp h hstack
  · next e batch rest hstack => exact advances_entry hwf hwhole h hpending hstack

include hwf hwhole in
theorem ensures_step (h : Walking m t entries w m') :
    Program.Ensures (answers listener) w.step m' (Advances m t entries (w.effort m.nodes)) := by
  unfold step
  rw [h.running, if_neg (by simp)]
  cases hpending : w.pending with
  | some dir => exact ensures_descend hwf h hpending
  | none => exact advances_takeEntry hwf hwhole h hpending

end Step

/-! ### Whole walks -/

theorem Advances.mono {bound bound' : Nat} {r : Turn × Walker}
    (h : Advances m t entries bound r m') (hbound : bound ≤ bound') :
    Advances m t entries bound' r m' := by
  obtain ⟨turn, w⟩ := r
  cases turn with
  | moved => exact ⟨h.1, Nat.lt_of_lt_of_le h.2 hbound⟩
  | yielded item =>
    obtain ⟨e, he, hwalking, hlt⟩ := h
    exact ⟨e, he, hwalking, Nat.lt_of_lt_of_le hlt hbound⟩
  | ended => exact h

section Walk

variable {listener : Listener} (hwf : m.nodes.WellFormed) (hwhole : t.Whole)

include hwf hwhole

/-- With more steps than are to be made, a walk yields an entry or ends. -/
theorem ensures_next (budget : Nat) (h : Walking m t entries w m')
    (hbudget : w.effort m.nodes < budget) :
    Program.Ensures (answers listener) (next budget w) m' fun r m'' =>
      r.1 ≠ .moved ∧ Advances m t entries (w.effort m.nodes) r m'' := by
  induction budget generalizing w m' with
  | zero => omega
  | succ budget ih =>
    unfold next
    rw [Program.ensures_bind]
    apply (ensures_step hwf hwhole h).mono
    rintro ⟨turn, w'⟩ m'' hturn
    cases turn with
    | moved =>
      obtain ⟨hwalking, hlt⟩ := hturn
      apply (ih hwalking (by omega)).mono
      intro r m₃ hr
      exact ⟨hr.1, hr.2.mono (Nat.le_of_lt hlt)⟩
    | yielded item => exact ⟨nofun, hturn⟩
    | ended => exact ⟨nofun, hturn⟩

/-- The entries that are still ahead are yielded one after another, and then the walk ends. -/
theorem ensures_collect (budget rounds : Nat) (h : Walking m t entries w m')
    (hbudget : w.effort m.nodes < budget)
    (hrounds : (m.nodes.inside t.root.components).length < entries.length + rounds) :
    Program.Ensures (answers listener) (w.collect budget none rounds) m' fun c m'' =>
      c.last = .ended ∧ ∃ more, c.items = more.map .ok ∧
        Visited m t (entries ++ more) [] [] m'' := by
  induction rounds generalizing entries w m' with
  | zero =>
    have hseen := congrArg List.length h.visited.seen
    simp only [List.length_append, List.length_map] at hseen
    omega
  | succ rounds ih =>
    unfold collect
    rw [Program.ensures_bind]
    apply (ensures_next hwf hwhole budget h hbudget).mono
    rintro ⟨turn, w'⟩ m'' ⟨hturn, hadvances⟩
    cases turn with
    | moved => exact (hturn rfl).elim
    | ended => exact ⟨rfl, [], rfl, by rw [List.append_nil]; exact hadvances⟩
    | yielded item =>
      obtain ⟨e, rfl, hwalking, hlt⟩ := hadvances
      dsimp only
      rw [Program.ensures_bind]
      apply (ih hwalking (by omega) (by simp; omega)).mono
      rintro c m₃ ⟨hlast, more, hitems, hvisited⟩
      refine ⟨hlast, e :: more, ?_, ?_⟩
      · exact congrArg (Except.ok e :: ·) hitems
      · rw [List.append_cons]
        exact hvisited

end Walk

/-- A walk begins at the root as it is given. -/
theorem ensures_openWalk {listener : Listener} {Q : Walker → Memory → Prop} :
    Program.Ensures (answers listener) (openWalk t) m Q ↔ Q (Walker.start t) m := by
  constructor
  · intro h
    exact h _ _ rfl _ _ rfl
  · intro h root m₁ hresolve _ m₂ hnote
    obtain ⟨rfl, rfl⟩ := Prod.mk.inj hresolve
    obtain ⟨-, rfl⟩ := Prod.mk.inj hnote
    exact h

/-- At the start everything is ahead. -/
theorem walking_start (hcalm : m.failures = []) (hroot : m.nodes.IsDirectoryAt t.root.components) :
    Walking m t [] ⟨t, some t.root, [], false⟩ m := by
  obtain ⟨n, hn, hkind⟩ := hroot
  have hstacked : stacked ⟨t, some t.root, [], false⟩ m.nodes = [] := rfl
  refine ⟨⟨by simp, ?_, ⟨[], rfl, ?_⟩, rfl, hcalm⟩, rfl, rfl, ?_, by simp⟩
  · rw [unseen_of_pending rfl, hstacked, List.append_nil]
    rfl
  · rw [unlisted_of_pending rfl, hstacked, List.append_nil]
    rfl
  · intro dir hdir
    obtain rfl := Option.some.inj hdir
    exact ⟨n, hn, Traversal.opens_of_directory hkind⟩

theorem effort_start (hroot : m.nodes.IsDirectoryAt t.root.components) :
    effort ⟨t, some t.root, [], false⟩ m.nodes < 3 * (m.nodes.below t.root.components).length := by
  obtain ⟨n, hn, -⟩ := hroot
  have hbelow : (m.nodes.below t.root.components).length =
      (m.nodes.inside t.root.components).length + 1 := by
    rw [Tree.below_eq_inside hn, List.length_cons]
  have hstacked : stacked ⟨t, some t.root, [], false⟩ m.nodes = [] := rfl
  have hunlisted : (unlisted ⟨t, some t.root, [], false⟩ m.nodes).length ≤
      (m.nodes.below t.root.components).length := by
    rw [unlisted_of_pending rfl, hstacked, List.append_nil]
    exact List.length_filter_le ..
  rw [effort, unseen_of_pending rfl, hstacked, List.append_nil, List.length_nil]
  omega

/-- Each place that was listed once more counts once more. -/
theorem callCount_of_listed {dirs : List Path}
    (hcalls : m'.calls = (dirs.map (Primitive.list, ·)).reverse ++ m.calls) (path : Path) :
    m'.callCount .list path =
      (dirs.map Path.components).count path.components + m.callCount .list path := by
  rw [callCount, hcalls, List.countP_append, List.countP_reverse, List.countP_map,
    List.count_eq_countP, List.countP_map]
  rfl

/-- What a walk through everything below a root does: it ends, and yields the entries of all nodes
below the root in path order, a directory before what is below it. Each directory is listed once,
and nothing is changed. -/
structure WalksThrough (m : Memory) (root : Place) (entries : List Entry) (c : Walker.Collected)
    (m' : Memory) : Prop where
  ended : c.last = .ended
  items : c.items = entries.map .ok
  shown : ∀ e ∈ entries, ∃ dir, e ∈ m.nodes.entriesOf dir
  places : entries.map (fun e => e.path.components) = (m.nodes.inside root).map Prod.fst
  ordered : entries.Pairwise fun d e => compare d.path.components e.path.components = .lt ∧
    ¬e.path.components <+: d.path.components
  listed : ∀ path : Path, root <+: path.components → m.nodes.IsDirectoryAt path.components →
    m'.callCount .list path = m.callCount .list path + 1
  nodes : m'.nodes = m.nodes

/-- When nothing is ahead any more, everything has been yielded and listed. -/
theorem walksThrough_of_visited {c : Walker.Collected} (h : Visited m t entries [] [] m')
    (hended : c.last = .ended) (hitems : c.items = entries.map .ok) :
    WalksThrough m t.root.components entries c m' where
  ended := hended
  items := hitems
  shown := h.shown
  places := by
    rw [← h.seen, List.map_nil, List.append_nil]
  ordered := by
    have hplaces : entries.map (fun e => e.path.components) =
        (m.nodes.inside t.root.components).map Prod.fst := by
      rw [← h.seen, List.map_nil, List.append_nil]
    have hsorted : (entries.map fun e => e.path.components).Pairwise
        fun a b => compare a b = .lt := by
      rw [hplaces, List.pairwise_map]
      exact m.nodes.inside_sorted _
    apply (List.pairwise_map.mp hsorted).imp
    intro d e hlt
    exact ⟨hlt, not_prefix_of_compare_lt hlt⟩
  listed := by
    intro path ⟨way, hway⟩ ⟨n, hn, hkind⟩
    obtain ⟨dirs, hcalls, hdirs⟩ := h.listed
    rw [List.map_nil, List.append_nil] at hdirs
    have hnodup : (dirs.map Path.components).Nodup := by
      rw [hdirs, List.Nodup, List.pairwise_map]
      apply ((m.nodes.below_sorted t.root.components).filter _).imp
      intro a b hlt heq
      rw [heq] at hlt
      simp at hlt
    have hmem : path.components ∈ dirs.map Path.components := by
      rw [hdirs, List.mem_map]
      refine ⟨(path.components, n), List.mem_filter.mpr ⟨?_, ?_⟩, rfl⟩
      · exact Tree.mem_below.mpr ⟨way, hway.symm, hway ▸ hn⟩
      · exact Traversal.opens_of_directory hkind
    rw [callCount_of_listed hcalls, hnodup.count, if_pos hmem, Nat.add_comm]
  nodes := h.nodes

/-- Where no failures are scripted, a recursive walk for files and folders of any name, through
links or not, ends after having gone through everything below its root. Three steps for each node
suffice for it. -/
theorem walk_goes_through (m : Memory) (listener : Listener) (t : Traversal) (budget rounds : Nat)
    (hwf : m.nodes.WellFormed) (hcalm : m.failures = [])
    (hroot : m.nodes.IsDirectoryAt t.root.components) (hrecursive : t.recursive = true)
    (hkinds : t.includeFiles = t.includeFolders) (hpattern : t.pattern = "*")
    (hbudget : 3 * (m.nodes.below t.root.components).length ≤ budget)
    (hrounds : (m.nodes.below t.root.components).length ≤ rounds) :
    let run := Program.runRecorded (fileSystem.handler listener)
      (openWalk t >>= fun w => w.collect budget none rounds) m
    ∃ entries, WalksThrough m t.root.components entries run.1 run.2.1 := by
  have hsame : t.withKinds.root = t.root := by
    unfold Traversal.withKinds
    split <;> rfl
  have hwhole := Traversal.whole_withKinds hrecursive hkinds hpattern
  rw [← hsame] at hroot hbudget hrounds ⊢
  apply Program.Ensures.runRecorded (Q := fun c m' =>
    ∃ entries, WalksThrough m t.withKinds.root.components entries c m')
  rw [Program.ensures_bind, ensures_openWalk]
  have hlength : (m.nodes.inside t.withKinds.root.components).length <
      (m.nodes.below t.withKinds.root.components).length := by
    obtain ⟨n, hn, -⟩ := hroot
    rw [Tree.below_eq_inside hn, List.length_cons]
    omega
  have hstart : Walker.start t = ⟨t.withKinds, some t.withKinds.root, [], false⟩ := by
    rw [hsame]
    rfl
  rw [hstart]
  apply (ensures_collect hwf hwhole budget rounds (walking_start hcalm hroot)
    (Nat.lt_of_lt_of_le (effort_start hroot) hbudget) (by simp; omega)).mono
  rintro c m' ⟨hended, entries, hitems, hvisited⟩
  exact ⟨entries, walksThrough_of_visited hvisited hended hitems⟩

/-- A walk through a directory with a link to a directory that is not skipped. -/
theorem walk_goes_through_links :
    let m := ((new.addFile "/r/d/f" 3).addLink "/r/l" true).addFile "/r/z" 1
    let t : Traversal := { root := "/r", recursive := true, skipReparsePoints := false }
    let run := Program.runRecorded (fileSystem.handler {})
      (openWalk t >>= fun w => w.collect 15 none 5) m
    ∃ entries, WalksThrough m (Path.components "/r") entries run.1 run.2.1 :=
  walk_goes_through _ _ { root := "/r", recursive := true, skipReparsePoints := false } 15 5
    (by decide) rfl ⟨_, rfl, rfl⟩ rfl rfl rfl (by decide) (by decide)

end Memory

end TreeOps
