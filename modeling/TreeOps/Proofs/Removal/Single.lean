import TreeOps.Proofs.Removal.Confined
import TreeOps.Proofs.Removal.Passing

/-!
# What a refused delete leaves behind

A delete that is not recursive refuses a directory with entries. It finds them when it removes the
directory, and by then the directory has been unmounted and freed of its read-only attribute if that
is allowed. So a delete that fails without scripted failures leaves all nodes as they are but for
these two marks at its root: nothing changes exactly if the root bore neither mark that is cleared.
-/

namespace TreeOps

/-- A node after what a delete does before it removes the node: a directory or a link to one is
unmounted, and its read-only attribute is cleared if that is allowed. -/
def Node.readied (ignoreReadOnly : Bool) (n : Node) : Node :=
  if n.isDirectoryLike then
    if ignoreReadOnly && n.attributes.isReadOnly then
      { n with mounted := false }.withAttributes (n.shownAttributes.without .readOnly)
    else { n with mounted := false }
  else n

namespace Node

variable {n : Node} {ignoreReadOnly : Bool}

theorem readied_of_not_directoryLike (h : n.isDirectoryLike = false) :
    n.readied ignoreReadOnly = n := by
  rw [readied, h, if_neg (by simp)]

theorem readied_of_cleared (h : n.isDirectoryLike = true) (hignore : ignoreReadOnly = true)
    (hreadOnly : n.attributes.isReadOnly = true) :
    n.readied ignoreReadOnly =
      { n with mounted := false }.withAttributes (n.shownAttributes.without .readOnly) := by
  rw [readied, if_pos h, if_pos (by simp [hignore, hreadOnly])]

theorem readied_of_kept (h : n.isDirectoryLike = true)
    (hkept : ignoreReadOnly = true → n.attributes.isReadOnly = false) :
    n.readied ignoreReadOnly = { n with mounted := false } := by
  rw [readied, if_pos h, if_neg]
  intro hboth
  rw [Bool.and_eq_true] at hboth
  rw [hkept hboth.1] at hboth
  exact nomatch hboth.2

theorem readied_directoryLike (ignoreReadOnly : Bool) (n : Node) (h : n.isDirectoryLike = true) :
    (n.readied ignoreReadOnly).isDirectoryLike = true ∧
      (n.readied ignoreReadOnly).mounted = false := by
  rw [readied, if_pos h]
  split
  · exact ⟨h, rfl⟩
  · exact ⟨h, rfl⟩

/-- What a delete does to a node first changes it exactly if there is a mark to clear. -/
theorem readied_eq_self_iff :
    n.readied ignoreReadOnly = n ↔ (n.isDirectoryLike = true →
      n.mounted = false ∧ (ignoreReadOnly = true → n.attributes.isReadOnly = false)) := by
  by_cases hlike : n.isDirectoryLike = true
  · by_cases hkept : ignoreReadOnly = true → n.attributes.isReadOnly = false
    · rw [readied_of_kept hlike hkept]
      constructor
      · intro h _
        exact ⟨(congrArg mounted h).symm, hkept⟩
      · intro h
        obtain ⟨hmounted, -⟩ := h hlike
        cases n
        simp_all
    · obtain ⟨hignore, hreadOnly⟩ := Classical.not_imp.mp hkept
      rw [Bool.not_eq_false] at hreadOnly
      constructor
      · intro h
        have hcleared := Attributes.isReadOnly_neutral_without n.shownAttributes
        rw [readied_of_cleared hlike hignore hreadOnly] at h
        rw [show (n.shownAttributes.without .readOnly).neutral = n.attributes from
          congrArg attributes h, hreadOnly] at hcleared
        cases hcleared
      · intro h
        exact absurd (h hlike).2 hkept
  · rw [readied_of_not_directoryLike (by simpa using hlike)]
    simp [hlike]

end Node

/-- What is left of a tree when the node at a place has been readied for its removal. -/
def Tree.Readied (t t' : Tree) (path : Path) (ignoreReadOnly : Bool) : Prop :=
  ∀ place, t'.lookup place =
    if path.components = place then (t.lookup place).map (Node.readied ignoreReadOnly)
    else t.lookup place

namespace Tree.Readied

variable {t t' : Tree} {path : Path} {n : Node} {ignoreReadOnly : Bool}

/-- Nothing is left changed exactly if there was no mark to clear. -/
theorem lookup_eq_iff (h : t.Readied t' path ignoreReadOnly) :
    t'.lookup = t.lookup ↔
      ∀ n, t.lookup path.components = some n → n.readied ignoreReadOnly = n := by
  have hself := h path.components
  rw [if_pos rfl] at hself
  constructor
  · intro heq n hn
    rw [heq, hn, Option.map_some] at hself
    exact (Option.some.inj hself).symm
  · intro hready
    funext place
    rw [h place]
    split
    · next heq =>
      rw [← heq]
      cases hn : t.lookup path.components with
      | none => rfl
      | some n => rw [Option.map_some, hready n hn]
    · rfl

theorem self (h : ∀ n, t.lookup path.components = some n → n.readied ignoreReadOnly = n) :
    t.Readied t path ignoreReadOnly := by
  intro place
  split
  · next heq =>
    rw [← heq]
    cases hn : t.lookup path.components with
    | none => rfl
    | some n => rw [Option.map_some, h n hn]
  · rfl

end Tree.Readied

/-- One tree is another with a certain node at a path. -/
def Tree.With (t t' : Tree) (path : Path) (n : Node) : Prop :=
  ∀ place, t'.lookup place = if path.components = place then some n else t.lookup place

namespace Tree.With

variable {t t' : Tree} {path : Path} {n : Node}

theorem self (hn : t.lookup path.components = some n) : t.With t path n := by
  intro place
  split
  · next heq => rw [← heq, hn]
  · rfl

theorem node (h : t.With t' path n) : t'.lookup path.components = some n :=
  (h path.components).trans (if_pos rfl)

theorem modify (h : t.With t' path n) (f : Node → Node) :
    t.With (t'.modify path f) path (f n) := by
  intro place
  rw [PathMap.lookup_modify, h place]
  split <;> rfl

theorem readied {ignoreReadOnly : Bool} (hn : t.lookup path.components = some n)
    (h : t.With t' path (n.readied ignoreReadOnly)) : t.Readied t' path ignoreReadOnly := by
  intro place
  rw [h place]
  split
  · next heq => rw [← heq, hn, Option.map_some]
  · rfl

end Tree.With

/-- A directory that is not mounted, or a link to a directory, is kept only by what is in it. -/
theorem Tree.withoutDirectory_error {t : Tree} {path : Path} {n : Node} {e : NativeError}
    (hn : t.lookup path.components = some n) (hlike : n.isDirectoryLike = true)
    (hmounted : n.mounted = false) (h : t.withoutDirectory path = .error e) :
    e.code = .directoryNotEmpty := by
  have hok (hfree : n.kind = .directory → t.hasChildren path = false) : False := by
    have hgoes := withoutDirectory_eq_ok.mpr ⟨n, hn, hlike, fun hk => ⟨hfree hk, hmounted⟩, rfl⟩
    cases h.symm.trans hgoes
  by_cases hk : n.kind = .directory
  · cases hchildren : t.hasChildren path with
    | false => exact (hok fun _ => hchildren).elim
    | true =>
      rw [withoutDirectory_of_hasChildren hn hk hchildren] at h
      rw [← Except.error.inj h]
  · exact (hok fun hdir => absurd hdir hk).elim

namespace Memory

open Removal Operation

variable {canceling : Prop} {s : Scene} {path : Path} {n : Node} {opts : DeleteOptions}

/-- A directory that must be empty is attempted once, and nothing is changed if that fails. -/
theorem ensures_removeOnce {tx : Option Transaction} {context : Context} {attempt : Nat}
    (hrequire : context.requireEmpty = true) (hn : s.nodes.lookup path.components = some n)
    (hlike : n.isDirectoryLike = true) (hmounted : n.mounted = false) :
    Ensures (Replies False canceling) (removeOnce tx context path attempt) s
      (fun _ _ => True) (fun _ s' => s' = s) := by
  unfold removeOnce
  rw [Operation.ensures_bind, ensures_attempt]
  constructor
  · intro _ _
    exact ensures_note.mpr trivial
  · intro e he
    have herror := Tree.update_error (he.resolve_left id)
    have hfatal : classify e.code context = .fatal .directoryNotEmpty := by
      rw [Tree.withoutDirectory_error hn hlike hmounted herror]
      simp [classify, hrequire]
    dsimp only
    rw [hfatal]
    exact ensures_fail.mpr rfl

/-- What clears the read-only attribute readies the node, and so does what fails over it. -/
theorem ensures_releaseReadOnly {info : Entry} (hinfo : info.Describes n)
    (hlike : n.isDirectoryLike = true) {t : Tree}
    (h : t.With s.nodes path { n with mounted := false }) :
    Ensures (Replies False canceling) (releaseReadOnly opts path info) s
      (fun _ s' => t.With s'.nodes path (n.readied opts.ignoreReadOnly))
      (fun _ s' => t.With s'.nodes path (n.readied opts.ignoreReadOnly)) := by
  have hreadOnly : info.isReadOnly = n.attributes.isReadOnly := by
    rw [Entry.isReadOnly, hinfo.attributes, Node.isReadOnly_shownAttributes]
  unfold releaseReadOnly
  rw [hreadOnly]
  split
  · next hset =>
    split
    · next hignore =>
      have hcleared : Leaves canceling (clearReadOnly opts.transaction path info.attributes) s
          (· = s.nodes.modify path (Node.withAttributes · (info.attributes.without .readOnly))) :=
        leaves_clearReadOnly h.node
      apply hcleared.mono
      · rintro _ s' ⟨-, hnodes⟩
        rw [hnodes, Node.readied_of_cleared hlike hignore hset, hinfo.attributes]
        exact h.modify _
      · intro _ _ hno
        exact hno.elim
    · next hkept =>
      apply ensures_fail.mpr
      rw [Node.readied_of_kept hlike fun hignore => absurd hignore hkept]
      exact h
  · next hclear =>
    apply ensures_pure.mpr
    rw [Node.readied_of_kept hlike fun _ => by simpa using hclear]
    exact h

/-- What is done once nothing is mounted at the root any more. -/
theorem ensures_readyAndRemove {context : Context} {info : Entry} {t : Tree} {attempt : Nat}
    (hrequire : context.requireEmpty = true) (hinfo : info.Describes n)
    (hn : t.lookup path.components = some n) (hlike : n.isDirectoryLike = true)
    (h : t.With s.nodes path { n with mounted := false }) :
    Ensures (Replies False canceling)
      (releaseReadOnly opts path info >>= fun _ =>
        removeOnce opts.transaction context path attempt) s
      (fun _ _ => True) (fun _ s' => t.Readied s'.nodes path opts.ignoreReadOnly) := by
  rw [Operation.ensures_bind]
  apply (ensures_releaseReadOnly hinfo hlike h).mono
  · intro _ s' h'
    obtain ⟨hlike', hmounted⟩ := Node.readied_directoryLike opts.ignoreReadOnly n hlike
    apply (ensures_removeOnce hrequire h'.node hlike' hmounted).mono
    · intro _ _ _
      trivial
    · rintro _ s'' rfl
      exact h'.readied hn
  · intro _ s' h'
    exact h'.readied hn

/-- A delete that is not recursive and fails has only readied its root. -/
theorem ensures_deleteNode_single {levels : Nat} {continueIfMissing : Bool}
    (hrecursive : opts.recursive = false) (hrequire : opts.requireEmptyIfNotRecursive = true) :
    Ensures (Replies False canceling) (deleteNode opts (levels + 1) continueIfMissing path) s
      (fun _ _ => True) (fun _ s' => s.nodes.Readied s'.nodes path opts.ignoreReadOnly) := by
  rw [deleteNode_single hrecursive hrequire, Operation.ensures_bind, ensures_attempt]
  constructor
  · intro info hentry
    obtain ⟨n, hn, rfl⟩ := Tree.entry_eq_ok.mp hentry
    have hdescribes := n.describes_entryAt path
    generalize (n.child path).entryAt path = info at hdescribes
    dsimp only
    unfold removeReadied
    rw [hdescribes.isDirectory, hdescribes.isMountPoint]
    split
    · next hfile =>
      apply ensures_fail.mpr
      apply Tree.Readied.self
      intro n' hn'
      rw [← Option.some.inj (hn.symm.trans hn')]
      exact Node.readied_of_not_directoryLike (by simpa using hfile)
    · next hnot =>
      have hlike : n.isDirectoryLike = true := by simpa using hnot
      split
      · next hmount =>
        rw [Operation.ensures_bind]
        apply (leaves_unmounted hn hmount).mono
        · rintro _ s' ⟨-, hnodes⟩
          apply ensures_readyAndRemove rfl hdescribes hn hlike
          rw [hnodes]
          exact (Tree.With.self hn).modify _
        · intro _ _ hno
          exact hno.elim
      · next hmount =>
        apply ensures_readyAndRemove rfl hdescribes hn hlike
        have hsame : { n with mounted := false } = n := by
          cases n
          simp_all
        rw [hsame]
        exact .self hn
  · intro e he
    have hnone := (Tree.entry_eq_error.mp (he.resolve_left id)).1
    dsimp only
    split
    · exact ensures_note.mpr trivial
    · apply ensures_fail.mpr
      apply Tree.Readied.self
      intro n hn
      cases hnone.symm.trans hn

/-- A delete that is not recursive and fails, where no failure is scripted, has only unmounted its
root and cleared its read-only attribute. So it has changed nothing exactly if the root was no
directory and no link to one, or bore no mark that is cleared. -/
theorem failed_delete_readies_root (m : Memory) (listener : Listener) (levels : Nat)
    (opts : DeleteOptions) (root : Path) (hcalm : m.failures = [])
    (hlevels : m.nodes.levels ≤ levels) (hrecursive : opts.recursive = false)
    (hrequire : opts.requireEmptyIfNotRecursive = true)
    (hfailed : (m.runs listener (deleteDirectory levels opts root)).result ≠ .ok ()) :
    let after := (m.runs listener (deleteDirectory levels opts root)).memory.nodes
    m.nodes.Readied after root opts.ignoreReadOnly ∧
      (after.lookup = m.nodes.lookup ↔
        ∀ n, m.nodes.lookup root.components = some n → n.isDirectoryLike = true →
          n.mounted = false ∧ (opts.ignoreReadOnly = true → n.attributes.isReadOnly = false)) := by
  intro after
  obtain ⟨l, rfl⟩ : ∃ l, levels = l + 1 := ⟨levels - 1, by unfold Tree.levels at hlevels; omega⟩
  have hreadied : m.nodes.Readied after root opts.ignoreReadOnly := by
    have hensures : Ensures (Replies False True) (deleteResolved (l + 1) opts root) ⟨m.nodes, []⟩
        (fun _ _ => True) (fun _ s' => m.nodes.Readied s'.nodes root opts.ignoreReadOnly) :=
      ensures_deleteNode_single hrecursive hrequire
    have hends := ends_runs listener (.inr hcalm) (fun _ _ => trivial)
      (ensures_deleteDirectory.mpr hensures)
    cases hresult : (m.runs listener (deleteDirectory (l + 1) opts root)).result with
    | ok _ => exact absurd hresult hfailed
    | error halt =>
      rw [hresult] at hends
      exact hends
  refine ⟨hreadied, hreadied.lookup_eq_iff.trans ?_⟩
  simp only [Node.readied_eq_self_iff]

/-- The directory is read-only, and the delete may clear that. -/
theorem failed_delete_readies_root_cleared :
    let m := (new.addFile "/r/f" 3).setReadOnly "/r"
    let opts : DeleteOptions := { recursive := false, ignoreReadOnly := true }
    let run := m.runs {} (deleteDirectory m.levels opts "/r")
    run.result.isOk = false ∧ m.nodes.Readied run.memory.nodes "/r" true ∧
      (run.memory.nodes.lookup = m.nodes.lookup ↔
        ∀ n, m.nodes.lookup (Path.components "/r") = some n → n.isDirectoryLike = true →
          n.mounted = false ∧ (true = true → n.attributes.isReadOnly = false)) :=
  ⟨by decide +kernel, failed_delete_readies_root _ {} _
    { recursive := false, ignoreReadOnly := true } "/r" rfl (Nat.le_refl _) rfl rfl
    fun hok => absurd (congrArg Except.isOk hok) (by decide +kernel)⟩

/-- A mounted directory with entries is refused, and no longer mounted then. -/
theorem failed_delete_unmounts :
    let m := (new.addFile "/r/f" 3).mount "/r"
    let run := m.runs {} (deleteDirectory m.levels { recursive := false } "/r")
    m.nodes.WellFormed ∧ m.failures = [] ∧
      run.result.isOk = false ∧ m.nodes.isMounted "/r" = true ∧
      run.memory.nodes.isMounted "/r" = false :=
  ⟨by decide, rfl, by decide +kernel, by decide +kernel, by decide +kernel⟩

end Memory

end TreeOps
