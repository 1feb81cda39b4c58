import TreeOps.Proofs.Memory.Nodes
import TreeOps.Proofs.Memory.Replies
import TreeOps.Proofs.Memory.Shape
import TreeOps.Proofs.Path.Topology
import TreeOps.Walk

/-!
# Listings and entries

What a listing of a directory yields as entries: one for each node directly below it that has a
name, in path order, with the bytes of the name in its path and their text as its name.
-/

namespace TreeOps

/-- What an entry tells about a node. -/
structure Entry.Describes (e : Entry) (n : Node) : Prop where
  isDirectory : e.isDirectory = n.isDirectoryLike
  isReparsePoint : e.isReparsePoint = n.isLink
  isMountPoint : e.isMountPoint = n.mounted
  attributes : e.attributes = n.shownAttributes

namespace Node

/-- A node as an entry of `dir` under a name. -/
def entryIn (n : Node) (dir : Path) (name : Bytes) : Entry where
  path := dir.child name
  name := Utf8.lossy name
  isDirectory := n.isDirectoryLike
  isReparsePoint := n.isLink
  isMountPoint := n.mounted
  attributes := n.shownAttributes
  size := if n.isDirectoryLike then 0 else n.size

theorem describes_entryIn (n : Node) (dir : Path) (name : Bytes) :
    (n.entryIn dir name).Describes n := ⟨rfl, rfl, rfl, rfl⟩

theorem entryIn_child (n : Node) (p dir : Path) :
    (n.child p).entryIn dir = n.entryIn dir (p.fileName.getD p.bytes) := by
  simp only [Child.entryIn, Child.isDirectory, child, contains_directory_shownAttributes, entryIn]

theorem describes_entryAt (n : Node) (path : Path) : ((n.child path).entryAt path).Describes n := by
  rw [Child.entryAt, entryIn_child]
  exact ⟨rfl, rfl, rfl, rfl⟩

theorem isDirectoryLike_iff {n : Node} :
    n.isDirectoryLike = true ↔ n.kind = .directory ∨ n.kind = .link true := by
  unfold isDirectoryLike
  cases n.kind with
  | directory => simp
  | file => simp
  | link toDirectory => cases toDirectory <;> simp

theorem isDirectoryLike_of_directory {n : Node} (h : n.kind = .directory) :
    n.isDirectoryLike = true := by
  simp [isDirectoryLike, h]

theorem isLink_of_directory {n : Node} (h : n.kind = .directory) : n.isLink = false := by
  simp [isLink, h]

end Node

namespace Tree

variable {t : Tree} {dir : Path}

theorem listing_eq_ok {children : List Child} :
    t.listing dir = .ok children ↔ ∃ n, t.lookup dir.components = some n ∧ n.kind ≠ .file ∧
      ((t.children dir).map fun e => e.2.child e.1) = children := by
  unfold listing
  cases hl : t.lookup dir.components with
  | none => simp [node_eq_error hl, bind, Except.bind]
  | some n =>
    rw [node_eq_ok.mpr hl]
    by_cases hk : n.kind = .file
    · simp [hk, bind, Except.bind, throw, throwThe, MonadExceptOf.throw]
    · simp [hk, bind, Except.bind, pure, Except.pure]

theorem entry_eq_ok {e : Entry} : t.entry dir = .ok e ↔
    ∃ n, t.lookup dir.components = some n ∧ (n.child dir).entryAt dir = e := by
  unfold entry
  cases hl : t.lookup dir.components with
  | none => simp [node_eq_error hl, bind, Except.bind]
  | some n =>
    rw [node_eq_ok.mpr hl]
    simp [bind, Except.bind, pure, Except.pure]

/-- A query fails only for what is missing. -/
theorem entry_eq_error {e : NativeError} : t.entry dir = .error e ↔
    t.lookup dir.components = none ∧ (NativeCode.pathNotFound : NativeError) = e := by
  unfold entry
  cases hl : t.lookup dir.components with
  | none => simp [node_eq_error hl, bind, Except.bind]
  | some n =>
    rw [node_eq_ok.mpr hl]
    simp [bind, Except.bind, pure, Except.pure]

/-- The entries that a directory is listed with. -/
def entriesOf (t : Tree) (dir : Path) : List Entry :=
  (t.children dir).filterMap fun e => e.1.fileName.map (e.2.entryIn dir)

/-- What a listing shows of a child without a name is left out. -/
theorem dropped_of_fileName_eq_none {p : Path} {n : Node} {c : Component}
    (h : p.components = dir.components ++ [c]) (hname : p.fileName = none) :
    (n.child p).name.contains separator = true ∨ (n.child p).isDots = true := by
  have hbytes : (n.child p).name = p.bytes := by simp [Node.child, hname]
  rw [Child.isDots, hbytes]
  by_cases hsep : p.bytes.contains separator = true
  · exact .inl hsep
  · by_cases hdots : (p.bytes == dot || p.bytes == dotDot) = true
    · exact .inr hdots
    · simp only [Bool.or_eq_true, beq_iff_eq, not_or] at hdots
      have hnonempty : p.bytes ≠ [] := by
        intro hnil
        obtain rfl : p = ⟨[]⟩ := by cases p; simp_all
        simp [Path.components_mk_nil] at h
      have hisName : IsName p.bytes := ⟨hnonempty, hdots.1, hdots.2, by simpa using hsep⟩
      have hone : p.components = [] ++ [.name p.bytes] := by
        simpa [Path.child, Path.join, Path.components_mk_nil,
          Path.isAbsolute_of_lead_eq_none (Path.lead_of_isName hisName)]
          using Path.components_child ⟨[]⟩ hisName
      rw [Path.fileName_eq_some hone] at hname
      cases hname

/-- What a listing shows of a child with a name is kept. -/
theorem kept_of_fileName_eq_some {p : Path} {n : Node} {b : Bytes} (h : p.fileName = some b) :
    (n.child p).name.contains separator = false ∧ (n.child p).isDots = false ∧
      (n.child p).entryIn dir = n.entryIn dir b := by
  obtain ⟨base, hbase⟩ := Path.components_of_fileName h
  have hname : IsName b := Path.isName_of_mem_components (p := p) (by simp [hbase])
  have hbytes : (n.child p).name = b := by simp [Node.child, h]
  rw [Child.isDots, hbytes, Node.entryIn_child, h]
  refine ⟨?_, ?_, rfl⟩
  · simpa using hname.whole
  · simpa using ⟨hname.ne_dot, hname.ne_dotDot⟩

/-- The entries that an operation makes of a listing. -/
theorem entriesIn_eq (t : Tree) (dir : Path) :
    entriesIn dir (((t.children dir).map fun e => e.2.child e.1).filter fun c =>
      !c.name.contains separator) = t.entriesOf dir := by
  have hchildren : ∀ e ∈ t.children dir, ∃ c, e.1.components = dir.components ++ [c] :=
    fun e he => (PathMap.mem_children_iff.mp he).2.imp fun _ => And.right
  unfold entriesOf entriesIn
  generalize t.children dir = l at hchildren
  induction l with
  | nil => rfl
  | cons e l ih =>
    obtain ⟨c, hc⟩ := hchildren e (by simp)
    have ih := ih fun e he => hchildren e (List.mem_cons_of_mem _ he)
    rw [List.map_cons, List.filterMap_cons, ← ih]
    cases hname : e.1.fileName with
    | none =>
      rw [Option.map_none, List.filter_cons]
      split
      · next hsep =>
        have hdots : (e.2.child e.1).isDots = true :=
          (dropped_of_fileName_eq_none hc hname).resolve_left (by simpa using hsep)
        rw [List.filter_cons, if_neg (by simp [hdots])]
      · rfl
    | some b =>
      obtain ⟨hsep, hdots, hentry⟩ : _ ∧ _ ∧ (e.2.child e.1).entryIn dir = e.2.entryIn dir b :=
        kept_of_fileName_eq_some hname
      rw [Option.map_some, List.filter_cons, if_pos (by rw [hsep]; rfl), List.filter_cons,
        if_pos (by rw [hdots]; rfl), List.map_cons, hentry]

/-- In a well-formed tree every child has a name. -/
theorem entriesIn_children (hwf : t.WellFormed) (hne : dir.components ≠ []) :
    entriesIn dir ((t.children dir).map fun e => e.2.child e.1) = t.entriesOf dir := by
  rw [← entriesIn_eq, List.filter_eq_self.mpr]
  intro c hc
  obtain ⟨⟨p, n⟩, hmem, rfl⟩ := List.mem_map.mp hc
  obtain ⟨hentry, c, -, hcomponents⟩ := PathMap.mem_children_iff.mp hmem
  have hfound : t.branch dir.components [c] = some n := by
    rw [PathMap.branch, ← hcomponents]
    exact PathMap.lookup_of_mem hentry
  obtain ⟨b, rfl⟩ := (hwf.regular (Nat.le_refl _) hne).names [c] n hfound c (by simp)
  obtain ⟨hsep, -⟩ : _ ∧ _ ∧ (n.child p).entryIn dir = n.entryIn dir b :=
    kept_of_fileName_eq_some (Path.fileName_eq_some hcomponents)
  rw [hsep]
  rfl

theorem mem_entriesOf {e : Entry} : e ∈ t.entriesOf dir ↔
    ∃ b n, t.lookup (dir.components ++ [.name b]) = some n ∧ e = n.entryIn dir b := by
  rw [entriesOf, List.mem_filterMap]
  constructor
  · rintro ⟨⟨p, n⟩, hmem, he⟩
    obtain ⟨b, hb, rfl⟩ := Option.map_eq_some_iff.mp he
    obtain ⟨hentry, c, -, hc⟩ := PathMap.mem_children_iff.mp hmem
    obtain ⟨base, hbase⟩ := Path.components_of_fileName hb
    obtain ⟨rfl, hlast⟩ := List.append_inj' (hbase.symm.trans hc) rfl
    exact ⟨b, n, hbase ▸ PathMap.lookup_of_mem hentry, rfl⟩
  · rintro ⟨b, n, hlookup, rfl⟩
    obtain ⟨p, hentry, hp⟩ := PathMap.lookup_eq_some_iff.mp hlookup
    refine ⟨(p, n), PathMap.mem_children_iff.mpr ⟨hentry, _, by simp, hp⟩, ?_⟩
    rw [Path.fileName_eq_some hp]
    rfl

theorem isName_of_lookup {base : Place} {b : Bytes} {n : Node}
    (h : t.lookup (base ++ [.name b]) = some n) : IsName b := by
  obtain ⟨p, -, hp⟩ := PathMap.lookup_eq_some_iff.mp h
  exact Path.isName_of_mem_components (p := p) (by simp [hp])

/-- The way from a directory to the places of its entries. -/
theorem exists_of_mem_entriesOf {e : Entry} (h : e ∈ t.entriesOf dir) :
    ∃ b n, IsName b ∧ e.path.components = dir.components ++ [.name b] ∧ e.name = Utf8.lossy b ∧
      t.lookup e.path.components = some n ∧ e.Describes n := by
  obtain ⟨b, n, hlookup, rfl⟩ := mem_entriesOf.mp h
  have hname := isName_of_lookup hlookup
  have hpath : (n.entryIn dir b).path.components = dir.components ++ [.name b] :=
    Path.components_child dir hname
  exact ⟨b, n, hname, hpath, rfl, hpath ▸ hlookup, n.describes_entryIn dir b⟩

theorem prefix_of_mem_entriesOf {e : Entry} (h : e ∈ t.entriesOf dir) :
    dir.components <+: e.path.components := by
  obtain ⟨b, -, -, hpath, -⟩ := exists_of_mem_entriesOf h
  exact hpath ▸ List.prefix_append _ _

/-- Whatever a listing shows, its entries lead further down. -/
theorem deeper_of_mem_entriesIn {children : List Child} {e : Entry}
    (hlisted : t.listing dir = .ok children) (he : e ∈ entriesIn dir children) :
    dir.components.length < e.path.components.length := by
  obtain ⟨-, -, -, rfl⟩ := listing_eq_ok.mp hlisted
  obtain ⟨child, hchild, rfl⟩ := List.mem_map.mp he
  obtain ⟨⟨p, n⟩, hmem, rfl⟩ := List.mem_map.mp (List.mem_filter.mp hchild).1
  obtain ⟨-, c, -, hc⟩ := PathMap.mem_children_iff.mp hmem
  change _ < (dir.child (p.fileName.getD p.bytes)).components.length
  cases hname : p.fileName with
  | some b =>
    obtain ⟨base, hbase⟩ := Path.components_of_fileName hname
    rw [Option.getD_some, Path.components_child dir
      (Path.isName_of_mem_components (p := p) (by simp [hbase])), List.length_append]
    exact Nat.lt_succ_self _
  | none => exact Path.length_lt_join hc

theorem entriesOf_sorted (t : Tree) (dir : Path) :
    (t.entriesOf dir).Pairwise fun a b => a.path.before b.path := by
  rw [entriesOf, List.pairwise_filterMap]
  refine List.Pairwise.imp_of_mem ?_ (t.sorted.filter _)
  intro a b ha hb hab e he e' he'
  have place_eq {x : Path × Node} {e : Entry} (hx : x ∈ t.children dir)
      (he : e ∈ x.1.fileName.map (x.2.entryIn dir)) : e.path.components = x.1.components := by
    obtain ⟨name, hname, rfl⟩ := Option.map_eq_some_iff.mp he
    obtain ⟨-, c, -, hc⟩ := PathMap.mem_children_iff.mp hx
    obtain ⟨base, hbase⟩ := Path.components_of_fileName hname
    obtain ⟨rfl, -⟩ := List.append_inj' (hbase.symm.trans hc) rfl
    have hisName : IsName name := Path.isName_of_mem_components (p := x.1) (by simp [hbase])
    rw [hbase]
    exact Path.components_child dir hisName
  change compare e.path.components e'.path.components = .lt
  rw [place_eq ha he, place_eq hb he']
  exact hab

theorem entriesOf_distinct {before after : List Entry} {e : Entry}
    (h : t.entriesOf dir = before ++ e :: after) :
    (∀ d ∈ before, d.path.components ≠ e.path.components) ∧
      ∀ d ∈ after, d.path.components ≠ e.path.components := by
  have hsorted := t.entriesOf_sorted dir
  rw [h, List.pairwise_append, List.pairwise_cons] at hsorted
  obtain ⟨-, ⟨hafter, -⟩, hbefore⟩ := hsorted
  refine ⟨fun d hd => ?_, fun d hd => ?_⟩
  · exact PathMap.components_ne_of_before (hbefore d hd e (by simp))
  · exact (PathMap.components_ne_of_before (hafter d hd)).symm

/-- Entries of one directory lie apart. -/
theorem entriesOf_apart {before after : List Entry} {d e : Entry}
    (h : t.entriesOf dir = before ++ e :: after) (hd : d ∈ before) :
    Apart d.path.components e.path.components := by
  have hmem : d ∈ t.entriesOf dir := by simp [h, hd]
  have hmem' : e ∈ t.entriesOf dir := by simp [h]
  obtain ⟨b, -, -, hb, -⟩ := exists_of_mem_entriesOf hmem
  obtain ⟨b', -, -, hb', -⟩ := exists_of_mem_entriesOf hmem'
  rw [hb, hb']
  refine Apart.children ?_
  rintro rfl
  exact (entriesOf_distinct h).1 d hd (hb.trans hb'.symm)

/-- Whatever is below a directory is at or below one of its entries. -/
theorem exists_entry_above {bound : Nat} (hview : Regular (t.branch dir.components) bound)
    {way : Place} {n : Node} (h : t.lookup (dir.components ++ way) = some n) (hne : way ≠ []) :
    ∃ e ∈ t.entriesOf dir, e.path.components <+: dir.components ++ way := by
  cases way with
  | nil => exact absurd rfl hne
  | cons c way =>
    obtain ⟨b, rfl⟩ := hview.names (c :: way) n h c (by simp)
    obtain ⟨d, hd⟩ : ∃ d, t.lookup (dir.components ++ [.name b]) = some d := by
      by_cases hway : way = []
      · exact ⟨n, hway ▸ h⟩
      · obtain ⟨d, hd, -⟩ := hview.directory_above [.name b] h hway
        exact ⟨d, hd⟩
    refine ⟨_, mem_entriesOf.mpr ⟨b, d, hd, rfl⟩, ?_⟩
    have hpath : (d.entryIn dir b).path.components = dir.components ++ [.name b] :=
      Path.components_child dir (isName_of_lookup hd)
    rw [hpath, List.prefix_append_right_inj]
    exact List.prefix_append [.name b] way

end Tree

/-! ### Requests for entries -/

section Rules

variable {failing canceling : Prop} {s : Scene} {err : Halt → Scene → Prop}
  {tx : Option Transaction}

theorem Memory.ensures_listEntries {dir : Path}
    {ok : Except NativeCode (List Entry) → Scene → Prop} :
    Operation.Ensures (Replies failing canceling) (listEntries tx dir) s ok err ↔
      (∀ n, s.nodes.lookup dir.components = some n → n.kind ≠ .file →
        ok (.ok (s.nodes.entriesOf dir)) s) ∧
      ∀ e, failing ∨ s.nodes.listing dir = .error e → ok (.error e.code) s := by
  unfold listEntries
  rw [Operation.ensures_bind, ensures_attempt]
  refine and_congr ⟨fun h n hn hk => ?_, fun h children hc => ?_⟩ ?_
  · have hok := h _ (Tree.listing_eq_ok.mpr ⟨n, hn, hk, rfl⟩)
    simp only [Operation.ensures_pure, Tree.entriesIn_eq] at hok
    exact hok
  · obtain ⟨n, hn, hk, rfl⟩ := Tree.listing_eq_ok.mp hc
    simp only [Operation.ensures_pure, Tree.entriesIn_eq]
    exact h n hn hk
  · refine forall₂_congr fun e _ => ?_
    simp only [Operation.ensures_bind, ensures_note, Operation.ensures_pure]

theorem Memory.ensures_childEntries {dir : Path} {ok : List Entry → Scene → Prop} :
    Operation.Ensures (Replies failing canceling) (childEntries tx dir) s ok err ↔
      (∀ n, s.nodes.lookup dir.components = some n → n.kind ≠ .file →
        ok (s.nodes.entriesOf dir) s) ∧
      ∀ e, failing ∨ s.nodes.listing dir = .error e →
        err (.failed (.listingFailed dir e.code)) s := by
  unfold childEntries
  rw [Operation.ensures_bind, ensures_listEntries]
  exact Iff.rfl

end Rules

end TreeOps
