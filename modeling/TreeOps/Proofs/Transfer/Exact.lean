import TreeOps.Proofs.Memory.Below
import TreeOps.Proofs.Transfer.Complete

/-!
# A copy without failures

If no call fails without a reason in the nodes and the listener never cancels, a copy to where
nothing is mirrors the source: it succeeds, the destination has the contents of the source,
everything else is as it was, and each node at and below the source is counted and reported once, in
path order. The copy writes into the tree that it lists from, but what it writes lies apart from the
source.
-/

namespace TreeOps

/-- The total size of some nodes. -/
def sizes : List (Place × Node) → Nat
  | [] => 0
  | e :: l => e.2.size.toNat + sizes l

theorem sizes_append (l l' : List (Place × Node)) : sizes (l ++ l') = sizes l + sizes l' := by
  induction l with
  | nil => rw [List.nil_append, sizes, Nat.zero_add]
  | cons e l ih => rw [List.cons_append, sizes, sizes, ih, Nat.add_assoc]

/-- The count after some nodes were copied. The counters wrap around where the nodes or their sizes
do not fit into 64 bits. -/
def Transfer.Tally.plus (t : Tally) (l : List (Place × Node)) : Tally :=
  { t with
    entries := t.entries + UInt64.ofNat l.length
    bytes := t.bytes + UInt64.ofNat (sizes l) }

theorem Transfer.Tally.plus_nil (t : Tally) : t.plus [] = t := by
  simp [plus, sizes]

theorem Transfer.Tally.plus_cons (t : Tally) (e : Place × Node) (l : List (Place × Node)) :
    t.plus (e :: l) = (Memory.counted t e.2.size).plus l := by
  simp [plus, sizes, Memory.counted, UInt64.ofNat_add, UInt64.add_assoc, UInt64.add_comm 1]

theorem Transfer.Tally.plus_append (t : Tally) (l l' : List (Place × Node)) :
    t.plus (l ++ l') = (t.plus l).plus l' := by
  simp [plus, sizes_append, UInt64.ofNat_add, UInt64.add_assoc]

/-- The places and the size that a record tells. -/
def Progress.told (r : Progress) : Place × Place × UInt64 :=
  (r.source.components, r.destination.components, r.entryBytes)

/-- What the records of a copy tell of some nodes. -/
def announced (source destination : Place) (l : List (Place × Node)) :
    List (Place × Place × UInt64) :=
  l.map fun e => (e.1, destination ++ e.1.drop source.length, e.2.size)

theorem announced_child {source destination : Place} {c : Component} {l : List (Place × Node)}
    (h : ∀ e ∈ l, source ++ [c] <+: e.1) :
    announced (source ++ [c]) (destination ++ [c]) l = announced source destination l := by
  refine List.map_congr_left fun e he => ?_
  obtain ⟨way, hway⟩ := h e he
  rw [← hway, List.drop_left, List.append_assoc, List.drop_left, List.append_assoc]

/-- What a copy has come to: the destination mirrors the source, and the nodes of the source have
been counted and reported. -/
structure Mirrored (s : Scene) (source destination : Place) (tally tally' : Transfer.Tally)
    (s' : Scene) : Prop where
  mirrored : ∀ way, (s'.nodes.lookup (destination ++ way)).map Node.content =
    (s.nodes.lookup (source ++ way)).map Node.content
  counted : tally' = tally.plus (s.nodes.below source)
  records : ∃ rs, s'.records = s.records ++ rs ∧
    rs.map Progress.told = announced source destination (s.nodes.below source)

/-- What a copy has done: everything that is not at or below the destination is as it was. -/
structure Copied (s : Scene) (source destination : Place) (tally tally' : Transfer.Tally)
    (s' : Scene) : Prop extends Mirrored s source destination tally tally' s' where
  elsewhere : Tree.AgreeOutside (destination <+: ·) s.nodes s'.nodes

theorem Mirrored.of_agree {s s₁ s' : Scene} {source destination : Place} {t t' : Transfer.Tally}
    (h : Mirrored s₁ source destination t t' s') (hrecords : s₁.records = s.records)
    (hsource : ∀ way, s₁.nodes.lookup (source ++ way) = s.nodes.lookup (source ++ way)) :
    Mirrored s source destination t t' s' where
  mirrored way := (h.mirrored way).trans (by rw [hsource])
  counted := by rw [h.counted, Tree.below_congr hsource]
  records := by
    obtain ⟨rs, hrs, htold⟩ := h.records
    exact ⟨rs, by rw [hrs, hrecords], by rw [htold, Tree.below_congr hsource]⟩

/-- A source that can be copied: a directory that nests less deeply than a bound and is apart from
the destination, with names in valid UTF-8. -/
structure Copyable (t : Tree) (source destination : Place) (bound : Nat) : Prop where
  regular : Regular (t.branch source) bound
  textual : Textual (t.branch source)
  directory : t.IsDirectoryAt source
  apart : Apart source destination

theorem Copyable.bound_pos {t : Tree} {source destination : Place} {bound : Nat}
    (h : Copyable t source destination bound) : 0 < bound := by
  obtain ⟨n, hn, -⟩ := h.directory
  exact h.regular.bound_pos (by rw [PathMap.branch_nil, hn])

theorem Copyable.of_agree {t t' : Tree} {source destination : Place} {bound : Nat}
    (h : Copyable t source destination bound)
    (hsource : ∀ way, t'.lookup (source ++ way) = t.lookup (source ++ way)) :
    Copyable t' source destination bound := by
  have heq : t'.branch source = t.branch source := funext hsource
  refine ⟨heq ▸ h.regular, heq ▸ h.textual, ?_, h.apart⟩
  obtain ⟨n, hn, hk⟩ := h.directory
  refine ⟨n, ?_, hk⟩
  rw [← PathMap.branch_nil, heq, PathMap.branch_nil, hn]

theorem Copyable.child {t : Tree} {source destination : Place} {bound : Nat} {b : Bytes}
    (h : Copyable t source destination (bound + 1))
    (hdir : t.IsDirectoryAt (source ++ [.name b])) :
    Copyable t (source ++ [.name b]) (destination ++ [.name b]) bound where
  regular := by
    have heq : t.branch (source ++ [.name b]) = fun way => t.branch source (.name b :: way) :=
      funext fun way => PathMap.branch_concat ..
    rw [heq]
    exact h.regular.below (.name b)
  textual := by
    have heq : t.branch (source ++ [.name b]) = fun way => t.branch source (.name b :: way) :=
      funext fun way => PathMap.branch_concat ..
    rw [heq]
    exact h.textual.below (.name b)
  directory := hdir
  apart := h.apart.append _ _

namespace Memory

open Transfer Operation

variable {tx : Option Transaction} {flags : CopyFlags} {s : Scene}

/-- A way to copy directories that nest less deeply than a bound. -/
def Copies (copy : Path → Path → Tally → Operation Tally) (bound : Nat) : Prop :=
  ∀ (s : Scene) (source destination : Path) (t : Tally),
    Copyable s.nodes source.components destination.components bound → t.canceled = false →
    (∃ base c, c ≠ .root ∧ destination.components = base ++ [c] ∧ s.nodes.IsDirectoryAt base) →
    (∀ way, s.nodes.lookup (destination.components ++ way) = none) →
    Ensures (Replies False False) (copy source destination t) s
      (fun t' s' => Copied s source.components destination.components t t' s') (fun _ _ => False)

/-! ### Single entries -/

theorem copied_leaf {n : Node} {source target : Path} {t : Tally} {kind : ProgressKind}
    (hn : s.nodes.lookup source.components = some n)
    (hnone : ∀ way, way ≠ [] → s.nodes.lookup (source.components ++ way) = none)
    (hvacant : ∀ way, s.nodes.lookup (target.components ++ way) = none) (volume : Nat) :
    Copied s source.components target.components t (counted t n.size)
      (reported
        { s with nodes := s.nodes.insert target { n with volume := volume, mounted := false } }
        t kind source target n.size) where
  elsewhere := (Tree.agreeOutside_insert s.nodes target _).mono fun place he =>
    he ▸ List.prefix_refl _
  mirrored way := by
    change ((s.nodes.insert target _).lookup _).map _ = _
    rw [PathMap.lookup_insert]
    by_cases hway : way = []
    · rw [hway, List.append_nil, List.append_nil, if_pos rfl, hn]
      rfl
    · rw [if_neg (by simpa using hway), hvacant, hnone way hway]
  counted := by
    rw [Tree.below_of_leaf hn hnone, Tally.plus_cons, Tally.plus_nil]
  records := by
    refine ⟨[_], rfl, ?_⟩
    rw [Tree.below_of_leaf hn hnone]
    simp [announced, Progress.told]

section Contents

variable {copyBelow : Path → Path → Tally → Operation Tally} {bound : Nat}
  (hcopy : Copies copyBelow bound) {source destination : Path}

include hcopy

theorem ensures_copyEntry_exact {e : Entry} {b : Bytes} {n : Node} {t : Tally}
    (hcopyable : Copyable s.nodes source.components destination.components (bound + 1))
    (hdir : s.nodes.IsDirectoryAt destination.components)
    (hvacant : ∀ way, s.nodes.lookup (destination.components ++ .name b :: way) = none)
    (hcanceled : t.canceled = false)
    (hpath : e.path.components = source.components ++ [.name b]) (hname : IsName b)
    (hentry : e.name = Utf8.lossy b) (hn : s.nodes.lookup e.path.components = some n)
    (he : e.Describes n) :
    Ensures (Replies False False) (copyEntry tx flags copyBelow destination t e) s
      (fun t' s' =>
        Copied s e.path.components (destination.components ++ [.name b]) t t' s')
      (fun _ _ => False) := by
  have hview : s.nodes.branch source.components [.name b] = some n := by
    rw [PathMap.branch, ← hpath, hn]
  have htext : Utf8.IsText b := hcopyable.textual _ n hview b (by simp)
  have htarget : (destination.child b).components = destination.components ++ [.name b] :=
    Path.components_child destination hname
  have hvacant' (way : Place) :
      s.nodes.lookup ((destination.child b).components ++ way) = none := by
    rw [htarget, List.append_assoc]
    exact hvacant way
  obtain ⟨d, hd, hdk⟩ := hdir
  rw [copyEntry_of_isText htext hentry he, if_neg (by simp [hcanceled])]
  split
  · next hk =>
    rw [← htarget]
    refine hcopy s e.path (destination.child b) t ?_ hcanceled
      ⟨_, .name b, by simp, htarget, d, hd, hdk⟩ hvacant'
    rw [htarget, hpath]
    exact hcopyable.child ⟨n, hpath ▸ hn, hk⟩
  · next hk =>
    refine (ensures_copyLeaf hn).mono ?_ ?_
    · rintro t' s' ⟨parent, -, rfl, hcounted⟩
      rw [hcounted.resolve_right fun h => h.1.elim, ← htarget]
      refine copied_leaf hn (fun way hway => ?_) hvacant' parent.volume
      rw [hpath, List.append_assoc]
      exact (hcopyable.regular.below (.name b)).eq_none_below hview hk hway
    · rintro halt s' ⟨-, hfailed⟩
      refine hfailed.resolve_left id ⟨_, _, Tree.withCopy_eq_ok.mpr ⟨n, hn, hk, fun _ => ?_, d,
        Tree.parentDirectory_eq_ok htarget (by simp) hd hdk, rfl, rfl⟩⟩
      have hnone := hvacant' []
      rwa [List.append_nil] at hnone

/-- What a loop over the entries of a directory has done: the entries that are done are mirrored,
counted and reported, and nothing else has changed. -/
structure Copying (s : Scene) (source destination : Place) (before : List Entry)
    (tally tally' : Tally) (s' : Scene) : Prop where
  elsewhere : Tree.AgreeOutside (fun place => destination <+: place ∧ place ≠ destination)
    s.nodes s'.nodes
  mirrored : ∀ way, way ≠ [] → (s'.nodes.lookup (destination ++ way)).map Node.content =
    if ∃ e ∈ before, e.path.components <+: source ++ way then
      (s.nodes.lookup (source ++ way)).map Node.content
    else none
  counted : tally' = tally.plus (before.flatMap fun e => s.nodes.below e.path.components)
  records : ∃ rs, s'.records = s.records ++ rs ∧ rs.map Progress.told =
    announced source destination (before.flatMap fun e => s.nodes.below e.path.components)

omit hcopy in
/-- One more entry is mirrored, and those before it still are. -/
theorem mirrored_concat {t t' t'' : Tree} {source destination : Place} {before : List Entry}
    {e : Entry} {b : Bytes} (hpath : e.path.components = source ++ [.name b])
    (hbefore : ∀ way, way ≠ [] → (t'.lookup (destination ++ way)).map Node.content =
      if ∃ d ∈ before, d.path.components <+: source ++ way then
        (t.lookup (source ++ way)).map Node.content
      else none)
    (hmirrored : ∀ way, (t''.lookup (destination ++ [.name b] ++ way)).map Node.content =
      (t.lookup (e.path.components ++ way)).map Node.content)
    (hagree : Tree.AgreeOutside (destination ++ [.name b] <+: ·) t' t'') {way : Place}
    (hway : way ≠ []) :
    (t''.lookup (destination ++ way)).map Node.content =
      if ∃ d ∈ before ++ [e], d.path.components <+: source ++ way then
        (t.lookup (source ++ way)).map Node.content
      else none := by
  by_cases hp : [.name b] <+: way
  · obtain ⟨rest, rfl⟩ := hp
    have hrest := hmirrored rest
    rw [hpath, List.append_assoc, List.append_assoc] at hrest
    have hpre : e.path.components <+: source ++ ([.name b] ++ rest) := by
      rw [hpath, List.prefix_append_right_inj]
      exact List.prefix_append _ _
    rw [hrest, if_pos ⟨e, by simp, hpre⟩]
  · have hkept := hagree (destination ++ way) fun hd =>
      hp ((List.prefix_append_right_inj _).mp hd)
    have hiff : (∃ d ∈ before ++ [e], d.path.components <+: source ++ way) ↔
        ∃ d ∈ before, d.path.components <+: source ++ way := by
      constructor
      · rintro ⟨d, hd, hpre⟩
        rcases List.mem_append.mp hd with hd | hd
        · exact ⟨d, hd, hpre⟩
        · obtain rfl := List.mem_singleton.mp hd
          rw [hpath, List.prefix_append_right_inj] at hpre
          exact absurd hpre hp
      · rintro ⟨d, hd, hpre⟩
        exact ⟨d, List.mem_append_left _ hd, hpre⟩
    rw [hkept, hbefore way hway]
    simp only [hiff]

omit hcopy in
theorem announced_entry {t : Tree} {source destination : Place} {e : Entry} {b : Bytes}
    (hpath : e.path.components = source ++ [.name b]) :
    announced e.path.components (destination ++ [.name b]) (t.below e.path.components) =
      announced source destination (t.below e.path.components) := by
  rw [hpath]
  refine announced_child fun x hx => ?_
  obtain ⟨way, hway, -⟩ := Tree.mem_below.mp hx
  exact ⟨way, hway.symm⟩

omit hcopy in
theorem Copying.concat {before : List Entry} {e : Entry} {b : Bytes} {t t' t'' : Tally}
    {s' s'' : Scene} (hapart : Apart source.components destination.components)
    (hpath : e.path.components = source.components ++ [.name b])
    (h : Copying s source.components destination.components before t t' s')
    (hcopied : Copied s' e.path.components (destination.components ++ [.name b]) t' t'' s'') :
    Copying s source.components destination.components (before ++ [e]) t t'' s'' := by
  have hsame (way : Place) :
      s'.nodes.lookup (e.path.components ++ way) = s.nodes.lookup (e.path.components ++ way) := by
    rw [hpath, List.append_assoc]
    exact hapart.lookup_eq (h.elsewhere.mono fun _ hp => .inl hp.1) _
  have hbelow : s'.nodes.below e.path.components = s.nodes.below e.path.components :=
    Tree.below_congr hsame
  constructor
  · refine h.elsewhere.trans (hcopied.elsewhere.mono fun place hp => ?_)
    refine ⟨(List.prefix_append _ _).trans hp, ?_⟩
    rintro rfl
    exact concat_not_prefix_self hp
  · intro way hway
    refine mirrored_concat hpath h.mirrored (fun rest => ?_) hcopied.elsewhere hway
    rw [hcopied.mirrored, hsame]
  · rw [hcopied.counted, h.counted, hbelow, List.flatMap_append, Tally.plus_append]
    simp
  · obtain ⟨rs, hrs, htold⟩ := h.records
    obtain ⟨rs', hrs', htold'⟩ := hcopied.records
    rw [hbelow, announced_entry hpath] at htold'
    refine ⟨rs ++ rs', by rw [hrs', hrs, List.append_assoc], ?_⟩
    rw [List.map_append, htold, htold', List.flatMap_append, announced, announced, announced,
      List.map_append]
    simp

omit hcopy in
/-- Once the directory is reported, no entry is done yet. -/
theorem copying_nil {t : Tally}
    (hvacant : ∀ way, way ≠ [] → s.nodes.lookup (destination.components ++ way) = none) :
    Copying s source.components destination.components [] t t s where
  elsewhere := .refl _
  mirrored way hway := by simp [hvacant way hway]
  counted := t.plus_nil.symm
  records := ⟨[], by simp, rfl⟩

omit hcopy in
/-- Once all entries are done, the directory is copied. -/
theorem Copying.finish {n d : Node} {t t' : Tally} {s' : Scene}
    (hview : Regular (s.nodes.branch source.components) bound)
    (hn : s.nodes.lookup source.components = some n) (hk : n.kind = .directory)
    (hd : s.nodes.lookup destination.components = some d) (hdk : d.kind = .directory)
    (h : Copying (reported s t .directoryCreated source destination 0) source.components
      destination.components (s.nodes.entriesOf source) (Memory.counted t 0) t' s') :
    Copied s source.components destination.components t t' s' := by
  have hbelow := Tree.below_eq hview hn
  have hsize := n.sizeless hk
  refine ⟨⟨?_, ?_, ?_⟩, h.elsewhere.mono fun _ hp => hp.1⟩
  · intro way
    by_cases hway : way = []
    · have hkept := h.elsewhere destination.components (by simp)
      rw [hway, List.append_nil, List.append_nil, hkept, hn]
      change (s.nodes.lookup destination.components).map _ = _
      rw [hd, Option.map_some, Option.map_some, Node.content, Node.content, hk, hdk, hsize,
        d.sizeless hdk]
    · rw [h.mirrored way hway]
      split
      · rfl
      · next habove =>
        cases hl : s.nodes.lookup (source.components ++ way) with
        | none => rfl
        | some m => exact absurd (Tree.exists_entry_above hview hl hway) habove
  · rw [h.counted, hbelow, Tally.plus_cons, hsize]
    rfl
  · obtain ⟨rs, hrs, htold⟩ := h.records
    refine ⟨_ :: rs, by rw [hrs, reported, List.append_assoc]; rfl, ?_⟩
    rw [List.map_cons, htold, hbelow]
    simp [announced, Progress.told, hsize, reported]

/-- The next entry of the directory is mirrored. -/
theorem ensures_copying_entry {before after : List Entry} {e : Entry} {t t' : Tally} {s' : Scene}
    (hcopyable : Copyable s.nodes source.components destination.components (bound + 1))
    (hdir : s.nodes.IsDirectoryAt destination.components) (hcanceled : t.canceled = false)
    (hl : s.nodes.entriesOf source = before ++ e :: after)
    (h : Copying s source.components destination.components before t t' s') :
    Ensures (Replies False False) (copyEntry tx flags copyBelow destination t' e) s'
      (fun t'' s'' => Copying s source.components destination.components (before ++ [e]) t t'' s'')
      (fun _ _ => False) := by
  have hmem : e ∈ s.nodes.entriesOf source := by simp [hl]
  obtain ⟨b, m, hname, hpath, hentry, hm, hdescribes⟩ := Tree.exists_of_mem_entriesOf hmem
  have hsame (way : Place) : s'.nodes.lookup (source.components ++ way) =
      s.nodes.lookup (source.components ++ way) :=
    hcopyable.apart.lookup_eq (h.elsewhere.mono fun _ hp => .inl hp.1) way
  have hdir' : s'.nodes.IsDirectoryAt destination.components := by
    obtain ⟨d, hd, hdk⟩ := hdir
    exact ⟨d, (h.elsewhere destination.components (by simp)).trans hd, hdk⟩
  -- Nothing is in the way of the entry, since only entries before it have been copied.
  have hvacant (way : Place) :
      s'.nodes.lookup (destination.components ++ .name b :: way) = none := by
    have hmirrored := h.mirrored (.name b :: way) (by simp)
    rw [if_neg, Option.map_eq_none_iff] at hmirrored
    · exact hmirrored
    · rintro ⟨d, hd, hpre⟩
      have happart := (Tree.entriesOf_apart hl hd).append [] way
      rw [List.append_nil, hpath, List.append_assoc] at happart
      exact happart.1 hpre
  have hcanceled' : t'.canceled = false := by
    rw [h.counted]
    exact hcanceled
  have hm' : s'.nodes.lookup e.path.components = some m := by
    rw [← hm, hpath, hsame]
  exact (ensures_copyEntry_exact hcopy (hcopyable.of_agree hsame) hdir' hvacant hcanceled' hpath
    hname hentry hm' hdescribes).mono_ok fun t'' s'' => h.concat hcopyable.apart hpath

/-- Copying what is in a directory whose place has been made mirrors the directory. -/
theorem ensures_copyContents_exact {t : Tally}
    (hcopyable : Copyable s.nodes source.components destination.components (bound + 1))
    (hdir : s.nodes.IsDirectoryAt destination.components)
    (hvacant : ∀ way, way ≠ [] → s.nodes.lookup (destination.components ++ way) = none)
    (hcanceled : t.canceled = false) :
    Ensures (Replies False False) (copyContents tx flags copyBelow source destination t) s
      (fun t' s' => Copied s source.components destination.components t t' s')
      (fun _ _ => False) := by
  obtain ⟨n, hn, hk⟩ := hcopyable.directory
  unfold copyContents
  rw [Operation.ensures_bind, ensures_report]
  refine ⟨?_, False.elim⟩
  rw [if_neg (by simp [counted, hcanceled]), Operation.ensures_bind, ensures_childEntries]
  refine ⟨fun _ _ _ => ?_, fun e he => ?_⟩
  · refine (ensures_foldlM (fun before t' s' =>
      Copying (reported s t .directoryCreated source destination 0) source.components
        destination.components before (counted t 0) t' s') (copying_nil hvacant) ?_).mono_ok ?_
    · intro before e after t' s' hl hinv
      exact ensures_copying_entry hcopy hcopyable hdir hcanceled hl hinv
    · obtain ⟨d, hd, hdk⟩ := hdir
      exact fun t' s' hinv => hinv.finish hcopyable.regular hn hk hd hdk
  · have hlisted := Tree.listing_eq_ok.mpr ⟨n, hn, by simp [hk], rfl⟩
    rw [show s.nodes.listing source = .error e from he.resolve_left id] at hlisted
    cases hlisted

end Contents

/-! ### Trees -/

/-- A copy into an existing directory mirrors the source. -/
theorem copies_copyTree (levels : Nat) : Copies (copyTree tx flags levels false) levels := by
  induction levels with
  | zero =>
    -- No directory nests less deeply than nothing.
    intro s source destination t hcopyable _ _ _
    exact absurd hcopyable.bound_pos (Nat.lt_irrefl 0)
  | succ levels ih =>
    intro s source destination t hcopyable hcanceled ⟨base, c, hc, hplace, d, hd, hk⟩ hvacant
    have hnone := hvacant []
    rw [List.append_nil, hplace] at hnone
    rw [copyTree_inner, Operation.ensures_bind]
    refine (ensures_createOne hplace hc hd hk hnone).mono_ok ?_
    rintro _ _ rfl
    have hmade := Tree.agreeOutside_insert s.nodes destination (.directoryOn d.volume)
    have hsource (way : Place) := hcopyable.apart.lookup_eq
      (hmade.mono fun place he => .inl (he ▸ List.prefix_refl _)) way
    refine (ensures_copyContents_exact ih (hcopyable.of_agree hsource) ?_ ?_ hcanceled).mono_ok ?_
    · exact ⟨_, (PathMap.lookup_insert ..).trans (if_pos rfl), rfl⟩
    · exact fun way hway => (hmade _ (by simpa using hway)).trans (hvacant way)
    · intro t' s' h
      refine ⟨h.toMirrored.of_agree rfl hsource, .trans (hmade.mono ?_) h.elsewhere⟩
      exact fun place he => he ▸ List.prefix_refl _

/-- A copy to where nothing is, below an existing directory, mirrors the source; the missing places
down to the destination become directories, and everything else is as it was. -/
theorem ensures_copyTree_root {levels : Nat} {source destination : Path} {base missing : Place}
    {t : Tally} (hcopyable : Copyable s.nodes source.components destination.components levels)
    (hplace : destination.components = base ++ missing) (hbase : base ≠ [])
    (hdir : s.nodes.IsDirectoryAt base) (hlacks : s.nodes.Lacks base missing)
    (hvacant : ∀ way, s.nodes.lookup (destination.components ++ way) = none)
    (hcanceled : t.canceled = false) :
    Ensures (Replies False False) (copyTree tx flags levels true source destination t) s
      (fun t' s' => Mirrored s source.components destination.components t t' s' ∧
        ∀ place, ¬destination.components <+: place →
          s.nodes.MadeDown s'.nodes base destination.components place)
      (fun _ _ => False) := by
  have hmissing : missing ≠ [] := by
    intro hnil
    obtain ⟨d, hd, -⟩ := hdir
    have hnone := hvacant []
    rw [List.append_nil, hplace, hnil, List.append_nil, hd] at hnone
    cases hnone
  cases levels with
  | zero => exact absurd hcopyable.bound_pos (Nat.lt_irrefl 0)
  | succ levels =>
    rw [copyTree_root, Operation.ensures_bind]
    refine (ensures_createResolved hplace hbase hdir hlacks).mono_ok ?_
    rintro _ s₁ ⟨hrecords, hplaces⟩
    have hsource (way : Place) : s₁.nodes.lookup (source.components ++ way) =
        s.nodes.lookup (source.components ++ way) := by
      exact (hplaces _).lookup_eq (hcopyable.apart.below way).1
    refine (ensures_copyContents_exact (copies_copyTree levels) (hcopyable.of_agree hsource) ?_ ?_
      hcanceled).mono_ok ?_
    · have hmade := hplaces destination.components
      rwa [Tree.MadeDown, if_pos ⟨hplace ▸ List.prefix_append _ _, by simpa [hplace] using hmissing,
        List.prefix_refl _⟩] at hmade
    · intro way hway
      exact ((hplaces _).lookup_eq (append_not_prefix_self hway)).trans (hvacant way)
    · intro t' s' h
      refine ⟨h.toMirrored.of_agree hrecords hsource, fun place hnot => ?_⟩
      exact (hplaces place).of_eq (h.elsewhere place hnot)

end Memory

end TreeOps
