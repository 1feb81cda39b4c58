import TreeOps.Proofs.Memory.History
import TreeOps.Proofs.Transfer.Mirror

/-!
# A copy that goes on

A copy that the listener has stopped has made some of what it makes: whatever is at or below the
destination is what the copy puts there. Another copy that may overwrite files takes the directories
that are there for its own, copies files and links again, and makes what is missing. So it leaves
what a copy that was not stopped leaves, and counts the same.
-/

namespace TreeOps

/-! ### Parts of a copy -/

namespace Node

variable {volume : Nat} {n : Node}

/-- What a copy onto a volume makes of a node. -/
def copiedTo (volume : Nat) (n : Node) : Node :=
  if n.kind = .directory then .directoryOn volume else { n with volume := volume, mounted := false }

theorem copiedTo_of_directory (h : n.kind = .directory) : n.copiedTo volume = .directoryOn volume :=
  if_pos h

theorem copiedTo_of_leaf (h : n.kind ≠ .directory) :
    n.copiedTo volume = { n with volume := volume, mounted := false } :=
  if_neg h

end Node

namespace Tree

variable {t t' : Tree} {source destination : Place} {volume : Nat}

/-- Whatever is at or below the destination is what a copy onto a volume puts there. -/
def HoldsPart (t : Tree) (source destination : Place) (volume : Nat) : Prop :=
  ∀ way n', t.lookup (destination ++ way) = some n' →
    ∃ n, t.lookup (source ++ way) = some n ∧ n' = n.copiedTo volume

/-- All that a copy onto a volume puts at and below the destination is there, and nothing else. -/
def HoldsCopy (t : Tree) (source destination : Place) (volume : Nat) : Prop :=
  ∀ way, t.lookup (destination ++ way) = (t.lookup (source ++ way)).map (Node.copiedTo volume)

theorem holdsPart_of_vacant (h : ∀ way, t.lookup (destination ++ way) = none) :
    t.HoldsPart source destination volume :=
  fun way _ hn' => nomatch (h way).symm.trans hn'

namespace HoldsPart

variable (h : t.HoldsPart source destination volume)

include h

theorem child (c : Component) : t.HoldsPart (source ++ [c]) (destination ++ [c]) volume := by
  intro way n' hn'
  rw [List.append_assoc] at hn' ⊢
  exact h _ n' hn'

/-- At the destination of a directory there is nothing but a new directory. -/
theorem eq_directoryOn (hdir : t.IsDirectoryAt source) {n' : Node}
    (hn' : t.lookup destination = some n') : n' = .directoryOn volume := by
  obtain ⟨n, hn, hk⟩ := hdir
  obtain ⟨m, hm, rfl⟩ := h [] n' (by rw [List.append_nil, hn'])
  rw [List.append_nil, hn] at hm
  obtain rfl := Option.some.inj hm
  exact Node.copiedTo_of_directory hk

/-- The copy of the source itself is put at the destination. -/
theorem put (hsource : ∀ way, t'.lookup (source ++ way) = t.lookup (source ++ way))
    (hbelow : ∀ way, way ≠ [] → t'.lookup (destination ++ way) = t.lookup (destination ++ way))
    (hroot : t'.lookup destination = (t.lookup source).map (Node.copiedTo volume)) :
    t'.HoldsPart source destination volume := by
  intro way n' hn'
  rw [hsource]
  by_cases hway : way = []
  · rw [hway, List.append_nil, hroot] at hn'
    obtain ⟨n, hn, rfl⟩ := Option.map_eq_some_iff.mp hn'
    exact ⟨n, by rw [hway, List.append_nil, hn], rfl⟩
  · rw [hbelow way hway] at hn'
    exact h way n' hn'

/-- A part from which nothing is missing is the copy. -/
theorem holdsCopy (hall : ∀ way n, t.lookup (source ++ way) = some n →
    t.lookup (destination ++ way) = some (n.copiedTo volume)) :
    t.HoldsCopy source destination volume := by
  intro way
  cases hn : t.lookup (source ++ way) with
  | some n => exact hall way n hn
  | none =>
    cases hn' : t.lookup (destination ++ way) with
    | none => rfl
    | some n' =>
      obtain ⟨n, hn'', -⟩ := h way n' hn'
      exact nomatch hn.symm.trans hn''

end HoldsPart

end Tree

/-- What a copy onto a volume has come to where part of it may have been before. -/
structure Resumed (canceling : Prop) (s : Scene) (source destination : Place) (volume : Nat)
    (tally tally' : Transfer.Tally) (s' : Scene) : Prop where
  part : s'.nodes.HoldsPart source destination volume
  root : s'.nodes.lookup destination = (s'.nodes.lookup source).map (Node.copiedTo volume)
  whole : tally'.canceled = false → s'.nodes.HoldsCopy source destination volume ∧
    tally' = tally.plus (s.nodes.below source)
  stopped : tally'.canceled = true → canceling

theorem Resumed.of_agree {canceling : Prop} {s s₁ s' : Scene} {source destination : Place}
    {volume : Nat} {t t' : Transfer.Tally}
    (h : Resumed canceling s₁ source destination volume t t' s')
    (hsource : ∀ way, s₁.nodes.lookup (source ++ way) = s.nodes.lookup (source ++ way)) :
    Resumed canceling s source destination volume t t' s' where
  part := h.part
  root := h.root
  whole hcanceled := by
    obtain ⟨hcopy, hcounted⟩ := h.whole hcanceled
    exact ⟨hcopy, by rw [hcounted, Tree.below_congr hsource]⟩
  stopped := h.stopped

namespace Memory

open Transfer Operation

variable {tx : Option Transaction} {flags : CopyFlags} {canceling : Prop} {s : Scene} {volume : Nat}

/-- A way to copy directories that nest less deeply than a bound, from where it has been left. -/
def Resumes (canceling : Prop) (volume : Nat) (copy : Path → Path → Tally → Operation Tally)
    (bound : Nat) : Prop :=
  ∀ (s : Scene) (source destination : Path) (t : Tally),
    Copyable s.nodes source.components destination.components bound → t.canceled = false →
    (∃ base c, c ≠ .root ∧ destination.components = base ++ [c] ∧
      s.nodes.lookup base = some (.directoryOn volume)) →
    s.nodes.HoldsPart source.components destination.components volume →
    Ensures (Replies False canceling) (copy source destination t) s
      (fun t' s' =>
        Resumed canceling s source.components destination.components volume t t' s' ∧
        Tree.AgreeOutside (destination.components <+: ·) s.nodes s'.nodes)
      (fun _ _ => False)

/-! ### Single entries -/

theorem resumed_leaf {n : Node} {source target : Path} {t t' : Tally} {kind : ProgressKind}
    (hn : s.nodes.lookup source.components = some n) (hk : n.kind ≠ .directory)
    (hnone : ∀ way, way ≠ [] → s.nodes.lookup (source.components ++ way) = none)
    (hapart : Apart source.components target.components)
    (hpart : s.nodes.HoldsPart source.components target.components volume)
    (hcanceled : t.canceled = false) (ht' : t' = counted t n.size ∨
      canceling ∧ t' = { counted t n.size with canceled := true }) :
    Resumed canceling s source.components target.components volume t t'
      (reported
        { s with nodes := s.nodes.insert target { n with volume := volume, mounted := false } }
        t kind source target n.size) := by
  have hinsert := Tree.agreeOutside_insert s.nodes target
    { n with volume := volume, mounted := false }
  have hsource (way : Place) := hapart.lookup_eq
    (hinsert.mono fun place he => .inl (he ▸ List.prefix_refl _)) way
  have hroot : (s.nodes.insert target { n with volume := volume, mounted := false }).lookup
      target.components = (s.nodes.lookup source.components).map (Node.copiedTo volume) := by
    rw [PathMap.lookup_insert, if_pos rfl, hn, Option.map_some, Node.copiedTo_of_leaf hk]
  have hself := hsource []
  rw [List.append_nil] at hself
  have hpart' := hpart.put hsource (fun way hway => hinsert _ (by simpa using hway)) hroot
  refine ⟨hpart', hroot.trans (by rw [← hself]; rfl), fun hgoing => ⟨?_, ?_⟩, fun hstopped => ?_⟩
  · refine hpart'.holdsCopy fun way m hm => ?_
    obtain rfl : way = [] := by
      refine Classical.byContradiction fun hway => ?_
      rw [hsource, hnone way hway] at hm
      cases hm
    rw [hsource, List.append_nil] at hm
    rw [List.append_nil, hroot, hm, Option.map_some]
  · rcases ht' with rfl | ⟨-, rfl⟩
    · rw [Tree.below_of_leaf hn hnone, Tally.plus_cons, Tally.plus_nil]
    · cases hgoing
  · rcases ht' with rfl | ⟨hc, -⟩
    · exact absurd (hcanceled.symm.trans hstopped) (by decide)
    · exact hc

section Contents

variable {copyBelow : Path → Path → Tally → Operation Tally} {bound : Nat}
  (hcopy : Resumes canceling volume copyBelow bound) (hoverwrite : flags.overwrite = true)
  {source destination : Path}

include hcopy hoverwrite

/-- An entry is copied, whether or not it was before. -/
theorem ensures_copyEntry_resumed {e : Entry} {b : Bytes} {n : Node} {t : Tally}
    (hcopyable : Copyable s.nodes source.components destination.components (bound + 1))
    (hdir : s.nodes.lookup destination.components = some (.directoryOn volume))
    (hpart : s.nodes.HoldsPart source.components destination.components volume)
    (hcanceled : t.canceled = false)
    (hpath : e.path.components = source.components ++ [.name b]) (hname : IsName b)
    (hentry : e.name = Utf8.lossy b) (hn : s.nodes.lookup e.path.components = some n)
    (he : e.Describes n) :
    Ensures (Replies False canceling) (copyEntry tx flags copyBelow destination t e) s
      (fun t' s' =>
        Resumed canceling s e.path.components (destination.components ++ [.name b]) volume t t' s' ∧
        Tree.AgreeOutside (destination.components ++ [.name b] <+: ·) s.nodes s'.nodes)
      (fun _ _ => False) := by
  have hview : s.nodes.branch source.components [.name b] = some n := by
    rw [PathMap.branch, ← hpath, hn]
  have htext : Utf8.IsText b := hcopyable.textual _ n hview b (by simp)
  have htarget : (destination.child b).components = destination.components ++ [.name b] :=
    Path.components_child destination hname
  have hpart' : s.nodes.HoldsPart e.path.components (destination.child b).components volume := by
    rw [hpath, htarget]
    exact hpart.child _
  have hapart : Apart e.path.components (destination.child b).components := by
    rw [hpath, htarget]
    exact hcopyable.apart.append _ _
  rw [copyEntry_of_isText htext hentry he, if_neg (by simp [hcanceled]), ← htarget]
  split
  · next hk =>
    refine hcopy s e.path (destination.child b) t ?_ hcanceled ⟨_, .name b, by simp, htarget, hdir⟩
      hpart'
    rw [htarget, hpath]
    exact hcopyable.child ⟨n, hpath ▸ hn, hk⟩
  · next hk =>
    have hparent : s.nodes.parentDirectory (destination.child b) = .ok (.directoryOn volume) :=
      Tree.parentDirectory_eq_ok htarget (by simp) hdir rfl
    refine (ensures_copyLeaf hn).mono ?_ ?_
    · rintro t' s' ⟨parent, hfound, rfl, ht'⟩
      obtain rfl := Except.ok.inj (hparent.symm.trans hfound)
      refine ⟨resumed_leaf hn hk (fun way hway => ?_) hapart hpart' hcanceled ht', ?_⟩
      · rw [hpath, List.append_assoc]
        exact (hcopyable.regular.below (.name b)).eq_none_below hview hk hway
      · have hinsert := Tree.agreeOutside_insert s.nodes (destination.child b)
          { n with volume := volume, mounted := false }
        exact hinsert.mono fun place he => he ▸ List.prefix_refl _
    · rintro halt s' ⟨-, hfailed⟩
      refine hfailed.resolve_left id ⟨_, _, Tree.withCopy_eq_ok.mpr ⟨n, hn, hk, fun hkeep => ?_, _,
        hparent, rfl, rfl⟩⟩
      exact absurd (hoverwrite.symm.trans hkeep) (by decide)

/-- What a loop over the entries of a directory has come to: unless it was stopped, the entries that
are done are copied and counted. -/
structure Resuming (canceling : Prop) (s : Scene) (source destination : Place) (volume : Nat)
    (before : List Entry) (tally tally' : Tally) (s' : Scene) : Prop where
  elsewhere : Tree.AgreeOutside (fun place => destination <+: place ∧ place ≠ destination)
    s.nodes s'.nodes
  part : s'.nodes.HoldsPart source destination volume
  done : tally'.canceled = false → ∀ way, (∃ e ∈ before, e.path.components <+: source ++ way) →
    s'.nodes.lookup (destination ++ way) =
      (s'.nodes.lookup (source ++ way)).map (Node.copiedTo volume)
  counted : tally'.canceled = false →
    tally' = tally.plus (before.flatMap fun e => s.nodes.below e.path.components)
  stopped : tally'.canceled = true → canceling

omit hcopy hoverwrite in
theorem Resuming.source_eq {before : List Entry} {t t' : Tally} {s' : Scene}
    (hapart : Apart source.components destination.components)
    (h : Resuming canceling s source.components destination.components volume before t t' s')
    (way : Place) :
    s'.nodes.lookup (source.components ++ way) = s.nodes.lookup (source.components ++ way) :=
  hapart.lookup_eq (h.elsewhere.mono fun _ hp => .inl hp.1) way

omit hcopy hoverwrite in
/-- One more entry is copied, and those before it still are. -/
theorem Resuming.concat {before : List Entry} {e : Entry} {b : Bytes} {t t' t'' : Tally}
    {s' s'' : Scene} (hapart : Apart source.components destination.components)
    (hpath : e.path.components = source.components ++ [.name b])
    (h : Resuming canceling s source.components destination.components volume before t t' s')
    (hgoing : t'.canceled = false)
    (hresumed : Resumed canceling s' e.path.components (destination.components ++ [.name b]) volume
      t' t'' s'')
    (hagree : Tree.AgreeOutside (destination.components ++ [.name b] <+: ·) s'.nodes s''.nodes) :
    Resuming canceling s source.components destination.components volume (before ++ [e]) t t''
      s'' := by
  have hsource (way : Place) : s''.nodes.lookup (source.components ++ way) =
      s'.nodes.lookup (source.components ++ way) := by
    refine hapart.lookup_eq (hagree.mono fun place hp => .inl ?_) way
    exact (List.prefix_append _ _).trans hp
  have hother (way : Place) (hnot : ¬[.name b] <+: way) :
      s''.nodes.lookup (destination.components ++ way) =
        s'.nodes.lookup (destination.components ++ way) :=
    hagree _ fun hp => hnot ((List.prefix_append_right_inj _).mp hp)
  refine ⟨?_, ?_, fun hgoing' way habove => ?_, fun hgoing' => ?_, hresumed.stopped⟩
  · refine h.elsewhere.trans (hagree.mono fun place hp => ?_)
    refine ⟨(List.prefix_append _ _).trans hp, ?_⟩
    rintro rfl
    exact concat_not_prefix_self hp
  · intro way n' hn'
    by_cases hp : [.name b] <+: way
    · obtain ⟨rest, rfl⟩ := hp
      have hrest := hresumed.part rest n'
      rw [hpath, List.append_assoc, List.append_assoc] at hrest
      exact hrest hn'
    · rw [hother way hp] at hn'
      rw [hsource]
      exact h.part way n' hn'
  · by_cases hp : [.name b] <+: way
    · obtain ⟨rest, rfl⟩ := hp
      have hrest := (hresumed.whole hgoing').1 rest
      rwa [hpath, List.append_assoc, List.append_assoc] at hrest
    · rw [hother way hp, hsource]
      refine h.done hgoing way ?_
      obtain ⟨d, hd, hpre⟩ := habove
      rcases List.mem_append.mp hd with hd | hd
      · exact ⟨d, hd, hpre⟩
      · obtain rfl := List.mem_singleton.mp hd
        rw [hpath, List.prefix_append_right_inj] at hpre
        exact absurd hpre hp
  · have hbelow : s'.nodes.below e.path.components = s.nodes.below e.path.components := by
      refine Tree.below_congr fun way => ?_
      rw [hpath, List.append_assoc]
      exact h.source_eq hapart _
    rw [(hresumed.whole hgoing').2, h.counted hgoing, hbelow, List.flatMap_append,
      Tally.plus_append]
    simp

/-- The next entry of the directory is copied, unless the loop was stopped. -/
theorem ensures_resuming_entry {before after : List Entry} {e : Entry} {t t' : Tally} {s' : Scene}
    (hcopyable : Copyable s.nodes source.components destination.components (bound + 1))
    (hdir : s.nodes.lookup destination.components = some (.directoryOn volume))
    (hl : s.nodes.entriesOf source = before ++ e :: after)
    (h : Resuming canceling s source.components destination.components volume before t t' s') :
    Ensures (Replies False canceling) (copyEntry tx flags copyBelow destination t' e) s'
      (fun t'' s'' => Resuming canceling s source.components destination.components volume
        (before ++ [e]) t t'' s'')
      (fun _ _ => False) := by
  cases hgoing : t'.canceled with
  | true =>
    unfold copyEntry
    rw [if_pos hgoing]
    have hnot : t'.canceled ≠ false := by simp [hgoing]
    exact ensures_pure.mpr ⟨h.elsewhere, h.part, fun hc => absurd hc hnot,
      fun hc => absurd hc hnot, h.stopped⟩
  | false =>
    have hmem : e ∈ s.nodes.entriesOf source := by simp [hl]
    obtain ⟨b, m, hname, hpath, hentry, hm, hdescribes⟩ := Tree.exists_of_mem_entriesOf hmem
    have hsame := h.source_eq hcopyable.apart
    have hm' : s'.nodes.lookup e.path.components = some m := by
      rw [← hm, hpath, hsame]
    have hdir' := (h.elsewhere destination.components (by simp)).trans hdir
    refine (ensures_copyEntry_resumed hcopy hoverwrite (hcopyable.of_agree hsame) hdir' h.part
      hgoing hpath hname hentry hm' hdescribes).mono_ok ?_
    exact fun t'' s'' hresumed => h.concat hcopyable.apart hpath hgoing hresumed.1 hresumed.2

omit hcopy hoverwrite in
/-- Once all entries are done, the directory is copied. -/
theorem Resuming.finish {t t' : Tally} {s' : Scene}
    (hcopyable : Copyable s.nodes source.components destination.components (bound + 1))
    (hdir : s.nodes.lookup destination.components = some (.directoryOn volume))
    (h : Resuming canceling (reported s t .directoryCreated source destination 0)
      source.components destination.components volume (s.nodes.entriesOf source)
      (Memory.counted t 0) t' s') :
    Resumed canceling s source.components destination.components volume t t' s' := by
  obtain ⟨n, hn, hk⟩ := hcopyable.directory
  have hsource (way : Place) : s'.nodes.lookup (source.components ++ way) =
      s.nodes.lookup (source.components ++ way) := h.source_eq hcopyable.apart way
  have hself := hsource []
  rw [List.append_nil, hn] at hself
  have hroot : s'.nodes.lookup destination.components = some (.directoryOn volume) :=
    (h.elsewhere destination.components (by simp)).trans hdir
  refine ⟨h.part, ?_, fun hgoing => ⟨h.part.holdsCopy fun way m hm => ?_, ?_⟩, h.stopped⟩
  · rw [hroot, hself, Option.map_some, Node.copiedTo_of_directory hk]
  · by_cases hway : way = []
    · rw [hway, List.append_nil, hself] at hm
      obtain rfl := Option.some.inj hm
      rw [hway, List.append_nil, hroot, Node.copiedTo_of_directory hk]
    · rw [h.done hgoing way, hm, Option.map_some]
      rw [hsource] at hm
      exact Tree.exists_entry_above hcopyable.regular hm hway
  · have hsize := n.sizeless hk
    rw [h.counted hgoing, Tree.below_eq hcopyable.regular hn, Tally.plus_cons, hsize]
    rfl

/-- Copying what is in a directory whose place has been made goes on from where it was left. -/
theorem ensures_copyContents_resumed {t : Tally}
    (hcopyable : Copyable s.nodes source.components destination.components (bound + 1))
    (hdir : s.nodes.lookup destination.components = some (.directoryOn volume))
    (hpart : s.nodes.HoldsPart source.components destination.components volume)
    (hcanceled : t.canceled = false) :
    Ensures (Replies False canceling) (copyContents tx flags copyBelow source destination t) s
      (fun t' s' =>
        Resumed canceling s source.components destination.components volume t t' s' ∧
        Tree.AgreeOutside (destination.components <+: ·) s.nodes s'.nodes)
      (fun _ _ => False) := by
  obtain ⟨n, hn, hk⟩ := hcopyable.directory
  unfold copyContents
  rw [Operation.ensures_bind, ensures_report]
  constructor
  · rw [if_neg (by simp [counted, hcanceled]), Operation.ensures_bind, ensures_childEntries]
    refine ⟨fun _ _ _ => ?_, fun e he => ?_⟩
    · refine (ensures_foldlM (fun before t' s' =>
        Resuming canceling (reported s t .directoryCreated source destination 0) source.components
          destination.components volume before (counted t 0) t' s') ?_ ?_).mono_ok ?_
      · refine ⟨.refl _, hpart, fun _ way => ?_, fun _ => (Tally.plus_nil _).symm,
          fun hstopped => ?_⟩
        · rintro ⟨e, he, -⟩
          cases he
        · exact absurd (hcanceled.symm.trans hstopped) (by decide)
      · intro before e after t' s' hl hinv
        exact ensures_resuming_entry hcopy hoverwrite hcopyable hdir hl hinv
      · exact fun t' s' hinv =>
          ⟨hinv.finish hcopyable hdir, hinv.elsewhere.mono fun _ hp => hp.1⟩
    · have hlisted := Tree.listing_eq_ok.mpr ⟨n, hn, by simp [hk], rfl⟩
      rw [show s.nodes.listing source = .error e from he.resolve_left id] at hlisted
      cases hlisted
  · intro hc
    rw [if_pos rfl]
    have hroot : s.nodes.lookup destination.components =
        (s.nodes.lookup source.components).map (Node.copiedTo volume) := by
      rw [hdir, hn, Option.map_some, Node.copiedTo_of_directory hk]
    refine ensures_pure.mpr ⟨⟨hpart, hroot, fun hgoing => ?_, fun _ => hc⟩, .refl _⟩
    cases hgoing

end Contents

/-! ### Trees -/

section Trees

variable (hoverwrite : flags.overwrite = true)

include hoverwrite

/-- A copy into a directory that was made for it goes on from where it was left. -/
theorem resumes_copyTree (levels : Nat) :
    Resumes canceling volume (copyTree tx flags levels false) levels := by
  induction levels with
  | zero =>
    -- No directory nests less deeply than nothing.
    intro s source destination t hcopyable _ _ _
    exact absurd hcopyable.bound_pos (Nat.lt_irrefl 0)
  | succ levels ih =>
    intro s source destination t hcopyable hcanceled ⟨base, c, hc, hplace, hbase⟩ hpart
    rw [copyTree_inner, Operation.ensures_bind]
    cases hthere : s.nodes.lookup destination.components with
    | some n' =>
      obtain rfl := hpart.eq_directoryOn hcopyable.directory hthere
      refine (ensures_createOne_there hthere rfl).mono_ok ?_
      rintro _ _ rfl
      exact ensures_copyContents_resumed ih hoverwrite hcopyable hthere hpart hcanceled
    | none =>
      refine (ensures_createOne hplace hc hbase rfl (hplace ▸ hthere)).mono_ok ?_
      rintro _ _ rfl
      have hmade := Tree.agreeOutside_insert s.nodes destination (.directoryOn volume)
      have hroot : (s.nodes.insert destination (.directoryOn volume)).lookup
          destination.components = some (.directoryOn volume) :=
        (PathMap.lookup_insert ..).trans (if_pos rfl)
      have hsource (way : Place) := hcopyable.apart.lookup_eq
        (hmade.mono fun place he => .inl (he ▸ List.prefix_refl _)) way
      obtain ⟨n, hn, hk⟩ := id hcopyable.directory
      have hpart' := hpart.put hsource (fun way hway => hmade _ (by simpa using hway))
        (by rw [hroot, hn, Option.map_some, Node.copiedTo_of_directory hk])
      refine (ensures_copyContents_resumed ih hoverwrite (hcopyable.of_agree hsource) hroot hpart'
        hcanceled).mono_ok ?_
      rintro t' s' ⟨hresumed, hagree⟩
      refine ⟨hresumed.of_agree hsource, .trans (hmade.mono fun place he => ?_) hagree⟩
      exact he ▸ List.prefix_refl _

/-- A copy to where nothing but a part of it is goes on from where it was left; the missing places
down to the destination become directories, and everything else is as it was. -/
theorem ensures_copyTree_resumed {levels : Nat} {source destination : Path} {base missing : Place}
    {d : Node} {t : Tally}
    (hcopyable : Copyable s.nodes source.components destination.components levels)
    (hplace : destination.components = base ++ missing) (hbase : base ≠ [])
    (hd : s.nodes.lookup base = some d) (hk : d.kind = .directory)
    (hlacks : s.nodes.Lacks base missing)
    (hpart : s.nodes.HoldsPart source.components destination.components d.volume)
    (hcanceled : t.canceled = false) :
    Ensures (Replies False canceling) (copyTree tx flags levels true source destination t) s
      (fun t' s' =>
        Resumed canceling s source.components destination.components d.volume t t' s' ∧
        ∀ place, ¬destination.components <+: place →
          s.nodes.MadeOn s'.nodes d.volume base destination.components place)
      (fun _ _ => False) := by
  obtain ⟨n, hn, hnk⟩ := id hcopyable.directory
  cases levels with
  | zero => exact absurd hcopyable.bound_pos (Nat.lt_irrefl 0)
  | succ levels =>
    rw [copyTree_root, Operation.ensures_bind]
    refine (ensures_createResolved_on hplace hbase hd hk hlacks).mono_ok ?_
    rintro _ s₁ ⟨-, hplaces⟩
    have hsource (way : Place) : s₁.nodes.lookup (source.components ++ way) =
        s.nodes.lookup (source.components ++ way) := by
      exact (hplaces _).lookup_eq (hcopyable.apart.below way).1
    have hroot : s₁.nodes.lookup destination.components = some (.directoryOn d.volume) := by
      have hmade := hplaces destination.components
      by_cases hmissing : missing = []
      · rw [hmissing, List.append_nil] at hplace
        rw [hplace, Tree.MadeOn, if_neg fun hbetween => hbetween.2.1 rfl, hd] at hmade
        rw [hplace, hmade, ← hpart.eq_directoryOn hcopyable.directory (hplace ▸ hd)]
      · rwa [Tree.MadeOn, if_pos ⟨hplace ▸ List.prefix_append _ _, by simpa [hplace] using hmissing,
          List.prefix_refl _⟩] at hmade
    have hpart' : s₁.nodes.HoldsPart source.components destination.components d.volume := by
      refine hpart.put hsource (fun way hway => ?_) ?_
      · exact (hplaces _).lookup_eq (append_not_prefix_self hway)
      · rw [hroot, hn, Option.map_some, Node.copiedTo_of_directory hnk]
    refine (ensures_copyContents_resumed (resumes_copyTree hoverwrite levels) hoverwrite
      (hcopyable.of_agree hsource) hroot hpart' hcanceled).mono_ok ?_
    rintro t' s' ⟨hresumed, hagree⟩
    exact ⟨hresumed.of_agree hsource, fun place hnot => (hagree place hnot).trans (hplaces place)⟩

end Trees

/-! ### Runs -/

section Runs

variable {m : Memory} {listener : Listener} {levels : Nat} {opts : TransferOptions}
  {copy : CopyOptions} {source destination : Path}

/-- A copy whose paths overlap up to case is refused. -/
theorem runs_of_overlap (listener : Listener) (levels : Nat) {e : TreeError}
    (hcalm : m.failures = []) (hmode : opts.mode = .ok (.copy copy))
    (h : overlap? source destination = some e) :
    (m.runs listener (copyOrMove levels opts source destination)).result = .error (.failed e) ∧
      (m.runs listener (copyOrMove levels opts source destination)).memory.nodes = m.nodes := by
  have hrefused : Ensures (Replies False True) (copyOrMove levels opts source destination)
      ⟨m.nodes, []⟩ (fun _ _ => False)
      fun halt s' => halt = .failed e ∧ s' = ⟨m.nodes, []⟩ := by
    unfold copyOrMove
    rw [hmode]
    simp only [Operation.ensures_bind, ensures_resolve, h]
    exact ensures_fail.mpr ⟨rfl, rfl⟩
  have hends := ends_runs listener (.inr hcalm) (fun _ _ => trivial) hrefused
  cases hresult : (m.runs listener (copyOrMove levels opts source destination)).result with
  | ok outcome =>
    rw [hresult] at hends
    exact False.elim hends
  | error halt =>
    rw [hresult] at hends
    exact ⟨congrArg _ hends.1, congrArg Scene.nodes hends.2⟩

/-- What the run of a copy onto a volume, below a place, has come to where part of it may have been
before. -/
structure CopyRun (canceling : Prop) (t : Tree) (source destination : Path) (base : Place)
    (volume : Nat) (tally : Tally) (run : Run Outcome) : Prop where
  result : run.result =
    .ok ⟨source, destination, false, tally.canceled, tally.entries, tally.bytes⟩
  resumed : Resumed canceling ⟨t, []⟩ source.components destination.components volume {} tally
    run.scene
  elsewhere : ∀ place, ¬destination.components <+: place →
    t.MadeOn run.memory.nodes volume base destination.components place

theorem exists_copyRun {base missing : Place} {d : Node} (hcalm : m.failures = [])
    (hcancel : ∀ p, listener.progress p = .cancel → canceling)
    (hmode : opts.mode = .ok (.copy copy)) (hoverwrite : copy.overwriteExisting = true)
    (hfolded : Apart source.foldedComponents destination.foldedComponents)
    (hcopyable : Copyable m.nodes source.components destination.components levels)
    (hplace : destination.components = base ++ missing) (hbase : base ≠ [])
    (hd : m.nodes.lookup base = some d) (hk : d.kind = .directory)
    (hlacks : m.nodes.Lacks base missing)
    (hpart : m.nodes.HoldsPart source.components destination.components d.volume) :
    ∃ tally, CopyRun canceling m.nodes source destination base d.volume tally
      (m.runs listener (copyOrMove levels opts source destination)) := by
  have hensures : Ensures (Replies False canceling) (copyOrMove levels opts source destination)
      ⟨m.nodes, []⟩
      (fun outcome s' => ∃ t,
        outcome = ⟨source, destination, false, t.canceled, t.entries, t.bytes⟩ ∧
        Resumed canceling ⟨m.nodes, []⟩ source.components destination.components d.volume {} t s' ∧
        ∀ place, ¬destination.components <+: place →
          m.nodes.MadeOn s'.nodes d.volume base destination.components place)
      (fun _ _ => False) := by
    refine ensures_copyOrMove_of_copyTree hmode hfolded hcopyable.directory ?_
    refine (ensures_copyTree_resumed hoverwrite hcopyable hplace hbase hd hk hlacks hpart
      rfl).mono_ok ?_
    exact fun t s' h => ⟨t, rfl, h⟩
  have hends := ends_runs listener (.inr hcalm) hcancel hensures
  obtain ⟨outcome, hresult, tally, rfl, hresumed, helsewhere⟩ := hends.exists_ok
  exact ⟨tally, hresult, hresumed, helsewhere⟩

namespace CopyRun

variable {canceling : Prop} {t : Tree} {base : Place} {tally : Tally} {run : Run Outcome}
  (h : CopyRun canceling t source destination base volume tally run)

include h

/-- A copy leaves its source as it is. -/
theorem source_eq (hapart : Apart source.components destination.components) (way : Place) :
    run.memory.nodes.lookup (source.components ++ way) = t.lookup (source.components ++ way) := by
  have hnot := hapart.below way
  exact (h.elsewhere _ hnot.2).lookup_eq hnot.1

/-- There is a new directory at the destination. -/
theorem root_eq (hapart : Apart source.components destination.components)
    (hsource : t.IsDirectoryAt source.components) :
    run.memory.nodes.lookup destination.components = some (.directoryOn volume) := by
  obtain ⟨n, hn, hk⟩ := hsource
  have hself := h.source_eq hapart []
  rw [List.append_nil, hn] at hself
  refine h.resumed.root.trans ?_
  rw [← Node.copiedTo_of_directory hk]
  exact congrArg _ hself

end CopyRun

/-- What a copy that was not stopped has counted and left. -/
theorem CopyRun.whole {t : Tree} {base : Place} {tally : Tally} {run : Run Outcome}
    (h : CopyRun False t source destination base volume tally run) :
    tally = Tally.plus {} (t.below source.components) ∧
      run.memory.nodes.HoldsCopy source.components destination.components volume := by
  have hgoing : tally.canceled = false := by
    rw [← Bool.not_eq_true]
    exact h.resumed.stopped
  exact (h.resumed.whole hgoing).symm

/-- A run that goes on where another one was stopped ends as one that was not. -/
theorem CopyRun.agree {t : Tree} {base : Place} {tally tally' tally'' : Tally}
    {first second single : Run Outcome}
    (hapart : Apart source.components destination.components)
    (hfirst : CopyRun True t source destination base volume tally first)
    (hsecond : CopyRun False first.memory.nodes source destination destination.components volume
      tally' second)
    (hsingle : CopyRun False t source destination base volume tally'' single) :
    (∀ place, second.memory.nodes.lookup place = single.memory.nodes.lookup place) ∧
      second.result = single.result := by
  have hsame := hfirst.source_eq hapart
  obtain ⟨hcounted, hcopy⟩ := hsecond.whole
  obtain ⟨hcounted', hcopy'⟩ := hsingle.whole
  constructor
  · intro place
    by_cases hbelow : destination.components <+: place
    · obtain ⟨way, rfl⟩ := hbelow
      rw [hcopy, hcopy', hsecond.source_eq hapart, hsame, hsingle.source_eq hapart]
    · have hkept := hsecond.elsewhere place hbelow
      rw [Tree.MadeOn, if_neg fun hbetween => hbelow hbetween.1] at hkept
      rw [hkept, hfirst.elsewhere place hbelow, hsingle.elsewhere place hbelow]
  · have htally : tally' = tally'' := by
      rw [hcounted, hcounted', Tree.below_congr hsame]
    rw [hsecond.result, hsingle.result, htally]

end Runs

end Memory

end TreeOps
