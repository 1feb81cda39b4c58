import TreeOps.Proofs.Removal.Passing

/-!
# A delete outlasts failures that pass

What a failure strikes may be left behind, so the directories above are found full and attempted
again, each with everything below it. The argument counts strikes. Whatever a delete leaves behind
at any level has cost a strike, so each attempt that fails, on whichever level, has used one up, and
a delete that may attempt a removal more often than failures can strike removes everything.
-/

namespace TreeOps

namespace Memory

open Removal Operation

/-! ### Removing what failures may leave -/

section Removal

variable {root : Place} {s s' s'' : Disturbed} {tx : Option Transaction} {path : Path} {n : Node}
  {opts : DeleteOptions}

/-- What the removal of a place has come to: the place is free, or else a strike is used up. Only
the root itself is sure to be free. -/
structure Lessened (root : Place) (s s' : Disturbed) (place : Place) : Prop where
  dwindles : s.nodes.Dwindles s'.nodes place
  strikes : s'.strikes ≤ s.strikes
  gone : s'.nodes.lookup place = none ∨ place ≠ root ∧ s'.strikes < s.strikes

/-- A removal that is never halted. -/
abbrev Lessens (root : Place) (p : Operation Unit) (s : Disturbed) (place : Place) : Prop :=
  Ensures (Wavers root) p s (fun _ s' => Lessened root s s' place) (fun _ _ => False)

/-- What a failure strikes is left as it is. -/
theorem lessened_of_struck {place : Place} {left : Nat} (hne : place ≠ root)
    (hleft : left < s.strikes) : Lessened root s { s with strikes := left } place where
  dwindles := .refl _
  strikes := Nat.le_of_lt hleft
  gone := .inr ⟨hne, hleft⟩

theorem Lessened.of_dwindles {place : Place} (h : Lessened root s' s'' place)
    (hdwindles : s.nodes.Dwindles s'.nodes place) (hle : s'.strikes ≤ s.strikes) :
    Lessened root s s'' place where
  dwindles := hdwindles.trans h.dwindles
  strikes := Nat.le_trans h.strikes hle
  gone := h.gone.imp_right fun hstruck => ⟨hstruck.1, Nat.lt_of_lt_of_le hstruck.2 hle⟩

theorem wavering_clearReadOnly {attributes : Attributes}
    (hn : s.nodes.lookup path.components = some n) {ok : Unit → Disturbed → Prop}
    {err : Halt → Disturbed → Prop} :
    Ensures (Wavers root) (clearReadOnly tx path attributes) s ok err ↔
      ok () { s with nodes :=
        s.nodes.modify path (Node.withAttributes · (attributes.without .readOnly)) } := by
  have hset : s.nodes.perform (.setAttributes path (attributes.without .readOnly)) =
      (.ok (), s.nodes.modify path (Node.withAttributes · (attributes.without .readOnly))) :=
    Tree.update_eq (Tree.withAttributes_eq_ok.mpr ⟨⟨n, hn⟩, rfl⟩)
  unfold clearReadOnly Operation.perform
  rw [Operation.ensures_bind, wavering_note, Operation.ensures_bind, wavering_attempt, hset]
  constructor
  · intro h
    exact h.1
  · intro h
    refine ⟨h, fun code left hpasses _ => ?_⟩
    rcases hpasses.2 with ⟨heq, -⟩ | ⟨-, -, hmem⟩
    · cases heq
    · simp [Call.primitive] at hmem

theorem dwindles_withAttributes (t : Tree) (path : Path) (attributes : Attributes) :
    t.Dwindles (t.modify path (Node.withAttributes · attributes)) path.components :=
  .modify t path (fun _ => rfl) fun _ => rfl

theorem wavering_releaseReadOnly (hopts : opts.ignoreReadOnly = true)
    (hn : s.nodes.lookup path.components = some n) (info : Entry) :
    Ensures (Wavers root) (releaseReadOnly opts path info) s
      (fun _ s' => s.nodes.Dwindles s'.nodes path.components ∧ s'.strikes = s.strikes ∧
        s'.nodes.lookup path.components ≠ none) (fun _ _ => False) := by
  unfold releaseReadOnly
  rw [hopts]
  split
  · rw [if_pos rfl, wavering_clearReadOnly hn]
    refine ⟨dwindles_withAttributes .., rfl, ?_⟩
    rw [PathMap.lookup_modify, if_pos rfl, hn]
    simp
  · exact ensures_pure.mpr ⟨.refl _, rfl, by simp [hn]⟩

/-- The deletion of a file that is not read-only frees its place, unless it is reported missing. -/
theorem wavering_deleteFile (hn : s.nodes.lookup path.components = some n)
    (hk : n.kind ≠ .directory) (hwritable : n.attributes.isReadOnly = false)
    (hleaf : ∀ c, s.nodes.lookup (path.components ++ [c]) = none)
    {ok : Except NativeError Unit → Disturbed → Prop} {err : Halt → Disturbed → Prop}
    (hdeleted : ∀ s', Lessened root s s' path.components → ok (.ok ()) s')
    (hmissing : ∀ e s', e.code.isNotFound = true → Lessened root s s' path.components →
      ok (.error e) s') :
    Ensures (Wavers root) (Operation.attempt tx (.deleteFile path)) s ok err := by
  have hperformed : s.nodes.perform (.deleteFile path) = (.ok (), s.nodes.erase path) :=
    Tree.update_eq (Tree.withoutFile_eq_ok.mpr ⟨n, hn, hk, hwritable, rfl⟩)
  rw [wavering_attempt, hperformed]
  constructor
  · apply hdeleted
    refine ⟨.erase hleaf, Nat.le_refl _, .inl ?_⟩
    rw [PathMap.lookup_erase, if_pos rfl]
  · intro code left hpasses hleft
    obtain ⟨hne, hcode⟩ := hpasses.missing (by simp [Call.primitive])
    exact hmissing _ _ hcode (lessened_of_struck hne hleft)

theorem lessens_removeFile {attributes : Attributes}
    (hn : s.nodes.lookup path.components = some n) (hk : n.kind ≠ .directory)
    (hattributes : attributes.isReadOnly = n.attributes.isReadOnly)
    (hleaf : ∀ c, s.nodes.lookup (path.components ++ [c]) = none) :
    Lessens root (removeFile tx path attributes true) s path.components := by
  unfold Lessens removeFile
  rw [if_neg (by simp), Operation.ensures_bind]
  cases hr : n.attributes.isReadOnly with
  | false =>
    apply wavering_deleteFile hn hk hr hleaf
    · intro s' h
      exact wavering_note.mpr h
    · intro e s' hcode h
      dsimp only
      rw [if_pos hcode]
      exact wavering_note.mpr h
  | true =>
    have hdenied : s.nodes.perform (.deleteFile path) =
        (.error (NativeCode.accessDenied : NativeError), s.nodes) := by
      rw [Tree.perform, Tree.withoutFile_denied hn (.inr hr)]
      rfl
    rw [wavering_attempt, hdenied]
    constructor
    · -- The attribute is cleared, and the file is deleted as a writable one.
      dsimp only
      rw [if_neg (by simp [NativeCode.isNotFound]), if_pos (by simp [hattributes, hr])]
      unfold deleteCleared
      rw [Operation.ensures_bind, wavering_clearReadOnly hn, Operation.ensures_bind]
      have hdwindles := dwindles_withAttributes s.nodes path (attributes.without .readOnly)
      have hn' : (s.nodes.modify path
          (Node.withAttributes · (attributes.without .readOnly))).lookup path.components =
            some (n.withAttributes (attributes.without .readOnly)) := by
        rw [PathMap.lookup_modify, if_pos rfl, hn]
        rfl
      apply wavering_deleteFile (n := n.withAttributes (attributes.without .readOnly)) hn' hk
        attributes.isReadOnly_neutral_without fun c => hdwindles.eq_none (hleaf c)
      · intro s' h
        exact wavering_note.mpr (h.of_dwindles hdwindles (Nat.le_refl _))
      · intro e s' hcode h
        dsimp only
        rw [if_pos hcode]
        exact wavering_note.mpr (h.of_dwindles hdwindles (Nat.le_refl _))
    · intro code left hpasses hleft
      obtain ⟨hne, hcode⟩ := hpasses.missing (by simp [Call.primitive])
      dsimp only
      rw [if_pos hcode]
      exact wavering_note.mpr (lessened_of_struck hne hleft)

/-- A directory or link to one that can be emptied: nothing is mounted at or below it. -/
structure Removable (s : Disturbed) (path : Path) (levels : Nat) (kind : NodeKind) : Prop where
  regular : Regular (s.nodes.branch path.components) levels
  unmounted : Unmounted (s.nodes.branch path.components)
  node : ∃ n, s.nodes.lookup path.components = some n ∧ n.kind = kind

theorem Removable.of_dwindles {levels : Nat} {kind : NodeKind} (h : Removable s path levels kind)
    (hdwindles : s.nodes.Dwindles s'.nodes path.components)
    (hsome : s'.nodes.lookup path.components ≠ none) : Removable s' path levels kind where
  regular := hdwindles.regular _ _ h.regular
  unmounted := hdwindles.unmounted h.unmounted
  node := by
    obtain ⟨n, hn, hkind⟩ := h.node
    obtain ⟨n', hn'⟩ := Option.ne_none_iff_exists'.mp hsome
    obtain ⟨n₀, hn₀, hkind', -⟩ := hdwindles.remains _ n' hn'
    obtain rfl := Option.some.inj (hn₀.symm.trans hn)
    exact ⟨n', hn', hkind'.trans hkind⟩

/-- A way to delete directories that nest less deeply than some levels below the root, where not
more failures strike than there are retries. -/
def Outlasts (root : Place) (retries : Nat) (delete : Path → Operation Unit) (levels : Nat) :
    Prop :=
  ∀ s path kind, Removable s path levels kind → (kind = .directory ∨ kind = .link true) →
    root <+: path.components → path.components ≠ root → s.strikes ≤ retries →
    Lessens root (delete path) s path.components

/-! ### Emptying -/

/-- What the removal of some entries of a directory has come to: all of them have gone, or a strike
is used up. -/
structure Thinned (s s' : Disturbed) (dir : Place) (done : List Entry) : Prop where
  dwindles : s.nodes.Dwindles s'.nodes dir
  strikes : s'.strikes ≤ s.strikes
  kept : ∀ place, (∀ d ∈ done, ¬d.path.components <+: place) →
    s'.nodes.lookup place = s.nodes.lookup place
  gone : (∀ d ∈ done, s'.nodes.lookup d.path.components = none) ∨ s'.strikes < s.strikes

theorem Thinned.concat {dir : Place} {done : List Entry} {e : Entry} (h : Thinned s s' dir done)
    (hbelow : dir <+: e.path.components) (he : Lessened root s' s'' e.path.components) :
    Thinned s s'' dir (done ++ [e]) where
  dwindles := h.dwindles.trans (he.dwindles.mono hbelow)
  strikes := Nat.le_trans he.strikes h.strikes
  kept place hplace := by
    rw [he.dwindles.outside place (hplace e (by simp))]
    exact h.kept place fun d hd => hplace d (by simp [hd])
  gone := by
    rcases h.gone with hgone | hstruck
    · rcases he.gone with hfree | ⟨-, hstruck⟩
      · left
        intro d hd
        rcases List.mem_append.mp hd with hd | hd
        · exact he.dwindles.eq_none (hgone d hd)
        · rw [List.mem_singleton.mp hd]
          exact hfree
      · exact .inr (Nat.lt_of_lt_of_le hstruck h.strikes)
    · exact .inr (Nat.lt_of_le_of_lt he.strikes hstruck)

/-- What the emptying of a directory has come to: nothing is in it, or a strike is used up. -/
structure Emptied (s s' : Disturbed) (path : Path) : Prop where
  dwindles : s.nodes.Dwindles s'.nodes path.components
  strikes : s'.strikes ≤ s.strikes
  kept : s'.nodes.lookup path.components = s.nodes.lookup path.components
  empty : (∀ c, s'.nodes.lookup (path.components ++ [c]) = none) ∨ s'.strikes < s.strikes

theorem Thinned.emptied {levels : Nat} {kind : NodeKind} (hs : Removable s path levels kind)
    (h : Thinned s s' path.components (s.nodes.entriesOf path)) : Emptied s s' path where
  dwindles := h.dwindles
  strikes := h.strikes
  kept := by
    apply h.kept
    intro d hd hpre
    obtain ⟨b, -, -, hpath, -⟩ := Tree.exists_of_mem_entriesOf hd
    rw [hpath] at hpre
    exact concat_not_prefix_self hpre
  empty := by
    rcases h.gone with hgone | hstruck
    · left
      intro c
      cases hl : s'.nodes.lookup (path.components ++ [c]) with
      | none => rfl
      | some n' =>
        obtain ⟨n, hn, -⟩ := h.dwindles.remains _ n' hl
        obtain ⟨e, he, hpre⟩ := Tree.exists_entry_above hs.regular hn (by simp)
        obtain ⟨b, -, -, hpath, -⟩ := Tree.exists_of_mem_entriesOf he
        have heq := hpre.eq_of_length (by simp [hpath])
        rw [← heq, hgone e he] at hl
        cases hl
    · exact .inr hstruck

/-- The removal of one entry after others. -/
theorem lessens_removeEntry {levels retries : Nat} {kind : NodeKind}
    {deleteChild : Path → Operation Unit} {before after : List Entry} {e : Entry}
    (hdelete : Outlasts root retries deleteChild levels) (hs : Removable s path (levels + 1) kind)
    (hroot : root <+: path.components) (hstrikes : s.strikes ≤ retries)
    (hl : s.nodes.entriesOf path = before ++ e :: after)
    (h : Thinned s s' path.components before) :
    Lessens root
      (if e.isDirectory = true then deleteChild e.path else removeFile tx e.path e.attributes true)
      s' e.path.components := by
  obtain ⟨m, c, hsame, hm, hdescribes⟩ := exists_node_of_entry hl h.kept
  have hmem : e ∈ s.nodes.entriesOf path := by simp [hl]
  obtain ⟨b, -, -, hpath, -⟩ := Tree.exists_of_mem_entriesOf hmem
  have hregular : Regular (s'.nodes.branch e.path.components) levels := by
    rw [hsame]
    exact hs.regular.below c
  have hunmounted : Unmounted (s'.nodes.branch e.path.components) := by
    rw [hsame]
    intro way n hn
    exact hs.unmounted (c :: way) n hn
  rw [hdescribes.isDirectory]
  by_cases hlike : m.isDirectoryLike = true
  · rw [if_pos hlike]
    apply hdelete s' e.path m.kind ⟨hregular, hunmounted, m, hm, rfl⟩
    · revert hlike
      unfold Node.isDirectoryLike
      split <;> simp_all
    · rw [hpath]
      exact hroot.trans (List.prefix_append _ _)
    · rintro rfl
      rw [hpath] at hroot
      exact concat_not_prefix_self hroot
    · exact Nat.le_trans h.strikes hstrikes
  · rw [if_neg hlike]
    have hkind : m.kind ≠ .directory := fun hk => hlike (Node.isDirectoryLike_of_directory hk)
    apply lessens_removeFile hm hkind
    · rw [hdescribes.attributes, Node.isReadOnly_shownAttributes]
    · intro c
      exact hregular.eq_none_below (by rw [PathMap.branch_nil]; exact hm) hkind (by simp)

theorem emptied_emptyDirectory {levels retries : Nat} {deleteChild : Path → Operation Unit}
    (hdelete : Outlasts root retries deleteChild levels) (hopts : opts.ignoreReadOnly = true)
    (hs : Removable s path (levels + 1) .directory) (hroot : root <+: path.components)
    (hstrikes : s.strikes ≤ retries) :
    Ensures (Wavers root) (emptyDirectory opts deleteChild path) s
      (fun _ s' => Emptied s s' path) (fun _ _ => False) := by
  obtain ⟨n, hn, hk⟩ := hs.node
  unfold emptyDirectory
  rw [Operation.ensures_bind, wavering_listEntries hn (by simp [hk]), hopts]
  constructor
  · have hinit : Thinned s s path.components [] :=
      ⟨.refl _, Nat.le_refl _, fun _ _ => rfl, .inl (by simp)⟩
    apply (ensures_forM (fun done s' => Thinned s s' path.components done) hinit ?_).mono_ok
    · intro _ s' h
      exact h.emptied hs
    · intro before e after s' hl h
      have hmem : e ∈ s.nodes.entriesOf path := by simp [hl]
      apply (lessens_removeEntry hdelete hs hroot hstrikes hl h).mono_ok
      intro _ s'' he
      exact h.concat (Tree.prefix_of_mem_entriesOf hmem) he
  · intro code left hpasses hleft
    dsimp only
    rw [if_pos (hpasses.missing (by simp)).2]
    exact ensures_pure.mpr ⟨.refl _, Nat.le_of_lt hleft, rfl, .inr hleft⟩

/-- A directory is emptied; a link is not entered, and nothing is below it. -/
theorem emptied_emptyIt {levels retries : Nat} {kind : NodeKind}
    {deleteChild : Path → Operation Unit} {descends : Bool}
    (hdelete : Outlasts root retries deleteChild levels) (hopts : opts.ignoreReadOnly = true)
    (hs : Removable s path (levels + 1) kind)
    (hdescends : descends = true ∧ kind = .directory ∨ descends = false ∧ kind = .link true)
    (hroot : root <+: path.components) (hstrikes : s.strikes ≤ retries) :
    Ensures (Wavers root)
      (if descends = true then emptyDirectory opts deleteChild path else pure ()) s
      (fun _ s' => Emptied s s' path) (fun _ _ => False) := by
  rcases hdescends with ⟨rfl, rfl⟩ | ⟨rfl, rfl⟩
  · rw [if_pos rfl]
    exact emptied_emptyDirectory hdelete hopts hs hroot hstrikes
  · rw [if_neg (by simp)]
    obtain ⟨n, hn, hk⟩ := hs.node
    refine ensures_pure.mpr ⟨.refl _, Nat.le_refl _, rfl, .inl fun c => ?_⟩
    exact hs.regular.eq_none_below (by rw [PathMap.branch_nil, hn]) (by simp [hk]) (by simp)

/-! ### Attempting again -/

/-- One attempt to remove a directory that was emptied: it goes, or a strike has been used up and it
is reported full or missing. -/
theorem wavering_removeDirectory {levels : Nat} {kind : NodeKind}
    (hs : Removable s path levels kind) (hkind : kind = .directory ∨ kind = .link true)
    (h : Emptied s s' path) {ok : Except NativeError Unit → Disturbed → Prop}
    {err : Halt → Disturbed → Prop}
    (hremoved : ∀ s'', Lessened root s s'' path.components → ok (.ok ()) s'')
    (hfull : ∀ s'', Removable s'' path levels kind →
      s.nodes.Dwindles s''.nodes path.components → s''.strikes < s.strikes →
      ok (.error (NativeCode.directoryNotEmpty : NativeError)) s'')
    (hmissing : ∀ (code : NativeCode) s'', code.isNotFound = true → path.components ≠ root →
      Lessened root s s'' path.components → ok (.error (code : NativeError)) s'') :
    Ensures (Wavers root) (Operation.attempt tx (.removeDirectory path)) s' ok err := by
  obtain ⟨n, hn, hk⟩ := hs.node
  have hn' : s'.nodes.lookup path.components = some n := by rw [h.kept, hn]
  have hs' : Removable s' path levels kind := hs.of_dwindles h.dwindles (by simp [hn'])
  have hmounted : n.mounted = false := hs'.unmounted [] n (by rw [PathMap.branch_nil, hn'])
  have hlike : n.isDirectoryLike = true := by
    rw [Node.isDirectoryLike, hk]
    rcases hkind with rfl | rfl <;> rfl
  rw [wavering_attempt]
  constructor
  · cases hchildren : s'.nodes.hasChildren path with
    | false =>
      have hleaf (c : Component) : s'.nodes.lookup (path.components ++ [c]) = none := by
        cases hl : s'.nodes.lookup (path.components ++ [c]) with
        | none => rfl
        | some m =>
          obtain ⟨b, rfl⟩ := hs'.regular.names [c] m hl c (by simp)
          rw [Tree.hasChildren_eq_false.mp hchildren (.name b) (by simp)] at hl
          cases hl
      have hgoes := perform_removeDirectory hn' hlike hmounted hleaf
      rw [hgoes]
      apply hremoved
      refine ⟨h.dwindles.trans (.erase hleaf), h.strikes, .inl ?_⟩
      rw [PathMap.lookup_erase, if_pos rfl]
    | true =>
      have hnotEmpty : ¬∀ c, s'.nodes.lookup (path.components ++ [c]) = none := by
        intro hnone
        rw [Tree.hasChildren_eq_false.mpr fun c _ => hnone c] at hchildren
        cases hchildren
      have hdirectory : n.kind = .directory := by
        by_cases hfile : n.kind = .directory
        · exact hfile
        · exact absurd (fun c => hs'.regular.eq_none_below (by rw [PathMap.branch_nil, hn']) hfile
            (by simp)) hnotEmpty
      have hstays : s'.nodes.perform (.removeDirectory path) =
          (.error (NativeCode.directoryNotEmpty : NativeError), s'.nodes) := by
        rw [Tree.perform, Tree.withoutDirectory_of_hasChildren hn' hdirectory hchildren]
        rfl
      rw [hstays]
      exact hfull _ hs' h.dwindles (h.empty.resolve_left hnotEmpty)
  · intro code left hpasses hleft
    have hless : left < s.strikes := Nat.lt_of_lt_of_le hleft h.strikes
    rcases hpasses.2 with ⟨-, rfl⟩ | ⟨hne, hcode, -⟩
    · exact hfull _ ⟨hs'.regular, hs'.unmounted, hs'.node⟩ h.dwindles hless
    · exact hmissing code _ hcode hne ⟨h.dwindles, Nat.le_of_lt hless, .inr ⟨hne, hless⟩⟩

/-- One attempt to remove a directory that was emptied, and what is done where it is made again:
only an attempt that has used up a strike is. -/
theorem lessens_removal {levels : Nat} {kind : NodeKind} {context : Context} {note : Note}
    {again : NativeError → RetryAction → Operation Unit} (hs : Removable s path levels kind)
    (hkind : kind = .directory ∨ kind = .link true) (hrequire : context.requireEmpty = false)
    (hmissing : context.continueIfMissing = true ∨ path.components = root)
    (h : Emptied s s' path)
    (hagain : ∀ e s'', Removable s'' path levels kind →
      s.nodes.Dwindles s''.nodes path.components → s''.strikes < s.strikes →
      Ensures (Wavers root) (again e .pause) s'' (fun _ s₁ => Lessened root s s₁ path.components)
        (fun _ _ => False)) :
    Ensures (Wavers root) (Operation.attempt tx (.removeDirectory path) >>= fun result =>
      match result with
      | .ok () => Operation.note note
      | .error e =>
        match classify e.code context with
        | .success => pure ()
        | .fatal kind => Operation.fail (kind.error path e)
        | .retry action => again e action) s'
      (fun _ s₁ => Lessened root s s₁ path.components) (fun _ _ => False) := by
  have hfull : classify .directoryNotEmpty context = .retry .pause := by
    simp [classify, hrequire]
  have hgone (code : NativeCode) (hcode : code.isNotFound = true) (hne : path.components ≠ root) :
      classify code context = .success := by
    have hcontinue := hmissing.resolve_right hne
    revert hcode
    unfold NativeCode.isNotFound
    split <;> simp [classify, hcontinue]
  rw [Operation.ensures_bind]
  apply wavering_removeDirectory hs hkind h
  · intro s'' hlessened
    exact wavering_note.mpr hlessened
  · intro s'' hs'' hdwindles hless
    dsimp only
    rw [hfull]
    exact hagain _ s'' hs'' hdwindles hless
  · intro code s'' hcode hne hlessened
    dsimp only
    rw [hgone code hcode hne]
    exact ensures_pure.mpr hlessened

/-- As long as there are as many retries as strikes, one attempt after another is made until the
directory has gone or is reported missing: an attempt that fails has used up a strike. -/
theorem lessens_removeRepeatedly {levels : Nat} {kind : NodeKind} {emptyIt : Operation Unit}
    {context : Context} {attributes : Attributes} (hkind : kind = .directory ∨ kind = .link true)
    (hrequire : context.requireEmpty = false)
    (hmissing : context.continueIfMissing = true ∨ path.components = root) (retries attempt : Nat)
    (hempty : ∀ s', Removable s' path levels kind → s'.strikes ≤ s.strikes →
      Ensures (Wavers root) emptyIt s' (fun _ s'' => Emptied s' s'' path) (fun _ _ => False))
    (hs : Removable s path levels kind) (hstrikes : s.strikes ≤ retries) :
    Lessens root (removeRepeatedly opts context path attributes emptyIt retries attempt) s
      path.components := by
  induction retries generalizing s attempt with
  | zero =>
    unfold Lessens removeRepeatedly
    rw [Operation.ensures_bind]
    apply (hempty s hs (Nat.le_refl _)).mono_ok
    intro _ s' hemptied
    apply lessens_removal hs hkind hrequire hmissing hemptied
    intro e s'' _ _ hless
    omega
  | succ retries ih =>
    unfold Lessens removeRepeatedly
    rw [Operation.ensures_bind]
    apply (hempty s hs (Nat.le_refl _)).mono_ok
    intro _ s' hemptied
    apply lessens_removal hs hkind hrequire hmissing hemptied
    intro e s'' hs'' hdwindles hless
    have hagain : Lessens root (removeRepeatedly opts context path attributes emptyIt retries
        (attempt + 1)) s'' path.components :=
      ih (attempt + 1) (fun s₁ h hle => hempty s₁ h (by omega)) hs'' (by omega)
    have hlessens : Ensures (Wavers root) (removeRepeatedly opts context path attributes emptyIt
        retries (attempt + 1)) s'' (fun _ s₁ => Lessened root s s₁ path.components)
        (fun _ _ => False) :=
      hagain.mono_ok fun _ _ h => h.of_dwindles hdwindles (Nat.le_of_lt hless)
    rw [Operation.ensures_bind, wavering_note]
    dsimp only
    split
    · rw [Operation.ensures_bind, wavering_pause]
      exact hlessens
    · exact hlessens

/-! ### Whole deletes -/

/-- A delete with enough retries leaves nothing behind that has not cost a strike, and never leaves
the root. -/
theorem lessens_deleteNode (hrecursive : opts.recursive = true)
    (hopts : opts.ignoreReadOnly = true) {levels : Nat} {continueIfMissing : Bool} {kind : NodeKind}
    (hs : Removable s path levels kind) (hkind : kind = .directory ∨ kind = .link true)
    (hbelow : root <+: path.components)
    (hmissing : continueIfMissing = true ∨ path.components = root)
    (hstrikes : s.strikes ≤ opts.retry.attempts - 1) :
    Lessens root (deleteNode opts levels continueIfMissing path) s path.components := by
  induction levels generalizing continueIfMissing path kind s with
  | zero =>
    obtain ⟨n, hn, -⟩ := hs.node
    exact absurd (hs.regular.bound_pos (by rw [PathMap.branch_nil, hn])) (Nat.lt_irrefl 0)
  | succ levels ih =>
    obtain ⟨n, hn, hk⟩ := hs.node
    have houtlasts :
        Outlasts root (opts.retry.attempts - 1) (deleteNode opts levels true) levels := by
      intro s' child kind' hs' hkind' hbelow' _ hstrikes'
      exact ih hs' hkind' hbelow' (.inl rfl) hstrikes'
    have hmounted : n.mounted = false := hs.unmounted [] n (by rw [PathMap.branch_nil, hn])
    have hlike : n.isDirectoryLike = true := by
      rw [Node.isDirectoryLike, hk]
      rcases hkind with rfl | rfl <;> rfl
    have hentry : s.nodes.perform (.query path) = (.ok ((n.child path).entryAt path), s.nodes) :=
      Prod.ext (Tree.entry_eq_ok.mpr ⟨n, hn, rfl⟩) rfl
    have hdescribes := n.describes_entryAt path
    unfold Lessens deleteNode
    rw [Operation.ensures_bind, wavering_attempt, hentry]
    constructor
    · generalize (n.child path).entryAt path = info at hdescribes
      dsimp only
      rw [hdescribes.isDirectory, hlike, if_neg (by simp), hdescribes.isMountPoint, hmounted,
        if_neg (by simp), hrecursive, hdescribes.isReparsePoint, Operation.ensures_bind]
      have hdescends : (true && (!n.isLink || false)) = true ∧ kind = .directory ∨
          (true && (!n.isLink || false)) = false ∧ kind = .link true := by
        rcases hkind with rfl | rfl
        · exact .inl ⟨by simp [Node.isLink, hk], rfl⟩
        · exact .inr ⟨by simp [Node.isLink, hk], rfl⟩
      apply (wavering_releaseReadOnly hopts hn info).mono_ok
      rintro _ s' ⟨hdwindles, hleft, hsome⟩
      have hs' := hs.of_dwindles hdwindles hsome
      apply (lessens_removeRepeatedly hkind rfl hmissing _ 1 _ hs' (by omega)).mono_ok
      · intro _ s'' h
        exact h.of_dwindles hdwindles (Nat.le_of_eq hleft)
      · intro s₁ hs₁ hle
        exact emptied_emptyIt houtlasts hopts hs₁ hdescends hbelow (by omega)
    · intro code left hpasses hleft
      obtain ⟨hne, hcode⟩ := hpasses.missing (by simp [Call.primitive])
      dsimp only
      rw [hcode, hmissing.resolve_right hne, if_pos (Bool.and_self true)]
      exact wavering_note.mpr (lessened_of_struck hne hleft)

theorem lessens_deleteDirectory {levels : Nat} {path : Path} (hrecursive : opts.recursive = true)
    (hopts : opts.ignoreReadOnly = true) (hs : Removable s path levels .directory)
    (hstrikes : s.strikes ≤ opts.retry.attempts - 1) :
    Lessens path.components (deleteDirectory levels opts path) s path.components := by
  unfold Lessens deleteDirectory
  simp only [Operation.ensures_bind, wavering_resolve, wavering_note]
  exact lessens_deleteNode hrecursive hopts hs (.inl rfl) (List.prefix_refl _) (.inr rfl) hstrikes

end Removal

/-- Where nothing is mounted and only failures are scripted that pass, a recursive delete that may
clear read-only attributes succeeds and leaves exactly what is not at or below its root, as long as
the failures can strike less often than one removal is attempted. -/
theorem delete_outlasts_failures (m : Memory) (listener : Listener) (levels : Nat)
    (opts : DeleteOptions) (root : Path) (hwf : m.nodes.WellFormed)
    (hunmounted : ∀ e ∈ m.nodes.entries, e.2.mounted = false) (hlevels : m.nodes.levels ≤ levels)
    (hroot : m.nodes.IsDirectoryAt root.components) (hrecursive : opts.recursive = true)
    (hopts : opts.ignoreReadOnly = true)
    (htransient : ∀ f ∈ m.failures, IsTransient root.components f)
    (hstrikes : strikes m.failures < max 1 opts.retry.attempts) :
    let run := m.runs listener (deleteDirectory levels opts root)
    run.result = .ok () ∧ m.nodes.Without run.memory.nodes root.components := by
  have hview : Regular (m.nodes.branch root.components) levels :=
    hwf.regular hlevels (hwf.ne_nil_of_directory hroot)
  have hclear : Unmounted (m.nodes.branch root.components) := by
    intro way n hn
    obtain ⟨key, hkey, -⟩ := PathMap.lookup_eq_some_iff.mp hn
    exact hunmounted _ hkey
  have hlessens : Lessens root.components (deleteDirectory levels opts root)
      ⟨m.nodes, strikes m.failures⟩ root.components :=
    lessens_deleteDirectory hrecursive hopts ⟨hview, hclear, hroot⟩ (by simp only; omega)
  obtain ⟨_, hresult, hlessened⟩ := (ends_runs_transient listener htransient hlessens).exists_ok
  have hgone := hlessened.gone.resolve_right fun h => h.1 rfl
  exact ⟨hresult, hlessened.dwindles.without hview hgone⟩

/-- A file, a directory above it, a link and the root are struck once each, and there are as many
attempts as it takes. -/
theorem delete_outlasts_failures_nested :
    let m : Memory := { ((((new.addFile "/r/a/f" 3).addFile "/r/b" 4).addLink "/r/a/l" true).addFile
        "/other" 5).setReadOnly "/r/a/f" with
      failures := [⟨.deleteFile, "/r/a/f", .fileNotFound, some 1⟩,
        ⟨.list, "/r/a", .pathNotFound, some 1⟩, ⟨.removeDirectory, "/r/a/l", .fileNotFound, some 1⟩,
        ⟨.removeDirectory, "/r", .directoryNotEmpty, some 1⟩] }
    let opts : DeleteOptions := { recursive := true, ignoreReadOnly := true, retry := ⟨5, 0⟩ }
    let run := m.runs {} (deleteDirectory m.levels opts "/r")
    run.result = .ok () ∧ m.nodes.Without run.memory.nodes (Path.components "/r") :=
  delete_outlasts_failures _ _ _ { recursive := true, ignoreReadOnly := true, retry := ⟨5, 0⟩ } "/r"
    (by decide) (by decide) (Nat.le_refl _) ⟨_, rfl, rfl⟩ rfl rfl (by decide) (by decide)

end Memory

end TreeOps
