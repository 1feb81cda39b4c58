import TreeOps.Proofs.Transfer.Frame

/-!
# A copy that is not stopped is complete

Whatever fails: if a copy comes to an end and was not canceled, every file and link of the source is
at the destination with the same kind and size. It is enough that the source lies apart from the
destination, since then the copy leaves the source as it is, and that the names in it are valid
UTF-8, since then entries of one directory are copied to places of their own.
-/

namespace TreeOps

/-- Every file and link that is seen is below a place, with the same kind and size. -/
def HoldsLeaves (view : Place → Option Node) (t : Tree) (place : Place) : Prop :=
  ∀ way n, view way = some n → n.kind ≠ .directory →
    ∃ n', t.lookup (place ++ way) = some n' ∧ n'.content = n.content

namespace Memory

open Transfer Operation

variable {tx : Option Transaction} {flags : CopyFlags} {failing canceling : Prop} {s : Scene}
  {err : Halt → Scene → Prop}

/-! ### Single entries -/

theorem holdsLeaves_of_insert {view : Place → Option Node} {bound : Nat}
    (hview : Regular view bound) {n : Node} (hn : view [] = some n) (hk : n.kind ≠ .directory)
    (t : Tree) (target : Path) (volume : Nat) :
    HoldsLeaves view (t.insert target { n with volume := volume, mounted := false })
      target.components := by
  intro way m hm _
  by_cases hway : way = []
  · subst hway
    obtain rfl := Option.some.inj (hn.symm.trans hm)
    refine ⟨{ n with volume := volume, mounted := false }, ?_, rfl⟩
    rw [List.append_nil, PathMap.lookup_insert, if_pos rfl]
  · rw [hview.eq_none_below hn hk hway] at hm
    cases hm

/-! ### Trees -/

/-- A copy of a directory that is not canceled has copied every file and link in it. -/
def CopiesLeaves (copy : Path → Path → Tally → Operation Tally) : Prop :=
  ∀ (view : Place → Option Node) (bound : Nat) (source destination : Path) (t : Tally) (s : Scene),
    Regular view bound → Textual view → (∃ n, view [] = some n ∧ n.kind = .directory) →
    (∀ way, s.nodes.branch source.components way = view way) →
    Apart source.components destination.components →
    Ensures (Replies True True) (copy source destination t) s
      (fun t' s' => t'.canceled = false → HoldsLeaves view s'.nodes destination.components)
      (fun _ _ => True)

section Contents

variable {copyBelow : Path → Path → Tally → Operation Tally} (hcopy : CopiesLeaves copyBelow)
  {view : Place → Option Node} {bound : Nat} (hview : Regular view bound) (htext : Textual view)
  {source destination : Path}

include hcopy hview htext

/-- Copying one entry copies every file and link at and below it. -/
theorem ensures_copyEntry_complete {e : Entry} {b : Bytes} {n : Node} (t : Tally)
    (hsame : ∀ way, s.nodes.branch source.components way = view way)
    (hapart : Apart source.components destination.components)
    (hpath : e.path.components = source.components ++ [.name b]) (hname : IsName b)
    (hentry : e.name = Utf8.lossy b) (hn : view [.name b] = some n) (he : e.Describes n) :
    Ensures (Replies True True) (copyEntry tx flags copyBelow destination t e) s
      (fun t' s' => t'.canceled = false → t.canceled = false ∧
        HoldsLeaves (fun way => view (.name b :: way)) s'.nodes
          (destination.components ++ [.name b]))
      (fun _ _ => True) := by
  have htarget : (destination.child b).components = destination.components ++ [.name b] :=
    Path.components_child destination hname
  have hlookup : s.nodes.lookup e.path.components = some n := by
    rw [hpath, ← hn, ← hsame]
    rfl
  rw [copyEntry_of_isText (htext _ n hn b (by simp)) hentry he]
  split
  · next hcanceled =>
    refine ensures_pure.mpr fun hfalse => ?_
    rw [hcanceled] at hfalse
    cases hfalse
  · next hcanceled =>
    have hcanceled : t.canceled = false := by simpa using hcanceled
    split
    · next hk =>
      refine (hcopy _ _ e.path (destination.child b) t s (hview.below (.name b))
        (htext.below (.name b)) ⟨n, hn, hk⟩ (fun way => ?_) ?_).mono_ok fun t' s' h hfalse => ?_
      · rw [hpath, PathMap.branch_concat, hsame]
      · rw [hpath, htarget]
        exact hapart.append _ _
      · exact ⟨hcanceled, htarget ▸ h hfalse⟩
    · next hk =>
      refine (ensures_copyLeaf hlookup).mono ?_ fun _ _ _ => trivial
      rintro t' s' ⟨parent, -, rfl, -⟩ -
      exact ⟨hcanceled, htarget ▸ holdsLeaves_of_insert (hview.below (.name b)) hn hk s.nodes
        (destination.child b) parent.volume⟩

/-- What holds of a loop over the entries of a directory: as long as nothing was canceled, the files
and links at and below the entries that are done are at the destination. -/
structure PartlyCopied (view : Place → Option Node) (t : Tree) (source destination : Place)
    (before : List Entry) (tally : Tally) (t' : Tree) : Prop where
  agree : Tree.AgreeOutside (fun place => destination <+: place ∨ place <+: destination) t t'
  complete : tally.canceled = false → ∀ way n, view way = some n → n.kind ≠ .directory →
    (∃ e ∈ before, e.path.components <+: source ++ way) →
      ∃ n', t'.lookup (destination ++ way) = some n' ∧ n'.content = n.content

omit hcopy hview htext in
theorem PartlyCopied.concat {t t' t'' : Tree} {source destination : Place} {before : List Entry}
    {e : Entry} {b : Bytes} {tally tally' : Tally}
    (h : PartlyCopied view t source destination before tally t')
    (hpath : e.path.components = source ++ [.name b])
    (hagree : Tree.AgreeOutside (destination ++ [.name b] <+: ·) t' t'')
    (hcomplete : tally'.canceled = false → tally.canceled = false ∧
      HoldsLeaves (fun way => view (.name b :: way)) t'' (destination ++ [.name b])) :
    PartlyCopied view t source destination (before ++ [e]) tally' t'' where
  agree := h.agree.trans (hagree.mono fun _ hp => .inl ((List.prefix_append _ _).trans hp))
  complete hcanceled way n hn hk := by
    rintro ⟨d, hd, hpre⟩
    obtain ⟨hbefore, hleaves⟩ := hcomplete hcanceled
    by_cases hway : [.name b] <+: way
    · obtain ⟨rest, rfl⟩ := hway
      obtain ⟨n', hn', hcontent⟩ := hleaves rest n hn hk
      exact ⟨n', by rwa [List.append_assoc] at hn', hcontent⟩
    · -- What was copied before is at a place apart from that of the last entry.
      rcases List.mem_append.mp hd with hd | hd
      · obtain ⟨n', hn', hcontent⟩ := h.complete hbefore way n hn hk ⟨d, hd, hpre⟩
        refine ⟨n', (hagree _ fun hp => hway ?_).trans hn', hcontent⟩
        exact (List.prefix_append_right_inj _).mp hp
      · obtain rfl := List.mem_singleton.mp hd
        rw [hpath, List.prefix_append_right_inj] at hpre
        exact absurd hpre hway

omit hcopy htext in
/-- Once all entries are done, all files and links are at the destination. -/
theorem PartlyCopied.finish {t t' : Tree} {destination : Place} {tally : Tally}
    (hroot : ∃ n, view [] = some n ∧ n.kind = .directory)
    (hsame : ∀ way, t.branch source.components way = view way)
    (h : PartlyCopied view t source.components destination (t.entriesOf source) tally t')
    (hcanceled : tally.canceled = false) : HoldsLeaves view t' destination := by
  intro way n hn hk
  have hway : way ≠ [] := by
    rintro rfl
    obtain ⟨d, hd, hdir⟩ := hroot
    obtain rfl := Option.some.inj (hd.symm.trans hn)
    exact hk hdir
  have hregular : Regular (t.branch source.components) bound := by
    rw [funext hsame]
    exact hview
  exact h.complete hcanceled way n hn hk
    (Tree.exists_entry_above hregular ((hsame way).trans hn) hway)

theorem ensures_copyContents_complete
    (htouch : ∀ source destination t,
      Touches (Spelled destination.components) (copyBelow source destination t))
    (hroot : ∃ n, view [] = some n ∧ n.kind = .directory) (t : Tally)
    (hsame : ∀ way, s.nodes.branch source.components way = view way)
    (hapart : Apart source.components destination.components) :
    Ensures (Replies True True) (copyContents tx flags copyBelow source destination t) s
      (fun t' s' => t'.canceled = false → HoldsLeaves view s'.nodes destination.components)
      (fun _ _ => True) := by
  have hreported (t : Tally) (s₁ : Scene) (h₁ : s₁.nodes = s.nodes) :
      Ensures (Replies True True) (do
          if t.canceled then return t
          let entries ← childEntries tx source
          entries.foldlM (copyEntry tx flags copyBelow destination) t) s₁
        (fun t' s' => t'.canceled = false → HoldsLeaves view s'.nodes destination.components)
        (fun _ _ => True) := by
    rw [← h₁] at hsame
    split
    · next hcanceled =>
      refine ensures_pure.mpr fun hfalse => ?_
      rw [hcanceled] at hfalse
      cases hfalse
    · rw [Operation.ensures_bind, ensures_childEntries]
      refine ⟨fun _ _ _ => ?_, fun _ _ => trivial⟩
      refine (ensures_foldlM (fun before t' s' => PartlyCopied view s₁.nodes source.components
        destination.components before t' s'.nodes) ⟨.refl _, by simp⟩ ?_).mono_ok ?_
      · intro before e after t' s' hl hinv
        have hmem : e ∈ s₁.nodes.entriesOf source := by simp [hl]
        obtain ⟨b, m, hname, hpath, hentry, hlookup, hdescribes⟩ :=
          Tree.exists_of_mem_entriesOf hmem
        have hm : view [.name b] = some m := by
          rw [← hsame, PathMap.branch, ← hpath, hlookup]
        have hb : Utf8.IsText b := htext _ m hm b (by simp)
        have hsame' (way : Place) : s'.nodes.branch source.components way = view way :=
          (hapart.lookup_eq hinv.agree way).trans (hsame way)
        refine (((touches_copyEntry htouch hname hentry t').ensures s').and
          (ensures_copyEntry_complete hcopy hview htext t' hsame' hapart hpath hname hentry hm
            hdescribes)).mono ?_ fun _ _ _ => trivial
        rintro t'' s'' ⟨⟨hagree, -⟩, hcomplete⟩
        rw [Utf8.encode_lossy hb] at hagree
        exact hinv.concat hpath (hagree.mono fun _ => Spelled.below) hcomplete
      · exact fun t' s' hinv => hinv.finish hview hroot hsame
  unfold copyContents
  rw [Operation.ensures_bind, ensures_report]
  exact ⟨hreported _ _ rfl, fun _ => hreported _ _ rfl⟩

end Contents

theorem touches_copyTree_inner (levels : Nat) (source destination : Path) (t : Tally) :
    Touches (Spelled destination.components)
      (copyTree tx flags levels false source destination t) :=
  (touches_copyTree levels false source destination t).mono fun _ h => h.resolve_right (by simp)

/-- A copy that is not canceled has copied every file and link. -/
theorem copiesLeaves_copyTree (levels : Nat) (isRoot : Bool) :
    CopiesLeaves (copyTree tx flags levels isRoot) := by
  induction levels generalizing isRoot with
  | zero =>
    intro view bound source destination t s _ _ _ _ _
    exact ensures_throw.mpr trivial
  | succ levels ih =>
    intro view bound source destination t s hview htext hroot hsame hapart
    have hrest (s' : Scene) (hagree : Tree.AgreeOutside (fun place =>
        destination.components <+: place ∨ place <+: destination.components) s.nodes s'.nodes) :
        Ensures (Replies True True)
          (copyContents tx flags (copyTree tx flags levels false) source destination t) s'
          (fun t' s'' => t'.canceled = false → HoldsLeaves view s''.nodes destination.components)
          (fun _ _ => True) :=
      ensures_copyContents_complete (ih false) hview htext (touches_copyTree_inner levels) hroot t
        (fun way => (hapart.lookup_eq hagree way).trans (hsame way)) hapart
    cases isRoot with
    | false =>
      rw [copyTree_inner, Operation.ensures_bind]
      refine (touches_createOne.ensures s).mono (fun _ s' h => hrest s' ?_) fun _ _ _ => trivial
      exact h.1.mono fun place he => .inl (he ▸ List.prefix_refl _)
    | true =>
      rw [copyTree_root, Operation.ensures_bind]
      refine (touches_createResolved.ensures s).mono (fun _ s' h => hrest s' ?_)
        fun _ _ _ => trivial
      exact h.1.mono fun place => .inr

end Memory

end TreeOps
