import TreeOps.Proofs.Memory.Touches

/-!
# Trees that are closed above

Seen by place, a tree is closed above if names lead from the root to every node and what is above a
node is a directory. A condition on the names may go along: without one the tree is well-formed, and
with valid UTF-8 it is sound. Looking, removing and setting flags keep a tree closed whatever the
path is. A directory or a copy needs such names on its path, and so does a rename, which must not
lead below its own source. Only a copy that may replace what it finds depends on the nodes: it must
not take the place of a directory that has something in it.
-/

namespace TreeOps

/-- Names that meet a condition lead from the root to a place. -/
def ByNames (ok : Bytes → Prop) (place : Place) : Prop :=
  ∃ way, place = .root :: way ∧ ∀ c ∈ way, ∃ b, c = .name b ∧ ok b

namespace ByNames

variable {ok : Bytes → Prop} {place : Place}

theorem ne_nil (h : ByNames ok place) : place ≠ [] := by
  obtain ⟨way, rfl, -⟩ := h
  simp

theorem append {way : Place} (h : ByNames ok place)
    (hway : ∀ c ∈ way, ∃ b, c = .name b ∧ ok b) : ByNames ok (place ++ way) := by
  obtain ⟨front, rfl, hfront⟩ := h
  refine ⟨front ++ way, rfl, fun c hc => ?_⟩
  exact (List.mem_append.mp hc).elim (hfront c) (hway c)

theorem child {b : Bytes} (h : ByNames ok place) (hb : ok b) : ByNames ok (place ++ [.name b]) :=
  h.append fun _ hc => ⟨b, List.mem_singleton.mp hc, hb⟩

/-- What follows on a place that is not empty is names. -/
theorem names {way : Place} (h : ByNames ok (place ++ way)) (hne : place ≠ []) :
    ∀ c ∈ way, ∃ b, c = .name b ∧ ok b := by
  obtain ⟨front, hfront, hnames⟩ := h
  obtain ⟨c, rest, rfl⟩ := List.exists_cons_of_ne_nil hne
  rw [List.cons_append, List.cons.injEq] at hfront
  exact fun d hd => hnames d (hfront.2 ▸ List.mem_append_right rest hd)

theorem above {above : Place} (h : ByNames ok place) (habove : above <+: place)
    (hne : above ≠ []) : ByNames ok above := by
  obtain ⟨way, rfl, hnames⟩ := h
  obtain ⟨c, rest, rfl⟩ := List.exists_cons_of_ne_nil hne
  obtain ⟨rfl, hrest⟩ := List.cons_prefix_cons.mp habove
  exact ⟨rest, rfl, fun d hd => hnames d (hrest.subset hd)⟩

end ByNames

namespace Tree

theorem not_isDirectoryAt {t : Tree} {place : Place} {n : Node} (hn : t.lookup place = some n)
    (hk : n.kind ≠ .directory) : ¬t.IsDirectoryAt place := by
  rintro ⟨d, hd, hdir⟩
  exact hk (Option.some.inj (hn.symm.trans hd) ▸ hdir)

/-- Names that meet a condition lead from the root to every node, and what is above a node is a
directory. -/
structure Closed (ok : Bytes → Prop) (t : Tree) : Prop where
  byNames : ∀ place n, t.lookup place = some n → ByNames ok place
  closed : ∀ base b n, t.lookup (base ++ [.name b]) = some n → t.IsDirectoryAt base

theorem Closed.wellFormed {ok : Bytes → Prop} {t : Tree} (h : t.Closed ok) : t.WellFormed := by
  have hnamed {e : Path × Node} (he : e ∈ t.entries) : ByNames ok e.1.components :=
    h.byNames _ _ (PathMap.lookup_of_mem he)
  refine ⟨fun e he => ?_, fun e he hroot => ?_⟩
  · obtain ⟨way, hway, hnames⟩ := hnamed he
    refine Path.isNormal_iff.mpr ⟨way, hway, fun c hc => ?_⟩
    obtain ⟨b, rfl, -⟩ := hnames c hc
    exact ⟨b, rfl⟩
  · obtain ⟨way, hway, hnames⟩ := hnamed he
    rcases List.eq_nil_or_concat way with rfl | ⟨front, c, rfl⟩
    · exact absurd hway hroot
    · obtain ⟨b, rfl, -⟩ := hnames c (by simp)
      have hcomponents : e.1.components = (.root :: front) ++ [.name b] := by simpa using hway
      rw [parent_bind_find? hcomponents (by simp)]
      obtain ⟨d, hd, hk⟩ := h.closed _ b e.2 (hcomponents ▸ PathMap.lookup_of_mem he)
      rw [hd, Option.map_some, hk]

/-- Without a condition on the names a tree is closed exactly if it is well-formed. -/
theorem closed_iff {t : Tree} : t.Closed (fun _ => True) ↔ t.WellFormed := by
  refine ⟨Closed.wellFormed, fun h => ⟨fun place n hn => ?_, fun base b n hn => ?_⟩⟩
  · obtain ⟨way, rfl, hnames⟩ := h.normal_of_lookup hn
    refine ⟨way, rfl, fun c hc => ?_⟩
    obtain ⟨b, rfl⟩ := hnames c hc
    exact ⟨b, rfl, trivial⟩
  · refine h.directory_above hn ?_
    rintro rfl
    obtain ⟨way, hway, -⟩ := h.normal_of_lookup hn
    cases hway

section Relocation

variable {t : Tree} {source destination : Path} {place : Place} (hsource : source.components ≠ [])
include hsource

theorem lookup_relocate_vacant (hvacant : ∀ way, t.lookup (destination.components ++ way) = none)
    (way : Place) :
    (t.relocate source destination).lookup (destination.components ++ way) =
      t.lookup (source.components ++ way) := by
  rw [lookup_relocate_below hsource, hvacant, ite_self, Option.or_none]

theorem lookup_relocate_elsewhere (hto : ¬destination.components <+: place)
    (hfrom : ¬source.components <+: place) :
    (t.relocate source destination).lookup place = t.lookup place := by
  rw [lookup_relocate_of_not_below hsource hto, if_neg hfrom]

/-- A node of a relocated tree was moved there, or has stayed apart from both places. -/
theorem exists_of_relocate (hvacant : ∀ way, t.lookup (destination.components ++ way) = none)
    {n : Node} (hn : (t.relocate source destination).lookup place = some n) :
    (∃ way, place = destination.components ++ way ∧
      t.lookup (source.components ++ way) = some n) ∨
    ¬destination.components <+: place ∧ ¬source.components <+: place ∧
      t.lookup place = some n := by
  by_cases hto : destination.components <+: place
  · obtain ⟨way, rfl⟩ := hto
    rw [lookup_relocate_vacant hsource hvacant] at hn
    exact .inl ⟨way, rfl, hn⟩
  · rw [lookup_relocate_of_not_below hsource hto] at hn
    split at hn
    · cases hn
    · next hfrom => exact .inr ⟨hto, hfrom, hn⟩

end Relocation

namespace Closed

variable {ok : Bytes → Prop} {t t' : Tree} {path : Path} {place : Place}

/-- Nothing is in what is no directory. -/
theorem eq_none_in (h : t.Closed ok) (hdir : ¬t.IsDirectoryAt place) (b : Bytes) :
    t.lookup (place ++ [.name b]) = none := by
  cases hn : t.lookup (place ++ [.name b]) with
  | none => rfl
  | some n => exact absurd (h.closed place b n hn) hdir

/-- A change at one place keeps a tree closed if what is new there is reached from a directory, and
what is in it stays in a directory. -/
theorem of_change (h : t.Closed ok) (place : Place)
    (hsame : ∀ other, other ≠ place → t'.lookup other = t.lookup other)
    (hnew : ∀ n, t'.lookup place = some n →
      ByNames ok place ∧ ∀ base b, place = base ++ [.name b] → t.IsDirectoryAt base)
    (hbelow : t'.IsDirectoryAt place ∨ ∀ b, t.lookup (place ++ [.name b]) = none) :
    t'.Closed ok where
  byNames other n hn := by
    by_cases hother : other = place
    · rw [hother] at hn ⊢
      exact (hnew n hn).1
    · exact h.byNames other n (hsame other hother ▸ hn)
  closed base b n hn := by
    by_cases hbase : base = place
    · rw [hbase] at hn ⊢
      refine hbelow.resolve_right fun hnone => ?_
      rw [hsame _ (by simp), hnone b] at hn
      cases hn
    · have hdir : t.IsDirectoryAt base := by
        by_cases hplace : base ++ [.name b] = place
        · exact (hnew n (hplace ▸ hn)).2 base b hplace.symm
        · exact h.closed base b n (hsame _ hplace ▸ hn)
      unfold IsDirectoryAt
      rwa [hsame base hbase]

/-! ### Single nodes -/

/-- A new node is reached from the directory that it is put in. -/
theorem insert (h : t.Closed ok) {n parent : Node} (hparent : t.parentDirectory path = .ok parent)
    (hpath : ByNames ok path.components)
    (hbelow : n.kind = .directory ∨ ∀ b, t.lookup (path.components ++ [.name b]) = none) :
    Closed ok (t.insert path n) := by
  have hlookup := t.lookup_insert path n
  refine h.of_change path.components (fun other hother => ?_) (fun _ _ => ?_) ?_
  · rw [hlookup, if_neg (Ne.symm hother)]
  · refine ⟨hpath, fun base b hbase => ?_⟩
    have hdir := isDirectoryAt_of_parentDirectory hparent
    rwa [hbase, List.dropLast_concat] at hdir
  · refine hbelow.imp_left fun hn => ⟨n, ?_, hn⟩
    rw [hlookup, if_pos rfl]

/-- Whatever has nothing in it can be removed. -/
theorem erase (h : t.Closed ok) (hbelow : ∀ b, t.lookup (path.components ++ [.name b]) = none) :
    Closed ok (t.erase path) := by
  have hlookup := t.lookup_erase path
  refine h.of_change path.components (fun other hother => ?_) (fun n hn => ?_)
    (.inr hbelow)
  · rw [hlookup, if_neg (Ne.symm hother)]
  · rw [hlookup, if_pos rfl] at hn
    cases hn

/-- What a node is matters, not the rest of it. -/
theorem modify (h : t.Closed ok) {f : Node → Node} (hf : ∀ n, (f n).kind = n.kind) :
    Closed ok (t.modify path f) := by
  have hlookup := t.lookup_modify path f
  have hhere := hlookup path.components
  rw [if_pos rfl] at hhere
  refine h.of_change path.components (fun other hother => ?_) (fun n hn => ?_) ?_
  · rw [hlookup, if_neg (Ne.symm hother)]
  · rw [hhere] at hn
    obtain ⟨n', hn', -⟩ := Option.map_eq_some_iff.mp hn
    refine ⟨h.byNames _ n' hn', fun base b hbase => h.closed base b n' (hbase ▸ hn')⟩
  · by_cases hdir : t.IsDirectoryAt path.components
    · obtain ⟨n, hn, hk⟩ := hdir
      exact .inl ⟨f n, by rw [hhere, hn, Option.map_some], (hf n).trans hk⟩
    · exact .inr (h.eq_none_in hdir)

/-! ### Renaming -/

/-- What is at the destination of a rename is gone, and nothing was in it. -/
theorem vacated {n : Node} {replace : Bool} (h : t.Closed ok)
    (hv : t.vacated n path replace = .ok t') : t'.Closed ok ∧ t'.lookup path.components = none := by
  rcases vacated_cases hv with ⟨hnone, rfl⟩ | ⟨target, htarget, hchildren, rfl⟩
  · exact ⟨h, hnone⟩
  · refine ⟨h.erase fun b => ?_, by rw [PathMap.lookup_erase, if_pos rfl]⟩
    by_cases hk : target.kind = .directory
    · exact hasChildren_eq_false.mp (hchildren hk) (.name b) (by simp)
    · exact h.eq_none_in (not_isDirectoryAt htarget hk) b

/-- A subtree goes where nothing is, in a directory that is not part of it. -/
theorem relocate {source destination : Path} (h : t.Closed ok)
    (hsource : source.components ≠ [])
    (houtside : ¬(source.components <+: destination.components ∧
      source.components ≠ destination.components))
    (hpath : ByNames ok destination.components)
    (hnone : t.lookup destination.components = none)
    (hparent : ∀ base b, destination.components = base ++ [.name b] → t.IsDirectoryAt base) :
    (t.relocate source destination).Closed ok := by
  have hvacant := h.wellFormed.eq_none_below hnone hpath.ne_nil
  refine ⟨fun place n hn => ?_, fun base b n hn => ?_⟩
  · rcases exists_of_relocate hsource hvacant hn with ⟨way, rfl, hmoved⟩ | ⟨-, -, hkept⟩
    · exact hpath.append ((h.byNames _ n hmoved).names hsource)
    · exact h.byNames place n hkept
  · rcases exists_of_relocate hsource hvacant hn with ⟨way, hway, hmoved⟩ | ⟨hto, hfrom, hkept⟩
    · rcases List.eq_nil_or_concat way with rfl | ⟨front, c, rfl⟩
      · -- The subtree itself lies in the directory that it was moved to.
        rw [List.append_nil] at hway
        obtain ⟨d, hd, hk⟩ := hparent base b hway.symm
        have habove : base <+: destination.components := hway ▸ List.prefix_append base _
        have hbelow : ¬destination.components <+: base := hway ▸ concat_not_prefix_self
        refine ⟨d, ?_, hk⟩
        rwa [lookup_relocate_elsewhere hsource hbelow
          fun hs => houtside ⟨hs.trans habove, fun heq => hbelow (heq ▸ hs)⟩]
      · rw [List.concat_eq_append, ← List.append_assoc] at hway
        obtain ⟨rfl, hc⟩ := List.append_inj' hway rfl
        obtain rfl := List.singleton_inj.mp hc
        rw [List.concat_eq_append, ← List.append_assoc] at hmoved
        obtain ⟨d, hd, hk⟩ := h.closed _ b n hmoved
        exact ⟨d, (lookup_relocate_vacant hsource hvacant front).trans hd, hk⟩
    · have habove : base <+: base ++ [.name b] := List.prefix_append base _
      obtain ⟨d, hd, hk⟩ := h.closed base b n hkept
      refine ⟨d, ?_, hk⟩
      rwa [lookup_relocate_elsewhere hsource (fun hs => hto (hs.trans habove))
        fun hs => hfrom (hs.trans habove)]

end Closed

end Tree

/-! ### Calls -/

/-- What a call needs for a tree to stay closed. -/
def Call.IsSafeFor (ok : Bytes → Prop) (t : Tree) : Call → Prop
  | .createDirectory path => ByNames ok path.components
  | .copy _ path flags => ByNames ok path.components ∧
      (flags.overwrite = true → ∀ b, t.lookup (path.components ++ [.name b]) = none)
  | .move source destination _ => ByNames ok destination.components ∧
      ¬(source.components <+: destination.components ∧
        source.components ≠ destination.components)
  | _ => True

/-- A safe call keeps a tree closed. -/
theorem Tree.Closed.perform {ok : Bytes → Prop} {t : Tree} {c : Call} (h : t.Closed ok)
    (hc : c.IsSafeFor ok t) : (t.perform c).2.Closed ok := by
  cases c with
  | list dir => exact h
  | query path => exact h
  | sameVolume a b => exact h
  | createDirectory path =>
    refine update_keeps (P := Closed ok) h fun t' ht' => ?_
    obtain ⟨-, ⟨parent, hparent⟩, rfl⟩ := withDirectory_eq_ok.mp ht'
    exact h.insert hparent hc (.inl rfl)
  | removeDirectory path =>
    refine update_keeps (P := Closed ok) h fun t' ht' => ?_
    obtain ⟨n, hn, -, hempty, rfl⟩ := withoutDirectory_eq_ok.mp ht'
    refine h.erase fun b => ?_
    by_cases hk : n.kind = .directory
    · exact hasChildren_eq_false.mp (hempty hk).1 (.name b) (by simp)
    · exact h.eq_none_in (not_isDirectoryAt hn hk) b
  | deleteFile path =>
    refine update_keeps (P := Closed ok) h fun t' ht' => ?_
    obtain ⟨n, hn, hk, -, rfl⟩ := withoutFile_eq_ok.mp ht'
    exact h.erase (h.eq_none_in (not_isDirectoryAt hn hk))
  | setAttributes path attributes =>
    refine update_keeps (P := Closed ok) h fun t' ht' => ?_
    obtain ⟨-, rfl⟩ := withAttributes_eq_ok.mp ht'
    exact h.modify fun _ => rfl
  | unmount path =>
    refine update_keeps (P := Closed ok) h fun t' ht' => ?_
    obtain ⟨-, rfl⟩ := withUnmounted_eq_ok.mp ht'
    exact h.modify fun _ => rfl
  | move source destination replace =>
    refine update_keeps (P := Closed ok) h fun t' ht' => ?_
    obtain ⟨n, parent, hn, hparent, -, v, hv, rfl⟩ := withMoved_eq_ok.mp ht'
    obtain ⟨hclosed, hnone⟩ := h.vacated hv
    have hsource : source.components ≠ [] := (h.byNames _ n hn).ne_nil
    refine hclosed.relocate hsource hc.2 hc.1 hnone fun base b hbase => ?_
    have hdir := isDirectoryAt_of_parentDirectory hparent
    rw [hbase, List.dropLast_concat] at hdir
    obtain ⟨d, hd, hk⟩ := hdir
    exact ⟨d, (agreeOutside_vacated hv base (by simp [hbase])).trans hd, hk⟩
  | copy source path flags =>
    simp only [Tree.perform]
    cases hcopied : t.withCopy source path flags with
    | error e => exact h
    | ok copied =>
      obtain ⟨bytes, t'⟩ := copied
      obtain ⟨n, -, -, hfree, parent, hparent, -, rfl⟩ := withCopy_eq_ok.mp hcopied
      refine h.insert hparent hc.1 (.inr ?_)
      cases hover : flags.overwrite with
      | true => exact hc.2 hover
      | false =>
        refine h.eq_none_in ?_
        rintro ⟨d, hd, -⟩
        cases (hfree hover).symm.trans hd

end TreeOps
