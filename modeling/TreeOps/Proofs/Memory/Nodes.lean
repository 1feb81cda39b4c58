import TreeOps.Memory.Calls
import TreeOps.Proofs.Path.Ancestors
import TreeOps.Proofs.Path.Lookup

/-!
# What primitive calls do to the nodes

For each primitive call that can change nodes: what a success tells about the nodes before it, which
nodes there are after it, and when it does succeed. Nodes are looked up by place.
-/

namespace TreeOps

namespace Node

/-- What a transfer keeps of a node. -/
def content (n : Node) : NodeKind × UInt64 := (n.kind, n.size)

end Node

namespace Tree

variable {t t' : Tree} {path : Path}

/-! ### The node above -/

theorem parent_bind_find? {base : Place} {c : Component} (h : path.components = base ++ [c])
    (hc : c ≠ .root) : path.parent.bind t.find? = t.lookup base := by
  obtain ⟨q, hq, rfl⟩ := Path.parent_of_components h hc
  rw [hq]
  rfl

theorem exists_of_parentDirectory_eq_ok {n : Node} (h : t.parentDirectory path = .ok n) :
    n.kind = .directory ∧
      ∃ base c, c ≠ .root ∧ path.components = base ++ [c] ∧ t.lookup base = some n := by
  unfold parentDirectory at h
  cases hp : path.parent with
  | none => simp [hp] at h
  | some q =>
    obtain ⟨c, hc, hcomponents⟩ := Path.components_of_parent_eq_some hp
    simp only [hp, Option.bind_some] at h
    split at h
    · next n' hn =>
      split at h
      · next hk =>
        obtain rfl := Except.ok.inj h
        exact ⟨hk, _, c, hc, hcomponents, hn⟩
      · cases h
    · cases h

theorem parentDirectory_eq_ok {base : Place} {c : Component} {n : Node}
    (h : path.components = base ++ [c]) (hc : c ≠ .root) (hn : t.lookup base = some n)
    (hk : n.kind = .directory) : t.parentDirectory path = .ok n := by
  simp only [parentDirectory, parent_bind_find? h hc, hn, hk, if_true]

theorem parentDirectory_error {e : NativeError} (h : t.parentDirectory path = .error e) :
    e.code = .pathNotFound := by
  unfold parentDirectory at h
  split at h
  · split at h
    · cases h
    · obtain rfl := Except.error.inj h
      rfl
  · obtain rfl := Except.error.inj h
    rfl

theorem node_eq_ok {n : Node} {missing : NativeCode} :
    t.node path missing = .ok n ↔ t.lookup path.components = some n := by
  rw [node, PathMap.find?_eq_lookup]
  cases t.lookup path.components <;> simp

theorem node_eq_error {missing : NativeCode} (h : t.lookup path.components = none) :
    t.node path missing = .error (missing : NativeError) := by
  rw [node, PathMap.find?_eq_lookup, h]

/-- The node that stands for `n` at a new place. -/
theorem lookup_place (t : Tree) (path : Path) (n : Node) (place : Place) :
    (t.place path n).lookup place =
      if path.components = place then some { n with volume := t.volumeAbove path }
      else t.lookup place :=
  PathMap.lookup_insert ..

/-! ### Calls that change nodes -/

/-- What holds of a tree and of what a call makes of it holds after the call. -/
theorem update_keeps {P : Tree → Prop} {r : Except NativeError Tree} (h : P t)
    (hr : ∀ t', r = .ok t' → P t') : P (t.update r).2 := by
  cases r with
  | ok t' => exact hr t' rfl
  | error e => exact h

theorem update_ok {r : Except NativeError Tree} {value : Unit} (h : (t.update r).1 = .ok value) :
    r = .ok (t.update r).2 := by
  unfold update at h ⊢
  cases r with
  | ok t' => rfl
  | error e => cases h

theorem update_error {r : Except NativeError Tree} {e : NativeError}
    (h : (t.update r).1 = .error e) : r = .error e := by
  unfold update at h
  cases r with
  | ok t' => cases h
  | error e' => exact congrArg _ (Except.error.inj h)

theorem update_eq {r : Except NativeError Tree} (h : r = .ok t') : t.update r = (.ok (), t') := by
  rw [h]
  rfl

private theorem bind_eq_ok {α β : Type} {x : Except NativeError α} {f : α → Except NativeError β}
    {b : β} : x >>= f = .ok b ↔ ∃ a, x = .ok a ∧ f a = .ok b := by
  cases x with
  | ok a =>
    constructor
    · intro h
      exact ⟨a, rfl, h⟩
    · rintro ⟨a', ha, h⟩
      rw [Except.ok.inj ha]
      exact h
  | error e =>
    constructor
    · intro h
      cases h
    · rintro ⟨a', ha, -⟩
      cases ha

private theorem pure_eq {α : Type} {a : α} : (pure a : Except NativeError α) = .ok a := rfl

private theorem throw_eq {α : Type} {e : NativeError} :
    (throw e : Except NativeError α) = .error e := rfl

private theorem ok_bind {α β : Type} {a : α} {f : α → Except NativeError β} :
    (Except.ok a : Except NativeError α) >>= f = f a := rfl

private theorem error_bind {α β : Type} {e : NativeError} {f : α → Except NativeError β} :
    (Except.error e : Except NativeError α) >>= f = .error e := rfl

theorem withDirectory_eq_ok :
    t.withDirectory path = .ok t' ↔ t.lookup path.components = none ∧
      (∃ n, t.parentDirectory path = .ok n) ∧ t.place path .directory = t' := by
  unfold withDirectory
  rw [PathMap.contains_eq]
  cases hl : t.lookup path.components with
  | some n => simp [throw_eq, error_bind, -bind_pure_comp]
  | none => cases t.parentDirectory path <;> simp [pure_eq, ok_bind, error_bind, -bind_pure_comp]

theorem withDirectory_error {e : NativeError} (hnone : t.lookup path.components = none)
    (h : t.withDirectory path = .error e) : e.code = .pathNotFound := by
  unfold withDirectory at h
  rw [PathMap.contains_eq, hnone] at h
  cases hp : t.parentDirectory path with
  | ok n => simp [hp, pure_eq, ok_bind, -bind_pure_comp] at h
  | error e' =>
    simp only [hp, error_bind, Option.isSome_none, Bool.false_eq_true, if_false, pure_eq]
      at h
    rw [← Except.error.inj h]
    exact parentDirectory_error hp

theorem withoutDirectory_eq_ok :
    t.withoutDirectory path = .ok t' ↔ ∃ n, t.lookup path.components = some n ∧
      n.isDirectoryLike = true ∧
      (n.kind = .directory → t.hasChildren path = false ∧ n.mounted = false) ∧
      t.erase path = t' := by
  unfold withoutDirectory
  rw [bind_eq_ok]
  refine exists_congr fun n => ?_
  rw [node_eq_ok]
  refine and_congr_right fun _ => ?_
  unfold Node.isDirectoryLike
  split
  · next hk => simp [hk, throw_eq]
  · next hk => simp [hk, throw_eq]
  · next hk => simp [hk, pure_eq]
  · next hk =>
    cases t.hasChildren path <;> cases n.mounted <;>
      simp [hk, pure_eq, throw_eq, error_bind, -bind_pure_comp]

theorem withoutFile_eq_ok :
    t.withoutFile path = .ok t' ↔ ∃ n, t.lookup path.components = some n ∧
      n.kind ≠ .directory ∧ n.attributes.isReadOnly = false ∧ t.erase path = t' := by
  unfold withoutFile
  rw [bind_eq_ok]
  refine exists_congr fun n => ?_
  rw [node_eq_ok]
  refine and_congr_right fun _ => ?_
  by_cases hk : n.kind = .directory
  · simp [hk, throw_eq, error_bind, -bind_pure_comp]
  · cases n.attributes.isReadOnly <;> simp [hk, pure_eq, throw_eq, error_bind, -bind_pure_comp]

/-- A directory or what is read-only is not deleted as a file. -/
theorem withoutFile_denied {n : Node} (hn : t.lookup path.components = some n)
    (h : n.kind = .directory ∨ n.attributes.isReadOnly = true) :
    t.withoutFile path = .error (NativeCode.accessDenied : NativeError) := by
  unfold withoutFile
  rw [node_eq_ok.mpr hn, ok_bind, if_pos h]
  rfl

theorem hasChildren_eq_false :
    t.hasChildren path = false ↔ ∀ c, c ≠ .root → t.lookup (path.components ++ [c]) = none := by
  rw [hasChildren, Bool.not_eq_eq_eq_not, Bool.not_false, List.isEmpty_iff,
    List.eq_nil_iff_forall_not_mem]
  constructor
  · intro h c hc
    cases hl : t.lookup (path.components ++ [c]) with
    | none => rfl
    | some n =>
      obtain ⟨key, hkey, hcomponents⟩ := PathMap.lookup_eq_some_iff.mp hl
      exact absurd (PathMap.mem_children_iff.mpr ⟨hkey, c, hc, hcomponents⟩) (h (key, n))
  · intro h e he
    obtain ⟨hmem, c, hc, hcomponents⟩ := PathMap.mem_children_iff.mp he
    have hfound : t.lookup e.1.components = some e.2 := PathMap.lookup_of_mem hmem
    rw [hcomponents, h c hc] at hfound
    cases hfound

theorem exists_of_hasChildren (h : t.hasChildren path = true) :
    ∃ c n, t.lookup (path.components ++ [c]) = some n := by
  rw [hasChildren, Bool.not_eq_eq_eq_not, Bool.not_true, List.isEmpty_eq_false_iff] at h
  obtain ⟨e, he⟩ := List.exists_mem_of_ne_nil _ h
  obtain ⟨hmem, c, -, hcomponents⟩ := PathMap.mem_children_iff.mp he
  exact ⟨c, e.2, hcomponents ▸ PathMap.lookup_of_mem hmem⟩

theorem withCopy_eq_ok {source destination : Path} {flags : CopyFlags} {bytes : UInt64} :
    t.withCopy source destination flags = .ok (bytes, t') ↔
      ∃ n, t.lookup source.components = some n ∧ n.kind ≠ .directory ∧
        (flags.overwrite = false → t.lookup destination.components = none) ∧
        ∃ parent, t.parentDirectory destination = .ok parent ∧ bytes = n.size ∧
          t.insert destination { n with volume := parent.volume, mounted := false } = t' := by
  unfold withCopy
  rw [bind_eq_ok]
  refine exists_congr fun n => ?_
  rw [node_eq_ok]
  refine and_congr_right fun _ => ?_
  rw [PathMap.contains_eq]
  by_cases hk : n.kind = .directory
  · simp [hk, throw_eq, error_bind, -bind_pure_comp]
  · cases t.parentDirectory destination with
    | error e =>
      cases t.lookup destination.components <;> cases flags.overwrite <;>
        simp [hk, throw_eq, error_bind, -bind_pure_comp]
    | ok parent =>
      cases t.lookup destination.components <;> cases flags.overwrite <;>
        simp [hk, pure_eq, throw_eq, ok_bind, error_bind, eq_comm, -bind_pure_comp]

theorem withAttributes_eq_ok {attributes : Attributes} :
    t.withAttributes path attributes = .ok t' ↔ (∃ n, t.lookup path.components = some n) ∧
      t.modify path (Node.withAttributes · attributes) = t' := by
  simp [withAttributes, bind_eq_ok, pure_eq, node_eq_ok, -bind_pure_comp]

theorem withUnmounted_eq_ok :
    t.withUnmounted path = .ok t' ↔
      (∃ n, t.lookup path.components = some n ∧ n.mounted = true) ∧
        (t.modify path fun n => { n with mounted := false }) = t' := by
  unfold withUnmounted isMounted
  rw [PathMap.find?_eq_lookup]
  cases hl : t.lookup path.components with
  | none => simp
  | some n => cases hm : n.mounted <;> simp [hm]

/-! ### Renaming a subtree -/

section Move

variable {source destination : Path} {n : Node} {replace : Bool}

/-- A directory takes the place of nothing or of an empty directory. -/
theorem vacated_eq_ok (hn : n.kind = .directory) :
    t.vacated n destination replace = .ok t' ↔
      t.lookup destination.components = none ∧ t = t' ∨
        (∃ target, t.lookup destination.components = some target ∧ target.kind = .directory) ∧
          replace = true ∧ t.hasChildren destination = false ∧ t.erase destination = t' := by
  unfold vacated
  rw [PathMap.find?_eq_lookup]
  cases t.lookup destination.components with
  | none => simp
  | some target =>
    cases replace
    · simp
    · by_cases hk : target.kind = .directory <;> cases t.hasChildren destination <;> simp [hn, hk]

/-- What a rename clears away has nothing in it if it is a directory. -/
theorem vacated_cases (h : t.vacated n destination replace = .ok t') :
    t.lookup destination.components = none ∧ t = t' ∨
      ∃ target, t.lookup destination.components = some target ∧
        (target.kind = .directory → t.hasChildren destination = false) ∧
          t.erase destination = t' := by
  unfold vacated at h
  rw [PathMap.find?_eq_lookup] at h
  cases htarget : t.lookup destination.components with
  | none =>
    rw [htarget] at h
    exact .inl ⟨rfl, Except.ok.inj h⟩
  | some target =>
    rw [htarget] at h
    refine .inr ⟨target, rfl, ?_⟩
    cases replace
    · simp at h
    · by_cases hn : n.kind = .directory <;> by_cases hk : target.kind = .directory <;>
        cases hchildren : t.hasChildren destination <;> simp_all

theorem withMoved_eq_ok :
    t.withMoved source destination replace = .ok t' ↔
      ∃ n parent, t.lookup source.components = some n ∧
        t.parentDirectory destination = .ok parent ∧ parent.volume = n.volume ∧
        ∃ v, t.vacated n destination replace = .ok v ∧ v.relocate source destination = t' := by
  unfold withMoved
  rw [bind_eq_ok]
  refine exists_congr fun n => ?_
  rw [node_eq_ok, bind_eq_ok, ← exists_and_left]
  refine exists_congr fun parent => ?_
  refine and_congr_right fun _ => and_congr_right fun _ => ?_
  by_cases hv : parent.volume = n.volume
  · simp [hv, bind_eq_ok, pure_eq, -bind_pure_comp]
  · simp [hv, throw_eq, error_bind, -bind_pure_comp]

/-- A rename that something at the destination prevents would be possible without it. -/
theorem exists_of_withMoved_error {e : NativeError}
    (h : t.withMoved source destination replace = .error e) (hfile : e.code ≠ .fileNotFound)
    (hpath : e.code ≠ .pathNotFound) (hdevice : e.code ≠ .notSameDevice) :
    ∃ n parent, t.lookup source.components = some n ∧
      t.parentDirectory destination = .ok parent ∧ parent.volume = n.volume := by
  unfold withMoved at h
  cases hn : t.lookup source.components with
  | none =>
    rw [node_eq_error hn] at h
    exact absurd (congrArg NativeError.code (Except.error.inj h)).symm hfile
  | some n =>
    rw [node_eq_ok.mpr hn, ok_bind] at h
    cases hp : t.parentDirectory destination with
    | error e' =>
      rw [hp] at h
      obtain rfl := Except.error.inj h
      exact absurd (parentDirectory_error hp) hpath
    | ok parent =>
      refine ⟨n, parent, rfl, rfl, ?_⟩
      rw [hp, ok_bind] at h
      by_cases hv : parent.volume = n.volume
      · exact hv
      · rw [if_pos hv, throw_eq, error_bind] at h
        exact absurd (congrArg NativeError.code (Except.error.inj h)).symm hdevice

theorem startsWith_iff {p : Path} :
    p.startsWith source = true ↔ ∃ way, p.components = source.components ++ way := by
  rw [Path.startsWith, List.isPrefixOf_iff_prefix]
  exact exists_congr fun way => eq_comm

/-- The nodes that a rename leaves where they are. -/
theorem lookup_filter_not_startsWith (place : Place) :
    (t.filter fun p _ => !p.startsWith source).lookup place =
      if source.components <+: place then none else t.lookup place := by
  have h := t.lookup_filter (fun c => !source.components.isPrefixOf c) place
  refine h.trans ?_
  simp only [← List.isPrefixOf_iff_prefix]
  cases source.components.isPrefixOf place <;> rfl

variable (hne : source.components ≠ [])

include hne

/-- What is moved keeps its way from the root of the rename. -/
theorem components_movedPath {p : Path} {way : Place}
    (h : p.components = source.components ++ way) :
    (movedPath source destination p).components = destination.components ++ way := by
  have hrest : (p.relativeTo source).components = way := by
    rw [Path.components_relativeTo hne, h, List.drop_left]
  rw [movedPath]
  split
  · next hempty =>
    obtain hnil : p.relativeTo source = ⟨[]⟩ := by
      cases hp : p.relativeTo source with
      | mk bytes => simpa [hp] using hempty
    rw [hnil] at hrest
    rw [← hrest, Path.components_mk_nil, List.append_nil]
  · rw [Path.components_join (Path.lead_relativeTo hne), hrest]

/-- What a rename moves, with where it goes. -/
theorem mem_moved {e : Path × Node} :
    e ∈ (t.entries.filter fun e => e.1.startsWith source).map
        (fun e => (movedPath source destination e.1, e.2)) →
      ∃ way, e.1.components = destination.components ++ way ∧
        t.lookup (source.components ++ way) = some e.2 := by
  intro he
  obtain ⟨⟨p, n⟩, hmem, rfl⟩ := List.mem_map.mp he
  obtain ⟨hmem, hstarts⟩ := List.mem_filter.mp hmem
  obtain ⟨way, hway⟩ := startsWith_iff.mp hstarts
  exact ⟨way, components_movedPath hne hway, hway ▸ PathMap.lookup_of_mem hmem⟩

theorem moved_distinct :
    ((t.entries.filter fun e => e.1.startsWith source).map
      (fun e => (movedPath source destination e.1, e.2))).Pairwise
        fun a b => a.1.components ≠ b.1.components := by
  rw [List.pairwise_map]
  refine List.Pairwise.imp_of_mem ?_ (t.sorted.filter _)
  intro a b ha hb hab he
  obtain ⟨way, hway⟩ := startsWith_iff.mp (List.mem_filter.mp ha).2
  obtain ⟨way', hway'⟩ := startsWith_iff.mp (List.mem_filter.mp hb).2
  rw [components_movedPath hne hway, components_movedPath hne hway', List.append_cancel_left_eq]
    at he
  exact PathMap.components_ne_of_before hab (by rw [hway, hway', he])

theorem lookup_relocate_below (way : Place) :
    (t.relocate source destination).lookup (destination.components ++ way) =
      (t.lookup (source.components ++ way)).or
        (if source.components <+: destination.components ++ way then none
          else t.lookup (destination.components ++ way)) := by
  unfold relocate
  cases hn : t.lookup (source.components ++ way) with
  | some n =>
    obtain ⟨key, hkey, hcomponents⟩ := PathMap.lookup_eq_some_iff.mp hn
    have hmem : (movedPath source destination key, n) ∈
        (t.entries.filter fun e => e.1.startsWith source).map
          (fun e => (movedPath source destination e.1, e.2)) :=
      List.mem_map.mpr ⟨(key, n),
        List.mem_filter.mpr ⟨hkey, startsWith_iff.mpr ⟨way, hcomponents⟩⟩, rfl⟩
    have hfound := (t.filter fun p _ => !p.startsWith source).lookup_insertAll_of_mem
      (moved_distinct hne) hmem
    rw [components_movedPath hne hcomponents] at hfound
    exact hfound
  | none =>
    rw [PathMap.lookup_insertAll_of_forall_ne, lookup_filter_not_startsWith]
    · rfl
    · intro e he hcomponents
      obtain ⟨way', hway', hlookup⟩ := mem_moved hne he
      rw [hway', List.append_cancel_left_eq] at hcomponents
      rw [hcomponents, hn] at hlookup
      cases hlookup

theorem lookup_relocate_of_not_below {place : Place} (h : ¬destination.components <+: place) :
    (t.relocate source destination).lookup place =
      if source.components <+: place then none else t.lookup place := by
  unfold relocate
  rw [PathMap.lookup_insertAll_of_forall_ne, lookup_filter_not_startsWith]
  intro e he hcomponents
  obtain ⟨way, hway, -⟩ := mem_moved hne he
  exact h ⟨way, hway.symm.trans hcomponents⟩

end Move

end Tree

end TreeOps
