import TreeOps.Disk.Resolve
import TreeOps.Proofs.Path.Ancestors

/-!
# Canonical forms

To find the canonical form of a path, names are taken off its end until what is left leads
somewhere, and are put back behind the place found there. A disk only finds places whose paths are
plain, and what is put back are names, so a form in which something was found has no `..`. But no
`..` is ever taken off: a path stays as it is where everything up to its last `..` is missing.
-/

namespace TreeOps

namespace Path

/-- An absolute path without `.` and `..`: the root, and names behind it. -/
def IsPlain (p : Path) : Prop := ∃ names : List Bytes, p.components = .root :: names.map .name

/-- `q` is what is left of `p` when some names are taken off its end. -/
def LeavesWithoutNames (p q : Path) : Prop :=
  ∃ names : List Bytes, p.components = q.components ++ names.map .name

theorem isPlain_root : root.IsPlain := ⟨[], by decide⟩

namespace IsPlain

variable {p : Path}

theorem above_notMem (h : p.IsPlain) (names : List Bytes) :
    .above ∉ p.components ++ names.map .name := by
  obtain ⟨front, hp⟩ := h
  simp [hp]

theorem child {b : Bytes} (h : p.IsPlain) (hb : IsName b) : (p.child b).IsPlain := by
  obtain ⟨names, hp⟩ := h
  exact ⟨names ++ [b], by simp [components_child p hb, hp]⟩

theorem parent (h : p.IsPlain) : (p.parent.getD .root).IsPlain := by
  cases hq : p.parent with
  | none => exact isPlain_root
  | some q =>
    obtain ⟨names, hp⟩ := h
    obtain ⟨c, hc, hcomponents⟩ := components_of_parent_eq_some hq
    rw [hp] at hcomponents
    rcases List.eq_nil_or_concat names with rfl | ⟨names, b, rfl⟩
    · have hlast := congrArg List.getLast? hcomponents
      rw [List.getLast?_concat] at hlast
      exact absurd (Option.some.inj hlast).symm hc
    · rw [List.concat_eq_append, List.map_append, ← List.cons_append] at hcomponents
      exact ⟨names, (List.append_inj_left' hcomponents rfl).symm⟩

end IsPlain

/-- One name more. -/
theorem leavesWithoutNames_of_parent {p parent q : Path} {b : Bytes}
    (hp : p.components = parent.components ++ [.name b])
    (hle : q.components.length ≤ parent.components.length) :
    p.LeavesWithoutNames q ↔ parent.LeavesWithoutNames q := by
  constructor
  · rintro ⟨names, hnames⟩
    rw [hp] at hnames
    rcases List.eq_nil_or_concat names with rfl | ⟨names, b', rfl⟩
    · have hlen := congrArg List.length hnames
      simp only [List.length_append, List.map_nil, List.length_nil, List.length_singleton] at hlen
      omega
    · rw [List.concat_eq_append, List.map_append, ← List.append_assoc] at hnames
      exact ⟨names, List.append_inj_left' hnames rfl⟩
  · rintro ⟨names, hnames⟩
    exact ⟨names ++ [b], by simp [hp, hnames]⟩

/-- What cannot be taken off stays. -/
theorem components_of_leavesWithoutNames {p q : Path} (hname : p.fileName = none)
    (h : p.LeavesWithoutNames q) : p.components = q.components := by
  obtain ⟨names, hnames⟩ := h
  rcases List.eq_nil_or_concat names with rfl | ⟨names, b, rfl⟩
  · simpa using hnames
  · rw [List.concat_eq_append, List.map_append, ← List.append_assoc] at hnames
    simp [fileName_eq_some hnames] at hname

end Path

namespace Disk

variable {d : Disk} {followLast : Bool}

/-- What can follow in a path: a name, or a dot name. -/
def IsStep (s : Bytes) : Prop := s ≠ [] ∧ separator ∉ s

theorem isStep_of_mem_steps {bytes s : Bytes} (h : s ∈ steps bytes) : IsStep s := by
  rcases List.mem_append.mp h with h | h
  · obtain ⟨hs, hne⟩ := List.mem_filter.mp h
    exact ⟨by simpa using hne, Path.separator_notMem_of_mem_splitOn hs⟩
  · split at h
    · obtain rfl := List.mem_singleton.mp h
      exact ⟨by decide, by decide⟩
    · cases h

/-- Steps from a plain place lead to plain places, if links do. -/
theorem isPlain_of_walk {onLink : Path → Bytes → List Bytes → Except HostError Place}
    (honLink : ∀ {here target rest place}, here.IsPlain → (∀ s ∈ rest, IsStep s) →
      onLink here target rest = .ok place → place.path.IsPlain)
    {here : Path} {steps : List Bytes} {place : Place} (hhere : here.IsPlain)
    (hsteps : ∀ s ∈ steps, IsStep s) (h : d.walk followLast onLink here steps = .ok place) :
    place.path.IsPlain := by
  induction steps generalizing here with
  | nil =>
    obtain rfl := Except.ok.inj h
    exact hhere
  | cons name rest ih =>
    have hrest := fun s hs => hsteps s (List.mem_cons_of_mem name hs)
    have hname := hsteps name List.mem_cons_self
    simp only [walk] at h
    split at h
    · cases h
    split at h
    · cases h
    split at h
    · exact ih hhere hrest h
    split at h
    · exact ih hhere.parent hrest h
    split at h
    · cases h
    next hdot hdotDot _ =>
    have hnext := hhere.child ⟨hname.1, hdot, hdotDot, hname.2⟩
    split at h
    · split at h
      · obtain rfl := Except.ok.inj h
        exact hnext
      · cases h
    · split at h
      · obtain rfl := Except.ok.inj h
        exact hnext
      · exact honLink hhere hrest h
    · exact ih hnext hrest h

theorem isPlain_of_follow {links : Nat} {here : Path} {steps : List Bytes} {place : Place}
    (hhere : here.IsPlain) (hsteps : ∀ s ∈ steps, IsStep s)
    (h : d.follow followLast links here steps = .ok place) : place.path.IsPlain := by
  induction links generalizing here steps place with
  | zero => exact isPlain_of_walk (fun _ _ h => by cases h) hhere hsteps h
  | succ links ih =>
    refine isPlain_of_walk (fun {here target rest place} hhere hrest h => ?_) hhere hsteps h
    refine ih ?_ ?_ h
    · split
      · exact Path.isPlain_root
      · exact hhere
    · intro s hs
      exact (List.mem_append.mp hs).elim isStep_of_mem_steps (hrest s)

/-- What a path leads to has a plain path. -/
theorem isPlain_of_canonical {q place : Path} (h : d.canonical q = .ok place) : place.IsPlain := by
  unfold canonical lookup reach at h
  cases hcheck : check q with
  | error e => simp [hcheck, bind, Except.bind, Functor.map, Except.map] at h
  | ok =>
    cases hfollow : d.follow true linkLimit .root (steps q.bytes) with
    | error e => simp [hcheck, hfollow, bind, Except.bind, Functor.map, Except.map] at h
    | ok found =>
      cases hinode : found.inode with
      | none =>
        simp [hcheck, hfollow, hinode, bind, Except.bind, Functor.map, Except.map, throw,
          throwThe, MonadExceptOf.throw] at h
      | some i =>
        simp only [hcheck, hfollow, hinode, bind, Except.bind, Functor.map, Except.map, pure,
          Except.pure, Except.ok.injEq] at h
        exact h ▸ isPlain_of_follow Path.isPlain_root (fun s => isStep_of_mem_steps) hfollow

/-- What following a path on a disk gives, where it gives something. -/
def canonical? (d : Disk) (q : Path) : Option Path := (d.canonical q).toOption

theorem isPlain_of_canonical? (q place : Path) (h : d.canonical? q = some place) :
    place.IsPlain := by
  unfold canonical? at h
  cases hq : d.canonical q with
  | error e => simp [hq, Except.toOption] at h
  | ok found =>
    rw [hq] at h
    exact Option.some.inj h ▸ isPlain_of_canonical hq

theorem resolve_eq (d : Disk) (p : Path) : d.resolve p = Resolve.resolve d.canonical? .root p := rfl

/-- A disk that holds the directory `/real` alone. -/
def real : Disk := new.put "/real" (.directory 0o755 {})

end Disk

namespace Resolve

variable {canonical? : Path → Option Path} {paths : List Path} {p parent result : Path}

/-- What following some paths gives for a path: the place where one of them leads, with the names
behind it; or the path itself, if none that is left when names are taken off leads anywhere. -/
inductive Gives (canonical? : Path → Option Path) (paths : List Path) (p result : Path) : Prop
  | found (q : Path) (hq : q ∈ paths) (place : Path) (hplace : canonical? q = some place)
    (names : List Bytes) (hp : p.components = q.components ++ names.map .name)
    (hresult : result.components = place.components ++ names.map .name)
  | lost (hnone : ∀ q ∈ paths, p.LeavesWithoutNames q → canonical? q = none)
    (hresult : result.components = p.components)

/-- Following the path itself. -/
theorem gives_self (canonical? : Path → Option Path) (p : Path) :
    Gives canonical? [p] p ((canonical? p).getD p) := by
  cases hq : canonical? p with
  | some q => exact .found p (by simp) q hq [] (by simp) (by simp)
  | none => exact .lost (fun q hmem _ => by rwa [List.mem_singleton.mp hmem]) rfl

/-- A path leads where its parent leads, and from there to its name. -/
theorem Gives.child {b : Bytes} (h : Gives canonical? paths parent result)
    (hparent : p.parent = some parent) (hname : p.fileName = some b)
    (hpaths : ∀ q ∈ paths, q.components.length ≤ parent.components.length) :
    Gives canonical? paths p (result.child b) := by
  obtain ⟨hb, hp⟩ := Path.components_of_parent_of_fileName hparent hname
  have hchild := Path.components_child result hb
  cases h with
  | found q hq place hplace names hnames hresult =>
    exact .found q hq place hplace (names ++ [b]) (by simp [hp, hnames]) (by simp [hchild, hresult])
  | lost hnone hresult =>
    refine .lost (fun q hq hleaves => hnone q hq ?_) (by rw [hchild, hresult, hp])
    exact (Path.leavesWithoutNames_of_parent hp (hpaths q hq)).mp hleaves

/-- A path that leads nowhere need not be followed. -/
theorem Gives.cons (h : Gives canonical? paths p result) {q : Path} (hq : canonical? q = none) :
    Gives canonical? (q :: paths) p result := by
  cases h with
  | found q' hq' place hplace names hnames hresult =>
    exact .found q' (List.mem_cons_of_mem q hq') place hplace names hnames hresult
  | lost hnone hresult =>
    refine .lost (fun q' hmem hleaves => ?_) hresult
    rcases List.mem_cons.mp hmem with rfl | hmem
    · exact hq
    · exact hnone q' hmem hleaves

theorem gives_existingPart {count : Nat} (h : p.components.length < count) :
    Gives canonical? (Path.firstAncestors count p) p (existingPart canonical? count p) := by
  induction count generalizing p with
  | zero => omega
  | succ count ih =>
    rw [existingPart, Path.firstAncestors]
    cases hq : canonical? p with
    | some q => exact .found p List.mem_cons_self q hq [] (by simp) (by simp)
    | none =>
      refine Gives.cons ?_ hq
      cases hparent : p.parent with
      | none => exact .lost (by simp) rfl
      | some parent =>
        obtain ⟨c, -, hc⟩ := Path.components_of_parent_eq_some hparent
        have hlen := congrArg List.length hc
        rw [List.length_append, List.length_singleton] at hlen
        have hle (q : Path) (hmem : q ∈ Path.firstAncestors count parent) :
            q.components.length ≤ parent.components.length :=
          (Path.prefix_of_mem_firstAncestors hmem).length_le
        cases hname : p.fileName with
        | some b => exact (ih (by omega)).child hparent hname hle
        | none =>
          -- The last component is no name, and what lies above it is never looked at.
          refine .lost (fun q hmem hleaves => ?_) rfl
          have hsame := congrArg List.length (Path.components_of_leavesWithoutNames hname hleaves)
          have hbelow := hle q hmem
          omega

/-- The absolute form of a path, from which its canonical form is found. -/
def absolute (base p : Path) : Path := (absolute? base p).getD p

/-- The paths that may be followed: the directory that holds the last component and those above it.
A path that has no parent, or no name at its end, is followed itself. -/
def followed (full : Path) : List Path :=
  match full.parent, full.fileName with
  | some parent, some _ => parent.ancestors
  | _, _ => [full]

theorem resolve_eq (canonical? : Path → Option Path) (base p : Path) :
    resolve canonical? base p = match (absolute base p).parent, (absolute base p).fileName with
      | some parent, some name =>
        (existingPart canonical? (parent.bytes.length + 1) parent).child name
      | _, _ => (canonical? (absolute base p)).getD (absolute base p) := rfl

theorem gives_resolve (canonical? : Path → Option Path) (base p : Path) :
    Gives canonical? (followed (absolute base p)) (absolute base p)
      (resolve canonical? base p) := by
  rw [resolve_eq, followed]
  generalize absolute base p = full
  split
  · next parent b hparent hname =>
    have hlen := Path.length_components_le parent
    exact (gives_existingPart (by omega)).child hparent hname fun q hmem =>
      (Path.prefix_of_mem_firstAncestors hmem).length_le
  · exact gives_self canonical? full

/-- Where what is found is plain, no canonical form has `..`, unless the absolute form of the path
has and nothing is found when only names are taken off. -/
theorem above_notMem_resolve_iff
    (hplain : ∀ q place, canonical? q = some place → place.IsPlain) (base p : Path) :
    .above ∉ (resolve canonical? base p).components ↔
      .above ∉ (absolute base p).components ∨
        ∃ q ∈ followed (absolute base p),
          (absolute base p).LeavesWithoutNames q ∧ (canonical? q).isSome = true := by
  cases gives_resolve canonical? base p with
  | found q hq place hplace names hp hresult =>
    have hclean : .above ∉ (resolve canonical? base p).components :=
      hresult ▸ (hplain q place hplace).above_notMem names
    exact iff_of_true hclean (.inr ⟨q, hq, ⟨names, hp⟩, by rw [hplace]; rfl⟩)
  | lost hnone hresult =>
    rw [hresult, iff_self_or]
    rintro ⟨q, hq, hleaves, hsome⟩
    simp [hnone q hq hleaves] at hsome

/-- What exists has `..` in front, and the name behind it is missing. -/
theorem above_notMem_resolve_real :
    (∀ q place, Disk.real.canonical? q = some place → place.IsPlain) ∧
      .above ∉ (Disk.real.resolve "/real/../new").components := by
  refine ⟨Disk.isPlain_of_canonical?, ?_⟩
  rw [Disk.resolve_eq, above_notMem_resolve_iff Disk.isPlain_of_canonical?]
  exact .inr ⟨"/real/..", by decide +kernel, ⟨[Utf8.encode "new"], by decide +kernel⟩,
    by decide +kernel⟩

/-- The names in front of `..` are missing, and `..` stays. -/
theorem above_mem_resolve_missing :
    (∀ q place, Disk.real.canonical? q = some place → place.IsPlain) ∧
      .above ∈ (Disk.real.resolve "/nope/../real").components :=
  ⟨Disk.isPlain_of_canonical?, by decide +kernel⟩

end Resolve

end TreeOps
