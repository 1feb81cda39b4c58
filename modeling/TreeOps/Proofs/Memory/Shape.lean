import TreeOps.Proofs.Memory.Nodes
import TreeOps.Proofs.Text.Utf8

/-!
# The shape of a tree of nodes

A tree is well-formed if its paths are absolute without `.` and `..` and everything but the root
lies in a directory. Seen from a place, such a tree is regular: what leads further is names,
everything lies in a directory, and no way is longer than a bound. The bound is what operations that
follow nested directories need.
-/

namespace TreeOps

/-- Whether a component is a name. -/
def Component.isName : Component → Bool
  | name _ => true
  | _ => false

theorem Component.isName_iff {c : Component} : c.isName = true ↔ ∃ b, c = .name b := by
  cases c <;> simp [isName]

/-- Whether a path is absolute and goes on with names only. -/
def Path.isNormal (p : Path) : Bool :=
  p.components.head? == some .root && p.components.tail.all Component.isName

theorem Path.isNormal_iff {p : Path} :
    p.isNormal = true ↔ ∃ way, p.components = .root :: way ∧ ∀ c ∈ way, ∃ b, c = .name b := by
  rw [isNormal]
  cases p.components with
  | nil => simp
  | cons c way =>
    simp only [List.head?_cons, List.tail_cons, Bool.and_eq_true, beq_iff_eq, Option.some.injEq,
      List.all_eq_true, Component.isName_iff, List.cons.injEq]
    constructor
    · rintro ⟨rfl, h⟩
      exact ⟨way, ⟨rfl, rfl⟩, h⟩
    · rintro ⟨way', ⟨rfl, rfl⟩, h⟩
      exact ⟨rfl, h⟩

/-- What leads further is names, everything lies in a directory, and no way is as long as the bound.
-/
structure Regular (view : Place → Option Node) (bound : Nat) : Prop where
  names : ∀ way n, view way = some n → ∀ c ∈ way, ∃ b, c = .name b
  closed : ∀ way c n, view (way ++ [c]) = some n → ∃ d, view way = some d ∧ d.kind = .directory
  shallow : ∀ way n, view way = some n → way.length < bound

namespace Regular

variable {view : Place → Option Node} {bound : Nat}

theorem below (h : Regular view bound) (c : Component) :
    Regular (fun way => view (c :: way)) (bound - 1) where
  names way n hn d hd := h.names (c :: way) n hn d (List.mem_cons_of_mem c hd)
  closed way d n hn := h.closed (c :: way) d n hn
  shallow way n hn := by
    have hlt := h.shallow (c :: way) n hn
    rw [List.length_cons] at hlt
    omega

theorem bound_pos (h : Regular view bound) {n : Node} (hn : view [] = some n) : 0 < bound :=
  h.shallow [] n hn

/-- Whatever has something below it is a directory. -/
theorem directory_above (h : Regular view bound) (way : Place) {more : Place} {n : Node}
    (hn : view (way ++ more) = some n) (hne : more ≠ []) :
    ∃ d, view way = some d ∧ d.kind = .directory := by
  induction more generalizing way with
  | nil => exact absurd rfl hne
  | cons c more ih =>
    by_cases hmore : more = []
    · rw [hmore] at hn
      exact h.closed way c n hn
    · rw [List.append_cons] at hn
      obtain ⟨d, hd, -⟩ := ih (way ++ [c]) hn hmore
      exact h.closed way c d hd

theorem eq_none_below (h : Regular view bound) {n : Node} (hn : view [] = some n)
    (hk : n.kind ≠ .directory) {way : Place} (hne : way ≠ []) : view way = none := by
  cases hw : view way with
  | none => rfl
  | some m =>
    obtain ⟨d, hd, hdir⟩ := h.directory_above [] hw hne
    rw [hn] at hd
    exact absurd (Option.some.inj hd ▸ hdir) hk

end Regular

/-- Every name on a way to a node is valid UTF-8. -/
def Textual (view : Place → Option Node) : Prop :=
  ∀ way n, view way = some n → ∀ b, .name b ∈ way → Utf8.IsText b

theorem Textual.below {view : Place → Option Node} (h : Textual view) (c : Component) :
    Textual fun way => view (c :: way) :=
  fun way n hn b hb => h (c :: way) n hn b (List.mem_cons_of_mem c hb)

namespace Tree

variable {t : Tree}

/-- Whether a real directory is at a place. -/
def IsDirectoryAt (t : Tree) (place : Place) : Prop :=
  ∃ n, t.lookup place = some n ∧ n.kind = .directory

/-- The parent directory of a path is found at the place above. -/
theorem isDirectoryAt_of_parentDirectory {path : Path} {parent : Node}
    (h : t.parentDirectory path = .ok parent) : t.IsDirectoryAt path.components.dropLast := by
  obtain ⟨hk, base, c, -, hplace, hlookup⟩ := exists_of_parentDirectory_eq_ok h
  rw [hplace, List.dropLast_concat]
  exact ⟨parent, hlookup, hk⟩

/-- Paths are absolute and go on with names, and everything but the root lies in a directory. -/
structure WellFormed (t : Tree) : Prop where
  normal : ∀ e ∈ t.entries, e.1.isNormal = true
  closed : ∀ e ∈ t.entries, e.1.components ≠ [.root] →
    (e.1.parent.bind t.find?).map Node.kind = some .directory

instance (t : Tree) : Decidable t.WellFormed :=
  decidable_of_iff
    ((∀ e ∈ t.entries, e.1.isNormal = true) ∧ ∀ e ∈ t.entries, e.1.components ≠ [.root] →
      (e.1.parent.bind t.find?).map Node.kind = some .directory)
    ⟨fun h => ⟨h.1, h.2⟩, fun h => ⟨h.normal, h.closed⟩⟩

/-- Every name in a path is valid UTF-8. -/
def IsTextual (t : Tree) : Prop :=
  ∀ e ∈ t.entries, ∀ c ∈ e.1.components, Utf8.IsText c.bytes

instance (t : Tree) : Decidable t.IsTextual :=
  inferInstanceAs (Decidable (∀ e ∈ t.entries, ∀ c ∈ e.1.components, Utf8.IsText c.bytes))

theorem IsTextual.textual_branch (h : t.IsTextual) (place : Place) : Textual (t.branch place) := by
  intro way n hn b hb
  obtain ⟨key, hkey, hcomponents⟩ := PathMap.lookup_eq_some_iff.mp hn
  refine h (key, n) hkey (.name b) ?_
  rw [hcomponents]
  exact List.mem_append_right place hb

theorem WellFormed.normal_of_lookup (h : t.WellFormed) {place : Place} {n : Node}
    (hn : t.lookup place = some n) : ∃ way, place = .root :: way ∧ ∀ c ∈ way, ∃ b, c = .name b := by
  obtain ⟨key, hkey, rfl⟩ := PathMap.lookup_eq_some_iff.mp hn
  exact Path.isNormal_iff.mp (h.normal _ hkey)

theorem WellFormed.ne_nil (h : t.WellFormed) {place : Place} {n : Node}
    (hn : t.lookup place = some n) : place ≠ [] := by
  obtain ⟨way, rfl, -⟩ := h.normal_of_lookup hn
  simp

theorem WellFormed.ne_nil_of_directory (h : t.WellFormed) {place : Place}
    (hdir : t.IsDirectoryAt place) : place ≠ [] := by
  obtain ⟨n, hn, -⟩ := hdir
  exact h.ne_nil hn

theorem WellFormed.directory_above (h : t.WellFormed) {place : Place} {c : Component} {n : Node}
    (hn : t.lookup (place ++ [c]) = some n) (hne : place ≠ []) : t.IsDirectoryAt place := by
  obtain ⟨way, hway, hnames⟩ := h.normal_of_lookup hn
  obtain ⟨key, hkey, hcomponents⟩ := PathMap.lookup_eq_some_iff.mp hn
  have hc : c ≠ .root := by
    obtain ⟨d, rest, rfl⟩ := List.exists_cons_of_ne_nil hne
    have hlast : c ∈ way := by
      rw [List.cons_append, List.cons.injEq] at hway
      simp [← hway.2]
    obtain ⟨b, rfl⟩ := hnames c hlast
    simp
  have hroot : key.components ≠ [.root] := by
    intro he
    rw [hcomponents] at he
    exact hc (by simpa [hne] using congrArg List.getLast? he)
  have hparent := h.closed _ hkey hroot
  rw [parent_bind_find? hcomponents hc] at hparent
  exact Option.map_eq_some_iff.mp hparent

theorem length_le_foldl_max {l : List Nat} {x : Nat} (start : Nat) (h : x ∈ l ∨ x ≤ start) :
    x ≤ l.foldl max start := by
  induction l generalizing start with
  | nil => simpa using h
  | cons y l ih =>
    apply ih
    rcases h with h | h
    · rcases List.mem_cons.mp h with rfl | h
      · exact .inr (Nat.le_max_right ..)
      · exact .inl h
    · exact .inr (Nat.le_trans h (Nat.le_max_left ..))

theorem length_lt_levels {place : Place} {n : Node} (h : t.lookup place = some n) :
    place.length < t.levels := by
  obtain ⟨key, hkey, rfl⟩ := PathMap.lookup_eq_some_iff.mp h
  have hmem : key.components.length ∈ t.keys.map fun p => p.components.length :=
    List.mem_map_of_mem (PathMap.mem_keys.mpr ⟨n, hkey⟩)
  have hle := length_le_foldl_max 0 (.inl hmem)
  unfold levels
  omega

/-- Seen from any of its places, a well-formed tree is regular. -/
theorem WellFormed.regular (h : t.WellFormed) {bound : Nat} (hbound : t.levels ≤ bound)
    {place : Place} (hne : place ≠ []) : Regular (t.branch place) bound where
  names way n hn c hc := by
    obtain ⟨way', hway', hnames⟩ := h.normal_of_lookup hn
    obtain ⟨d, rest, rfl⟩ := List.exists_cons_of_ne_nil hne
    rw [List.cons_append, List.cons.injEq] at hway'
    exact hnames c (hway'.2 ▸ List.mem_append_right rest hc)
  closed way c n hn := by
    rw [PathMap.branch, ← List.append_assoc] at hn
    exact h.directory_above hn (by simp [hne])
  shallow way n hn := by
    have hlt := length_lt_levels hn
    rw [List.length_append] at hlt
    omega

theorem WellFormed.exists_above (h : t.WellFormed) {place way : Place} {n : Node}
    (hn : t.lookup (place ++ way) = some n) (hne : place ≠ []) : ∃ d, t.lookup place = some d := by
  by_cases hway : way = []
  · exact ⟨n, by rw [← hn, hway, List.append_nil]⟩
  · obtain ⟨d, hd, -⟩ := (h.regular (Nat.le_refl _) hne).directory_above [] hn hway
    rw [PathMap.branch_nil] at hd
    exact ⟨d, hd⟩

/-- Nothing is below what is missing. -/
theorem WellFormed.eq_none_below (h : t.WellFormed) {place : Place} (hnone : t.lookup place = none)
    (hne : place ≠ []) (way : Place) : t.lookup (place ++ way) = none := by
  cases hl : t.lookup (place ++ way) with
  | none => rfl
  | some n =>
    obtain ⟨d, hd⟩ := h.exists_above hl hne
    rw [hnone] at hd
    cases hd

end Tree

end TreeOps
