import TreeOps.Path.Map
import TreeOps.Proofs.Path.Components

/-!
# Maps keyed by paths, seen by place

A place is what all spellings of a path share. `lookup` is the view of a map by which its operations
are described: each has one equation for the value at a place. `contents` lists the view in path
order; maps with the same view have the same contents, however their keys are spelled.
-/

namespace TreeOps

/-- The components that all spellings of a path share. -/
abbrev Place := List Component

theorem append_not_prefix_self {place way : Place} (hway : way ≠ []) : ¬place ++ way <+: place := by
  intro h
  have hlen := h.length_le
  have hpos := List.length_pos_iff.mpr hway
  rw [List.length_append] at hlen
  omega

theorem concat_not_prefix_self {place : Place} {c : Component} : ¬place ++ [c] <+: place :=
  append_not_prefix_self (by simp)

namespace PathMap

variable {α : Type}

/-- The value at a place. -/
def lookup (m : PathMap α) (place : Place) : Option α :=
  (m.entries.find? fun e => e.1.components == place).map Prod.snd

/-- The values at and below a place, by what leads there. -/
def branch (m : PathMap α) (place : Place) : Place → Option α := fun way => m.lookup (place ++ way)

/-- The places of a map with their values, in path order. -/
def contents (m : PathMap α) : List (Place × α) :=
  m.entries.map fun e => (e.1.components, e.2)

theorem find?_eq_lookup (m : PathMap α) (key : Path) : m.find? key = m.lookup key.components := rfl

theorem branch_nil (m : PathMap α) (place : Place) : m.branch place [] = m.lookup place := by
  rw [branch, List.append_nil]

theorem branch_concat (m : PathMap α) (place : Place) (c : Component) (way : Place) :
    m.branch (place ++ [c]) way = m.branch place (c :: way) := by
  simp [branch]

theorem contains_eq (m : PathMap α) (key : Path) :
    m.contains key = (m.lookup key.components).isSome := rfl

theorem components_ne_of_before {p q : Path} (h : p.before q) : p.components ≠ q.components := by
  intro he
  rw [Path.before, Path.compare_eq_iff.mpr he] at h
  cases h

theorem eq_of_mem_entries {m : PathMap α} {a b : Path × α} (ha : a ∈ m.entries)
    (hb : b ∈ m.entries) (h : a.1.components = b.1.components) : a = b := by
  have hsorted := m.sorted
  generalize m.entries = entries at ha hb hsorted
  induction hsorted with
  | nil => cases ha
  | cons hfirst _ ih =>
    rcases List.mem_cons.mp ha with rfl | ha'
    · rcases List.mem_cons.mp hb with rfl | hb'
      · rfl
      · exact absurd h (components_ne_of_before (hfirst b hb'))
    · rcases List.mem_cons.mp hb with rfl | hb'
      · exact absurd h.symm (components_ne_of_before (hfirst a ha'))
      · exact ih ha' hb'

theorem lookup_eq_some_iff {m : PathMap α} {place : Place} {value : α} :
    m.lookup place = some value ↔ ∃ key, (key, value) ∈ m.entries ∧ key.components = place := by
  constructor
  · intro h
    obtain ⟨e, he, rfl⟩ := Option.map_eq_some_iff.mp h
    exact ⟨e.1, List.mem_of_find?_eq_some he, by simpa using List.find?_some he⟩
  · rintro ⟨key, hmem, rfl⟩
    unfold lookup
    cases hf : m.entries.find? fun e => e.1.components == key.components with
    | none => simpa using List.find?_eq_none.mp hf _ hmem
    | some e =>
      have he := eq_of_mem_entries (List.mem_of_find?_eq_some hf) hmem
        (by simpa using List.find?_some hf)
      rw [he]
      rfl

theorem lookup_of_mem {m : PathMap α} {key : Path} {value : α} (h : (key, value) ∈ m.entries) :
    m.lookup key.components = some value := lookup_eq_some_iff.mpr ⟨key, h, rfl⟩

theorem mem_contents {m : PathMap α} {place : Place} {value : α} :
    (place, value) ∈ m.contents ↔ m.lookup place = some value := by
  rw [contents, List.mem_map, lookup_eq_some_iff]
  constructor
  · rintro ⟨⟨key, v⟩, hmem, he⟩
    obtain ⟨rfl, rfl⟩ := Prod.mk.inj he
    exact ⟨key, hmem, rfl⟩
  · rintro ⟨key, hmem, rfl⟩
    exact ⟨(key, value), hmem, rfl⟩

theorem mem_keys {m : PathMap α} {key : Path} :
    key ∈ m.keys ↔ ∃ value, (key, value) ∈ m.entries := by
  simp [keys]

/-! ### One equation for each operation -/

theorem lookup_insert (m : PathMap α) (key : Path) (value : α) (place : Place) :
    (m.insert key value).lookup place =
      if key.components = place then some value else m.lookup place := by
  have entries_eq (l : List (Path × α)) :
      ((insertEntry key value l).find? fun e => e.1.components == place).map Prod.snd =
        if key.components = place then some value
        else (l.find? fun e => e.1.components == place).map Prod.snd := by
    induction l with
    | nil => by_cases h : key.components = place <;> simp [insertEntry, h]
    | cons e l ih =>
      obtain ⟨k, v⟩ := e
      rw [insertEntry]
      split
      · by_cases h : key.components = place <;> simp [List.find?_cons, h]
      · next heq =>
        have hk := Path.compare_eq_iff.mp heq
        by_cases h : key.components = place <;> simp [← hk, h]
      · next hgt =>
        have hk : key.components ≠ k.components := by
          intro he
          rw [Path.compare_eq_iff.mpr he] at hgt
          cases hgt
        by_cases hp : k.components = place
        · simp [hp, hp ▸ hk]
        · simp only [List.find?_cons, beq_eq_false_iff_ne.mpr hp, ih]
  exact entries_eq m.entries

/-- A selection by place. -/
theorem lookup_filter (m : PathMap α) (keep : Place → Bool) (place : Place) :
    (m.filter fun k _ => keep k.components).lookup place =
      if keep place then m.lookup place else none := by
  unfold lookup filter
  rw [List.find?_filter]
  by_cases h : keep place = true
  · rw [if_pos h]
    congr 2
    funext e
    by_cases he : e.1.components = place <;> simp [he, h]
  · rw [if_neg h, List.find?_eq_none.mpr]
    · rfl
    · rintro e -
      by_cases he : e.1.components = place <;> simp [he, h]

theorem lookup_erase (m : PathMap α) (key : Path) (place : Place) :
    (m.erase key).lookup place = if key.components = place then none else m.lookup place := by
  have h := m.lookup_filter (fun c => !(c == key.components)) place
  unfold erase
  refine h.trans ?_
  by_cases hk : key.components = place
  · simp [hk]
  · simp [hk, Ne.symm hk]

theorem lookup_modify (m : PathMap α) (key : Path) (f : α → α) (place : Place) :
    (m.modify key f).lookup place =
      if key.components = place then (m.lookup place).map f else m.lookup place := by
  unfold lookup modify mapValues
  simp only [List.find?_map, Option.map_map]
  cases hf : m.entries.find? fun e => e.1.components == place with
  | none =>
    have hf' : m.entries.find?
        ((fun e => e.1.components == place) ∘
          fun e => (e.1, if e.1.same key then f e.2 else e.2)) = none := hf
    rw [hf']
    simp
  | some e =>
    have hf' : m.entries.find?
        ((fun e => e.1.components == place) ∘
          fun e => (e.1, if e.1.same key then f e.2 else e.2)) = some e := hf
    have he : e.1.components = place := by simpa using List.find?_some hf
    rw [hf']
    by_cases hk : key.components = place
    · simp [hk, Path.same, he]
    · simp [hk, Path.same, he, Ne.symm hk]

/-- What a change of the values keeps can be told from the map before it. -/
theorem map_lookup_mapValues {β γ : Type} (m : PathMap α) {f : Path → α → β} {g : β → γ}
    {g' : α → γ} (h : ∀ key value, g (f key value) = g' value) (place : Place) :
    ((m.mapValues f).lookup place).map g = (m.lookup place).map g' := by
  unfold lookup mapValues
  rw [List.find?_map]
  simp only [Option.map_map]
  have hvalue : g ∘ Prod.snd ∘ (fun e : Path × α => (e.1, f e.1 e.2)) = g' ∘ Prod.snd :=
    funext fun e => h e.1 e.2
  rw [hvalue]
  rfl

theorem lookup_insertAll_of_forall_ne (m : PathMap α) {entries : List (Path × α)} {place : Place}
    (h : ∀ e ∈ entries, e.1.components ≠ place) :
    (m.insertAll entries).lookup place = m.lookup place := by
  induction entries generalizing m with
  | nil => rfl
  | cons e entries ih =>
    have hrest := ih (m.insert e.1 e.2) fun e he => h e (List.mem_cons_of_mem _ he)
    refine hrest.trans ?_
    rw [lookup_insert, if_neg (h e (by simp))]

theorem lookup_insertAll_of_mem (m : PathMap α) {entries : List (Path × α)} {e : Path × α}
    (hdistinct : entries.Pairwise fun a b => a.1.components ≠ b.1.components) (h : e ∈ entries) :
    (m.insertAll entries).lookup e.1.components = some e.2 := by
  induction entries generalizing m with
  | nil => cases h
  | cons d entries ih =>
    obtain ⟨hd, hrest⟩ := List.pairwise_cons.mp hdistinct
    rcases List.mem_cons.mp h with rfl | h
    · refine ((m.insert e.1 e.2).lookup_insertAll_of_forall_ne fun b hb => (hd b hb).symm).trans ?_
      rw [lookup_insert, if_pos rfl]
    · exact ih (m.insert d.1 d.2) hrest h

/-! ### Contents -/

theorem contents_sorted (m : PathMap α) :
    m.contents.Pairwise fun a b => compare a.1 b.1 = .lt := by
  rw [contents, List.pairwise_map]
  exact m.sorted

theorem eq_of_sorted {l l' : List (Place × α)}
    (h : l.Pairwise fun a b => compare a.1 b.1 = .lt)
    (h' : l'.Pairwise fun a b => compare a.1 b.1 = .lt) (hmem : ∀ e, e ∈ l ↔ e ∈ l') : l = l' := by
  have irrefl (a : Place × α) : compare a.1 a.1 ≠ .lt := by simp
  have nodup {l : List (Place × α)} (h : l.Pairwise fun a b => compare a.1 b.1 = .lt) :
      l.Nodup := by
    refine h.imp fun {a b} hab he => ?_
    subst he
    exact irrefl a hab
  have hperm := (List.perm_ext_iff_of_nodup (nodup h) (nodup h')).mpr hmem
  refine hperm.eq_of_pairwise (fun a b _ _ hab hba => ?_) h h'
  exact absurd (Std.TransCmp.lt_trans hab hba) (irrefl a)

/-! ### Children -/

theorem mem_children_iff {m : PathMap α} {dir : Path} {e : Path × α} :
    e ∈ m.children dir ↔
      e ∈ m.entries ∧ ∃ c, c ≠ .root ∧ e.1.components = dir.components ++ [c] := by
  rw [children, List.mem_filter, and_congr_right_iff]
  rintro -
  rw [Option.any_eq_true]
  constructor
  · rintro ⟨parent, hp, hsame⟩
    rw [Path.same_iff] at hsame
    rw [← hsame]
    exact Path.components_of_parent_eq_some hp
  · rintro ⟨c, hc, he⟩
    obtain ⟨parent, hp, hcomponents⟩ := Path.parent_of_components he hc
    exact ⟨parent, hp, Path.same_iff.mpr hcomponents⟩

end PathMap

end TreeOps
