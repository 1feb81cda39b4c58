import TreeOps.Path.Basic

/-!
# Maps keyed by paths

A `PathMap` holds at most one value per path and lists its entries in path order. Writing a value
for a path that is a key already keeps the key as it was first written.
-/

namespace TreeOps

namespace Component

theorem orderKey_injective {a b : Component} (h : a.orderKey = b.orderKey) : a = b := by
  cases a <;> cases b <;> simp_all [orderKey]

instance : Std.TransOrd Component :=
  inferInstanceAs (Std.TransCmp (compareOn orderKey))

instance : Std.LawfulEqOrd Component where
  eq_of_compare h := orderKey_injective (Std.LawfulEqOrd.eq_of_compare h)

end Component

instance : Std.TransOrd Path :=
  inferInstanceAs (Std.TransCmp (compareOn Path.components))

namespace Path

/-- Strict path order. -/
def before (p q : Path) : Prop := compare p q = .lt

theorem before_trans {p q r : Path} (h : p.before q) (h' : q.before r) : p.before r :=
  Std.TransCmp.lt_trans h h'

theorem compare_eq_iff {p q : Path} : compare p q = .eq ↔ p.components = q.components :=
  ⟨fun h => Std.LawfulEqOrd.eq_of_compare h,
    fun h => by
      change compare p.components q.components = .eq
      rw [h]; exact Std.ReflCmp.compare_self⟩

theorem same_iff {p q : Path} : p.same q = true ↔ p.components = q.components := by
  simp [same]

end Path

/-- A finite map from paths, in path order. -/
structure PathMap (α : Type) where
  entries : List (Path × α)
  sorted : entries.Pairwise fun a b => a.1.before b.1

namespace PathMap

variable {α : Type}

/-- The map without entries. -/
def empty : PathMap α := ⟨[], .nil⟩

instance : Inhabited (PathMap α) := ⟨empty⟩

/-- The list of entries with one value written at its place. -/
def insertEntry (key : Path) (value : α) : List (Path × α) → List (Path × α)
  | [] => [(key, value)]
  | (k, v) :: rest =>
    match compare key k with
    | .lt => (key, value) :: (k, v) :: rest
    | .eq => (k, value) :: rest
    | .gt => (k, v) :: insertEntry key value rest

theorem mem_insertEntry {key : Path} {value : α} {entries : List (Path × α)} {e : Path × α}
    (h : e ∈ insertEntry key value entries) : e.1 = key ∨ ∃ v, (e.1, v) ∈ entries := by
  induction entries with
  | nil => simp_all [insertEntry]
  | cons head rest ih =>
    obtain ⟨k, v⟩ := head
    unfold insertEntry at h
    split at h
    · rcases List.mem_cons.1 h with rfl | h
      · exact .inl rfl
      · exact .inr ⟨e.2, h⟩
    · rcases List.mem_cons.1 h with rfl | h
      · exact .inr ⟨v, by simp⟩
      · exact .inr ⟨e.2, List.mem_cons_of_mem _ h⟩
    · rcases List.mem_cons.1 h with rfl | h
      · exact .inr ⟨v, by simp⟩
      · rcases ih h with h | ⟨w, hw⟩
        · exact .inl h
        · exact .inr ⟨w, List.mem_cons_of_mem _ hw⟩

theorem sorted_insertEntry (key : Path) (value : α) {entries : List (Path × α)}
    (h : entries.Pairwise fun a b => a.1.before b.1) :
    (insertEntry key value entries).Pairwise fun a b => a.1.before b.1 := by
  induction entries with
  | nil => simp [insertEntry]
  | cons head rest ih =>
    obtain ⟨k, v⟩ := head
    obtain ⟨hk, hrest⟩ := List.pairwise_cons.1 h
    unfold insertEntry
    split
    · rename_i hlt
      refine List.pairwise_cons.2 ⟨fun e he => ?_, h⟩
      rcases List.mem_cons.1 he with rfl | he
      · exact hlt
      · exact Path.before_trans hlt (hk e he)
    · exact List.pairwise_cons.2 ⟨hk, hrest⟩
    · rename_i hgt
      refine List.pairwise_cons.2 ⟨fun e he => ?_, ih hrest⟩
      rcases mem_insertEntry he with h | ⟨w, hw⟩
      · change compare k e.1 = .lt
        rw [h]; exact Std.OrientedCmp.lt_of_gt hgt
      · exact hk (e.1, w) hw

/-- Write a value; a key that is present stays as it is spelled. -/
def insert (m : PathMap α) (key : Path) (value : α) : PathMap α :=
  ⟨insertEntry key value m.entries, sorted_insertEntry key value m.sorted⟩

/-- The value at a path. -/
def find? (m : PathMap α) (key : Path) : Option α :=
  (m.entries.find? fun e => e.1.same key).map Prod.snd

/-- Whether a path is a key. -/
def contains (m : PathMap α) (key : Path) : Bool :=
  (m.find? key).isSome

/-- The entries that satisfy a condition. -/
def filter (m : PathMap α) (keep : Path → α → Bool) : PathMap α :=
  ⟨m.entries.filter fun e => keep e.1 e.2, m.sorted.filter _⟩

/-- The map without one path. -/
def erase (m : PathMap α) (key : Path) : PathMap α :=
  m.filter fun k _ => !k.same key

/-- Change every value. -/
def mapValues {β : Type} (m : PathMap α) (f : Path → α → β) : PathMap β :=
  ⟨m.entries.map fun e => (e.1, f e.1 e.2), by
    rw [List.pairwise_map]; exact m.sorted⟩

/-- Change the value at one path, if there is one. -/
def modify (m : PathMap α) (key : Path) (f : α → α) : PathMap α :=
  m.mapValues fun k v => if k.same key then f v else v

/-- Write several values, one after another. -/
def insertAll (m : PathMap α) (entries : List (Path × α)) : PathMap α :=
  entries.foldl (fun m e => m.insert e.1 e.2) m

/-- The keys in path order. -/
def keys (m : PathMap α) : List Path := m.entries.map Prod.fst

/-- The entries whose key has `dir` as its parent. -/
def children (m : PathMap α) (dir : Path) : List (Path × α) :=
  m.entries.filter fun e => e.1.parent.any (·.same dir)

end PathMap

end TreeOps
