import TreeOps.Proofs.Memory.Listing

/-!
# The nodes at and below a place

The nodes of a tree at and below a place, in path order, are the node at the place and then, entry
by entry, the nodes at and below each entry. So whoever visits a directory before the entries of its
listing, one after another, visits all nodes in path order.
-/

namespace TreeOps

/-! ### Path order along a way -/

theorem compare_append (place a b : Place) : compare (place ++ a) (place ++ b) = compare a b := by
  induction place with
  | nil => rfl
  | cons c place ih =>
    have hself : compare c c = .eq := Std.ReflCmp.compare_self
    rw [List.cons_append, List.cons_append, List.compare_cons_cons, hself, Ordering.eq_then, ih]

theorem compare_self_append {place way : Place} (h : way ≠ []) :
    compare place (place ++ way) = .lt := by
  have hcompare := compare_append place [] way
  rw [List.append_nil] at hcompare
  rw [hcompare]
  cases way with
  | nil => exact absurd rfl h
  | cons c way => rfl

/-- In path order, no place comes after one that is at or below it. -/
theorem not_prefix_of_compare_lt {a b : Place} (h : compare a b = .lt) : ¬b <+: a := by
  have hself : compare b b ≠ .lt := by simp
  rintro ⟨way, rfl⟩
  by_cases hway : way = []
  · rw [hway, List.append_nil] at h
    exact hself h
  · exact hself (Std.TransCmp.lt_trans (compare_self_append hway) h)

theorem compare_cons_lt {c d : Component} (h : compare [c] [d] = .lt) (way way' : Place) :
    compare (c :: way) (d :: way') = .lt := by
  rw [List.compare_cons_cons] at h ⊢
  cases hcd : compare c d with
  | lt => rfl
  | eq => simp [hcd] at h
  | gt => simp [hcd] at h

namespace Tree

variable {t t' : Tree}

/-- The nodes at and below a place with their places, in path order. -/
def below (t : Tree) (place : Place) : List (Place × Node) :=
  t.contents.filter fun e => place.isPrefixOf e.1

theorem mem_below {place : Place} {e : Place × Node} :
    e ∈ t.below place ↔ ∃ way, e.1 = place ++ way ∧ t.lookup (place ++ way) = some e.2 := by
  rw [below, List.mem_filter, List.isPrefixOf_iff_prefix, PathMap.mem_contents]
  constructor
  · rintro ⟨h, way, hway⟩
    exact ⟨way, hway.symm, hway ▸ h⟩
  · rintro ⟨way, hway, h⟩
    exact ⟨hway ▸ h, hway ▸ List.prefix_append place way⟩

theorem below_sorted (t : Tree) (place : Place) :
    (t.below place).Pairwise fun a b => compare a.1 b.1 = .lt :=
  t.contents_sorted.filter _

theorem below_congr {place : Place}
    (h : ∀ way, t'.lookup (place ++ way) = t.lookup (place ++ way)) :
    t'.below place = t.below place :=
  PathMap.eq_of_sorted (t'.below_sorted place) (t.below_sorted place) fun e => by
    simp only [mem_below, h]

/-- Two places have equally many nodes at and below them if the same ways lead to nodes. -/
theorem length_below_eq {place place' : Place}
    (h : ∀ way, (t'.lookup (place' ++ way)).isSome = (t.lookup (place ++ way)).isSome) :
    (t'.below place').length = (t.below place).length := by
  have hsorted (t : Tree) (place : Place) :
      ((t.below place).map fun e => (e.1.drop place.length, ())).Pairwise
        fun a b => compare a.1 b.1 = .lt := by
    refine List.pairwise_map.mpr ((t.below_sorted place).imp_of_mem ?_)
    intro a b ha hb hab
    obtain ⟨way, hway, -⟩ := mem_below.mp ha
    obtain ⟨way', hway', -⟩ := mem_below.mp hb
    rw [hway, hway', compare_append] at hab
    rw [hway, hway', List.drop_left, List.drop_left]
    exact hab
  have hmem (t : Tree) (place : Place) (e : Place × Unit) :
      e ∈ ((t.below place).map fun e => (e.1.drop place.length, ())) ↔
        (t.lookup (place ++ e.1)).isSome = true := by
    rw [List.mem_map, Option.isSome_iff_exists]
    constructor
    · rintro ⟨x, hx, rfl⟩
      obtain ⟨way, hway, hn⟩ := mem_below.mp hx
      rw [hway, List.drop_left]
      exact ⟨x.2, hn⟩
    · rintro ⟨n, hn⟩
      exact ⟨(place ++ e.1, n), mem_below.mpr ⟨e.1, rfl, hn⟩, by rw [List.drop_left]⟩
  have heq := PathMap.eq_of_sorted (hsorted t' place') (hsorted t place) fun e => by
    rw [hmem, hmem, h]
  simpa using congrArg List.length heq

/-- A node without anything below it. -/
theorem below_of_leaf {place : Place} {n : Node} (hn : t.lookup place = some n)
    (hnone : ∀ way, way ≠ [] → t.lookup (place ++ way) = none) : t.below place = [(place, n)] := by
  refine PathMap.eq_of_sorted (t.below_sorted place) (List.pairwise_singleton ..) fun e => ?_
  rw [mem_below, List.mem_singleton]
  constructor
  · rintro ⟨way, hway, h⟩
    by_cases hnil : way = []
    · rw [hnil, List.append_nil] at hway h
      rw [hn] at h
      exact Prod.ext hway (Option.some.inj h).symm
    · rw [hnone way hnil] at h
      cases h
  · rintro rfl
    exact ⟨[], by simp, by rw [List.append_nil]; exact hn⟩

/-- A directory comes first, and then what is at and below its entries, one after another. -/
theorem below_eq {dir : Path} {n : Node} {bound : Nat}
    (hview : Regular (t.branch dir.components) bound) (hn : t.lookup dir.components = some n) :
    t.below dir.components =
      (dir.components, n) :: (t.entriesOf dir).flatMap fun e => t.below e.path.components := by
  have hentries : ((t.entriesOf dir).flatMap fun e => t.below e.path.components).Pairwise
      fun a b => compare a.1 b.1 = .lt := by
    rw [List.pairwise_flatMap]
    refine ⟨fun e _ => t.below_sorted _, (t.entriesOf_sorted dir).imp_of_mem ?_⟩
    intro d e hd he hde x hx y hy
    obtain ⟨b, -, -, hb, -⟩ := exists_of_mem_entriesOf hd
    obtain ⟨b', -, -, hb', -⟩ := exists_of_mem_entriesOf he
    obtain ⟨way, hway, -⟩ := mem_below.mp hx
    obtain ⟨way', hway', -⟩ := mem_below.mp hy
    replace hde : compare d.path.components e.path.components = .lt := hde
    rw [hb, hb', compare_append] at hde
    rw [hway, hway', hb, hb', List.append_assoc, List.append_assoc, compare_append]
    exact compare_cons_lt hde way way'
  refine PathMap.eq_of_sorted (t.below_sorted _) (List.pairwise_cons.mpr ⟨?_, hentries⟩) fun e => ?_
  · intro e he
    obtain ⟨d, hd, he⟩ := List.mem_flatMap.mp he
    obtain ⟨b, -, -, hb, -⟩ := exists_of_mem_entriesOf hd
    obtain ⟨way, hway, -⟩ := mem_below.mp he
    rw [hway, hb, List.append_assoc]
    exact compare_self_append (by simp)
  · rw [mem_below, List.mem_cons, List.mem_flatMap]
    constructor
    · rintro ⟨way, hway, h⟩
      by_cases hnil : way = []
      · rw [hnil, List.append_nil] at hway h
        rw [hn] at h
        exact .inl (Prod.ext hway (Option.some.inj h).symm)
      · obtain ⟨d, hd, more, hmore⟩ := exists_entry_above hview h hnil
        exact .inr ⟨d, hd, mem_below.mpr ⟨more, hway.trans hmore.symm, hmore ▸ h⟩⟩
    · rintro (rfl | ⟨d, hd, he⟩)
      · exact ⟨[], by simp, by rw [List.append_nil]; exact hn⟩
      · obtain ⟨b, -, -, hb, -⟩ := exists_of_mem_entriesOf hd
        obtain ⟨way, hway, h⟩ := mem_below.mp he
        refine ⟨.name b :: way, ?_, ?_⟩
        · rw [hway, hb, List.append_assoc]
          rfl
        · rw [hb, List.append_assoc] at h
          exact h

/-- The nodes below a place with their places, in path order. -/
def inside (t : Tree) (place : Place) : List (Place × Node) :=
  t.contents.filter fun e => place.isPrefixOf e.1 && e.1 != place

theorem inside_sorted (t : Tree) (place : Place) :
    (t.inside place).Pairwise fun a b => compare a.1 b.1 = .lt :=
  t.contents_sorted.filter _

theorem mem_inside {place : Place} {e : Place × Node} :
    e ∈ t.inside place ↔ e ∈ t.below place ∧ e.1 ≠ place := by
  simp [inside, below, and_assoc]

/-- What is at a place comes before what is below it. -/
theorem below_eq_inside {place : Place} {n : Node} (hn : t.lookup place = some n) :
    t.below place = (place, n) :: t.inside place := by
  have hsorted : ((place, n) :: t.inside place).Pairwise fun a b => compare a.1 b.1 = .lt := by
    rw [List.pairwise_cons]
    refine ⟨?_, t.inside_sorted place⟩
    intro e he
    obtain ⟨hbelow, hne⟩ := mem_inside.mp he
    obtain ⟨way, hway, -⟩ := mem_below.mp hbelow
    rw [hway] at hne ⊢
    exact compare_self_append (by simpa using hne)
  apply PathMap.eq_of_sorted (t.below_sorted place) hsorted
  intro e
  rw [List.mem_cons, mem_inside]
  constructor
  · intro he
    by_cases heq : e.1 = place
    · obtain ⟨way, hway, hfound⟩ := mem_below.mp he
      rw [← hway, heq, hn] at hfound
      exact .inl (Prod.ext heq (Option.some.inj hfound).symm)
    · exact .inr ⟨he, heq⟩
  · rintro (rfl | ⟨he, -⟩)
    · exact mem_below.mpr ⟨[], by simp, by rw [List.append_nil]; exact hn⟩
    · exact he

/-- What is below a directory is at or below its entries, one after another. -/
theorem inside_eq {dir : Path} {n : Node} {bound : Nat}
    (hview : Regular (t.branch dir.components) bound) (hn : t.lookup dir.components = some n) :
    t.inside dir.components = (t.entriesOf dir).flatMap fun e => t.below e.path.components := by
  have hbelow := below_eq hview hn
  rw [below_eq_inside hn] at hbelow
  exact (List.cons.inj hbelow).2

end Tree

end TreeOps
