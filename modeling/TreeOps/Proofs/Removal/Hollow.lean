import TreeOps.Proofs.Memory.Below

/-!
# What pruning takes away

A directory is hollow if there is nothing at or below it but directories without volumes. Pruning
with everything below takes away the hollow directories that it reaches, and it reaches no further
than to the next mounted node. Pruning without that takes away the children that are empty. Either
can be told one level at a time: what goes below an entry is told by the entry, and the entry goes
when everything below it does.

What goes is listed in post-order: a directory after everything below it, and directories side by
side in path order.
-/

namespace TreeOps

/-- Whether a node is a directory on which no volume is mounted. -/
def Node.IsPlain (n : Node) : Prop := n.kind = .directory ∧ n.mounted = false

instance (n : Node) : Decidable n.IsPlain :=
  inferInstanceAs (Decidable (n.kind = .directory ∧ n.mounted = false))

/-- A hollow directory below the root, with no mounted node in between. -/
structure ReachedHollow (view : Place → Option Node) (way : Place) : Prop where
  ne_nil : way ≠ []
  exists_node : ∃ n, view way = some n
  hollow : ∀ more n, view (way ++ more) = some n → n.IsPlain
  reached : ∀ above more n, way = above ++ more → above ≠ [] → view above = some n →
    n.mounted = false

/-- An empty directory right below the root. -/
structure EmptyChild (view : Place → Option Node) (way : Place) : Prop where
  child : way.length = 1
  plain : ∃ n, view way = some n ∧ n.IsPlain
  empty : ∀ more, more ≠ [] → view (way ++ more) = none

/-- Whether pruning takes away what is on a way from its root. -/
def Prunes (recursive : Bool) : (view : Place → Option Node) → (way : Place) → Prop :=
  if recursive then ReachedHollow else EmptyChild

/-- Whether pruning a directory goes on below it and takes away what is on a way from there. -/
def PrunesBelow (recursive : Bool) (view : Place → Option Node) (way : Place) : Prop :=
  recursive = true ∧ Prunes recursive view way

/-- Whether pruning a directory takes away what is on a way from it. The directory itself goes when
everything below it does. -/
def PrunesFrom (recursive : Bool) (view : Place → Option Node) (way : Place) : Prop :=
  PrunesBelow recursive view way ∨
    way = [] ∧ ∀ way n, way ≠ [] → view way = some n → PrunesBelow recursive view way

variable {view : Place → Option Node} {bound : Nat} {recursive : Bool} {way : Place}

theorem Prunes.ne_nil (h : Prunes recursive view way) : way ≠ [] := by
  cases recursive with
  | true => exact ReachedHollow.ne_nil h
  | false =>
    rintro rfl
    exact absurd (EmptyChild.child h) (by simp)

theorem ReachedHollow.plain (h : ReachedHollow view way) : ∃ n, view way = some n ∧ n.IsPlain := by
  obtain ⟨n, hn⟩ := h.exists_node
  exact ⟨n, hn, h.hollow [] n (by rw [List.append_nil, hn])⟩

theorem Prunes.plain (h : Prunes recursive view way) : ∃ n, view way = some n ∧ n.IsPlain := by
  cases recursive with
  | true => exact ReachedHollow.plain h
  | false => exact EmptyChild.plain h

/-- What is below something that is taken away is taken away. -/
theorem Prunes.below {more : Place} {n : Node} (h : Prunes recursive view way)
    (hn : view (way ++ more) = some n) : Prunes recursive view (way ++ more) := by
  cases recursive with
  | true =>
    obtain ⟨hne, -, hhollow, hreached⟩ : ReachedHollow view way := h
    refine ⟨by simp [hne], ⟨n, hn⟩, fun rest m hm => ?_, fun above rest m hsplit hne' hm => ?_⟩
    · exact hhollow (more ++ rest) m (by rw [← List.append_assoc, hm])
    · rcases List.append_eq_append_iff.mp hsplit with ⟨d, rfl, -⟩ | ⟨d, rfl, -⟩
      · exact (hhollow d m hm).2
      · exact hreached above d m rfl hne' hm
  | false =>
    by_cases hmore : more = []
    · rw [hmore, List.append_nil]
      exact h
    · rw [EmptyChild.empty h more hmore] at hn
      cases hn

theorem reachedHollow_cons {c : Component} (hregular : Regular view bound) :
    ReachedHollow view (c :: way) ↔ (∃ n, view [c] = some n ∧ n.IsPlain) ∧
      PrunesFrom true (fun way => view (c :: way)) way := by
  constructor
  · rintro ⟨-, ⟨n, hn⟩, hhollow, hreached⟩
    by_cases hway : way = []
    · subst hway
      refine ⟨⟨n, hn, hhollow [] n hn⟩, .inr ⟨rfl, fun way m hne hm => ⟨rfl, ?_⟩⟩⟩
      exact ⟨hne, ⟨m, hm⟩, fun more d hd => hhollow _ d hd,
        fun above more d _ _ hd => (hhollow above d hd).2⟩
    · obtain ⟨d, hd, hdir⟩ := hregular.directory_above [c] hn hway
      refine ⟨⟨d, hd, hdir, hreached [c] way d rfl (by simp) hd⟩, .inl ⟨rfl, ?_⟩⟩
      refine ⟨hway, ⟨n, hn⟩, hhollow, fun above more m hsplit _ hm => ?_⟩
      exact hreached (c :: above) more m (by rw [hsplit]; rfl) (by simp) hm
  · rintro ⟨⟨n, hn, hplain⟩, hbelow⟩
    rcases hbelow with ⟨-, hne, hsome, hhollow, hreached⟩ | ⟨rfl, hbelow⟩
    · refine ⟨by simp, hsome, hhollow, fun above more m hsplit hne' hm => ?_⟩
      obtain ⟨d, above, rfl⟩ := List.exists_cons_of_ne_nil hne'
      obtain ⟨rfl, hsplit'⟩ := List.cons.inj hsplit
      by_cases habove : above = []
      · rw [habove, hn] at hm
        exact Option.some.inj hm ▸ hplain.2
      · exact hreached above more m hsplit' habove hm
    · have hplains : ∀ more m, view (c :: more) = some m → m.IsPlain := by
        intro more m hm
        by_cases hmore : more = []
        · rw [hmore, hn] at hm
          exact Option.some.inj hm ▸ hplain
        · obtain ⟨-, hprunes⟩ := hbelow more m hmore hm
          obtain ⟨d, hd, hplain'⟩ := hprunes.plain
          exact Option.some.inj (hm.symm.trans hd) ▸ hplain'
      refine ⟨by simp, ⟨n, hn⟩, hplains, fun above more m hsplit hne hm => ?_⟩
      obtain ⟨d, above, rfl⟩ := List.exists_cons_of_ne_nil hne
      obtain ⟨rfl, -⟩ := List.cons.inj hsplit
      exact (hplains above m hm).2

theorem emptyChild_cons {c : Component} :
    EmptyChild view (c :: way) ↔ (∃ n, view [c] = some n ∧ n.IsPlain) ∧
      PrunesFrom false (fun way => view (c :: way)) way := by
  constructor
  · rintro ⟨hchild, hplain, hempty⟩
    obtain rfl : way = [] := List.length_eq_zero_iff.mp (Nat.succ.inj hchild)
    refine ⟨hplain, .inr ⟨rfl, fun way n hne hn => ?_⟩⟩
    exact nomatch (hempty way hne).symm.trans hn
  · rintro ⟨hplain, ⟨hno, -⟩ | ⟨rfl, hbelow⟩⟩
    · cases hno
    · refine ⟨rfl, hplain, fun more hne => ?_⟩
      cases hn : view ([c] ++ more) with
      | none => rfl
      | some n => exact nomatch (hbelow more n hne hn).1

/-- What goes below an entry is told by the entry. -/
theorem prunes_cons {c : Component} (hregular : Regular view bound) :
    Prunes recursive view (c :: way) ↔ (∃ n, view [c] = some n ∧ n.IsPlain) ∧
      PrunesFrom recursive (fun way => view (c :: way)) way := by
  cases recursive with
  | true => exact reachedHollow_cons hregular
  | false => exact emptyChild_cons

/-! ### The order of removal -/

/-- Whether one place comes before another in post-order: it lies below the other, or they part and
it comes first in path order. -/
def PostOrder (a b : Place) : Prop := (b <+: a ∧ a ≠ b) ∨ ¬a <+: b ∧ compare a b = .lt

theorem PostOrder.ne {a b : Place} (h : PostOrder a b) : a ≠ b := by
  rintro rfl
  rcases h with ⟨-, hne⟩ | ⟨hnot, -⟩
  · exact hne rfl
  · exact hnot (List.prefix_refl a)

theorem PostOrder.not_above {a b : Place} (h : PostOrder a b) : ¬a <+: b := by
  rcases h with ⟨hbelow, hne⟩ | ⟨hnot, -⟩
  · exact fun habove => hne (habove.eq_of_length_le hbelow.length_le)
  · exact hnot

theorem postOrder_of_below {place way : Place} (h : way ≠ []) : PostOrder (place ++ way) place :=
  .inl ⟨List.prefix_append place way, by simpa using h⟩

/-- Below two entries of a directory, the order is that of the entries. -/
theorem postOrder_of_children {dir : Place} {c d : Component} (h : compare [c] [d] = .lt)
    (way way' : Place) : PostOrder (dir ++ c :: way) (dir ++ d :: way') := by
  refine .inr ⟨?_, ?_⟩
  · rw [List.prefix_append_right_inj, List.cons_prefix_cons]
    rintro ⟨rfl, -⟩
    simp at h
  · rw [compare_append]
    exact compare_cons_lt h way way'

end TreeOps
