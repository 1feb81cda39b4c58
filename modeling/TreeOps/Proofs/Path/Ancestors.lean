import TreeOps.Proofs.Path.Components

/-!
# Ancestors and relative paths

The named ancestors of a path are the path itself and the paths above it, each with one component
less, down to a path of one component. What a path is relative to one of its ancestors has the
components that follow those of the ancestor, so putting it below another path moves it there.
-/

namespace TreeOps.Path

/-- The paths of a list stand for a place and the places above it, nearest first. -/
def Climbs : List Component → List Path → Prop
  | place, [] => place = []
  | place, p :: ps => place ≠ [] ∧ p.components = place ∧ Climbs place.dropLast ps

theorem components_ne_nil {p : Path} (h : p.bytes ≠ []) : p.components ≠ [] := by
  intro hnil
  rw [components_eq, List.append_eq_nil_iff, List.map_eq_nil_iff] at hnil
  rcases lead_cases p with hl | hl | hl
  · simp [hl] at hnil
  · simp [hl] at hnil
  · rw [rest_of_lead_eq_none hl] at hnil
    have hparts := lead_eq_none_iff.mp hl
    have hmem : p.bytes.takeWhile (· != separator) ∈ p.bytes.splitOn separator :=
      List.mem_of_head? (head?_splitOn p.bytes)
    have hnot := List.filter_eq_nil_iff.mp hnil.2 _ hmem
    rw [isSignificant_iff, not_and, Classical.not_not] at hnot
    by_cases hfirst : p.bytes.takeWhile (· != separator) = []
    · cases hb : p.bytes with
      | nil => exact h hb
      | cons b bs =>
        rw [hb] at hfirst hparts
        have hne : b ≠ separator := by simpa using hparts.1
        simp [hne] at hfirst
    · exact hparts.2 (hnot hfirst)

/-- What a directory's child is called when it has no name still leads further down. -/
theorem length_lt_join {p q : Path} {c : Component} (h : q.components = p.components ++ [c]) :
    p.components.length < (p.join q).components.length := by
  have hlength : q.components.length = p.components.length + 1 := by rw [h, List.length_append]; rfl
  by_cases hp : p.bytes = []
  · obtain rfl : p = ⟨[]⟩ := by cases p; simp_all
    have hjoin : join ⟨[]⟩ q = q := by
      rw [join]
      split
      · rfl
      · rfl
    rw [hjoin, hlength]
    exact Nat.lt_succ_self _
  · cases hq : q.isAbsolute with
    | true =>
      rw [join, if_pos hq, hlength]
      exact Nat.lt_succ_self _
    | false =>
      have hlead : q.lead.toList.length ≤ 1 := by cases q.lead <;> simp
      have hpos : 0 < p.components.length := List.length_pos_iff.mpr (components_ne_nil hp)
      rw [components_eq, List.length_append, pieces_rest_of_not_absolute hq] at hlength
      rw [components_join_of_nonempty hp hq, List.length_append]
      omega

theorem length_pieces_le (b : Bytes) : (pieces b).length ≤ b.length := by
  induction b with
  | nil => simp
  | cons x b ih =>
    unfold pieces at ih ⊢
    rw [List.splitOn_cons_eq_if_modifyHead]
    split
    · simp only [List.filter_cons, isSignificant]
      simp only [List.length_cons]
      exact Nat.le_succ_of_le ih
    · obtain ⟨first, others, hs⟩ := List.exists_cons_of_ne_nil (List.splitOn_ne_nil separator b)
      rw [hs, List.filter_cons] at ih
      rw [hs, List.modifyHead_cons, List.filter_cons]
      have hothers : (others.filter isSignificant).length ≤ b.length := by
        split at ih
        · exact Nat.le_of_succ_le ih
        · exact ih
      split <;> simp only [List.length_cons] <;> omega

theorem length_components_le (p : Path) : p.components.length ≤ p.bytes.length := by
  have hrest := length_pieces_le p.rest
  have hbytes := congrArg List.length (leadBytes_append_rest p)
  rw [List.length_append] at hbytes
  rw [components_eq, List.length_append, List.length_map]
  have hlead : p.lead.toList.length ≤ p.leadBytes.length := by
    rw [leadBytes_eq]
    rcases lead_cases p with hl | hl | hl <;> simp [hl, dot]
  omega

theorem climbs_firstAncestors {count : Nat} {p : Path} (h : p.components.length < count) :
    Climbs p.components ((firstAncestors count p).filter fun q => !q.bytes.isEmpty) := by
  induction count generalizing p with
  | zero => omega
  | succ count ih =>
    rw [firstAncestors]
    cases hq : p.parent with
    | none =>
      by_cases hp : p.bytes = []
      · obtain rfl : p = ⟨[]⟩ := by cases p; simp_all
        simp [Climbs, components_mk_nil]
      · have hroot := (components_of_parent_eq_none hq).resolve_left (components_ne_nil hp)
        simp [hp, Climbs, hroot]
    | some q =>
      obtain ⟨c, -, hc⟩ := components_of_parent_eq_some hq
      have hp : p.bytes ≠ [] := by
        intro hnil
        obtain rfl : p = ⟨[]⟩ := by cases p; simp_all
        simp [components_mk_nil] at hc
      have hlt : q.components.length < count := by
        rw [hc, List.length_append, List.length_singleton] at h
        omega
      have hdrop : p.components.dropLast = q.components := by rw [hc, List.dropLast_concat]
      rw [List.filter_cons, if_pos (by simpa using hp)]
      exact ⟨components_ne_nil hp, rfl, hdrop ▸ ih hlt⟩

/-- The named ancestors are the path and everything above it. -/
theorem climbs_namedAncestors (p : Path) : Climbs p.components p.namedAncestors :=
  climbs_firstAncestors (Nat.lt_succ_of_le (length_components_le p))

theorem prefix_of_mem_firstAncestors {count : Nat} {p q : Path} (h : q ∈ firstAncestors count p) :
    q.components <+: p.components := by
  induction count generalizing p with
  | zero => cases h
  | succ count ih =>
    rw [firstAncestors] at h
    rcases List.mem_cons.mp h with rfl | h
    · exact List.prefix_refl _
    · cases hparent : p.parent with
      | none => simp [hparent] at h
      | some parent =>
        rw [hparent] at h
        obtain ⟨c, -, hc⟩ := components_of_parent_eq_some hparent
        exact hc ▸ (ih h).trans (List.prefix_append _ _)

theorem Climbs.above {place : List Component} {l : List Path} (h : Climbs place l) {p : Path}
    (hp : p ∈ l) : p.components <+: place := by
  induction l generalizing place with
  | nil => cases hp
  | cons q l ih =>
    obtain ⟨-, hq, hrest⟩ := h
    rcases List.mem_cons.mp hp with rfl | hp
    · exact hq ▸ List.prefix_refl _
    · exact (ih hrest hp).trans (List.dropLast_prefix place)

theorem Climbs.ne_nil {place : List Component} {l : List Path} (h : Climbs place l) {p : Path}
    (hp : p ∈ l) : p.components ≠ [] := by
  induction l generalizing place with
  | nil => cases hp
  | cons q l ih =>
    obtain ⟨hne, hq, hrest⟩ := h
    rcases List.mem_cons.mp hp with rfl | hp
    · exact hq ▸ hne
    · exact ih hrest hp

/-- Every place on the way down is that of a path in the list. -/
theorem Climbs.exists_mem {place above : List Component} {l : List Path} (h : Climbs place l)
    (hne : above ≠ []) (hpre : above <+: place) : ∃ p ∈ l, p.components = above := by
  induction l generalizing place with
  | nil =>
    obtain rfl : place = [] := h
    exact absurd (List.prefix_nil.mp hpre) hne
  | cons q l ih =>
    obtain ⟨hplace, hq, hrest⟩ := h
    rw [← List.dropLast_concat_getLast hplace, List.prefix_concat_iff,
      List.dropLast_concat_getLast hplace] at hpre
    rcases hpre with rfl | hpre
    · exact ⟨q, List.mem_cons_self, hq⟩
    · obtain ⟨p, hp, hcomponents⟩ := ih hrest hpre
      exact ⟨p, List.mem_cons_of_mem q hp, hcomponents⟩

/-- Only the first component of a path can be the root. -/
theorem ne_root_of_components {p : Path} {base : List Component} {c : Component}
    (h : p.components = base ++ [c]) (hne : base ≠ []) : c ≠ .root := by
  cases hq : p.parent with
  | none =>
    rcases components_of_parent_eq_none hq with hp | hp
    · simp [hp] at h
    · rw [hp] at h
      have hlen := congrArg List.length h
      rw [List.length_append] at hlen
      exact absurd (List.eq_nil_of_length_eq_zero (by simpa using hlen)) hne
  | some q =>
    obtain ⟨d, hd, hcomponents⟩ := components_of_parent_eq_some hq
    rw [h] at hcomponents
    obtain ⟨-, hlast⟩ := List.append_inj' hcomponents rfl
    rw [List.cons.injEq] at hlast
    exact hlast.1 ▸ hd

/-! ### Relative paths -/

theorem dropSignificant_suffix (count : Nat) (segments : List Bytes) :
    dropSignificant count segments <:+ segments := by
  induction segments generalizing count with
  | nil => cases count <;> simp [dropSignificant]
  | cons s segments ih =>
    cases count with
    | zero => exact List.suffix_refl _
    | succ count => exact (ih _).trans (List.suffix_cons s segments)

theorem filter_dropSignificant (count : Nat) (segments : List Bytes) :
    (dropSignificant count segments).filter isSignificant =
      (segments.filter isSignificant).drop count := by
  induction segments generalizing count with
  | nil => cases count <;> simp [dropSignificant]
  | cons s segments ih =>
    cases count with
    | zero => rfl
    | succ count =>
      rw [dropSignificant, ih, List.filter_cons]
      split <;> simp

theorem filter_dropWhile_not_significant (segments : List Bytes) :
    (segments.dropWhile fun s => !isSignificant s).filter isSignificant =
      segments.filter isSignificant := by
  induction segments with
  | nil => rfl
  | cons s segments ih =>
    rw [List.dropWhile_cons]
    split
    · next hs =>
      have hno : isSignificant s = false := by simpa using hs
      rw [ih, List.filter_cons, if_neg (by simp [hno])]
    · rfl

theorem head?_trimRight {segments : List Bytes} {s : Bytes}
    (h : (trimRight segments).head? = some s) : segments.head? = some s := by
  obtain ⟨tail, ht⟩ := trimRight_prefix_self segments
  rw [← ht, List.head?_append, h]
  rfl

/-- Segments of which the first counts lead no path. -/
theorem lead_joinSegments_eq_none {segments : List Bytes}
    (hwhole : ∀ s ∈ segments, separator ∉ s)
    (hfirst : ∀ s, segments.head? = some s → isSignificant s = true) :
    lead ⟨joinSegments segments⟩ = none := by
  cases segments with
  | nil => rfl
  | cons s segments =>
    have hs := (isSignificant_iff s).mp (hfirst s rfl)
    have htake := takeWhile_joinSegments segments (hwhole s (by simp))
    apply lead_eq_none_iff.mpr
    refine ⟨?_, fun hdot => hs.2 (htake.symm.trans hdot)⟩
    intro hhead
    obtain ⟨x, hx⟩ := List.head?_eq_some_iff.mp hhead
    rw [show joinSegments (s :: segments) = separator :: x from hx] at htake
    exact hs.1 (by simpa using htake.symm)

section Relative

variable {p above : Path}

/-- The segments of a path below its ancestor. -/
private def remainder (p above : Path) : List Bytes :=
  trimRight ((dropSignificant (above.components.length - p.lead.toList.length) p.segments).dropWhile
    fun s => !isSignificant s)

private theorem relativeTo_eq (hne : above.components ≠ []) :
    p.relativeTo above = ⟨joinSegments (remainder p above)⟩ := by
  rw [relativeTo, if_neg (by simpa using hne)]
  rfl

private theorem separator_notMem_remainder {s : Bytes} (h : s ∈ remainder p above) :
    separator ∉ s :=
  separator_notMem_of_mem_splitOn <|
    (dropSignificant_suffix _ _).subset <|
      (List.dropWhile_suffix _).subset <| (trimRight_prefix_self _).subset h

private theorem isSignificant_head?_remainder {s : Bytes}
    (h : (remainder p above).head? = some s) : isSignificant s = true := by
  have hnot := List.head?_dropWhile_not (fun s => !isSignificant s)
    (dropSignificant (above.components.length - p.lead.toList.length) p.segments)
  rw [head?_trimRight h] at hnot
  simpa using hnot

theorem lead_relativeTo (hne : above.components ≠ []) : (p.relativeTo above).lead = none := by
  rw [relativeTo_eq hne]
  exact lead_joinSegments_eq_none (fun s => separator_notMem_remainder)
    (fun s => isSignificant_head?_remainder)

/-- The rest of a path has the components that follow those of its ancestor. -/
theorem components_relativeTo (hne : above.components ≠ []) :
    (p.relativeTo above).components = p.components.drop above.components.length := by
  have hlead := lead_relativeTo (p := p) hne
  have hlen : p.lead.toList.length ≤ above.components.length := by
    have hpos := List.length_pos_iff.mpr hne
    rcases lead_cases p with hl | hl | hl <;> simp [hl] <;> omega
  rw [components_eq, hlead, rest_of_lead_eq_none hlead, relativeTo_eq hne,
    pieces_flatten_intersperse fun s => separator_notMem_remainder, remainder, filter_trimRight,
    filter_dropWhile_not_significant, filter_dropSignificant, List.map_drop]
  rw [components_eq p, List.drop_append, List.drop_eq_nil_of_le hlen]
  rfl

end Relative

end TreeOps.Path
