import TreeOps.Path.Basic

/-!
# The components of paths

What the operations on paths do to components. Joining a relative path appends its components, the
parent has all components but the last, and the rest of a path below an ancestor has the components
that follow those of the ancestor. The bytes of a path play no part in these rules.
-/

namespace TreeOps

/-- A name that an entry of a directory can have. -/
structure IsName (b : Bytes) : Prop where
  nonempty : b ≠ []
  ne_dot : b ≠ dot
  ne_dotDot : b ≠ dotDot
  whole : separator ∉ b

namespace Path

/-! ### Pieces between separators -/

/-- The pieces between separators that count. -/
def pieces (bytes : Bytes) : List Bytes :=
  (bytes.splitOn separator).filter isSignificant

/-- The bytes behind the leading component. -/
def rest (p : Path) : Bytes := p.bytes.drop p.leadBytes.length

theorem components_eq (p : Path) :
    p.components = p.lead.toList ++ (pieces p.rest).map componentOf := rfl

@[simp] theorem pieces_nil : pieces [] = [] := by
  simp [pieces, isSignificant]

theorem pieces_append_separator (a b : Bytes) :
    pieces (a ++ separator :: b) = pieces a ++ pieces b := by
  simp [pieces, List.splitOn_append_cons_self]

/-- Behind a separator, or at the very beginning, nothing runs together. -/
theorem pieces_append {a : Bytes} (h : a = [] ∨ a.getLast? = some separator) (b : Bytes) :
    pieces (a ++ b) = pieces a ++ pieces b := by
  rcases h with rfl | h
  · simp
  · obtain ⟨front, rfl⟩ := List.getLast?_eq_some_iff.mp h
    have hfront := pieces_append_separator front []
    rw [pieces_nil, List.append_nil] at hfront
    rw [hfront, List.append_assoc, List.singleton_append, pieces_append_separator]

theorem isSignificant_iff (s : Bytes) : isSignificant s = true ↔ s ≠ [] ∧ s ≠ dot := by
  simp [isSignificant]

theorem pieces_of_isName {b : Bytes} (h : IsName b) : pieces b = [b] := by
  rw [pieces, List.splitOn_eq_singleton h.whole]
  simp [(isSignificant_iff b).mpr ⟨h.nonempty, h.ne_dot⟩]

theorem separator_notMem_of_mem_splitOn {b s : Bytes} (h : s ∈ b.splitOn separator) :
    separator ∉ s := by
  induction b generalizing s with
  | nil => simp_all
  | cons x b ih =>
    rw [List.splitOn_cons_eq_if_modifyHead] at h
    split at h
    · rcases List.mem_cons.mp h with rfl | h
      · simp
      · exact ih h
    · next hx =>
      obtain ⟨first, others, hs⟩ := List.exists_cons_of_ne_nil (List.splitOn_ne_nil separator b)
      rw [hs, List.modifyHead_cons] at h
      rcases List.mem_cons.mp h with rfl | h
      · have hfirst : separator ∉ first := ih (by simp [hs])
        simp only [List.mem_cons, not_or]
        exact ⟨fun he => hx (by simp [he]), hfirst⟩
      · exact ih (by simp [hs, h])

theorem pieces_flatten_intersperse {segments : List Bytes}
    (h : ∀ s ∈ segments, separator ∉ s) :
    pieces (joinSegments segments) = segments.filter isSignificant := by
  by_cases hne : segments = []
  · subst hne
    simp [joinSegments]
  · rw [pieces]
    congr 1
    exact List.splitOn_intercalate separator h hne

/-! ### The leading component -/

theorem head?_splitOn (b : Bytes) :
    (b.splitOn separator).head? = some (b.takeWhile (· != separator)) := by
  induction b with
  | nil => rfl
  | cons x b ih =>
    rw [List.splitOn_cons_eq_if_modifyHead]
    by_cases hx : x = separator
    · simp [hx]
    · simp [hx, List.head?_modifyHead, ih]

theorem lead_eq (p : Path) :
    p.lead =
      if p.bytes.head? = some separator then some .root
      else if p.bytes.takeWhile (· != separator) = dot then some .here
      else none := by
  simp [lead, isAbsolute, head?_splitOn]

theorem lead_eq_root_iff {p : Path} : p.lead = some .root ↔ p.bytes.head? = some separator := by
  rw [lead_eq]
  split
  · next h => simp [h]
  · next h => split <;> simp [h]

theorem lead_eq_here_iff {p : Path} :
    p.lead = some .here ↔ p.bytes.takeWhile (· != separator) = dot := by
  rw [lead_eq]
  split
  · next h =>
    obtain ⟨x, hx⟩ := List.head?_eq_some_iff.mp h
    simp [hx, dot]
  · split <;> simp_all

theorem lead_eq_none_iff {p : Path} :
    p.lead = none ↔
      p.bytes.head? ≠ some separator ∧ p.bytes.takeWhile (· != separator) ≠ dot := by
  rw [lead_eq]
  split
  · next h => simp [h]
  · next h => split <;> simp_all

theorem lead_cases (p : Path) :
    p.lead = some .root ∨ p.lead = some .here ∨ p.lead = none := by
  rw [lead_eq]
  split
  · exact .inl rfl
  · split
    · exact .inr (.inl rfl)
    · exact .inr (.inr rfl)

/-- The first segment is settled by a separator. -/
theorem lead_append {p : Path} {x : Bytes} (hp : p.bytes ≠ [])
    (h : separator ∈ p.bytes ∨ x = [] ∨ x.head? = some separator) :
    lead ⟨p.bytes ++ x⟩ = p.lead := by
  have hhead : (p.bytes ++ x).head? = p.bytes.head? := by
    rw [List.head?_append, Option.or_of_isSome]
    simpa using hp
  have hfirst : (p.bytes ++ x).takeWhile (· != separator) = p.bytes.takeWhile (· != separator) := by
    rw [List.takeWhile_append]
    split
    · next hlen =>
      have hall : p.bytes.takeWhile (· != separator) = p.bytes :=
        (List.takeWhile_prefix _).eq_of_length hlen
      have hno : separator ∉ p.bytes := by
        intro hm
        rw [← hall] at hm
        simpa using List.all_eq_true.mp List.all_takeWhile _ hm
      rcases h with h | rfl | h
      · exact absurd h hno
      · simp [hall]
      · obtain ⟨x', rfl⟩ := List.head?_eq_some_iff.mp h
        simp [hall]
    · rfl
  rw [lead_eq, lead_eq, hhead, hfirst]

theorem leadBytes_append {p : Path} {x : Bytes} (hp : p.bytes ≠ [])
    (h : lead ⟨p.bytes ++ x⟩ = p.lead) : leadBytes ⟨p.bytes ++ x⟩ = p.leadBytes := by
  have htake : (p.bytes ++ x).take 1 = p.bytes.take 1 := by
    cases hb : p.bytes with
    | nil => exact absurd hb hp
    | cons b bs => simp
  simp only [leadBytes, h, htake]

theorem leadBytes_append_rest (p : Path) : p.leadBytes ++ p.rest = p.bytes := by
  have h : p.leadBytes <+: p.bytes := by
    unfold leadBytes
    split
    · exact List.take_prefix _ _
    · exact List.nil_prefix
  obtain ⟨tail, ht⟩ := h
  rw [rest, ← ht, List.drop_left]

theorem leadBytes_eq (p : Path) :
    p.leadBytes = match p.lead with
      | some .root => [separator]
      | some .here => dot
      | _ => [] := by
  rw [leadBytes, lead_eq]
  by_cases hroot : p.bytes.head? = some separator
  · obtain ⟨x, hx⟩ := List.head?_eq_some_iff.mp hroot
    simp [hx]
  · by_cases hhere : p.bytes.takeWhile (· != separator) = dot
    · have hpre : dot <+: p.bytes := hhere ▸ List.takeWhile_prefix _
      obtain ⟨x, hx⟩ := hpre
      have htake : p.bytes.take 1 = dot := by rw [← hx]; rfl
      simp [hroot, hhere, htake]
    · simp [hroot, hhere]

theorem rest_append {p : Path} {x : Bytes} (hp : p.bytes ≠ [])
    (h : lead ⟨p.bytes ++ x⟩ = p.lead) : rest ⟨p.bytes ++ x⟩ = p.rest ++ x := by
  rw [rest, leadBytes_append hp h]
  change (p.bytes ++ x).drop p.leadBytes.length = _
  rw [← leadBytes_append_rest p, List.append_assoc, List.drop_left]

theorem rest_of_lead_eq_none {p : Path} (h : p.lead = none) : p.rest = p.bytes := by
  simp [rest, leadBytes, h]

/-! ### Joining -/

theorem components_mk_nil : components ⟨[]⟩ = [] := rfl

theorem isAbsolute_of_lead_eq_none {p : Path} (h : p.lead = none) : p.isAbsolute = false := by
  cases ha : p.isAbsolute with
  | false => rfl
  | true => simp [lead, ha] at h

theorem rest_ends {p : Path} (h : p.bytes.getLast? = some separator) :
    p.rest = [] ∨ p.rest.getLast? = some separator := by
  by_cases hr : p.rest = []
  · exact .inl hr
  · rw [← leadBytes_append_rest p, List.getLast?_append] at h
    cases hl : p.rest.getLast? with
    | none => exact absurd (List.getLast?_eq_none_iff.mp hl) hr
    | some x => exact .inr (by simpa [hl] using h)

/-- Behind something, a relative path continues with all its pieces that count. -/
theorem components_join_of_nonempty {p q : Path} (hp : p.bytes ≠ []) (hq : q.isAbsolute = false) :
    (p.join q).components = p.components ++ (pieces q.bytes).map componentOf := by
  rw [join, if_neg (by simp [hq])]
  by_cases hend : p.bytes.getLast? = some separator
  · have hlead : lead ⟨p.bytes ++ q.bytes⟩ = p.lead :=
      lead_append hp (.inl (List.mem_of_getLast? hend))
    rw [if_pos (by simp [hend]), components_eq, components_eq p, hlead, rest_append hp hlead,
      pieces_append (rest_ends hend), List.map_append, List.append_assoc]
  · have hlead : lead ⟨p.bytes ++ separator :: q.bytes⟩ = p.lead :=
      lead_append hp (.inr (.inr rfl))
    rw [if_neg (by simp [hp, hend]), components_eq, components_eq p, hlead,
      rest_append hp hlead, pieces_append_separator, List.map_append, List.append_assoc]

/-- A path that has no leading component continues the path that it is joined to. -/
theorem components_join {p q : Path} (hq : q.lead = none) :
    (p.join q).components = p.components ++ q.components := by
  have hcomponents : q.components = (pieces q.bytes).map componentOf := by
    simp [components_eq, hq, rest_of_lead_eq_none hq]
  by_cases hp : p.bytes = []
  · obtain rfl : p = ⟨[]⟩ := by cases p; simp_all
    rw [join, if_neg (by simp [isAbsolute_of_lead_eq_none hq])]
    rfl
  · rw [components_join_of_nonempty hp (isAbsolute_of_lead_eq_none hq), hcomponents]

/-- The leading `.` of a relative path is no piece that counts. -/
theorem pieces_rest_of_not_absolute {p : Path} (h : p.isAbsolute = false) :
    pieces p.rest = pieces p.bytes := by
  rcases lead_cases p with hl | hl | hl
  · simp [isAbsolute, lead_eq_root_iff.mp hl] at h
  · have hbytes : dot ++ p.rest = p.bytes := by
      rw [← leadBytes_append_rest p, leadBytes_eq, hl]
    have hfirst := lead_eq_here_iff.mp hl
    rw [← hbytes]
    cases hrest : p.rest with
    | nil => rfl
    | cons b tail =>
      obtain rfl : b = separator := by
        rw [← hbytes, hrest] at hfirst
        simpa [dot, separator, List.takeWhile_cons] using hfirst
      rw [pieces_append_separator]
      exact pieces_append_separator [] tail
  · rw [rest_of_lead_eq_none hl]

theorem takeWhile_of_isName {b : Bytes} (h : IsName b) : b.takeWhile (· != separator) = b := by
  apply (List.takeWhile_prefix _).eq_of_length
  rw [← List.append_nil b, List.takeWhile_append_of_pos]
  · simp
  · intro x hx
    simp only [bne_iff_ne, ne_eq]
    exact fun he => h.whole (he ▸ hx)

theorem lead_of_isName {b : Bytes} (h : IsName b) : lead ⟨b⟩ = none := by
  refine lead_eq_none_iff.mpr ⟨fun he => h.whole (List.mem_of_head? he), ?_⟩
  rw [takeWhile_of_isName h]
  exact h.ne_dot

/-- The entry of a directory with a given name. -/
theorem components_child (p : Path) {b : Bytes} (h : IsName b) :
    (p.child b).components = p.components ++ [.name b] := by
  rw [child, components_join (lead_of_isName h), components_eq ⟨b⟩, lead_of_isName h,
    rest_of_lead_eq_none (lead_of_isName h), pieces_of_isName h]
  simp [componentOf, h.ne_dotDot]

theorem mem_pieces {b s : Bytes} (h : s ∈ pieces b) : s ≠ [] ∧ s ≠ dot ∧ separator ∉ s := by
  obtain ⟨hs, hsig⟩ := List.mem_filter.mp h
  have hparts := (isSignificant_iff s).mp hsig
  exact ⟨hparts.1, hparts.2, separator_notMem_of_mem_splitOn hs⟩

/-- What is a component of some path by name can be the name of an entry. -/
theorem isName_of_mem_components {p : Path} {b : Bytes} (h : .name b ∈ p.components) :
    IsName b := by
  rw [components_eq, List.mem_append] at h
  rcases h with h | h
  · rcases lead_cases p with hl | hl | hl <;> simp [hl] at h
  · obtain ⟨s, hs, hb⟩ := List.mem_map.mp h
    unfold componentOf at hb
    split at hb
    · cases hb
    · next hne =>
      obtain rfl := Component.name.inj hb
      have hparts := mem_pieces hs
      exact ⟨hparts.1, hparts.2.1, hne, hparts.2.2⟩

/-! ### Parents -/

theorem trimRight_spec (segments : List Bytes) :
    ∃ tail, segments = trimRight segments ++ tail ∧ ∀ s ∈ tail, isSignificant s = false := by
  refine ⟨(segments.reverse.takeWhile fun s => !isSignificant s).reverse, ?_, ?_⟩
  · rw [trimRight, ← List.reverse_append, List.takeWhile_append_dropWhile, List.reverse_reverse]
  · intro s hs
    simpa using List.all_eq_true.mp List.all_takeWhile s (List.mem_reverse.mp hs)

theorem trimRight_prefix_self (segments : List Bytes) : trimRight segments <+: segments := by
  obtain ⟨tail, ht, -⟩ := trimRight_spec segments
  exact ⟨tail, ht.symm⟩

theorem filter_trimRight (segments : List Bytes) :
    (trimRight segments).filter isSignificant = segments.filter isSignificant := by
  obtain ⟨tail, ht, hs⟩ := trimRight_spec segments
  have htail : tail.filter isSignificant = [] := by
    simpa [List.filter_eq_nil_iff] using hs
  conv => rhs; rw [ht, List.filter_append, htail, List.append_nil]

theorem isSignificant_getLast_trimRight {segments front : List Bytes} {last : Bytes}
    (h : trimRight segments = front ++ [last]) : isSignificant last = true := by
  have hhead : (segments.reverse.dropWhile fun s => !isSignificant s).head? = some last := by
    rw [← List.getLast?_reverse, ← trimRight, h, List.getLast?_concat]
  have hnot := List.head?_dropWhile_not (fun s => !isSignificant s) segments.reverse
  simpa [hhead] using hnot

theorem joinSegments_cons_cons (a b : Bytes) (l : List Bytes) :
    joinSegments (a :: b :: l) = a ++ separator :: joinSegments (b :: l) := by
  simp [joinSegments]

theorem joinSegments_singleton (a : Bytes) : joinSegments [a] = a := by
  simp [joinSegments]

theorem takeWhile_joinSegments {a : Bytes} (l : List Bytes) (h : separator ∉ a) :
    (joinSegments (a :: l)).takeWhile (· != separator) = a := by
  have hall : ∀ x ∈ a, (x != separator) = true := by
    intro x hx
    simp only [bne_iff_ne, ne_eq]
    exact fun he => h (he ▸ hx)
  cases l with
  | nil =>
    rw [joinSegments_singleton, ← List.append_nil a, List.takeWhile_append_of_pos hall]
    simp
  | cons b l =>
    rw [joinSegments_cons_cons, List.takeWhile_append_of_pos hall]
    simp

theorem head?_joinSegments_nil (l : List Bytes) :
    joinSegments ([] :: l) = [] ∨ (joinSegments ([] :: l)).head? = some separator := by
  cases l with
  | nil => exact .inl rfl
  | cons b l =>
    right
    rw [joinSegments_cons_cons]
    rfl

theorem head?_segments (p : Path) :
    p.segments.head? = some (p.rest.takeWhile (· != separator)) := head?_splitOn _

theorem head?_ne_of_segments {p : Path} {l : List Bytes}
    (h : p.rest.takeWhile (· != separator) :: l <+: p.segments)
    (hp : p.rest.head? ≠ some separator) :
    (joinSegments (p.rest.takeWhile (· != separator) :: l)).head? ≠ some separator := by
  intro hhead
  have hwhole : separator ∉ p.rest.takeWhile (· != separator) :=
    separator_notMem_of_mem_splitOn (h.subset (by simp))
  have hnil : p.rest.takeWhile (· != separator) = [] := by
    rw [← takeWhile_joinSegments l hwhole]
    obtain ⟨x, hx⟩ := List.head?_eq_some_iff.mp hhead
    simp [hx]
  cases hr : p.rest with
  | nil =>
    have hone : p.segments.length = 1 := by
      change (p.rest.splitOn separator).length = 1
      simp [hr]
    have hlen := h.length_le
    rw [hone, List.length_cons] at hlen
    obtain rfl : l = [] := List.eq_nil_of_length_eq_zero (by omega)
    simp [joinSegments_singleton, hnil] at hhead
  | cons b bs =>
    rw [hr] at hnil hp
    have hb : b ≠ separator := by simpa using hp
    simp [hb] at hnil

/-- Leading segments joined again lead as before. -/
theorem lead_joinSegments {p : Path} {l : List Bytes} (h : l <+: p.segments) :
    lead ⟨p.leadBytes ++ joinSegments l⟩ = p.lead := by
  have hfirst : ∀ a l', l = a :: l' → a = p.rest.takeWhile (· != separator) := by
    rintro a l' rfl
    obtain ⟨tail, ht⟩ := h
    have hhead := head?_segments p
    rw [← ht] at hhead
    simpa using hhead
  have hbytes := leadBytes_append_rest p
  rw [leadBytes_eq] at hbytes ⊢
  rcases lead_cases p with hlead | hlead | hlead <;> simp only [hlead] at hbytes ⊢
  · exact lead_eq_root_iff.mpr rfl
  · have hnil : p.rest.takeWhile (· != separator) = [] := by
      have hdot := lead_eq_here_iff.mp hlead
      rw [← hbytes] at hdot
      simpa [dot, separator] using hdot
    have hdotlead : lead ⟨dot ++ joinSegments l⟩ = lead ⟨dot⟩ := by
      apply lead_append (p := ⟨dot⟩) (by simp [dot])
      cases l with
      | nil => exact .inr (.inl rfl)
      | cons a l =>
        obtain rfl := hfirst a l rfl
        rw [hnil]
        exact .inr (head?_joinSegments_nil l)
    rw [hdotlead]
    rfl
  · rw [List.nil_append] at hbytes ⊢
    have hparts := lead_eq_none_iff.mp hlead
    rw [← hbytes] at hparts
    cases l with
    | nil => rfl
    | cons a l =>
      obtain rfl := hfirst a l rfl
      have hwhole : separator ∉ p.rest.takeWhile (· != separator) :=
        separator_notMem_of_mem_splitOn (h.subset (by simp))
      apply lead_eq_none_iff.mpr
      refine ⟨head?_ne_of_segments h hparts.1, ?_⟩
      change List.takeWhile _ (joinSegments _) ≠ dot
      rw [takeWhile_joinSegments l hwhole]
      exact hparts.2

theorem pieces_joinSegments {segments l : List Bytes} {b : Bytes}
    (hs : segments = b.splitOn separator) (h : l <+: segments) :
    pieces (joinSegments l) = l.filter isSignificant :=
  pieces_flatten_intersperse fun s hm =>
    separator_notMem_of_mem_splitOn (hs ▸ h.subset hm : s ∈ b.splitOn separator)

/-- Leading segments joined again have the components that the segments stand for. -/
theorem components_joinSegments {p : Path} {l : List Bytes} (h : l <+: p.segments) :
    components ⟨p.leadBytes ++ joinSegments l⟩ =
      p.lead.toList ++ (l.filter isSignificant).map componentOf := by
  have hlead := lead_joinSegments h
  have hrest : rest ⟨p.leadBytes ++ joinSegments l⟩ = joinSegments l := by
    have hsame : leadBytes ⟨p.leadBytes ++ joinSegments l⟩ = p.leadBytes := by
      rw [leadBytes_eq, hlead, ← leadBytes_eq]
    rw [rest, hsame]
    exact List.drop_left
  rw [components_eq, hlead, hrest, pieces_joinSegments rfl h]

theorem componentOf_ne_root (s : Bytes) : componentOf s ≠ .root := by
  unfold componentOf
  split <;> simp

theorem components_of_trimRight_eq_nil {p : Path} (h : trimRight p.segments = []) :
    p.components = p.lead.toList := by
  have hnone : p.segments.filter isSignificant = [] := by
    rw [← filter_trimRight, h, List.filter_nil]
  change p.lead.toList ++ (p.segments.filter isSignificant).map componentOf = _
  rw [hnone, List.map_nil, List.append_nil]

theorem components_of_trimRight_eq_concat {p : Path} {front : List Bytes} {last : Bytes}
    (h : trimRight p.segments = front ++ [last]) :
    p.components =
      p.lead.toList ++ (front.filter isSignificant).map componentOf ++ [componentOf last] := by
  have hlast := isSignificant_getLast_trimRight h
  change p.lead.toList ++ (p.segments.filter isSignificant).map componentOf = _
  rw [← filter_trimRight, h, List.filter_append]
  simp [hlast]

/-- A path has no parent when there is nothing above it. -/
theorem components_of_parent_eq_none {p : Path} (h : p.parent = none) :
    p.components = [] ∨ p.components = [.root] := by
  unfold parent at h
  split at h
  · next htrim =>
    rw [components_of_trimRight_eq_nil htrim]
    rcases lead_cases p with hl | hl | hl <;> simp_all
  · cases h

/-- The parent has all components but the last. -/
theorem components_of_parent_eq_some {p q : Path} (h : p.parent = some q) :
    ∃ c, c ≠ .root ∧ p.components = q.components ++ [c] := by
  unfold parent at h
  split at h
  · next htrim =>
    split at h
    · next hl =>
      obtain rfl := Option.some.inj h
      refine ⟨.here, by simp, ?_⟩
      rw [components_of_trimRight_eq_nil htrim, hl]
      rfl
    · cases h
  · next hne =>
    obtain ⟨front, last, hfront⟩ : ∃ front last, trimRight p.segments = front ++ [last] :=
      ⟨_, _, (List.dropLast_concat_getLast hne).symm⟩
    refine ⟨componentOf last, componentOf_ne_root last, ?_⟩
    obtain rfl := Option.some.inj h
    have hpre : trimRight front <+: p.segments :=
      (trimRight_prefix_self front).trans
        ((List.prefix_append front [last]).trans (hfront ▸ trimRight_prefix_self p.segments))
    rw [hfront, List.dropLast_concat, components_joinSegments hpre, filter_trimRight,
      components_of_trimRight_eq_concat hfront]

theorem parent_of_components {p : Path} {base : List Component} {c : Component}
    (h : p.components = base ++ [c]) (hc : c ≠ .root) :
    ∃ q, p.parent = some q ∧ q.components = base := by
  cases hq : p.parent with
  | none =>
    rcases components_of_parent_eq_none hq with hp | hp <;> rw [hp] at h
    · simp at h
    · have hlast := congrArg List.getLast? h
      rw [List.getLast?_concat] at hlast
      exact absurd (Option.some.inj hlast).symm hc
  | some q =>
    obtain ⟨d, -, hd⟩ := components_of_parent_eq_some hq
    rw [hd] at h
    exact ⟨q, rfl, List.append_inj_left' h rfl⟩

/-! ### Names -/

theorem fileName_eq_some {p : Path} {base : List Component} {b : Bytes}
    (h : p.components = base ++ [.name b]) : p.fileName = some b := by
  rw [fileName, h, List.getLast?_concat]

theorem components_of_fileName {p : Path} {b : Bytes} (h : p.fileName = some b) :
    ∃ base, p.components = base ++ [.name b] := by
  unfold fileName at h
  split at h
  · next b' hlast =>
    obtain rfl := Option.some.inj h
    exact List.getLast?_eq_some_iff.mp hlast
  · cases h

/-- A path with a parent and a name is its parent's entry of that name. -/
theorem components_of_parent_of_fileName {p q : Path} {b : Bytes} (hparent : p.parent = some q)
    (hname : p.fileName = some b) : IsName b ∧ p.components = q.components ++ [.name b] := by
  obtain ⟨base, hbase⟩ := components_of_fileName hname
  obtain ⟨c, -, hc⟩ := components_of_parent_eq_some hparent
  obtain ⟨-, hlast⟩ := List.append_inj' (hbase.symm.trans hc) rfl
  obtain rfl : .name b = c := by simpa using hlast
  have hmem : .name b ∈ p.components := by simp [hc]
  exact ⟨isName_of_mem_components hmem, hc⟩

end Path

end TreeOps
