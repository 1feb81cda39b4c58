import TreeOps.Proofs.Pattern.Accepted
import TreeOps.Proofs.Pattern.Runs
import TreeOps.Proofs.Walk.Filters

/-!
# When a pattern means what is written

As it is written, a pattern speaks of characters: a star stands for any run of them, a question mark
for one, and every other character for itself, up to the case of ASCII letters. What is matched are
bytes, and two stars and a separator at the beginning are passed over. So a name that is not ASCII
can make a difference where a question mark stands alone or with another one, and a pattern with a
separator may let names through that have none. Here it is told of which patterns this is true.
-/

namespace TreeOps.Pattern

open Utf8 (bytesOf)

/-- A run of wildcards in which it does not matter how many bytes a character has: without a
question mark, or with a single one and a star. -/
def Tame (run : List Char) : Prop :=
  run.count '?' = 0 ∨ run.count '?' = 1 ∧ '*' ∈ run

instance (run : List Char) : Decidable (Tame run) := inferInstanceAs (Decidable (_ ∨ _))

/-- A pattern with a separator in it that matches no name without separators as it should: behind
two stars and a separator, as often as it begins with them, there is another separator, or only a
name that no entry has. -/
def NeedsTree (pattern : List Char) : Prop :=
  '/' ∈ behindTrees pattern ∨ behindTrees pattern = ['.'] ∨ behindTrees pattern = ['.', '.']

instance (pattern : List Char) : Decidable (NeedsTree pattern) :=
  inferInstanceAs (Decidable (_ ∨ _))

/-- A pattern that means what is written, for every name. -/
def AsWritten (pattern : List Char) : Prop :=
  if '/' ∈ pattern then NeedsTree pattern else ∀ run ∈ runs pattern, Tame run

instance (pattern : List Char) : Decidable (AsWritten pattern) :=
  inferInstanceAs (Decidable (if '/' ∈ pattern then NeedsTree pattern else
    ∀ run ∈ runs pattern, Tame run))

/-! ### Runs in which bytes do not matter -/

theorem fits_bytesOf_of_tame {run : List Char} (h : Tame run) (l : List Char) :
    Fits run (bytesOf l).length ↔ Fits run l.length := by
  have hnil : (bytesOf l).length = 0 ↔ l.length = 0 := by
    rw [List.length_eq_zero_iff, List.length_eq_zero_iff, Utf8.bytesOf_eq_nil_iff]
  have hfits (n : Nat) :
      Fits run n ↔ if '*' ∈ run then run.count '?' ≤ n else n = run.count '?' := by
    split
    · next hstar => exact ⟨fun h => h.enough, fun h => ⟨h, fun hnot => absurd hstar hnot⟩⟩
    · next hstar => exact ⟨fun h => h.exact hstar, fun h => ⟨Nat.le_of_eq h.symm, fun _ => h⟩⟩
  rw [hfits, hfits]
  rcases h with hzero | ⟨hone, hstar⟩
  · rw [hzero]
    split
    · exact iff_of_true (Nat.zero_le _) (Nat.zero_le _)
    · exact hnil
  · rw [if_pos hstar, if_pos hstar, hone]
    omega

/-- What is left are a question mark that stands alone and runs with more of them. -/
theorem eq_mark_of_not_tame {run : List Char} (hrun : Wild run) (htame : ¬Tame run)
    (htwo : ¬2 ≤ run.count '?') : run = ['?'] := by
  rw [Tame, not_or] at htame
  have hone : run.count '?' = 1 := by omega
  have hstar : '*' ∉ run := fun h => htame.2 ⟨hone, h⟩
  have hmarks : ∀ c ∈ run, c = '?' := fun c hc =>
    (hrun.cases hc).resolve_left fun h => hstar (h ▸ hc)
  rw [List.eq_replicate_of_mem hmarks, List.count_replicate_self] at hone
  rw [List.eq_replicate_of_mem hmarks, hone]
  rfl

/-! ### Names that a pattern is made for -/

/-- The pattern with each star and each question mark replaced. -/
def instantiate (star : List Char) (mark : Char) (pattern : List Char) : List Char :=
  pattern.flatMap fun c => if c = '*' then star else if c = '?' then [mark] else [c]

section Instantiate

variable {star : List Char} {mark : Char}

theorem instantiate_cons (c : Char) (pattern : List Char) :
    instantiate star mark (c :: pattern) =
      (if c = '*' then star else if c = '?' then [mark] else [c]) ++
        instantiate star mark pattern := rfl

theorem characters_matches_instantiate (pattern : List Char) :
    Reading.characters.Matches pattern (instantiate star mark pattern) := by
  induction pattern with
  | nil => exact .nil
  | cons c pattern ih =>
    rw [instantiate_cons]
    refine .cons ?_ ih
    split
    · next hc =>
      subst hc
      exact .run (r := .characters) fun _ _ => trivial
    · next hstar =>
      split
      · next hc =>
        subst hc
        exact .any (r := .characters) trivial
      · next hmark => exact .itself (r := .characters) hstar hmark rfl

theorem notMem_instantiate {pattern : List Char} (hpattern : '/' ∉ pattern) (hstar : '/' ∉ star)
    (hmark : '/' ≠ mark) : '/' ∉ instantiate star mark pattern := by
  intro hmem
  obtain ⟨c, hc, hslash⟩ := List.mem_flatMap.mp hmem
  split at hslash
  · exact hstar hslash
  · split at hslash
    · exact hmark (List.mem_singleton.mp hslash)
    · exact hpattern (List.mem_singleton.mp hslash ▸ hc)

/-- With a question mark replaced by one byte the bytes match as well. -/
theorem bytes_matches_instantiate {pattern : List Char} (hpattern : '/' ∉ pattern)
    (hstar : '/' ∉ star) (hmark : '/' ≠ mark) (hascii : mark.toNat < 0x80) :
    Reading.bytes.Matches (bytesOf pattern) (bytesOf (instantiate star mark pattern)) := by
  induction pattern with
  | nil => exact .nil
  | cons c pattern ih =>
    rw [List.mem_cons, not_or] at hpattern
    rw [instantiate_cons, Utf8.bytesOf_append, Utf8.bytesOf_cons]
    refine Spells.append ?_ (ih hpattern.2)
    split
    · next hc =>
      subst hc
      rw [← Utf8.bytesOf_singleton]
      have hwild : Wild ['*'] := by simp [Wild, isWild]
      refine (bytes_matches_run hwild _).mpr ?_
      exact ⟨mt Utf8.separator_mem_bytesOf.mp hstar, Nat.zero_le _, fun h => absurd (by simp) h⟩
    · next hs =>
      split
      · next hc =>
        subst hc
        rw [← Utf8.bytesOf_singleton]
        have hwild : Wild ['?'] := by simp [Wild, isWild]
        refine (bytes_matches_run hwild _).mpr ?_
        rw [Utf8.separator_mem_bytesOf, List.mem_singleton, Utf8.bytesOf_singleton,
          Utf8.encodeChar_ascii hascii]
        exact ⟨hmark, Nat.le_refl 1, fun _ => rfl⟩
      · next hm =>
        have hwild : isWild c = false := by simp [isWild, hs, hm]
        rw [Utf8.bytesOf_singleton]
        exact (bytes_matches_encodeChar hwild _).mpr (Utf8.map_toAsciiLower_encodeChar c)

/-- A pattern without wildcards stays as it is. -/
theorem instantiate_of_notMem {c : Char} {pattern : List Char}
    (h : c ∉ instantiate [c] c pattern) : instantiate [c] c pattern = pattern := by
  induction pattern with
  | nil => rfl
  | cons d pattern ih =>
    rw [instantiate_cons, List.mem_append, not_or] at h
    rw [instantiate_cons, ih h.2]
    by_cases hs : d = '*'
    · simp [hs] at h
    · by_cases hm : d = '?'
      · simp [hm] at h
      · simp [hs, hm]

/-- Without the stars. -/
theorem length_instantiate_nil (pattern : List Char) :
    (instantiate [] mark pattern).length = pattern.countP (· != '*') := by
  induction pattern with
  | nil => rfl
  | cons c pattern ih =>
    rw [instantiate_cons, List.length_append, ih, List.countP_cons]
    by_cases hs : c = '*'
    · simp [hs]
    · by_cases hm : c = '?' <;> simp [hs, hm, Nat.add_comm]

end Instantiate

/-- Every character but a star matches one. -/
theorem countP_le_of_characters_matches {pattern l : List Char}
    (h : Reading.characters.Matches pattern l) : pattern.countP (· != '*') ≤ l.length := by
  induction h with
  | nil => exact Nat.le_refl 0
  | @cons c pattern piece rest hstands _ ih =>
    have hone : (if c != '*' then 1 else 0) ≤ piece.length := by
      cases hstands with
      | run _ => exact Nat.zero_le _
      | any _ => exact Nat.le_refl 1
      | itself _ _ _ => split <;> simp
    rw [List.countP_cons, List.length_append, Nat.add_comm]
    exact Nat.add_le_add hone ih

/-- A separator in a pattern matches a separator. -/
theorem slash_mem_of_characters_matches {pattern l : List Char}
    (h : Reading.characters.Matches pattern l) (hslash : '/' ∈ pattern) : '/' ∈ l := by
  obtain ⟨before, after, rfl⟩ := List.append_of_mem hslash
  obtain ⟨first, _, rfl, -, hrest⟩ := Spells.append_iff.mp h
  obtain ⟨piece, rest, rfl, hpiece, -⟩ := Spells.cons_iff.mp hrest
  obtain ⟨d, rfl, hlike⟩ := (Reading.stands_itself (by decide) (by decide) piece).mp hpiece
  obtain rfl : d = '/' := Utf8.eq_of_toLower_eq hlike (by decide) (by decide)
  simp

/-! ### Names that tell bytes from characters -/

/-- Two question marks in a run match one character of two bytes. -/
theorem exists_bytes_match {pattern run : List Char} (hpattern : '/' ∉ pattern)
    (hrun : run ∈ runs pattern) (htwo : 2 ≤ run.count '?') :
    ∃ l, '/' ∉ l ∧ 'é' ∈ l ∧ Reading.bytes.Matches (bytesOf pattern) (bytesOf l) ∧
      ¬Reading.characters.Matches pattern l := by
  obtain ⟨hwild, before, after, rfl⟩ := exists_of_mem_runs hrun
  obtain ⟨hbefore, hafter⟩ : '/' ∉ before ∧ '/' ∉ after := by simp_all
  let middle := 'é' :: List.replicate (run.count '?' - 2) 'a'
  let l := instantiate [] 'a' before ++ middle ++ instantiate [] 'a' after
  have hmiddle : '/' ∉ middle := by simp [middle]
  have hlength : (bytesOf middle).length = run.count '?' := by
    have hletters : ∀ c ∈ List.replicate (run.count '?' - 2) 'a', c.toNat < 0x80 := by
      intro c hc
      rw [List.eq_of_mem_replicate hc]
      decide
    have htwoBytes : 'é'.utf8Size = 2 := by decide
    rw [Utf8.length_bytesOf_cons, Utf8.bytesOf_ascii hletters, List.length_map,
      List.length_replicate, htwoBytes, Nat.add_sub_cancel' htwo]
  have hfits : Reading.bytes.Matches (bytesOf run) (bytesOf middle) :=
    (bytes_matches_run hwild _).mpr
      ⟨mt Utf8.separator_mem_bytesOf.mp hmiddle, Nat.le_of_eq hlength.symm, fun _ => hlength⟩
  have hbytes {p : List Char} (hp : '/' ∉ p) :
      Reading.bytes.Matches (bytesOf p) (bytesOf (instantiate [] 'a' p)) :=
    bytes_matches_instantiate hp (by simp) (by decide) (by decide)
  refine ⟨l, ?_, by simp [l, middle], ?_, fun hmatch => ?_⟩
  · have hmem {p : List Char} (hp : '/' ∉ p) : '/' ∉ instantiate [] 'a' p :=
      notMem_instantiate hp (by simp) (by decide)
    simp only [l, List.mem_append, not_or]
    exact ⟨⟨hmem hbefore, hmiddle⟩, hmem hafter⟩
  · simp only [l, Utf8.bytesOf_append]
    exact Spells.append (Spells.append (hbytes hbefore) hfits) (hbytes hafter)
  · have hcount := countP_le_of_characters_matches hmatch
    have hmarks : run.countP (· != '*') = run.count '?' := by
      refine List.countP_congr fun c hc => ?_
      rcases hwild.cases hc with rfl | rfl <;> decide
    simp only [l, List.length_append, List.countP_append, length_instantiate_nil, hmarks, middle,
      List.length_cons, List.length_replicate] at hcount
    omega

theorem count_le_of_run_matches {run l : List Char} (hrun : Wild run)
    (h : Reading.bytes.Matches (bytesOf run) (bytesOf l)) :
    [run].count ['?'] + run.countP (fun c => !isWild c && c != 'é') ≤ l.countP (· != 'é') := by
  have hnone : run.countP (fun c => !isWild c && c != 'é') = 0 :=
    List.countP_eq_zero.mpr fun c hc => by simp [hrun c hc]
  rw [hnone, Nat.add_zero]
  by_cases hone : run = ['?']
  · subst hone
    have hfits := ((bytes_matches_run hrun _).mp h).2
    obtain ⟨c, rfl, hascii⟩ := Utf8.exists_of_length_bytesOf (hfits.exact (by decide))
    have hne : c ≠ 'é' := by
      rintro rfl
      exact absurd hascii (by decide)
    simp [hne]
  · simp [hone]

/-- A question mark that stands alone matches a byte that is a character. So in a text that the
bytes of a pattern match there are other characters than one of two bytes for every such question
mark and for every other character of the pattern that is not that one. -/
theorem count_le_of_bytes_matches {pattern l : List Char}
    (h : Reading.bytes.Matches (bytesOf pattern) (bytesOf l)) :
    (runs pattern).count ['?'] + pattern.countP (fun c => !isWild c && c != 'é') ≤
      l.countP (· != 'é') := by
  induction pattern using run_induction generalizing l with
  | last run hrun =>
    rw [runs_of_wild hrun]
    exact count_le_of_run_matches hrun h
  | cons run c rest hrun hc ih =>
    obtain ⟨l₁, d, l₂, rfl, hfirst, hlike, hrest⟩ := (bytes_matches_cons hc rest l).mp h
    have hrunCount := count_le_of_run_matches hrun hfirst
    have hrestCount := ih hrest
    have hchar : (if c != 'é' then 1 else 0) ≤ if d != 'é' then 1 else 0 := by
      by_cases hd : d = 'é'
      · subst hd
        obtain rfl := Utf8.eq_of_toLower_eq hlike.symm (by decide) (by decide)
        exact Nat.le_refl _
      · rw [if_pos (bne_iff_ne.mpr hd)]
        split <;> omega
    simp only [runs_append_cons hrun hc, List.count_cons, List.count_nil, List.countP_append,
      List.countP_cons, hc, Bool.not_false, Bool.true_and] at hrunCount ⊢
    omega

/-- With a question mark that stands alone, a character of two bytes is missed. -/
theorem exists_characters_match {pattern : List Char} (hpattern : '/' ∉ pattern)
    (hrun : ['?'] ∈ runs pattern) :
    ∃ l, '/' ∉ l ∧ 'é' ∈ l ∧ Reading.characters.Matches pattern l ∧
      ¬Reading.bytes.Matches (bytesOf pattern) (bytesOf l) := by
  have hcount : (instantiate [] 'é' pattern).countP (· != 'é') =
      pattern.countP fun c => !isWild c && c != 'é' := by
    clear hpattern hrun
    induction pattern with
    | nil => rfl
    | cons c pattern ih =>
      rw [instantiate_cons, List.countP_append, ih, List.countP_cons, Nat.add_comm]
      congr 1
      by_cases hs : c = '*'
      · simp [hs, isWild]
      · by_cases hm : c = '?' <;> simp [hs, hm, isWild, List.countP_cons]
  have hmem : 'é' ∈ instantiate [] 'é' pattern := by
    obtain ⟨-, before, after, rfl⟩ := exists_of_mem_runs hrun
    simp [instantiate]
  refine ⟨_, notMem_instantiate hpattern (by simp) (by decide), hmem,
    characters_matches_instantiate pattern, fun hmatch => ?_⟩
  have hle := count_le_of_bytes_matches hmatch
  have hpos := List.count_pos_iff.mpr hrun
  omega

/-! ### Names of entries -/

/-- What a walk can report as the name of an entry, if it has no separator. -/
structure Nameable (name : List Char) : Prop where
  whole : '/' ∉ name
  ne_dot : name ≠ ['.']
  ne_dotDot : name ≠ ['.', '.']

theorem Nameable.of_mem {name : List Char} (hwhole : '/' ∉ name) (h : 'é' ∈ name) :
    Nameable name := by
  refine ⟨hwhole, ?_, ?_⟩ <;> rintro rfl <;> exact absurd h (by decide)

theorem behindTrees_of_notMem {pattern : List Char} (h : '/' ∉ pattern) :
    behindTrees pattern = pattern := by
  unfold behindTrees
  split
  · exact absurd h (by simp)
  · rfl

/-- Dots match themselves only. -/
theorem eq_of_characters_matches_dots {dots name : List Char} (hdots : ∀ c ∈ dots, c = '.')
    (h : Reading.characters.Matches dots name) : name = dots := by
  induction dots generalizing name with
  | nil => exact Spells.nil_iff.mp h
  | cons c dots ih =>
    obtain ⟨rfl, hrest⟩ := List.forall_mem_cons.mp hdots
    obtain ⟨_, rest, rfl, hpiece, hmatch⟩ := Spells.cons_iff.mp h
    obtain ⟨d, rfl, hlike⟩ := (Reading.stands_itself (by decide) (by decide) _).mp hpiece
    obtain rfl : d = '.' := Utf8.eq_of_toLower_eq hlike (by decide) (by decide)
    rw [ih hrest hmatch]
    rfl

/-- For runs that are tame it does not matter that bytes are matched. -/
theorem bytes_matches_iff_of_tame {pattern name : List Char}
    (h : ∀ run ∈ runs pattern, Tame run) (hname : '/' ∉ name) :
    Reading.bytes.Matches (bytesOf pattern) (bytesOf name) ↔
      Reading.characters.Matches pattern name :=
  bytes_matches_iff_characters ('/' ∉ ·) (by simp_all) (fun _ h => h)
    (fun run hrun l _ => fits_bytesOf_of_tame (h run hrun) l) hname

/-- For a name in ASCII it does not matter either. -/
theorem bytes_matches_iff_of_ascii {pattern name : List Char} (hname : '/' ∉ name)
    (hascii : ∀ c ∈ name, c.toNat < 0x80) :
    Reading.bytes.Matches (bytesOf pattern) (bytesOf name) ↔
      Reading.characters.Matches pattern name := by
  refine bytes_matches_iff_characters (fun l => '/' ∉ l ∧ ∀ c ∈ l, c.toNat < 0x80)
    (fun l₁ d l₂ h => ?_) (fun _ h => h.1) (fun run _ l h => ?_) ⟨hname, hascii⟩
  · simp only [List.mem_append, List.mem_cons, not_or] at h
    exact ⟨⟨h.1.1, fun c hc => h.2 c (.inl hc)⟩, h.1.2.2, fun c hc => h.2 c (.inr (.inr hc))⟩
  · rw [Utf8.bytesOf_ascii h.2, List.length_map]

/-- What a pattern makes of a name without separators, in bytes. -/
def Takes (pattern name : List Char) : Prop :=
  '/' ∉ behindTrees pattern ∧
    Reading.bytes.Matches (bytesOf (orStar (behindTrees pattern))) (bytesOf name)

theorem not_takes_of_needsTree {pattern name : List Char} (h : NeedsTree pattern)
    (hname : Nameable name) : ¬Takes pattern name := by
  rintro ⟨hslash, hmatch⟩
  rcases h with hmem | hdot | hdots
  · exact hslash hmem
  · rw [hdot, orStar, if_neg (by decide), bytes_matches_iff_of_tame (by decide) hname.whole]
      at hmatch
    exact hname.ne_dot (eq_of_characters_matches_dots (by simp) hmatch)
  · rw [hdots, orStar, if_neg (by decide), bytes_matches_iff_of_tame (by decide) hname.whole]
      at hmatch
    exact hname.ne_dotDot (eq_of_characters_matches_dots (by simp) hmatch)

/-- A pattern with a separator either needs one, or takes a name that it should not. Without a
separator, only the bytes of a character can make a difference. -/
theorem takes_iff_of_bytes {pattern name : List Char} (hne : pattern ≠ [])
    (hslash : '/' ∈ pattern → NeedsTree pattern) (hname : Nameable name)
    (hbytes : Reading.bytes.Matches (bytesOf pattern) (bytesOf name) ↔
      Reading.characters.Matches pattern name) :
    Takes pattern name ↔ Reading.characters.Matches pattern name := by
  by_cases hmem : '/' ∈ pattern
  · exact iff_of_false (not_takes_of_needsTree (hslash hmem) hname)
      fun h => hname.whole (slash_mem_of_characters_matches h hmem)
  · rw [Takes, behindTrees_of_notMem hmem, orStar, if_neg hne, hbytes]
    exact and_iff_right hmem

theorem takes_iff_of_asWritten {pattern name : List Char} (hne : pattern ≠ [])
    (h : AsWritten pattern) (hname : Nameable name) :
    Takes pattern name ↔ Reading.characters.Matches pattern name := by
  unfold AsWritten at h
  split at h
  · next hmem =>
    exact iff_of_false (not_takes_of_needsTree h hname)
      fun hmatch => hname.whole (slash_mem_of_characters_matches hmatch hmem)
  · next hmem =>
    exact takes_iff_of_bytes hne (fun hslash => absurd hslash hmem) hname
      (bytes_matches_iff_of_tame h hname.whole)

theorem instantiate_orStar_ne {pattern dots : List Char} (hdots : 'a' ∉ dots)
    (hne : pattern ≠ dots) : instantiate ['a'] 'a' (orStar pattern) ≠ dots := by
  rintro rfl
  have hsame := instantiate_of_notMem hdots
  unfold orStar at hdots hne hsame
  split at hsame
  · next hnil =>
    rw [if_pos hnil] at hdots
    exact hdots (by decide)
  · next hcons =>
    rw [if_neg hcons] at hne
    exact hne hsame.symm

/-- A pattern that begins with two stars and a separator takes a name without one. -/
theorem exists_takes {pattern : List Char} (h : ¬NeedsTree pattern) :
    ∃ name, Nameable name ∧ Takes pattern name := by
  rw [NeedsTree, not_or, not_or] at h
  obtain ⟨hslash, hdot, hdots⟩ := h
  have horStar : '/' ∉ orStar (behindTrees pattern) := by
    unfold orStar
    split
    · decide
    · exact hslash
  have hname : Nameable (instantiate ['a'] 'a' (orStar (behindTrees pattern))) :=
    ⟨notMem_instantiate horStar (by decide) (by decide), instantiate_orStar_ne (by decide) hdot,
      instantiate_orStar_ne (by decide) hdots⟩
  exact ⟨_, hname, hslash,
    bytes_matches_instantiate horStar (by decide) (by decide) (by decide)⟩

/-- What makes a pattern differ from what is written. -/
theorem exists_differs {pattern : List Char} (hne : pattern ≠ []) (h : ¬AsWritten pattern) :
    ∃ name, Nameable name ∧ ¬(Takes pattern name ↔ Reading.characters.Matches pattern name) := by
  unfold AsWritten at h
  split at h
  · next hmem =>
    obtain ⟨name, hname, htakes⟩ := exists_takes h
    exact ⟨name, hname, fun hiff =>
      hname.whole (slash_mem_of_characters_matches (hiff.mp htakes) hmem)⟩
  · next hmem =>
    have htakes (name : List Char) :
        Takes pattern name ↔ Reading.bytes.Matches (bytesOf pattern) (bytesOf name) := by
      rw [Takes, behindTrees_of_notMem hmem, orStar, if_neg hne]
      exact and_iff_right hmem
    obtain ⟨run, hrun, htame⟩ : ∃ run ∈ runs pattern, ¬Tame run := by simpa using h
    by_cases htwo : 2 ≤ run.count '?'
    · obtain ⟨name, hwhole, haccent, hbytes, hnot⟩ := exists_bytes_match hmem hrun htwo
      exact ⟨name, .of_mem hwhole haccent, fun hiff => hnot (hiff.mp ((htakes name).mpr hbytes))⟩
    · have hlone : run = ['?'] := eq_mark_of_not_tame (exists_of_mem_runs hrun).1 htame htwo
      obtain ⟨name, hwhole, haccent, hmatch, hnot⟩ := exists_characters_match hmem (hlone ▸ hrun)
      exact ⟨name, .of_mem hwhole haccent, fun hiff => hnot ((htakes name).mp (hiff.mpr hmatch))⟩

/-! ### Walks -/

/-- Whatever is walked, an entry with this name is let through if and only if the pattern matches
the name as it is written. -/
def Agrees (pattern name : String) : Prop :=
  ∀ (t : Traversal) (dir : Path) (children : List Child), ∀ c ∈ children,
    c.name = Utf8.encode name →
      (c.entryIn dir ∈ (entriesIn dir children).filter (t.yielding pattern true true).yields ↔
        Reading.characters.Matches (orStar pattern.toList) name.toList)

variable {pattern name : String}

/-- What a name that is text is let through by. -/
theorem mem_yielded_iff_takes (hname : Nameable name.toList) (t : Traversal) (dir : Path)
    {children : List Child} {c : Child} (hc : c ∈ children) (htext : c.name = Utf8.encode name) :
    c.entryIn dir ∈ (entriesIn dir children).filter (t.yielding pattern true true).yields ↔
      Takes (orStar pattern.toList) name.toList := by
  have hdots : c.isDots = false := by
    have hdot : c.name ≠ dot := fun h =>
      hname.ne_dot (Utf8.bytesOf_injective ((Utf8.encode_eq name).symm.trans (htext ▸ h)))
    have hdotDot : c.name ≠ dotDot := fun h =>
      hname.ne_dotDot (Utf8.bytesOf_injective ((Utf8.encode_eq name).symm.trans (htext ▸ h)))
    simp [Child.isDots, hdot, hdotDot]
  have hmem : c.entryIn dir ∈ entriesIn dir children :=
    List.mem_map_of_mem (List.mem_filter.mpr ⟨hc, by simp [hdots]⟩)
  have hyields : (t.yielding pattern true true).yields (c.entryIn dir) = accepts pattern name := by
    simp [Traversal.yields, Child.entryIn, htext, Utf8.lossy_encode]
  rw [List.mem_filter, and_iff_right hmem, hyields]
  exact accepts_iff_behindTrees pattern hname.whole

theorem agrees_iff (hname : Nameable name.toList) :
    Agrees pattern name ↔
      (Takes (orStar pattern.toList) name.toList ↔
        Reading.characters.Matches (orStar pattern.toList) name.toList) := by
  constructor
  · intro h
    let c : Child := ⟨Utf8.encode name, .empty, 0, false, false⟩
    have hc : c ∈ [c] := List.mem_singleton_self c
    exact (mem_yielded_iff_takes hname { root := "/" } "/" hc rfl).symm.trans
      (h { root := "/" } "/" [c] c hc rfl)
  · intro h t dir children c hc htext
    exact (mem_yielded_iff_takes hname t dir hc htext).trans h

theorem asWritten_orStar {pattern : List Char} :
    AsWritten (orStar pattern) ↔ AsWritten pattern := by
  unfold orStar
  split
  · next hnil =>
    subst hnil
    decide
  · exact Iff.rfl

theorem needsTree_orStar {pattern : List Char} (h : '/' ∈ pattern → NeedsTree pattern) :
    '/' ∈ orStar pattern → NeedsTree (orStar pattern) := by
  unfold orStar
  split
  · exact fun hmem => absurd hmem (by decide)
  · exact h

/-- For which patterns a walk lets through what the pattern says. If there is a separator in the
pattern, behind two stars and a separator at its beginning there has to be another one, or a name
that no entry has. If there is none, no question mark may be a run of wildcards on its own, and no
two of them may be in one run; names in ASCII do not need that. -/
theorem agrees_iff_asWritten (pattern : String) :
    ((∀ name, Nameable name.toList → Agrees pattern name) ↔ AsWritten pattern.toList) ∧
      (('/' ∈ pattern.toList → NeedsTree pattern.toList) → ∀ name, Nameable name.toList →
        (∀ c ∈ name.toList, c.toNat < 0x80) → Agrees pattern name) := by
  have hne := orStar_ne_nil pattern.toList
  refine ⟨?_, fun hslash name hname hascii => ?_⟩
  · rw [← asWritten_orStar]
    constructor
    · intro h
      by_cases hwritten : AsWritten (orStar pattern.toList)
      · exact hwritten
      · obtain ⟨name, hname, hdiffers⟩ := exists_differs hne hwritten
        rw [← String.toList_ofList (l := name)] at hname hdiffers
        exact absurd ((agrees_iff hname).mp (h _ hname)) hdiffers
    · intro hwritten name hname
      exact (agrees_iff hname).mpr (takes_iff_of_asWritten hne hwritten hname)
  · exact (agrees_iff hname).mpr (takes_iff_of_bytes hne (needsTree_orStar hslash) hname
      (bytes_matches_iff_of_ascii hname.whole hascii))

/-- Brackets are literal for every name, and a lone question mark is one character of ASCII. -/
theorem agrees_brackets :
    (∀ name, Nameable name.toList → Agrees "[x]*" name) ∧ Agrees "?.log" "c.log" := by
  have hall : ("c.log".toList.all fun c => decide (c.toNat < 0x80)) = true := by decide
  have hascii : ∀ c ∈ "c.log".toList, c.toNat < 0x80 := fun c hc =>
    of_decide_eq_true (List.all_eq_true.mp hall c hc)
  exact ⟨(agrees_iff_asWritten "[x]*").1.mpr (by decide),
    (agrees_iff_asWritten "?.log").2 (by decide) "c.log" ⟨by decide, by decide, by decide⟩ hascii⟩

/-- A question mark misses a character of two bytes, and two stars and a separator let a name
through that has no separator. -/
theorem not_agrees_mark_or_trees :
    (Nameable "é".toList ∧ ¬Agrees "?" "é") ∧ Nameable "x".toList ∧ ¬Agrees "**/x" "x" := by
  have haccent : Nameable "é".toList := ⟨by decide, by decide, by decide⟩
  have hx : Nameable "x".toList := ⟨by decide, by decide, by decide⟩
  refine ⟨⟨haccent, fun hagrees => ?_⟩, hx, fun hagrees => ?_⟩
  · have hwild : Wild ['?'] := by simp [Wild, isWild]
    have hmatch : Reading.characters.Matches ['?'] ['é'] :=
      (characters_matches_run hwild _).mpr ⟨Nat.le_refl 1, fun _ => rfl⟩
    have htakes := ((agrees_iff haccent).mp hagrees).mpr hmatch
    have hlength := ((bytes_matches_run hwild _).mp htakes.2).2.exact (by decide)
    exact absurd hlength (by decide)
  · have hmatch : Reading.bytes.Matches (bytesOf ['x']) (bytesOf ['x']) :=
      (bytes_matches_encodeChar (c := 'x') (by decide) _).mpr (by decide)
    have hslash := slash_mem_of_characters_matches
      (((agrees_iff hx).mp hagrees).mp ⟨by decide, hmatch⟩) (by decide)
    exact absurd hslash (by decide)

end TreeOps.Pattern
