import TreeOps.Proofs.Pattern.Meaning
import TreeOps.Proofs.Text.Characters

/-!
# Runs of wildcards

Between its other characters a pattern has runs of wildcards. A run matches what is long enough, or
just as long if it has no star, so all that can make a difference between characters and bytes is
how long a text is in each of them. The other characters match the same in both, since what a
character matches begins and ends between two characters.
-/

namespace TreeOps.Pattern

open Utf8 (bytesOf)

variable {α β : Type}

/-- Whether a character of a pattern is a star or a question mark. -/
def isWild (c : Char) : Bool := c == '*' || c == '?'

/-- The runs of wildcards in a pattern, also the empty ones, between its other characters. -/
def runs (pattern : List Char) : List (List Char) := pattern.splitOnP fun c => !isWild c

/-- A part of a pattern that holds wildcards only. -/
def Wild (run : List Char) : Prop := ∀ c ∈ run, isWild c = true

theorem Wild.cases {run : List Char} (h : Wild run) {c : Char} (hc : c ∈ run) :
    c = '*' ∨ c = '?' := by
  simpa [isWild] using h c hc

theorem Wild.ascii {run : List Char} (h : Wild run) {c : Char} (hc : c ∈ run) : c.toNat < 0x80 := by
  rcases h.cases hc with rfl | rfl <;> decide

theorem runs_of_wild {run : List Char} (h : Wild run) : runs run = [run] :=
  List.splitOnP_eq_singleton fun c hc => by simp [h c hc]

theorem runs_append_cons {run : List Char} (h : Wild run) {c : Char} (hc : isWild c = false)
    (rest : List Char) : runs (run ++ c :: rest) = run :: runs rest :=
  List.splitOnP_append_cons_of_forall_mem (fun d hd => by simp [h d hd]) c (by simp [hc]) rest

/-- A pattern is a run of wildcards, or it has another character behind a first run. -/
theorem run_induction {holds : List Char → Prop} (last : ∀ run, Wild run → holds run)
    (cons : ∀ run c rest, Wild run → isWild c = false → holds rest → holds (run ++ c :: rest))
    (pattern : List Char) : holds pattern := by
  suffices h : ∀ run, Wild run → holds (run ++ pattern) from h [] nofun
  induction pattern with
  | nil =>
    intro run hrun
    rw [List.append_nil]
    exact last run hrun
  | cons c pattern ih =>
    intro run hrun
    by_cases hc : isWild c = true
    · have hlonger : Wild (run ++ [c]) := by
        intro d hd
        rcases List.mem_append.mp hd with hd | hd
        · exact hrun d hd
        · exact List.mem_singleton.mp hd ▸ hc
      have h := ih (run ++ [c]) hlonger
      rwa [List.append_assoc, List.singleton_append] at h
    · exact cons run c pattern hrun (Bool.eq_false_iff.mpr hc) (ih [] nofun)

theorem exists_of_mem_runs {pattern run : List Char} (h : run ∈ runs pattern) :
    Wild run ∧ ∃ before after, pattern = before ++ run ++ after := by
  induction pattern using run_induction with
  | last first hfirst =>
    rw [runs_of_wild hfirst, List.mem_singleton] at h
    subst h
    exact ⟨hfirst, [], [], by simp⟩
  | cons first c rest hfirst hc ih =>
    rw [runs_append_cons hfirst hc, List.mem_cons] at h
    rcases h with rfl | h
    · exact ⟨hfirst, [], c :: rest, by simp⟩
    · obtain ⟨hrun, before, after, rfl⟩ := ih h
      exact ⟨hrun, first ++ c :: before, after, by simp⟩

/-! ### What a run matches -/

/-- How long what a run of wildcards matches can be. -/
structure Fits (run : List Char) (length : Nat) : Prop where
  enough : run.count '?' ≤ length
  exact : '*' ∉ run → length = run.count '?'

theorem fits_nil {n : Nat} : Fits [] n ↔ n = 0 :=
  ⟨fun h => h.exact List.not_mem_nil, fun h => ⟨Nat.zero_le n, fun _ => h⟩⟩

theorem fits_mark_cons {run : List Char} {n : Nat} :
    Fits ('?' :: run) n ↔ ∃ m, n = m + 1 ∧ Fits run m := by
  have hstar : '*' ∉ '?' :: run ↔ '*' ∉ run := by simp
  constructor
  · rintro ⟨henough, hexact⟩
    rw [List.count_cons_self] at henough hexact
    obtain ⟨m, rfl⟩ := Nat.exists_eq_add_of_le' (Nat.le_of_add_left_le henough)
    exact ⟨m, rfl, Nat.le_of_add_le_add_right henough,
      fun h => Nat.succ.inj (hexact (hstar.mpr h))⟩
  · rintro ⟨m, rfl, henough, hexact⟩
    refine ⟨?_, fun h => ?_⟩ <;> rw [List.count_cons_self]
    · exact Nat.succ_le_succ henough
    · rw [hexact (hstar.mp h)]

theorem fits_star_cons {run : List Char} {n : Nat} :
    Fits ('*' :: run) n ↔ ∃ m, m ≤ n ∧ Fits run m := by
  have hmark : ('*' :: run).count '?' = run.count '?' := List.count_cons_of_ne (by decide)
  constructor
  · rintro ⟨henough, -⟩
    exact ⟨run.count '?', hmark ▸ henough, Nat.le_refl _, fun _ => rfl⟩
  · rintro ⟨m, hle, henough, -⟩
    exact ⟨hmark ▸ Nat.le_trans henough hle, fun h => absurd List.mem_cons_self h⟩

/-- A run matches what is free and fits. -/
theorem spells_run {stands : Char → List α → Prop} {free : α → Prop}
    (hstar : ∀ piece, stands '*' piece ↔ ∀ x ∈ piece, free x)
    (hmark : ∀ piece, stands '?' piece ↔ ∃ x, piece = [x] ∧ free x) {run : List Char}
    (hrun : Wild run) (name : List α) :
    Spells stands run name ↔ (∀ x ∈ name, free x) ∧ Fits run name.length := by
  induction run generalizing name with
  | nil =>
    rw [Spells.nil_iff, fits_nil, List.length_eq_zero_iff]
    exact ⟨fun h => ⟨by simp [h], h⟩, fun h => h.2⟩
  | cons c run ih =>
    obtain ⟨hc, hrest⟩ := List.forall_mem_cons.mp hrun
    rw [Spells.cons_iff]
    rcases hrun.cases List.mem_cons_self with rfl | rfl
    · simp only [fits_star_cons, hstar, ih hrest]
      constructor
      · rintro ⟨piece, rest, rfl, hpiece, hfree, hfits⟩
        exact ⟨fun x hx => (List.mem_append.mp hx).elim (hpiece x) (hfree x), rest.length,
          by simp, hfits⟩
      · rintro ⟨hfree, m, hle, hfits⟩
        refine ⟨name.take (name.length - m), name.drop (name.length - m),
          (List.take_append_drop ..).symm, fun x hx => hfree x (List.mem_of_mem_take hx),
          fun x hx => hfree x (List.mem_of_mem_drop hx), ?_⟩
        rwa [List.length_drop, Nat.sub_sub_self hle]
    · simp only [fits_mark_cons, hmark, ih hrest]
      constructor
      · rintro ⟨_, rest, rfl, ⟨x, rfl, hx⟩, hfree, hfits⟩
        exact ⟨by simpa [hx] using hfree, rest.length, by simp, hfits⟩
      · rintro ⟨hfree, m, hm, hfits⟩
        obtain ⟨x, rest, rfl⟩ := List.exists_cons_of_length_eq_add_one hm
        obtain ⟨hx, hrest⟩ := List.forall_mem_cons.mp hfree
        exact ⟨[x], rest, rfl, ⟨x, rfl, hx⟩, hrest, Nat.succ.inj hm ▸ hfits⟩

namespace Reading

variable {r : Reading α}

theorem stands_star (hne : r.star ≠ r.questionMark) (piece : List α) :
    r.Stands r.star piece ↔ ∀ x ∈ piece, r.free x := by
  constructor
  · intro h
    generalize hb : r.star = b at h
    cases h with
    | run hfree => exact hfree
    | any _ => exact absurd hb hne
    | itself hstar _ _ => exact absurd hb.symm hstar
  · exact .run

theorem stands_mark (hne : r.star ≠ r.questionMark) (piece : List α) :
    r.Stands r.questionMark piece ↔ ∃ x, piece = [x] ∧ r.free x := by
  constructor
  · intro h
    generalize hb : r.questionMark = b at h
    cases h with
    | run _ => exact absurd hb.symm hne
    | any hfree => exact ⟨_, rfl, hfree⟩
    | itself _ hmark _ => exact absurd hb.symm hmark
  · rintro ⟨x, rfl, hx⟩
    exact .any hx

theorem stands_itself {p : α} (hstar : p ≠ r.star) (hmark : p ≠ r.questionMark) (piece : List α) :
    r.Stands p piece ↔ ∃ x, piece = [x] ∧ r.like p x := by
  constructor
  · intro h
    cases h with
    | run _ => exact absurd rfl hstar
    | any _ => exact absurd rfl hmark
    | itself _ _ hlike => exact ⟨_, rfl, hlike⟩
  · rintro ⟨x, rfl, hlike⟩
    exact .itself hstar hmark hlike

end Reading

theorem characters_matches_run {run : List Char} (h : Wild run) (l : List Char) :
    Reading.characters.Matches run l ↔ Fits run l.length := by
  have hne : Reading.characters.star ≠ Reading.characters.questionMark := by decide
  refine (spells_run (Reading.stands_star hne) (Reading.stands_mark hne) h l).trans ?_
  exact and_iff_right fun _ _ => trivial

theorem bytes_matches_run {run : List Char} (h : Wild run) (name : Bytes) :
    Reading.bytes.Matches (bytesOf run) name ↔ separator ∉ name ∧ Fits run name.length := by
  have hne : Reading.bytes.star ≠ Reading.bytes.questionMark := by decide
  rw [Utf8.bytesOf_ascii fun c hc => h.ascii hc, Reading.Matches, Spells.map_iff]
  refine (spells_run (Reading.stands_star hne) (Reading.stands_mark hne) h name).trans ?_
  refine and_congr_left fun _ => ⟨fun hfree hsep => hfree _ hsep rfl, fun hsep b hb heq => ?_⟩
  exact hsep (heq ▸ hb)

/-! ### What another character matches -/

theorem ne_of_mem_encodeChar {c : Char} (hc : isWild c = false) {b : UInt8}
    (hb : b ∈ String.utf8EncodeChar c) : b ≠ star ∧ b ≠ questionMark := by
  obtain ⟨hstar, hmark⟩ : c ≠ '*' ∧ c ≠ '?' := by simpa [isWild] using hc
  rw [← Utf8.bytesOf_singleton] at hb
  constructor
  · rintro rfl
    have h := (Utf8.mem_bytesOf_ascii (c := '*') (by decide)).mp hb
    exact hstar (List.mem_singleton.mp h).symm
  · rintro rfl
    have h := (Utf8.mem_bytesOf_ascii (c := '?') (by decide)).mp hb
    exact hmark (List.mem_singleton.mp h).symm

/-- Bytes other than wildcards match bytes that are the same up to the case of ASCII letters. -/
theorem bytes_matches_literal {pattern : Bytes}
    (h : ∀ b ∈ pattern, b ≠ star ∧ b ≠ questionMark) (name : Bytes) :
    Reading.bytes.Matches pattern name ↔
      pattern.map UInt8.toAsciiLower = name.map UInt8.toAsciiLower := by
  induction pattern generalizing name with
  | nil => simp [Spells.nil_iff, eq_comm]
  | cons b pattern ih =>
    obtain ⟨⟨hstar, hmark⟩, hrest⟩ := List.forall_mem_cons.mp h
    have hstands := Reading.stands_itself (r := .bytes) hstar hmark
    simp only [Reading.Matches] at ih
    simp only [Reading.Matches, Spells.cons_iff, hstands, ih hrest]
    constructor
    · rintro ⟨_, rest, rfl, ⟨x, rfl, hlike⟩, hlower⟩
      exact List.cons_eq_cons.mpr ⟨hlike, hlower⟩
    · intro hlower
      obtain ⟨x, rest, rfl, hlike, hlower⟩ := List.map_eq_cons_iff.mp hlower.symm
      exact ⟨[x], rest, rfl, ⟨x, rfl, hlike.symm⟩, hlower.symm⟩

theorem bytes_matches_encodeChar {c : Char} (hc : isWild c = false) (piece : Bytes) :
    Reading.bytes.Matches (String.utf8EncodeChar c) piece ↔
      piece.map UInt8.toAsciiLower = String.utf8EncodeChar c.toLower := by
  rw [bytes_matches_literal (fun b hb => ne_of_mem_encodeChar hc hb),
    Utf8.map_toAsciiLower_encodeChar]
  exact eq_comm

theorem isUTF8FirstByte_of_toAsciiLower {b : UInt8} (h : b.toAsciiLower.IsUTF8FirstByte) :
    b.IsUTF8FirstByte := by
  have hall : ∀ n < 256, (UInt8.ofNat n).toAsciiLower.IsUTF8FirstByte →
      (UInt8.ofNat n).IsUTF8FirstByte := by decide +kernel
  have hb := hall b.toNat (UInt8.toNat_lt_size b)
  rw [UInt8.ofNat_toNat] at hb
  exact hb h

/-- What a character matches begins as a character does. -/
theorem first_of_map_toAsciiLower {c : Char} {piece : Bytes}
    (h : piece.map UInt8.toAsciiLower = String.utf8EncodeChar c) (tail : Bytes) :
    ∀ b ∈ (piece ++ tail).head?, b.IsUTF8FirstByte := by
  intro b hb
  cases piece with
  | nil => exact absurd h.symm String.utf8EncodeChar_ne_nil
  | cons x piece =>
    obtain rfl : x = b := Option.some.inj hb
    have hzero := UInt8.isUTF8FirstByte_getElem_zero_utf8EncodeChar (c := c)
    simp only [← h, List.map_cons, List.getElem_cons_zero] at hzero
    exact isUTF8FirstByte_of_toAsciiLower hzero

/-- Where the bytes of a text match a character, the text has a character like it. -/
theorem exists_like_of_bytesOf {c : Char} {l : List Char} {piece rest : Bytes}
    (hpiece : piece.map UInt8.toAsciiLower = String.utf8EncodeChar c.toLower)
    (hl : bytesOf l = piece ++ rest) :
    ∃ d l', l = d :: l' ∧ c.toLower = d.toLower ∧ rest = bytesOf l' := by
  have hlower := congrArg (List.map UInt8.toAsciiLower) hl
  rw [Utf8.map_toAsciiLower_bytesOf, List.map_append, hpiece] at hlower
  obtain ⟨lowered, hcons, -⟩ := Utf8.eq_cons_of_bytesOf hlower
  obtain ⟨d, l', rfl, hd, -⟩ := List.map_eq_cons_iff.mp hcons
  refine ⟨d, l', rfl, hd.symm, ?_⟩
  have hlength : piece.length = (String.utf8EncodeChar d).length := by
    rw [← List.length_map UInt8.toAsciiLower, hpiece, ← hd, ← Utf8.map_toAsciiLower_encodeChar,
      List.length_map]
  rw [Utf8.bytesOf_cons] at hl
  exact (List.append_inj hl hlength.symm).2.symm

/-- A first run and another character behind it, in bytes. -/
theorem bytes_matches_cons {run : List Char} {c : Char} (hc : isWild c = false)
    (rest l : List Char) :
    Reading.bytes.Matches (bytesOf (run ++ c :: rest)) (bytesOf l) ↔
      ∃ l₁ d l₂, l = l₁ ++ d :: l₂ ∧ Reading.bytes.Matches (bytesOf run) (bytesOf l₁) ∧
        c.toLower = d.toLower ∧ Reading.bytes.Matches (bytesOf rest) (bytesOf l₂) := by
  rw [Utf8.bytesOf_append, Utf8.bytesOf_cons, Reading.Matches, Spells.append_iff]
  simp only [Spells.append_iff]
  constructor
  · rintro ⟨first, _, hl, hrun, piece, tail, rfl, hpiece, hrest⟩
    replace hpiece := (bytes_matches_encodeChar hc piece).mp hpiece
    have hfirst := first_of_map_toAsciiLower hpiece tail
    obtain ⟨l₁, l₂, rfl, rfl, hpt⟩ := Utf8.exists_split_of_bytesOf hl hfirst
    obtain ⟨d, l', rfl, hlike, rfl⟩ := exists_like_of_bytesOf hpiece hpt.symm
    exact ⟨l₁, d, l', rfl, hrun, hlike, hrest⟩
  · rintro ⟨l₁, d, l₂, rfl, hrun, hlike, hrest⟩
    refine ⟨bytesOf l₁, _, Utf8.bytesOf_append .., hrun, String.utf8EncodeChar d, _,
      Utf8.bytesOf_cons .., (bytes_matches_encodeChar hc _).mpr ?_, hrest⟩
    rw [hlike, ← Utf8.map_toAsciiLower_encodeChar]

/-- A first run and another character behind it. -/
theorem characters_matches_cons {run : List Char} {c : Char} (hc : isWild c = false)
    (rest l : List Char) :
    Reading.characters.Matches (run ++ c :: rest) l ↔
      ∃ l₁ d l₂, l = l₁ ++ d :: l₂ ∧ Reading.characters.Matches run l₁ ∧
        c.toLower = d.toLower ∧ Reading.characters.Matches rest l₂ := by
  obtain ⟨hstar, hmark⟩ : c ≠ '*' ∧ c ≠ '?' := by simpa [isWild] using hc
  have hstands := Reading.stands_itself (r := .characters) hstar hmark
  rw [Reading.Matches, Spells.append_iff]
  simp only [Spells.cons_iff, hstands]
  constructor
  · rintro ⟨l₁, _, rfl, hrun, _, l₂, rfl, ⟨d, rfl, hlike⟩, hrest⟩
    exact ⟨l₁, d, l₂, rfl, hrun, hlike, hrest⟩
  · rintro ⟨l₁, d, l₂, rfl, hrun, hlike, hrest⟩
    exact ⟨l₁, _, rfl, hrun, [d], l₂, rfl, ⟨d, rfl, hlike⟩, hrest⟩

theorem run_matches_iff {run l : List Char} (hrun : Wild run) (hsep : '/' ∉ l)
    (hfits : Fits run (bytesOf l).length ↔ Fits run l.length) :
    Reading.bytes.Matches (bytesOf run) (bytesOf l) ↔ Reading.characters.Matches run l := by
  rw [bytes_matches_run hrun, characters_matches_run hrun, ← hfits]
  exact and_iff_right (mt Utf8.separator_mem_bytesOf.mp hsep)

/-- If what fits a run in bytes fits it in characters, the pattern matches the same in both. -/
theorem bytes_matches_iff_characters (among : List Char → Prop) {pattern l : List Char}
    (hparts : ∀ l₁ d l₂, among (l₁ ++ d :: l₂) → among l₁ ∧ among l₂)
    (hsep : ∀ l, among l → '/' ∉ l)
    (hfits : ∀ run ∈ runs pattern, ∀ l, among l →
      (Fits run (bytesOf l).length ↔ Fits run l.length)) (hl : among l) :
    Reading.bytes.Matches (bytesOf pattern) (bytesOf l) ↔ Reading.characters.Matches pattern l := by
  induction pattern using run_induction generalizing l with
  | last run hrun =>
    rw [runs_of_wild hrun, List.forall_mem_singleton] at hfits
    exact run_matches_iff hrun (hsep l hl) (hfits l hl)
  | cons run c rest hrun hc ih =>
    rw [runs_append_cons hrun hc, List.forall_mem_cons] at hfits
    rw [bytes_matches_cons hc, characters_matches_cons hc]
    constructor
    · rintro ⟨l₁, d, l₂, rfl, hfirst, hlike, hrest⟩
      obtain ⟨hl₁, hl₂⟩ := hparts l₁ d l₂ hl
      exact ⟨l₁, d, l₂, rfl, (run_matches_iff hrun (hsep l₁ hl₁) (hfits.1 l₁ hl₁)).mp hfirst, hlike,
        (ih hfits.2 hl₂).mp hrest⟩
    · rintro ⟨l₁, d, l₂, rfl, hfirst, hlike, hrest⟩
      obtain ⟨hl₁, hl₂⟩ := hparts l₁ d l₂ hl
      exact ⟨l₁, d, l₂, rfl, (run_matches_iff hrun (hsep l₁ hl₁) (hfits.1 l₁ hl₁)).mpr hfirst,
        hlike, (ih hfits.2 hl₂).mpr hrest⟩

end TreeOps.Pattern
