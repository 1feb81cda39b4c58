import TreeOps.Entry
import TreeOps.Proofs.Pattern.Tokens
import TreeOps.Proofs.Text.Characters

/-!
# What a pattern lets through

A pattern in which no two stars stand alone between separators is matched byte for byte as it is
written. Of a name without separators more can be said: two stars and a separator at the beginning
of a pattern are passed over, any other separator cannot be matched, and what is left is matched
byte for byte.
-/

namespace TreeOps.Pattern

open Utf8 (bytesOf)

/-- The tokens of a pattern are read off it as it is written. -/
theorem tokens_eq (pattern : String) :
    tokens pattern = readPattern [] none (bytesOf (orStar pattern.toList)) := by
  rw [tokens, encode_escape, readGlob_flatMap_escapeByte .rfl, orStar]
  by_cases h : pattern = ""
  · rw [if_pos h, if_pos (String.toList_eq_nil_iff.mpr h)]
    rfl
  · rw [if_neg h, if_neg (mt String.toList_eq_nil_iff.mp h)]

theorem accepts_eq (pattern name : String) :
    accepts pattern name =
      matchTokens (readPattern [] none (bytesOf (orStar pattern.toList))) (Utf8.encode name) := by
  rw [accepts, tokens_eq]

theorem spells_singles (pattern name : Bytes) :
    Spells Token.Stands (pattern.map Token.single) name ↔ Reading.bytes.Matches pattern name :=
  Spells.map_iff.trans (Spells.congr Token.stands_single)

theorem single_ne_treeAbove (b : UInt8) : Token.single b ≠ .treeAbove := by
  unfold Token.single Token.ofByte
  split
  · exact nofun
  · split <;> exact nofun

/-- An ordinary pattern is matched byte for byte. -/
theorem matchTokens_of_ordinary {pattern : Bytes} (h : Ordinary none pattern) (name : Bytes) :
    matchTokens (readPattern [] none pattern) name = true ↔ Reading.bytes.Matches pattern name := by
  have hne : pattern.map Token.single ≠ [.treeAbove] := by
    intro heq
    obtain ⟨b, rest, rfl, hb, -⟩ := List.map_eq_cons_iff.mp heq
    exact single_ne_treeAbove b hb
  rw [readPattern_of_ordinary (fun _ => rfl) h, List.reverse_nil, List.nil_append, matchTokens_iff,
    or_iff_right hne, spells_singles]

/-- A pattern without adjacent stars is ordinary. -/
theorem ordinary_of_apart {pattern : List Char} (h : ¬['*', '*'] <:+: pattern) :
    Ordinary none (bytesOf pattern) := by
  intro before after hcut _ _
  have hfirst : ∀ b ∈ (star :: star :: after).head?, b.IsUTF8FirstByte := by
    intro b hb
    obtain rfl := Option.mem_some.mp hb
    decide
  obtain ⟨l₁, l₂, rfl, -, hstars⟩ := Utf8.exists_split_of_bytesOf hcut hfirst
  have hascii : '*'.toNat < 0x80 := by decide
  obtain ⟨l₃, rfl, hstar⟩ := Utf8.eq_cons_of_bytesOf_ascii hascii hstars.symm
  obtain ⟨l₄, rfl, -⟩ := Utf8.eq_cons_of_bytesOf_ascii hascii hstar.symm
  exact h ⟨l₁, l₄, by simp⟩

theorem orStar_ne_nil (pattern : List Char) : orStar pattern ≠ [] := by
  unfold orStar
  split
  · exact List.cons_ne_nil _ _
  · assumption

theorem apart_orStar {pattern : List Char} (h : ¬['*', '*'] <:+: pattern) :
    ¬['*', '*'] <:+: orStar pattern := by
  unfold orStar
  split
  · decide
  · exact h

/-- If no two stars are adjacent, a name is matched by the bytes of the pattern: a star stands for
any run of bytes without separators, a question mark for one byte other than a separator, and every
other byte for itself, up to the case of ASCII letters. -/
theorem accepts_iff_bytes (pattern : String) (hapart : ¬['*', '*'] <:+: pattern.toList)
    (c : Child) (dir : Path) :
    accepts pattern (c.entryIn dir).name = true ↔
      Reading.bytes.Matches (bytesOf (orStar pattern.toList))
        (Utf8.encode (Utf8.lossy c.name)) := by
  rw [accepts_eq]
  exact matchTokens_of_ordinary (ordinary_of_apart (apart_orStar hapart)) _

/-- A byte that is no character is read as one of three bytes, which three question marks match. -/
theorem accepts_iff_bytes_lossy :
    let c : Child := ⟨[0x5b, 0xff, 0x5d, separator, 0x62], .empty, 0, false, false⟩
    ¬['*', '*'] <:+: "[???]*/B".toList ∧
      (accepts "[???]*/B" (c.entryIn "/").name = true ↔
        Reading.bytes.Matches (bytesOf (orStar "[???]*/B".toList))
          (Utf8.encode (Utf8.lossy c.name))) ∧
      accepts "[???]*/B" (c.entryIn "/").name = true := by
  intro c
  have hapart : ¬['*', '*'] <:+: "[???]*/B".toList := by decide +kernel
  exact ⟨hapart, accepts_iff_bytes "[???]*/B" hapart c "/", by decide +kernel⟩

/-! ### Names without separators -/

/-- What is left of a pattern behind two stars and a separator, as often as it begins with them. -/
def behindTrees : List Char → List Char
  | '*' :: '*' :: '/' :: rest => behindTrees rest
  | pattern => pattern

/-- Where a pattern may begin with two stars and a separator: at its beginning, and behind such a
beginning. -/
inductive Beginning : List Token → Option UInt8 → Prop
  | start : Beginning [] none
  | behind : Beginning [.treeAbove] (some separator)

variable {done : List Token} {previous : Option UInt8} {name : Bytes}

/-- Two stars and a separator at the beginning of a pattern are read as one token. -/
theorem Beginning.readPattern_trees (h : Beginning done previous) (rest : Bytes) :
    readPattern done previous (star :: star :: separator :: rest) =
      readPattern [.treeAbove] (some separator) rest := by
  cases h <;> rfl

/-- Without separators only two stars on their own are not ordinary. -/
theorem ordinary_of_notMem {pattern : Bytes} (hsep : separator ∉ pattern)
    (hne : pattern ≠ [star, star]) : Ordinary previous pattern := by
  rintro before after rfl hbefore hafter
  rcases List.eq_nil_or_concat before with rfl | ⟨init, b, rfl⟩
  · cases after with
    | nil => exact hne rfl
    | cons d after =>
      have hd := hafter d rfl
      simp [hd] at hsep
  · have hb := hbefore b (by simp)
    simp [hb] at hsep

theorem Token.treeAbove_stands_iff {piece : Bytes} (hsep : separator ∉ piece) :
    Token.treeAbove.Stands piece ↔ piece = [] := by
  constructor
  · rintro (_ | _ | _ | _ | _)
    · rfl
    · simp at hsep
  · rintro rfl
    exact .nothingAbove

theorem spells_treeAbove_cons {ts : List Token} (hname : separator ∉ name) :
    Spells Token.Stands (.treeAbove :: ts) name ↔ Spells Token.Stands ts name := by
  rw [Spells.cons_iff]
  constructor
  · rintro ⟨piece, rest, rfl, hpiece, hrest⟩
    rw [List.mem_append, not_or] at hname
    obtain rfl := (Token.treeAbove_stands_iff hname.1).mp hpiece
    exact hrest
  · intro h
    exact ⟨[], name, rfl, .nothingAbove, h⟩

/-- Stars match whatever has no separator. -/
theorem matches_stars (hname : separator ∉ name) :
    Reading.bytes.Matches [star] name ∧ Reading.bytes.Matches [star, star] name := by
  have hfree : ∀ b ∈ name, Reading.bytes.free b := fun b hb hsep => hname (hsep ▸ hb)
  have hone : Reading.bytes.Matches [star] name := by
    have h := Spells.cons (Reading.Stands.run (r := .bytes) hfree) .nil
    rwa [List.append_nil] at h
  have hnothing : Reading.bytes.Stands star [] := Reading.Stands.run (r := .bytes) nofun
  exact ⟨hone, .cons hnothing hone⟩

/-- A pattern whose bytes begin with two stars and a separator begins with them. -/
theorem exists_of_trees_prefix {p : List Char}
    (h : [star, star, separator] <+: bytesOf p) : ∃ rest, p = '*' :: '*' :: '/' :: rest := by
  obtain ⟨rest, h⟩ := h
  obtain ⟨p₁, rfl, h₁⟩ := Utf8.eq_cons_of_bytesOf_ascii (c := '*') (by decide) h.symm
  obtain ⟨p₂, rfl, h₂⟩ := Utf8.eq_cons_of_bytesOf_ascii (c := '*') (by decide) h₁.symm
  obtain ⟨p₃, rfl, -⟩ := Utf8.eq_cons_of_bytesOf_ascii (c := '/') (by decide) h₂.symm
  exact ⟨p₃, rfl⟩

theorem eq_stars_of_bytesOf {p : List Char} (h : bytesOf p = [star, star]) : p = ['*', '*'] :=
  Utf8.bytesOf_injective (h.trans (by decide))

/-- A beginning behind which there is no further one and no separator. -/
theorem Beginning.matchTokens_of_notMem (h : Beginning done previous) {p : List Char}
    (hne : done = [] → p ≠ []) (hsep : '/' ∉ p) (hname : separator ∉ name) :
    matchTokens (readPattern done previous (bytesOf p)) name = true ↔
      Reading.bytes.Matches (bytesOf (orStar p)) name := by
  have hstars := matches_stars hname
  by_cases htwo : p = ['*', '*']
  · subst htwo
    cases h <;> exact iff_of_true rfl hstars.2
  have hordinary : Ordinary previous (bytesOf p) :=
    ordinary_of_notMem (mt Utf8.separator_mem_bytesOf.mp hsep) (mt eq_stars_of_bytesOf htwo)
  cases h with
  | start =>
    rw [matchTokens_of_ordinary hordinary, orStar, if_neg (hne rfl)]
  | behind =>
    by_cases hnil : p = []
    · subst hnil
      exact iff_of_true rfl hstars.1
    · have hbytes : bytesOf p ≠ [] := mt Utf8.bytesOf_eq_nil_iff.mp hnil
      rw [readPattern_of_ordinary (fun h => absurd h (List.cons_ne_nil _ _)) hordinary,
        matchTokens_iff, List.reverse_singleton, List.singleton_append,
        or_iff_right (by simpa using hbytes), spells_treeAbove_cons hname, spells_singles, orStar,
        if_neg hnil]

/-- What a pattern makes of a name without separators. -/
theorem Beginning.matchTokens_iff (h : Beginning done previous) {p : List Char}
    (hne : done = [] → p ≠ []) (hname : separator ∉ name) :
    matchTokens (readPattern done previous (bytesOf p)) name = true ↔
      '/' ∉ behindTrees p ∧ Reading.bytes.Matches (bytesOf (orStar (behindTrees p))) name := by
  fun_induction behindTrees p generalizing done previous with
  | case1 rest ih =>
    have htrees : bytesOf ('*' :: '*' :: '/' :: rest) =
        star :: star :: separator :: bytesOf rest := rfl
    rw [htrees, h.readPattern_trees]
    exact ih .behind nofun
  | case2 p hother =>
    by_cases hsep : '/' ∈ p
    · have hbrings : BringsSeparator done previous (bytesOf p) := by
        refine .inr ⟨Utf8.separator_mem_bytesOf.mpr hsep, .inl fun htrees => ?_⟩
        obtain ⟨rest, rfl⟩ := exists_of_trees_prefix htrees
        exact hother rest rfl
      obtain ⟨t, ht, hneeds⟩ := needsSeparator_readPattern hbrings
      refine iff_of_false (fun hmatch => ?_) fun h => h.1 hsep
      rcases matchTokens_iff.mp hmatch with hone | hspells
      · rw [hone, List.mem_singleton] at ht
        exact (ht ▸ hneeds : Token.treeAbove.NeedsSeparator)
      · exact hname (separator_mem_of_spells hspells ⟨t, ht, hneeds⟩)
    · rw [h.matchTokens_of_notMem hne hsep hname]
      exact (and_iff_right hsep).symm

/-- Of a name without separators, a pattern lets through what the bytes match that are left of it
behind two stars and a separator, if there is no further separator. -/
theorem accepts_iff_behindTrees (pattern : String) {name : String} (hname : '/' ∉ name.toList) :
    accepts pattern name = true ↔
      '/' ∉ behindTrees (orStar pattern.toList) ∧
        Reading.bytes.Matches (bytesOf (orStar (behindTrees (orStar pattern.toList))))
          (bytesOf name.toList) := by
  rw [accepts_eq, Utf8.encode_eq]
  exact Beginning.start.matchTokens_iff (fun _ => orStar_ne_nil _)
    (mt Utf8.separator_mem_bytesOf.mp hname)

end TreeOps.Pattern
