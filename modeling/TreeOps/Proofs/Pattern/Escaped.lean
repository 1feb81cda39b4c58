import Mathlib.Data.List.Basic
import TreeOps.Pattern.Token
import TreeOps.Proofs.Text.Characters

/-!
# Patterns behind their globs

The glob of a pattern has classes of one byte where the pattern has brackets and braces, and such a
class is read as its byte. So reading undoes the escape: the tokens of a pattern are read off it as
it is written, where brackets and braces stand for themselves.
-/

namespace TreeOps.Pattern

open Utf8 (bytesOf)

/-- Read the rest of a pattern as it is written, given the tokens before it in reverse order and the
byte before it. -/
def readPattern : List Token → Option UInt8 → Bytes → List Token
  | done, _, [] => done.reverse
  | done, _, [b] => ((if b = star then .run else .ofByte b) :: done).reverse
  | done, previous, b :: c :: rest =>
    if b ≠ star then readPattern (.ofByte b :: done) (some b) (c :: rest)
    else if c ≠ star then readPattern (.run :: done) (some b) (c :: rest)
    else
      match done, rest with
      | [], [] => [.treeAbove]
      | [], d :: rest =>
        if d = separator then readPattern [.treeAbove] (some d) rest
        else readPattern [.run, .run] (some c) (d :: rest)
      | last :: done, [] =>
        if previous = some separator then (last.widen .treeBelow :: done).reverse
        else (.run :: .run :: last :: done).reverse
      | last :: done, d :: rest =>
        if previous = some separator ∧ d = separator then
          readPattern (last.widen .treeBetween :: done) (some d) rest
        else readPattern (.run :: .run :: last :: done) (some c) (d :: rest)

theorem both_stars {b c : UInt8} (hb : ¬b ≠ star) (hc : ¬c ≠ star) : b = star ∧ c = star :=
  ⟨Decidable.not_not.mp hb, Decidable.not_not.mp hc⟩

/-! ### The escape in bytes -/

/-- A bracket or a brace. -/
def IsGrouping (b : UInt8) : Prop := b = 0x5b ∨ b = 0x5d ∨ b = 0x7b ∨ b = 0x7d

instance (b : UInt8) : Decidable (IsGrouping b) := inferInstanceAs (Decidable (_ ∨ _))

/-- A byte of a pattern as it is written in a glob. -/
def escapeByte (b : UInt8) : Bytes :=
  if IsGrouping b then [0x5b, b, 0x5d] else [b]

theorem escapeByte_of_not {b : UInt8} (h : ¬IsGrouping b) : escapeByte b = [b] := if_neg h

theorem escapeByte_star : escapeByte star = [star] := by decide

theorem bytesOf_escapeChar (c : Char) :
    bytesOf (escapeChar c) = (String.utf8EncodeChar c).flatMap escapeByte := by
  by_cases hascii : c.toNat < 0x80
  · have hall : ∀ n < 0x80, bytesOf (escapeChar (Char.ofNat n)) =
        (String.utf8EncodeChar (Char.ofNat n)).flatMap escapeByte := by decide +kernel
    have hc := hall c.toNat hascii
    rwa [Char.ofNat_toNat] at hc
  · have hchar : escapeChar c = [c] := by
      refine if_neg ?_
      rintro (rfl | rfl | rfl | rfl) <;> exact hascii (by decide)
    have hbyte : ∀ b ∈ String.utf8EncodeChar c, escapeByte b = [b] := by
      intro b hb
      have hle := Utf8.le_of_mem_encodeChar hascii hb
      refine escapeByte_of_not ?_
      rintro (rfl | rfl | rfl | rfl) <;> exact absurd hle (by decide)
    rw [hchar, Utf8.bytesOf_singleton, List.flatMap_congr hbyte, List.flatMap_singleton']

theorem encode_escape (s : String) :
    Utf8.encode (escape s) = (bytesOf s.toList).flatMap escapeByte := by
  rw [Utf8.encode_eq, escape, String.toList_ofList]
  simp only [bytesOf, List.flatMap_assoc]
  exact List.flatMap_congr fun c _ => bytesOf_escapeChar c

/-- A glob begins with a star or a separator where its pattern does. -/
theorem exists_escaped_cons (b : UInt8) (rest : Bytes) :
    ∃ first tail, (b :: rest).flatMap escapeByte = first :: tail ∧
      (first = star ↔ b = star) ∧ (first = separator ↔ b = separator) := by
  rw [List.flatMap_cons]
  by_cases h : IsGrouping b
  · refine ⟨0x5b, b :: 0x5d :: rest.flatMap escapeByte, by rw [escapeByte, if_pos h]; rfl, ?_⟩
    rcases h with rfl | rfl | rfl | rfl <;> decide
  · exact ⟨b, rest.flatMap escapeByte, by rw [escapeByte_of_not h]; rfl, .rfl, .rfl⟩

theorem escaped_stars (rest : Bytes) : (star :: star :: rest).flatMap escapeByte =
    star :: star :: rest.flatMap escapeByte := rfl

/-! ### Reading undoes the escape -/

section Read

variable {done : List Token} {previous previous' : Option UInt8} {b c : UInt8}

theorem readGlob_of_ne (hstar : b ≠ star) (hopen : b ≠ 0x5b) (rest : Bytes) :
    readGlob done previous (b :: rest) = readGlob (.ofByte b :: done) (some b) rest := by
  cases rest with
  | nil => simp [readGlob, hstar]
  | cons c rest => cases done <;> cases rest <;> simp [readGlob, hstar, hopen]

theorem readGlob_star (hc : c ≠ star) (rest : Bytes) :
    readGlob done previous (star :: c :: rest) =
      readGlob (.run :: done) (some star) (c :: rest) := by
  have hstar : star ≠ 0x5b := by decide
  cases done <;> cases rest <;> simp [readGlob, hc, hstar]

/-- A byte other than a star is read as the byte that it stands for, however it is written. -/
theorem readGlob_escapeByte (hb : b ≠ star) (rest : Bytes) :
    ∃ last, (last = separator ↔ b = separator) ∧
      readGlob done previous (escapeByte b ++ rest) =
        readGlob (.ofByte b :: done) (some last) rest := by
  by_cases h : IsGrouping b
  · refine ⟨0x5d, ?_, ?_⟩
    · rcases h with rfl | rfl | rfl | rfl <;> decide
    · have hmark : b ≠ questionMark := by rcases h with rfl | rfl | rfl | rfl <;> decide
      rw [escapeByte, if_pos h, Token.ofByte, if_neg hmark]
      rfl
  · rw [escapeByte_of_not h]
    exact ⟨b, .rfl, readGlob_of_ne hb (fun hopen => h (.inl hopen)) rest⟩

/-- Reading the glob of a pattern, its bytes are read as they are written. Of the byte before them
it only matters whether it is a separator. -/
theorem readGlob_flatMap_escapeByte {pattern : Bytes}
    (h : previous' = some separator ↔ previous = some separator) :
    readGlob done previous' (pattern.flatMap escapeByte) = readPattern done previous pattern := by
  have hopen : star ≠ 0x5b := by decide
  -- what is looked at ahead is only compared with stars and separators, which an escape keeps apart
  fun_induction readPattern done previous pattern generalizing previous' with
  | case1 => rfl
  | case2 done previous b =>
    rw [List.flatMap_singleton, ← List.append_nil (escapeByte b)]
    by_cases hb : b = star
    · subst hb
      rfl
    · obtain ⟨last, -, hread⟩ := readGlob_escapeByte hb []
      rw [hread, if_neg hb, readGlob]
  | case3 done previous b c rest hb ih =>
    obtain ⟨last, hlast, hread⟩ := readGlob_escapeByte hb ((c :: rest).flatMap escapeByte)
    rw [List.flatMap_cons, hread]
    exact ih (by simpa using hlast)
  | case4 done previous b c rest hb hc ih =>
    obtain rfl := Decidable.not_not.mp hb
    obtain ⟨first, tail, hrest, hstar, -⟩ := exists_escaped_cons c rest
    rw [List.flatMap_cons, escapeByte_star, ← ih .rfl, hrest]
    exact readGlob_star (mt hstar.mp hc) tail
  | case5 previous b c hb hc =>
    obtain ⟨rfl, rfl⟩ := both_stars hb hc
    rfl
  | case6 previous b c hb hc rest ih =>
    obtain ⟨rfl, rfl⟩ := both_stars hb hc
    exact ih .rfl
  | case7 previous b c hb hc d rest hd ih =>
    obtain ⟨rfl, rfl⟩ := both_stars hb hc
    obtain ⟨first, tail, hrest, -, hsep⟩ := exists_escaped_cons d rest
    rw [escaped_stars, ← ih .rfl, hrest]
    simp [readGlob, hopen, mt hsep.mp hd]
  | case8 b c hb hc last done =>
    obtain ⟨rfl, rfl⟩ := both_stars hb hc
    obtain rfl := h.mpr rfl
    rfl
  | case9 previous b c hb hc last done hprevious =>
    obtain ⟨rfl, rfl⟩ := both_stars hb hc
    exact if_neg (mt h.mp hprevious)
  | case10 previous b c hb hc last done d rest hedges ih =>
    obtain ⟨rfl, rfl⟩ := both_stars hb hc
    obtain ⟨hprevious, rfl⟩ := hedges
    obtain rfl := h.mpr hprevious
    exact ih .rfl
  | case11 previous b c hb hc last done d rest hedges ih =>
    obtain ⟨rfl, rfl⟩ := both_stars hb hc
    obtain ⟨first, tail, hrest, -, hsep⟩ := exists_escaped_cons d rest
    rw [← h, ← hsep] at hedges
    rw [escaped_stars, ← ih .rfl, hrest]
    simp [readGlob, hopen, hedges]

end Read

end TreeOps.Pattern
