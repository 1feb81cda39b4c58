import TreeOps.Proofs.Markup.Reading
import TreeOps.Proofs.Text.Trimmed

/-!
# Plain text among blanks

Plain text holds no control characters and no white space at its ends. As data it may stand among
blanks: what trimming leaves of the data is the text, except that a line separator has become a line
feed, as every line end in markup does.
-/

namespace TreeOps.Markup

open Text (IsTrimmed trimChars)

variable {l left right : List Char} {c : Char}

/-- Control characters: those of the category `Cc`. -/
def isControl (c : Char) : Bool := c.toNat < 0x20 || (0x7f ≤ c.toNat && c.toNat ≤ 0x9f)

/-- A text without control characters and without white space at its ends. -/
structure IsPlain (l : List Char) : Prop extends IsTrimmed l where
  noControl : ∀ c ∈ l, isControl c = false

instance (l : List Char) : Decidable (IsPlain l) :=
  decidable_of_iff ((l.head?.all fun c => !Text.isBlank c) ∧
      (l.getLast?.all fun c => !Text.isBlank c) ∧ l.all fun c => !isControl c) <| by
    simp only [Option.all_eq_true, List.all_eq_true, Bool.not_eq_true']
    exact ⟨fun h => ⟨⟨h.1, h.2.1⟩, h.2.2⟩, fun h => ⟨h.head, h.last, h.noControl⟩⟩

/-- A character that is neither white space nor a control character. -/
structure IsOrdinary (c : Char) : Prop where
  noControl : isControl c = false
  noBlank : Text.isBlank c = false

/-- A character of text that ends a line and is no control character. -/
def lineSeparator : Char := '\u2028'

theorem isPlain_of_forall (h : ∀ c ∈ l, IsOrdinary c) : IsPlain l :=
  ⟨Text.isTrimmed_of_forall fun c hc => (h c hc).noBlank, fun c hc => (h c hc).noControl⟩

theorem isOrdinary_of_isAlphanum (h : c.isAlphanum) : IsOrdinary c := by
  have hascii : ∀ n < 0x80, (Char.ofNat n).isAlphanum →
      isControl (Char.ofNat n) = false ∧ Text.isBlank (Char.ofNat n) = false := by
    decide +kernel
  have hlt : c.toNat < 0x80 := by
    change (decide (c.val ≥ 'A'.val ∧ c.val ≤ 'Z'.val) ||
      (decide (c.val ≥ 'a'.val) && decide (c.val ≤ 'z'.val)) ||
      (decide (c.val ≥ '0'.val) && decide (c.val ≤ '9'.val))) = true at h
    simp only [Bool.or_eq_true, Bool.and_eq_true, decide_eq_true_eq, UInt32.le_iff_toNat_le,
      ge_iff_le] at h
    change ((65 ≤ c.toNat ∧ c.toNat ≤ 90) ∨ (97 ≤ c.toNat ∧ c.toNat ≤ 122)) ∨
      (48 ≤ c.toNat ∧ c.toNat ≤ 57) at h
    omega
  rw [← Char.ofNat_toNat c] at h ⊢
  obtain ⟨hcontrol, hblank⟩ := hascii c.toNat hlt h
  exact ⟨hcontrol, hblank⟩

theorem isBlank_of_isBlank (h : isBlank c) : Text.isBlank c := by
  obtain rfl | rfl | rfl | rfl := isBlank_iff.mp h <;> decide

theorem isBlank_of_isLineEnd (h : isLineEnd c) : Text.isBlank c := by
  simp only [isLineEnd, Bool.or_eq_true, decide_eq_true_eq] at h
  rw [Text.isBlank]
  obtain h | h := h <;> rw [h] <;> decide

/-! ### Uniform lines -/

theorem uniform_of_isBlank (h : Text.isBlank c = false) : uniform c = c := by
  refine if_neg fun hend => ?_
  rw [isBlank_of_isLineEnd hend] at h
  cases h

theorem uniform_of_isControl (h : isControl c = false) :
    uniform c = if c = lineSeparator then '\n' else c := by
  have hend : isLineEnd c ↔ c = lineSeparator := by
    rw [← Char.toNat_inj]
    change _ ↔ c.toNat = 0x2028
    simp only [isControl, isLineEnd, Bool.or_eq_false_iff, Bool.and_eq_false_iff,
      Bool.or_eq_true, decide_eq_true_eq, decide_eq_false_iff_not] at h ⊢
    omega
  simp only [uniform, hend]

theorem map_uniform_of_ordinary (h : ∀ c ∈ l, IsOrdinary c) : l.map uniform = l := by
  refine (List.map_congr_left fun c hc => ?_).trans (List.map_id l)
  exact uniform_of_isBlank (h c hc).noBlank

theorem map_uniform_eq_iff (h : ∀ c ∈ l, isControl c = false) :
    l.map uniform = l ↔ lineSeparator ∉ l := by
  induction l with
  | nil => simp
  | cons c l ih =>
    obtain ⟨hc, hl⟩ := List.forall_mem_cons.mp h
    rw [List.map_cons, List.cons.injEq, ih hl, uniform_of_isControl hc, List.mem_cons, not_or]
    refine and_congr_left fun _ => ?_
    by_cases hsep : c = lineSeparator
    · subst hsep
      exact iff_of_false (by decide) (by simp)
    · rw [if_neg hsep]
      exact iff_of_true rfl (Ne.symm hsep)

namespace IsPlain

variable (h : IsPlain l)
include h

theorem not_mem_of_isControl (hc : isControl c = true) : c ∉ l := by
  intro hmem
  rw [h.noControl c hmem] at hc
  cases hc

theorem isTrimmed_map : IsTrimmed (l.map uniform) := by
  constructor
  · intro c hc
    rw [List.head?_map] at hc
    obtain ⟨d, hd, rfl⟩ := Option.map_eq_some_iff.mp hc
    rw [uniform_of_isBlank (h.head d hd)]
    exact h.head d hd
  · intro c hc
    rw [List.getLast?_map] at hc
    obtain ⟨d, hd, rfl⟩ := Option.map_eq_some_iff.mp hc
    rw [uniform_of_isBlank (h.last d hd)]
    exact h.last d hd

/-- Trimming leaves plain text of the data that it is among blanks. -/
theorem trimChars_uniformLines (hleft : ∀ c ∈ left, isBlank c) (hright : ∀ c ∈ right, isBlank c) :
    trimChars (uniformLines (left ++ (l ++ right))) = l.map uniform := by
  have hblank {s : List Char} (hs : ∀ c ∈ s, isBlank c) :
      ∀ c ∈ uniformLines s, Text.isBlank c :=
    fun c hc => isBlank_of_isBlank (isBlank_of_mem_uniformLines hs c hc)
  cases hl : l with
  | nil =>
    have hall : ∀ c ∈ left ++ right, isBlank c :=
      fun c hc => (List.mem_append.mp hc).elim (hleft c) (hright c)
    exact Text.trimChars_of_blank (hblank hall)
  | cons c rest =>
    have hc : ∀ d ∈ (c :: rest ++ right).head?, ¬JoinsReturn d := by
      rintro d hd hjoin
      obtain rfl := Option.some.inj hd
      have hmem : c ∈ l := hl ▸ List.mem_cons_self
      obtain rfl | hnext := hjoin
      · exact h.not_mem_of_isControl (by decide) hmem
      · exact h.not_mem_of_isControl (by simp [isControl, hnext]) hmem
    rw [uniformLines_append_of_head hc, ← hl,
      uniformLines_append (h.not_mem_of_isControl (by decide)), ← List.append_assoc]
    exact Text.trimChars_around (hblank hleft) (hblank hright) h.isTrimmed_map

end IsPlain

end TreeOps.Markup
