import TreeOps.Text.Blank

/-!
# Trimming

Trimming takes away the white space around a text that begins and ends with other characters, and
all of a text that is nothing but white space.
-/

namespace TreeOps.Text

variable {a b l : List Char}

/-- A text neither begins nor ends with white space. -/
structure IsTrimmed (l : List Char) : Prop where
  head : ∀ c ∈ l.head?, isBlank c = false
  last : ∀ c ∈ l.getLast?, isBlank c = false

theorem isTrimmed_of_forall (h : ∀ c ∈ l, isBlank c = false) : IsTrimmed l :=
  ⟨fun c hc => h c (List.mem_of_head? hc), fun c hc => h c (List.mem_of_getLast? hc)⟩

theorem dropWhile_of_head (h : ∀ c ∈ l.head?, isBlank c = false) : l.dropWhile isBlank = l := by
  cases l with
  | nil => rfl
  | cons c l => rw [List.dropWhile_cons, h c rfl, if_neg Bool.false_ne_true]

/-- A character that is no white space stays. -/
theorem mem_dropWhile {c : Char} (h : c ∈ l) (hc : isBlank c = false) :
    c ∈ l.dropWhile isBlank := by
  induction l with
  | nil => exact h
  | cons d l ih =>
    rw [List.dropWhile_cons]
    split
    · next hd =>
      refine ih ((List.mem_cons.mp h).resolve_left ?_)
      rintro rfl
      rw [hc] at hd
      cases hd
    · exact h

theorem mem_trimChars {c : Char} (h : c ∈ l) (hc : isBlank c = false) : c ∈ trimChars l :=
  List.mem_reverse.mpr (mem_dropWhile (List.mem_reverse.mpr (mem_dropWhile h hc)) hc)

theorem trimChars_of_blank (h : ∀ c ∈ l, isBlank c) : trimChars l = [] := by
  have hnil : l.dropWhile isBlank = [] := by
    rw [← List.append_nil l, List.dropWhile_append_of_pos h]
    rfl
  rw [trimChars, hnil]
  rfl

theorem trimChars_around (ha : ∀ c ∈ a, isBlank c) (hb : ∀ c ∈ b, isBlank c) (hl : IsTrimmed l) :
    trimChars (a ++ l ++ b) = l := by
  cases l with
  | nil =>
    refine trimChars_of_blank fun c hc => ?_
    rw [List.append_nil] at hc
    exact (List.mem_append.mp hc).elim (ha c) (hb c)
  | cons d l =>
    have hfront : (d :: l ++ b).dropWhile isBlank = d :: l ++ b := dropWhile_of_head hl.head
    have hback : (d :: l).reverse.dropWhile isBlank = (d :: l).reverse :=
      dropWhile_of_head fun c hc => hl.last c (by rwa [List.head?_reverse] at hc)
    rw [trimChars, List.append_assoc, List.dropWhile_append_of_pos ha, hfront, List.reverse_append,
      List.dropWhile_append_of_pos fun c hc => hb c (List.mem_reverse.mp hc), hback,
      List.reverse_reverse]

end TreeOps.Text
