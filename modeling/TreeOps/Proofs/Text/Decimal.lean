import TreeOps.Text.Decimal

/-!
# Decimal numbers are read back

A number that is written in decimal is read as itself, if the limit allows it.
-/

namespace TreeOps.Text

variable {limit value n : Nat} {digits : List Char}

/-- Digits behind a value do not make it smaller. -/
theorem le_ofDigitChars (value : Nat) (digits : List Char) :
    value ≤ Nat.ofDigitChars 10 digits value := by
  induction digits generalizing value with
  | nil => exact Nat.le_refl value
  | cons c digits ih =>
    rw [Nat.ofDigitChars_cons]
    have hrest := ih (10 * value + (c.toNat - '0'.toNat))
    omega

/-- Digits are read as their value, if that does not pass the limit. -/
theorem readDigits_eq (hdigits : ∀ c ∈ digits, c.isDigit)
    (hlimit : Nat.ofDigitChars 10 digits value ≤ limit) :
    readDigits limit value digits = .ok (Nat.ofDigitChars 10 digits value) := by
  induction digits generalizing value with
  | nil => rfl
  | cons c digits ih =>
    obtain ⟨hc, hrest⟩ := List.forall_mem_cons.mp hdigits
    rw [Nat.ofDigitChars_cons, Nat.mul_comm] at hlimit ⊢
    have hle := le_ofDigitChars (value * 10 + (c.toNat - '0'.toNat)) digits
    simp only [readDigits, hc, Bool.not_true, Bool.false_eq_true, if_false]
    rw [if_neg (Nat.not_lt.mpr (Nat.le_trans hle hlimit)), ih hrest hlimit]

/-- A written number is digits only. -/
theorem isDigit_of_mem_toString {c : Char} (h : c ∈ (toString n).toList) : c.isDigit := by
  rw [Nat.toString_eq_repr, Nat.toList_repr] at h
  exact Nat.isDigit_of_mem_toDigits (by decide) (by decide) h

theorem toString_ne_empty (n : Nat) : (toString n).toList ≠ [] := by
  rw [Nat.toString_eq_repr, Nat.toList_repr]
  exact Nat.toDigits_ne_nil

theorem readDecimal_toString (h : n ≤ limit) : readDecimal limit (toString n) = .ok n := by
  have hvalue : Nat.ofDigitChars 10 (toString n).toList 0 = n := by
    rw [Nat.toString_eq_repr, Nat.toList_repr]
    exact Nat.ofDigitChars_toDigits (by decide) (by decide)
  have hdigits : ∀ c ∈ (toString n).toList, c.isDigit := fun _ => isDigit_of_mem_toString
  have hplus : '+' ∉ (toString n).toList := fun hmem => absurd (hdigits '+' hmem) (by decide)
  have hread := readDigits_eq hdigits (hvalue.symm ▸ h)
  rw [hvalue] at hread
  unfold readDecimal
  split
  · next hnil => exact absurd hnil (toString_ne_empty n)
  · next hsign => exact absurd (hsign ▸ List.mem_cons_self) hplus
  · next hsign => exact absurd (hsign ▸ List.mem_cons_self) hplus
  · exact hread

end TreeOps.Text
