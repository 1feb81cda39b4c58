import TreeOps.Proofs.Pattern.Escaped
import TreeOps.Proofs.Pattern.Rows

/-!
# Tokens of a pattern

Each byte of a pattern has a token of its own that stands for what the byte stands for, unless two
stars stand alone between separators or the ends of the pattern. With a separator in it, a pattern
has a token that needs one in the name, unless the separator is taken along by two stars at the
beginning.
-/

namespace TreeOps.Pattern

/-- The token of a byte on its own. -/
def Token.single (b : UInt8) : Token := if b = star then .run else .ofByte b

theorem Token.single_of_ne {b : UInt8} (h : b ≠ star) : Token.single b = .ofByte b := if_neg h

theorem Token.single_star : Token.single star = .run := if_pos rfl

theorem foldByte_eq_toAsciiLower (b : UInt8) : foldByte b = b.toAsciiLower := by
  have h : ∀ n < 256, foldByte (UInt8.ofNat n) = (UInt8.ofNat n).toAsciiLower := by
    decide +kernel
  have hb := h b.toNat (UInt8.toNat_lt_size b)
  rwa [UInt8.ofNat_toNat] at hb

/-- The token of a byte stands for what the byte stands for in a pattern. -/
theorem Token.stands_single (b : UInt8) (piece : Bytes) :
    (Token.single b).Stands piece ↔ Reading.bytes.Stands b piece := by
  by_cases hstar : b = star
  · subst hstar
    rw [Token.single_star]
    constructor
    · rintro (_ | _ | hpiece)
      exact .run fun x hx hsep => hpiece (hsep ▸ hx)
    · intro h
      generalize hb : star = b at h
      cases h with
      | run hfree => exact .run fun hsep => hfree _ hsep rfl
      | any hfree => cases hb
      | itself hne _ _ => exact absurd hb.symm hne
  · rw [Token.single_of_ne hstar, Token.ofByte]
    by_cases hmark : b = questionMark
    · subst hmark
      rw [if_pos rfl]
      constructor
      · rintro (_ | hpiece)
        exact .any hpiece
      · intro h
        generalize hb : questionMark = b at h
        cases h with
        | run hfree => cases hb
        | any hfree => exact .any hfree
        | itself _ hne _ => exact absurd hb.symm hne
    · rw [if_neg hmark]
      constructor
      · rintro ⟨hlike⟩
        refine .itself hstar hmark ?_
        change b.toAsciiLower = _
        rw [← foldByte_eq_toAsciiLower, ← foldByte_eq_toAsciiLower, hlike]
      · intro h
        cases h with
        | run hfree => exact absurd rfl hstar
        | any hfree => exact absurd rfl hmark
        | itself _ _ hlike =>
          refine .byte ?_
          rw [foldByte_eq_toAsciiLower, foldByte_eq_toAsciiLower]
          exact hlike.symm

/-- Nothing or a separator is next to something. -/
def Edge (b : Option UInt8) : Prop := ∀ c ∈ b, c = separator

/-- No two stars stand alone between separators or the ends of a pattern. The byte before the
pattern is given, if there is one. -/
def Ordinary (previous : Option UInt8) (pattern : Bytes) : Prop :=
  ∀ before after, pattern = before ++ star :: star :: after →
    Edge (before.getLast?.or previous) → ¬Edge after.head?

theorem Ordinary.tail {previous : Option UInt8} {b : UInt8} {pattern : Bytes}
    (h : Ordinary previous (b :: pattern)) : Ordinary (some b) pattern := by
  rintro before after rfl hbefore
  refine h (b :: before) after rfl ?_
  rw [List.getLast?_cons]
  cases hlast : before.getLast? <;> simpa [hlast] using hbefore

/-- Two stars at the beginning. -/
theorem Ordinary.not_edge {previous : Option UInt8} {after : Bytes}
    (h : Ordinary previous (star :: star :: after)) (hprevious : Edge previous) :
    ¬Edge after.head? :=
  h [] after rfl hprevious

/-- Each byte of an ordinary pattern has a token of its own. -/
theorem readPattern_of_ordinary {done : List Token} {previous : Option UInt8} {pattern : Bytes}
    (hstart : done = [] → previous = none) (h : Ordinary previous pattern) :
    readPattern done previous pattern = done.reverse ++ pattern.map Token.single := by
  have hlater {t : Token} {ts : List Token} {b : UInt8} (h : t :: ts = []) : some b = none :=
    absurd h (List.cons_ne_nil t ts)
  have hnone : Edge none := nofun
  have hsep : Edge (some separator) := fun c hc => (Option.mem_some.mp hc).symm
  fun_induction readPattern done previous pattern with
  | case1 => simp
  | case2 => simp [Token.single]
  | case3 done previous b c rest hb ih =>
    rw [ih hlater h.tail]
    simp [Token.single_of_ne hb]
  | case4 done previous b c rest hb hc ih =>
    obtain rfl := Decidable.not_not.mp hb
    rw [ih hlater h.tail]
    simp [Token.single_star]
  | case5 previous b c hb hc =>
    obtain ⟨rfl, rfl⟩ := both_stars hb hc
    obtain rfl := hstart rfl
    exact absurd hnone (h.not_edge hnone)
  | case6 previous b c hb hc rest ih =>
    obtain ⟨rfl, rfl⟩ := both_stars hb hc
    obtain rfl := hstart rfl
    exact absurd hsep (h.not_edge hnone)
  | case7 previous b c hb hc d rest hd ih =>
    obtain ⟨rfl, rfl⟩ := both_stars hb hc
    rw [ih hlater h.tail.tail]
    simp [Token.single_star]
  | case8 b c hb hc last done =>
    obtain ⟨rfl, rfl⟩ := both_stars hb hc
    exact absurd hnone (h.not_edge hsep)
  | case9 previous b c hb hc last done hprevious =>
    obtain ⟨rfl, rfl⟩ := both_stars hb hc
    simp [Token.single_star]
  | case10 previous b c hb hc last done d rest hedges ih =>
    obtain ⟨rfl, rfl⟩ := both_stars hb hc
    obtain ⟨rfl, rfl⟩ := hedges
    exact absurd hsep (h.not_edge hsep)
  | case11 previous b c hb hc last done d rest hedges ih =>
    obtain ⟨rfl, rfl⟩ := both_stars hb hc
    rw [ih hlater h.tail.tail]
    simp [Token.single_star]

/-! ### Tokens that need a separator -/

/-- What the token stands for holds a separator. -/
def Token.NeedsSeparator : Token → Prop
  | .byte b => b = separator
  | .treeBelow | .treeBetween => True
  | _ => False

theorem Token.Stands.separator_mem {t : Token} {piece : Bytes} (h : t.Stands piece)
    (hneeds : t.NeedsSeparator) : separator ∈ piece := by
  cases h with
  | @byte b c hlike =>
    obtain rfl : b = separator := hneeds
    have hfold : ∀ n < 256, foldByte (UInt8.ofNat n) = foldByte separator →
        UInt8.ofNat n = separator := by decide +kernel
    have hc := hfold c.toNat (UInt8.toNat_lt_size c)
    rw [UInt8.ofNat_toNat] at hc
    rw [hc hlike]
    exact List.mem_singleton_self _
  | any _ => exact hneeds.elim
  | run _ => exact hneeds.elim
  | nothingAbove => exact hneeds.elim
  | treeAbove _ => exact hneeds.elim
  | treeBelow _ => exact List.mem_cons_self
  | nothingBetween => exact List.mem_cons_self
  | treeBetween _ => exact List.mem_cons_self

theorem Token.needsSeparator_widen {last replacement : Token} (h : last.NeedsSeparator)
    (hreplacement : replacement.NeedsSeparator) : (last.widen replacement).NeedsSeparator := by
  cases last with
  | treeAbove => exact h.elim
  | treeBelow => exact h
  | _ => exact hreplacement

/-- A name without separators is not what such tokens match. -/
theorem separator_mem_of_spells {ts : List Token} {name : Bytes} (h : Spells Token.Stands ts name)
    (hneeds : ∃ t ∈ ts, t.NeedsSeparator) : separator ∈ name := by
  obtain ⟨t, ht, hneeds⟩ := hneeds
  obtain ⟨before, after, rfl⟩ := List.append_of_mem ht
  obtain ⟨first, _, rfl, -, hrest⟩ := Spells.append_iff.mp h
  obtain ⟨piece, rest, rfl, hpiece, -⟩ := Spells.cons_iff.mp hrest
  simp [hpiece.separator_mem hneeds]

/-- The rest of a pattern brings a token that needs a separator, or one was read before. At the
beginning of a pattern two stars take the separator behind them along, so such a beginning is left
out. -/
def BringsSeparator (done : List Token) (previous : Option UInt8) (pattern : Bytes) : Prop :=
  (∃ t ∈ done, t.NeedsSeparator) ∨
    separator ∈ pattern ∧
      (¬[star, star, separator] <+: pattern ∨ done ≠ [] ∧ previous ≠ some separator)

namespace BringsSeparator

variable {done : List Token} {previous : Option UInt8} {pattern : Bytes} {t : Token} {b : UInt8}

theorem of_needs (ht : t.NeedsSeparator) : BringsSeparator (t :: done) previous pattern :=
  .inl ⟨t, List.mem_cons_self, ht⟩

/-- Further tokens are read. -/
theorem later {done' : List Token} {rest : Bytes} (h : BringsSeparator done previous pattern)
    (hdone : done ⊆ done')
    (hrest : separator ∈ pattern → BringsSeparator done' (some b) rest) :
    BringsSeparator done' (some b) rest := by
  rcases h with ⟨t, ht, hneeds⟩ | ⟨hmem, -⟩
  · exact .inl ⟨t, hdone ht, hneeds⟩
  · exact hrest hmem

/-- Behind anything but a separator, a separator brings a token of its own. -/
theorem of_mem (hb : b ≠ separator) (hmem : separator ∈ pattern) :
    BringsSeparator (t :: done) (some b) pattern :=
  .inr ⟨hmem, .inr ⟨List.cons_ne_nil t done, fun h => hb (Option.some.inj h)⟩⟩

theorem of_mem_stars (hmem : separator ∈ star :: star :: pattern) :
    BringsSeparator (t :: done) (some star) pattern := by
  have hstar : separator ≠ star := by decide
  exact of_mem hstar.symm (by simpa [hstar] using hmem)

/-- A wider token needs a separator as well. -/
theorem widen {replacement : Token} (hreplacement : replacement.NeedsSeparator)
    (h : ∃ t' ∈ t :: done, t'.NeedsSeparator) :
    ∃ t' ∈ t.widen replacement :: done, t'.NeedsSeparator := by
  obtain ⟨t', ht', hneeds⟩ := h
  rcases List.mem_cons.mp ht' with rfl | ht'
  · exact ⟨_, List.mem_cons_self, Token.needsSeparator_widen hneeds hreplacement⟩
  · exact ⟨t', List.mem_cons_of_mem _ ht', hneeds⟩

end BringsSeparator

theorem needsSeparator_readPattern {done : List Token} {previous : Option UInt8} {pattern : Bytes}
    (h : BringsSeparator done previous pattern) :
    ∃ t ∈ readPattern done previous pattern, t.NeedsSeparator := by
  have hstar : separator ≠ star := by decide
  fun_induction readPattern done previous pattern with
  | case1 done =>
    rcases h with ⟨t, ht, hneeds⟩ | ⟨hmem, -⟩
    · exact ⟨t, List.mem_reverse.mpr ht, hneeds⟩
    · cases hmem
  | case2 done previous b =>
    rcases h with ⟨t, ht, hneeds⟩ | ⟨hmem, -⟩
    · exact ⟨t, by simp [ht], hneeds⟩
    · obtain rfl := List.mem_singleton.mp hmem
      have htoken : Token.ofByte separator = .byte separator := by decide
      exact ⟨.byte separator, by simp [hstar, htoken], rfl⟩
  | case3 done previous b c rest hb ih =>
    refine ih (h.later (List.subset_cons_self ..) fun hmem => ?_)
    by_cases hsep : b = separator
    · subst hsep
      exact .of_needs rfl
    · exact .of_mem hsep (by simpa [Ne.symm hsep] using hmem)
  | case4 done previous b c rest hb hc ih =>
    obtain rfl := Decidable.not_not.mp hb
    refine ih (h.later (List.subset_cons_self ..) fun hmem => ?_)
    exact .of_mem hstar.symm (by simpa [hstar] using hmem)
  | case5 previous b c hb hc =>
    obtain ⟨rfl, rfl⟩ := both_stars hb hc
    rcases h with ⟨t, ht, -⟩ | ⟨hmem, -⟩
    · cases ht
    · exact absurd hmem (by simp [hstar])
  | case6 previous b c hb hc rest ih =>
    obtain ⟨rfl, rfl⟩ := both_stars hb hc
    rcases h with ⟨t, ht, -⟩ | ⟨-, hnot | ⟨hne, -⟩⟩
    · cases ht
    · exact absurd (List.prefix_append [star, star, separator] rest) hnot
    · exact absurd rfl hne
  | case7 previous b c hb hc d rest hd ih =>
    obtain ⟨rfl, rfl⟩ := both_stars hb hc
    exact ih (h.later (List.nil_subset _) .of_mem_stars)
  | case8 b c hb hc last done =>
    obtain ⟨rfl, rfl⟩ := both_stars hb hc
    rcases h with h | ⟨hmem, -⟩
    · have hbelow : Token.treeBelow.NeedsSeparator := trivial
      obtain ⟨t, ht, hneeds⟩ := BringsSeparator.widen hbelow h
      exact ⟨t, List.mem_reverse.mpr ht, hneeds⟩
    · exact absurd hmem (by simp [hstar])
  | case9 previous b c hb hc last done hprevious =>
    obtain ⟨rfl, rfl⟩ := both_stars hb hc
    rcases h with ⟨t, ht, hneeds⟩ | ⟨hmem, -⟩
    · have hmem : t ∈ .run :: .run :: last :: done :=
        List.mem_cons_of_mem _ (List.mem_cons_of_mem _ ht)
      exact ⟨t, List.mem_reverse.mpr hmem, hneeds⟩
    · exact absurd hmem (by simp [hstar])
  | case10 previous b c hb hc last done d rest hedges ih =>
    obtain ⟨rfl, rfl⟩ := both_stars hb hc
    obtain ⟨rfl, rfl⟩ := hedges
    rcases h with h | ⟨-, hnot | ⟨-, hne⟩⟩
    · exact ih (.inl (BringsSeparator.widen trivial h))
    · exact absurd (List.prefix_append [star, star, separator] rest) hnot
    · exact absurd rfl hne
  | case11 previous b c hb hc last done d rest hedges ih =>
    obtain ⟨rfl, rfl⟩ := both_stars hb hc
    have hdone : last :: done ⊆ .run :: .run :: last :: done :=
      List.subset_cons_of_subset _ (List.subset_cons_self ..)
    exact ih (h.later hdone .of_mem_stars)

end TreeOps.Pattern
