import TreeOps.Pattern.Match

/-!
# What patterns mean

A pattern matches a name when the name can be cut into pieces, one for each symbol of the pattern,
such that each symbol stands for its piece. A star stands for any run, a question mark for one
symbol, and every other symbol for itself or something like it. Which symbols there are is left
open, so the same relation speaks of bytes and of characters; the tokens of a pattern stand for
pieces of a name as well.
-/

namespace TreeOps.Pattern

variable {α β γ : Type}

/-- A list is cut into pieces that the elements of another list stand for, in order. -/
inductive Spells (stands : β → List α → Prop) : List β → List α → Prop
  | nil : Spells stands [] []
  | cons {b : β} {bs : List β} {piece rest : List α} :
      stands b piece → Spells stands bs rest → Spells stands (b :: bs) (piece ++ rest)

namespace Spells

variable {stands stands' : β → List α → Prop} {b : β} {bs bs' : List β} {name : List α}

theorem nil_iff : Spells stands [] name ↔ name = [] := by
  constructor
  · rintro ⟨⟩
    rfl
  · rintro rfl
    exact .nil

theorem cons_iff : Spells stands (b :: bs) name ↔
    ∃ piece rest, name = piece ++ rest ∧ stands b piece ∧ Spells stands bs rest := by
  constructor
  · rintro (_ | ⟨hstands, hrest⟩)
    exact ⟨_, _, rfl, hstands, hrest⟩
  · rintro ⟨piece, rest, rfl, hstands, hrest⟩
    exact .cons hstands hrest

theorem append_iff : Spells stands (bs ++ bs') name ↔
    ∃ first rest, name = first ++ rest ∧ Spells stands bs first ∧ Spells stands bs' rest := by
  induction bs generalizing name with
  | nil =>
    constructor
    · intro h
      exact ⟨[], name, rfl, .nil, h⟩
    · rintro ⟨first, rest, rfl, hfirst, hrest⟩
      obtain rfl := nil_iff.mp hfirst
      exact hrest
  | cons b bs ih =>
    rw [List.cons_append, cons_iff]
    constructor
    · rintro ⟨piece, _, rfl, hpiece, hrest⟩
      obtain ⟨first, rest, rfl, hfirst, hrest⟩ := ih.mp hrest
      exact ⟨piece ++ first, rest, (List.append_assoc ..).symm, .cons hpiece hfirst, hrest⟩
    · rintro ⟨_, rest, rfl, hfirst, hrest⟩
      obtain ⟨piece, first, rfl, hpiece, hfirst⟩ := cons_iff.mp hfirst
      exact ⟨piece, first ++ rest, List.append_assoc .., hpiece, ih.mpr ⟨_, _, rfl, hfirst, hrest⟩⟩

theorem append {name' : List α} (h : Spells stands bs name) (h' : Spells stands bs' name') :
    Spells stands (bs ++ bs') (name ++ name') :=
  append_iff.mpr ⟨name, name', rfl, h, h'⟩

theorem map_iff {f : γ → β} {cs : List γ} :
    Spells stands (cs.map f) name ↔ Spells (fun c => stands (f c)) cs name := by
  induction cs generalizing name with
  | nil => exact nil_iff.trans nil_iff.symm
  | cons c cs ih => simp only [List.map_cons, cons_iff, ih]

theorem congr (h : ∀ b piece, stands b piece ↔ stands' b piece) :
    Spells stands bs name ↔ Spells stands' bs name := by
  obtain rfl : stands = stands' := by
    funext b piece
    exact propext (h b piece)
  rfl

end Spells

/-- A way to read patterns. -/
structure Reading (α : Type) where
  star : α
  questionMark : α
  /-- What a wildcard may stand for. -/
  free : α → Prop
  /-- What any other symbol stands for. -/
  like : α → α → Prop

namespace Reading

/-- What one symbol of a pattern stands for. -/
inductive Stands (r : Reading α) : α → List α → Prop
  | run {piece : List α} : (∀ x ∈ piece, r.free x) → r.Stands r.star piece
  | any {x : α} : r.free x → r.Stands r.questionMark [x]
  | itself {p x : α} : p ≠ r.star → p ≠ r.questionMark → r.like p x → r.Stands p [x]

/-- A pattern matches a whole name. -/
abbrev Matches (r : Reading α) (pattern name : List α) : Prop := Spells r.Stands pattern name

/-- Patterns over bytes: a wildcard does not stand for a separator, and the case of ASCII letters
does not count. -/
def bytes : Reading UInt8 where
  star := Pattern.star
  questionMark := Pattern.questionMark
  free b := b ≠ separator
  like p b := p.toAsciiLower = b.toAsciiLower

/-- Patterns over characters: a wildcard stands for any of them, and the case of ASCII letters does
not count. -/
def characters : Reading Char where
  star := '*'
  questionMark := '?'
  free _ := True
  like p c := p.toLower = c.toLower

end Reading

/-- An empty pattern is read as `*`. -/
def orStar (pattern : List Char) : List Char := if pattern = [] then ['*'] else pattern

end TreeOps.Pattern
