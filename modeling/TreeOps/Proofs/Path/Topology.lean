import TreeOps.Path.Topology
import TreeOps.Proofs.Path.Lookup

/-!
# Places apart

Two places are apart if neither is at or below the other. What is below one of them is apart from
what is below the other. Paths that are apart up to case have places apart, since a prefix stays a
prefix when components are folded.
-/

namespace TreeOps

/-- Neither of two places is at or below the other. -/
def Apart {α : Type} (a b : List α) : Prop := ¬a <+: b ∧ ¬b <+: a

instance {α : Type} [DecidableEq α] (a b : List α) : Decidable (Apart a b) :=
  inferInstanceAs (Decidable (¬a <+: b ∧ ¬b <+: a))

namespace Apart

variable {α : Type} {a b : List α}

theorem symm (h : Apart a b) : Apart b a := ⟨h.2, h.1⟩

theorem append (h : Apart a b) (way way' : List α) : Apart (a ++ way) (b ++ way') := by
  have hle {a b way way' : List α} (h : ¬a <+: b) (h' : ¬b <+: a) : ¬a ++ way <+: b ++ way' := by
    intro hp
    have ha : a <+: b ++ way' := (List.prefix_append a way).trans hp
    rcases List.prefix_or_prefix_of_prefix ha (List.prefix_append b way') with hab | hba
    · exact h hab
    · exact h' hba
  exact ⟨hle h.1 h.2, hle h.2 h.1⟩

theorem below (h : Apart a b) (way : List α) : Apart (a ++ way) b := by
  simpa using h.append way []

/-- What lies at or below one of them does not lie at or below the other. -/
theorem not_below {c : List α} (h : Apart a b) (hb : b <+: c) : ¬a <+: c := fun ha =>
  (List.prefix_or_prefix_of_prefix ha hb).elim h.1 h.2

theorem children {place : Place} {b b' : Bytes} (h : b ≠ b') :
    Apart (place ++ [.name b]) (place ++ [.name b']) := by
  have hle {b b' : Bytes} (h : b ≠ b') : ¬place ++ [.name b] <+: place ++ [Component.name b'] := by
    rw [List.prefix_append_right_inj]
    intro hp
    have heq := hp.eq_of_length rfl
    exact h (by simpa using heq)
  exact ⟨hle h, hle h.symm⟩

end Apart

namespace Path

theorem foldedComponents_mono {p q : Path} (h : p.components <+: q.components) :
    p.foldedComponents <+: q.foldedComponents :=
  (h.filter _).map _

/-- Paths that are apart up to case have places apart. -/
theorem apart {p q : Path} (h : Apart p.foldedComponents q.foldedComponents) :
    Apart p.components q.components :=
  ⟨fun hp => h.1 (foldedComponents_mono hp), fun hp => h.2 (foldedComponents_mono hp)⟩

theorem samePlace_eq_false {p q : Path} (h : Apart p.foldedComponents q.foldedComponents) :
    p.samePlace q = false := by
  rw [samePlace, beq_eq_false_iff_ne]
  intro he
  exact h.1 (he ▸ List.prefix_refl _)

theorem isWithin_eq_false {p q : Path} (h : Apart p.foldedComponents q.foldedComponents) :
    p.isWithin q = false := by
  rw [isWithin, Bool.and_eq_false_iff]
  exact .inr (Bool.eq_false_iff.mpr fun hp => h.2 (List.isPrefixOf_iff_prefix.mp hp))

theorem not_prefix_of_isWithin_eq_false {p q : Path} (hsame : p.samePlace q = false)
    (hwithin : q.isWithin p = false) : ¬p.foldedComponents <+: q.foldedComponents := by
  intro hpre
  by_cases hlen : p.foldedComponents.length = q.foldedComponents.length
  · rw [samePlace, hpre.eq_of_length hlen, beq_self_eq_true] at hsame
    cases hsame
  · have hlt := Nat.lt_of_le_of_ne hpre.length_le hlen
    rw [isWithin, List.isPrefixOf_iff_prefix.mpr hpre, Bool.and_true, decide_eq_false_iff_not]
      at hwithin
    exact hwithin hlt

theorem samePlace_comm (p q : Path) : p.samePlace q = q.samePlace p := by
  rw [samePlace, samePlace, Bool.eq_iff_iff, beq_iff_eq, beq_iff_eq, eq_comm]

end Path

end TreeOps
