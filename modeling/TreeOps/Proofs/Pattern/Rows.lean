import TreeOps.Proofs.Pattern.Meaning

/-!
# Rows tell what tokens match

A token stands for pieces of a name. The row of a list of tokens says of each end piece of a name
whether the tokens can be spelled out in it, and one more token in front keeps that true. So
matching by rows finds a way to cut the name whenever there is one.
-/

namespace TreeOps.Pattern

/-- What a token stands for. -/
inductive Token.Stands : Token → Bytes → Prop
  | byte {b c : UInt8} : foldByte c = foldByte b → Stands (.byte b) [c]
  | any {c : UInt8} : c ≠ separator → Stands .any [c]
  | run {piece : Bytes} : separator ∉ piece → Stands .run piece
  | nothingAbove : Stands .treeAbove []
  | treeAbove (piece : Bytes) : Stands .treeAbove (piece ++ [separator])
  | treeBelow (piece : Bytes) : Stands .treeBelow (separator :: piece)
  | nothingBetween : Stands .treeBetween [separator]
  | treeBetween (piece : Bytes) : Stands .treeBetween (separator :: piece ++ [separator])

/-- A row tells of each end piece of a name whether a condition holds. -/
def Tells (holds : Bytes → Prop) : Bytes → List Bool → Prop
  | [], row => ∃ b, row = [b] ∧ (b = true ↔ holds [])
  | c :: cs, row =>
    ∃ b rest, row = b :: rest ∧ (b = true ↔ holds (c :: cs)) ∧ Tells holds cs rest

namespace Tells

variable {holds holds' : Bytes → Prop} {name : Bytes} {row row' : List Bool}

theorem atStart (h : Tells holds name row) : atStart row = true ↔ holds name := by
  cases name with
  | nil =>
    obtain ⟨b, rfl, hb⟩ := h
    exact hb
  | cons c cs =>
    obtain ⟨b, rest, rfl, hb, -⟩ := h
    exact hb

theorem congr (hiff : ∀ piece, holds piece ↔ holds' piece) (h : Tells holds name row) :
    Tells holds' name row := by
  obtain rfl : holds = holds' := funext fun piece => propext (hiff piece)
  exact h

theorem emptyRow : Tells (· = []) name (emptyRow name) := by
  induction name with
  | nil => exact ⟨true, rfl, by simp⟩
  | cons c cs ih => exact ⟨false, _, rfl, by simp, ih⟩

theorem either (h : Tells holds name row) (h' : Tells holds' name row') :
    Tells (fun piece => holds piece ∨ holds' piece) name (either row row') := by
  induction name generalizing row row' with
  | nil =>
    obtain ⟨b, rfl, hb⟩ := h
    obtain ⟨b', rfl, hb'⟩ := h'
    exact ⟨b || b', rfl, by rw [Bool.or_eq_true, hb, hb']⟩
  | cons c cs ih =>
    obtain ⟨b, rest, rfl, hb, hrest⟩ := h
    obtain ⟨b', rest', rfl, hb', hrest'⟩ := h'
    exact ⟨b || b', _, rfl, by rw [Bool.or_eq_true, hb, hb'], ih hrest hrest'⟩

/-- A byte, and the condition behind it. -/
theorem behindByte (accepts : UInt8 → Bool) (h : Tells holds name row) :
    Tells (fun piece => ∃ c rest, piece = c :: rest ∧ accepts c = true ∧ holds rest) name
      (behindByte accepts name row) := by
  induction name generalizing row with
  | nil => exact ⟨false, rfl, by simp⟩
  | cons c cs ih =>
    obtain ⟨b, rest, rfl, -, hrest⟩ := h
    refine ⟨_, _, rfl, ?_, ih hrest⟩
    rw [Bool.and_eq_true, hrest.atStart]
    constructor
    · exact fun ⟨hc, hcs⟩ => ⟨c, cs, rfl, hc, hcs⟩
    · rintro ⟨_, _, ⟨⟩, hc, hcs⟩
      exact ⟨hc, hcs⟩

/-- Any run of bytes, and the condition behind it. -/
theorem somewhere (h : Tells holds name row) :
    Tells (fun piece => ∃ run rest, piece = run ++ rest ∧ holds rest) name (somewhere row) := by
  induction name generalizing row with
  | nil =>
    obtain ⟨b, rfl, hb⟩ := h
    refine ⟨b || false, rfl, ?_⟩
    rw [Bool.or_false, hb]
    constructor
    · exact fun h => ⟨[], [], rfl, h⟩
    · rintro ⟨run, rest, hcut, h⟩
      obtain ⟨-, rfl⟩ := List.append_eq_nil_iff.mp hcut.symm
      exact h
  | cons c cs ih =>
    obtain ⟨b, rest, rfl, hb, hrest⟩ := h
    have hbelow := ih hrest
    refine ⟨_, _, rfl, ?_, hbelow⟩
    rw [Bool.or_eq_true, hb, hbelow.atStart]
    constructor
    · rintro (h | ⟨run, rest, rfl, h⟩)
      · exact ⟨[], _, rfl, h⟩
      · exact ⟨c :: run, rest, rfl, h⟩
    · rintro ⟨run, rest, hcut, h⟩
      cases run with
      | nil => exact .inl (hcut ▸ h)
      | cons d run =>
        obtain ⟨-, rfl⟩ := List.cons.inj hcut
        exact .inr ⟨run, rest, rfl, h⟩

/-- A run without separators, and the condition behind it. -/
theorem behindRun (h : Tells holds name row) :
    Tells (fun piece => ∃ run rest, piece = run ++ rest ∧ separator ∉ run ∧ holds rest) name
      (behindRun name row) := by
  induction name generalizing row with
  | nil =>
    obtain ⟨b, rfl, hb⟩ := h
    refine ⟨b, rfl, hb.trans ⟨fun h => ⟨[], [], rfl, List.not_mem_nil, h⟩, ?_⟩⟩
    rintro ⟨run, rest, hcut, -, h⟩
    obtain ⟨-, rfl⟩ := List.append_eq_nil_iff.mp hcut.symm
    exact h
  | cons c cs ih =>
    obtain ⟨b, rest, rfl, hb, hrest⟩ := h
    have hbelow := ih hrest
    refine ⟨_, _, rfl, ?_, hbelow⟩
    rw [Bool.or_eq_true, hb, Bool.and_eq_true, hbelow.atStart, bne_iff_ne]
    constructor
    · rintro (h | ⟨hc, run, rest, rfl, hrun, h⟩)
      · exact ⟨[], _, rfl, List.not_mem_nil, h⟩
      · exact ⟨c :: run, rest, rfl, by simp [Ne.symm hc, hrun], h⟩
    · rintro ⟨run, rest, hcut, hrun, h⟩
      cases run with
      | nil => exact .inl (hcut ▸ h)
      | cons d run =>
        obtain ⟨rfl, rfl⟩ := List.cons.inj hcut
        rw [List.mem_cons, not_or] at hrun
        exact .inr ⟨Ne.symm hrun.1, run, rest, rfl, hrun.2, h⟩

/-- A separator with anything in front of it, and the condition behind it. -/
theorem behindSeparator (h : Tells holds name row) :
    Tells (fun piece => ∃ run rest, piece = run ++ separator :: rest ∧ holds rest) name
      (behindSeparator name row) := by
  induction name generalizing row with
  | nil => exact ⟨false, rfl, by simp⟩
  | cons c cs ih =>
    obtain ⟨b, rest, rfl, -, hrest⟩ := h
    have hbelow := ih hrest
    refine ⟨_, _, rfl, ?_, hbelow⟩
    rw [Bool.or_eq_true, Bool.and_eq_true, beq_iff_eq, hrest.atStart, hbelow.atStart]
    constructor
    · rintro (⟨rfl, h⟩ | ⟨run, rest, rfl, h⟩)
      · exact ⟨[], _, rfl, h⟩
      · exact ⟨c :: run, rest, rfl, h⟩
    · rintro ⟨run, rest, hcut, h⟩
      cases run with
      | nil =>
        obtain ⟨rfl, rfl⟩ := List.cons.inj hcut
        exact .inl ⟨rfl, h⟩
      | cons d run =>
        obtain ⟨-, rfl⟩ := List.cons.inj hcut
        exact .inr ⟨run, rest, rfl, h⟩

/-- One more token in front. -/
theorem cons {ts : List Token} (t : Token) (h : Tells (Spells Token.Stands ts) name row) :
    Tells (Spells Token.Stands (t :: ts)) name (t.row name row) := by
  cases t with
  | byte b =>
    refine (h.behindByte fun c => foldByte c == foldByte b).congr fun piece => ?_
    rw [Spells.cons_iff]
    constructor
    · rintro ⟨c, rest, rfl, hc, hrest⟩
      exact ⟨[c], rest, rfl, .byte (eq_of_beq hc), hrest⟩
    · rintro ⟨_, rest, rfl, hc, hrest⟩
      cases hc with
      | byte hc => exact ⟨_, rest, rfl, beq_iff_eq.mpr hc, hrest⟩
  | any =>
    refine (h.behindByte (· != separator)).congr fun piece => ?_
    rw [Spells.cons_iff]
    constructor
    · rintro ⟨c, rest, rfl, hc, hrest⟩
      exact ⟨[c], rest, rfl, .any (bne_iff_ne.mp hc), hrest⟩
    · rintro ⟨_, rest, rfl, hc, hrest⟩
      cases hc with
      | any hc => exact ⟨_, rest, rfl, bne_iff_ne.mpr hc, hrest⟩
  | run =>
    refine h.behindRun.congr fun piece => ?_
    rw [Spells.cons_iff]
    constructor
    · rintro ⟨run, rest, rfl, hrun, hrest⟩
      exact ⟨run, rest, rfl, .run hrun, hrest⟩
    · rintro ⟨_, rest, rfl, hrun, hrest⟩
      cases hrun with
      | run hrun => exact ⟨_, rest, rfl, hrun, hrest⟩
  | treeAbove =>
    refine (h.either h.behindSeparator).congr fun piece => ?_
    rw [Spells.cons_iff]
    constructor
    · rintro (hrest | ⟨run, rest, rfl, hrest⟩)
      · exact ⟨[], piece, rfl, .nothingAbove, hrest⟩
      · exact ⟨run ++ [separator], rest, by simp, .treeAbove run, hrest⟩
    · rintro ⟨_, rest, rfl, hpiece, hrest⟩
      cases hpiece with
      | nothingAbove => exact .inl hrest
      | treeAbove run => exact .inr ⟨run, rest, by simp, hrest⟩
  | treeBelow =>
    refine (h.somewhere.behindByte (· == separator)).congr fun piece => ?_
    rw [Spells.cons_iff]
    constructor
    · rintro ⟨c, _, rfl, hc, run, rest, rfl, hrest⟩
      obtain rfl := eq_of_beq hc
      exact ⟨_ :: run, rest, rfl, .treeBelow run, hrest⟩
    · rintro ⟨_, rest, rfl, hpiece, hrest⟩
      cases hpiece with
      | treeBelow run => exact ⟨_, _, rfl, beq_self_eq_true _, run, rest, rfl, hrest⟩
  | treeBetween =>
    refine ((h.either h.behindSeparator).behindByte (· == separator)).congr fun piece => ?_
    rw [Spells.cons_iff]
    constructor
    · rintro ⟨c, _, rfl, hc, hrest | ⟨run, rest, rfl, hrest⟩⟩
      · obtain rfl := eq_of_beq hc
        exact ⟨[_], _, rfl, .nothingBetween, hrest⟩
      · obtain rfl := eq_of_beq hc
        exact ⟨_, rest, by simp, .treeBetween run, hrest⟩
    · rintro ⟨_, rest, rfl, hpiece, hrest⟩
      cases hpiece with
      | nothingBetween => exact ⟨_, rest, rfl, beq_self_eq_true _, .inl hrest⟩
      | treeBetween run =>
        exact ⟨_, _, by simp, beq_self_eq_true _, .inr ⟨run, rest, rfl, hrest⟩⟩

/-- The row of a list of tokens tells where they match. -/
theorem rows (ts : List Token) (name : Bytes) :
    Tells (Spells Token.Stands ts) name
      (ts.foldr (fun t row => t.row name row) (Pattern.emptyRow name)) := by
  induction ts with
  | nil => exact emptyRow.congr fun piece => Spells.nil_iff.symm
  | cons t ts ih => exact ih.cons t

end Tells

/-- Tokens match a name that they can be spelled out in; two stars on their own match every name. -/
theorem matchTokens_iff {ts : List Token} {name : Bytes} :
    matchTokens ts name = true ↔ ts = [.treeAbove] ∨ Spells Token.Stands ts name := by
  rw [matchTokens, Bool.or_eq_true, beq_iff_eq, (Tells.rows ts name).atStart]

end TreeOps.Pattern
