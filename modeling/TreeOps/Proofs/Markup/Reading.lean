import TreeOps.Markup.Event
import TreeOps.Proofs.Markup.Tokens

/-!
# Reading markup from the front

The events of a text are told by what it begins with: a stretch of data, a reference, a comment or a
tag is taken from the front, and the rest is read with the data and the open elements that result.
-/

namespace TreeOps.Markup

variable {names : List (List Char)} {data : Option (List Char)} {s t before after name : List Char}
  {c : Char}

/-- The events of a text inside open elements and behind data. -/
def eventsFrom (names : List (List Char)) (data : Option (List Char)) (s : List Char) :
    List Event :=
  eventsAfter names data (firstTokens s.length s)

theorem eventsFrom_first {token : Token} (hs : s ≠ []) (h : first? s = some (token, t)) :
    eventsFrom names data s = eventsAfter names data (token :: firstTokens t.length t) := by
  obtain ⟨c, s, rfl⟩ := List.exists_cons_of_ne_nil hs
  have hlt := first?_shorter hs h
  rw [List.length_cons] at hlt
  rw [eventsFrom, List.length_cons, firstTokens, h]
  · dsimp only
    rw [firstTokens_eq (Nat.le_of_lt_succ hlt) (Nat.le_refl _)]
  · exact List.cons_ne_nil c s

/-- Without a byte order mark, the events of a document are those of its characters. -/
theorem events_eq {s : String} (h : ∀ c ∈ s.toList.head?, c.toNat ≠ 0xFEFF) :
    events s = eventsFrom [] none s.toList := by
  rw [events, tokens, eventsFrom]
  generalize s.toList = chars at h
  cases chars with
  | nil => rfl
  | cons c rest => simp only [if_neg (h c rfl)]

theorem isBlank_iff : isBlank c ↔ c = ' ' ∨ c = '\t' ∨ c = '\r' ∨ c = '\n' := by
  simp [isBlank, or_assoc]

/-! ### Line ends -/

/-- A line end that is a single character as a line feed, and any other character as itself. -/
def uniform (c : Char) : Char := if isLineEnd c then '\n' else c

theorem uniformLines_cons (h : c ≠ '\r') (s : List Char) :
    uniformLines (c :: s) = uniform c :: uniformLines s := by
  rw [uniformLines]
  · rfl
  · exact h

theorem uniformLines_append (h : '\r' ∉ s) (t : List Char) :
    uniformLines (s ++ t) = s.map uniform ++ uniformLines t := by
  induction s with
  | nil => rfl
  | cons c s ih =>
    obtain ⟨hc, hs⟩ := List.ne_and_not_mem_of_not_mem_cons h
    rw [List.cons_append, uniformLines_cons hc.symm, ih hs, List.map_cons, List.cons_append]

/-- The characters that belong to the carriage return in front of them. -/
def JoinsReturn (c : Char) : Prop := c = '\n' ∨ c.toNat = 0x85

instance (c : Char) : Decidable (JoinsReturn c) := inferInstanceAs (Decidable (_ ∨ _))

theorem joinsReturn_iff : JoinsReturn c ↔ c = '\n' ∨ c = '\u0085' :=
  or_congr_right (Char.toNat_inj (c := c) (d := '\u0085'))

/-- Markup does not belong to a carriage return in front of it. -/
theorem not_joinsReturn_markup (s : List Char) : ∀ c ∈ ('<' :: s).head?, ¬JoinsReturn c := by
  simp [JoinsReturn]

theorem uniformLines_pair (h : JoinsReturn c) (s : List Char) :
    uniformLines ('\r' :: c :: s) = '\n' :: uniformLines s := by
  rw [uniformLines]
  exact congrArg _ (if_pos h)

theorem uniformLines_return (h : ∀ c ∈ s.head?, ¬JoinsReturn c) :
    uniformLines ('\r' :: s) = '\n' :: uniformLines s := by
  cases s with
  | nil => rfl
  | cons c s =>
    rw [uniformLines]
    exact congrArg _ (if_neg (h c rfl))

/-- Lines are taken character by character, but a carriage return with what belongs to it. -/
theorem lines_induction {motive : List Char → Prop} (nil : motive [])
    (char : ∀ c s, c ≠ '\r' → motive s → motive (c :: s))
    (pair : ∀ c s, JoinsReturn c → motive s → motive ('\r' :: c :: s))
    (lone : ∀ s, (∀ c ∈ s.head?, ¬JoinsReturn c) → motive s → motive ('\r' :: s))
    (s : List Char) : motive s := by
  induction s using uniformLines.induct with
  | case1 => exact nil
  | case2 rest ih =>
    cases rest with
    | nil => exact lone [] (by simp) nil
    | cons c more =>
      by_cases hc : JoinsReturn c
      · exact pair c more hc ih.1
      · exact lone (c :: more) (by simpa using hc) ih.2
  | case3 c rest hc ih => exact char c rest hc ih

/-- Line ends in front of what does not belong to them are made uniform on their own. -/
theorem uniformLines_append_of_head (h : ∀ c ∈ t.head?, ¬JoinsReturn c) (s : List Char) :
    uniformLines (s ++ t) = uniformLines s ++ uniformLines t := by
  induction s using lines_induction with
  | nil => rfl
  | char c s hc ih =>
    rw [List.cons_append, uniformLines_cons hc, uniformLines_cons hc, ih, List.cons_append]
  | pair c s hc ih =>
    rw [List.cons_append, List.cons_append, uniformLines_pair hc, uniformLines_pair hc, ih,
      List.cons_append]
  | lone s hs ih =>
    have happend : ∀ c ∈ (s ++ t).head?, ¬JoinsReturn c := by
      cases s with
      | nil => exact h
      | cons c s => exact hs
    rw [List.cons_append, uniformLines_return happend, uniformLines_return hs, ih,
      List.cons_append]

/-- Uniform line ends are blanks where line ends were. -/
theorem isBlank_of_mem_uniformLines (h : ∀ c ∈ s, isBlank c) : ∀ c ∈ uniformLines s, isBlank c := by
  induction s using lines_induction with
  | nil => exact h
  | char c s hc ih =>
    obtain ⟨hblank, hs⟩ := List.forall_mem_cons.mp h
    rw [uniformLines_cons hc]
    refine List.forall_mem_cons.mpr ⟨?_, ih hs⟩
    unfold uniform
    split
    · rfl
    · exact hblank
  | pair c s hc ih =>
    rw [uniformLines_pair hc]
    exact List.forall_mem_cons.mpr ⟨rfl, ih fun d hd => h d (by simp [hd])⟩
  | lone s hs ih =>
    rw [uniformLines_return hs]
    exact List.forall_mem_cons.mpr ⟨rfl, ih fun d hd => h d (by simp [hd])⟩

/-! ### Data -/

/-- What stands in data without beginning markup or a reference. -/
def isText (c : Char) : Bool := c != '<' && c != '&'

theorem first?_text (hc : isText c) (s : List Char) :
    first? (c :: s) = some (.text (c :: s.takeWhile isText), s.dropWhile isText) := by
  have hlt : c ≠ '<' := by rintro rfl; cases hc
  have hamp : c ≠ '&' := by rintro rfl; cases hc
  rw [first?]
  · rw [← List.takeWhile_cons_of_pos hc, ← List.dropWhile_cons_of_pos hc]
    rfl
  · simpa using hlt
  · simpa using hamp

/-- Text is data, up to any place that does not part a line end. -/
theorem eventsFrom_text (hs : s.all isText) (hne : s ≠ [])
    (hparted : uniformLines (s ++ t.takeWhile isText) =
      uniformLines s ++ uniformLines (t.takeWhile isText)) :
    eventsFrom names data (s ++ t) =
      eventsFrom names (some (data.getD [] ++ uniformLines s)) t := by
  obtain ⟨c, s, rfl⟩ := List.exists_cons_of_ne_nil hne
  obtain ⟨hc, hrest⟩ := List.forall_mem_cons.mp (List.all_eq_true.mp hs)
  rw [List.cons_append, eventsFrom_first (List.cons_ne_nil _ _) (first?_text hc _),
    List.takeWhile_append_of_pos hrest, List.dropWhile_append_of_pos hrest, eventsAfter,
    ← List.cons_append, hparted]
  cases t with
  | nil => simp [uniformLines, eventsFrom]
  | cons d t =>
    by_cases hd : isText d
    · rw [eventsFrom_first (List.cons_ne_nil _ _) (first?_text hd t), eventsAfter,
        List.takeWhile_cons_of_pos hd, List.dropWhile_cons_of_pos hd, Option.getD_some,
        List.append_assoc]
    · rw [List.takeWhile_cons_of_neg hd, List.dropWhile_cons_of_neg hd, uniformLines,
        List.append_nil, eventsFrom]

theorem eventsFrom_char (hc : isText c) (hreturn : c ≠ '\r') :
    eventsFrom names data (c :: s) = eventsFrom names (some (data.getD [] ++ [uniform c])) s := by
  have hline : uniformLines [c] = [uniform c] := uniformLines_cons hreturn []
  rw [← List.singleton_append, eventsFrom_text (by simpa using hc) (List.cons_ne_nil c []), hline]
  rw [hline, List.singleton_append, uniformLines_cons hreturn, List.singleton_append]

theorem eventsFrom_pair (hc : JoinsReturn c) :
    eventsFrom names data ('\r' :: c :: s) =
      eventsFrom names (some (data.getD [] ++ ['\n'])) s := by
  have hline : uniformLines ['\r', c] = ['\n'] := uniformLines_pair hc []
  have htext : ['\r', c].all isText := by
    obtain rfl | rfl := joinsReturn_iff.mp hc <;> decide
  change eventsFrom names data (['\r', c] ++ s) = _
  rw [eventsFrom_text htext (List.cons_ne_nil _ _), hline]
  rw [hline]
  exact uniformLines_pair hc _

theorem eventsFrom_return (h : ∀ c ∈ s.head?, ¬JoinsReturn c) :
    eventsFrom names data ('\r' :: s) = eventsFrom names (some (data.getD [] ++ ['\n'])) s := by
  have hline : uniformLines ['\r'] = ['\n'] := uniformLines_return (by simp)
  have htaken : ∀ c ∈ (s.takeWhile isText).head?, ¬JoinsReturn c := by
    intro c hc
    rw [List.head?_takeWhile] at hc
    exact h c (Option.filter_eq_some_iff.mp hc).1
  change eventsFrom names data (['\r'] ++ s) = _
  rw [eventsFrom_text (by decide) (List.cons_ne_nil _ _), hline]
  rw [hline]
  exact uniformLines_return htaken

/-! ### References -/

theorem eventsFrom_reference (name : List Char)
    (hname : name.all fun d => !(d = ';' || d = '&' || d = '<'))
    (h : referenced? name = some c) :
    eventsFrom names data ('&' :: (name ++ ';' :: s)) =
      eventsFrom names (some (data.getD [] ++ [c])) s := by
  have hnames := List.all_eq_true.mp hname
  have hread : first? ('&' :: (name ++ ';' :: s)) = some (.reference name, s) := by
    rw [first?, reference?]
    dsimp only
    rw [List.dropWhile_append_of_pos hnames, List.takeWhile_append_of_pos hnames]
    simp
  rw [eventsFrom_first (List.cons_ne_nil _ _) hread, eventsAfter, h]
  rfl

/-! ### Marks -/

/-- A mark is found where it stands, if it does not stand further in front. -/
theorem splitAt?_append {mark : List Char} (hmark : mark ≠ [])
    (h : ∀ front back, before = front ++ back → back ≠ [] → ¬mark <+: back ++ mark ++ after) :
    splitAt? mark (before ++ mark ++ after) = some (before, after) := by
  induction before with
  | nil =>
    obtain ⟨c, mark, rfl⟩ := List.exists_cons_of_ne_nil hmark
    rw [List.nil_append, List.cons_append, splitAt?, ← List.cons_append, if_pos (by simp),
      List.drop_left]
  | cons c before ih =>
    have hfirst := h [] (c :: before) rfl (List.cons_ne_nil c before)
    have hrest := ih fun front back heq hne => h (c :: front) back (by rw [heq]; rfl) hne
    rw [List.cons_append, List.cons_append, splitAt?, if_neg, hrest]
    · rfl
    · rw [List.isPrefixOf_iff_prefix]
      exact hfirst

/-- A text that can stand in a comment: dashes stand alone in it and do not end it. -/
def IsComment (s : List Char) : Prop := ¬['-', '-'] <:+: s ++ ['-']

instance (s : List Char) : Decidable (IsComment s) := inferInstanceAs (Decidable ¬_)

/-- Lines without two dashes in a row make up a comment. -/
theorem isComment_lines {lines : List String}
    (h : ∀ line ∈ lines, ¬['-', '-'] <:+: line.toList) :
    IsComment (lines.flatMap fun line => line.toList ++ ['\n']) := by
  induction lines with
  | nil => decide
  | cons line lines ih =>
    obtain ⟨hline, hlines⟩ := List.forall_mem_cons.mp h
    have hrest := ih hlines
    rw [IsComment, List.flatMap_cons, List.append_assoc, List.append_assoc, List.singleton_append,
      List.infix_append_iff]
    -- the line feed parts what stands in front of it from what follows
    rintro (hfront | hback | ⟨front, back, hdashes, hfront, hback⟩)
    · exact hline hfront
    · exact hrest ((List.infix_cons_iff.mp hback).resolve_left (by simp))
    · cases back with
      | nil =>
        rw [List.append_nil] at hdashes
        exact hline (hdashes ▸ hfront.isInfix)
      | cons d back =>
        obtain ⟨rfl, -⟩ := List.cons_prefix_cons.mp hback
        have hfeed : '\n' ∈ ['-', '-'] := hdashes ▸ by simp
        exact absurd hfeed (by decide)

theorem eventsFrom_comment (h : IsComment t) :
    eventsFrom names data ('<' :: '!' :: '-' :: '-' :: (t ++ ['-', '-', '>'] ++ s)) =
      eventsFrom names data s := by
  have hsplit : splitAt? ['-', '-', '>'] (t ++ ['-', '-', '>'] ++ s) = some (t, s) := by
    refine splitAt?_append (by decide) fun front back heq hne hmark => ?_
    obtain ⟨c, back, rfl⟩ := List.exists_cons_of_ne_nil hne
    obtain ⟨rfl, hsecond⟩ := List.cons_prefix_cons.mp hmark
    cases back with
    | nil => exact h ⟨front, [], by simp [heq]⟩
    | cons d back =>
      obtain ⟨rfl, -⟩ := List.cons_prefix_cons.mp hsecond
      exact h ⟨front, back ++ ['-'], by simp [heq]⟩
  have hbody : dropKeyword? "--" ('-' :: '-' :: (t ++ ['-', '-', '>'] ++ s)) =
      some (t ++ ['-', '-', '>'] ++ s) := rfl
  have hread : first? ('<' :: '!' :: '-' :: '-' :: (t ++ ['-', '-', '>'] ++ s)) =
      some (.comment, s) := by
    rw [first?, markup?, comment?, hbody, Option.bind_eq_bind, Option.bind_some, hsplit]
    rfl
  rw [eventsFrom_first (List.cons_ne_nil _ _) hread, eventsAfter, eventsFrom]

/-! ### Tags -/

/-- Letters, digits and the underscore. -/
def isNameChar (c : Char) : Bool := c.isAlphanum || c = '_'

/-- A tag that is a name of letters, digits and underscores. -/
def IsPlainTag (name : List Char) : Prop := name.all isNameChar = true

instance (name : List Char) : Decidable (IsPlainTag name) :=
  inferInstanceAs (Decidable (_ = true))

namespace IsPlainTag

theorem ne_of_mem (h : IsPlainTag name) {d : Char} (hd : isNameChar d = false)
    (hc : c ∈ name) : c ≠ d := by
  rintro rfl
  rw [List.all_eq_true.mp h c hc] at hd
  cases hd

theorem isBlank_of_mem (h : IsPlainTag name) (hc : c ∈ name) : isBlank c = false := by
  have hspace : c ≠ ' ' := h.ne_of_mem (by decide) hc
  have htab : c ≠ '\t' := h.ne_of_mem (by decide) hc
  have hreturn : c ≠ '\r' := h.ne_of_mem (by decide) hc
  have hfeed : c ≠ '\n' := h.ne_of_mem (by decide) hc
  simp [isBlank, hspace, htab, hreturn, hfeed]

theorem tagName_eq (h : IsPlainTag name) : tagName name = name := by
  rw [tagName, ← List.append_nil name,
    List.takeWhile_append_of_pos fun c hc => by rw [h.isBlank_of_mem hc]; rfl]
  rfl

theorem tagAttributes_eq (h : IsPlainTag name) : tagAttributes name = [] := by
  rw [tagAttributes, ← List.append_nil name,
    List.dropWhile_append_of_pos fun c hc => by rw [h.isBlank_of_mem hc]; rfl]
  rfl

theorem splitTag?_append (h : IsPlainTag name) (s : List Char) :
    splitTag? none (name ++ '>' :: s) = some (name, s) := by
  induction name with
  | nil => rfl
  | cons c name ih =>
    have hrest : IsPlainTag name :=
      List.all_eq_true.mpr (List.forall_mem_cons.mp (List.all_eq_true.mp h)).2
    have hend : c ≠ '>' := h.ne_of_mem (by decide) List.mem_cons_self
    have hquotes : ¬(c = '"' ∨ c = '\'') :=
      not_or.mpr ⟨h.ne_of_mem (by decide) List.mem_cons_self,
        h.ne_of_mem (by decide) List.mem_cons_self⟩
    rw [List.cons_append, splitTag?, if_neg (by simp [hend])]
    simp [hquotes, ih hrest]

theorem first?_opening (h : IsPlainTag name) (s : List Char) :
    first? ('<' :: (name ++ '>' :: s)) = some (.opening name, s) := by
  have hslash : name.getLast? ≠ some '/' := fun hlast =>
    h.ne_of_mem (d := '/') (by decide) (List.mem_of_getLast? hlast) rfl
  have hmarkup : markup? (name ++ '>' :: s) = opening? (name ++ '>' :: s) := by
    cases name with
    | nil => rfl
    | cons c name =>
      have hhead (d : Char) (hd : isNameChar d = false) (front back : List Char) :
          c :: front ≠ d :: back :=
        fun heq => h.ne_of_mem hd List.mem_cons_self (List.cons.inj heq).1
      rw [List.cons_append, markup?]
      all_goals exact fun _ => hhead _ (by decide) _ _
  rw [first?, hmarkup, opening?, h.splitTag?_append, Option.map_some]
  exact congrArg (fun token => some (token, s)) (if_neg hslash)

theorem first?_closing (h : IsPlainTag name) (s : List Char) :
    first? ('<' :: '/' :: (name ++ '>' :: s)) = some (.closing name, s) := by
  have hsplit : splitAt? ['>'] (name ++ ['>'] ++ s) = some (name, s) := by
    refine splitAt?_append (List.cons_ne_nil _ _) fun front back heq hne hmark => ?_
    obtain ⟨c, back, rfl⟩ := List.exists_cons_of_ne_nil hne
    obtain ⟨rfl, -⟩ := List.cons_prefix_cons.mp hmark
    exact h.ne_of_mem (d := '>') (by decide) (by simp [heq]) rfl
  have htrim : name.reverse.dropWhile isBlank = name.reverse := by
    cases hreverse : name.reverse with
    | nil => rfl
    | cons c back =>
      have hc : c ∈ name := List.mem_reverse.mp (hreverse ▸ List.mem_cons_self)
      rw [List.dropWhile_cons, h.isBlank_of_mem hc, if_neg Bool.false_ne_true]
  rw [List.append_assoc, List.singleton_append] at hsplit
  rw [first?, markup?, closing?, hsplit, Option.map_some]
  dsimp only
  rw [htrim, List.reverse_reverse]

end IsPlainTag

theorem eventsFrom_opening (hname : IsPlainTag name) :
    eventsFrom names data ('<' :: (name ++ '>' :: s)) =
      flush data ++ .start name :: eventsFrom (name :: names) none s := by
  rw [eventsFrom_first (List.cons_ne_nil _ _) (hname.first?_opening s), eventsAfter,
    hname.tagName_eq, eventsFrom]

theorem eventsFrom_closing (hname : IsPlainTag name) :
    eventsFrom (name :: names) data ('<' :: '/' :: (name ++ '>' :: s)) =
      flush data ++ .finish :: eventsFrom names none s := by
  rw [eventsFrom_first (List.cons_ne_nil _ _) (hname.first?_closing s), eventsAfter, if_pos rfl,
    eventsFrom]

end TreeOps.Markup
