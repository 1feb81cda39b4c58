import TreeOps.Proofs.Config.Fields
import TreeOps.Proofs.Config.Layout

/-!
# Settings are read back from their written form

In every layout, settings come back as they were written, up to the line ends in the name of a log
file: nothing but blanks is read around the elements, and each element adds its field to the draft,
in whatever order they come.
-/

namespace TreeOps.Config

open Markup (JoinsReturn eventsFrom flush isText uniform uniformLines)

variable {c : Config} {field : Field} {seen : List Field} {names : List (List Char)}
  {data : Option (List Char)} {s t : List Char}

/-! ### Escaped data -/

/-- Characters as they are written in data. -/
def escapedChars (s : List Char) : List Char := s.flatMap fun d => (escapedChar d).toList

theorem toList_escaped (s : String) : (escaped s).toList = escapedChars s.toList := by
  rw [escaped, String.toList_join, List.flatMap_map, escapedChars]

theorem escapedChars_append (s t : List Char) :
    escapedChars (s ++ t) = escapedChars s ++ escapedChars t := List.flatMap_append

/-- The characters that are written otherwise. -/
def isEscaped (d : Char) : Bool := d = '&' || d = '<' || d = '>' || d = '"' || d = '\''

theorem isEscaped_iff {d : Char} :
    isEscaped d ↔ d = '&' ∨ d = '<' ∨ d = '>' ∨ d = '"' ∨ d = '\'' := by
  simp [isEscaped, or_assoc]

theorem toList_escapedChar {d : Char} (h : isEscaped d = false) : (escapedChar d).toList = [d] := by
  unfold escapedChar
  split
  iterate 5 cases h
  exact String.toList_ofList

theorem head?_escapedChar (d : Char) :
    (escapedChar d).toList.head? = some (if isEscaped d then '&' else d) := by
  cases h : isEscaped d with
  | false => rw [toList_escapedChar h]; rfl
  | true =>
    obtain rfl | rfl | rfl | rfl | rfl := isEscaped_iff.mp h <;> decide

/-- A character of data is read back. -/
theorem eventsFrom_escapedChar {d : Char} (h : d ≠ '\r') :
    eventsFrom names data ((escapedChar d).toList ++ t) =
      eventsFrom names (some (data.getD [] ++ [uniform d])) t := by
  cases hd : isEscaped d with
  | false =>
    have htext : isText d := by
      simp [isEscaped] at hd
      simp [isText, hd]
    rw [toList_escapedChar hd]
    exact Markup.eventsFrom_char htext h
  | true =>
    obtain rfl | rfl | rfl | rfl | rfl := isEscaped_iff.mp hd
    · exact Markup.eventsFrom_reference "amp".toList (by decide) (by decide)
    · exact Markup.eventsFrom_reference "lt".toList (by decide) (by decide)
    · exact Markup.eventsFrom_reference "gt".toList (by decide) (by decide)
    · exact Markup.eventsFrom_reference "quot".toList (by decide) (by decide)
    · exact Markup.eventsFrom_reference "apos".toList (by decide) (by decide)

/-- Data that has grown by a text. -/
def grown (data : Option (List Char)) (s : List Char) : Option (List Char) :=
  if s = [] then data else some (data.getD [] ++ uniformLines s)

theorem grown_cons (data : Option (List Char)) (d : Char) (s : List Char) :
    grown data (d :: s) = some (data.getD [] ++ uniformLines (d :: s)) :=
  if_neg (List.cons_ne_nil d s)

theorem grown_some (d s : List Char) : grown (some d) s = some (d ++ uniformLines s) := by
  cases s with
  | nil => simp [grown, uniformLines]
  | cons c s => exact grown_cons (some d) c s

/-- Data that is written is read back, with uniform lines. -/
theorem eventsFrom_escaped (ht : ∀ d ∈ t.head?, ¬JoinsReturn d) (s : List Char) :
    eventsFrom names data (escapedChars s ++ t) = eventsFrom names (grown data s) t := by
  induction s using Markup.lines_induction generalizing data with
  | nil => rfl
  | char d s hd ih =>
    rw [escapedChars, List.flatMap_cons, List.append_assoc, eventsFrom_escapedChar hd,
      ← escapedChars, ih, grown_some, grown_cons, Markup.uniformLines_cons hd, List.append_assoc,
      List.singleton_append]
  | pair d s hd ih =>
    have hplain : (escapedChar d).toList = [d] := by
      refine toList_escapedChar ?_
      obtain rfl | rfl := Markup.joinsReturn_iff.mp hd <;> decide
    have hwritten : escapedChars ('\r' :: d :: s) = '\r' :: d :: escapedChars s := by
      rw [escapedChars, List.flatMap_cons, List.flatMap_cons, hplain]
      rfl
    rw [hwritten, List.cons_append, List.cons_append, Markup.eventsFrom_pair hd, ih, grown_some,
      grown_cons, Markup.uniformLines_pair hd, List.append_assoc, List.singleton_append]
  | lone s hs ih =>
    -- A character that is escaped begins with an ampersand, which belongs to no line end either.
    have hnext : ∀ d ∈ (escapedChars s ++ t).head?, ¬JoinsReturn d := by
      cases s with
      | nil => exact ht
      | cons e s =>
        intro d hd
        rw [escapedChars, List.flatMap_cons, List.append_assoc, List.head?_append,
          head?_escapedChar] at hd
        obtain rfl := Option.some.inj hd
        split
        · decide
        · exact hs e rfl
    have hwritten : escapedChars ('\r' :: s) = '\r' :: escapedChars s := rfl
    rw [hwritten, List.cons_append, Markup.eventsFrom_return hnext, ih, grown_some, grown_cons,
      Markup.uniformLines_return hs, List.append_assoc, List.singleton_append]

/-! ### Blanks -/

theorem Blanks.isBlank_of_mem (b : Blanks) : ∀ d ∈ b.text.toList, Markup.isBlank d :=
  List.all_eq_true.mp b.blank

theorem escapedChars_of_blank (h : ∀ d ∈ s, Markup.isBlank d) : escapedChars s = s := by
  induction s with
  | nil => rfl
  | cons d s ih =>
    obtain ⟨hd, hs⟩ := List.forall_mem_cons.mp h
    have hplain : isEscaped d = false := by
      obtain rfl | rfl | rfl | rfl := Markup.isBlank_iff.mp hd <;> decide
    rw [escapedChars, List.flatMap_cons, toList_escapedChar hplain, ← escapedChars, ih hs]
    rfl

/-- Data that is blank, if there is any. -/
def IsBlankData (data : Option (List Char)) : Prop := ∀ s ∈ data, ∀ d ∈ s, Markup.isBlank d

theorem isBlankData_none : IsBlankData none := by simp [IsBlankData]

theorem IsBlankData.grown (hdata : IsBlankData data) (h : ∀ d ∈ s, Markup.isBlank d) :
    IsBlankData (grown data s) := by
  cases s with
  | nil => exact hdata
  | cons c s =>
    intro u hu
    rw [grown_cons] at hu
    obtain rfl := Option.some.inj hu
    intro d hd
    rcases List.mem_append.mp hd with hd | hd
    · cases data with
      | none => cases hd
      | some old => exact hdata old rfl d hd
    · exact Markup.isBlank_of_mem_uniformLines h d hd

theorem eventsFrom_blanks (ht : ∀ d ∈ t.head?, ¬JoinsReturn d) (h : ∀ d ∈ s, Markup.isBlank d) :
    eventsFrom names data (s ++ t) = eventsFrom names (grown data s) t := by
  rw [← eventsFrom_escaped ht s, escapedChars_of_blank h]

theorem readFields_blanks (hdata : IsBlankData data) (d : Draft) (events : List Markup.Event) :
    readFields d (flush data ++ events) = readFields d events := by
  cases data with
  | none => rfl
  | some s =>
    have hs : s.all Markup.isBlank := List.all_eq_true.mpr (hdata s rfl)
    change readFields d (.data s :: events) = _
    rw [readFields, if_pos hs]

theorem readDocument_blanks (hdata : IsBlankData data) (events : List Markup.Event) :
    readDocument (flush data ++ events) = readDocument events := by
  cases data with
  | none => rfl
  | some s =>
    have hs : s.all Markup.isBlank := List.all_eq_true.mpr (hdata s rfl)
    change readDocument (.data s :: events) = _
    rw [readDocument, if_pos hs]

/-! ### Elements -/

theorem isPlainTag_name (field : Field) : Markup.IsPlainTag field.name.toList := by
  cases field <;> decide

theorem fieldOfTag_name {d : Draft} (h : field ∉ d.seen) :
    d.fieldOfTag field.name.toList = .ok field := by
  have hname : Field.ofName? field.name = some field := by cases field <;> decide
  have hlocal : Markup.localName field.name.toList = field.name.toList := by
    cases field <;> decide
  rw [Draft.fieldOfTag, (isPlainTag_name field).tagName_eq, hlocal, String.ofList_toList, hname]
  exact if_neg h

theorem readFields_element {d : Draft} (h : field ∉ d.seen) (events : List Markup.Event) :
    readFields d (.start field.name.toList :: (flush data ++ .finish :: events)) =
      (d.add field (data.getD []) >>= fun d => readFields d events) := by
  cases data with
  | none =>
    change readFields d (.start field.name.toList :: .finish :: events) = _
    rw [readFields, fieldOfTag_name h]
    rfl
  | some s =>
    change readFields d (.start field.name.toList :: .data s :: .finish :: events) = _
    rw [readFields, fieldOfTag_name h]
    rfl

variable (l : Layout)

/-- What stands between the tags of a field. -/
def Layout.content (c : Config) (field : Field) : List Char :=
  (l.left field).text.toList ++ ((c.fieldText field).toList ++ (l.right field).text.toList)

theorem toList_element (c : Config) (field : Field) :
    (l.element c field).toList = (l.before field).text.toList ++ '<' :: (field.name.toList ++ '>' ::
      (escapedChars (l.content c field) ++ '<' :: '/' :: (field.name.toList ++ ['>']))) := by
  rw [Layout.content, escapedChars_append, escapedChars_append,
    escapedChars_of_blank (l.left field).isBlank_of_mem,
    escapedChars_of_blank (l.right field).isBlank_of_mem]
  simp [Layout.element, toList_escaped]

theorem eventsFrom_element (c : Config) (field : Field) :
    eventsFrom names none ((l.element c field).toList ++ t) =
      flush (grown none (l.before field).text.toList) ++ .start field.name.toList ::
        (flush (grown none (l.content c field)) ++ .finish :: eventsFrom names none t) := by
  have hmark := Markup.not_joinsReturn_markup
  have hname := isPlainTag_name field
  rw [toList_element]
  simp only [List.append_assoc, List.cons_append, List.nil_append]
  rw [eventsFrom_blanks (hmark _) (l.before field).isBlank_of_mem, Markup.eventsFrom_opening hname,
    eventsFrom_escaped (hmark _), Markup.eventsFrom_closing hname]

/-- The value of a field is read from its element. -/
theorem readFields_element_text (h : c.IsWritable) (hfield : field ∉ seen) :
    readFields (c.uniformed.drafted seen)
        (eventsFrom names none ((l.element c field).toList ++ t)) =
      readFields (c.uniformed.drafted (field :: seen)) (eventsFrom names none t) := by
  have hbefore := isBlankData_none.grown (l.before field).isBlank_of_mem
  have hdata : (grown none (l.content c field)).getD [] = uniformLines (l.content c field) := by
    cases hs : l.content c field with
    | nil => rfl
    | cons d s => rfl
  have hvalue : Text.trimChars (uniformLines (l.content c field)) =
      (c.uniformed.fieldText field).toList := by
    rw [fieldText_uniformed]
    exact (h.isPlain_fieldText field).trimChars_uniformLines (l.left field).isBlank_of_mem
      (l.right field).isBlank_of_mem
  rw [eventsFrom_element, readFields_blanks hbefore, readFields_element hfield, hdata,
    add_drafted h.toIsReadable.uniformed hvalue]
  rfl

/-- The elements of fields are read in any order. -/
theorem readFields_elements (h : c.IsWritable) {fields : List Field}
    (hfields : fields.Nodup) (hseen : ∀ field ∈ fields, field ∉ seen) :
    readFields (c.uniformed.drafted seen)
        (eventsFrom names none (fields.flatMap (fun field => (l.element c field).toList) ++ t)) =
      readFields (c.uniformed.drafted (fields.reverse ++ seen)) (eventsFrom names none t) := by
  induction fields generalizing seen with
  | nil => rfl
  | cons field fields ih =>
    obtain ⟨hfield, hrest⟩ := List.forall_mem_cons.mp hseen
    obtain ⟨hnot, hnodup⟩ := List.nodup_cons.mp hfields
    -- The field of this element does not come again, and is seen from here on.
    have hnext : ∀ f ∈ fields, f ∉ field :: seen := fun f hf hmem => by
      rcases List.mem_cons.mp hmem with rfl | hmem
      · exact hnot hf
      · exact hrest f hf hmem
    rw [List.flatMap_cons, List.append_assoc, readFields_element_text l h hfield, ih hnodup hnext,
      List.reverse_cons, List.append_assoc, List.singleton_append]

/-! ### Documents -/

/-- What stands in front of the outer element. -/
def Layout.front : List Char :=
  l.lead.text.toList ++ (l.commentText.toList ++ l.gap.text.toList)

/-- What stands between the tags of the outer element, with what follows it. -/
def Layout.body (c : Config) : List Char :=
  l.order.flatMap (fun field => (l.element c field).toList) ++
    (l.last.text.toList ++ '<' :: '/' :: ("config".toList ++ '>' :: l.behind.text.toList))

theorem toList_document (c : Config) :
    (l.document c).toList = l.front ++ '<' :: ("config".toList ++ '>' :: l.body c) := by
  simp [Layout.document, Layout.front, Layout.body, String.toList_join, List.flatMap_map]

/-- Nothing but blanks is read in front of the outer element. -/
theorem Layout.eventsFrom_front (names : List (List Char)) (t : List Char) :
    ∃ data, IsBlankData data ∧
      eventsFrom names none (l.front ++ '<' :: t) = eventsFrom names data ('<' :: t) := by
  have hmark := Markup.not_joinsReturn_markup
  have hlead := isBlankData_none.grown l.lead.isBlank_of_mem
  cases hcomment : l.comment with
  | none =>
    have hfront : l.front = l.lead.text.toList ++ l.gap.text.toList := by
      simp [Layout.front, Layout.commentText, hcomment]
    have hblank : ∀ d ∈ l.front, Markup.isBlank d := by
      rw [hfront]
      intro d hd
      exact (List.mem_append.mp hd).elim (l.lead.isBlank_of_mem d) (l.gap.isBlank_of_mem d)
    exact ⟨_, isBlankData_none.grown hblank, eventsFrom_blanks (hmark t) hblank⟩
  | some comment =>
    have hfront : l.front ++ '<' :: t = l.lead.text.toList ++ '<' :: '!' :: '-' :: '-' ::
        (comment.text.toList ++ ['-', '-', '>'] ++ (l.gap.text.toList ++ '<' :: t)) := by
      simp [Layout.front, Layout.commentText, hcomment]
    refine ⟨_, hlead.grown l.gap.isBlank_of_mem, ?_⟩
    rw [hfront, eventsFrom_blanks (hmark _) l.lead.isBlank_of_mem,
      Markup.eventsFrom_comment comment.isComment, eventsFrom_blanks (hmark t) l.gap.isBlank_of_mem]

/-- Blanks, and behind them what does not begin with a byte order mark either. -/
theorem Blanks.head?_append (b : Blanks) {d : Char}
    (hs : d ∈ s.head? → d.toNat ≠ 0xFEFF) (hd : d ∈ (b.text.toList ++ s).head?) :
    d.toNat ≠ 0xFEFF := by
  have hb := b.isBlank_of_mem
  cases htext : b.text.toList with
  | nil =>
    rw [htext] at hd
    exact hs hd
  | cons e rest =>
    rw [htext] at hd hb
    obtain rfl := Option.some.inj hd
    obtain rfl | rfl | rfl | rfl := Markup.isBlank_iff.mp (hb e List.mem_cons_self) <;> decide

theorem head?_document {d : Char} (hd : d ∈ (l.document c).toList.head?) : d.toNat ≠ 0xFEFF := by
  have hmark (s : List Char) (hs : d ∈ ('<' :: s).head?) : d.toNat ≠ 0xFEFF := by
    obtain rfl := Option.some.inj hs
    decide
  rw [toList_document, Layout.front, List.append_assoc, List.append_assoc] at hd
  refine l.lead.head?_append (fun hd => ?_) hd
  cases hcomment : l.comment with
  | none =>
    rw [Layout.commentText, hcomment] at hd
    exact l.gap.head?_append (hmark _) hd
  | some comment =>
    have htext : l.commentText.toList = '<' :: '!' :: '-' :: '-' ::
        (comment.text.toList ++ ['-', '-', '>']) := by
      simp [Layout.commentText, hcomment]
    rw [htext] at hd
    exact hmark _ hd

theorem isPlainTag_config : Markup.IsPlainTag "config".toList := by decide

theorem readFields_body (h : c.IsWritable) :
    readFields {} (eventsFrom ["config".toList] none (l.body c)) =
      .ok (c.uniformed.drafted l.order.reverse) := by
  have hmark := Markup.not_joinsReturn_markup
  have hnodup : l.order.Nodup := l.complete.nodup_iff.mpr (by decide)
  have hlast := isBlankData_none.grown l.last.isBlank_of_mem
  rw [← drafted_nil c.uniformed, Layout.body, readFields_elements l h hnodup (by simp),
    eventsFrom_blanks (hmark _) l.last.isBlank_of_mem, Markup.eventsFrom_closing isPlainTag_config,
    readFields_blanks hlast, List.append_nil]
  rfl

/-- Settings come back from a document with uniform lines. -/
theorem ofDocument_document (h : c.IsWritable) : ofDocument (l.document c) = .ok c.uniformed := by
  obtain ⟨data, hblank, hfront⟩ := l.eventsFrom_front [] ("config".toList ++ '>' :: l.body c)
  have hfilled : (Text.trimChars (l.document c).toList).isEmpty = false := by
    have hmem : '<' ∈ (l.document c).toList := by simp [toList_document]
    rw [List.isEmpty_eq_false_iff]
    exact List.ne_nil_of_mem (Text.mem_trimChars hmem (by decide))
  have hevents : Markup.events (l.document c) = flush data ++ .start "config".toList ::
      eventsFrom ["config".toList] none (l.body c) := by
    rw [Markup.events_eq fun d => head?_document l, toList_document, hfront,
      Markup.eventsFrom_opening isPlainTag_config]
  have hread : readDocument (Markup.events (l.document c)) =
      .ok (c.uniformed.drafted l.order.reverse) := by
    rw [hevents, readDocument_blanks hblank, readDocument, isPlainTag_config.tagAttributes_eq]
    exact readFields_body l h
  have hall : ∀ field, field ∈ l.order.reverse := by
    intro field
    rw [List.mem_reverse, l.complete.mem_iff]
    cases field <;> decide
  have hfinish : (c.uniformed.drafted l.order.reverse).finish = .ok c.uniformed :=
    finish_drafted hall
  rw [ofDocument]
  simp only [hfilled, Bool.false_eq_true, if_false, hread]
  exact hfinish

/-- The template leaves the default settings. -/
theorem ofDocument_template : ofDocument template = .ok {} := by
  have hwritable : IsWritable {} := ⟨⟨by decide, by decide, by simp⟩, by simp⟩
  rw [template, ← document_template, ofDocument_document _ hwritable]
  rfl

/-- Settings come back unchanged from every layout, unless a line separator in the name of the log
file comes back as a line feed. -/
theorem ofDocument_document_iff (h : c.IsWritable) (l : Layout) :
    ofDocument (l.document c) = .ok c ↔
      ∀ p ∈ c.logFile, Markup.lineSeparator ∉ p.text.toList := by
  rw [ofDocument_document l h, Except.ok.injEq]
  exact h.uniformed_eq_iff

/-- A name with characters that are escaped comes back. -/
theorem ofDocument_document_iff_escaped :
    IsWritable { logFile := some (.ofString "/logs/<a & b>.txt"), retryAttempts := 3 } ∧
      ofDocument (Layout.template.document
        { logFile := some (.ofString "/logs/<a & b>.txt"), retryAttempts := 3 }) =
          .ok { logFile := some (.ofString "/logs/<a & b>.txt"), retryAttempts := 3 } := by
  have hwritable :
      IsWritable { logFile := some (.ofString "/logs/<a & b>.txt"), retryAttempts := 3 } :=
    isWritable_of_logFile rfl (by decide) (by decide) (by decide) (by decide +kernel)
  refine ⟨hwritable, (ofDocument_document_iff hwritable Layout.template).mpr fun p hp => ?_⟩
  obtain rfl := Option.some.inj hp
  rw [text_ofString]
  decide +kernel

/-- A line separator in the name of a log file does not come back. -/
theorem ofDocument_separated :
    IsWritable { logFile := some (.ofString "/a\u2028b") } ∧
      ofDocument (Layout.template.document { logFile := some (.ofString "/a\u2028b") }) =
        .ok { logFile := some (.ofString "/a\nb") } ∧
      Path.ofString "/a\nb" ≠ Path.ofString "/a\u2028b" := by
  have hwritable : IsWritable { logFile := some (.ofString "/a\u2028b") } :=
    isWritable_of_logFile rfl (by decide) (by decide) (by decide) (by decide +kernel)
  have hname : String.ofList ("/a\u2028b".toList.map uniform) = "/a\nb" := by decide +kernel
  refine ⟨hwritable, ?_, by decide +kernel⟩
  rw [ofDocument_document _ hwritable, uniformed, Option.map_some, text_ofString, hname]

end TreeOps.Config
