import TreeOps.Config.Template
import TreeOps.Proofs.Markup.Plain
import TreeOps.Proofs.Text.Decimal
import TreeOps.Proofs.Text.Utf8

/-!
# The values of fields are read back

The value of a field is written as plain text. What is read of it sets the field to that value,
except that a line separator in the name of a log file comes back as a line feed.
-/

namespace TreeOps.Config

open Markup (IsPlain IsOrdinary uniform)

variable {c : Config} {field : Field} {seen : List Field} {text : List Char}

/-- Settings that come back from their written form when the values of their fields are read: the
numbers fit into their types, and a log file has a name that is text. -/
structure IsReadable (c : Config) : Prop where
  retryAttempts : c.retryAttempts < UInt32.size
  retryDelay : c.retryDelay < UInt64.size
  logFile : ∀ p ∈ c.logFile, p.text ≠ "" ∧ Path.ofString p.text = p

/-- Settings that can be written: a log file has a plain name. -/
structure IsWritable (c : Config) : Prop extends IsReadable c where
  plain : ∀ p ∈ c.logFile, IsPlain p.text.toList

/-! ### Written values -/

theorem isOrdinary_of_mem_fieldText {d : Char} (hfield : field ≠ .logFile)
    (h : d ∈ (c.fieldText field).toList) : IsOrdinary d := by
  refine Markup.isOrdinary_of_isAlphanum ?_
  have hflag (b : Bool) : ∀ d ∈ (toString b).toList, d.isAlphanum :=
    List.all_eq_true.mp (by cases b <;> decide)
  have hlevel (level : LogLevel) : ∀ d ∈ level.name.toList, d.isAlphanum :=
    List.all_eq_true.mp (by cases level <;> decide)
  have hnumber {n : Nat} (hd : d ∈ (toString n).toList) : d.isAlphanum := by
    rw [Char.isAlphanum, Text.isDigit_of_mem_toString hd, Bool.or_true]
  cases field with
  | logLevel => exact hlevel _ d h
  | logFile => exact absurd rfl hfield
  | retryAttempts => exact hnumber h
  | retryDelay => exact hnumber h
  | continueOnError => exact hflag _ d h
  | skipReparsePoints => exact hflag _ d h
  | ignoreReadOnly => exact hflag _ d h

theorem IsWritable.isPlain_fieldText (h : c.IsWritable) (field : Field) :
    IsPlain (c.fieldText field).toList := by
  by_cases hfield : field = .logFile
  · subst hfield
    rw [fieldText]
    cases hfile : c.logFile with
    | none => exact Markup.isPlain_of_forall (by simp)
    | some p => exact h.plain p hfile
  · exact Markup.isPlain_of_forall fun d => isOrdinary_of_mem_fieldText hfield

theorem text_ofString (s : String) : (Path.ofString s).text = s := Utf8.lossy_encode s

/-- Settings with a text as the name of their log file can be written if the text is plain. -/
theorem isWritable_of_logFile {s : String} (hfile : c.logFile = some (.ofString s))
    (hattempts : c.retryAttempts < UInt32.size) (hdelay : c.retryDelay < UInt64.size)
    (hne : s ≠ "") (hplain : IsPlain s.toList) : c.IsWritable := by
  have htext {p : Path} (hp : p ∈ c.logFile) : p = .ofString s :=
    Option.some.inj (hp.symm.trans hfile)
  refine ⟨⟨hattempts, hdelay, fun p hp => ?_⟩, fun p hp => ?_⟩
  · rw [htext hp, text_ofString]
    exact ⟨hne, rfl⟩
  · rw [htext hp, text_ofString]
    exact hplain

/-- Settings as they come back: the name of the log file has uniform lines. -/
def uniformed (c : Config) : Config :=
  { c with
    logFile := c.logFile.map fun p => .ofString (.ofList (p.text.toList.map uniform)) }

theorem fieldText_uniformed (c : Config) (field : Field) :
    (c.uniformed.fieldText field).toList = (c.fieldText field).toList.map uniform := by
  by_cases hfield : field = .logFile
  · subst hfield
    rw [fieldText, fieldText, uniformed]
    cases c.logFile with
    | none => rfl
    | some p => simp [text_ofString]
  · have hordinary : ∀ d ∈ (c.fieldText field).toList, IsOrdinary d :=
      fun d => isOrdinary_of_mem_fieldText hfield
    rw [Markup.map_uniform_of_ordinary hordinary]
    cases field <;> first | rfl | exact absurd rfl hfield

theorem IsReadable.uniformed (h : c.IsReadable) : c.uniformed.IsReadable where
  retryAttempts := h.retryAttempts
  retryDelay := h.retryDelay
  logFile := by
    intro q hq
    obtain ⟨p, hp, rfl⟩ := Option.map_eq_some_iff.mp hq
    refine ⟨?_, by rw [text_ofString]⟩
    rw [text_ofString]
    have := (h.logFile p hp).1
    simpa using this

theorem IsWritable.uniformed_eq_iff (h : c.IsWritable) :
    c.uniformed = c ↔ ∀ p ∈ c.logFile, Markup.lineSeparator ∉ p.text.toList := by
  have hfile : c.uniformed = c ↔ c.uniformed.logFile = c.logFile := by
    cases c
    simp [Config.uniformed]
  rw [hfile, Config.uniformed]
  cases hlog : c.logFile with
  | none => simp
  | some p =>
    have htext := (h.logFile p hlog).2
    have hname (s : String) : Path.ofString s = p ↔ s = p.text :=
      ⟨fun hs => by rw [← hs, text_ofString], fun hs => by rw [hs, htext]⟩
    have hmap := Markup.map_uniform_eq_iff (h.plain p hlog).noControl
    simp only [Option.map_some, Option.some.injEq, Option.mem_some, forall_eq', hname,
      ← String.toList_inj, String.toList_ofList, hmap]

/-! ### Values that are read -/

/-- The draft of settings of which some fields have been read. -/
def drafted (c : Config) (seen : List Field) : Draft where
  config := {
    logFile := if .logFile ∈ seen then c.logFile else none
    retryAttempts := if .retryAttempts ∈ seen then c.retryAttempts else 10
    retryDelay := if .retryDelay ∈ seen then c.retryDelay else 10
    continueOnError := if .continueOnError ∈ seen then c.continueOnError else false
    skipReparsePoints := if .skipReparsePoints ∈ seen then c.skipReparsePoints else true
    ignoreReadOnly := if .ignoreReadOnly ∈ seen then c.ignoreReadOnly else false }
  levelName := if .logLevel ∈ seen then some c.logLevel.name else none
  seen := seen

theorem drafted_nil (c : Config) : c.drafted [] = {} := by simp [drafted]

theorem ofText?_name (level : LogLevel) : LogLevel.ofText? level.name = some level := by
  cases level <;> decide

/-- A draft of all fields is finished as the settings. -/
theorem finish_drafted (h : ∀ field, field ∈ seen) : (c.drafted seen).finish = .ok c := by
  simp [drafted, Draft.finish, h, ofText?_name]

theorem readFlag_toString (b : Bool) : readFlag (toString b) = .ok b := by cases b <;> rfl

theorem readNumber_toString {n size : Nat} (h : n < size) :
    readNumber (size - 1) (toString n) = .ok n := by
  rw [readNumber, Text.readDecimal_toString (Nat.le_sub_one_of_lt h)]
  rfl

theorem fieldText_ne_nil (h : c.IsReadable) (hfield : field = .logFile → c.logFile ≠ none) :
    (c.fieldText field).toList ≠ [] := by
  have hflag : ∀ b : Bool, (toString b).toList ≠ [] := by decide
  cases field with
  | logLevel =>
    rw [fieldText]
    cases c.logLevel <;> decide
  | logFile =>
    obtain ⟨p, hp⟩ := Option.ne_none_iff_exists'.mp (hfield rfl)
    rw [fieldText, hp]
    simpa using (h.logFile p hp).1
  | retryAttempts => exact Text.toString_ne_empty _
  | retryDelay => exact Text.toString_ne_empty _
  | continueOnError => exact hflag _
  | skipReparsePoints => exact hflag _
  | ignoreReadOnly => exact hflag _

/-- A value that is written sets its field to what it was written for. -/
theorem set_drafted (h : c.IsReadable) (hfield : field = .logFile → c.logFile ≠ none) :
    ({ c.drafted seen with seen := field :: seen } : Draft).set field (c.fieldText field) =
      .ok (c.drafted (field :: seen)) := by
  cases field with
  | logLevel => simp [Draft.set, drafted, fieldText]
  | logFile =>
    obtain ⟨p, hp⟩ := Option.ne_none_iff_exists'.mp (hfield rfl)
    have hname := (h.logFile p hp).2
    simp [Draft.set, drafted, fieldText, hp, hname]
  | retryAttempts =>
    simp only [Draft.set, fieldText, readNumber_toString h.retryAttempts]
    simp [drafted, Except.map]
  | retryDelay =>
    simp only [Draft.set, fieldText, readNumber_toString h.retryDelay]
    simp [drafted, Except.map]
  | continueOnError => simp [Draft.set, drafted, fieldText, readFlag_toString, Except.map]
  | skipReparsePoints => simp [Draft.set, drafted, fieldText, readFlag_toString, Except.map]
  | ignoreReadOnly => simp [Draft.set, drafted, fieldText, readFlag_toString, Except.map]

/-- Of the settings that are read, one field more is in the draft behind its element. -/
theorem add_drafted (h : c.IsReadable)
    (htext : Text.trimChars text = (c.fieldText field).toList) :
    (c.drafted seen).add field text = .ok (c.drafted (field :: seen)) := by
  by_cases hfield : field = .logFile ∧ c.logFile = none
  · obtain ⟨rfl, hnone⟩ := hfield
    have hblank : Text.trimChars text = [] := by
      rw [htext, fieldText, hnone]
      rfl
    simp [Draft.add, hblank, drafted, hnone]
  · have hlog : field = .logFile → c.logFile ≠ none := fun hf hnone => hfield ⟨hf, hnone⟩
    have hvalue : (c.fieldText field).toList.isEmpty = false := by
      simpa using fieldText_ne_nil h hlog
    rw [Draft.add, htext]
    simp only [hvalue, Bool.false_eq_true, if_false, String.ofList_toList]
    exact set_drafted h hlog

end TreeOps.Config
