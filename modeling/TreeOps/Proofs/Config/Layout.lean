import TreeOps.Config.Template
import TreeOps.Proofs.Markup.Reading

/-!
# Layouts of settings

The form of the template leaves room: the elements may come in any order, with blanks around them
and around the values in them, and with any comment in front or none. The template is one of these
layouts.
-/

namespace TreeOps.Config

open Markup (IsComment)

/-- A text that is nothing but blanks of markup. -/
structure Blanks where
  text : String
  blank : text.toList.all Markup.isBlank = true

/-- A text that can stand in a comment. -/
structure Comment where
  text : String
  isComment : IsComment text.toList

/-- How settings are laid out in a document. -/
structure Layout where
  /-- The fields in the order of their elements. -/
  order : List Field
  complete : order.Perm Field.all
  comment : Option Comment
  /-- The blanks in front of the comment and behind it. -/
  lead : Blanks
  gap : Blanks
  /-- The blanks in front of an element, and in it in front of the value and behind it. -/
  before : Field → Blanks
  left : Field → Blanks
  right : Field → Blanks
  /-- The blanks in front of the last tag and behind it. -/
  last : Blanks
  behind : Blanks

namespace Layout

variable (l : Layout)

/-- The comment in front of the settings, if there is one. -/
def commentText : String := (l.comment.map fun t => "<!--" ++ t.text ++ "-->").getD ""

/-- The element of a field with the blanks that belong to it. -/
def element (c : Config) (field : Field) : String :=
  (l.before field).text ++ "<" ++ field.name ++ ">" ++ (l.left field).text
    ++ escaped (c.fieldText field) ++ (l.right field).text ++ "</" ++ field.name ++ ">"

/-- Settings that are laid out. -/
def document (c : Config) : String :=
  l.lead.text ++ l.commentText ++ l.gap.text ++ "<config>"
    ++ String.join (l.order.map (l.element c)) ++ l.last.text ++ "</config>" ++ l.behind.text

end Layout

/-! ### The template -/

theorem parted_ofList {s : List Char} (h : ¬['-', '-'] <:+: s) :
    ¬['-', '-'] <:+: (String.ofList s).toList := by
  rwa [String.toList_ofList]

/-- The lines of the explanation between its marks, and the end of the line of the first mark. -/
def explained : List String := "" :: (explanation.drop 1).dropLast

theorem parted_explained : ∀ line ∈ explained, ¬['-', '-'] <:+: line.toList := by
  simp only [explained, explanation, List.drop, List.dropLast, List.forall_mem_cons]
  refine ⟨?_, ?_, ?_, ?_, ?_, ?_, ?_, ?_, ?_, ?_, ?_, ?_, by simp⟩
  all_goals exact parted_ofList (by decide +kernel)

/-- The comment of the template. -/
def explanationComment : Comment where
  text := String.join (explained.map fun line => line ++ "\n")
  isComment := by
    have hlines := Markup.isComment_lines parted_explained
    rw [String.toList_join, List.flatMap_map]
    simpa using hlines

/-- The layout of the template. -/
def Layout.template : Layout where
  order := Field.all
  complete := .refl _
  comment := some explanationComment
  lead := ⟨"", by decide⟩
  gap := ⟨"\n", by decide⟩
  before _ := ⟨"\n  ", by decide⟩
  left _ := ⟨"", by decide⟩
  right _ := ⟨"", by decide⟩
  last := ⟨"\n", by decide⟩
  behind := ⟨"\n", by decide⟩

theorem document_template (c : Config) : Layout.template.document c =
    String.join (explanation.map fun line => line ++ "\n") ++ c.render := by
  have hbefore : "\n  " = "\n" ++ "  " := by decide
  have hopen : "<config>\n" = "<config>" ++ "\n" := by decide
  have hclose : "</config>\n" = "</config>" ++ "\n" := by decide
  simp only [Layout.document, Layout.commentText, Layout.template, explanationComment,
    Layout.element, explained, explanation, render, element, Field.all, hbefore, hopen, hclose,
    List.drop, List.dropLast, List.map, Option.map_some, Option.getD_some, String.join_cons,
    String.join_nil, String.append_assoc, String.empty_append, String.append_empty]

end TreeOps.Config
