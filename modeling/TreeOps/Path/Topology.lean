import TreeOps.Path.Basic
import TreeOps.Text.Lowercase

/-!
# Where two trees lie

Two locations are compared by their components in lower case, with `.` left out. A file system that
folds case may take them for one place, so a copy or a move of a tree is refused when source and
destination could be the same or could contain one another.

Specification: §4.3, the preconditions of `copy_or_move`.
-/

namespace TreeOps.Path

/-- The components of a path in lower case, without `.`. -/
def foldedComponents (p : Path) : List String :=
  (p.components.filter (· != .here)).map fun c => Text.lowercase (Utf8.lossy c.bytes)

/-- Whether two paths name the same place up to case. -/
def samePlace (p q : Path) : Bool :=
  p.foldedComponents == q.foldedComponents

/-- Whether `inner` lies strictly below `outer` up to case. -/
def isWithin (inner outer : Path) : Bool :=
  inner.foldedComponents.length > outer.foldedComponents.length
    && outer.foldedComponents.isPrefixOf inner.foldedComponents

end TreeOps.Path
