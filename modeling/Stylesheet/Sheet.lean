import Stylesheet.Literal
import Stylesheet.Position

/-!
# Sheets

The syntax of the style language as it is read from a source.  Every part keeps
the place of the token it was read from: an operation that of its sign,
everything else that of its first token.
-/

namespace Stylesheet

inductive Expr where
  | literal (pos : Position) (value : Literal)
  | reference (pos : Position) (name : String)
  | operation (pos : Position) (op : Operator) (lhs rhs : Expr)
  deriving DecidableEq

/-- One selector of a rule; its first character tells a class or an id from a
tag. -/
structure Selector where
  pos : Position
  text : String
  deriving DecidableEq

/-- What may stand in the body of a rule or of a conditional. -/
inductive Item where
  | declaration (pos : Position) (property : String) (expr : Expr)
  | assignment (pos : Position) (name : String) (expr : Expr)
  | ifThen (pos : Position) (guard : Expr) (body : List Item)
  | ifElse (pos : Position) (guard : Expr) (body : List Item)
      (elsePos : Position) (otherwise : List Item)

/-- What may stand at the top level of a sheet. -/
inductive Statement where
  | assignment (pos : Position) (name : String) (expr : Expr)
  | rule (pos : Position) (selectors : List Selector) (body : List Item)
  | ifThen (pos : Position) (guard : Expr) (body : List Item)
  | ifElse (pos : Position) (guard : Expr) (body : List Item)
      (elsePos : Position) (otherwise : List Item)

/-- A whole source, in order. -/
abbrev Sheet := List Statement

end Stylesheet
