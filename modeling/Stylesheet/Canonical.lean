import Stylesheet.Tree

/-!
# Canonical layout

Writing a sheet in its own language: one item on a line, bodies indented by four
spaces, items at top level apart, runs of assignments together.  There are no
parentheses in the language, and none are needed for a sheet that was read from
a source.
-/

namespace Stylesheet.Canonical

/-- A line at the given depth. -/
def line (depth : Nat) (text : String) : String :=
  String.ofList (List.replicate (4 * depth) ' ') ++ text

/-- How a value is written in an expression. -/
def literalText : Literal → String
  | .bool true => "TRUE"
  | .bool false => "FALSE"
  | value => value.text

/-- The text of an expression; what is no expression has none. -/
def exprText : Tree → String
  | .node _ (.operation op lhs rhs) =>
      exprText lhs ++ " " ++ op.sign ++ " " ++ exprText rhs
  | .node _ (.reference name) => name
  | .node _ (.literal value) => literalText value
  | _ => ""

/-- The selectors of a rule, in one text. -/
def selectorList (selectors : List Tree) : String :=
  ", ".intercalate (selectors.filterMap Tree.selectorText?)

mutual

/-- The lines of an item. -/
def itemLines (depth : Nat) : Tree → List String
  | .node _ (.stylerule selectors body) =>
      [line depth (selectorList selectors ++ " \x7b")]
        ++ bodyLines (depth + 1) body
        ++ [line depth "\x7d"]
  | .node _ (.declaration property expr) =>
      [line depth (property.propertyName?.getD "" ++ ": " ++ exprText expr
        ++ ";")]
  | .node _ (.assignment target expr) =>
      [line depth (exprText target ++ " := " ++ exprText expr ++ ";")]
  | .node _ (.ifClause guard body otherwise) =>
      [line depth ("if [" ++ exprText guard ++ "] \x7b")]
        ++ bodyLines (depth + 1) body
        ++ elseLines depth otherwise ++ [line depth "\x7d"]
  | _ => []

/-- The lines of the items of a body. -/
def bodyLines (depth : Nat) : List Tree → List String
  | [] => []
  | t :: ts => itemLines depth t ++ bodyLines depth ts

/-- The lines of the alternative of a conditional. -/
def elseLines (depth : Nat) : Tree → List String
  | .node _ (.elseClause body) =>
      line depth "\x7d else \x7b" :: bodyLines (depth + 1) body
  | _ => []

end

def isAssignment : Tree → Bool
  | .node _ (.assignment _ _) => true
  | _ => false

/-- The lines of the items at top level behind the item `previous`. -/
def linesAfter (previous : Tree) : List Tree → List String
  | [] => []
  | t :: ts =>
      (if isAssignment t && isAssignment previous then [] else [""])
        ++ itemLines 0 t ++ linesAfter t ts

/-- The lines of a sheet. -/
def sheetLines : Tree → List String
  | .node _ (.stylesheet (t :: ts)) => itemLines 0 t ++ linesAfter t ts
  | _ => []

/-- A sheet in canonical layout, every line ended by a newline. -/
def text (root : Tree) : String :=
  String.join ((sheetLines root).map (· ++ "\n"))

end Stylesheet.Canonical
