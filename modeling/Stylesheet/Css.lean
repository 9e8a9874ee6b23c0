import Stylesheet.Tree

/-!
# CSS

The text of a style sheet, and how an evaluated sheet becomes one.  A sheet that
holds anything but plain rules is refused with a list of what stands in the way.
-/

namespace Stylesheet.Css

/-- A rule of plain CSS. -/
structure Rule where
  selectors : List String
  declarations : List (String × Literal)
  deriving DecidableEq

namespace Rule

/-- The text of a rule, which ends with a newline. -/
def text (rule : Rule) : String :=
  ", ".intercalate rule.selectors ++ " \x7b\n"
    ++ String.join
      (rule.declarations.map fun d => "  " ++ d.1 ++ ": " ++ d.2.text ++ ";\n")
    ++ "\x7d\n"

end Rule

/-- The text of a style sheet: its rules, with a blank line between each two. -/
def text (rules : List Rule) : String :=
  "\n".intercalate (rules.map Rule.text)

/-- What keeps a sheet from being plain CSS, with the place of the node at fault
if there is one. -/
inductive Obstacle where
  | rootNotSheet
  | notRule (place : Option Position) (found : String)
  | noSelectors (place : Option Position)
  | notSelector (place : Option Position) (found : String)
  | notDeclaration (place : Option Position) (found : String)
  | noProperty (place : Option Position)
  | notFolded (place : Option Position) (property found : String)
  | annotated (place : Option Position) (found message : String)

namespace Obstacle

def place? : Obstacle → Option Position
  | rootNotSheet => none
  | notRule place _ | noSelectors place | notSelector place _
  | notDeclaration place _ | noProperty place | notFolded place _ _
  | annotated place _ _ => place

def cause : Obstacle → String
  | rootNotSheet => "tree root is not a Stylesheet"
  | notRule _ found => "top-level node must be a Stylerule, got " ++ found
  | noSelectors _ => "stylerule has no selectors"
  | notSelector _ found =>
      "stylerule selector must be a Selector, got " ++ found
  | notDeclaration _ found =>
      "stylerule body may only hold declarations, got " ++ found
  | noProperty _ => "declaration has no property name"
  | notFolded _ property found =>
      "declaration '" ++ property ++ "' has unfolded expression " ++ found
  | annotated _ found message => found ++ " carries a diagnostic: " ++ message

def message (o : Obstacle) : String :=
  match o.place? with
  | some pos => pos.text ++ ": " ++ o.cause
  | none => o.cause

end Obstacle

/-- What is wrong with an item in the body of a rule. -/
def inRuleItem : Tree → List Obstacle
  | .node label (.declaration property expr) =>
      (if property.propertyName?.isNone then [.noProperty label.pos] else [])
        ++ (if expr.literalValue?.isNone then
            [.notFolded label.pos (property.propertyName?.getD "?")
              expr.sortName]
          else [])
  | t => [.notDeclaration (t.label?.map Label.pos) t.sortName]

/-- What is wrong with an item at top level. -/
def inSheetItem : Tree → List Obstacle
  | .node label (.stylerule selectors body) =>
      (if selectors.isEmpty then [.noSelectors label.pos] else [])
        ++ (selectors.filter (·.selectorText?.isNone)).map
            (fun t => .notSelector label.pos t.sortName)
        ++ body.flatMap inRuleItem
  | t => [.notRule (t.label?.map Label.pos) t.sortName]

/-- What is wrong with a node that carries a diagnostic. -/
def onNode? (t : Tree) : Option Obstacle :=
  t.diagnostic?.map fun d =>
    .annotated (t.label?.map Label.pos) t.sortName d.message

/-- Everything that keeps a sheet from being plain CSS: what is wrong with its
shape, then the diagnostics it carries. -/
def obstacles (root : Tree) : List Obstacle :=
  match root with
  | .node _ (.stylesheet body) =>
      body.flatMap inSheetItem ++ root.subtrees.filterMap onNode?
  | _ => [.rootNotSheet]

/-- The declaration that an item of a rule stands for. -/
def declaration? : Tree → Option (String × Literal)
  | .node _ (.declaration property expr) =>
      match property.propertyName?, expr.literalValue? with
      | some name, some value => some (name, value)
      | _, _ => none
  | _ => none

/-- The rule that an item at top level stands for. -/
def rule? : Tree → Option Rule
  | .node _ (.stylerule selectors body) =>
      some ⟨selectors.filterMap Tree.selectorText?, body.filterMap declaration?⟩
  | _ => none

/-- The rules of a sheet. -/
def rules : Tree → List Rule
  | .node _ (.stylesheet body) => body.filterMap rule?
  | _ => []

/-- The CSS of a sheet, or what stands in its way. -/
def generate (root : Tree) : Except (List Obstacle) String :=
  match obstacles root with
  | [] => .ok (text (rules root))
  | found => .error found

/-- How a refusal is reported. -/
def refusal (found : List Obstacle) : String :=
  "cannot generate CSS:\n  " ++ "\n  ".intercalate (found.map Obstacle.message)

end Stylesheet.Css
