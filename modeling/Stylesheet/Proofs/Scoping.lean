import Stylesheet.Text.Lowercase
import Stylesheet.Tree

/-!
# Scoping and typing by position

What is wrong with the names and types of a sheet, said by where things stand in
its tree.  Nothing is carried along from item to item: a name refers to the last
assignment to it before the place where it is used, in the innermost list around
that place that has one.
-/

namespace Stylesheet.Scoping

/-- The items of a sheet. -/
def itemsOf : Tree → List Tree
  | .node _ (.stylesheet items) => items
  | _ => []

/-- A place in a sheet: for each list around it, the innermost first, the items
of the list that stand before the item that holds the place. -/
abbrev Context := List (List Tree)

inductive Assigns (name : String) (expr : Tree) : Tree → Prop
  | intro {label targetLabel : Label} :
      Assigns name expr
        (.node label (.assignment (.node targetLabel (.reference name)) expr))

/-- None of the items is an assignment to the name. -/
def Unassigned (name : String) (items : List Tree) : Prop :=
  ∀ item ∈ items, ∀ expr, ¬ Assigns name expr item

/-- `Resolves name ctx source expr`: used at `ctx`, the name stands for the
expression `expr`, which is assigned to it at `source`. -/
inductive Resolves (name : String) : Context → Context → Tree → Prop
  | here {before after : List Tree} {item expr : Tree} {outer : Context}
      (hitem : Assigns name expr item) (hafter : Unassigned name after) :
      Resolves name ((before ++ item :: after) :: outer) (before :: outer) expr
  | outside {before : List Tree} {outer source : Context} {expr : Tree}
      (hbefore : Unassigned name before) (h : Resolves name outer source expr) :
      Resolves name (before :: outer) source expr

/-- The kind of the values of an expression at a place.  A name has the type
that the expression it stands for has at the place of the assignment, so later
assignments do not count. -/
inductive HasType : Context → Tree → LiteralKind → Prop
  | literal {ctx : Context} {label : Label} {value : Literal} :
      HasType ctx (.node label (.literal value)) value.kind
  | reference {ctx source : Context} {label : Label} {name : String}
      {expr : Tree} {kind : LiteralKind} (hname : Resolves name ctx source expr)
      (hexpr : HasType source expr kind) :
      HasType ctx (.node label (.reference name)) kind
  | sum {ctx : Context} {label : Label} {lhs rhs : Tree} {kind : LiteralKind}
      (hl : HasType ctx lhs kind) (hr : HasType ctx rhs kind) :
      HasType ctx (.node label (.operation .add lhs rhs)) kind
  | difference {ctx : Context} {label : Label} {lhs rhs : Tree}
      {kind : LiteralKind} (hl : HasType ctx lhs kind)
      (hr : HasType ctx rhs kind) :
      HasType ctx (.node label (.operation .subtract lhs rhs)) kind
  | scalarTimes {ctx : Context} {label : Label} {lhs rhs : Tree}
      {kind : LiteralKind} (hl : HasType ctx lhs .scalar)
      (hr : HasType ctx rhs kind)
      (hkind : kind = .scalar ∨ kind = .pixel) :
      HasType ctx (.node label (.operation .multiply lhs rhs)) kind
  | timesScalar {ctx : Context} {label : Label} {lhs rhs : Tree}
      {kind : LiteralKind} (hl : HasType ctx lhs kind)
      (hr : HasType ctx rhs .scalar)
      (hkind : kind = .scalar ∨ kind = .pixel) :
      HasType ctx (.node label (.operation .multiply lhs rhs)) kind

/-- Conditionals have no place at top level. -/
def IsConditional : Tree → Prop
  | .node _ (.ifClause _ _ _) => True
  | _ => False

/-- The item stands at the place, in a sheet with the given items.  Nothing
stands inside a conditional at top level. -/
inductive Stands (items : List Tree) : Context → Tree → Prop
  | top {before after : List Tree} {item : Tree}
      (h : items = before ++ item :: after) (hplace : ¬ IsConditional item) :
      Stands items [before] item
  | inRule {ctx : Context} {label : Label} {selectors before after : List Tree}
      {item : Tree} (h : Stands items ctx
        (.node label (.stylerule selectors (before ++ item :: after)))) :
      Stands items (before :: ctx) item
  | inBranch {ctx : Context} {label : Label} {guard otherwise item : Tree}
      {before after : List Tree}
      (h : Stands items ctx
        (.node label (.ifClause guard (before ++ item :: after) otherwise))) :
      Stands items (before :: ctx) item
  | inAlternative {ctx : Context} {label elseLabel : Label} {guard item : Tree}
      {body before after : List Tree}
      (h : Stands items ctx (.node label
        (.ifClause guard body
          (.node elseLabel (.elseClause (before ++ item :: after)))))) :
      Stands items (before :: ctx) item

/-- The expression is what the item assigns or declares, or its guard. -/
inductive Evaluates (expr : Tree) : Tree → Prop
  | assignment {label : Label} {target : Tree} :
      Evaluates expr (.node label (.assignment target expr))
  | declaration {label : Label} {property : Tree} :
      Evaluates expr (.node label (.declaration property expr))
  | guard {label : Label} {body : List Tree} {otherwise : Tree} :
      Evaluates expr (.node label (.ifClause expr body otherwise))

/-- The properties that sheets may set, in any case. -/
def Allowed (property : String) : Prop :=
  Text.lowercase property ∈ ["color", "background-color", "width", "height"]

/-- The property is allowed and takes values of the kind. -/
def Takes (property : String) (kind : LiteralKind) : Prop :=
  (Text.lowercase property ∈ ["color", "background-color"] ∧ kind = .color) ∨
    (Text.lowercase property ∈ ["width", "height"] ∧
      (kind = .pixel ∨ kind = .percentage))

/-- What is wrong in an expression at a place: the number of a node, and in what
way the node is wrong. -/
inductive FaultyExpr (ctx : Context) (expr : Tree) :
    NodeId → DiagnosticKind → Prop
  | undefined {label : Label} {name : String}
      (hmem : .node label (.reference name) ∈ expr.subtrees)
      (hnone : ∀ before ∈ ctx, Unassigned name before) :
      FaultyExpr ctx expr label.id .undefinedVariable
  | pixelProduct {label : Label} {lhs rhs : Tree}
      (hmem : .node label (.operation .multiply lhs rhs) ∈ expr.subtrees)
      (hl : HasType ctx lhs .pixel) (hr : HasType ctx rhs .pixel) :
      FaultyExpr ctx expr label.id .illegalOperandCombination

/-- What is wrong with an item at a place, and in its expression. -/
inductive FaultyItem (ctx : Context) : Tree → NodeId → DiagnosticKind → Prop
  | expression {item expr : Tree} {id : NodeId} {kind : DiagnosticKind}
      (hexpr : Evaluates expr item) (h : FaultyExpr ctx expr id kind) :
      FaultyItem ctx item id kind
  | untypedAssignment {label : Label} {target expr : Tree}
      (hnone : ∀ kind, ¬ HasType ctx expr kind) :
      FaultyItem ctx (.node label (.assignment target expr)) label.id
        .typeMismatch
  | untypedDeclaration {label : Label} {property expr : Tree}
      (hnone : ∀ kind, ¬ HasType ctx expr kind) :
      FaultyItem ctx (.node label (.declaration property expr)) label.id
        .typeMismatch
  | guardNotBool {label : Label} {guard otherwise : Tree} {body : List Tree}
      (hguard : ¬ HasType ctx guard .bool) :
      FaultyItem ctx (.node label (.ifClause guard body otherwise)) label.id
        .typeMismatch
  | wrongType {label nameLabel : Label} {property : String} {expr : Tree}
      {kind : LiteralKind} (hexpr : HasType ctx expr kind)
      (hproperty : Allowed property)
      (hkind : ¬ Takes property kind) :
      FaultyItem ctx
        (.node label (.declaration (.node nameLabel (.propertyName property))
          expr)) label.id .typeMismatch
  | disallowed {label nameLabel : Label} {property : String} {expr : Tree}
      {kind : LiteralKind} (hexpr : HasType ctx expr kind)
      (hproperty : ¬ Allowed property) :
      FaultyItem ctx
        (.node label (.declaration (.node nameLabel (.propertyName property))
          expr)) label.id .disallowedProperty

/-- What is wrong in a sheet with the given items. -/
inductive Faulty (items : List Tree) : NodeId → DiagnosticKind → Prop
  | misplaced {label : Label} {guard otherwise : Tree} {body : List Tree}
      (h : .node label (.ifClause guard body otherwise) ∈ items) :
      Faulty items label.id .misplacedConditional
  | item {ctx : Context} {item : Tree} {id : NodeId} {kind : DiagnosticKind}
      (hitem : Stands items ctx item) (h : FaultyItem ctx item id kind) :
      Faulty items id kind

end Stylesheet.Scoping
