import Stylesheet.Css
import Stylesheet.Sheet

/-!
# The meaning of a sheet

What a sheet stands for, said on its syntax alone: a list of rules, each with
its selectors and the declarations in force in it.  The values of the variables
are passed from left to right.  What is bound inside a rule or a branch is
forgotten behind it, and a conditional stands for its first branch exactly if
its guard is true.
-/

namespace Stylesheet

/-- The values of the variables.  A name that is not bound has none, and neither
has one that is bound to an expression without a value. -/
abbrev Env := String → Option Literal

namespace Env

def empty : Env := fun _ => none

/-- Binds a name.  A binding without a value hides what the name stood for all
the same. -/
def bind (env : Env) (name : String) (value : Option Literal) : Env :=
  fun other => if other = name then value else env other

end Env

/-- The value of an expression, if it has one. -/
def Expr.value? (env : Env) : Expr → Option Literal
  | .literal _ value => some value
  | .reference _ name => env name
  | .operation _ op lhs rhs =>
      match lhs.value? env, rhs.value? env with
      | some left, some right => op.result? left right
      | _, _ => none

theorem Expr.value?_operation
    (env : Env) (pos : Position) (op : Operator) (lhs rhs : Expr) :
    (Expr.operation pos op lhs rhs).value? env =
      (lhs.value? env).bind fun left => (rhs.value? env).bind fun right =>
        op.result? left right := by
  rw [value?]
  cases lhs.value? env <;> cases rhs.value? env <;> rfl

namespace Meaning

/-- A declaration in force, with its value if it has one. -/
structure Declaration where
  pos : Position
  property : String
  value : Option Literal
  deriving DecidableEq

/-- A rule and the declarations in force in it. -/
structure Rule where
  selectors : List String
  declarations : List Declaration
  deriving DecidableEq

/-- The values of the variables behind an item. -/
def afterItem (env : Env) : Item → Env
  | .assignment _ name expr => env.bind name (expr.value? env)
  | _ => env

mutual

/-- The declarations that an item stands for. -/
def ofItem (env : Env) : Item → List Declaration
  | .declaration pos property expr => [⟨pos, property, expr.value? env⟩]
  | .assignment _ _ _ => []
  | .ifThen _ guard body =>
      if guard.value? env = some (.bool true) then ofItems env body else []
  | .ifElse _ guard body _ otherwise =>
      if guard.value? env = some (.bool true) then ofItems env body
        else ofItems env otherwise

/-- The declarations that the items of a body stand for. -/
def ofItems (env : Env) : List Item → List Declaration
  | [] => []
  | item :: items => ofItem env item ++ ofItems (afterItem env item) items

end

/-- The rules that the statements of a sheet stand for.  A conditional has no
place among them and stands for nothing. -/
def ofStatements (env : Env) : List Statement → List Rule
  | [] => []
  | .assignment _ name expr :: statements =>
      ofStatements (env.bind name (expr.value? env)) statements
  | .rule _ selectors body :: statements =>
      ⟨selectors.map Selector.text, ofItems env body⟩
        :: ofStatements env statements
  | .ifThen _ _ _ :: statements | .ifElse _ _ _ _ _ :: statements =>
      ofStatements env statements

/-- The rules that a whole sheet stands for. -/
def ofSheet (sheet : Sheet) : List Rule :=
  ofStatements .empty sheet

/-- Whether every declaration in force has a value. -/
def Complete (rules : List Rule) : Prop :=
  ∀ rule ∈ rules, ∀ d ∈ rule.declarations, d.value.isSome

instance (rules : List Rule) : Decidable (Complete rules) :=
  inferInstanceAs
    (Decidable (∀ rule ∈ rules, ∀ d ∈ rule.declarations, d.value.isSome))

/-- The rule in plain CSS, with the declarations that have a value. -/
def Rule.css (rule : Rule) : Css.Rule :=
  ⟨rule.selectors, rule.declarations.filterMap fun d => d.value.map fun v =>
    (d.property, v)⟩

/-- What a declaration without a value is reported as. -/
def Declaration.error? (d : Declaration) : Option Diagnostic :=
  match d.value with
  | some _ => none
  | none => some (.error .unevaluable d.pos
      ("expression in declaration '" ++ d.property
        ++ "' does not evaluate to a value"))

/-- The report on the declarations without a value, in the order of the
source. -/
def errors (rules : List Rule) : Diagnostics :=
  (rules.flatMap Rule.declarations).filterMap Declaration.error?

end Meaning
end Stylesheet
