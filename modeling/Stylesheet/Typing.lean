import Stylesheet.Scope
import Stylesheet.Text.Lowercase
import Stylesheet.Tree

/-!
# Types

The type of an expression is the kind of its values, or none.  Checking a sheet
finds what is wrong with its names and types, node by node, and attaches each
finding to its node.  What is found does not depend on the diagnostics that the
nodes carry already.
-/

namespace Stylesheet

/-- A type: a kind of values, or none for an expression that has no value. -/
abbrev Ty := Option LiteralKind

namespace Ty

def name : Ty → String
  | some kind => kind.name
  | none => "Undefined"

/-- The name of the type with the given code: 0 is the missing type, and the
kinds follow. -/
def nameOfCode (code : Int) : String :=
  name (LiteralKind.ofCode? (code - 1))

end Ty

/-- The type of an operation.  Both sides of a sum or difference have the same
type; a product takes a plain number on one side, and a plain number or a pixel
size on the other. -/
def Operator.type : Operator → Ty → Ty → Ty
  | .add, left, right | .subtract, left, right =>
      if left = right then left else none
  | .multiply, some .scalar, some .pixel => some .pixel
  | .multiply, some .pixel, some .scalar => some .pixel
  | .multiply, some .scalar, some .scalar => some .scalar
  | .multiply, _, _ => none

/-- Which values a property takes, and how messages say so. -/
structure PropertyRule where
  accepted : List LiteralKind
  requirement : String

namespace PropertyRule

def ofColor : PropertyRule :=
  ⟨[.color], "a color value (hex #rrggbb)"⟩

def ofSize : PropertyRule :=
  ⟨[.pixel, .percentage], "a size in pixels (px) or percentage (%)"⟩

/-- The rule of a property; its name may be written in any case. -/
def find? (property : String) : Option PropertyRule :=
  match Text.lowercase property with
  | "color" | "background-color" => some ofColor
  | "width" | "height" => some ofSize
  | _ => none

end PropertyRule

namespace Typing

/-- What can be wrong with a node. -/
inductive Fault where
  | misplacedConditional
  | guardNotBool (found : Ty)
  | untypedVariable (name : String)
  | untypedDeclaration (property : String)
  | disallowedProperty (property : String)
  | wrongType (property requirement : String) (found : Ty)
  | undefinedVariable (name : String)
  | pixelProduct
  deriving DecidableEq

namespace Fault

def kind : Fault → DiagnosticKind
  | misplacedConditional => .misplacedConditional
  | guardNotBool _ | untypedVariable _ | untypedDeclaration _
  | wrongType _ _ _ => .typeMismatch
  | disallowedProperty _ => .disallowedProperty
  | undefinedVariable _ => .undefinedVariable
  | pixelProduct => .illegalOperandCombination

def message : Fault → String
  | misplacedConditional => "if-expressions are only allowed inside style rules"
  | guardNotBool found => "if condition must be Bool, got " ++ found.name
  | untypedVariable name => "cannot infer a type for variable '" ++ name ++ "'"
  | untypedDeclaration property =>
      "undefined expression in declaration '" ++ property ++ "'"
  | disallowedProperty property =>
      "property '" ++ property ++ "' is not allowed"
  | wrongType property requirement found =>
      "property '" ++ property ++ "' requires " ++ requirement ++ ", got "
        ++ found.name
  | undefinedVariable name => "undefined variable '" ++ name ++ "'"
  | pixelProduct => "cannot multiply Pixel by Pixel"

end Fault

/-- A fault and the node that has it. -/
structure Finding where
  id : NodeId
  fault : Fault
  deriving DecidableEq

/-- The type of an expression, given the types of the variables. -/
def typeOf (env : Scope Ty) : Tree → Ty
  | .node _ (.literal value) => some value.kind
  | .node _ (.reference name) => (env.lookup? name).join
  | .node _ (.operation op lhs rhs) => op.type (typeOf env lhs) (typeOf env rhs)
  | _ => none

/-- Whether an operation multiplies two pixel sizes. -/
def isPixelProduct (env : Scope Ty) (op : Operator) (lhs rhs : Tree) : Bool :=
  op = .multiply && typeOf env lhs = some .pixel && typeOf env rhs = some .pixel

/-- The findings in an expression, operands first. -/
def inExpr (env : Scope Ty) : Tree → List Finding
  | .node label (.reference name) =>
      if (env.lookup? name).isNone then [⟨label.id, .undefinedVariable name⟩]
      else []
  | .node label (.operation op lhs rhs) =>
      inExpr env lhs ++ inExpr env rhs
        ++ (if isPixelProduct env op lhs rhs then [⟨label.id, .pixelProduct⟩]
          else [])
  | _ => []

/-- What is wrong with giving the property a value of the type `ty`. -/
def declarationFault? (property : String) (ty : Ty) : Option Fault :=
  match ty with
  | none => some (.untypedDeclaration property)
  | some kind =>
      match PropertyRule.find? property with
      | none => some (.disallowedProperty property)
      | some rule =>
          if kind ∈ rule.accepted then none
          else some (.wrongType property rule.requirement ty)

/-- The types of the variables after an item of a list. -/
def afterItem (env : Scope Ty) : Tree → Scope Ty
  | .node _ (.assignment target expr) =>
      match target.variableName? with
      | some name =>
          if name = "" then env else env.define name (typeOf env expr)
      | none => env
  | _ => env

/-- The finding on a node, if it has a fault. -/
def findingOn (label : Label) (fault? : Option Fault) : List Finding :=
  (fault?.map (Finding.mk label.id)).toList

mutual

/-- The findings in an item of a body. -/
def inItem (env : Scope Ty) : Tree → List Finding
  | .node label (.assignment target expr) =>
      inExpr env expr ++ findingOn label
        (if typeOf env expr = none then
          some (.untypedVariable (target.variableName?.getD ""))
          else none)
  | .node label (.declaration property expr) =>
      inExpr env expr ++ findingOn label
        (declarationFault? (property.propertyName?.getD "") (typeOf env expr))
  | .node _ (.stylerule _ body) => inBody env.push body
  | .node label (.ifClause guard body otherwise) =>
      inExpr env guard ++ findingOn label
        (if typeOf env guard = some .bool then none
          else some (.guardNotBool (typeOf env guard)))
        ++ inBody env.push body ++ inElse env otherwise
  | _ => []

/-- The findings in the items of a list, each seeing the assignments before
it. -/
def inBody (env : Scope Ty) : List Tree → List Finding
  | [] => []
  | t :: ts => inItem env t ++ inBody (afterItem env t) ts

/-- The findings in the alternative of a conditional. -/
def inElse (env : Scope Ty) : Tree → List Finding
  | .node _ (.elseClause body) => inBody env.push body
  | _ => []

end

/-- The findings in the items at top level, where a conditional has no place. -/
def atTop (env : Scope Ty) : List Tree → List Finding
  | [] => []
  | .node label (.ifClause _ _ _) :: ts =>
      ⟨label.id, .misplacedConditional⟩ :: atTop env ts
  | t :: ts => inItem env t ++ atTop (afterItem env t) ts

/-- The findings in a whole sheet. -/
def inSheet : Tree → List Finding
  | .node _ (.stylesheet body) => atTop .empty body
  | _ => []

end Typing

namespace Arena

/-- Attaches a finding to its node. -/
def attach (a : Arena) (finding : Typing.Finding) : Arena :=
  a.annotate finding.id finding.fault.kind finding.fault.message

/-- The sheet with everything found in it attached. -/
def check (a : Arena) : Arena :=
  (Typing.inSheet a.rootTree).foldl attach a

end Arena
end Stylesheet
