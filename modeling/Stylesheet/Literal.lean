/-!
# Literals

The values of the style language, their text, and the arithmetic on them.
Numbers are 64-bit words, so sums and products wrap around.
-/

namespace Stylesheet

/-- The kinds of values. -/
inductive LiteralKind where
  | pixel
  | percentage
  | color
  | scalar
  | bool
  deriving DecidableEq

namespace LiteralKind

/-- The kinds in the order of their codes, which start at 0. -/
def all : List LiteralKind :=
  [pixel, percentage, color, scalar, bool]

def ofCode? (code : Int) : Option LiteralKind :=
  if code < 0 then none else all[code.toNat]?

def name : LiteralKind → String
  | pixel => "Pixel"
  | percentage => "Percentage"
  | color => "Color"
  | scalar => "Scalar"
  | bool => "Bool"

/-- The name of the kind with the given code. -/
def nameOfCode (code : Int) : String :=
  match ofCode? code with
  | some kind => kind.name
  | none => "unknown"

end LiteralKind

/-- A value of the style language. -/
inductive Literal where
  | pixel (n : Int64)
  | percentage (n : Int64)
  | color (text : String)
  | scalar (n : Int64)
  | bool (b : Bool)
  deriving DecidableEq

namespace Literal

def kind : Literal → LiteralKind
  | pixel _ => .pixel
  | percentage _ => .percentage
  | color _ => .color
  | scalar _ => .scalar
  | bool _ => .bool

/-- The text of a value in a style sheet. -/
def text : Literal → String
  | pixel n => toString n.toInt ++ "px"
  | percentage n => toString n.toInt ++ "%"
  | color c => c
  | scalar n => toString n.toInt
  | bool true => "true"
  | bool false => "false"

/-- The value of the kind with the given code, made from the field that belongs
to the kind.  A code of no kind stands for a truth value. -/
def ofFields (code : Int) (number : Int64) (hex : String)
    (truth : Bool) : Literal :=
  match LiteralKind.ofCode? code with
  | some .pixel => pixel number
  | some .percentage => percentage number
  | some .color => color hex
  | some .scalar => scalar number
  | some .bool | none => bool truth

end Literal

/-- The operators of expressions. -/
inductive Operator where
  | add
  | subtract
  | multiply
  deriving DecidableEq

namespace Operator

/-- How a tree names an operation. -/
def name : Operator → String
  | add => "AddOperation"
  | subtract => "SubtractOperation"
  | multiply => "MultiplyOperation"

def sign : Operator → String
  | add => "+"
  | subtract => "-"
  | multiply => "*"

/-- The value of an operation.  Sums and differences need two numbers of one
unit; products need a plain number on one side, and a plain number or a pixel
size on the other. -/
def result? : Operator → Literal → Literal → Option Literal
  | add, .pixel a, .pixel b => some (.pixel (a + b))
  | add, .percentage a, .percentage b => some (.percentage (a + b))
  | add, .scalar a, .scalar b => some (.scalar (a + b))
  | subtract, .pixel a, .pixel b => some (.pixel (a - b))
  | subtract, .percentage a, .percentage b => some (.percentage (a - b))
  | subtract, .scalar a, .scalar b => some (.scalar (a - b))
  | multiply, .scalar a, .pixel b => some (.pixel (a * b))
  | multiply, .pixel a, .scalar b => some (.pixel (a * b))
  | multiply, .scalar a, .scalar b => some (.scalar (a * b))
  | _, _, _ => none

end Operator
end Stylesheet
