import Stylesheet.Position

/-!
# Diagnostics

What the passes over a sheet report: a severity, a kind, a message and a place.
Lists of diagnostics keep the order in which they were reported.
-/

namespace Stylesheet

/-- How grave a diagnostic is.  Codes without a meaning of their own are kept as
they are. -/
inductive Severity where
  | error
  | warning
  | other (code : Int)
  deriving DecidableEq

namespace Severity

def ofCode : Int → Severity
  | 0 => error
  | 1 => warning
  | n => other n

def name : Severity → String
  | error => "error"
  | warning => "warning"
  | other _ => "unknown"

end Severity

/-- What a diagnostic is about.  Codes without a meaning of their own are kept
as they are. -/
inductive DiagnosticKind where
  | syntaxError
  | undefinedVariable
  | typeMismatch
  | illegalOperandCombination
  | disallowedProperty
  | misplacedConditional
  | unevaluable
  | lint
  | other (code : Int)
  deriving DecidableEq

namespace DiagnosticKind

def ofCode : Int → DiagnosticKind
  | 0 => syntaxError
  | 1 => undefinedVariable
  | 2 => typeMismatch
  | 3 => illegalOperandCombination
  | 4 => disallowedProperty
  | 5 => misplacedConditional
  | 6 => unevaluable
  | 7 => lint
  | n => other n

def name : DiagnosticKind → String
  | syntaxError => "syntax error"
  | undefinedVariable => "undefined variable"
  | typeMismatch => "type mismatch"
  | illegalOperandCombination => "illegal operand combination"
  | disallowedProperty => "disallowed property"
  | misplacedConditional => "misplaced conditional"
  | unevaluable => "unevaluable expression"
  | lint => "lint"
  | other _ => "unknown"

end DiagnosticKind

/-- One report about a place in a sheet. -/
structure Diagnostic where
  severity : Severity
  kind : DiagnosticKind
  message : String
  pos : Position
  deriving DecidableEq

namespace Diagnostic

/-- An error of the given kind. -/
def error (kind : DiagnosticKind) (pos : Position)
    (message : String) : Diagnostic :=
  ⟨.error, kind, message, pos⟩

/-- Every warning is a remark on style. -/
def warning (pos : Position) (message : String) : Diagnostic :=
  ⟨.warning, .lint, message, pos⟩

def isError (d : Diagnostic) : Bool :=
  d.severity == .error

/-- One line of a report on the file `file`. -/
def line (file : String) (d : Diagnostic) : String :=
  d.severity.name ++ "[" ++ file ++ ":" ++ d.pos.text ++ "]: " ++ d.message

end Diagnostic

/-- Diagnostics in the order in which they were reported. -/
abbrev Diagnostics := List Diagnostic

namespace Diagnostics

def hasErrors (ds : Diagnostics) : Bool :=
  ds.any Diagnostic.isError

def errors (ds : Diagnostics) : Diagnostics :=
  ds.filter Diagnostic.isError

def ofKind (kind : DiagnosticKind) (ds : Diagnostics) : Diagnostics :=
  ds.filter (·.kind == kind)

/-- The report on the file `file`, one line for each diagnostic, with no newline
at its end. -/
def report (file : String) (ds : Diagnostics) : String :=
  "\n".intercalate (ds.map (Diagnostic.line file))

end Diagnostics
end Stylesheet
