import Stylesheet.Canonical
import Stylesheet.Css
import Stylesheet.Evaluation
import Stylesheet.Lint
import Stylesheet.Sheet.Storing
import Stylesheet.Typing

/-!
# Compiling

From the bytes of a source to the text of a style sheet.  Each stage runs only
if the one before it found nothing: reading, checking, evaluating, generating.
-/

namespace Stylesheet

/-- What an evaluated declaration without a value is reported as. -/
def unevaluable? : Tree → Option Diagnostic
  | .node label (.declaration property expr) =>
      if expr.literalValue?.isSome then none
      else some (.error .unevaluable label.pos ("expression in declaration '"
        ++ property.propertyName?.getD "" ++ "' does not evaluate to a value"))
  | _ => none

def isDeclaration : Content Tree → Bool
  | .declaration _ _ => true
  | _ => false

/-- The errors about declarations that could not be evaluated. -/
def Arena.unevaluated (a : Arena) : Diagnostics :=
  (a.rootTree.walk isDeclaration).filterMap unevaluable?

/-- The outcome of a compilation: what was reported, the sheet as the last stage
left it, and the CSS, which is empty if an error was reported. -/
structure Compiled where
  diagnostics : Diagnostics
  arena : Arena
  css : String

/-- Evaluates a checked sheet and generates its CSS. -/
def finish (checked : Arena) : Compiled :=
  let done := checked.evaluate
  if done.unevaluated.hasErrors then ⟨done.unevaluated, done, ""⟩
  else match Css.generate done.rootTree with
    | .ok css => ⟨checked.diagnostics, done, css⟩
    | .error found =>
        ⟨[.error .unevaluable .start (Css.refusal found)], done, ""⟩

/-- Compiles a source, given by its bytes. -/
def compile (source : List Char) : Compiled :=
  let loaded := load source
  if loaded.diagnostics.hasErrors then ⟨loaded.diagnostics, loaded.arena, ""⟩
  else
    let checked := loaded.arena.check
    if checked.diagnostics.hasErrors then ⟨checked.diagnostics, checked, ""⟩
    else finish checked

/-- What reading and checking a source reports. -/
def check (source : List Char) : Diagnostics :=
  let loaded := load source
  if loaded.diagnostics.hasErrors then loaded.diagnostics
  else loaded.arena.check.diagnostics

/-- The remarks on a source, or its syntax errors. -/
def lint (source : List Char) : Diagnostics :=
  let loaded := load source
  if loaded.diagnostics.hasErrors then loaded.diagnostics
  else Lint.inSheet loaded.arena.rootTree

/-- A source in canonical layout, or its syntax errors. -/
def format (source : List Char) : Except Diagnostics String :=
  let loaded := load source
  if loaded.diagnostics.hasErrors then .error loaded.diagnostics
  else .ok (Canonical.text loaded.arena.rootTree)

end Stylesheet
