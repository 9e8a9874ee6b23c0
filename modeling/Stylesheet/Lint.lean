import Stylesheet.Text.Lowercase
import Stylesheet.Text.Uppercase
import Stylesheet.Tree

/-!
# Remarks on style

Warnings about sheets that are correct but poorly written.  In every list of
items, repeated properties come first, then the remarks on the items in order.
-/

namespace Stylesheet.Lint

/-- What can be remarked on. -/
inductive Remark where
  | emptyRule (selectors : String)
  | uncapitalised (name : String)
  | unused (name : String)
  | repeatedProperty (property : String)
  | constantGuard (value : Bool)
  deriving DecidableEq

def Remark.message : Remark → String
  | emptyRule selectors => "stylerule '" ++ selectors ++ "' has an empty body"
  | uncapitalised name =>
      "variable '" ++ name ++ "' should start with an upper-case letter"
  | unused name => "variable '" ++ name ++ "' is assigned but never used"
  | repeatedProperty property =>
      "property '" ++ property
        ++ "' is declared more than once in the same body"
  | constantGuard value =>
      "if condition is always " ++ (Literal.bool value).text

/-- A remark about the node with the given label. -/
def warning (label : Label) (remark : Remark) : Diagnostic :=
  .warning label.pos remark.message

/-- The names read in a walk.  A node that has been met as the target of an
assignment is not read. -/
def namesRead (targets : List NodeId) : List Tree → List String
  | [] => []
  | .node _ (.assignment target _) :: ts =>
      namesRead ((target.label?.map Label.id).toList ++ targets) ts
  | .node label (.reference name) :: ts =>
      if label.id ∈ targets then namesRead targets ts
        else name :: namesRead targets ts
  | _ :: ts => namesRead targets ts

/-- The names of variables that a sheet reads anywhere. -/
def usedNames (root : Tree) : List String :=
  namesRead [] root.subtrees

def isCapitalised (name : String) : Bool :=
  match name.toList with
  | c :: _ => Text.isUpperLetter c
  | [] => false

/-- The warnings about properties that a list declares again, `seen` being those
declared before, in lower case. -/
def repeats (seen : List String) : List Tree → Diagnostics
  | [] => []
  | .node label (.declaration property _) :: ts =>
      match property.propertyName? with
      | some name =>
          let key := Text.lowercase name
          (if key ∈ seen then [warning label (.repeatedProperty name)] else [])
            ++ repeats (key :: seen) ts
      | none => repeats seen ts
  | _ :: ts => repeats seen ts

/-- The warnings about an assignment to a variable of the given name. -/
def onAssignment (used : List String) (label : Label)
    (name : String) : Diagnostics :=
  (if isCapitalised name then [] else [warning label (.uncapitalised name)])
    ++ (if name ∈ used then [] else [warning label (.unused name)])

/-- The warnings about a rule itself. -/
def onRule (label : Label) (selectors body : List Tree) : Diagnostics :=
  if body.isEmpty then
    [warning label
      (.emptyRule (", ".intercalate (selectors.filterMap Tree.selectorText?)))]
  else []

/-- The warnings about the guard of a conditional. -/
def onGuard (label : Label) (guard : Tree) : Diagnostics :=
  match guard.literalValue? with
  | some (.bool value) => [warning label (.constantGuard value)]
  | _ => []

mutual

/-- The warnings about an item and what is inside it. -/
def inItem (used : List String) : Tree → Diagnostics
  | .node label (.assignment target _) =>
      match target.variableName? with
      | some name => if name = "" then [] else onAssignment used label name
      | none => []
  | .node label (.stylerule selectors body) =>
      onRule label selectors body ++ repeats [] body ++ inItems used body
  | .node label (.ifClause guard body otherwise) =>
      onGuard label guard ++ repeats [] body ++ inItems used body
        ++ inElse used otherwise
  | _ => []

/-- The warnings about the items of a list, one after the other. -/
def inItems (used : List String) : List Tree → Diagnostics
  | [] => []
  | t :: ts => inItem used t ++ inItems used ts

/-- The warnings about the alternative of a conditional. -/
def inElse (used : List String) : Tree → Diagnostics
  | .node _ (.elseClause body) => repeats [] body ++ inItems used body
  | _ => []

end

/-- The warnings about a whole sheet. -/
def inSheet (root : Tree) : Diagnostics :=
  match root with
  | .node _ (.stylesheet body) =>
      repeats [] body ++ inItems (usedNames root) body
  | _ => []

end Stylesheet.Lint
