import Stylesheet.Tree

/-!
# Dumping a tree

One line for each node, indented by its depth, with the message of its
diagnostic at the end.  The parts of a conditional stand under headings of their
own.
-/

namespace Stylesheet

/-- How a dump names the sort of a selector. -/
def SelectorSort.title : SelectorSort → String
  | tag => "Tag"
  | cls => "Class"
  | id => "Id"

namespace Content

/-- What a dump says about a node without its children. -/
def headline {α : Type} : Content α → String
  | selector text => (SelectorSort.of text).title ++ "Selector: " ++ text
  | propertyName name => "Property: " ++ name
  | literal value => value.kind.name ++ "Literal: " ++ value.text
  | reference name => "VariableReference: " ++ name
  | content => content.sortName

end Content

/-- The message of a node's diagnostic at the end of its line. -/
def Label.remark (label : Label) : String :=
  match label.diagnostic with
  | some d => "  !! " ++ d.message
  | none => ""

namespace Tree

/-- A line at the given depth. -/
def dumpLine (depth : Nat) (text : String) : String :=
  String.ofList (List.replicate (2 * depth) ' ') ++ text

mutual

/-- The lines of a tree whose root stands at the given depth. -/
def dumpLines (depth : Nat) : Tree → List String
  | missing => []
  | node label content =>
      dumpLine depth (content.headline ++ label.remark)
        :: dumpContent depth content

/-- The lines below a node that stands at the given depth. -/
def dumpContent (depth : Nat) : Content Tree → List String
  | .stylesheet body | .elseClause body => dumpAll (depth + 1) body
  | .stylerule selectors body =>
      dumpAll (depth + 1) selectors ++ dumpAll (depth + 1) body
  | .declaration first second | .assignment first second
  | .operation _ first second =>
      dumpLines (depth + 1) first ++ dumpLines (depth + 1) second
  | .ifClause guard body otherwise =>
      [dumpLine (depth + 1) "Condition:"] ++ dumpLines (depth + 2) guard
        ++ [dumpLine (depth + 1) "Body:"] ++ dumpAll (depth + 2) body
        ++ dumpLines (depth + 1) otherwise
  | .selector _ | .propertyName _ | .literal _ | .reference _ => []

def dumpAll (depth : Nat) : List Tree → List String
  | [] => []
  | t :: ts => dumpLines depth t ++ dumpAll depth ts

end

/-- The dump of a tree, every line ended by a newline. -/
def dump (t : Tree) : String :=
  String.join ((t.dumpLines 0).map (· ++ "\n"))

end Tree
end Stylesheet
