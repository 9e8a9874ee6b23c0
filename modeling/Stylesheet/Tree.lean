import Stylesheet.Arena

/-!
# Trees

What is seen from a node of an arena: the node with its number, place and
diagnostic, and the trees of its children.  A reference to no node shows as a
missing tree.  Passes that only read an arena are functions of its trees.
-/

namespace Stylesheet

/-- What is known about a node besides its content. -/
structure Label where
  id : NodeId
  pos : Position
  diagnostic : Option Diagnostic

/-- A node of an arena with everything below it. -/
inductive Tree where
  | missing
  | node (label : Label) (content : Content Tree)

namespace Arena

/-- The tree of a node down to the given depth. -/
def treeWithin (a : Arena) : Nat → NodeId → Tree
  | 0, _ => .missing
  | n + 1, id =>
      match a.node? id with
      | some node =>
          .node ⟨id, node.pos, node.diagnostic⟩
            (node.content.map (a.treeWithin n))
      | none => .missing

/-- The tree of a node.  No path without a repetition is longer than the arena,
so nothing below the node is left out when no node is below itself. -/
def tree (a : Arena) (id : NodeId) : Tree :=
  a.treeWithin a.size id

/-- The tree of the whole sheet. -/
def rootTree (a : Arena) : Tree :=
  a.tree a.root

end Arena

namespace Tree

mutual

/-- The trees met on a walk that comes to a node before its children, and from
left to right.  The walk passes over what is below a node whose content is to be
skipped. -/
def walk (skip : Content Tree → Bool) : Tree → List Tree
  | missing => []
  | node label content =>
      node label content ::
        (if skip content then [] else walkContent skip content)

def walkContent (skip : Content Tree → Bool) : Content Tree → List Tree
  | .stylesheet body | .elseClause body => walkAll skip body
  | .stylerule selectors body => walkAll skip selectors ++ walkAll skip body
  | .declaration first second | .assignment first second
  | .operation _ first second =>
      walk skip first ++ walk skip second
  | .ifClause guard body otherwise =>
      walk skip guard ++ walkAll skip body ++ walk skip otherwise
  | .selector _ | .propertyName _ | .literal _ | .reference _ => []

def walkAll (skip : Content Tree → Bool) : List Tree → List Tree
  | [] => []
  | t :: ts => walk skip t ++ walkAll skip ts

end

/-- A tree and all trees below it, on a walk that skips nothing. -/
def subtrees (t : Tree) : List Tree :=
  t.walk fun _ => false

def label? : Tree → Option Label
  | missing => none
  | node label _ => some label

def content? : Tree → Option (Content Tree)
  | missing => none
  | node _ content => some content

/-- The diagnostic attached to the node itself. -/
def diagnostic? (t : Tree) : Option Diagnostic :=
  t.label?.bind Label.diagnostic

/-- The diagnostics on the node and below it, in the order of a walk. -/
def diagnostics (t : Tree) : Diagnostics :=
  t.subtrees.filterMap diagnostic?

/-- Whether the node or one below it has a diagnostic. -/
def hasDiagnostic (t : Tree) : Bool :=
  t.subtrees.any fun s => s.diagnostic?.isSome

/-- The name of the node's sort. -/
def sortName : Tree → String
  | missing => "nothing"
  | node _ content => content.sortName

/-- The name that a reference to a variable holds. -/
def variableName? : Tree → Option String
  | node _ (.reference name) => some name
  | _ => none

/-- The name that a property name holds. -/
def propertyName? : Tree → Option String
  | node _ (.propertyName name) => some name
  | _ => none

/-- The text that a selector holds. -/
def selectorText? : Tree → Option String
  | node _ (.selector text) => some text
  | _ => none

/-- The value that a literal holds. -/
def literalValue? : Tree → Option Literal
  | node _ (.literal value) => some value
  | _ => none

end Tree

/-- The diagnostics of a sheet, in the order of a walk. -/
def Arena.diagnostics (a : Arena) : Diagnostics :=
  a.rootTree.diagnostics

end Stylesheet
