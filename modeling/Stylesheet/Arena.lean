import Stylesheet.Diagnostic
import Stylesheet.Literal

/-!
# Arenas

A sheet as an array of nodes that refer to each other by number.  Nodes are only
ever added at the end, so a number keeps its meaning; passes over a sheet attach
diagnostics to nodes and replace lists of children.  An arena made by hand may
share nodes, and its references may lead nowhere or to a node of an unexpected
sort.
-/

namespace Stylesheet

/-- What a node is, with its children given by values of `α`. -/
inductive Content (α : Type) where
  | stylesheet (body : List α)
  | stylerule (selectors body : List α)
  | selector (text : String)
  | declaration (property expr : α)
  | propertyName (name : String)
  | assignment (target expr : α)
  | ifClause (guard : α) (body : List α) (otherwise : α)
  | elseClause (body : List α)
  | literal (value : Literal)
  | reference (name : String)
  | operation (op : Operator) (lhs rhs : α)

/-- The three sorts of selectors. -/
inductive SelectorSort where
  | tag
  | cls
  | id
  deriving DecidableEq

/-- The sort of a selector, by its first character. -/
def SelectorSort.of (text : String) : SelectorSort :=
  match text.toList with
  | '.' :: _ => cls
  | '#' :: _ => id
  | _ => tag

namespace Content

/-- The name of a node's sort. -/
def sortName {α : Type} : Content α → String
  | stylesheet _ => "Stylesheet"
  | stylerule _ _ => "Stylerule"
  | selector _ => "Selector"
  | declaration _ _ => "Declaration"
  | propertyName _ => "PropertyName"
  | assignment _ _ => "VariableAssignment"
  | ifClause _ _ _ => "IfClause"
  | elseClause _ => "ElseClause"
  | literal value => value.kind.name ++ "Literal"
  | reference _ => "VariableReference"
  | operation op _ _ => op.name

/-- The same node with its children replaced one by one. -/
def map {α β : Type} (f : α → β) : Content α → Content β
  | stylesheet body => stylesheet (body.map f)
  | stylerule selectors body => stylerule (selectors.map f) (body.map f)
  | selector text => selector text
  | declaration property expr => declaration (f property) (f expr)
  | propertyName name => propertyName name
  | assignment target expr => assignment (f target) (f expr)
  | ifClause guard body otherwise =>
      ifClause (f guard) (body.map f) (f otherwise)
  | elseClause body => elseClause (body.map f)
  | literal value => literal value
  | reference name => reference name
  | operation op lhs rhs => operation op (f lhs) (f rhs)

end Content

/-- The number of a node; other integers refer to no node.  The numbers have no
bound: arenas with more nodes than signed words of 32 bits can number are left
out of account. -/
abbrev NodeId := Int

/-- The reference that stands for an absent child. -/
def noNode : NodeId := -1

namespace Content

/-- The children of a node in order.  An absent child is left out where a child
may be absent, and kept in a list. -/
def children : Content NodeId → List NodeId
  | stylesheet body | elseClause body => body
  | stylerule selectors body => selectors ++ body
  | declaration first second | assignment first second
  | operation _ first second =>
      [first, second].filter (· ≠ noNode)
  | ifClause guard body otherwise =>
      [guard].filter (· ≠ noNode) ++ body ++ [otherwise].filter (· ≠ noNode)
  | selector _ | propertyName _ | literal _ | reference _ => []

end Content

/-- A node: its place, the diagnostic attached to it, and what it is. -/
structure Node where
  pos : Position
  diagnostic : Option Diagnostic
  content : Content NodeId

/-- A sheet as an array of nodes, with the number of its root. -/
structure Arena where
  nodes : Array Node
  root : NodeId

namespace Arena

/-- A sheet with nothing in it. -/
def empty : Arena :=
  ⟨#[⟨.start, none, .stylesheet []⟩], 0⟩

def size (a : Arena) : Nat := a.nodes.size

/-- The node with the given number. -/
def node? (a : Arena) (id : NodeId) : Option Node :=
  if id < 0 then none else a.nodes[id.toNat]?

/-- Adds a node at the end; its number is the old size. -/
def add (pos : Position) (content : Content NodeId)
    (a : Arena) : NodeId × Arena :=
  (a.size, { a with nodes := a.nodes.push ⟨pos, none, content⟩ })

/-- Changes the node with the given number, if there is one. -/
def modify (id : NodeId) (f : Node → Node) (a : Arena) : Arena :=
  if id < 0 then a else { a with nodes := a.nodes.modify id.toNat f }

/-- Replaces what a node is. -/
def setContent (id : NodeId) (content : Content NodeId) (a : Arena) : Arena :=
  a.modify id fun node => { node with content := content }

/-- The children of a node. -/
def children (a : Arena) (id : NodeId) : List NodeId :=
  match a.node? id with
  | some node => node.content.children
  | none => []

/-- The diagnostic attached to a node itself. -/
def diagnosticOf (a : Arena) (id : NodeId) : Option Diagnostic :=
  (a.node? id).bind Node.diagnostic

/-- Attaches an error at the node's place; a node keeps its first diagnostic. -/
def annotate? (id : NodeId) (kind : DiagnosticKind) (message : String)
    (a : Arena) : Option Arena :=
  match a.node? id with
  | some ⟨pos, none, _⟩ =>
      some (a.modify id fun node =>
        { node with diagnostic := some (.error kind pos message) })
  | _ => none

/-- Attaches an error where that is possible. -/
def annotate (id : NodeId) (kind : DiagnosticKind) (message : String)
    (a : Arena) : Arena :=
  (a.annotate? id kind message).getD a

/-- Replaces the items of a sheet; none if the node is not a sheet. -/
def setBody? (id : NodeId) (body : List NodeId) (a : Arena) : Option Arena :=
  match a.node? id with
  | some ⟨_, _, .stylesheet _⟩ => some (a.setContent id (.stylesheet body))
  | _ => none

/-- The items of the sheet at the root, if the root is a sheet. -/
def rootBody? (a : Arena) : Option (List NodeId) :=
  match a.node? a.root with
  | some ⟨_, _, .stylesheet body⟩ => some body
  | _ => none

end Arena
end Stylesheet
