import Stylesheet.Arena
import Stylesheet.Sheet

/-!
# The arena of a sheet

A sheet is stored with its root first and every other node behind its own
children, so that a child's number is smaller than its parent's everywhere below
the root.
-/

namespace Stylesheet

def Expr.store : Expr → Arena → NodeId × Arena
  | .literal pos value, a => a.add pos (.literal value)
  | .reference pos name, a => a.add pos (.reference name)
  | .operation pos op lhs rhs, a =>
      let left := lhs.store a
      let right := rhs.store left.2
      right.2.add pos (.operation op left.1 right.1)

/-- A declaration behind its property name and its expression. -/
def storeDeclaration (pos : Position) (property : String) (expr : Expr)
    (a : Arena) : NodeId × Arena :=
  let name := a.add pos (.propertyName property)
  let value := expr.store name.2
  value.2.add pos (.declaration name.1 value.1)

/-- An assignment behind its target and its expression. -/
def storeAssignment (pos : Position) (name : String) (expr : Expr) (a : Arena) :
    NodeId × Arena :=
  let target := a.add pos (.reference name)
  let value := expr.store target.2
  value.2.add pos (.assignment target.1 value.1)

mutual

def Item.store : Item → Arena → NodeId × Arena
  | .declaration pos property expr, a => storeDeclaration pos property expr a
  | .assignment pos name expr, a => storeAssignment pos name expr a
  | .ifThen pos guard body, a =>
      let cond := guard.store a
      let inside := storeItems body cond.2
      inside.2.add pos (.ifClause cond.1 inside.1 noNode)
  | .ifElse pos guard body elsePos otherwise, a =>
      let cond := guard.store a
      let inside := storeItems body cond.2
      let instead := storeItems otherwise inside.2
      let clause := instead.2.add elsePos (.elseClause instead.1)
      clause.2.add pos (.ifClause cond.1 inside.1 clause.1)

def storeItems : List Item → Arena → List NodeId × Arena
  | [], a => ([], a)
  | item :: items, a =>
      let first := item.store a
      let more := storeItems items first.2
      (first.1 :: more.1, more.2)

end

def storeSelectors : List Selector → Arena → List NodeId × Arena
  | [], a => ([], a)
  | selector :: selectors, a =>
      let first := a.add selector.pos (.selector selector.text)
      let more := storeSelectors selectors first.2
      (first.1 :: more.1, more.2)

def Statement.store : Statement → Arena → NodeId × Arena
  | .assignment pos name expr, a => storeAssignment pos name expr a
  | .rule pos selectors body, a =>
      let heads := storeSelectors selectors a
      let inside := storeItems body heads.2
      inside.2.add pos (.stylerule heads.1 inside.1)
  | .ifThen pos guard body, a => (Item.ifThen pos guard body).store a
  | .ifElse pos guard body elsePos otherwise, a =>
      (Item.ifElse pos guard body elsePos otherwise).store a

def storeStatements : List Statement → Arena → List NodeId × Arena
  | [], a => ([], a)
  | statement :: statements, a =>
      let first := statement.store a
      let more := storeStatements statements first.2
      (first.1 :: more.1, more.2)

/-- The arena of a sheet. -/
def Arena.ofSheet (sheet : Sheet) : Arena :=
  let stored := storeStatements sheet .empty
  stored.2.setContent 0 (.stylesheet stored.1)

end Stylesheet
