import Stylesheet.Scope
import Stylesheet.Tree

/-!
# Evaluation

Evaluating a sheet in place.  Assignments are recorded and dropped, a
conditional gives way to the branch that its guard selects, and the expression
of a declaration is replaced by its value.  What has no value, or carries a
diagnostic, is left as it is.
-/

namespace Stylesheet

/-- The value of an expression, given those of the variables; a variable may be
bound without having a value. -/
def Tree.eval? (env : Scope (Option Literal)) : Tree → Option Literal
  | .node _ (.literal value) => some value
  | .node _ (.reference name) => (env.lookup? name).join
  | .node _ (.operation op lhs rhs) =>
      match lhs.eval? env, rhs.eval? env with
      | some left, some right => op.result? left right
      | _, _ => none
  | _ => none

namespace Evaluation

/-- A sheet under evaluation, with the variables that are visible. -/
structure State where
  arena : Arena
  env : Scope (Option Literal)

/-- Where a list of items stands. -/
inductive Level where
  | top
  | inner
  deriving DecidableEq

namespace State

/-- Records an assignment.  One without a value still hides outer variables of
its name. -/
def assign (id target expr : NodeId) (st : State) : State :=
  match (st.arena.tree target).variableName? with
  | some name =>
      let value :=
        if (st.arena.tree id).hasDiagnostic then none
        else (st.arena.tree expr).eval? st.env
      { st with env := st.env.define name value }
  | none => st

/-- Replaces the expression of a declaration by a new literal at the same
place. -/
def declare (id property expr : NodeId) (st : State) : State :=
  if (st.arena.tree id).hasDiagnostic then st
  else match st.arena.node? expr with
    | none | some ⟨_, _, .literal _⟩ => st
    | some node =>
        match (st.arena.tree expr).eval? st.env with
        | some value =>
            let added := st.arena.add node.pos (.literal value)
            { st with arena :=
              added.2.setContent id (.declaration property added.1) }
        | none => st

/-- Whether a conditional selects its first branch. -/
def guardHolds (id guard : NodeId) (st : State) : Bool :=
  (st.arena.diagnosticOf id).isNone && !(st.arena.tree guard).hasDiagnostic
    && (st.arena.tree guard).eval? st.env = some (.bool true)

/-- The items of the branch that a conditional selects. -/
def branch (id guard : NodeId) (body : List NodeId) (otherwise : NodeId)
    (st : State) : List NodeId :=
  if st.guardHolds id guard then body
  else match st.arena.node? otherwise with
    | some ⟨_, _, .elseClause items⟩ => items
    | _ => []

/-- Runs an evaluation in a frame of its own, which is closed behind it. -/
def inFrame {α : Type} (run : State → α × State) (st : State) : α × State :=
  let inside := run { st with env := st.env.push }
  (inside.1, { inside.2 with env := inside.2.env.pop?.getD inside.2.env })

end State

/-- Evaluates one item and gives what takes its place; `inner` evaluates the
items inside it. -/
def item (inner : List NodeId → State → List NodeId × State) (level : Level)
    (id : NodeId) (st : State) : List NodeId × State :=
  match (st.arena.node? id).map Node.content with
  | some (.assignment target expr) => ([], st.assign id target expr)
  | some (.declaration property expr) => ([id], st.declare id property expr)
  | some (.stylerule selectors body) =>
      let inside := st.inFrame (inner body)
      ([id], { inside.2 with
        arena := inside.2.arena.setContent id (.stylerule selectors inside.1) })
  | some (.ifClause guard body otherwise) =>
      match level with
      | .top => ([], st)
      | .inner => st.inFrame (inner (st.branch id guard body otherwise))
  | some (.elseClause _) => ([], st)
  | _ => ([id], st)

/-- Evaluates the items of a list from left to right. -/
def items (inner : List NodeId → State → List NodeId × State) (level : Level) :
    List NodeId → State → List NodeId × State
  | [], st => ([], st)
  | id :: ids, st =>
      let first := item inner level id st
      let more := items inner level ids first.2
      (first.1 ++ more.1, more.2)

/-- Evaluates the items of a rule or a branch, down to the given depth. -/
def bodyWithin : Nat → List NodeId → State → List NodeId × State
  | 0 => fun ids st => (ids, st)
  | n + 1 => items (bodyWithin n) .inner

end Evaluation

open Evaluation in
/-- The evaluated sheet.  Lists of items are nested less deep than the arena is
long, when no node is below itself. -/
def Arena.evaluate (a : Arena) : Arena :=
  match a.rootBody? with
  | some body =>
      let done := items (bodyWithin a.size) .top body ⟨a, .empty⟩
      done.2.arena.setContent a.root (.stylesheet done.1)
  | none => a

end Stylesheet
