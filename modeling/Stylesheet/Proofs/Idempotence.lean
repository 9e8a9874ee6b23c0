import Stylesheet.Proofs.Annotation
import Stylesheet.Proofs.Evaluation

/-!
# Evaluating twice

Evaluation leaves a sheet of rules and declarations at which it has nothing more
to do.  What is left without a value was evaluated with the variables in front
of it, and a second run finds none of these; but an expression that has a value
without variables has the same value with any.
-/

namespace Stylesheet

open Arena Evaluation

variable {notes : NodeId → Option Diagnostic}

/-! ## Sheets without anything to evaluate -/

namespace Arena

/-- A declaration that evaluation leaves alone as long as no variable has a
value. -/
def InertDeclaration (a : Arena) (id : NodeId) : Prop :=
  ∃ pos d property expr, a.node? id =
    some ⟨pos, d, .declaration property expr⟩ ∧
    ((a.tree id).hasDiagnostic ∨
      (∃ pos' d' value, a.node? expr = some ⟨pos', d', .literal value⟩) ∨
        (a.tree expr).eval? .empty = none)

def InertRule (a : Arena) (id : NodeId) : Prop :=
  ∃ pos d selectors body, a.node? id =
    some ⟨pos, d, .stylerule selectors body⟩ ∧
    ∀ item ∈ body, a.InertDeclaration item

/-- The root is a sheet of rules, and these hold nothing but declarations that
evaluation leaves alone. -/
def Normal (a : Arena) : Prop :=
  ∃ body, a.rootBody? = some body ∧ ∀ id ∈ body, a.InertRule id

theorem setContent_self
    {a : Arena} {id : Int} {node : Node} (hnode : a.node? id = some node) :
    a.setContent id node.content = a := by
  refine ext_node? (root_setContent a id _) fun j => ?_
  rw [node?_setContent]
  by_cases hj : j = id
  · rw [if_pos hj, hj, hnode]
    rfl
  · rw [if_neg hj]

end Arena

@[simp] theorem Tree.eval?_push (env : Scope (Option Literal)) (t : Tree) :
    t.eval? env.push = t.eval? env := by
  induction t using Tree.induction_on with
  | hmissing => simp [Tree.eval?]
  | hnode label c ih =>
      cases c with
      | operation op lhs rhs =>
          rw [Tree.eval?_operation, Tree.eval?_operation,
            ih lhs (by simp [Content.toList]),
            ih rhs (by simp [Content.toList])]
      | _ => simp [Tree.eval?]

namespace Evaluation

/-- Items that are kept one by one are kept together. -/
theorem items_eq_self
    {inner : List NodeId → State → List NodeId × State} {level : Level}
    {ids : List NodeId} {st : State}
    (h : ∀ id ∈ ids, item inner level id st = ([id], st)) :
    items inner level ids st = (ids, st) := by
  induction ids with
  | nil => rfl
  | cons id ids ih =>
      rw [List.forall_mem_cons] at h
      rw [items, h.1]
      simp only [ih h.2, List.singleton_append]

theorem item_of_inertDeclaration
    {inner : List NodeId → State → List NodeId × State} {level : Level}
    {a : Arena} {id : NodeId} (h : a.InertDeclaration id) :
    item inner level id ⟨a, Scope.empty.push⟩ =
      ([id], ⟨a, Scope.empty.push⟩) := by
  obtain ⟨pos, d, property, expr, hnode, hcases⟩ := h
  simp only [item, hnode, Option.map_some]
  refine congrArg (Prod.mk [id]) ?_
  unfold State.declare
  rcases hcases with hdiag | ⟨pos', d', value, hliteral⟩ | hvalue
  · exact if_pos hdiag
  · simp only [hliteral, ite_self]
  · simp only [Tree.eval?_push, hvalue]
    split
    · rfl
    · split <;> rfl

theorem bodyWithin_of_inert
    {a : Arena} {body : List NodeId} (h : ∀ id ∈ body, a.InertDeclaration id)
    (k : Nat) :
    bodyWithin k body ⟨a, Scope.empty.push⟩ =
      (body, ⟨a, Scope.empty.push⟩) := by
  cases k with
  | zero => rfl
  | succ k =>
      exact items_eq_self fun id hid => item_of_inertDeclaration (h id hid)

theorem item_of_inertRule
    {a : Arena} {id : NodeId} (h : a.InertRule id) (k : Nat) :
    item (bodyWithin k) .top id ⟨a, .empty⟩ = ([id], ⟨a, .empty⟩) := by
  obtain ⟨pos, d, selectors, body, hnode, hbody⟩ := h
  have hsame : a.setContent id (.stylerule selectors body) = a :=
    setContent_self hnode
  simp only [item, hnode, Option.map_some, State.inFrame,
    bodyWithin_of_inert hbody, hsame, Scope.pop?_push, Option.getD_some]

end Evaluation

theorem Arena.Normal.evaluate_eq {a : Arena} (h : a.Normal) :
    a.evaluate = a := by
  obtain ⟨body, hbody, hrules⟩ := h
  have hitems : items (bodyWithin a.size) .top body ⟨a, .empty⟩ =
      (body, ⟨a, .empty⟩) :=
    items_eq_self fun id hid => item_of_inertRule (hrules id hid) a.size
  have hroot : ∃ node, a.node? a.root = some node ∧
      node.content = .stylesheet body := by
    unfold rootBody? at hbody
    split at hbody
    next pos d body' hnode => exact ⟨_, hnode, by rw [Option.some.inj hbody]⟩
    next => cases hbody
  obtain ⟨node, hnode, hcontent⟩ := hroot
  simp only [Arena.evaluate, hbody, hitems]
  rw [← hcontent, setContent_self hnode]

/-! ## What evaluation leaves -/

/-- An expression that has a value without variables has the same value with
any. -/
theorem Expr.value?_of_empty
    {e : Expr} {value : Literal} (h : e.value? .empty = some value)
    (env : Env) :
    e.value? env = some value := by
  induction e generalizing value with
  | literal pos value' => exact h
  | reference pos name => cases h
  | operation pos op lhs rhs ihl ihr =>
      rw [Expr.value?_operation] at h ⊢
      obtain ⟨left, hleft, h⟩ := Option.bind_eq_some_iff.mp h
      obtain ⟨right, hright, h⟩ := Option.bind_eq_some_iff.mp h
      rw [ihl hleft, Option.bind_some, ihr hright, Option.bind_some, h]

theorem Expr.value?_empty_eq_none
    {e : Expr} {env : Env} (h : e.value? env = none) :
    e.value? .empty = none := by
  cases hvalue : e.value? .empty with
  | none => rfl
  | some value => rw [Expr.value?_of_empty hvalue env] at h; cases h

/-- Whatever the variables were when evaluation came to a declaration, it has
nothing to do there when they are gone. -/
theorem Selected.inertDeclaration
    {a : Arena} {s : Selected} {fresh : Nat} {env : Env}
    (hvalue : s.value = Selection.value? notes env s.tree s.expr)
    (h : a.Holds (s.evaluated notes fresh)) : a.InertDeclaration s.id := by
  cases hwritten : s.written? with
  | some value =>
      have hexpr : s.exprTree notes fresh =
          .plain fresh s.expr.pos (.literal value) := by
        simp only [exprTree, hwritten]
      rw [evaluated, hexpr] at h
      obtain ⟨hnode, hparts⟩ := holds_node_iff.mp h
      have hheld : a.Holds (.plain fresh s.expr.pos (.literal value)) :=
        hparts _ (by simp [Content.toList])
      exact ⟨_, _, _, _, hnode,
        .inr (.inl ⟨_, _, value, (holds_node_iff.mp hheld).1⟩)⟩
  | none =>
      rw [evaluated_of_written?_none hwritten] at h
      obtain ⟨hnode, -, hexpr⟩ := holds_declarationTree h
      obtain ⟨c, htop, hliteral⟩ := holds_expr hexpr
      refine ⟨_, _, _, _, hnode, ?_⟩
      by_cases he : ∃ value, s.expr = .literal s.expr.pos value
      · obtain ⟨value, he⟩ := he
        rw [(hliteral value).mpr he] at htop
        exact .inr (.inl ⟨_, _, value, htop⟩)
      · rw [s.written?_of_ne_literal fun value hlit => he ⟨value, hlit⟩, hvalue,
          Selection.value?] at hwritten
        split at hwritten
        next hdiag =>
          have htree : a.tree s.id = s.tree.noted notes :=
            h.tree_eq (ids_declarationTree_perm _ _ _ _)
          exact .inl (htree ▸ hdiag)
        next =>
          have hsees : State.Sees ⟨a, .empty⟩ .empty := fun _ => rfl
          refine .inr (.inr ?_)
          rw [hexpr.tree_eq (s.expr.ids_treeAt_perm _),
            eval?_noted_treeAt notes hsees]
          exact Expr.value?_empty_eq_none hwritten

theorem SelectedRule.inertRule
    {a : Arena} {r : SelectedRule} {fresh : Nat}
    (h : a.Holds (r.evaluated notes fresh)) :
    a.InertRule r.id := by
  obtain ⟨hnode, hparts⟩ := holds_node_iff.mp h
  refine ⟨_, _, _, _, hnode, fun id hid => ?_⟩
  obtain ⟨t, ht, rfl⟩ := List.mem_map.mp hid
  have hheld := hparts t (List.mem_append_right _ ht)
  obtain ⟨s, hs, fresh', -, rfl⟩ :=
    (Selected.rewriting notes).exists_of_mem_afterAll ht
  obtain ⟨env, hvalue⟩ := Selection.exists_env_of_mem_ofItems notes _ _ _ hs
  exact Selected.inertDeclaration hvalue hheld

theorem Arena.Stores.normal_evaluate
    {a : Arena} {sheet : Sheet} (h : a.Stores sheet) : a.evaluate.Normal := by
  refine ⟨_, h.rootBody?_evaluate, fun id hid => ?_⟩
  obtain ⟨r, hr, rfl⟩ := List.mem_map.mp hid
  obtain ⟨fresh, hmem⟩ :=
    (SelectedRule.rewriting a.diagnosticOf).exists_mem_afterAll hr a.size
  exact SelectedRule.inertRule ((holds_node_iff.mp h.holds_evaluate).2 _ hmem)

/-- Evaluating the sheet of a source, whatever diagnostics are attached to its
nodes, leaves nothing to evaluate, and a second run changes nothing at all. -/
theorem evaluate_parse_idempotent (source : List Char)
    (notes : NodeId → Option Diagnostic) :
    ((parse source).arena.noted notes).evaluate.Normal ∧
      ((parse source).arena.noted notes).evaluate.evaluate =
        ((parse source).arena.noted notes).evaluate := by
  have hnormal := ((stores_parse source).noted notes).normal_evaluate
  exact ⟨hnormal, hnormal.evaluate_eq⟩

end Stylesheet
