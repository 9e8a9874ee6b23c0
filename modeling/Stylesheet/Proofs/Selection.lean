import Stylesheet.Evaluation
import Stylesheet.Proofs.Meaning
import Stylesheet.Proofs.Numbering
import Stylesheet.Proofs.Scope

/-!
# What evaluation selects

Evaluation in place described on the syntax of a sheet: which declarations it
keeps, with the values it finds for them, and which nodes of the arena it
writes.  Diagnostics may be attached to any of the nodes; what carries one is
not evaluated.
-/

namespace Stylesheet

/-- A declaration that evaluation keeps: the number of its first node, what it
says, and the value that is found for it. -/
structure Selected where
  first : Nat
  pos : Position
  property : String
  expr : Expr
  value : Option Literal

namespace Selected

/-- The number of the declaration itself, which comes behind its parts. -/
def id (s : Selected) : Nat :=
  s.first + 1 + s.expr.count

theorem first_le_id (s : Selected) : s.first ≤ s.id :=
  Nat.le_trans (Nat.le_add_right _ 1) (Nat.le_add_right _ _)

/-- The tree of the declaration before evaluation. -/
def tree (s : Selected) : Tree :=
  declarationTree s.first s.pos s.property s.expr

theorem mem_ids_tree {s : Selected} {id : Int} :
    id ∈ s.tree.ids ↔ (s.first : Int) ≤ id ∧ id ≤ s.id := by
  rw [tree, (ids_declarationTree_perm _ _ _ _).mem_iff, mem_idRange,
    Selected.id]
  omega

/-- The value that replaces the expression; a literal is left alone. -/
def written? (s : Selected) : Option Literal :=
  match s.expr with
  | .literal _ _ => none
  | _ => s.value

theorem written?_of_literal
    (s : Selected) {pos : Position} {value : Literal}
    (h : s.expr = .literal pos value) :
    s.written? = none := by
  simp only [written?, h]

theorem written?_of_ne_literal
    (s : Selected) (h : ∀ value, s.expr ≠ .literal s.expr.pos value) :
    s.written? = s.value := by
  unfold written?
  split
  next heq => exact absurd (by rw [heq]; rfl) (h _)
  next => rfl

/-- The value that the declaration shows after evaluation. -/
def result? (s : Selected) : Option Literal :=
  match s.expr with
  | .literal _ value => some value
  | _ => s.value

/-- What evaluation does to the arena when it comes to the declaration. -/
def write (a : Arena) (s : Selected) : Arena :=
  match s.written? with
  | some value =>
      (a.add s.expr.pos (.literal value)).2.setContent s.id
        (.declaration s.first a.size)
  | none => a

end Selected

namespace Selection

variable (notes : NodeId → Option Diagnostic)

/-- The value of an expression that belongs to the tree `t`; none if `t` carries
a diagnostic. -/
def value? (env : Env) (t : Tree) (expr : Expr) : Option Literal :=
  if (t.noted notes).hasDiagnostic then none else expr.value? env

/-- The values of the variables behind an item. -/
def afterItem (env : Env) (n : Nat) : Item → Env
  | .assignment pos name expr =>
      env.bind name (value? notes env (assignmentTree n pos name expr) expr)
  | _ => env

/-- Whether a conditional with the number `top` selects its first branch. -/
def guardHolds (env : Env) (n top : Nat) (guard : Expr) : Bool :=
  (notes top).isNone && value? notes env (guard.treeAt n) guard =
    some (.bool true)

mutual

/-- The declarations selected from an item whose nodes are numbered from `n`
on. -/
def ofItem (env : Env) (n : Nat) : Item → List Selected
  | .declaration pos property expr =>
      [⟨n, pos, property, expr,
        value? notes env (declarationTree n pos property expr) expr⟩]
  | .assignment _ _ _ => []
  | .ifThen _ guard body =>
      if guardHolds notes env n (n + guard.count + countItems body) guard then
        ofItems env (n + guard.count) body
      else []
  | .ifElse _ guard body _ otherwise =>
      if guardHolds notes env n
        (n + guard.count + countItems body + countItems otherwise + 1)
          guard then
        ofItems env (n + guard.count) body
      else ofItems env (n + guard.count + countItems body) otherwise

def ofItems (env : Env) (n : Nat) : List Item → List Selected
  | [] => []
  | item :: items =>
      ofItem env n item
        ++ ofItems (afterItem notes env n item) (n + item.count) items

end

end Selection

/-- A rule that evaluation keeps: the number of its first node, what it says,
and the values of the variables in front of it. -/
structure SelectedRule where
  first : Nat
  pos : Position
  selectors : List Selector
  body : List Item
  env : Env

namespace SelectedRule

variable (notes : NodeId → Option Diagnostic)

/-- The number of the rule itself, which comes behind its parts. -/
def id (r : SelectedRule) : Nat :=
  r.first + r.selectors.length + countItems r.body

theorem first_le_id (r : SelectedRule) : r.first ≤ r.id :=
  Nat.le_trans (Nat.le_add_right _ _) (Nat.le_add_right _ _)

/-- The tree of the rule before evaluation. -/
def tree (r : SelectedRule) : Tree :=
  (Statement.rule r.pos r.selectors r.body).treeAt r.first

theorem mem_ids_tree {r : SelectedRule} {id : Int} :
    id ∈ r.tree.ids ↔ (r.first : Int) ≤ id ∧ id ≤ r.id := by
  rw [tree, (Statement.ids_treeAt_perm _ _).mem_iff, mem_idRange,
    Statement.count, SelectedRule.id]
  omega

def declarations (r : SelectedRule) : List Selected :=
  Selection.ofItems notes r.env (r.first + r.selectors.length) r.body

/-- What evaluation does to the arena when it comes to the rule. -/
def write (a : Arena) (r : SelectedRule) : Arena :=
  ((r.declarations notes).foldl Selected.write a).setContent r.id
    (.stylerule ((selectorTrees r.first r.selectors).map Tree.rootId)
      ((r.declarations notes).map fun s => (s.id : NodeId)))

end SelectedRule

namespace Selection

variable (notes : NodeId → Option Diagnostic)

/-- The rules selected from statements whose nodes are numbered from `n` on. -/
def ofStatements (env : Env) (n : Nat) : List Statement → List SelectedRule
  | [] => []
  | .assignment pos name expr :: statements =>
      ofStatements (env.bind name
        (value? notes env (assignmentTree n pos name expr) expr))
        (n + (1 + expr.count + 1)) statements
  | .rule pos selectors body :: statements =>
      ⟨n, pos, selectors, body, env⟩ ::
        ofStatements env (n + (selectors.length + countItems body + 1))
        statements
  | .ifThen pos guard body :: statements =>
      ofStatements env (n + (Item.ifThen pos guard body).count) statements
  | .ifElse pos guard body elsePos otherwise :: statements =>
      ofStatements env
        (n + (Item.ifElse pos guard body elsePos otherwise).count) statements

/-- The rules selected from a whole sheet. -/
def ofSheet (sheet : Sheet) : List SelectedRule :=
  ofStatements notes .empty 1 sheet

/-! ## Where selected declarations stand -/

/-- A selected declaration is a part of the items it is selected from. -/
theorem tree_mem_of_mem_ofItems
    (items : List Item) (env : Env) (n : Nat) {s : Selected}
    (hs : s ∈ ofItems notes env n items) :
    ∃ t ∈ itemTrees n items, s.tree ∈ t.subtrees := by
  induction items using Item.list_induction generalizing n env with
  | nil => simp [ofItems] at hs
  | declaration pos property expr items ih =>
      rw [ofItems, ofItem, List.singleton_append, List.mem_cons] at hs
      rw [itemTrees, List.exists_mem_cons_iff]
      rcases hs with rfl | hs
      · exact .inl (Tree.self_mem_subtrees ..)
      · exact .inr (ih _ _ hs)
  | assignment pos name expr items ih =>
      rw [ofItems, ofItem, List.nil_append] at hs
      rw [itemTrees, List.exists_mem_cons_iff]
      exact .inr (ih _ _ hs)
  | ifThen pos guard body items ihbody ih =>
      rw [ofItems, ofItem, List.mem_append] at hs
      rw [itemTrees, List.exists_mem_cons_iff]
      rcases hs with hs | hs
      · split at hs
        · obtain ⟨t, ht, hmem⟩ := ihbody _ _ hs
          rw [Item.treeAt]
          exact .inl (Tree.subtrees_subset (by simp [Content.toList, ht]) hmem)
        · cases hs
      · exact .inr (ih _ _ hs)
  | ifElse pos guard body elsePos otherwise items ihbody ihelse ih =>
      rw [ofItems, ofItem, List.mem_append] at hs
      rw [itemTrees, List.exists_mem_cons_iff]
      rcases hs with hs | hs
      · rw [Item.treeAt]
        split at hs
        · obtain ⟨t, ht, hmem⟩ := ihbody _ _ hs
          exact .inl (Tree.subtrees_subset (by simp [Content.toList, ht]) hmem)
        · obtain ⟨t, ht, hmem⟩ := ihelse _ _ hs
          have hclause : s.tree ∈ (Tree.plain
              (n + guard.count + countItems body + countItems otherwise) elsePos
                (.elseClause (itemTrees (n + guard.count + countItems body)
                  otherwise))).subtrees :=
            Tree.subtrees_subset ht hmem
          exact .inl (Tree.subtrees_subset (by simp [Content.toList]) hclause)
      · exact .inr (ih _ _ hs)

/-- The value of a selected declaration is found with some values of the
variables. -/
theorem exists_env_of_mem_ofItems
    (items : List Item) (env : Env) (n : Nat) {s : Selected}
    (hs : s ∈ ofItems notes env n items) :
    ∃ env', s.value = value? notes env' s.tree s.expr := by
  induction items using Item.list_induction generalizing n env with
  | nil => simp [ofItems] at hs
  | declaration pos property expr items ih =>
      rw [ofItems, ofItem, List.singleton_append, List.mem_cons] at hs
      rcases hs with rfl | hs
      · exact ⟨env, rfl⟩
      · exact ih _ _ hs
  | assignment pos name expr items ih => exact ih _ _ hs
  | ifThen pos guard body items ihbody ih =>
      rw [ofItems, ofItem, List.mem_append] at hs
      rcases hs with hs | hs
      · split at hs
        · exact ihbody _ _ hs
        · cases hs
      · exact ih _ _ hs
  | ifElse pos guard body elsePos otherwise items ihbody ihelse ih =>
      rw [ofItems, ofItem, List.mem_append] at hs
      rcases hs with hs | hs
      · split at hs
        · exact ihbody _ _ hs
        · exact ihelse _ _ hs
      · exact ih _ _ hs

/-- If the items are held by an arena, so are the declarations selected from
them. -/
theorem holds_of_mem_ofItems
    {a : Arena} {items : List Item} {env : Env} {n : Nat} {s : Selected}
    (h : ∀ t ∈ itemTrees n items, a.Holds (t.noted notes))
    (hs : s ∈ ofItems notes env n items) :
    a.Holds (s.tree.noted notes) := by
  obtain ⟨t, ht, hmem⟩ := tree_mem_of_mem_ofItems notes items env n hs
  exact (h t ht).of_mem_subtrees (Tree.noted_mem_subtrees notes hmem)

theorem ofItems_bounds
    (items : List Item) (env : Env) (n : Nat) {s : Selected}
    (hs : s ∈ ofItems notes env n items) :
    n ≤ s.first ∧ s.id < n + countItems items := by
  obtain ⟨t, ht, hmem⟩ := tree_mem_of_mem_ofItems notes items env n hs
  have hrange : ∀ id : Int, (s.first : Int) ≤ id → id ≤ s.id →
      (n : Int) ≤ id ∧ id < n + countItems items := by
    intro id hfirst hlast
    have hid : id ∈ s.tree.ids := Selected.mem_ids_tree.mpr ⟨hfirst, hlast⟩
    exact mem_idRange.mp ((ids_itemTrees_perm items n).mem_iff.mp
      (List.mem_flatMap.mpr ⟨t, ht, Tree.ids_subset_of_mem_subtrees hmem hid⟩))
  have hle := s.first_le_id
  have hfirst := hrange s.first (by omega) (by omega)
  have hlast := hrange s.id (by omega) (by omega)
  omega

theorem ofItem_bounds
    (item : Item) (env : Env) (n : Nat) {s : Selected}
    (hs : s ∈ ofItem notes env n item) :
    n ≤ s.first ∧ s.id < n + item.count := by
  have h := ofItems_bounds notes [item] env n (s := s)
  simp only [ofItems, List.append_nil, countItems, Nat.add_zero] at h
  exact h hs

theorem ofItems_cons_ordered
    {item : Item} {items : List Item} {env : Env} {n : Nat}
    (hitem : (ofItem notes env n item).Pairwise fun s s' => s.id < s'.first)
    (hitems : (ofItems notes (afterItem notes env n item) (n + item.count)
      items).Pairwise
      fun s s' => s.id < s'.first) :
    (ofItems notes env n (item :: items)).Pairwise fun s s' =>
      s.id < s'.first := by
  rw [ofItems, List.pairwise_append]
  refine ⟨hitem, hitems, fun s hs s' hs' => ?_⟩
  have hbefore := (ofItem_bounds notes item env n hs).2
  have hbehind := (ofItems_bounds notes items _ _ hs').1
  omega

/-- Declarations are selected from left to right. -/
theorem ofItems_ordered (items : List Item) (env : Env) (n : Nat) :
    (ofItems notes env n items).Pairwise fun s s' => s.id < s'.first := by
  induction items using Item.list_induction generalizing n env with
  | nil => exact List.Pairwise.nil
  | declaration pos property expr items ih =>
      exact ofItems_cons_ordered notes (List.pairwise_singleton ..) (ih _ _)
  | assignment pos name expr items ih =>
      exact ofItems_cons_ordered notes List.Pairwise.nil (ih _ _)
  | ifThen pos guard body items ihbody ih =>
      refine ofItems_cons_ordered notes ?_ (ih _ _)
      rw [ofItem]
      split
      · exact ihbody _ _
      · exact List.Pairwise.nil
  | ifElse pos guard body elsePos otherwise items ihbody ihelse ih =>
      refine ofItems_cons_ordered notes ?_ (ih _ _)
      rw [ofItem]
      split
      · exact ihbody _ _
      · exact ihelse _ _

/-! ## Where selected rules stand -/

variable {notes}

/-- A selected rule is one of the statements it is selected from. -/
theorem tree_mem_of_mem_ofStatements
    {statements : List Statement} {env : Env} {n : Nat} {r : SelectedRule}
    (hr : r ∈ ofStatements notes env n statements) :
    r.tree ∈ statementTrees n statements := by
  induction statements generalizing env n with
  | nil => cases hr
  | cons statement statements ih =>
      rw [statementTrees, List.mem_cons]
      cases statement with
      | rule pos selectors body =>
          rw [ofStatements, List.mem_cons] at hr
          rcases hr with rfl | hr
          · exact .inl rfl
          · exact .inr (ih hr)
      | assignment pos name expr => exact .inr (ih hr)
      | ifThen pos guard body => exact .inr (ih hr)
      | ifElse pos guard body elsePos otherwise => exact .inr (ih hr)

theorem statement_mem_of_mem_ofStatements
    {statements : List Statement} {env : Env} {n : Nat} {r : SelectedRule}
    (hr : r ∈ ofStatements notes env n statements) :
    .rule r.pos r.selectors r.body ∈ statements := by
  induction statements generalizing env n with
  | nil => cases hr
  | cons statement statements ih =>
      cases statement with
      | rule pos selectors body =>
          rw [ofStatements, List.mem_cons] at hr
          rcases hr with rfl | hr
          · exact List.mem_cons_self
          · exact List.mem_cons_of_mem _ (ih hr)
      | assignment pos name expr => exact List.mem_cons_of_mem _ (ih hr)
      | ifThen pos guard body => exact List.mem_cons_of_mem _ (ih hr)
      | ifElse pos guard body elsePos otherwise =>
          exact List.mem_cons_of_mem _ (ih hr)

theorem holds_of_mem_ofStatements
    {a : Arena} {statements : List Statement} {env : Env} {n : Nat}
    {r : SelectedRule}
    (h : ∀ t ∈ statementTrees n statements, a.Holds (t.noted notes))
    (hr : r ∈ ofStatements notes env n statements) :
    a.Holds (r.tree.noted notes) :=
  h _ (tree_mem_of_mem_ofStatements hr)

theorem ofStatements_bounds
    {statements : List Statement} {env : Env} {n : Nat} {r : SelectedRule}
    (hr : r ∈ ofStatements notes env n statements) :
    n ≤ r.first ∧ r.id < n + countStatements statements := by
  have hrange : ∀ id : Int, (r.first : Int) ≤ id → id ≤ r.id →
      (n : Int) ≤ id ∧ id < n + countStatements statements := by
    intro id hfirst hlast
    exact mem_idRange.mp ((ids_statementTrees_perm statements n).mem_iff.mp
      (List.mem_flatMap.mpr ⟨_, tree_mem_of_mem_ofStatements hr,
        SelectedRule.mem_ids_tree.mpr ⟨hfirst, hlast⟩⟩))
  have hle := r.first_le_id
  have hfirst := hrange r.first (by omega) (by omega)
  have hlast := hrange r.id (by omega) (by omega)
  omega

/-- Rules are selected from top to bottom. -/
theorem ofStatements_ordered (statements : List Statement) (env : Env)
    (n : Nat) :
    (ofStatements notes env n statements).Pairwise fun r r' =>
      r.id < r'.first := by
  induction statements generalizing env n with
  | nil => exact List.Pairwise.nil
  | cons statement statements ih =>
      cases statement with
      | rule pos selectors body =>
          rw [ofStatements, List.pairwise_cons]
          refine ⟨fun r hr => ?_, ih _ _⟩
          have hbehind := (ofStatements_bounds hr).1
          simp only [SelectedRule.id]
          omega
      | assignment pos name expr => exact ih _ _
      | ifThen pos guard body => exact ih _ _
      | ifElse pos guard body elsePos otherwise => exact ih _ _

end Selection

end Stylesheet
