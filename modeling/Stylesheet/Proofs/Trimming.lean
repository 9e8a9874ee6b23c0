import Mathlib.Data.List.Flatten
import Stylesheet.Proofs.Annotation
import Stylesheet.Proofs.Evaluation
import Stylesheet.Proofs.Growth

/-!
# What evaluation leaves of a sheet

Evaluation takes assignments and conditionals out of a sheet and puts
declarations from their branches in their place.  What stands in no branch and
is neither of the two is kept, nothing is reordered, and nothing is invented but
the literals that replace expressions.
-/

namespace Stylesheet

open Arena

variable {notes : NodeId → Option Diagnostic}

/-! ## Sorts of nodes -/

namespace Content

variable {α : Type}

/-- An assignment or a conditional, which evaluation takes out of the list it
stands in. -/
def isTakenOut : Content α → Bool
  | assignment _ _ | ifClause _ _ _ => true
  | _ => false

/-- Neither an assignment nor a conditional nor its second branch. -/
def isLasting : Content α → Bool
  | assignment _ _ | ifClause _ _ _ | elseClause _ => false
  | _ => true

def isRule : Content α → Bool
  | stylerule _ _ => true
  | _ => false

/-- What an expression is made of. -/
def isOperand : Content α → Bool
  | literal _ | reference _ | operation _ _ _ => true
  | _ => false

theorem isLasting_map {β : Type} (f : α → β) (c : Content α) :
    (c.map f).isLasting = c.isLasting := by
  cases c <;> rfl

theorem isRule_map {β : Type} (f : α → β) (c : Content α) :
    (c.map f).isRule = c.isRule := by
  cases c <;> rfl

theorem isLasting_of_isOperand {c : Content α} (h : c.isOperand = true) :
    c.isLasting = true := by
  cases c with
  | literal | reference | operation => rfl
  | _ => cases h

theorem not_isRule_of_isOperand {c : Content α} (h : c.isOperand = true) :
    (!c.isRule) = true := by
  cases c with
  | literal | reference | operation => rfl
  | _ => cases h

theorem mem_toList_of_mem_children
    {c : Content NodeId} {id : NodeId} (h : id ∈ c.children) :
    id ∈ c.toList := by
  cases c <;> simp_all [children, toList]
  grind

end Content

namespace Tree

/-- All nodes of the tree are of a sort. -/
def All (p : Content Tree → Bool) (t : Tree) : Prop :=
  ∀ label c, node label c ∈ t.subtrees → p c = true

variable {p q : Content Tree → Bool}

theorem All.mono {t : Tree} (h : t.All p) (hpq : ∀ c, p c = true → q c = true) :
    t.All q :=
  fun label c hmem => hpq c (h label c hmem)

theorem all_node_iff {label : Label} {c : Content Tree} :
    (node label c).All p ↔ p c = true ∧ ∀ t ∈ c.toList, t.All p :=
  forall_node_mem_subtrees_iff

theorem all_noted_plain_iff {n : Nat} {pos : Position} {c : Content Tree} :
    ((plain n pos c).noted notes).All p ↔
      p (c.map (noted notes)) = true ∧
        ∀ t ∈ c.toList, (t.noted notes).All p := by
  rw [plain, noted_node, all_node_iff, Content.toList_map, List.forall_mem_map]

end Tree

theorem Expr.all_isOperand (e : Expr) (n : Nat) :
    ((e.treeAt n).noted notes).All Content.isOperand := by
  induction e generalizing n with
  | literal pos value =>
      exact Tree.all_noted_plain_iff.mpr ⟨rfl, List.forall_mem_nil _⟩
  | reference pos name =>
      exact Tree.all_noted_plain_iff.mpr ⟨rfl, List.forall_mem_nil _⟩
  | operation pos op lhs rhs ihl ihr =>
      refine Tree.all_noted_plain_iff.mpr ⟨rfl, ?_⟩
      simpa [Content.toList] using ⟨ihl n, ihr (n + lhs.count)⟩

theorem all_noted_selectorTrees
    {p : Content Tree → Bool} (hp : ∀ text, p (.selector text) = true) {n : Nat}
    {selectors : List Selector} {t : Tree}
    (ht : t ∈ selectorTrees n selectors) :
    (t.noted notes).All p := by
  obtain ⟨k, -, pos, text, rfl⟩ := exists_of_mem_selectorTrees ht
  exact Tree.all_noted_plain_iff.mpr ⟨hp text, List.forall_mem_nil _⟩

/-! ## Nodes that can be reached -/

namespace Arena

/-- The nodes that can be reached from the root. -/
inductive Reaches (a : Arena) : NodeId → Prop
  | root : Reaches a a.root
  | child {id child : NodeId} (h : Reaches a id)
      (hchild : child ∈ a.children id) :
      Reaches a child

theorem rootId_mem_ids_or (a : Arena) (t : Tree) :
    t.rootId ∈ t.ids ∨ a.node? t.rootId = none := by
  cases t with
  | missing => exact .inr (node?_noNode a)
  | node label c => exact .inl (by rw [Tree.ids_node]; exact List.mem_cons_self)

/-- From the root of a tree that the arena holds, only the nodes of this tree
can be reached. -/
theorem Holds.mem_ids_of_reaches
    {a : Arena} {t : Tree} (h : a.Holds t) (hroot : t.rootId = a.root)
    {id : NodeId} (hid : a.Reaches id) : id ∈ t.ids ∨ a.node? id = none := by
  induction hid with
  | root => exact hroot ▸ rootId_mem_ids_or a t
  | @child id child _ hchild ih =>
      rw [children] at hchild
      rcases ih with hmem | hnone
      · obtain ⟨s, hs, rfl⟩ := List.mem_map.mp hmem
        cases s with
        | missing => exact absurd hs (Tree.missing_notMem_subtrees t)
        | node label c =>
            rw [Tree.rootId, h label c hs] at hchild
            have hlist := Content.mem_toList_of_mem_children hchild
            rw [Content.toList_map] at hlist
            obtain ⟨part, hpart, rfl⟩ := List.mem_map.mp hlist
            refine (rootId_mem_ids_or a part).imp_left fun hin => ?_
            refine Tree.ids_subset_of_mem_subtrees hs ?_
            rw [Tree.ids_node]
            exact List.mem_cons_of_mem _
              (List.mem_flatMap.mpr ⟨part, hpart, hin⟩)
      · rw [hnone] at hchild
        cases hchild

theorem Holds.of_reaches
    {a : Arena} {t : Tree} {p : Content Tree → Bool} (h : a.Holds t)
    (hroot : t.rootId = a.root) (hall : t.All p) {id : NodeId}
    {content : Content NodeId} (hid : a.Reaches id)
    (hcontent : a.content? id = some content) :
    ∃ c, p c = true ∧ content = c.map Tree.rootId := by
  obtain ⟨node, hnode, rfl⟩ := Option.map_eq_some_iff.mp hcontent
  rcases h.mem_ids_of_reaches hroot hid with hmem | hnone
  · obtain ⟨s, hs, rfl⟩ := List.mem_map.mp hmem
    cases s with
    | missing => exact absurd hs (Tree.missing_notMem_subtrees t)
    | node label c =>
        rw [Tree.rootId, h label c hs, Option.some.injEq] at hnode
        exact ⟨c, hall label c hs, by rw [← hnode]⟩
  · rw [hnone] at hnode
    cases hnode

end Arena

theorem Selected.all_isLasting (s : Selected) (fresh : Nat) :
    (s.evaluated notes fresh).All Content.isLasting := by
  have hexpr : (s.exprTree notes fresh).All Content.isLasting := by
    unfold exprTree
    split
    · exact Tree.all_node_iff.mpr ⟨rfl, List.forall_mem_nil _⟩
    · exact (s.expr.all_isOperand _).mono fun _ =>
        Content.isLasting_of_isOperand
  have hname : ((Tree.plain s.first s.pos (.propertyName s.property)).noted
      notes).All
      Content.isLasting :=
    Tree.all_noted_plain_iff.mpr ⟨rfl, List.forall_mem_nil _⟩
  refine Tree.all_node_iff.mpr ⟨rfl, ?_⟩
  simpa [Content.toList] using ⟨hname, hexpr⟩

theorem SelectedRule.all_isLasting (r : SelectedRule) (fresh : Nat) :
    (r.evaluated notes fresh).All Content.isLasting := by
  refine Tree.all_node_iff.mpr ⟨rfl, fun t ht => ?_⟩
  rw [Content.toList, List.mem_append, List.mem_map] at ht
  rcases ht with ⟨t, ht, rfl⟩ | ht
  · exact all_noted_selectorTrees (fun _ => rfl) ht
  · obtain ⟨s, -, fresh', -, rfl⟩ :=
      (Selected.rewriting notes).exists_of_mem_afterAll ht
    exact s.all_isLasting fresh'

theorem all_isLasting_evaluatedTree
    (notes : NodeId → Option Diagnostic) (fresh : Nat) (sheet : Sheet) :
    (evaluatedTree notes fresh sheet).All Content.isLasting := by
  refine Tree.all_node_iff.mpr ⟨rfl, fun t ht => ?_⟩
  obtain ⟨r, -, fresh', -, rfl⟩ :=
    (SelectedRule.rewriting notes).exists_of_mem_afterAll ht
  exact r.all_isLasting fresh'

/-! ## The rules of a sheet -/

theorem exists_of_mem_itemTrees
    {items : List Item} {n : Nat} {t : Tree} (ht : t ∈ itemTrees n items) :
    ∃ (item : Item) (k : Nat), t = item.treeAt k := by
  induction items generalizing n with
  | nil => cases ht
  | cons item items ih =>
      rw [itemTrees, List.mem_cons] at ht
      rcases ht with rfl | ht
      · exact ⟨item, n, rfl⟩
      · exact ih ht

/-- There is no rule inside of an item. -/
theorem all_noted_itemTrees (items : List Item) (n : Nat) :
    ∀ t ∈ itemTrees n items, (t.noted notes).All (!Content.isRule ·) := by
  have hexpr : ∀ (e : Expr) (n : Nat),
      ((e.treeAt n).noted notes).All (!Content.isRule ·) :=
    fun e n => (e.all_isOperand n).mono fun _ => Content.not_isRule_of_isOperand
  have hleaf : ∀ (n : Nat) (pos : Position) (c : Content Tree), c.toList = [] →
      (!(c.map (Tree.noted notes)).isRule) = true →
        ((Tree.plain n pos c).noted notes).All (!Content.isRule ·) :=
    fun n pos c hc hsort =>
      Tree.all_noted_plain_iff.mpr ⟨hsort, by simp [hc]⟩
  induction items using Item.list_induction generalizing n with
  | nil => exact List.forall_mem_nil _
  | declaration pos property expr items ih =>
      rw [itemTrees, List.forall_mem_cons, Item.treeAt]
      refine ⟨Tree.all_noted_plain_iff.mpr ⟨rfl, ?_⟩, ih _⟩
      simpa [Content.toList] using ⟨hleaf n pos _ rfl rfl, hexpr expr _⟩
  | assignment pos name expr items ih =>
      rw [itemTrees, List.forall_mem_cons, Item.treeAt]
      refine ⟨Tree.all_noted_plain_iff.mpr ⟨rfl, ?_⟩, ih _⟩
      simpa [Content.toList] using ⟨hleaf n pos _ rfl rfl, hexpr expr _⟩
  | ifThen pos guard body items ihbody ih =>
      rw [itemTrees, List.forall_mem_cons, Item.treeAt]
      refine ⟨Tree.all_noted_plain_iff.mpr ⟨rfl, ?_⟩, ih _⟩
      simp only [Content.toList, List.cons_append, List.forall_mem_cons,
        List.forall_mem_append]
      refine ⟨hexpr guard n, ihbody _, ?_, List.forall_mem_nil _⟩
      simp [Tree.All]
  | ifElse pos guard body elsePos otherwise items ihbody ihelse ih =>
      rw [itemTrees, List.forall_mem_cons, Item.treeAt]
      refine ⟨Tree.all_noted_plain_iff.mpr ⟨rfl, ?_⟩, ih _⟩
      simp only [Content.toList, List.cons_append, List.forall_mem_cons,
        List.forall_mem_append]
      exact ⟨hexpr guard n, ihbody _,
        Tree.all_noted_plain_iff.mpr ⟨rfl, ihelse _⟩, List.forall_mem_nil _⟩

namespace Selection

/-- Every rule in a list of statements is selected. -/
theorem exists_of_rule_mem
    {statements : List Statement} {env : Env} {n : Nat} {t : Tree}
    {label : Label} {c : Content Tree} (ht : t ∈ statementTrees n statements)
    (hmem : .node label c ∈ (t.noted notes).subtrees) (hc : c.isRule = true) :
    ∃ r ∈ ofStatements notes env n statements,
      .node label c = r.tree.noted notes := by
  have hnone : ∀ t : Tree, (t.noted notes).All (!Content.isRule ·) →
      .node label c ∉ (t.noted notes).subtrees := by
    intro t hall hmem
    have hsort : (!c.isRule) = true := hall label c hmem
    rw [hc] at hsort
    cases hsort
  have hitem : ∀ (item : Item) (n : Nat),
      .node label c ∉ ((item.treeAt n).noted notes).subtrees :=
    fun item n =>
      hnone _ (all_noted_itemTrees [item] n _ (List.mem_singleton_self _))
  induction statements generalizing env n with
  | nil => cases ht
  | cons statement statements ih =>
      rw [statementTrees, List.mem_cons] at ht
      cases statement with
      | rule pos selectors body =>
          rcases ht with rfl | ht
          · refine ⟨⟨n, pos, selectors, body, env⟩, List.mem_cons_self, ?_⟩
            rw [SelectedRule.tree]
            rw [Statement.treeAt, Tree.plain, Tree.noted_node] at hmem ⊢
            rw [Tree.subtrees_node, List.mem_cons, List.mem_flatMap] at hmem
            rcases hmem with heq | ⟨part, hpart, hmem⟩
            · exact heq
            · rw [Content.toList_map] at hpart
              obtain ⟨old, hold, rfl⟩ := List.mem_map.mp hpart
              rcases List.mem_append.mp hold with hselector | hitem
              · exact absurd hmem
                  (hnone old (all_noted_selectorTrees (fun _ => rfl) hselector))
              · exact absurd hmem
                  (hnone old (all_noted_itemTrees body _ old hitem))
          · obtain ⟨r, hr, heq⟩ := ih ht
            exact ⟨r, List.mem_cons_of_mem _ hr, heq⟩
      | assignment pos name expr =>
          rcases ht with rfl | ht
          · exact absurd hmem (hitem (.assignment pos name expr) n)
          · exact ih ht
      | ifThen pos guard body =>
          rcases ht with rfl | ht
          · exact absurd hmem (hitem (.ifThen pos guard body) n)
          · exact ih ht
      | ifElse pos guard body elsePos otherwise =>
          rcases ht with rfl | ht
          · exact absurd hmem
              (hitem (.ifElse pos guard body elsePos otherwise) n)
          · exact ih ht

/-- The selected rules are what is left of the statements without assignments
and conditionals. -/
theorem map_id_ofStatements
    {a : Arena} {statements : List Statement} {env : Env} {n : Nat}
    (h : ∀ t ∈ statementTrees n statements, a.Holds (t.noted notes)) :
    (ofStatements notes env n statements).map (fun r => (r.id : NodeId)) =
      ((statementTrees n statements).map Tree.rootId).filter fun id =>
        !(a.content? id).any Content.isTakenOut := by
  induction statements generalizing env n with
  | nil => rfl
  | cons statement statements ih =>
      rw [statementTrees, List.forall_mem_cons] at h
      rw [statementTrees, List.map_cons, List.filter_cons]
      cases statement with
      | rule pos selectors body =>
          rw [content?_of_node? (holds_rule h.1).1, ofStatements, List.map_cons]
          exact congrArg (List.cons _) (ih h.2)
      | assignment pos name expr =>
          rw [Statement.treeAt, content?_of_node? (holds_assignmentTree h.1).1,
            ofStatements]
          exact ih h.2
      | ifThen pos guard body =>
          rw [Statement.treeAt, content?_of_node? (holds_ifThen h.1).1,
            ofStatements]
          exact ih h.2
      | ifElse pos guard body elsePos otherwise =>
          rw [Statement.treeAt, content?_of_node? (holds_ifElse h.1).1,
            ofStatements]
          exact ih h.2

end Selection

/-! ## The declarations of a rule -/

namespace Tree

def isDeclarationTree (t : Tree) : Bool :=
  t.content?.any isDeclaration

/-- The numbers of the declarations in a tree, in the order of a walk. -/
def declarationIds (t : Tree) : List NodeId :=
  (t.subtrees.filter isDeclarationTree).map rootId

theorem declarationIds_node (label : Label) (c : Content Tree) :
    (node label c).declarationIds =
      (if isDeclaration c then [label.id] else [])
        ++ c.toList.flatMap declarationIds := by
  rw [declarationIds, subtrees_node, List.filter_cons, List.filter_flatMap]
  change List.map rootId (if isDeclaration c then _ else _) = _
  split
  · rw [List.map_cons, List.map_flatMap]
    rfl
  · rw [List.map_flatMap]
    rfl

theorem isDeclarationTree_noted (t : Tree) :
    (t.noted notes).isDeclarationTree = t.isDeclarationTree := by
  cases t with
  | missing => rw [noted_missing]
  | node label c =>
      rw [noted_node]
      cases c <;> rfl

theorem declarationIds_noted (t : Tree) :
    (t.noted notes).declarationIds = t.declarationIds := by
  have hsort : isDeclarationTree ∘ noted notes = isDeclarationTree :=
    funext isDeclarationTree_noted
  rw [declarationIds, declarationIds, subtrees_noted, List.filter_map,
    List.map_map, hsort]
  exact List.map_congr_left fun s _ => rootId_noted notes s

/-- The declarations in a part of a node are among those of the node. -/
theorem flatMap_declarationIds_sublist
    {ts : List Tree} {c : Content Tree} (h : ts.Sublist c.toList)
    (label : Label) :
    (ts.flatMap declarationIds).Sublist (node label c).declarationIds := by
  rw [declarationIds_node]
  exact (h.flatMap declarationIds).trans (List.sublist_append_right ..)

theorem declarationIds_sublist_of_mem
    {t : Tree} {c : Content Tree} (h : t ∈ c.toList) (label : Label) :
    t.declarationIds.Sublist (node label c).declarationIds := by
  have hpart :=
    flatMap_declarationIds_sublist (List.singleton_sublist.mpr h) label
  rwa [List.flatMap_singleton] at hpart

end Tree

namespace Selection

theorem sublist_of_branch (guard : Tree) (body : List Tree) (otherwise : Tree) :
    body.Sublist (Content.ifClause guard body otherwise).toList :=
  (List.sublist_append_left body [otherwise]).cons guard

/-- Declarations are selected in the order in which they stand, whatever
branches are taken. -/
theorem map_id_ofItems_sublist (items : List Item) (env : Env) (n : Nat) :
    ((ofItems notes env n items).map fun s => (s.id : NodeId)).Sublist
      ((itemTrees n items).flatMap Tree.declarationIds) := by
  induction items using Item.list_induction generalizing env n with
  | nil => exact List.Sublist.slnil
  | declaration pos property expr items ih =>
      rw [ofItems, ofItem, itemTrees, List.map_append, List.flatMap_cons]
      refine List.Sublist.append ?_ (ih _ _)
      rw [Item.treeAt, declarationTree, Tree.plain, Tree.declarationIds_node]
      exact List.sublist_append_left ..
  | assignment pos name expr items ih =>
      rw [ofItems, ofItem, itemTrees, List.map_append, List.flatMap_cons]
      exact List.Sublist.append (List.nil_sublist _) (ih _ _)
  | ifThen pos guard body items ihbody ih =>
      rw [ofItems, ofItem, itemTrees, List.map_append, List.flatMap_cons]
      refine List.Sublist.append ?_ (ih _ _)
      rw [Item.treeAt]
      split
      · exact (ihbody _ _).trans
          (Tree.flatMap_declarationIds_sublist (sublist_of_branch ..) _)
      · exact List.nil_sublist _
  | ifElse pos guard body elsePos otherwise items ihbody ihelse ih =>
      rw [ofItems, ofItem, itemTrees, List.map_append, List.flatMap_cons]
      refine List.Sublist.append ?_ (ih _ _)
      rw [Item.treeAt]
      split
      · exact (ihbody _ _).trans
          (Tree.flatMap_declarationIds_sublist (sublist_of_branch ..) _)
      · have hclause :
            ((itemTrees (n + guard.count + countItems body) otherwise).flatMap
              Tree.declarationIds).Sublist
              (Tree.plain
                (n + guard.count + countItems body + countItems otherwise)
                elsePos
                (.elseClause (itemTrees (n + guard.count + countItems body)
                  otherwise))).declarationIds := by
          rw [Tree.plain, Tree.declarationIds_node]
          exact List.sublist_append_right ..
        refine ((ihelse _ _).trans hclause).trans
          (Tree.declarationIds_sublist_of_mem ?_ _)
        exact List.mem_append_right _ (List.mem_singleton_self _)

/-- A declaration that stands in no branch is selected. -/
theorem sublist_map_id_ofItems (items : List Item) (env : Env) (n : Nat) :
    (((itemTrees n items).filter Tree.isDeclarationTree).map
      Tree.rootId).Sublist
      ((ofItems notes env n items).map fun s => (s.id : NodeId)) := by
  induction items using Item.list_induction generalizing env n with
  | nil => exact List.Sublist.slnil
  | declaration pos property expr items ih =>
      rw [ofItems, ofItem, itemTrees, Item.treeAt]
      exact (ih _ _).cons_cons _
  | assignment pos name expr items ih =>
      rw [ofItems, ofItem, itemTrees, Item.treeAt]
      exact ih _ _
  | ifThen pos guard body items ihbody ih =>
      rw [ofItems, itemTrees, Item.treeAt, List.map_append]
      exact (ih _ _).trans (List.sublist_append_right ..)
  | ifElse pos guard body elsePos otherwise items ihbody ihelse ih =>
      rw [ofItems, itemTrees, Item.treeAt, List.map_append]
      exact (ih _ _).trans (List.sublist_append_right ..)

theorem nodup_map_id_ofItems (items : List Item) (env : Env) (n : Nat) :
    ((ofItems notes env n items).map fun s => (s.id : NodeId)).Nodup := by
  rw [List.nodup_iff_pairwise_ne, List.pairwise_map]
  refine (ofItems_ordered notes items env n).imp fun {s s'} hlt => ?_
  have hle := s'.first_le_id
  exact fun heq => absurd (Int.ofNat.inj heq) (by omega)

end Selection

/-! ## The whole sheet -/

namespace Arena

/-- What evaluation makes of a sheet.  No assignment, no conditional and no
branch of one can be reached any more, and of the top-level list only
assignments and conditionals are missing.  The items of a rule are declarations
from below this rule, in their old order, and all that stood in no branch are
among them.  All nodes are still what they were, apart from items and
expressions, and the new ones are literals for the declarations whose
expressions were replaced. -/
structure Trims (a b : Arena) : Prop where
  root_eq : b.root = a.root
  lasting : ∀ id c, b.Reaches id → b.content? id = some c → c.isLasting = true
  top_level : ∃ body, a.rootBody? = some body ∧
    b.rootBody? = some
      (body.filter fun id => !(a.content? id).any Content.isTakenOut)
  rules : ∀ id selectors body, a.content? id =
    some (.stylerule selectors body) →
    ∃ body', b.content? id = some (.stylerule selectors body') ∧
      (body.filter fun item => (a.tree item).isDeclarationTree).Sublist body' ∧
      body'.Sublist (a.tree id).declarationIds ∧ body'.Nodup
  node_kept : ∀ id node, a.node? id = some node →
    ∃ content, b.node? id = some { node with content := content } ∧
      node.content.Amended content
  grown : ∃ changed, a.GrownBy changed b

variable {a : Arena} {sheet : Sheet}

theorem Stores.exists_rule
    (h : a.Stores sheet) {id : Int} {selectors body : List NodeId}
    (hrule : a.content? id = some (.stylerule selectors body)) :
    ∃ r ∈ Selection.ofSheet a.diagnosticOf sheet, id = (r.id : Int) := by
  obtain ⟨node, hnode, hcontent⟩ := Option.map_eq_some_iff.mp hrule
  have hnonneg : 0 ≤ id := by
    by_contra hneg
    rw [node?_of_neg (Int.not_le.mp hneg)] at hnode
    cases hnode
  have hlt : id < a.size := lt_size_of_node?_isSome (Option.isSome_of_mem hnode)
  have hid := h.mem_ids_iff.mpr ⟨hnonneg, hlt⟩
  rw [← Tree.ids_noted a.diagnosticOf] at hid
  obtain ⟨s, hs, rfl⟩ := List.mem_map.mp hid
  cases s with
  | missing => exact absurd hs (Tree.missing_notMem_subtrees _)
  | node label c =>
      rw [Tree.rootId, h.holds label c hs, Option.some.injEq] at hnode
      rw [← hnode] at hcontent
      have hsort : c.isRule = true := by
        rw [← Content.isRule_map Tree.rootId]
        exact congrArg Content.isRule hcontent
      rw [sheetTree, Tree.plain, Tree.noted_node, Tree.subtrees_node,
        List.mem_cons, List.mem_flatMap] at hs
      rcases hs with heq | ⟨part, hpart, hmem⟩
      · rw [(Tree.node.inj heq).2] at hsort
        cases hsort
      · rw [Content.toList_map] at hpart
        obtain ⟨t, ht, rfl⟩ := List.mem_map.mp hpart
        obtain ⟨r, hr, heq⟩ := Selection.exists_of_rule_mem ht hmem hsort
        exact ⟨r, hr, by rw [heq, Tree.rootId_noted]; rfl⟩

theorem Stores.content?_evaluate_rule
    (h : a.Stores sheet) {r : SelectedRule}
    (hr : r ∈ Selection.ofSheet a.diagnosticOf sheet) :
    a.evaluate.content? (r.id : Int) =
      some (.stylerule ((selectorTrees r.first r.selectors).map Tree.rootId)
        ((r.declarations a.diagnosticOf).map fun s => (s.id : NodeId))) := by
  obtain ⟨fresh, hmem⟩ :=
    (SelectedRule.rewriting a.diagnosticOf).exists_mem_afterAll hr a.size
  have hheld : a.evaluate.Holds (r.evaluated a.diagnosticOf fresh) :=
    (holds_node_iff.mp h.holds_evaluate).2 _ hmem
  rw [content?_of_node? (holds_node_iff.mp hheld).1]
  simp only [Content.map]
  rw [(Selected.rewriting a.diagnosticOf).rootId_afterAll, rootId_map_noted]
  rfl

/-- The rule keeps its selectors, and its items are the selected
declarations. -/
theorem Stores.trims_rule
    (h : a.Stores sheet) {id : Int} {selectors body : List NodeId}
    (hrule : a.content? id = some (.stylerule selectors body)) :
    ∃ body', a.evaluate.content? id = some (.stylerule selectors body') ∧
      (body.filter fun item => (a.tree item).isDeclarationTree).Sublist body' ∧
      body'.Sublist (a.tree id).declarationIds ∧ body'.Nodup := by
  obtain ⟨r, hr, rfl⟩ := h.exists_rule hrule
  have hheld : a.Holds (r.tree.noted a.diagnosticOf) :=
    Selection.holds_of_mem_ofStatements (holds_noted_plain_iff.mp h.holds).2 hr
  obtain ⟨hnode, -, hitems⟩ := holds_rule hheld
  have hold := hrule.symm.trans (content?_of_node? hnode)
  obtain ⟨rfl, rfl⟩ := Content.stylerule.inj (Option.some.inj hold)
  refine ⟨_, h.content?_evaluate_rule hr, ?_, ?_,
    Selection.nodup_map_id_ofItems ..⟩
  · have hsort : ∀ t ∈ itemTrees (r.first + r.selectors.length) r.body,
        ((fun item => (a.tree item).isDeclarationTree) ∘ Tree.rootId) t =
          t.isDeclarationTree := by
      intro t ht
      obtain ⟨item, k, rfl⟩ := exists_of_mem_itemTrees ht
      rw [Function.comp_apply, (hitems _ ht).tree_eq (item.ids_treeAt_perm k),
        Tree.isDeclarationTree_noted]
    rw [List.filter_map, List.filter_congr hsort]
    exact Selection.sublist_map_id_ofItems ..
  · have htree : a.tree (r.id : Int) = r.tree.noted a.diagnosticOf :=
      hheld.tree_eq (Statement.ids_treeAt_perm _ _)
    rw [htree, Tree.declarationIds_noted]
    refine (Selection.map_id_ofItems_sublist r.body r.env _).trans ?_
    exact Tree.flatMap_declarationIds_sublist (List.sublist_append_right ..) _

theorem Stores.trims_evaluate (h : a.Stores sheet) : a.Trims a.evaluate := by
  obtain ⟨changed, hamending⟩ := a.exists_amending_evaluate
  obtain ⟨hnode, hstatements⟩ := holds_noted_plain_iff.mp h.holds
  have hroot : a.node? 0 = some _ := hnode
  refine ⟨hamending.root_eq, fun id c hid hc => ?_, ?_, fun id _ _ =>
    h.trims_rule,
    fun id node => hamending.node_kept, changed, hamending.grownBy⟩
  · obtain ⟨old, hold, rfl⟩ := h.holds_evaluate.of_reaches h.root_evaluate.symm
      (all_isLasting_evaluatedTree _ _ _) hid hc
    rw [Content.isLasting_map]
    exact hold
  · refine ⟨(statementTrees 1 sheet).map Tree.rootId, ?_, ?_⟩
    · rw [rootBody?, h.root_eq, hroot]
      rfl
    · rw [h.rootBody?_evaluate, Selection.ofSheet,
        Selection.map_id_ofStatements hstatements]

end Arena

/-- Evaluating the sheet of a source, whatever diagnostics are attached to its
nodes, takes assignments and conditionals out of its lists, leaves declarations
from below each rule there in their old order, and adds nothing but literals. -/
theorem evaluate_parse_trims (source : List Char)
    (notes : NodeId → Option Diagnostic) :
    ((parse source).arena.noted notes).Trims
      ((parse source).arena.noted notes).evaluate :=
  ((stores_parse source).noted notes).trims_evaluate

/-- The declaration of the first branch takes the place of the conditional, and
a literal is added for the product in it. -/
theorem evaluate_parse_trims_spliced_branch :
    let source := ("p\x7bif[TRUE]\x7bwidth:1px*2;\x7delse\x7bheight:2px;\x7d"
      ++ "color:#000000;\x7d").toList
    let a := (parse source).arena.noted fun _ => none
    a.children 16 = [1, 12, 15] ∧ (a.tree 16).declarationIds = [7, 10, 15] ∧
      a.evaluate.children 16 = [1, 7, 15] ∧ a.evaluate.size = a.size + 1 ∧
      a.Trims a.evaluate := by
  intro source a
  refine ⟨?_, ?_, ?_, ?_, evaluate_parse_trims source fun _ => none⟩ <;>
    decide +kernel

end Stylesheet
