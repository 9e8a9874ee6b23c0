import Mathlib.Data.List.Pairwise
import Mathlib.Data.List.Perm.Basic
import Stylesheet.Proofs.Loading

/-!
# Parents and children

The nodes of a stored sheet make up a tree.  Every node except the root stands
once in the list of children of one other node, which is stored behind it unless
it is the root, and a walk from the root comes to every node once.
-/

namespace Stylesheet

namespace Tree

/-- The number of the node on top, if there is one. -/
def tops : Tree → List NodeId
  | missing => []
  | node label _ => [label.id]

/-- The numbers of the nodes right below the top. -/
def childIds : Tree → List NodeId
  | missing => []
  | node _ c => c.toList.flatMap tops

/-- The numbers of a tree are the one on top and those that are below some
node. -/
theorem ids_perm (t : Tree) :
    t.ids.Perm (t.tops ++ t.subtrees.flatMap childIds) := by
  induction t using induction_on with
  | hmissing => rw [ids_missing, subtrees_missing]; exact .refl _
  | hnode label c ih =>
      have hparts : (c.toList.flatMap ids).Perm
          (c.toList.flatMap fun t => t.tops ++ t.subtrees.flatMap childIds) :=
        List.Perm.flatMap_left _ ih
      have hsplit :=
        List.flatMap_append_perm c.toList tops fun t =>
          t.subtrees.flatMap childIds
      rw [ids_node, subtrees_node, List.flatMap_cons, List.flatMap_assoc]
      exact (hparts.trans hsplit.symm).cons label.id

/-- The node refers to its children by their numbers, and they are numbered
before it. -/
structure Linked (label : Label) (c : Content Tree) : Prop where
  children_eq : (c.map rootId).children = c.toList.flatMap tops
  lt : ∀ id ∈ c.toList.flatMap tops, id < label.id

/-- All nodes of the tree are linked to their children. -/
def AllLinked (t : Tree) : Prop :=
  ∀ label c, node label c ∈ t.subtrees → Linked label c

theorem allLinked_missing : missing.AllLinked := by
  simp [AllLinked]

theorem allLinked_node_iff {label : Label} {c : Content Tree} :
    (node label c).AllLinked ↔ Linked label c ∧ ∀ t ∈ c.toList, t.AllLinked :=
  forall_node_mem_subtrees_iff

theorem tops_subset_ids (t : Tree) : t.tops ⊆ t.ids := by
  cases t with
  | missing => exact List.nil_subset _
  | node label c =>
      rw [ids_node]
      exact List.cons_subset_cons _ (List.nil_subset _)

/-- The tree is linked throughout and all its numbers are below the given
one. -/
structure LinkedBelow (top : Nat) (t : Tree) : Prop where
  lt : ∀ id ∈ t.ids, id < (top : Int)
  linked : t.AllLinked

theorem linkedBelow_missing (top : Nat) : missing.LinkedBelow top :=
  ⟨by simp, allLinked_missing⟩

theorem linkedBelow_plain
    {n top : Nat} {pos : Position} {c : Content Tree} (hlt : n < top)
    (hchildren : (c.map rootId).children = c.toList.flatMap tops)
    (hparts : ∀ t ∈ c.toList, t.LinkedBelow n) :
    (plain n pos c).LinkedBelow top := by
  refine ⟨fun id hid => ?_,
    allLinked_node_iff.mpr ⟨⟨hchildren, fun id hid => ?_⟩, ?_⟩⟩
  · rw [plain, ids_node, List.mem_cons, List.mem_flatMap] at hid
    rcases hid with rfl | ⟨t, ht, hid⟩
    · exact Int.ofNat_lt.mpr hlt
    · exact Int.lt_trans ((hparts t ht).lt id hid) (Int.ofNat_lt.mpr hlt)
  · obtain ⟨t, ht, htop⟩ := List.mem_flatMap.mp hid
    exact (hparts t ht).lt id (t.tops_subset_ids htop)
  · exact fun t ht => (hparts t ht).linked

/-- There is a node on top, and its number is one that a node can have. -/
structure Numbered (t : Tree) : Prop where
  tops_eq : t.tops = [t.rootId]
  ne_noNode : t.rootId ≠ noNode

theorem numbered_plain (n : Nat) (pos : Position) (c : Content Tree) :
    (plain n pos c).Numbered := by
  refine ⟨rfl, ?_⟩
  change (n : Int) ≠ -1
  omega

theorem flatMap_tops {ts : List Tree} (h : ∀ t ∈ ts, t.Numbered) :
    ts.flatMap tops = ts.map rootId := by
  rw [← List.flatMap_pure_eq_map]
  exact List.flatMap_congr fun t ht => (h t ht).tops_eq

theorem children_map_rootId {c : Content Tree}
    (h : ∀ t ∈ c.toList, t.Numbered) :
    (c.map rootId).children = c.toList.flatMap tops := by
  have hne : ∀ t ∈ c.toList, t.rootId ≠ noNode := fun t ht => (h t ht).ne_noNode
  rw [flatMap_tops h]
  cases c <;> simp_all [Content.map, Content.children, Content.toList]

/-- A conditional without an alternative has no child in its place. -/
theorem children_map_rootId_ifThen
    {guard : Tree} {body : List Tree} (hguard : guard.Numbered)
    (hbody : ∀ t ∈ body, t.Numbered) :
    ((Content.ifClause guard body missing).map rootId).children =
      (Content.ifClause guard body missing).toList.flatMap tops := by
  have hmissing : missing.rootId = noNode ∧ missing.tops = [] := ⟨rfl, rfl⟩
  simp [Content.map, Content.children, Content.toList, hmissing,
    flatMap_tops hbody, hguard.tops_eq, hguard.ne_noNode]

end Tree

open Stylesheet.Tree

/-! ## Parts of a sheet -/

theorem Expr.numbered_treeAt (e : Expr) (n : Nat) : (e.treeAt n).Numbered := by
  cases e <;> exact numbered_plain _ _ _

theorem numbered_of_mem_itemTrees
    {items : List Item} {n : Nat} : ∀ t ∈ itemTrees n items, t.Numbered := by
  induction items generalizing n with
  | nil => exact List.forall_mem_nil _
  | cons item items ih =>
      rw [itemTrees, List.forall_mem_cons]
      refine ⟨?_, ih⟩
      cases item <;> rw [Item.treeAt] <;> exact numbered_plain _ _ _

theorem numbered_of_mem_selectorTrees
    {selectors : List Selector} {n : Nat} :
    ∀ t ∈ selectorTrees n selectors, t.Numbered := by
  intro t ht
  obtain ⟨k, -, pos, text, rfl⟩ := exists_of_mem_selectorTrees ht
  exact numbered_plain _ _ _

theorem numbered_of_mem_statementTrees
    {statements : List Statement} {n : Nat} :
    ∀ t ∈ statementTrees n statements, t.Numbered := by
  induction statements generalizing n with
  | nil => exact List.forall_mem_nil _
  | cons statement statements ih =>
      rw [statementTrees, List.forall_mem_cons]
      refine ⟨?_, ih⟩
      cases statement <;> exact numbered_plain _ _ _

theorem Expr.linkedBelow_treeAt
    (e : Expr) {n top : Nat} (h : n + e.count ≤ top) :
    (e.treeAt n).LinkedBelow top := by
  induction e generalizing n top with
  | literal pos value => exact linkedBelow_plain h rfl nofun
  | reference pos name => exact linkedBelow_plain h rfl nofun
  | operation pos op lhs rhs ihl ihr =>
      rw [count] at h
      refine linkedBelow_plain (by omega) (children_map_rootId ?_) ?_
      · simpa [Content.toList] using
          ⟨lhs.numbered_treeAt n, rhs.numbered_treeAt _⟩
      · simpa [Content.toList] using ⟨ihl (by omega), ihr (by omega)⟩

/-- A declaration or an assignment: a leaf in front of an expression. -/
theorem linkedBelow_binding
    {n top : Nat} {pos : Position} {e : Expr} {head c : Content Tree}
    (hhead : head.toList = [])
    (hc : c.toList = [.plain n pos head, e.treeAt (n + 1)])
    (h : n + 1 + e.count < top) :
    (plain (n + 1 + e.count) pos c).LinkedBelow top := by
  have hleaf : (plain n pos head).LinkedBelow (n + 1 + e.count) := by
    refine linkedBelow_plain (by omega) (children_map_rootId ?_) ?_
    · simp [hhead]
    · simp [hhead]
  refine linkedBelow_plain h (children_map_rootId ?_) ?_
  · simpa [hc] using ⟨numbered_plain n pos head, e.numbered_treeAt (n + 1)⟩
  · simpa [hc] using ⟨hleaf, e.linkedBelow_treeAt (Nat.le_refl _)⟩

theorem linkedBelow_of_mem_itemTrees
    (items : List Item) {n top : Nat} (h : n + countItems items ≤ top) :
    ∀ t ∈ itemTrees n items, t.LinkedBelow top := by
  induction items using Item.list_induction generalizing n top with
  | nil => exact List.forall_mem_nil _
  | declaration pos property expr items ih =>
      rw [countItems, Item.count] at h
      rw [itemTrees, List.forall_mem_cons, Item.treeAt]
      exact ⟨linkedBelow_binding rfl rfl (by omega),
        ih (by rw [Item.count]; omega)⟩
  | assignment pos name expr items ih =>
      rw [countItems, Item.count] at h
      rw [itemTrees, List.forall_mem_cons, Item.treeAt]
      exact ⟨linkedBelow_binding rfl rfl (by omega),
        ih (by rw [Item.count]; omega)⟩
  | ifThen pos guard body items ihbody ih =>
      rw [countItems, Item.count] at h
      rw [itemTrees, List.forall_mem_cons, Item.treeAt]
      refine ⟨linkedBelow_plain (by omega) ?_ ?_,
        ih (by rw [Item.count]; omega)⟩
      · exact children_map_rootId_ifThen (guard.numbered_treeAt n)
          numbered_of_mem_itemTrees
      · simp only [Content.toList, List.cons_append, List.forall_mem_cons,
          List.forall_mem_append]
        exact ⟨guard.linkedBelow_treeAt (by omega), ihbody (Nat.le_refl _),
          linkedBelow_missing _, List.forall_mem_nil _⟩
  | ifElse pos guard body elsePos otherwise items ihbody ihelse ih =>
      rw [countItems, Item.count] at h
      rw [itemTrees, List.forall_mem_cons, Item.treeAt]
      refine ⟨linkedBelow_plain (by omega) (children_map_rootId ?_) ?_,
        ih (by rw [Item.count]; omega)⟩
      · simp only [Content.toList, List.cons_append, List.forall_mem_cons,
          List.forall_mem_append]
        exact ⟨guard.numbered_treeAt n, numbered_of_mem_itemTrees,
          numbered_plain _ _ _, List.forall_mem_nil _⟩
      · have helse :
            ∀ t ∈ itemTrees (n + guard.count + countItems body) otherwise,
            t.LinkedBelow
              (n + guard.count + countItems body + countItems otherwise) :=
          ihelse (Nat.le_refl _)
        simp only [Content.toList, List.cons_append, List.forall_mem_cons,
          List.forall_mem_append]
        refine ⟨guard.linkedBelow_treeAt (by omega), ihbody (by omega), ?_,
          List.forall_mem_nil _⟩
        exact linkedBelow_plain (Nat.lt_succ_self _)
          (children_map_rootId numbered_of_mem_itemTrees) helse

theorem linkedBelow_of_mem_selectorTrees
    {selectors : List Selector} {n top : Nat} (h : n + selectors.length ≤ top) :
    ∀ t ∈ selectorTrees n selectors, t.LinkedBelow top := by
  intro t ht
  obtain ⟨k, hk, pos, text, rfl⟩ := exists_of_mem_selectorTrees ht
  exact linkedBelow_plain (by omega) rfl nofun

theorem Statement.allLinked_treeAt (s : Statement) (n : Nat) :
    (s.treeAt n).AllLinked := by
  have hitem : ∀ item : Item, (item.treeAt n).AllLinked := fun item =>
    (linkedBelow_of_mem_itemTrees [item] (n := n) (Nat.le_refl _) _
      (by simp [itemTrees])).linked
  cases s with
  | assignment pos name expr =>
      exact (linkedBelow_binding rfl rfl (Nat.lt_succ_self _)).linked
  | rule pos selectors body =>
      refine (linkedBelow_plain (Nat.lt_succ_self _) (children_map_rootId ?_)
        ?_).linked
      · exact List.forall_mem_append.mpr
          ⟨numbered_of_mem_selectorTrees, numbered_of_mem_itemTrees⟩
      · exact List.forall_mem_append.mpr
          ⟨linkedBelow_of_mem_selectorTrees (by omega),
          linkedBelow_of_mem_itemTrees body (Nat.le_refl _)⟩
  | ifThen pos guard body => exact hitem (.ifThen pos guard body)
  | ifElse pos guard body elsePos otherwise =>
      exact hitem (.ifElse pos guard body elsePos otherwise)

theorem allLinked_of_mem_statementTrees
    {statements : List Statement} {n : Nat} :
    ∀ t ∈ statementTrees n statements, t.AllLinked := by
  induction statements generalizing n with
  | nil => exact List.forall_mem_nil _
  | cons statement statements ih =>
      rw [statementTrees, List.forall_mem_cons]
      exact ⟨statement.allLinked_treeAt n, ih⟩

/-! ## Stored sheets -/

namespace Arena

variable {sheet : Sheet}

theorem children_of_mem_subtrees
    {label : Label} {c : Content Tree}
    (h : .node label c ∈ (sheetTree sheet).subtrees) :
    (ofSheet sheet).children label.id = c.toList.flatMap tops := by
  rw [children, holds_ofSheet sheet label c h]
  rw [sheetTree, plain, subtrees_node, List.mem_cons, List.mem_flatMap] at h
  rcases h with heq | ⟨t, ht, hmem⟩
  · obtain ⟨rfl, rfl⟩ := Tree.node.inj heq
    exact children_map_rootId (c := .stylesheet _)
      numbered_of_mem_statementTrees
  · exact (allLinked_of_mem_statementTrees t ht label c hmem).children_eq

theorem children_eq_nil_of_notMem
    {id : Int} (h : id ∉ (sheetTree sheet).ids) :
    (ofSheet sheet).children id = [] := by
  have hnone : (ofSheet sheet).node? id = none := by
    rw [(stores_ofSheet sheet).mem_ids_iff] at h
    by_contra hsome
    have hsome := Option.isSome_iff_ne_none.mpr hsome
    have hlt := lt_size_of_node?_isSome hsome
    by_cases hneg : id < 0
    · rw [node?_of_neg hneg] at hsome
      cases hsome
    · omega
  rw [children, hnone]

/-- The children of all nodes together are all numbers but that of the root,
each once. -/
theorem flatMap_children_perm (sheet : Sheet) :
    ((sheetTree sheet).ids.flatMap (ofSheet sheet).children).Perm
      (idRange 1 (countStatements sheet)) := by
  have hchildren : (sheetTree sheet).ids.flatMap (ofSheet sheet).children =
      (sheetTree sheet).subtrees.flatMap childIds := by
    rw [ids, List.flatMap_map]
    refine List.flatMap_congr fun t ht => ?_
    cases t with
    | missing => exact absurd ht (missing_notMem_subtrees _)
    | node label c => exact children_of_mem_subtrees ht
  have hids := (sheetTree sheet).ids_perm.symm.trans (ids_sheetTree_perm sheet)
  rw [idRange_add, idRange_one] at hids
  rw [hchildren]
  exact (List.perm_cons _).mp hids

theorem mem_ids_of_mem_children
    {parent child : NodeId} (h : child ∈ (ofSheet sheet).children parent) :
    parent ∈ (sheetTree sheet).ids := by
  by_contra hnot
  rw [children_eq_nil_of_notMem hnot] at h
  cases h

/-- Every number but that of the root stands once in the list of one node. -/
theorem exists_parent
    {id : Int} (hpos : 0 < id) (hlt : id < (ofSheet sheet).size) :
    ∃ parent, ((ofSheet sheet).children parent).count id = 1 ∧
      ∀ other, id ∈ (ofSheet sheet).children other → other = parent := by
  have hperm := flatMap_children_perm sheet
  have hnodup := hperm.nodup_iff.mpr (nodup_idRange _ _)
  obtain ⟨honce, hapart⟩ := List.nodup_flatMap.mp hnodup
  have hmem : id ∈ idRange 1 (countStatements sheet) := by
    rw [(stores_ofSheet sheet).size_eq] at hlt
    exact mem_idRange.mpr (by omega)
  obtain ⟨parent, hparent, hid⟩ := List.mem_flatMap.mp (hperm.mem_iff.mpr hmem)
  refine ⟨parent, List.count_eq_one_of_mem (honce parent hparent) hid,
    fun other hother => ?_⟩
  have hsymm : Std.Symm
      (Function.onFun List.Disjoint (ofSheet sheet).children) :=
    ⟨fun _ _ h => List.disjoint_symm h⟩
  by_contra hne
  exact hapart.forall (mem_ids_of_mem_children hother) hparent hne hother hid

theorem child_lt_parent
    {parent child : NodeId} (h : child ∈ (ofSheet sheet).children parent)
    (hparent : parent ≠ 0) :
    child < parent := by
  obtain ⟨t, ht, rfl⟩ := List.mem_map.mp (mem_ids_of_mem_children h)
  cases t with
  | missing => exact absurd ht (missing_notMem_subtrees _)
  | node label c =>
      rw [rootId, children_of_mem_subtrees ht] at h
      rw [sheetTree, plain, subtrees_node, List.mem_cons,
        List.mem_flatMap] at ht
      rcases ht with heq | ⟨t, ht, hmem⟩
      · obtain ⟨rfl, -⟩ := Tree.node.inj heq
        exact absurd rfl hparent
      · exact (allLinked_of_mem_statementTrees t ht label c hmem).lt child h

theorem child_bounds
    {parent : NodeId} {child : Int}
    (h : child ∈ (ofSheet sheet).children parent) :
    0 < child ∧ child < (1 + countStatements sheet : Nat) := by
  have hmem := List.mem_flatMap.mpr ⟨parent, mem_ids_of_mem_children h, h⟩
  have hrange := mem_idRange.mp ((flatMap_children_perm sheet).mem_iff.mp hmem)
  omega

/-- The nodes make up a tree with a sheet on top. -/
structure IsTree (a : Arena) : Prop where
  root_eq : a.root = 0
  root_sheet : ∃ node body,
    a.node? 0 = some node ∧ node.content = .stylesheet body
  /-- Every other node is once the child of one node. -/
  exists_parent : ∀ id : NodeId, 0 < id → id < a.size →
    ∃ parent, (a.children parent).count id = 1 ∧
      ∀ other, id ∈ a.children other → other = parent
  child_bounds : ∀ parent, ∀ child ∈ a.children parent,
    0 < child ∧ child < a.size
  child_lt : ∀ parent ≠ 0, ∀ child ∈ a.children parent, child < parent
  /-- A walk from the root comes to every node once. -/
  nodup_walk : a.rootTree.ids.Nodup
  mem_walk_iff : ∀ id, id ∈ a.rootTree.ids ↔ 0 ≤ id ∧ id < a.size

theorem isTree_ofSheet (sheet : Sheet) : (ofSheet sheet).IsTree where
  root_eq := (stores_ofSheet sheet).root_eq
  root_sheet :=
    ⟨_, _, holds_ofSheet sheet _ _ (self_mem_subtrees _ _), rfl⟩
  exists_parent _ hpos hlt := exists_parent hpos hlt
  child_bounds parent child h := by
    rw [(stores_ofSheet sheet).size_eq]
    exact child_bounds h
  child_lt parent hparent child h := child_lt_parent h hparent
  nodup_walk := by
    rw [rootTree_ofSheet]
    exact (ids_sheetTree_perm sheet).nodup_iff.mpr (nodup_idRange _ _)
  mem_walk_iff id := by
    rw [rootTree_ofSheet]
    exact (stores_ofSheet sheet).mem_ids_iff

end Arena

/-- Reading a source into an arena leaves a tree there, whether or not the
source has syntax errors. -/
theorem load_makes_tree (source : List Char) : (load source).arena.IsTree := by
  rw [arena_load]
  exact Arena.isTree_ofSheet (parse source).sheet

/-- A source that breaks off: the missing operand of a product has the number
4, and stands in the list of the product alone. -/
theorem load_makes_tree_broken_off :
    let a :=
      (load "p \x7b width: 1px * ; \x7d if [ q, .r \x7b A :=".toList).arena
    a.size = 10 ∧ a.children 0 = [7, 9] ∧ a.children 5 = [3, 4] ∧
      (∃ parent, (a.children parent).count 4 = 1 ∧
        ∀ other, 4 ∈ a.children other → other = parent) ∧
      a.rootTree.ids.Nodup := by
  intro a
  have htree : a.IsTree := load_makes_tree _
  have hlt : (4 : NodeId) < a.size := by decide +kernel
  refine ⟨?_, ?_, ?_, htree.exists_parent 4 (by decide) hlt,
    htree.nodup_walk⟩ <;>
    decide +kernel

end Stylesheet
