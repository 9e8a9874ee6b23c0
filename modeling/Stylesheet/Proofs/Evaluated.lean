import Stylesheet.Proofs.Rewriting
import Stylesheet.Proofs.Selection

/-!
# The evaluated parts of a sheet

What evaluation makes of the declarations and the rules that it keeps.  A
declaration whose expression was replaced shows a literal with a new number, and
everything else is the node it was before.
-/

namespace Stylesheet

open Arena

variable {notes : NodeId → Option Diagnostic}

/-! ## Declarations -/

namespace Selected

/-- The number of nodes that are added for a declaration. -/
def added (s : Selected) : Nat :=
  if s.written?.isSome then 1 else 0

/-- The expression after evaluation; `fresh` is the number of the next new
node. -/
def exprTree (notes : NodeId → Option Diagnostic) (fresh : Nat)
    (s : Selected) : Tree :=
  match s.written? with
  | some value => .plain fresh s.expr.pos (.literal value)
  | none => (s.expr.treeAt (s.first + 1)).noted notes

/-- The declaration after evaluation. -/
def evaluated (notes : NodeId → Option Diagnostic) (fresh : Nat)
    (s : Selected) : Tree :=
  .node ⟨s.id, s.pos, notes s.id⟩
    (.declaration
      ((Tree.plain s.first s.pos (.propertyName s.property)).noted notes)
      (s.exprTree notes fresh))

theorem literalValue?_exprTree (s : Selected) (fresh : Nat) :
    (s.exprTree notes fresh).literalValue? = s.result? := by
  unfold exprTree written? result?
  cases s.expr with
  | literal pos value =>
      simp [Expr.treeAt, Tree.plain, Content.map, Tree.literalValue?]
  | reference pos name =>
      cases s.value <;>
        simp [Expr.treeAt, Tree.plain, Content.map, Tree.literalValue?]
  | operation pos op lhs rhs =>
      cases s.value <;>
        simp [Expr.treeAt, Tree.plain, Content.map, Tree.literalValue?]

theorem size_write (a : Arena) (s : Selected) :
    (s.write a).size = a.size + s.added := by
  unfold write added
  cases s.written? <;> simp

theorem root_write (a : Arena) (s : Selected) : (s.write a).root = a.root := by
  unfold write
  split <;> simp

theorem node?_write_of_ne
    {a : Arena} {s : Selected} {id : Int} (hlt : id < a.size)
    (hne : id ≠ s.id) :
    (s.write a).node? id = a.node? id := by
  unfold write
  split
  · rw [node?_setContent, if_neg hne, node?_add, if_neg (by omega)]
  · rfl

/-- The nodes of an evaluated declaration are its old ones and perhaps the new
one. -/
theorem mem_ids_evaluated
    {s : Selected} {fresh : Nat} {id : Int}
    (h : id ∈ (s.evaluated notes fresh).ids) :
    ((s.first : Int) ≤ id ∧ id ≤ s.id) ∨ (fresh : Int) ≤ id := by
  have hle := s.first_le_id
  simp only [evaluated, Tree.ids_node, Content.toList, List.flatMap_cons,
    List.flatMap_nil, List.append_nil, Tree.ids_noted, Tree.plain,
    List.singleton_append, List.mem_cons] at h
  rcases h with rfl | rfl | h
  · omega
  · omega
  · unfold exprTree at h
    split at h
    · rw [Tree.plain, Tree.ids_node, Content.toList, List.flatMap_nil,
        List.mem_singleton] at h
      exact .inr (Int.le_of_eq h.symm)
    · rw [Tree.ids_noted, (s.expr.ids_treeAt_perm _).mem_iff, mem_idRange] at h
      rw [Selected.id]
      omega

theorem evaluated_of_written?_none
    {s : Selected} (h : s.written? = none) (fresh : Nat) :
    s.evaluated notes fresh = s.tree.noted notes := by
  simp only [evaluated, exprTree, h, tree, declarationTree, Tree.plain,
    Tree.noted_node, Content.map, Selected.id]

theorem holds_evaluated
    {a : Arena} {s : Selected} (h : a.Holds (s.tree.noted notes)) :
    (s.write a).Holds (s.evaluated notes a.size) := by
  cases hw : s.written? with
  | none => simpa only [write, hw, evaluated_of_written?_none hw] using h
  | some value =>
      obtain ⟨hnode, hname, -⟩ := holds_declarationTree h
      have hlt : s.id < a.size := lt_size_of_node?_eq_some hnode
      have hwrite : s.write a =
          (a.add s.expr.pos (.literal value)).2.setContent s.id
          (.declaration s.first a.size) := by
        simp only [write, hw]
      have hexpr : s.exprTree notes a.size =
          .plain a.size s.expr.pos (.literal value) := by
        simp only [exprTree, hw]
      rw [evaluated, hexpr]
      refine holds_node_iff.mpr ⟨?_, fun t ht => ?_⟩
      · have hne : (s.id : Int) ≠ a.size := by omega
        change (s.write a).node? (s.id : Int) = _
        rw [hwrite, node?_setContent, if_pos rfl, node?_add, if_neg hne]
        exact congrArg (Option.map _) hnode
      · simp only [Content.toList, List.mem_cons, List.not_mem_nil,
          or_false] at ht
        rcases ht with rfl | rfl
        · refine hname.congr fun id hid =>
            node?_write_of_ne (hname.lt_size hid) ?_
          rw [Tree.ids_noted, Tree.plain, Tree.ids_node, Content.toList,
            List.flatMap_nil, List.mem_singleton] at hid
          have hne : (s.first : Int) ≠ (s.id : Int) := by
            rw [Selected.id]
            omega
          exact hid ▸ hne
        · have hne : (a.size : Int) ≠ s.id := by omega
          refine holds_node_iff.mpr ⟨?_, by simp [Content.toList]⟩
          change (s.write a).node? (a.size : Int) = _
          rw [hwrite, node?_setContent, if_neg hne, node?_add, if_pos rfl]
          rfl

/-- Evaluation does not make an expression deeper. -/
theorem within_evaluated (s : Selected) (fresh : Nat) :
    (s.evaluated notes fresh).Within (s.expr.count + 1) := by
  have hpos := s.expr.count_pos
  obtain ⟨k, hk⟩ : ∃ k, s.expr.count = k + 1 := ⟨s.expr.count - 1, by omega⟩
  have hexpr : (s.exprTree notes fresh).Within s.expr.count := by
    unfold exprTree
    split
    · rw [hk]
      simp [Tree.plain, Tree.Within, Content.toList]
    · refine Tree.within_of_length_le (Nat.le_of_eq ?_)
      rw [Tree.subtrees_noted, List.length_map,
        length_subtrees_of_perm (s.expr.ids_treeAt_perm _)]
  intro t ht
  simp only [Content.toList, List.mem_cons, List.not_mem_nil, or_false] at ht
  rcases ht with rfl | rfl
  · rw [hk]
    simp [Tree.plain, Tree.Within, Content.map, Content.toList]
  · exact hexpr

/-- A declaration without a diagnostic after evaluation had none before. -/
theorem hasDiagnostic_tree
    {s : Selected} {env : Env}
    (hvalue : s.value = Selection.value? notes env s.tree s.expr) {fresh : Nat}
    (h : (s.evaluated notes fresh).hasDiagnostic = false) :
    (s.tree.noted notes).hasDiagnostic = false := by
  cases hw : s.written? with
  | none => rwa [evaluated_of_written?_none hw] at h
  | some value =>
      have hsome : s.value = some value := by
        unfold written? at hw
        split at hw
        · cases hw
        · exact hw
      rw [hvalue, Selection.value?] at hsome
      split at hsome
      · cases hsome
      · next hclean => exact Bool.not_eq_true _ ▸ hclean

/-- What a declaration without a diagnostic shows is the value that was found
for it. -/
theorem result?_eq_value
    {s : Selected} {env : Env}
    (hvalue : s.value = Selection.value? notes env s.tree s.expr)
    (h : (s.tree.noted notes).hasDiagnostic = false) : s.result? = s.value := by
  have hfound : s.value = s.expr.value? env := by
    rw [hvalue, Selection.value?, h]
    rfl
  rw [result?, hfound]
  cases s.expr <;> rfl

/-- The evaluation of a declaration as a rewriting of its part of the arena. -/
def rewriting (notes : NodeId → Option Diagnostic) : Rewriting Selected where
  first := first
  last := id
  before s := s.tree.noted notes
  after := evaluated notes
  added := added
  write := write
  first_le_last := first_le_id
  mem_ids_before := by
    intro s id
    rw [Tree.ids_noted, mem_ids_tree]
  rootId_after _ _ := rfl
  mem_ids_after := mem_ids_evaluated
  size_write := size_write
  root_write := root_write
  node?_write := by
    intro a s id hlt hout
    have hle := s.first_le_id
    exact node?_write_of_ne hlt (by omega)
  holds_write := holds_evaluated

end Selected

theorem Selection.ofItems_ordered_rewriting (items : List Item) (env : Env)
    (n : Nat) :
    (Selected.rewriting notes).Ordered (ofItems notes env n items) :=
  ofItems_ordered notes items env n

/-! ## Rules -/

theorem rootId_map_noted (ts : List Tree) :
    (ts.map (Tree.noted notes)).map Tree.rootId = ts.map Tree.rootId := by
  rw [List.map_map]
  exact List.map_congr_left fun t _ => Tree.rootId_noted notes t

namespace SelectedRule

/-- The rule after evaluation. -/
def evaluated (notes : NodeId → Option Diagnostic) (fresh : Nat)
    (r : SelectedRule) : Tree :=
  .node ⟨r.id, r.pos, notes r.id⟩
    (.stylerule ((selectorTrees r.first r.selectors).map (Tree.noted notes))
      ((Selected.rewriting notes).afterAll fresh (r.declarations notes)))

theorem declarations_bounds
    {r : SelectedRule} {s : Selected} (hs : s ∈ r.declarations notes) :
    r.first + r.selectors.length ≤ s.first ∧ s.id < r.id := by
  have h := Selection.ofItems_bounds notes r.body r.env _ hs
  rw [id]
  omega

theorem mem_ids_selectorTrees
    {r : SelectedRule} {t : Tree} {id : Int}
    (ht : t ∈ selectorTrees r.first r.selectors) (hid : id ∈ t.ids) :
    (r.first : Int) ≤ id ∧ id < r.first + r.selectors.length :=
  mem_idRange.mp ((ids_selectorTrees_perm r.selectors r.first).mem_iff.mp
    (List.mem_flatMap.mpr ⟨t, ht, hid⟩))

theorem node?_write_of_outside
    {a : Arena} {r : SelectedRule} {id : Int} (hlt : id < a.size)
    (hne : id ≠ r.id)
    (hout : ∀ s ∈ r.declarations notes, id < s.first ∨ (s.id : Int) < id) :
    (r.write notes a).node? id = a.node? id := by
  rw [write, node?_setContent, if_neg hne]
  exact (Selected.rewriting notes).node?_writeAll hlt hout

theorem mem_ids_evaluated
    {r : SelectedRule} {fresh : Nat} {id : Int}
    (h : id ∈ (r.evaluated notes fresh).ids) :
    ((r.first : Int) ≤ id ∧ id ≤ r.id) ∨ (fresh : Int) ≤ id := by
  have hle := r.first_le_id
  rw [evaluated, Tree.ids_node, List.mem_cons, List.mem_flatMap] at h
  rcases h with rfl | ⟨t, ht, hid⟩
  · exact .inl ⟨Int.ofNat_le.mpr hle, Int.le_refl _⟩
  · rw [Content.toList, List.mem_append, List.mem_map] at ht
    rcases ht with ⟨t, ht, rfl⟩ | ht
    · rw [Tree.ids_noted] at hid
      have hrange := mem_ids_selectorTrees ht hid
      rw [SelectedRule.id]
      omega
    · obtain ⟨s, hs, fresh', hfresh, rfl⟩ :=
        (Selected.rewriting notes).exists_of_mem_afterAll ht
      have hbounds := declarations_bounds hs
      have hcases := Selected.mem_ids_evaluated hid
      omega

theorem holds_evaluated
    {a : Arena} {r : SelectedRule} (h : a.Holds (r.tree.noted notes)) :
    (r.write notes a).Holds (r.evaluated notes a.size) := by
  obtain ⟨hnode, hselectors, hbody⟩ := holds_rule h
  have hlt : r.id < a.size := lt_size_of_node?_eq_some hnode
  have hdeclarations : ∀ s ∈ r.declarations notes,
      a.Holds (s.tree.noted notes) :=
    fun s hs => Selection.holds_of_mem_ofItems notes hbody hs
  have hwritten := (Selected.rewriting notes).holds_afterAll hdeclarations
    (Selection.ofItems_ordered_rewriting ..)
  have hsame : ((r.declarations notes).foldl Selected.write a).node?
      (r.id : Int) =
      a.node? (r.id : Int) := by
    refine (Selected.rewriting notes).node?_writeAll (by omega) fun s hs =>
      .inr ?_
    exact Int.ofNat_lt.mpr (declarations_bounds hs).2
  refine holds_node_iff.mpr ⟨?_, fun t ht => ?_⟩
  · change (r.write notes a).node? (r.id : Int) = _
    rw [write, node?_setContent, if_pos rfl, hsame]
    have hroots :=
      (Selected.rewriting notes).rootId_afterAll (r.declarations notes) a.size
    rw [Content.map, hroots, rootId_map_noted]
    exact congrArg (Option.map _) hnode
  · rw [Content.toList, List.mem_append, List.mem_map] at ht
    rcases ht with ⟨t, ht, rfl⟩ | ht
    · have hheld := hselectors t ht
      refine hheld.congr fun id hid => ?_
      have hid' : id ∈ t.ids := Tree.ids_noted notes t ▸ hid
      have hrange := mem_ids_selectorTrees ht hid'
      refine node?_write_of_outside (hheld.lt_size hid) ?_ fun s hs => .inl ?_
      · rw [SelectedRule.id]
        omega
      · have hbounds := declarations_bounds hs
        omega
    · refine (hwritten t ht).congr fun (id : Int) hid => ?_
      obtain ⟨s, hs, fresh', hfresh, rfl⟩ :=
        (Selected.rewriting notes).exists_of_mem_afterAll ht
      have hbounds := declarations_bounds hs
      have hne : id ≠ (r.id : Int) := by
        have hcases := Selected.mem_ids_evaluated hid
        omega
      rw [write, node?_setContent, if_neg hne]
      rfl

theorem within_evaluated (r : SelectedRule) (fresh : Nat) :
    (r.evaluated notes fresh).Within (r.id - r.first + 1) := by
  intro t ht
  rw [Content.toList, List.mem_append, List.mem_map] at ht
  rcases ht with ⟨t, ht, rfl⟩ | ht
  · obtain ⟨k, hk, pos, text, rfl⟩ := exists_of_mem_selectorTrees ht
    have hleaf : ((Tree.plain (r.first + k) pos (.selector text)).noted
        notes).Within 1 := by
      simp [Tree.plain, Tree.Within, Content.map, Content.toList]
    have hid : r.id = r.first + r.selectors.length + countItems r.body := rfl
    exact hleaf.mono (by omega)
  · obtain ⟨s, hs, fresh', -, rfl⟩ :=
      (Selected.rewriting notes).exists_of_mem_afterAll ht
    have hbounds := declarations_bounds hs
    have hid : s.id = s.first + 1 + s.expr.count := rfl
    exact (s.within_evaluated fresh').mono (by omega)

/-- The evaluation of a rule as a rewriting of its part of the arena. -/
def rewriting (notes : NodeId → Option Diagnostic) :
    Rewriting SelectedRule where
  first := first
  last := id
  before r := r.tree.noted notes
  after := evaluated notes
  added r := (Selected.rewriting notes).addedAll (r.declarations notes)
  write := write notes
  first_le_last := first_le_id
  mem_ids_before := by
    intro r id
    rw [Tree.ids_noted, mem_ids_tree]
  rootId_after _ _ := rfl
  mem_ids_after := mem_ids_evaluated
  size_write a r := by
    rw [write, size_setContent]
    exact (Selected.rewriting notes).size_writeAll _ a
  root_write a r := by
    rw [write, root_setContent]
    exact (Selected.rewriting notes).root_writeAll _ a
  node?_write := by
    intro a r id hlt hout
    have hle := r.first_le_id
    refine node?_write_of_outside hlt (by omega) fun s hs => ?_
    have hbounds := declarations_bounds hs
    omega
  holds_write := holds_evaluated

end SelectedRule

/-! ## Declarations of the evaluated sheet -/

/-- No part of an expression is a declaration. -/
theorem declaration_notMem_subtrees_treeAt
    {label : Label} {property expr : Tree} (e : Expr) (n : Nat) :
    .node label (.declaration property expr) ∉
      ((e.treeAt n).noted notes).subtrees := by
  induction e generalizing n with
  | literal pos value =>
      simp [Expr.treeAt, Tree.plain, Content.map, Content.toList]
  | reference pos name =>
      simp [Expr.treeAt, Tree.plain, Content.map, Content.toList]
  | operation pos op lhs rhs ihl ihr =>
      simp [Expr.treeAt, Tree.plain, Content.map, Content.toList, ihl, ihr]

theorem Selected.eq_of_mem_subtrees
    {label : Label} {property expr : Tree} {s : Selected} {fresh : Nat}
    (h : .node label (.declaration property expr) ∈
      (s.evaluated notes fresh).subtrees) :
    .node label (.declaration property expr) = s.evaluated notes fresh := by
  have hexpr : .node label (.declaration property expr) ∉
      (s.exprTree notes fresh).subtrees := by
    unfold exprTree
    split
    · simp [Tree.plain, Content.toList]
    · exact declaration_notMem_subtrees_treeAt s.expr _
  rw [evaluated, Tree.subtrees_node, List.mem_cons] at h
  rcases h with h | h
  · exact h
  · simp [Content.toList, Content.map, Tree.plain, hexpr] at h

theorem SelectedRule.exists_of_mem_subtrees
    {label : Label} {property expr : Tree} {r : SelectedRule} {fresh : Nat}
    (h : .node label (.declaration property expr) ∈
      (r.evaluated notes fresh).subtrees) :
    ∃ s ∈ r.declarations notes, ∃ fresh',
      .node label (.declaration property expr) = s.evaluated notes fresh' := by
  rw [evaluated, Tree.subtrees_node, List.mem_cons, List.mem_flatMap] at h
  rcases h with h | ⟨t, ht, hmem⟩
  · cases h
  · rw [Content.toList, List.mem_append, List.mem_map] at ht
    rcases ht with ⟨leaf, hleaf, rfl⟩ | ht
    · obtain ⟨k, -, pos, text, rfl⟩ := exists_of_mem_selectorTrees hleaf
      simp [Tree.plain, Content.map, Content.toList] at hmem
    · obtain ⟨s, hs, fresh', -, rfl⟩ :=
        (Selected.rewriting notes).exists_of_mem_afterAll ht
      exact ⟨s, hs, fresh', Selected.eq_of_mem_subtrees hmem⟩

end Stylesheet
