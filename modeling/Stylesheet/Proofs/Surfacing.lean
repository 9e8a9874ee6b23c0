import Stylesheet.Proofs.Exactness

/-!
# Errors in expressions

An expression in which something is wrong has no type, and neither has one that
it is a part of.  So of two nodes of an expression, one below the other, at most
one carries a diagnostic, and the item that the expression belongs to carries
one as well.
-/

namespace Stylesheet

open Typing

/-! ## Trees whose numbers are all different -/

namespace Tree

variable {root t s part : Tree} {label : Label} {c : Content Tree} {id : NodeId}

theorem mem_ids_of_mem_part (hpart : part ∈ c.toList) (hid : id ∈ part.ids) :
    id ∈ (node label c).ids := by
  rw [ids_node]
  exact List.mem_cons_of_mem _ (List.mem_flatMap.mpr ⟨part, hpart, hid⟩)

theorem nodup_ids_of_mem_part (h : (node label c).ids.Nodup)
    (hpart : part ∈ c.toList) :
    part.ids.Nodup := by
  rw [ids_node, List.nodup_cons, List.nodup_flatMap] at h
  exact h.2.1 part hpart

theorem notMem_ids_of_mem_part (h : (node label c).ids.Nodup)
    (hpart : part ∈ c.toList) :
    label.id ∉ part.ids := by
  rw [ids_node, List.nodup_cons] at h
  exact fun hid => h.1 (List.mem_flatMap.mpr ⟨part, hpart, hid⟩)

theorem nodup_ids_of_mem_subtrees (h : root.ids.Nodup)
    (hs : s ∈ root.subtrees) :
    s.ids.Nodup := by
  induction root using induction_on with
  | hmissing => simp at hs
  | hnode label c ih =>
      rw [subtrees_node, List.mem_cons, List.mem_flatMap] at hs
      obtain rfl | ⟨t, ht, hmem⟩ := hs
      · exact h
      · exact ih t ht (nodup_ids_of_mem_part h ht) hmem

theorem nodup_ids_of_subtrees_subset (h : root.ids.Nodup)
    (hs : s.subtrees ⊆ root.subtrees) :
    s.ids.Nodup := by
  cases s with
  | missing => simp
  | node label c =>
      exact nodup_ids_of_mem_subtrees h (hs (self_mem_subtrees label c))

theorem eq_of_rootId_eq (h : root.ids.Nodup) (ht : t ∈ root.subtrees)
    (hs : s ∈ root.subtrees) (hid : t.rootId = s.rootId) : t = s :=
  List.inj_on_of_nodup_map h ht hs hid

/-- A node is in every part that has its number. -/
theorem mem_subtrees_of_rootId_mem (h : root.ids.Nodup) (ht : t ∈ root.subtrees)
    (hs : s.subtrees ⊆ root.subtrees) (hid : t.rootId ∈ s.ids) :
    t ∈ s.subtrees := by
  obtain ⟨u, hu, heq⟩ := List.mem_map.mp hid
  rwa [← eq_of_rootId_eq h (hs hu) ht heq]

/-- An item of a list is known by each of its numbers. -/
theorem split_unique
    {before before' after after' : List Tree}
    (hnodup : ((before ++ t :: after).flatMap ids).Nodup)
    (heq : before ++ t :: after = before' ++ s :: after') (ht : id ∈ t.ids)
    (hs : id ∈ s.ids) :
    before = before' ∧ t = s := by
  rw [List.flatMap_append, List.flatMap_cons, List.nodup_append,
    List.nodup_append] at hnodup
  obtain ⟨-, ⟨-, -, hafter⟩, hbefore⟩ := hnodup
  obtain ⟨between, rfl, hrest⟩ | ⟨between, rfl, hrest⟩ :=
    List.append_eq_append_iff.mp heq
  · cases between with
    | nil =>
        rw [List.append_nil]
        exact ⟨rfl, (List.cons.inj hrest).1⟩
    | cons u between =>
        obtain ⟨-, rfl⟩ := List.cons.inj hrest
        exact absurd rfl
          (hafter id ht id (List.mem_flatMap.mpr ⟨s, by simp, hs⟩))
  · cases between with
    | nil =>
        rw [List.append_nil]
        exact ⟨rfl, (List.cons.inj hrest).1.symm⟩
    | cons u between =>
        obtain ⟨rfl, -⟩ := List.cons.inj hrest
        have hfront : id ∈ (before' ++ s :: between).flatMap ids :=
          List.mem_flatMap.mpr ⟨s, by simp, hs⟩
        exact absurd rfl (hbefore id hfront id (List.mem_append_left _ ht))

end Tree

/-! ## Findings by the number of their node -/

namespace Scoping

section Parts

variable {env : Scope Ty} {f : Finding} {expr item part : Tree} {label : Label}

theorem mem_inExpr_operation_iff {op : Operator} {lhs rhs : Tree} :
    f ∈ inExpr env (.node label (.operation op lhs rhs)) ↔
      f ∈ inExpr env lhs ∨ f ∈ inExpr env rhs ∨
        isPixelProduct env op lhs rhs = true ∧
          f = ⟨label.id, .pixelProduct⟩ := by
  rw [inExpr, List.mem_append, List.mem_append, or_assoc]
  split <;> simp [*]

/-- What is found in an expression about a node of a part of it is found in the
part. -/
theorem mem_inExpr_of_mem_subtrees
    (hnodup : expr.ids.Nodup) (hpart : part ∈ expr.subtrees)
    (hf : f ∈ inExpr env expr) (hid : f.id ∈ part.ids) :
    f ∈ inExpr env part := by
  induction expr using Tree.induction_on with
  | hmissing => cases hf
  | hnode label c ih =>
      rw [Tree.subtrees_node, List.mem_cons] at hpart
      obtain rfl | hpart := hpart
      · exact hf
      · cases c with
        | operation op lhs rhs =>
            simp only [Tree.ids_node, Content.toList, List.flatMap_cons,
              List.flatMap_nil, List.append_nil, List.nodup_cons,
              List.mem_append, not_or, List.nodup_append] at hnodup
            obtain ⟨⟨hl, hr⟩, hlhs, hrhs, hapart⟩ := hnodup
            simp only [Content.toList, List.flatMap_cons, List.flatMap_nil,
              List.append_nil, List.mem_append] at hpart
            rw [mem_inExpr_operation_iff] at hf
            obtain hpart | hpart := hpart
            · have hmem := Tree.ids_subset_of_mem_subtrees hpart hid
              obtain hf | hf | ⟨-, rfl⟩ := hf
              · exact ih lhs (by simp [Content.toList]) hlhs hpart hf
              · exact absurd rfl (hapart _ hmem _ (mem_ids_of_mem_inExpr hf))
              · exact absurd hmem hl
            · have hmem := Tree.ids_subset_of_mem_subtrees hpart hid
              obtain hf | hf | ⟨-, rfl⟩ := hf
              · exact absurd rfl (hapart _ (mem_ids_of_mem_inExpr hf) _ hmem)
              · exact ih rhs (by simp [Content.toList]) hrhs hpart hf
              · exact absurd hmem hr
        | reference name => cases hpart
        | _ => cases hf

/-- A product of pixel sizes is the only operation about which something is
found, and nothing is found in its operands. -/
theorem inExpr_operands_eq_nil
    {op : Operator} {lhs rhs : Tree}
    (hnodup : (Tree.node label (.operation op lhs rhs)).ids.Nodup)
    (hf : f ∈ inExpr env (.node label (.operation op lhs rhs)))
    (hid : f.id = label.id) :
    inExpr env lhs = [] ∧ inExpr env rhs = [] := by
  have hl : label.id ∉ lhs.ids :=
    Tree.notMem_ids_of_mem_part hnodup (by simp [Content.toList])
  have hr : label.id ∉ rhs.ids :=
    Tree.notMem_ids_of_mem_part hnodup (by simp [Content.toList])
  obtain hf | hf | ⟨hproduct, -⟩ := mem_inExpr_operation_iff.mp hf
  · exact absurd (hid ▸ mem_ids_of_mem_inExpr hf) hl
  · exact absurd (hid ▸ mem_ids_of_mem_inExpr hf) hr
  · rw [isPixelProduct, Bool.and_eq_true, Bool.and_eq_true, decide_eq_true_iff,
      decide_eq_true_iff, decide_eq_true_iff] at hproduct
    obtain ⟨⟨-, hleft⟩, hright⟩ := hproduct
    constructor
    · exact inExpr_eq_nil_of_typeOf_ne_none (hleft ▸ Option.some_ne_none _)
    · exact inExpr_eq_nil_of_typeOf_ne_none (hright ▸ Option.some_ne_none _)

/-- What is found in a conditional about a node of its guard, its body or its
alternative is found there. -/
theorem mem_parts_of_mem_inItem
    {guard otherwise : Tree} {body : List Tree}
    (hnodup : (Tree.node label (.ifClause guard body otherwise)).ids.Nodup)
    (hf : f ∈ inItem env (.node label (.ifClause guard body otherwise))) :
    (f.id ∈ guard.ids → f ∈ inExpr env guard) ∧
      (f.id ∈ body.flatMap Tree.ids → f ∈ inBody env.push body) ∧
      (f.id ∈ otherwise.ids → f ∈ inElse env otherwise) := by
  simp only [Tree.ids_node, Content.toList, List.cons_append, List.flatMap_cons,
    List.flatMap_append, List.flatMap_nil, List.append_nil, List.nodup_cons,
    List.mem_append, not_or, List.nodup_append] at hnodup
  obtain ⟨⟨hguard, hbody, helse⟩, -, ⟨-, -, hparts⟩, hrest⟩ := hnodup
  have hbodyId : f ∈ inBody env.push body → f.id ∈ body.flatMap Tree.ids :=
    fun hf => (ids_inBody_subperm _ _).subset (List.mem_map_of_mem hf)
  have helseId : f ∈ inElse env otherwise → f.id ∈ otherwise.ids := fun hf =>
    (ids_inItem_and_inElse_subperm _ _).2.subset (List.mem_map_of_mem hf)
  rw [inItem, List.mem_append, List.mem_append, List.mem_append] at hf
  obtain ((hf | hf) | hf) | hf := hf
  · have hid := mem_ids_of_mem_inExpr hf
    refine ⟨fun _ => hf, fun h => ?_, fun h => ?_⟩
    · exact absurd rfl (hrest _ hid _ (.inl h))
    · exact absurd rfl (hrest _ hid _ (.inr h))
  · rw [id_eq_of_mem_findingOn hf]
    exact ⟨fun h => absurd h hguard, fun h => absurd h hbody, fun h =>
      absurd h helse⟩
  · refine ⟨fun h => ?_, fun _ => hf, fun h => ?_⟩
    · exact absurd rfl (hrest _ h _ (.inl (hbodyId hf)))
    · exact absurd rfl (hparts _ (hbodyId hf) _ h)
  · refine ⟨fun h => ?_, fun h => ?_, fun _ => hf⟩
    · exact absurd rfl (hrest _ h _ (.inr (helseId hf)))
    · exact absurd rfl (hparts _ h _ (helseId hf))

/-- What is found in an item about a node of its expression is found in the
expression. -/
theorem Evaluates.mem_inExpr
    (h : Evaluates expr item) (hnodup : item.ids.Nodup)
    (hf : f ∈ inItem env item) (hid : f.id ∈ expr.ids) :
    f ∈ inExpr env expr := by
  cases h with
  | guard => exact (mem_parts_of_mem_inItem hnodup hf).1 hid
  | assignment | declaration =>
      rw [inItem, List.mem_append] at hf
      apply hf.resolve_right
      intro hown
      rw [id_eq_of_mem_findingOn hown] at hid
      exact Tree.notMem_ids_of_mem_part hnodup (by simp [Content.toList]) hid

/-- In an assignment or a declaration something is found about itself or in its
expression. -/
theorem Evaluates.id_eq_or_mem_inExpr
    (h : Evaluates expr item) (hitem : ¬ IsConditional item)
    (hf : f ∈ inItem env item) :
    f.id = item.rootId ∨ f ∈ inExpr env expr := by
  cases h with
  | guard => exact absurd trivial hitem
  | assignment | declaration =>
      rw [inItem, List.mem_append] at hf
      exact hf.symm.imp_left id_eq_of_mem_findingOn

/-- An item whose expression has no type has the wrong type itself. -/
theorem Evaluates.reported_typeMismatch
    (h : Evaluates expr item) (hnone : typeOf env expr = none) :
    Reported (inItem env item) item.rootId .typeMismatch := by
  cases h with
  | guard =>
      rw [inItem, hnone, reported_append, reported_append, reported_append]
      exact .inl (.inl (.inr (reported_findingOn.mpr ⟨rfl, rfl⟩)))
  | assignment | declaration =>
      rw [inItem, hnone, reported_append]
      exact .inr (reported_findingOn.mpr ⟨rfl, rfl⟩)

end Parts

theorem Evaluates.subtrees_subset {expr item : Tree} (h : Evaluates expr item) :
    expr.subtrees ⊆ item.subtrees := by
  cases h <;> exact Tree.subtrees_subset (by simp [Content.toList])

theorem exists_evaluates_of_mem_onItem
    {env : Scope Ty} {item : Tree} {f : Finding} (hf : f ∈ onItem env item) :
    ∃ expr, Evaluates expr item ∧
      (f.id = item.rootId ∨ f ∈ inExpr env expr) := by
  unfold onItem at hf
  split at hf
  · rw [List.mem_append] at hf
    exact ⟨_, .guard, hf.symm.imp_left id_eq_of_mem_findingOn⟩
  · exact ⟨_, .assignment, Evaluates.assignment.id_eq_or_mem_inExpr id hf⟩
  · exact ⟨_, .declaration, Evaluates.declaration.id_eq_or_mem_inExpr id hf⟩
  · cases hf

/-! ## Findings in the items that stand in a sheet -/

section Sheets

variable {items : List Tree} {ctx : Context} {item expr : Tree} {f : Finding}

theorem Stands.subtrees_subset (h : Stands items ctx item) :
    item.subtrees ⊆ items.flatMap Tree.subtrees := by
  induction h with
  | @top before after item heq hplace =>
      intro t ht
      exact List.mem_flatMap.mpr ⟨item, by simp [heq], ht⟩
  | inRule h ih =>
      exact List.Subset.trans
        (Tree.subtrees_subset (by simp [Content.toList])) ih
  | inBranch h ih =>
      exact List.Subset.trans
        (Tree.subtrees_subset (by simp [Content.toList])) ih
  | @inAlternative ctx label elseLabel guard item body before after h ih =>
      have helse : item.subtrees ⊆
          (Tree.node elseLabel
            (.elseClause (before ++ item :: after))).subtrees :=
        Tree.subtrees_subset (by simp [Content.toList])
      apply List.Subset.trans helse
      exact List.Subset.trans
        (Tree.subtrees_subset (by simp [Content.toList])) ih

theorem Stands.nodup_ids (h : Stands items ctx item)
    (hnodup : (items.flatMap Tree.ids).Nodup) :
    item.ids.Nodup := by
  induction h with
  | @top before after item heq hplace =>
      exact (List.nodup_flatMap.mp hnodup).1 item (by simp [heq])
  | inRule h ih =>
      exact Tree.nodup_ids_of_mem_part ih (by simp [Content.toList])
  | inBranch h ih =>
      exact Tree.nodup_ids_of_mem_part ih (by simp [Content.toList])
  | @inAlternative ctx label elseLabel guard item body before after h ih =>
      have helse : (Tree.node elseLabel
          (.elseClause (before ++ item :: after))).ids.Nodup :=
        Tree.nodup_ids_of_mem_part ih (by simp [Content.toList])
      exact Tree.nodup_ids_of_mem_part helse (by simp [Content.toList])

theorem Stands.mem_inItem_of_mem_inBody
    {parent : Tree} {before after : List Tree} (h : Stands items ctx parent)
    (hnodup : ((before ++ item :: after).flatMap Tree.ids).Nodup)
    (hf : f ∈ inBody (scopeAt ctx).push (before ++ item :: after))
    (hid : f.id ∈ item.ids) :
    f ∈ inItem (scopeAt (before :: ctx)) item := by
  obtain ⟨before', item', after', heq, hmem⟩ := h.mem_inBody_iff.mp hf
  obtain ⟨rfl, rfl⟩ :=
    Tree.split_unique hnodup heq hid (mem_ids_of_mem_inItem hmem)
  exact hmem

/-- What is found in a sheet about a node of an item that stands in it is found
in the item. -/
theorem Stands.mem_inItem
    (h : Stands items ctx item) (hnodup : (items.flatMap Tree.ids).Nodup)
    (hf : f ∈ atTop .empty items) (hid : f.id ∈ item.ids) :
    f ∈ inItem (scopeAt ctx) item := by
  induction h with
  | @top before after item heq hplace =>
      subst heq
      obtain ⟨before', item', after', heq, hmem⟩ := mem_atTop_iff.mp hf
      obtain ⟨rfl, rfl⟩ :=
        Tree.split_unique hnodup heq hid (mem_ids_of_mem_inTopItem hmem)
      rwa [inTopItem_of_not_isConditional hplace] at hmem
  | @inRule ctx label selectors before after item h ih =>
      have hparent :=
        ih (Tree.mem_ids_of_mem_part (by simp [Content.toList]) hid)
      have hids := h.nodup_ids hnodup
      rw [Tree.ids_node, List.nodup_cons, Content.toList, List.flatMap_append,
        List.nodup_append] at hids
      rw [inItem] at hparent
      exact h.mem_inItem_of_mem_inBody hids.2.2.1 hparent hid
  | @inBranch ctx label guard otherwise item before after h ih =>
      have hparent :=
        ih (Tree.mem_ids_of_mem_part (by simp [Content.toList]) hid)
      have hids := h.nodup_ids hnodup
      have hbody : f.id ∈ (before ++ item :: after).flatMap Tree.ids :=
        List.mem_flatMap.mpr ⟨item, by simp, hid⟩
      have hmem := (mem_parts_of_mem_inItem hids hparent).2.1 hbody
      rw [Tree.ids_node, List.nodup_cons, Content.toList, List.flatMap_append,
        List.flatMap_cons, List.nodup_append, List.nodup_append] at hids
      exact h.mem_inItem_of_mem_inBody hids.2.1.2.1 hmem hid
  | @inAlternative ctx label elseLabel guard item body before after h ih =>
      have hids := h.nodup_ids hnodup
      have helse : f.id ∈
          (Tree.node elseLabel (.elseClause (before ++ item :: after))).ids :=
        Tree.mem_ids_of_mem_part (by simp [Content.toList]) hid
      have hparent :=
        ih (Tree.mem_ids_of_mem_part (by simp [Content.toList]) helse)
      have hmem := (mem_parts_of_mem_inItem hids hparent).2.2 helse
      have hother : (Tree.node elseLabel
          (.elseClause (before ++ item :: after))).ids.Nodup :=
        Tree.nodup_ids_of_mem_part hids (by simp [Content.toList])
      rw [Tree.ids_node, List.nodup_cons] at hother
      rw [inElse] at hmem
      exact h.mem_inItem_of_mem_inBody hother.2 hmem hid

end Sheets

theorem inSheet_eq_atTop (t : Tree) : inSheet t = atTop .empty (itemsOf t) := by
  cases t with
  | missing => rfl
  | node label c => cases c <;> rfl

theorem nodup_ids_itemsOf {t : Tree} (h : t.ids.Nodup) :
    ((itemsOf t).flatMap Tree.ids).Nodup := by
  unfold itemsOf
  split
  · rw [Tree.ids_node, List.nodup_cons] at h
    exact h.2
  · exact List.nodup_nil

theorem subtrees_itemsOf_subset (t : Tree) :
    (itemsOf t).flatMap Tree.subtrees ⊆ t.subtrees := by
  unfold itemsOf
  split
  · rw [Tree.subtrees_node]
    exact List.subset_cons_self _ _
  · exact List.nil_subset _

end Scoping

/-! ## Checked sheets -/

open Scoping

/-- The nodes that expressions are made of. -/
def Content.IsExpression {α : Type} : Content α → Prop
  | .literal _ | .reference _ | .operation _ _ _ => True
  | _ => False

/-- The arena stores a sheet, and its diagnostics are about what is found in the
sheet. -/
structure Arena.Checked (a : Arena) (sheet : Sheet) :
    Prop extends a.Stores sheet where
  kind_iff : ∀ id kind, (a.diagnosticOf id).map Diagnostic.kind = some kind ↔
    Reported (atTop .empty (itemsOf a.rootTree)) id kind

theorem checked_check (sheet : Sheet) :
    (Arena.ofSheet sheet).check.Checked sheet := by
  have hstores := (stores_ofSheet sheet).check
  refine ⟨hstores, fun id kind => ?_⟩
  rw [kind_diagnosticOf_check_iff, ← inSheet_eq_atTop, hstores.rootTree_eq,
    inSheet_noted]

namespace Arena.Checked

variable {a : Arena} {sheet : Sheet} {t : Tree}

theorem nodup_ids (h : a.Checked sheet) : a.rootTree.ids.Nodup := by
  rw [h.rootTree_eq, Tree.ids_noted]
  exact (ids_sheetTree_perm sheet).nodup_iff.mpr (nodup_idRange _ _)

theorem isSome_iff (h : a.Checked sheet) {id : NodeId} :
    (a.diagnosticOf id).isSome ↔
      ∃ f ∈ atTop .empty (itemsOf a.rootTree), f.id = id := by
  constructor
  · intro hsome
    obtain ⟨d, hd⟩ := Option.isSome_iff_exists.mp hsome
    obtain ⟨f, hf, hid, -⟩ :=
      (h.kind_iff id d.kind).mp (by rw [hd, Option.map_some])
    exact ⟨f, hf, hid⟩
  · rintro ⟨f, hf, hid⟩
    rw [← Option.isSome_map, (h.kind_iff id f.fault.kind).mpr ⟨f, hf, hid, rfl⟩]
    rfl

/-- Each part of a checked sheet is seen from its top. -/
theorem tree_rootId (h : a.Checked sheet)
    (ht : t.subtrees ⊆ a.rootTree.subtrees) :
    a.Holds t ∧ a.tree t.rootId = t := by
  have hholds : a.Holds t := by
    intro label c hmem
    apply h.holds label c
    rw [← h.rootTree_eq]
    exact ht hmem
  have hnodup := Tree.nodup_ids_of_subtrees_subset h.nodup_ids ht
  have hle := (hnodup.subperm (List.map_subset _ ht)).length_le
  refine ⟨hholds, tree_eq_of_holds hholds (Tree.within_of_length_le ?_)⟩
  calc
    t.subtrees.length = t.ids.length := (List.length_map _).symm
    _ ≤ a.rootTree.ids.length := hle
    _ = a.size := by
      rw [h.rootTree_eq, Tree.ids_noted, (ids_sheetTree_perm sheet).length_eq,
        length_idRange, h.size_eq]

/-- A part of a checked sheet carries a diagnostic exactly if something is found
about a node of it. -/
theorem hasDiagnostic_iff (h : a.Checked sheet)
    (ht : t.subtrees ⊆ a.rootTree.subtrees) :
    (a.tree t.rootId).hasDiagnostic = true ↔
      ∃ f ∈ atTop .empty (itemsOf a.rootTree), f.id ∈ t.ids := by
  obtain ⟨hholds, htree⟩ := h.tree_rootId ht
  have hnoted : t.hasDiagnostic = true ↔
      ∃ id ∈ t.ids, (a.diagnosticOf id).isSome := by
    rw [← Tree.hasDiagnostic_noted, noted_eq_of_holds hholds]
  rw [htree, hnoted]
  simp only [h.isSome_iff]
  constructor
  · rintro ⟨id, hid, f, hf, rfl⟩
    exact ⟨f, hf, hid⟩
  · rintro ⟨f, hf, hid⟩
    exact ⟨f.id, hid, f, hf, rfl⟩

section Items

variable {ctx : Context} {item expr : Tree}

theorem subtrees_subset (hitem : Stands (itemsOf a.rootTree) ctx item) :
    item.subtrees ⊆ a.rootTree.subtrees :=
  List.Subset.trans hitem.subtrees_subset (subtrees_itemsOf_subset _)

theorem expr_subtrees_subset
    (hitem : Stands (itemsOf a.rootTree) ctx item)
    (hexpr : Evaluates expr item) :
    expr.subtrees ⊆ a.rootTree.subtrees :=
  List.Subset.trans hexpr.subtrees_subset (subtrees_subset hitem)

/-- What is found in a checked sheet about a node of an expression is found in
the expression. -/
theorem mem_inExpr
    (h : a.Checked sheet) (hitem : Stands (itemsOf a.rootTree) ctx item)
    (hexpr : Evaluates expr item) {f : Finding}
    (hf : f ∈ atTop .empty (itemsOf a.rootTree)) (hid : f.id ∈ expr.ids) :
    f ∈ inExpr (scopeAt ctx) expr := by
  have hnodup := nodup_ids_itemsOf h.nodup_ids
  apply hexpr.mem_inExpr (hitem.nodup_ids hnodup) _ hid
  exact hitem.mem_inItem hnodup hf (List.map_subset _ hexpr.subtrees_subset hid)

/-- An operation that carries a diagnostic is part of an expression at some
place, and nothing is found in its operands there. -/
theorem exists_evaluates
    {label : Label} {op : Operator} {lhs rhs : Tree} (h : a.Checked sheet)
    (hmem : .node label (.operation op lhs rhs) ∈ a.rootTree.subtrees)
    (hsome : (a.diagnosticOf label.id).isSome) :
    ∃ ctx item expr, Stands (itemsOf a.rootTree) ctx item ∧
      Evaluates expr item ∧
      .node label (.operation op lhs rhs) ∈ expr.subtrees ∧
      inExpr (scopeAt ctx) lhs = [] ∧ inExpr (scopeAt ctx) rhs = [] := by
  obtain ⟨f, hf, hid⟩ := h.isSome_iff.mp hsome
  have hother : ∀ t ∈ a.rootTree.subtrees, t.rootId = f.id →
      t = .node label (.operation op lhs rhs) :=
    fun t ht heq => Tree.eq_of_rootId_eq h.nodup_ids ht hmem (heq.trans hid)
  obtain ⟨label', guard, body, otherwise, hin, rfl⟩ | ⟨ctx, item, hitem, hon⟩ :=
    mem_atTop_empty_iff.mp hf
  · have htop : .node label' (.ifClause guard body otherwise) ∈
        a.rootTree.subtrees :=
      subtrees_itemsOf_subset _
        (List.mem_flatMap.mpr ⟨_, hin, Tree.self_mem_subtrees _ _⟩)
    cases hother _ htop rfl
  · obtain ⟨expr, hexpr, hown | hin⟩ := exists_evaluates_of_mem_onItem hon
    · have heq : item = .node label (.operation op lhs rhs) := by
        apply hother item _ hown.symm
        cases hexpr <;> exact subtrees_subset hitem (Tree.self_mem_subtrees _ _)
      rw [heq] at hexpr
      cases hexpr
    · have hexprSub := expr_subtrees_subset hitem hexpr
      have hpart : .node label (.operation op lhs rhs) ∈ expr.subtrees := by
        apply Tree.mem_subtrees_of_rootId_mem h.nodup_ids hmem hexprSub
        rw [Tree.rootId, ← hid]
        exact mem_ids_of_mem_inExpr hin
      have hnodup := Tree.nodup_ids_of_subtrees_subset h.nodup_ids hexprSub
      have hfound := mem_inExpr_of_mem_subtrees hnodup hpart hin (by simp [hid])
      refine ⟨ctx, item, expr, hitem, hexpr, hpart, ?_⟩
      exact inExpr_operands_eq_nil (Tree.nodup_ids_of_mem_subtrees hnodup hpart)
        hfound hid

/-- Below a node of an expression that carries a diagnostic there is no other
one. -/
theorem hasDiagnostic_part
    {label : Label} {c : Content Tree} {part : Tree} (h : a.Checked sheet)
    (hmem : .node label c ∈ a.rootTree.subtrees) (hc : c.IsExpression)
    (hsome : (a.diagnosticOf label.id).isSome) (hpart : part ∈ c.toList) :
    (a.tree part.rootId).hasDiagnostic = false := by
  cases c with
  | operation op lhs rhs =>
      obtain ⟨ctx, item, expr, hitem, hexpr, hin, hl, hr⟩ :=
        h.exists_evaluates hmem hsome
      have hnodup := Tree.nodup_ids_of_mem_subtrees h.nodup_ids hmem
      rw [Bool.eq_false_iff, ne_eq, h.hasDiagnostic_iff
        (List.Subset.trans (Tree.subtrees_subset hpart)
          (Tree.subtrees_trans hmem))]
      rintro ⟨f, hf, hid⟩
      have hids : f.id ∈ (Tree.node label (.operation op lhs rhs)).ids :=
        Tree.mem_ids_of_mem_part hpart hid
      have hexprNodup :=
        Tree.nodup_ids_of_subtrees_subset h.nodup_ids
          (expr_subtrees_subset hitem hexpr)
      have hexprFound :=
        h.mem_inExpr hitem hexpr hf (Tree.ids_subset_of_mem_subtrees hin hids)
      have hfound := mem_inExpr_of_mem_subtrees hexprNodup hin hexprFound hids
      rw [mem_inExpr_operation_iff, hl, hr] at hfound
      obtain hfound | hfound | ⟨-, rfl⟩ := hfound
      · cases hfound
      · cases hfound
      · exact Tree.notMem_ids_of_mem_part hnodup hpart hid
  | literal value => cases hpart
  | reference name => cases hpart
  | _ => cases hc

/-- Something is wrong with the type of an item in whose expression something is
found. -/
theorem kind_eq_typeMismatch
    (h : a.Checked sheet) (hitem : Stands (itemsOf a.rootTree) ctx item)
    (hexpr : Evaluates expr item) {f : Finding}
    (hf : f ∈ inExpr (scopeAt ctx) expr) :
    (a.diagnosticOf item.rootId).map Diagnostic.kind = some .typeMismatch := by
  have hnone : typeOf (scopeAt ctx) expr = none := by
    by_contra hne
    rw [inExpr_eq_nil_of_typeOf_ne_none hne] at hf
    cases hf
  obtain ⟨g, hg, hid, hkind⟩ := hexpr.reported_typeMismatch hnone
  exact (h.kind_iff _ _).mpr ⟨g, hitem.inItem_subset hg, hid, hkind⟩

end Items

end Arena.Checked

/-- What the diagnostics on an item show of those in its expression. -/
structure Surfaces (a : Arena) (item expr : Tree) : Prop where
  /-- Where the expression carries a diagnostic, the item has the wrong type. -/
  kind_eq : (a.tree expr.rootId).hasDiagnostic = true →
    (a.diagnosticOf item.rootId).map Diagnostic.kind = some .typeMismatch
  /-- An assignment or a declaration carries a diagnostic nowhere if not
  itself. -/
  of_statement : ¬ IsConditional item →
    ((a.tree item.rootId).hasDiagnostic = true ↔
      (a.diagnosticOf item.rootId).isSome)
  /-- For a conditional it is enough to look at itself, and not at its guard. -/
  of_conditional : IsConditional item →
    ((a.diagnosticOf item.rootId).isSome ∨
      (a.tree expr.rootId).hasDiagnostic = true ↔
      (a.diagnosticOf item.rootId).isSome)

theorem Arena.Checked.surfaces
    {a : Arena} {sheet : Sheet} {ctx : Context} {item expr : Tree}
    (h : a.Checked sheet) (hitem : Stands (itemsOf a.rootTree) ctx item)
    (hexpr : Evaluates expr item) :
    Surfaces a item expr := by
  have hshown : (a.diagnosticOf item.rootId).map Diagnostic.kind =
      some .typeMismatch →
      (a.diagnosticOf item.rootId).isSome := by
    intro hkind
    rw [← Option.isSome_map, hkind]
    rfl
  have hkind : (a.tree expr.rootId).hasDiagnostic = true →
      (a.diagnosticOf item.rootId).map Diagnostic.kind =
        some .typeMismatch := by
    rw [h.hasDiagnostic_iff (expr_subtrees_subset hitem hexpr)]
    rintro ⟨f, hf, hid⟩
    exact h.kind_eq_typeMismatch hitem hexpr (h.mem_inExpr hitem hexpr hf hid)
  refine ⟨hkind, fun hstatement => ?_, fun _ =>
    or_iff_left_of_imp (hshown ∘ hkind)⟩
  rw [h.hasDiagnostic_iff (subtrees_subset hitem)]
  constructor
  · rintro ⟨f, hf, hid⟩
    have hfound := hitem.mem_inItem (nodup_ids_itemsOf h.nodup_ids) hf hid
    obtain hown | hin := hexpr.id_eq_or_mem_inExpr hstatement hfound
    · exact h.isSome_iff.mpr ⟨f, hf, hown⟩
    · exact hshown (h.kind_eq_typeMismatch hitem hexpr hin)
  · intro hsome
    obtain ⟨f, hf, hid⟩ := h.isSome_iff.mp hsome
    refine ⟨f, hf, ?_⟩
    rw [hid]
    cases hexpr <;> simp [Tree.rootId]

/-- After checking what was read, no node of an expression that carries a
diagnostic has another one below it, and every diagnostic in an expression shows
on the item that the expression belongs to, conditionals at top level apart. -/
theorem expression_errors_surface (source : List Char) :
    (∀ label c, .node label c ∈ (parse source).arena.check.rootTree.subtrees →
      c.IsExpression →
      ((parse source).arena.check.diagnosticOf label.id).isSome →
        ∀ part ∈ c.toList,
          ((parse source).arena.check.tree part.rootId).hasDiagnostic = false) ∧
      ∀ ctx item expr,
        Stands (itemsOf (parse source).arena.check.rootTree) ctx item →
        Evaluates expr item →
        Surfaces (parse source).arena.check item expr := by
  have hchecked : (parse source).arena.check.Checked (parse source).sheet :=
    checked_check _
  constructor
  · intro label c hmem hc hsome part hpart
    exact hchecked.hasDiagnostic_part hmem hc hsome hpart
  · intro ctx item expr hitem hexpr
    exact hchecked.surfaces hitem hexpr

/-- A product of sizes and an unknown name, as the operands of a sum: the sum
carries nothing, and the declaration has the wrong type. -/
theorem expression_errors_surface_on_declaration :
    let a := (parse "p\x7bwidth:1px*2px+A;\x7d".toList).arena.check
    a.rootTree.ids.filter (fun id => (a.diagnosticOf id).isSome) = [8, 5, 6] ∧
      (a.tree 3).hasDiagnostic = false ∧
      (a.diagnosticOf 8).map Diagnostic.kind = some .typeMismatch := by
  intro a
  obtain ⟨hparts, hitems⟩ :=
    expression_errors_surface "p\x7bwidth:1px*2px+A;\x7d".toList
  refine ⟨by decide +kernel, ?_, ?_⟩
  · obtain ⟨label, c, hmem, hid, hc, part, hpart, hthree⟩ :
        ∃ label c, .node label c ∈ a.rootTree.subtrees ∧ label.id = 5 ∧
          c.IsExpression ∧ ∃ part ∈ c.toList, part.rootId = 3 := by
      unfold a
      with_unfolding_all
        exact ⟨_, _, List.mem_of_getElem? (i := 6) rfl, rfl, trivial, _,
          List.mem_cons_self, rfl⟩
    have hsome : (a.diagnosticOf 5).isSome := by decide +kernel
    have hnone := hparts label c hmem hc (hid ▸ hsome) part hpart
    rwa [hthree] at hnone
  · obtain ⟨ctx, item, expr, hstands, hexpr, hitem, hid⟩ :
        ∃ ctx item expr, Stands (itemsOf a.rootTree) ctx item ∧
          Evaluates expr item ∧ item.rootId = 8 ∧ expr.rootId = 7 := by
      unfold a
      with_unfolding_all
        exact ⟨_, _, _, @Stands.inRule _ _ _ _ [] [] _
          (@Stands.top _ [] [] _ rfl id), .declaration, rfl, rfl⟩
    have hkind := (hitems ctx item expr hstands hexpr).kind_eq
    rw [hitem, hid] at hkind
    exact hkind (by decide +kernel)

end Stylesheet
