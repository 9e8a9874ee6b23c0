import Mathlib.Data.List.Perm.Subperm
import Stylesheet.Proofs.Arena
import Stylesheet.Typing

/-!
# Findings

Every finding is about a node of the tree it is found in, and no two are about
the same node.  What is found depends on the numbers of the nodes, which it
names, and not on the places and diagnostics that stand beside them.
-/

namespace Stylesheet.Typing

open Stylesheet.Tree

/-- The findings in an item at top level. -/
def inTopItem (env : Scope Ty) : Tree → List Finding
  | .node label (.ifClause _ _ _) => [⟨label.id, .misplacedConditional⟩]
  | t => inItem env t

theorem atTop_cons (env : Scope Ty) (t : Tree) (ts : List Tree) :
    atTop env (t :: ts) = inTopItem env t ++ atTop (afterItem env t) ts := by
  unfold inTopItem
  split
  · rfl
  · next hne =>
      rw [atTop]
      exact hne

theorem atTop_append (env : Scope Ty) (ts us : List Tree) :
    atTop env (ts ++ us) = atTop env ts
      ++ atTop (ts.foldl afterItem env) us := by
  induction ts generalizing env with
  | nil => rfl
  | cons t ts ih =>
      rw [List.cons_append, atTop_cons, atTop_cons, ih, List.append_assoc,
        List.foldl_cons]

/-- The finding about a node with another number. -/
def Finding.renumbered (number : NodeId → NodeId) (f : Finding) : Finding :=
  ⟨number f.id, f.fault⟩

theorem map_renumbered_id (findings : List Finding) :
    findings.map (Finding.renumbered id) = findings :=
  List.map_id findings

/-! ## Only the numbers matter -/

section Relabel

variable {f : Label → Label}

theorem variableName?_relabel (t : Tree) :
    (t.relabel f).variableName? = t.variableName? := by
  cases t with
  | missing => rw [relabel_missing]
  | node label c => cases c <;> simp [Content.map, variableName?]

theorem propertyName?_relabel (t : Tree) :
    (t.relabel f).propertyName? = t.propertyName? := by
  cases t with
  | missing => rw [relabel_missing]
  | node label c => cases c <;> simp [Content.map, propertyName?]

theorem typeOf_relabel (env : Scope Ty) (t : Tree) :
    typeOf env (t.relabel f) = typeOf env t := by
  induction t using Tree.induction_on with
  | hmissing => rw [relabel_missing]
  | hnode label c ih =>
      rw [relabel_node]
      cases c with
      | operation op lhs rhs =>
          simp only [Content.map, typeOf, ih lhs (by simp [Content.toList]),
            ih rhs (by simp [Content.toList])]
      | _ => simp only [Content.map, typeOf]

theorem isPixelProduct_relabel (env : Scope Ty) (op : Operator)
    (lhs rhs : Tree) :
    isPixelProduct env op (lhs.relabel f) (rhs.relabel f) =
      isPixelProduct env op lhs rhs := by
  rw [isPixelProduct, isPixelProduct, typeOf_relabel, typeOf_relabel]

theorem afterItem_relabel (env : Scope Ty) (t : Tree) :
    afterItem env (t.relabel f) = afterItem env t := by
  cases t with
  | missing => rw [relabel_missing]
  | node label c =>
      rw [relabel_node]
      cases c <;>
        simp only [Content.map, afterItem, variableName?_relabel,
          typeOf_relabel]

variable {number : NodeId → NodeId}

theorem inBody_map_relabel
    {ts : List Tree}
    (h : ∀ t ∈ ts, ∀ env, inItem env (t.relabel f) =
      (inItem env t).map (.renumbered number))
    (env : Scope Ty) :
    inBody env (ts.map (relabel f)) =
      (inBody env ts).map (.renumbered number) := by
  induction ts generalizing env with
  | nil => rfl
  | cons t ts ih =>
      rw [List.forall_mem_cons] at h
      rw [List.map_cons, inBody, inBody, h.1, afterItem_relabel, ih h.2,
        List.map_append]

variable (hf : ∀ label, (f label).id = number label.id)

include hf

theorem findingOn_relabel (label : Label) (fault? : Option Fault) :
    findingOn (f label) fault? =
      (findingOn label fault?).map (.renumbered number) := by
  rw [findingOn, findingOn, hf]
  cases fault? <;> rfl

theorem inExpr_relabel (env : Scope Ty) (t : Tree) :
    inExpr env (t.relabel f) = (inExpr env t).map (.renumbered number) := by
  induction t using Tree.induction_on with
  | hmissing =>
      rw [relabel_missing]
      rfl
  | hnode label c ih =>
      rw [relabel_node]
      cases c with
      | reference name =>
          simp only [Content.map, inExpr, hf]
          split <;> rfl
      | operation op lhs rhs =>
          simp only [Content.map, inExpr, isPixelProduct_relabel, hf,
            List.map_append, ih lhs (by simp [Content.toList]),
            ih rhs (by simp [Content.toList])]
          congr 1
          split <;> rfl
      | _ => rfl

theorem inItem_and_inElse_relabel (t : Tree) (env : Scope Ty) :
    inItem env (t.relabel f) = (inItem env t).map (.renumbered number) ∧
      inElse env (t.relabel f) = (inElse env t).map (.renumbered number) := by
  induction t using Tree.induction_on generalizing env with
  | hmissing => rw [relabel_missing]; exact ⟨rfl, rfl⟩
  | hnode label c ih =>
      rw [relabel_node]
      cases c with
      | declaration property expr =>
          simp only [Content.map, inItem, inElse, inExpr_relabel hf,
            typeOf_relabel, propertyName?_relabel, findingOn_relabel hf,
            List.map_append, List.map_nil, and_self]
      | assignment target expr =>
          simp only [Content.map, inItem, inElse, inExpr_relabel hf,
            typeOf_relabel, variableName?_relabel, findingOn_relabel hf,
            List.map_append, List.map_nil, and_self]
      | stylerule selectors body =>
          have hbody : ∀ env, inBody env (body.map (relabel f)) =
              (inBody env body).map (.renumbered number) :=
            inBody_map_relabel fun t ht env =>
              (ih t (by simp [Content.toList, ht]) env).1
          simp only [Content.map, inItem, inElse, hbody, List.map_nil, and_self]
      | ifClause guard body otherwise =>
          have hbody : ∀ env, inBody env (body.map (relabel f)) =
              (inBody env body).map (.renumbered number) :=
            inBody_map_relabel fun t ht env =>
              (ih t (by simp [Content.toList, ht]) env).1
          have helse := (ih otherwise (by simp [Content.toList]) env).2
          simp only [Content.map, inItem, inElse, inExpr_relabel hf,
            typeOf_relabel, hbody, helse, findingOn_relabel hf, List.map_append,
            List.map_nil, and_self]
      | elseClause body =>
          have hbody : ∀ env, inBody env (body.map (relabel f)) =
              (inBody env body).map (.renumbered number) :=
            inBody_map_relabel fun t ht env =>
              (ih t (by simp [Content.toList, ht]) env).1
          simp only [Content.map, inItem, inElse, hbody, List.map_nil, and_self]
      | _ => exact ⟨rfl, rfl⟩

/-- What is found in an item follows the numbers of its nodes, and nothing else
of their labels. -/
theorem inTopItem_relabel (env : Scope Ty) (t : Tree) :
    inTopItem env (t.relabel f) =
      (inTopItem env t).map (.renumbered number) := by
  have hitem := (inItem_and_inElse_relabel hf t env).1
  cases t with
  | missing =>
      rw [relabel_missing]
      rfl
  | node label c =>
      rw [relabel_node] at hitem ⊢
      cases c <;>
        simp only [Content.map, inTopItem,
          hf] at hitem ⊢ <;> first | exact hitem | rfl

theorem atTop_map_relabel (env : Scope Ty) (ts : List Tree) :
    atTop env (ts.map (relabel f)) =
      (atTop env ts).map (.renumbered number) := by
  induction ts generalizing env with
  | nil => rfl
  | cons t ts ih =>
      rw [List.map_cons, atTop_cons, atTop_cons, inTopItem_relabel hf,
        afterItem_relabel, ih, List.map_append]

end Relabel

/-- What is found in a sheet depends on no more of the labels than the
numbers. -/
theorem inSheet_relabel
    {f : Label → Label} (hf : ∀ label, (f label).id = label.id) (t : Tree) :
    inSheet (t.relabel f) = inSheet t := by
  cases t with
  | missing => rw [relabel_missing]
  | node label c =>
      rw [relabel_node]
      cases c with
      | stylesheet body =>
          have hid : ∀ label, (f label).id = id label.id := hf
          simp only [Content.map, inSheet]
          rw [atTop_map_relabel hid, map_renumbered_id]
      | _ => rfl

theorem propertyName?_noted (notes : NodeId → Option Diagnostic) (t : Tree) :
    (t.noted notes).propertyName? = t.propertyName? := by
  rw [noted, propertyName?_relabel]

theorem inSheet_noted (notes : NodeId → Option Diagnostic) (t : Tree) :
    inSheet (t.noted notes) = inSheet t := by
  rw [noted]
  apply inSheet_relabel
  exact fun _ => rfl

/-! ## Findings stand on nodes -/

theorem id_eq_of_mem_findingOn
    {label : Label} {fault? : Option Fault} {f : Finding}
    (hf : f ∈ findingOn label fault?) :
    f.id = label.id := by
  cases fault? with
  | none => cases hf
  | some fault =>
      rw [findingOn, Option.map_some, Option.toList_some,
        List.mem_singleton] at hf
      rw [hf]

theorem findingOn_eq_nil_iff {label : Label} {fault? : Option Fault} :
    findingOn label fault? = [] ↔ fault? = none := by
  cases fault? <;> simp [findingOn]

theorem ids_findingOn_subperm (label : Label) (fault? : Option Fault) :
    ((findingOn label fault?).map Finding.id).Subperm [label.id] := by
  cases fault? with
  | none => exact List.nil_subperm
  | some fault => exact List.Subperm.refl _

theorem subperm_ids_node
    {label : Label} {c : Content Tree} {below own : List NodeId}
    (hbelow : below.Subperm (c.toList.flatMap ids))
    (hown : own.Subperm [label.id]) :
    (below ++ own).Subperm (node label c).ids := by
  rw [ids_node]
  exact (hbelow.append hown).trans (List.perm_append_singleton _ _).subperm

/-- No two findings in an expression are about one node. -/
theorem ids_inExpr_subperm (env : Scope Ty) (t : Tree) :
    ((inExpr env t).map Finding.id).Subperm t.ids := by
  induction t using Tree.induction_on with
  | hmissing => exact List.nil_subperm
  | hnode label c ih =>
      cases c with
      | reference name =>
          rw [inExpr]
          split
          · exact @subperm_ids_node label _ [] _ List.nil_subperm
              (List.Subperm.refl _)
          · exact List.nil_subperm
      | operation op lhs rhs =>
          have hl := ih lhs (by simp [Content.toList])
          have hr := ih rhs (by simp [Content.toList])
          rw [inExpr, List.map_append, List.map_append]
          apply subperm_ids_node
          · simpa [Content.toList] using hl.append hr
          · split
            · exact List.Subperm.refl _
            · exact List.nil_subperm
      | _ => exact List.nil_subperm

theorem ids_inBody_subperm_of
    {ts : List Tree}
    (h : ∀ t ∈ ts, ∀ env, ((inItem env t).map Finding.id).Subperm t.ids)
    (env : Scope Ty) :
    ((inBody env ts).map Finding.id).Subperm (ts.flatMap ids) := by
  induction ts generalizing env with
  | nil => exact List.nil_subperm
  | cons t ts ih =>
      rw [List.forall_mem_cons] at h
      rw [inBody, List.map_append, List.flatMap_cons]
      exact (h.1 env).append (ih h.2 _)

theorem ids_inItem_and_inElse_subperm (t : Tree) (env : Scope Ty) :
    ((inItem env t).map Finding.id).Subperm t.ids ∧
      ((inElse env t).map Finding.id).Subperm t.ids := by
  induction t using Tree.induction_on generalizing env with
  | hmissing => exact ⟨List.nil_subperm, List.nil_subperm⟩
  | hnode label c ih =>
      have hbody : ∀ ts, ts ⊆ c.toList →
          ((inBody env.push ts).map Finding.id).Subperm (ts.flatMap ids) :=
        fun ts hsub =>
          ids_inBody_subperm_of (fun t ht env => (ih t (hsub ht) env).1)
            env.push
      cases c with
      | declaration property expr =>
          refine ⟨?_, List.nil_subperm⟩
          rw [inItem, List.map_append]
          apply subperm_ids_node _ (ids_findingOn_subperm label _)
          simpa [Content.toList] using
            (ids_inExpr_subperm env expr).trans
            (List.sublist_append_right _ _).subperm
      | assignment target expr =>
          refine ⟨?_, List.nil_subperm⟩
          rw [inItem, List.map_append]
          apply subperm_ids_node _ (ids_findingOn_subperm label _)
          simpa [Content.toList] using
            (ids_inExpr_subperm env expr).trans
            (List.sublist_append_right _ _).subperm
      | stylerule selectors body =>
          refine ⟨?_, List.nil_subperm⟩
          have hsub := (hbody body (by simp [Content.toList])).trans
            (List.sublist_append_right (selectors.flatMap ids) _).subperm
          simpa [inItem, Content.toList] using hsub.cons_right label.id
      | ifClause guard body otherwise =>
          refine ⟨?_, List.nil_subperm⟩
          have hbelow := (ids_inExpr_subperm env guard).append
            ((hbody body (by simp [Content.toList])).append
              (ih otherwise (by simp [Content.toList]) env).2)
          simp only [inItem, List.map_append, List.append_assoc]
          -- What is found on the conditional stands behind its guard.
          refine (List.perm_append_comm.append_left _).subperm_right.mp ?_
          rw [← List.append_assoc]
          apply subperm_ids_node _ (ids_findingOn_subperm label _)
          simpa [Content.toList] using hbelow
      | elseClause body =>
          refine ⟨List.nil_subperm, ?_⟩
          have hsub :=
            (hbody body (by simp [Content.toList])).cons_right label.id
          simpa [inElse, Content.toList] using hsub
      | _ => exact ⟨List.nil_subperm, List.nil_subperm⟩

theorem ids_inBody_subperm (env : Scope Ty) (ts : List Tree) :
    ((inBody env ts).map Finding.id).Subperm (ts.flatMap ids) :=
  ids_inBody_subperm_of
    (fun t _ env => (ids_inItem_and_inElse_subperm t env).1) env

theorem ids_inTopItem_subperm (env : Scope Ty) (t : Tree) :
    ((inTopItem env t).map Finding.id).Subperm t.ids := by
  unfold inTopItem
  split
  · exact @subperm_ids_node _ _ [] _ List.nil_subperm (List.Subperm.refl _)
  · exact (ids_inItem_and_inElse_subperm _ env).1

/-- No two findings in the items at top level are about one node. -/
theorem ids_atTop_subperm (env : Scope Ty) (ts : List Tree) :
    ((atTop env ts).map Finding.id).Subperm (ts.flatMap ids) := by
  induction ts generalizing env with
  | nil => exact List.nil_subperm
  | cons t ts ih =>
      rw [atTop_cons, List.map_append, List.flatMap_cons]
      exact (ids_inTopItem_subperm env t).append (ih _)

section Mem

variable {env : Scope Ty} {t : Tree} {ts : List Tree} {f : Finding}

theorem mem_ids_of_mem_inExpr (hf : f ∈ inExpr env t) : f.id ∈ t.ids :=
  (ids_inExpr_subperm env t).subset (List.mem_map_of_mem hf)

theorem mem_ids_of_mem_inItem (hf : f ∈ inItem env t) : f.id ∈ t.ids :=
  (ids_inItem_and_inElse_subperm t env).1.subset (List.mem_map_of_mem hf)

theorem exists_mem_ids_of_mem_inBody (hf : f ∈ inBody env ts) :
    ∃ t ∈ ts, f.id ∈ t.ids :=
  List.mem_flatMap.mp
    ((ids_inBody_subperm env ts).subset (List.mem_map_of_mem hf))

theorem mem_ids_of_mem_inTopItem (hf : f ∈ inTopItem env t) : f.id ∈ t.ids :=
  (ids_inTopItem_subperm env t).subset (List.mem_map_of_mem hf)

theorem exists_mem_ids_of_mem_atTop (hf : f ∈ atTop env ts) :
    ∃ t ∈ ts, f.id ∈ t.ids :=
  List.mem_flatMap.mp
    ((ids_atTop_subperm env ts).subset (List.mem_map_of_mem hf))

end Mem

end Stylesheet.Typing
