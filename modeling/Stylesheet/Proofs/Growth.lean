import Stylesheet.Evaluation
import Stylesheet.Proofs.Arena

/-!
# What evaluation may do to an arena

Evaluation works on an arena by steps of two sorts.  It replaces the items of a
sheet or a rule, and it gives a declaration a new literal for its expression.
What a run of such steps keeps is shown here for every arena, whatever its nodes
refer to; a declaration that is met again already has its literal, so no
declaration gets a second one.
-/

namespace Stylesheet

namespace Content

/-- The same sheet or rule with other items. -/
inductive Relisted : Content NodeId → Content NodeId → Prop
  | sheet (body body' : List NodeId) : Relisted (.stylesheet body)
      (.stylesheet body')
  | rule (selectors body body' : List NodeId) :
      Relisted (.stylerule selectors body) (.stylerule selectors body')

/-- The same node, apart from the items of a sheet or a rule and the expression
of a declaration. -/
inductive Amended : Content NodeId → Content NodeId → Prop
  | refl (c : Content NodeId) : Amended c c
  | items {c c' : Content NodeId} (h : Relisted c c') : Amended c c'
  | expr (property expr expr' : NodeId) :
      Amended (.declaration property expr) (.declaration property expr')

theorem Relisted.trans
    {c c' c'' : Content NodeId} (h : Relisted c c') (h' : Relisted c' c'') :
    Relisted c c'' := by
  cases h <;> cases h' <;> constructor

theorem Relisted.ne_declaration
    {c c' : Content NodeId} (h : Relisted c c') (property expr : NodeId) :
    c ≠ .declaration property expr ∧ c' ≠ .declaration property expr := by
  cases h <;> simp

theorem Relisted.of_amended
    {c c' c'' : Content NodeId} (h : Relisted c c'') (h' : Amended c c') :
    Relisted c' c'' := by
  cases h' with
  | refl => exact h
  | items h' => cases h <;> cases h' <;> constructor
  | expr => cases h

theorem Amended.trans
    {c c' c'' : Content NodeId} (h : Amended c c') (h' : Amended c' c'') :
    Amended c c'' := by
  cases h with
  | refl => exact h'
  | items h =>
      cases h' with
      | refl => exact .items h
      | items h' => exact .items (h.trans h')
      | expr => cases h
  | expr property expr expr' =>
      cases h' with
      | refl => exact .expr ..
      | items h' => cases h'
      | expr => exact .expr ..

end Content

namespace Arena

/-- What the node with the given number is. -/
def content? (a : Arena) (id : NodeId) : Option (Content NodeId) :=
  (a.node? id).map Node.content

/-- Gives a declaration a new literal for its expression. -/
def replaceExpr (id property : NodeId) (pos : Position) (value : Literal)
    (a : Arena) : Arena :=
  (a.add pos (.literal value)).2.setContent id (.declaration property a.size)

theorem node?_size (a : Arena) : a.node? (a.size : Int) = none := by
  rw [node?_natCast]
  exact Array.getElem?_eq_none (Nat.le_refl _)

theorem ne_size_of_node? {a : Arena} {id : Int} {node : Node}
    (h : a.node? id = some node) :
    id ≠ a.size := by
  rintro rfl
  rw [node?_size] at h
  cases h

theorem content?_of_node?
    {a : Arena} {id : NodeId} {node : Node} (h : a.node? id = some node) :
    a.content? id = some node.content := by
  rw [content?, h, Option.map_some]

section ReplaceExpr

variable {a : Arena} {id : Int} {node : Node} (hnode : a.node? id = some node)
  (property : NodeId) (pos : Position) (value : Literal)

theorem size_replaceExpr (id : NodeId) :
    (a.replaceExpr id property pos value).size = a.size + 1 := by
  rw [replaceExpr, size_setContent, size_add]

include hnode

theorem node?_replaceExpr_self :
    (a.replaceExpr id property pos value).node? id =
      some { node with content := .declaration property a.size } := by
  rw [replaceExpr, node?_setContent, if_pos rfl, node?_add,
    if_neg (ne_size_of_node? hnode), hnode]
  rfl

theorem node?_replaceExpr_size :
    (a.replaceExpr id property pos value).node? (a.size : Int) =
      some ⟨pos, none, .literal value⟩ := by
  rw [replaceExpr, node?_setContent, if_neg (ne_size_of_node? hnode).symm,
    node?_add, if_pos rfl]

omit hnode in
theorem node?_replaceExpr_of_ne {j : Int} (hid : j ≠ id) (hsize : j ≠ a.size) :
    (a.replaceExpr id property pos value).node? j = a.node? j := by
  rw [replaceExpr, node?_setContent, if_neg hid, node?_add, if_neg hsize]

end ReplaceExpr

/-! ## Runs of steps -/

/-- The second arena comes from the first one by steps of evaluation, which gave
the `changed` declarations new literals, in this order. -/
inductive Amending (a : Arena) : List NodeId → Arena → Prop
  | start : Amending a [] a
  | items {changed : List NodeId} {b : Arena} {id : NodeId} {node : Node}
      {c : Content NodeId} (h : Amending a changed b)
      (hnode : b.node? id = some node)
      (hitems : node.content.Relisted c) : Amending a changed
        (b.setContent id c)
  | literal {changed : List NodeId} {b : Arena} {id property expr : NodeId}
      {node shown : Node} (h : Amending a changed b)
      (hnode : b.node? id = some node)
      (hcontent : node.content = .declaration property expr)
        (hexpr : b.node? expr = some shown)
      (hshown : ∀ value, shown.content ≠ .literal value) (value : Literal) :
      Amending a (changed ++ [id]) (b.replaceExpr id property shown.pos value)

namespace Amending

variable {a b c : Arena} {changed changed' : List NodeId}

theorem trans (h : Amending a changed b) (h' : Amending b changed' c) :
    Amending a (changed ++ changed') c := by
  induction h' with
  | start => rwa [List.append_nil]
  | items _ hnode hitems ih => exact ih.items hnode hitems
  | literal _ hnode hcontent hexpr hshown value ih =>
      rw [← List.append_assoc]
      exact ih.literal hnode hcontent hexpr hshown value

theorem root_eq (h : Amending a changed b) : b.root = a.root := by
  induction h with
  | start => rfl
  | items _ _ _ ih => rw [root_setContent, ih]
  | literal _ _ _ _ _ _ ih => rw [replaceExpr, root_setContent, root_add, ih]

/-- A node keeps its place, its diagnostic and what it is. -/
theorem node_kept
    (h : Amending a changed b) {id : Int} {node : Node}
    (hnode : a.node? id = some node) :
    ∃ content, b.node? id = some { node with content := content } ∧
      node.content.Amended content := by
  induction h with
  | start => exact ⟨node.content, hnode, .refl _⟩
  | @items changed b id' node' content' _ hnode' hitems ih =>
      obtain ⟨content, hb, hamended⟩ := ih
      by_cases hid : id = id'
      · subst hid
        obtain rfl : node' = _ := Option.some.inj (hnode'.symm.trans hb)
        refine ⟨content', ?_, hamended.trans (.items hitems)⟩
        rw [node?_setContent, if_pos rfl, hb]
        rfl
      · exact ⟨content, by rw [node?_setContent, if_neg hid, hb], hamended⟩
  | @literal changed b id' property expr node' shown _ hnode' hcontent _ _
      value ih =>
      obtain ⟨content, hb, hamended⟩ := ih
      by_cases hid : id = id'
      · subst hid
        obtain rfl : node' = _ := Option.some.inj (hnode'.symm.trans hb)
        obtain rfl : content = .declaration property expr := hcontent
        exact ⟨_, node?_replaceExpr_self hb property _ value,
          hamended.trans (.expr ..)⟩
      · refine ⟨content, ?_, hamended⟩
        rw [node?_replaceExpr_of_ne property _ value hid
          (ne_size_of_node? hb), hb]

end Amending

/-! ## New nodes -/

/-- The second arena has one node more for each of the `changed` declarations: a
literal without a diagnostic, which this declaration has for its expression
instead of the old one.  All other declarations have their old expressions. -/
structure GrownBy (a : Arena) (changed : List NodeId) (b : Arena) : Prop where
  size_eq : b.size = a.size + changed.length
  nodup : changed.Nodup
  replaced : ∀ i id, changed[i]? = some id →
    ∃ property expr pos value, expr ≠ ((a.size + i : Nat) : Int) ∧
      a.content? id = some (.declaration property expr) ∧
      b.content? id = some (.declaration property (a.size + i : Nat)) ∧
      b.node? (a.size + i : Nat) = some ⟨pos, none, .literal value⟩
  kept : ∀ id, id ∉ changed → ∀ property expr,
    a.content? id = some (.declaration property expr) ↔
      b.content? id = some (.declaration property expr)

namespace GrownBy

variable {a b : Arena} {changed : List NodeId}

theorem setContent_items
    (h : GrownBy a changed b) {id : Int} {node : Node} {c : Content NodeId}
    (hnode : b.node? id = some node) (hitems : node.content.Relisted c) :
    GrownBy a changed (b.setContent id c) := by
  have hcontent := content?_of_node? hnode
  have hself : (b.setContent id c).content? id = some c := by
    rw [content?, node?_setContent, if_pos rfl, hnode]
    rfl
  have hother : ∀ j : Int, j ≠ id → (b.setContent id c).node? j = b.node? j :=
    fun j hj => by
    rw [node?_setContent, if_neg hj]
  refine ⟨(size_setContent b id c).trans h.size_eq, h.nodup, fun i j hij => ?_,
    fun j hj property expr => ?_⟩
  · obtain ⟨property, expr, pos, value, hne, hold, hnew, hliteral⟩ :=
      h.replaced i j hij
    have hj : j ≠ id := by
      rintro rfl
      exact (hitems.ne_declaration ..).1
        (Option.some.inj (hcontent.symm.trans hnew))
    have hi : ((a.size + i : Nat) : Int) ≠ id := by
      rintro rfl
      rw [hnode, Option.some.injEq] at hliteral
      rw [hliteral] at hitems
      cases hitems
    refine ⟨property, expr, pos, value, hne, hold, ?_,
      (hother _ hi).trans hliteral⟩
    rw [content?, hother j hj]
    exact hnew
  · rw [h.kept j hj]
    by_cases hid : j = id
    · subst hid
      rw [hcontent, hself, Option.some.injEq, Option.some.injEq]
      exact iff_of_false (hitems.ne_declaration property expr).1
        (hitems.ne_declaration property expr).2
    · rw [content?, content?, hother j hid]

/-- The expression that is replaced is no literal, so it is not one of the new
nodes. -/
theorem notMem_of_ne_literal
    (h : GrownBy a changed b) {id property expr : NodeId} {shown : Node}
    (hcontent : b.content? id = some (.declaration property expr))
    (hexpr : b.node? expr = some shown)
    (hshown : ∀ value, shown.content ≠ .literal value) :
    id ∉ changed := by
  intro hid
  obtain ⟨i, hi⟩ := List.mem_iff_getElem?.mp hid
  obtain ⟨property', expr', pos, value, -, -, hnew, hliteral⟩ :=
    h.replaced i id hi
  have hsame := Option.some.inj (hcontent.symm.trans hnew)
  obtain ⟨-, rfl⟩ := Content.declaration.inj hsame
  rw [hliteral, Option.some.injEq] at hexpr
  exact hshown value (by rw [← hexpr])

theorem replaceExpr_literal
    (h : GrownBy a changed b) {id property expr : Int} {node shown : Node}
    (hnode : b.node? id = some node)
    (hcontent : node.content = .declaration property expr)
    (hexpr : b.node? expr = some shown)
    (hshown : ∀ value, shown.content ≠ .literal value) (value : Literal) :
    GrownBy a (changed ++ [id])
      (b.replaceExpr id property shown.pos value) := by
  have hid : b.content? id = some (.declaration property expr) := by
    rw [content?_of_node? hnode, hcontent]
  have hfresh : id ∉ changed := h.notMem_of_ne_literal hid hexpr hshown
  have hnew := node?_replaceExpr_self hnode property shown.pos value
  have hliteral := node?_replaceExpr_size hnode property shown.pos value
  refine ⟨?_, ?_, fun i j hij => ?_, fun j hj property' expr' => ?_⟩
  · rw [size_replaceExpr, h.size_eq, List.length_append, List.length_singleton,
      Nat.add_assoc]
  · rw [List.nodup_append]
    refine ⟨h.nodup, List.pairwise_singleton _ id, fun j hj k hk => ?_⟩
    rw [List.mem_singleton.mp hk]
    exact fun heq => hfresh (heq ▸ hj)
  · rcases Nat.lt_or_ge i changed.length with hi | hi
    · -- The literals given before, and the declarations that have them, stay.
      rw [List.getElem?_append_left hi] at hij
      obtain ⟨property', expr', pos, value', hne, hold, hj, hi'⟩ :=
        h.replaced i j hij
      obtain ⟨nodej, hnodej, -⟩ := Option.map_eq_some_iff.mp hj
      have hji : j ≠ id := fun heq => hfresh (heq ▸ List.mem_of_getElem? hij)
      have hai : ((a.size + i : Nat) : Int) ≠ id := by
        rintro rfl
        rw [content?_of_node? hi'] at hid
        cases hid
      refine ⟨property', expr', pos, value', hne, hold, ?_, ?_⟩
      · rw [content?, node?_replaceExpr_of_ne _ _ _ hji
          (ne_size_of_node? hnodej)]
        exact hj
      · rw [node?_replaceExpr_of_ne _ _ _ hai (ne_size_of_node? hi')]
        exact hi'
    · rw [List.getElem?_append_right hi, List.getElem?_singleton] at hij
      split at hij
      next hzero =>
        obtain rfl := Option.some.inj hij
        have hsize : ((a.size + i : Nat) : Int) = b.size := by
          rw [h.size_eq]
          omega
        rw [hsize]
        exact ⟨property, expr, shown.pos, value, ne_size_of_node? hexpr,
          (h.kept id hfresh property expr).mpr hid, content?_of_node? hnew,
          hliteral⟩
      next => cases hij
  · rw [List.mem_append, List.mem_singleton, not_or] at hj
    rw [h.kept j hj.1]
    by_cases hsize : j = b.size
    · subst hsize
      rw [content?, content?, node?_size, hliteral]
      simp
    · rw [content?, content?, node?_replaceExpr_of_ne _ _ _ hj.2 hsize]

end GrownBy

theorem Amending.grownBy {a b : Arena} {changed : List NodeId}
    (h : Amending a changed b) :
    GrownBy a changed b := by
  induction h with
  | start => exact ⟨rfl, List.nodup_nil, by simp, fun _ _ _ _ => Iff.rfl⟩
  | items _ hnode hitems ih => exact ih.setContent_items hnode hitems
  | literal _ hnode hcontent hexpr hshown value ih =>
      exact ih.replaceExpr_literal hnode hcontent hexpr hshown value

end Arena

/-! ## Evaluation as a run of steps -/

namespace Evaluation

/-- A part of the evaluation goes from one arena to another by such steps. -/
def Amends (a b : Arena) : Prop :=
  ∃ changed, a.Amending changed b

theorem Amends.refl (a : Arena) : Amends a a :=
  ⟨[], .start⟩

theorem Amends.trans {a b c : Arena} (h : Amends a b) (h' : Amends b c) :
    Amends a c := by
  obtain ⟨changed, h⟩ := h
  obtain ⟨changed', h'⟩ := h'
  exact ⟨changed ++ changed', h.trans h'⟩

/-- Behind steps of evaluation a sheet or a rule can be given other items. -/
theorem Amends.setContent
    {a b : Arena} {id : Int} {node : Node} {c : Content NodeId} (h : Amends a b)
    (hnode : a.node? id = some node) (hitems : node.content.Relisted c) :
    Amends a (b.setContent id c) := by
  obtain ⟨changed, h⟩ := h
  obtain ⟨content, hb, hamended⟩ := h.node_kept hnode
  exact ⟨changed, h.items hb (hitems.of_amended hamended)⟩

theorem amends_declare
    {st : State} {id property expr : NodeId} {node : Node}
    (hnode : st.arena.node? id = some node)
    (hcontent : node.content = .declaration property expr) :
    Amends st.arena (st.declare id property expr).arena := by
  unfold State.declare
  split
  · exact .refl _
  · split
    next => exact .refl _
    next => exact .refl _
    next shown hne hexpr =>
      split
      next value _ =>
        refine ⟨_, Arena.Amending.start.literal hnode hcontent hexpr
          (fun literal heq => ?_) value⟩
        exact hne shown.pos shown.diagnostic literal (by rw [← heq])
      next => exact .refl _

theorem amends_assign (id target expr : NodeId) (st : State) :
    Amends st.arena (st.assign id target expr).arena := by
  unfold State.assign
  split <;> exact .refl _

theorem amends_item
    {inner : List NodeId → State → List NodeId × State}
    (hinner : ∀ ids st, Amends st.arena (inner ids st).2.arena) (level : Level)
    (id : NodeId) (st : State) :
    Amends st.arena (item inner level id st).2.arena := by
  unfold item
  cases hnode : st.arena.node? id with
  | none => exact .refl _
  | some node =>
      obtain ⟨pos, d, c⟩ := node
      cases c with
      | assignment target expr => exact amends_assign id target expr st
      | declaration property expr => exact amends_declare hnode rfl
      | stylerule selectors body =>
          have hbody : Amends st.arena (st.inFrame (inner body)).2.arena :=
            hinner body { st with env := st.env.push }
          exact hbody.setContent hnode (.rule ..)
      | ifClause guard body otherwise =>
          cases level with
          | top => exact .refl _
          | inner => exact hinner _ { st with env := st.env.push }
      | _ => exact .refl _

theorem amends_items
    {inner : List NodeId → State → List NodeId × State}
    (hinner : ∀ ids st, Amends st.arena (inner ids st).2.arena) (level : Level)
    (ids : List NodeId) (st : State) :
    Amends st.arena (items inner level ids st).2.arena := by
  induction ids generalizing st with
  | nil => exact .refl _
  | cons id ids ih => exact (amends_item hinner level id st).trans (ih _)

theorem amends_bodyWithin (k : Nat) (ids : List NodeId) (st : State) :
    Amends st.arena (bodyWithin k ids st).2.arena := by
  induction k generalizing ids st with
  | zero => exact .refl _
  | succ k ih => exact amends_items ih .inner ids st

end Evaluation

open Evaluation in
/-- Evaluating an arena is a run of such steps. -/
theorem Arena.exists_amending_evaluate (a : Arena) :
    ∃ changed, a.Amending changed a.evaluate := by
  unfold evaluate
  cases hbody : a.rootBody? with
  | none => exact Amends.refl a
  | some body =>
      unfold rootBody? at hbody
      split at hbody
      next pos d body' hnode =>
        exact (amends_items (amends_bodyWithin a.size) .top body
          ⟨a, .empty⟩).setContent hnode
          (.sheet ..)
      next => cases hbody

end Stylesheet
