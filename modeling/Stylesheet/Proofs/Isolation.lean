import Stylesheet.Proofs.Forms
import Stylesheet.Proofs.Parents
import Stylesheet.Proofs.Soundness

/-!
# Rules on their own

What becomes of a rule depends on the rule itself and on the assignments at top
level in front of it, and on nothing else of the sheet that it stands in.  In
two sheets that agree in these it keeps the same declarations with the same
expressions, and the same is reported on it.
-/

namespace Stylesheet

open Typing

/-! ## Trees without numbers and places -/

/-- What a label says about its node, wherever that stands. -/
def Label.unnumbered (label : Label) : Label :=
  ⟨0, Token.nowhere.pos, label.diagnostic.map (Diagnostic.moved unplaced)⟩

namespace Tree

/-- A tree without the numbers and places of its nodes, but with what is
reported on them. -/
def unnumbered (t : Tree) : Tree :=
  t.relabel Label.unnumbered

theorem unnumbered_node (label : Label) (c : Content Tree) :
    (node label c).unnumbered = node label.unnumbered (c.map unnumbered) :=
  relabel_node _ label c

def isRule : Tree → Bool
  | node _ (.stylerule _ _) => true
  | _ => false

theorem relabel_congr
    {f g : Label → Label} {t : Tree}
    (h : ∀ label : Label, label.id ∈ t.ids → f label = g label) :
    t.relabel f = t.relabel g := by
  induction t using induction_on with
  | hmissing => rw [relabel_missing, relabel_missing]
  | hnode label c ih =>
      rw [ids_node] at h
      rw [relabel_node, relabel_node, h label List.mem_cons_self]
      refine congrArg _
        (Content.map_congr fun t ht => ih t ht fun label' hid => h label' ?_)
      exact List.mem_cons_of_mem _ (List.mem_flatMap.mpr ⟨t, ht, hid⟩)

theorem hasDiagnostic_unnumbered (t : Tree) :
    t.unnumbered.hasDiagnostic = t.hasDiagnostic := by
  rw [hasDiagnostic, hasDiagnostic, unnumbered, subtrees_relabel, List.any_map]
  refine List.any_congr rfl fun s => ?_
  cases s with
  | missing => simp
  | node label c => simp [diagnostic?, label?, Label.unnumbered]

end Tree

/-! ## Parts with other numbers -/

/-- What is noted on the `k` nodes from `n` on is noted in another sheet on the
nodes that lie `d` behind them. -/
def SameNotes
    (notes notes' : NodeId → Option Diagnostic) (d : Int) (n k : Nat) : Prop :=
  ∀ id ∈ idRange n k,
    (notes' (id + d)).map (Diagnostic.moved unplaced) =
      (notes id).map (Diagnostic.moved unplaced)

section Shifted

variable {notes notes' : NodeId → Option Diagnostic} {g : Position → Position}
  {n n' k : Nat} {d : Int}

theorem SameNotes.part
    (h : SameNotes notes notes' d n k) {m j : Nat} (hfirst : n ≤ m)
    (hlast : m + j ≤ n + k) :
    SameNotes notes notes' d m j :=
  fun id hid => h id (idRange_subset hfirst hlast hid)

/-- What is noted on one of the nodes. -/
theorem SameNotes.at
    (h : SameNotes notes notes' d n k) {m m' : Nat} (hm : (m' : Int) = m + d)
    (hle : n ≤ m) (hlt : m < n + k) :
    (notes' m').map (Diagnostic.moved unplaced) =
      (notes m).map (Diagnostic.moved unplaced) := by
  rw [hm]
  exact h m (mem_idRange.mpr (by omega))

theorem unnumbered_noted_shifted
    (h : SameNotes notes notes' d n k) {t : Tree}
    (hperm : t.ids.Perm (idRange n k)) :
    ((t.relabel (Label.shifted g d)).noted notes').unnumbered =
      (t.noted notes).unnumbered := by
  simp only [Tree.noted, Tree.unnumbered, Tree.relabel_relabel]
  refine Tree.relabel_congr fun label hid => ?_
  exact congrArg (Label.mk 0 Token.nowhere.pos)
    (h label.id (hperm.mem_iff.mp hid))

theorem Selection.value?_shifted
    (h : SameNotes notes notes' d n k) {t : Tree}
    (hperm : t.ids.Perm (idRange n k)) (env : Env) (e : Expr) :
    value? notes' env (t.relabel (Label.shifted g d)) (e.moved g) =
      value? notes env t e := by
  have hsame : ((t.relabel (Label.shifted g d)).noted notes').hasDiagnostic =
      (t.noted notes).hasDiagnostic := by
    rw [← Tree.hasDiagnostic_unnumbered, unnumbered_noted_shifted h hperm,
      Tree.hasDiagnostic_unnumbered]
  rw [value?, value?, Meaning.value?_moved, hsame]

/-- What is seen of a selected declaration, apart from numbers and places. -/
def Selected.shown (notes : NodeId → Option Diagnostic) (s : Selected) : Tree :=
  (s.evaluated notes 0).unnumbered

theorem Selected.unnumbered_evaluated (s : Selected) (fresh : Nat) :
    (s.evaluated notes fresh).unnumbered = s.shown notes := by
  have hexpr : (s.exprTree notes fresh).unnumbered =
      (s.exprTree notes 0).unnumbered := by
    unfold exprTree
    cases s.written? with
    | none => rfl
    | some value => simp [Tree.unnumbered, Tree.plain, Label.unnumbered]
  simp only [Tree.unnumbered] at hexpr
  simp only [shown, evaluated, Tree.unnumbered, Tree.relabel_node,
    Content.map, hexpr]

theorem SelectedRule.unnumbered_evaluated (r : SelectedRule) (fresh : Nat) :
    (r.evaluated notes fresh).unnumbered =
      .node ⟨0, Token.nowhere.pos, (notes r.id).map (Diagnostic.moved unplaced)⟩
        (.stylerule
          ((selectorTrees r.first r.selectors).map fun t =>
            (t.noted notes).unnumbered)
          ((r.declarations notes).map (Selected.shown notes))) := by
  have hshown : ((Selected.rewriting notes).afterAll fresh
      (r.declarations notes)).map
      Tree.unnumbered = (r.declarations notes).map (Selected.shown notes) :=
    (Selected.rewriting notes).map_afterAll
      (fun s _ fresh => s.unnumbered_evaluated fresh) fresh
  rw [evaluated, Tree.unnumbered_node, Content.map, hshown, List.map_map]
  rfl

variable (hd : (n' : Int) = n + d)

include hd

/-- A selected declaration at other places and with other numbers looks the
same. -/
theorem Selected.shown_moved
    (pos : Position) (property : String) (e : Expr) (value : Option Literal)
    (h : SameNotes notes notes' d n (1 + e.count + 1)) :
    shown notes' ⟨n', g pos, property, e.moved g, value⟩ =
      shown notes ⟨n, pos, property, e, value⟩ := by
  have hwritten : written? ⟨n', g pos, property, e.moved g, value⟩ =
      written? ⟨n, pos, property, e, value⟩ := by
    cases e <;> rfl
  cases hw : written? ⟨n, pos, property, e, value⟩ with
  | none =>
      rw [shown, shown, evaluated_of_written?_none hw,
        evaluated_of_written?_none (hwritten.trans hw), tree, tree,
        declarationTree_moved hd]
      exact unnumbered_noted_shifted h
        (ids_declarationTree_perm n pos property e)
  | some literal =>
      have hname := h.at hd (Nat.le_refl n) (by omega)
      have htop : ((n' + 1 + e.count : Nat) : Int) =
          (n + 1 + e.count : Nat) + d := by omega
      have hown := h.at htop (by omega) (by omega)
      simp only [shown, evaluated, exprTree, hw, hwritten.trans hw, Selected.id,
        Tree.unnumbered, Tree.plain, Tree.noted_node, Tree.relabel_node,
        Label.unnumbered, Content.map, Expr.count_moved, hname, hown,
        Option.map_none]

theorem Selection.guardHolds_shifted
    {guard : Expr} {top top' : Nat} (h : SameNotes notes notes' d n k)
    (htop : (top' : Int) = top + d) (hle : n + guard.count ≤ top)
    (hlt : top < n + k) (env : Env) :
    guardHolds notes' env n' top' (guard.moved g) =
      guardHolds notes env n top guard := by
  have hown : (notes' top').isNone = (notes top).isNone := by
    have hmap := congrArg Option.isNone (h.at htop (by omega) hlt)
    rwa [Option.isNone_map, Option.isNone_map] at hmap
  have hguard : SameNotes notes notes' d n guard.count :=
    h.part (Nat.le_refl _) (by omega)
  rw [guardHolds, guardHolds, hown, guard.treeAt_moved hd,
    value?_shifted hguard (guard.ids_treeAt_perm n)]

theorem Selection.shown_cons
    {item : Item} {items : List Item} {env : Env}
    (hitem : (ofItem notes' env n' (item.moved g)).map (Selected.shown notes') =
      (ofItem notes env n item).map (Selected.shown notes))
    (hafter : afterItem notes' env n' (item.moved g) =
      afterItem notes env n item)
    (hitems : ∀ {m m' : Nat}, (m' : Int) = m + d → m = n + item.count → ∀ env,
      (ofItems notes' env m' (movedItems g items)).map (Selected.shown notes') =
        (ofItems notes env m items).map (Selected.shown notes)) :
    (ofItems notes' env n' (movedItems g (item :: items))).map
      (Selected.shown notes') =
      (ofItems notes env n (item :: items)).map (Selected.shown notes) := by
  have hrest : ((n' + item.count : Nat) : Int) =
      (n + item.count : Nat) + d := by omega
  rw [movedItems, ofItems, ofItems, List.map_append, List.map_append,
    Item.count_moved, hitem, hafter, hitems hrest rfl]

/-- What is selected from items looks the same at other places and with other
numbers. -/
theorem Selection.shown_ofItems
    (items : List Item) (h : SameNotes notes notes' d n (countItems items))
    (env : Env) :
    (ofItems notes' env n' (movedItems g items)).map (Selected.shown notes') =
      (ofItems notes env n items).map (Selected.shown notes) := by
  induction items using Item.list_induction generalizing n n' env with
  | nil => rfl
  | declaration pos property expr items ih =>
      rw [countItems, Item.count] at h
      have hfirst : SameNotes notes notes' d n (1 + expr.count + 1) :=
        h.part (Nat.le_refl _) (by omega)
      refine shown_cons hd ?_ rfl fun hd' hm => ih hd' (h.part ?_ ?_)
      · rw [Item.moved, ofItem, ofItem, List.map_singleton, List.map_singleton,
          declarationTree_moved hd,
          value?_shifted hfirst (ids_declarationTree_perm n pos property expr),
          Selected.shown_moved hd pos property expr _ hfirst]
      · rw [hm]
        omega
      · rw [hm, Item.count]
        omega
  | assignment pos name expr items ih =>
      rw [countItems, Item.count] at h
      have hfirst : SameNotes notes notes' d n (1 + expr.count + 1) :=
        h.part (Nat.le_refl _) (by omega)
      refine shown_cons hd rfl ?_ fun hd' hm => ih hd' (h.part ?_ ?_)
      · rw [Item.moved, afterItem, afterItem, assignmentTree_moved hd,
          value?_shifted hfirst (ids_assignmentTree_perm n pos name expr)]
      · rw [hm]
        omega
      · rw [hm, Item.count]
        omega
  | ifThen pos guard body items ihbody ih =>
      rw [countItems, Item.count] at h
      have hbody : ((n' + guard.count : Nat) : Int) =
          (n + guard.count : Nat) + d := by omega
      have htop : ((n' + guard.count + countItems body : Nat) : Int) =
          (n + guard.count + countItems body : Nat) + d := by omega
      refine shown_cons hd ?_ rfl fun hd' hm => ih hd' (h.part ?_ ?_)
      · rw [Item.moved, ofItem, ofItem, Expr.count_moved, countItems_movedItems,
          guardHolds_shifted hd h htop (by omega) (by omega)]
        split
        · exact ihbody hbody (h.part (by omega) (by omega)) env
        · rfl
      · rw [hm]
        omega
      · rw [hm, Item.count]
        omega
  | ifElse pos guard body elsePos otherwise items ihbody ihelse ih =>
      rw [countItems, Item.count] at h
      have hbody : ((n' + guard.count : Nat) : Int) =
          (n + guard.count : Nat) + d := by omega
      have helse : ((n' + guard.count + countItems body : Nat) : Int) =
          (n + guard.count + countItems body : Nat) + d := by omega
      have htop :
          ((n' + guard.count + countItems body + countItems otherwise + 1 :
            Nat) : Int) =
          (n + guard.count + countItems body + countItems otherwise + 1 : Nat) +
            d := by omega
      refine shown_cons hd ?_ rfl fun hd' hm => ih hd' (h.part ?_ ?_)
      · rw [Item.moved, ofItem, ofItem, Expr.count_moved, countItems_movedItems,
          countItems_movedItems,
          guardHolds_shifted hd h htop (by omega) (by omega)]
        split
        · exact ihbody hbody (h.part (by omega) (by omega)) env
        · exact ihelse helse (h.part (by omega) (by omega)) env
      · rw [hm]
        omega
      · rw [hm, Item.count]
        omega

/-- A rule that evaluation keeps, at other places and with other numbers, looks
the same. -/
theorem SelectedRule.unnumbered_evaluated_moved
    {pos : Position} {selectors : List Selector} {body : List Item} {env : Env}
    (h : SameNotes notes notes' d n (Statement.rule pos selectors body).count)
    (fresh fresh' : Nat) :
    (evaluated notes' fresh'
      ⟨n', g pos, selectors.map (Selector.moved g), movedItems g body,
        env⟩).unnumbered =
    (evaluated notes fresh ⟨n, pos, selectors, body, env⟩).unnumbered := by
  rw [Statement.count] at h
  have hbody : ((n' + selectors.length : Nat) : Int) =
      (n + selectors.length : Nat) + d := by
    omega
  have htop : ((n' + selectors.length + countItems body : Nat) : Int) =
      (n + selectors.length + countItems body : Nat) + d := by omega
  have hown := h.at htop (by omega) (by omega)
  have hselectors : (selectorTrees n' (selectors.map (Selector.moved g))).map
      (fun t => (t.noted notes').unnumbered) =
        (selectorTrees n selectors).map fun t =>
          (t.noted notes).unnumbered := by
    rw [selectorTrees_moved hd, List.map_map]
    refine List.map_congr_left fun t ht => ?_
    obtain ⟨j, hj, pos, text, rfl⟩ := exists_of_mem_selectorTrees ht
    exact unnumbered_noted_shifted
      (h.part (m := n + j) (j := 1) (by omega) (by omega)) (List.Perm.refl _)
  have hdeclarations := Selection.shown_ofItems hbody (g := g) body
    (h.part (by omega) (by omega)) env
  simp only [unnumbered_evaluated, SelectedRule.id, declarations,
    List.length_map, countItems_movedItems, hown, hselectors, hdeclarations]

/-- Of two rules that are the same but for their places, evaluated with the same
variables, the same is seen if the same is noted on them. -/
theorem SelectedRule.unnumbered_evaluated_eq
    {pos pos' : Position} {selectors selectors' : List Selector}
    {body body' : List Item}
    (hsame : (Statement.rule pos selectors body).moved unplaced =
      (Statement.rule pos' selectors' body').moved unplaced)
    (h : SameNotes notes notes' d n (Statement.rule pos selectors body).count)
    (env : Env) (fresh fresh' : Nat) :
    (evaluated notes fresh ⟨n, pos, selectors, body, env⟩).unnumbered =
      (evaluated notes' fresh'
        ⟨n', pos', selectors', body', env⟩).unnumbered := by
  have hzero : (n' : Int) = n' + 0 := (Int.add_zero _).symm
  have hrefl : SameNotes notes' notes' 0 n'
      (Statement.rule pos' selectors' body').count :=
    fun id _ => by rw [Int.add_zero]
  obtain ⟨-, hselectors, hbody⟩ := Statement.rule.inj hsame
  rw [← unnumbered_evaluated_moved (g := unplaced) hd h fresh 0,
    ← unnumbered_evaluated_moved (g := unplaced) hzero hrefl fresh' 0,
    hselectors, hbody]
  rfl

end Shifted

/-! ## The variables in front of a rule -/

theorem typeOf_treeAt_moved
    (tenv : Scope Ty) (g : Position → Position) (e : Expr) (n n' : Nat) :
    typeOf tenv ((e.moved g).treeAt n') = typeOf tenv (e.treeAt n) := by
  have hnumber : (n' : Int) = n + (n' - n) := by omega
  rw [e.treeAt_moved hnumber, typeOf_relabel]

theorem Statement.shape_treeAt (statement : Statement) (n n' : Nat) :
    (statement.treeAt n).shape = (statement.treeAt n').shape := by
  have hshape : ∀ m : Nat,
      (statement.treeAt m).shape =
        ((statement.moved unplaced).treeAt 0).shape := by
    intro m
    have hnumber : ((0 : Nat) : Int) = m + -m := (Int.add_right_neg _).symm
    rw [Statement.treeAt_moved hnumber, Tree.shape_relabel]
  rw [hshape n, hshape n']

def Statement.isAssignment : Statement → Bool
  | .assignment _ _ _ => true
  | _ => false

/-- The assignments among the trees of some statements are the trees of the
assignments. -/
theorem map_shape_filter (sheet : Sheet) (n n' : Nat) :
    ((statementTrees n sheet).filter Canonical.isAssignment).map Tree.shape =
      (statementTrees n' (sheet.filter Statement.isAssignment)).map
        Tree.shape := by
  induction sheet generalizing n n' with
  | nil => rfl
  | cons statement sheet ih =>
      have hkind : Canonical.isAssignment (statement.treeAt n) =
          statement.isAssignment := by
        cases statement <;> rfl
      rw [statementTrees, List.filter_cons, List.filter_cons, hkind]
      split
      · rw [statementTrees, List.map_cons, List.map_cons, ih,
          statement.shape_treeAt n n']
      · exact ih _ _

/-- The types and the values of the variables. -/
structure Variables where
  types : Scope Ty
  values : Env

namespace Variables

/-- The variables behind an assignment.  An expression without a type is not
evaluated, and the empty name gets no type. -/
def assign (v : Variables) (name : String) (e : Expr) : Variables :=
  let ty := typeOf v.types (e.treeAt 0)
  ⟨if name = "" then v.types else v.types.define name ty,
    v.values.bind name (if ty = none then none else e.value? v.values)⟩

/-- The variables behind statements at top level. -/
def after (v : Variables) : Sheet → Variables
  | [] => v
  | .assignment _ name e :: sheet => (v.assign name e).after sheet
  | _ :: sheet => v.after sheet

theorem assign_moved (v : Variables) (g : Position → Position) (name : String)
    (e : Expr) :
    v.assign name (e.moved g) = v.assign name e := by
  simp only [assign, typeOf_treeAt_moved v.types g e 0 0, Meaning.value?_moved]

theorem assign_eq (v : Variables) (name : String) (e : Expr) (n : Nat) :
    v.assign name e =
      ⟨if name = "" then v.types
        else v.types.define name (typeOf v.types (e.treeAt n)),
        v.values.bind name
          (if typeOf v.types (e.treeAt n) = none then none
            else e.value? v.values)⟩ := by
  have htype : typeOf v.types (e.treeAt 0) = typeOf v.types (e.treeAt n) :=
    (typeOf_treeAt_moved v.types unplaced e 0 0).symm.trans
      (typeOf_treeAt_moved v.types unplaced e n 0)
  simp only [assign, htype]

theorem after_moved (v : Variables) (g : Position → Position) (sheet : Sheet) :
    v.after (sheet.map (Statement.moved g)) = v.after sheet := by
  induction sheet generalizing v with
  | nil => rfl
  | cons statement sheet ih =>
      cases statement with
      | assignment pos name e =>
          rw [List.map_cons, Statement.moved, after, after, assign_moved, ih]
      | _ => exact ih v

theorem after_filter (v : Variables) (sheet : Sheet) :
    v.after (sheet.filter Statement.isAssignment) = v.after sheet := by
  induction sheet generalizing v with
  | nil => rfl
  | cons statement sheet ih =>
      cases statement with
      | assignment pos name e => exact ih _
      | _ => exact ih v

theorem types_after (front : Sheet) (tenv : Scope Ty) (env : Env) (n : Nat) :
    (statementTrees n front).foldl afterItem tenv =
      (after ⟨tenv, env⟩ front).types := by
  induction front generalizing tenv env n with
  | nil => rfl
  | cons statement front ih =>
      rw [statementTrees, List.foldl_cons]
      cases statement with
      | assignment pos name e =>
          rw [after, assign_eq ⟨tenv, env⟩ name e (n + 1), Statement.treeAt,
            afterItem_assignmentTree]
          exact ih _ _ _
      | rule pos selectors body => exact ih _ _ _
      | ifThen pos guard body =>
          rw [Statement.treeAt, Item.treeAt]
          exact ih _ _ _
      | ifElse pos guard body elsePos otherwise =>
          rw [Statement.treeAt, Item.treeAt]
          exact ih _ _ _

/-- A rule is evaluated with the variables behind the statements in front of
it. -/
theorem mem_ofStatements
    {notes : NodeId → Option Diagnostic} {pos : Position}
    {selectors : List Selector} {body : List Item} {back : Sheet}
    (front : Sheet) {tenv : Scope Ty} {env : Env} {n : Nat}
    (hmarks : Marks notes n
      (countStatements (front ++ .rule pos selectors body :: back))
      (atTop tenv (statementTrees n
        (front ++ .rule pos selectors body :: back)))) :
    ⟨n + countStatements front, pos, selectors, body,
      (after ⟨tenv, env⟩ front).values⟩ ∈
      Selection.ofStatements notes env n
        (front ++ .rule pos selectors body :: back) := by
  induction front generalizing tenv env n with
  | nil => exact List.mem_cons_self
  | cons statement front ih =>
      rw [List.cons_append] at hmarks ⊢
      have hhead := hmarks.head_statement
      have htail := hmarks.tail_statement
      rw [countStatements, ← Nat.add_assoc]
      cases statement with
      | assignment pos' name e =>
          rw [Statement.treeAt] at hhead htail
          rw [afterItem_assignmentTree] at htail
          rw [after, assign_eq ⟨tenv, env⟩ name e (n + 1),
            Selection.ofStatements, Marks.value?_assignment hhead]
          exact ih htail
      | rule pos' selectors' body' => exact List.mem_cons_of_mem _ (ih htail)
      | ifThen pos' guard body' =>
          rw [Statement.treeAt, Item.treeAt] at htail
          exact ih htail
      | ifElse pos' guard body' elsePos otherwise =>
          rw [Statement.treeAt, Item.treeAt] at htail
          exact ih htail

theorem after_eq_of_shape
    {front front' : Sheet} {n n' : Nat}
    (h : ((statementTrees n front).filter Canonical.isAssignment).map
      Tree.shape =
      ((statementTrees n' front').filter Canonical.isAssignment).map Tree.shape)
    (v : Variables) : v.after front = v.after front' := by
  rw [map_shape_filter front n 0, map_shape_filter front' n' 0] at h
  rw [← v.after_filter, ← v.after_filter front', ← v.after_moved unplaced,
    ← v.after_moved unplaced (front'.filter _),
    Statement.map_moved_eq_of_shape h]

end Variables

/-! ## What is noted on a rule -/

section Notes

variable {front back : Sheet} {statement : Statement}

theorem treeAt_mem_statementTrees (n : Nat) :
    statement.treeAt (n + countStatements front) ∈
      statementTrees n (front ++ statement :: back) := by
  rw [statementTrees_append, statementTrees]
  exact List.mem_append_right _ List.mem_cons_self

theorem mem_ids_sheetTree
    {id : NodeId} (hid : id ∈
      idRange (1 + countStatements front) statement.count) :
    id ∈ (sheetTree (front ++ statement :: back)).ids := by
  rw [sheetTree, Tree.plain, Tree.ids_node]
  refine List.mem_cons_of_mem _
    (List.mem_flatMap.mpr ⟨_, treeAt_mem_statementTrees 1, ?_⟩)
  exact (statement.ids_treeAt_perm _).mem_iff.mpr hid

theorem diagnosticOf_check_unplaced
    {sheet : Sheet} {id : NodeId} (hid : id ∈ (sheetTree sheet).ids) :
    ((Arena.ofSheet sheet).check.diagnosticOf id).map
      (Diagnostic.moved unplaced) =
      ((inSheet (sheetTree sheet)).find? (·.id = id)).map
        (·.report Token.nowhere.pos) := by
  obtain ⟨t, ht, rfl⟩ := List.mem_map.mp hid
  cases t with
  | missing => exact absurd ht (Tree.missing_notMem_subtrees _)
  | node label c =>
      rw [Tree.rootId, diagnosticOf_check ht, reportOn, Tree.label?,
        Option.bind_some, Option.map_map]
      rfl

/-- What is found about the nodes of one statement is found in that
statement. -/
theorem find?_inSheet
    {id : NodeId} (hid : id ∈
      idRange (1 + countStatements front) statement.count) :
    (inSheet (sheetTree (front ++ statement :: back))).find? (·.id = id) =
      (inTopItem (Variables.after ⟨.empty, .empty⟩ front).types
        (statement.treeAt (1 + countStatements front))).find? (·.id = id) := by
  have hsplit : inSheet (sheetTree (front ++ statement :: back)) =
      atTop .empty (statementTrees 1 (front ++ statement :: back)) := rfl
  rw [hsplit, statementTrees_append, statementTrees, atTop_append, atTop_cons,
    Variables.types_after front .empty .empty 1, List.find?_append,
    List.find?_append]
  have hfront : (atTop .empty (statementTrees 1 front)).find? (·.id = id) =
      none := by
    refine List.find?_eq_none.mpr fun f hf heq => ?_
    have hbefore := mem_idRange_of_mem_atTop hf
    rw [of_decide_eq_true heq] at hbefore
    exact notMem_idRange_of_mem hbefore (.inl (Nat.le_refl _)) hid
  have hback : ∀ tenv, (atTop tenv (statementTrees
      (1 + countStatements front + statement.count) back)).find? (·.id = id) =
      none := by
    refine fun tenv => List.find?_eq_none.mpr fun f hf heq => ?_
    have hbehind := mem_idRange_of_mem_atTop hf
    rw [of_decide_eq_true heq] at hbehind
    exact notMem_idRange_of_mem hbehind (.inr (Nat.le_refl _)) hid
  rw [hfront, hback, Option.none_or, Option.or_none]

theorem inTopItem_of_moved_eq
    {statement' : Statement}
    (h : statement.moved unplaced = statement'.moved unplaced) (tenv : Scope Ty)
    {n n' : Nat} {d : Int} (hd : (n' : Int) = n + d) :
    inTopItem tenv (statement'.treeAt n') =
      (inTopItem tenv (statement.treeAt n)).map (.renumbered (· + d)) := by
  have hzero : (n' : Int) = n' + 0 := (Int.add_zero _).symm
  have hsame : (statement'.treeAt n').relabel (Label.shifted unplaced 0) =
      (statement.treeAt n).relabel (Label.shifted unplaced d) := by
    rw [← Statement.treeAt_moved hzero, ← Statement.treeAt_moved hd, h]
  have hid : ∀ label, (Label.shifted unplaced 0 label).id = id label.id :=
    fun label => Int.add_zero _
  have hadd : ∀ label, (Label.shifted unplaced d label).id = (· + d) label.id :=
    fun _ => rfl
  rw [← inTopItem_relabel hadd, ← hsame, inTopItem_relabel hid,
    map_renumbered_id]

/-- The same is noted on a statement in two sheets that agree in the variables
in front of it. -/
theorem sameNotes_check
    {sheet sheet' front' back' : Sheet} {statement' : Statement}
    (hsheet : sheet = front ++ statement :: back)
    (hsheet' : sheet' = front' ++ statement' :: back')
    (h : statement.moved unplaced = statement'.moved unplaced)
    (hvariables : Variables.after ⟨.empty, .empty⟩ front =
      Variables.after ⟨.empty, .empty⟩ front')
    {d : Int}
    (hd : ((1 + countStatements front' : Nat) : Int) =
      (1 + countStatements front : Nat) + d) :
    SameNotes (Arena.ofSheet sheet).check.diagnosticOf
      (Arena.ofSheet sheet').check.diagnosticOf d (1 + countStatements front)
      statement.count := by
  subst hsheet hsheet'
  intro id hid
  have hcount : statement.count = statement'.count := by
    rw [← statement.count_moved unplaced, h, statement'.count_moved]
  have hid' : id + d ∈
      idRange (1 + countStatements front') statement'.count := by
    rw [mem_idRange] at hid ⊢
    omega
  rw [diagnosticOf_check_unplaced (mem_ids_sheetTree hid),
    diagnosticOf_check_unplaced (mem_ids_sheetTree hid'), find?_inSheet hid,
    find?_inSheet hid', hvariables, inTopItem_of_moved_eq h _ hd,
    List.find?_map, Option.map_map]
  have hfind :
      ((fun f : Finding => decide (f.id = id + d)) ∘
        Finding.renumbered (· + d)) =
      fun f => decide (f.id = id) := by
    funext f
    simp [Finding.renumbered]
  rw [hfind]
  rfl

end Notes

/-! ## Rules of a stored sheet -/

theorem exists_of_statementTrees_eq_append
    {sheet : Sheet} {n : Nat} {ts us : List Tree} {t : Tree}
    (h : statementTrees n sheet = ts ++ t :: us) :
    ∃ front statement back, sheet = front ++ statement :: back ∧
      statementTrees n front = ts ∧
      statement.treeAt (n + countStatements front) = t := by
  induction ts generalizing sheet n with
  | nil =>
      cases sheet with
      | nil => cases h
      | cons statement sheet =>
          exact ⟨[], statement, sheet, rfl, rfl, (List.cons.inj h).1⟩
  | cons u ts ih =>
      cases sheet with
      | nil => cases h
      | cons first sheet =>
          rw [statementTrees, List.cons_append, List.cons.injEq] at h
          obtain ⟨front, statement, back, rfl, rfl, rfl⟩ := ih h.2
          refine ⟨first :: front, statement, back, rfl, ?_, ?_⟩
          · rw [statementTrees, h.1]
          · rw [countStatements, Nat.add_assoc]

namespace Arena

variable {sheet : Sheet}

theorem Holds.children_root
    {a : Arena} {pos : Position} {d : Option Diagnostic} {ts : List Tree}
    (h : a.Holds (.node ⟨0, pos, d⟩ (.stylesheet ts))) :
    a.children 0 = ts.map Tree.rootId := by
  rw [children, (holds_node_iff.mp h).1]
  rfl

theorem tree_ofSheet {t : Tree} (ht : t ∈ statementTrees 1 sheet) :
    (ofSheet sheet).tree t.rootId = t := by
  have hlevels : (sheetTree sheet).Within (countStatements sheet + 1) := by
    apply Tree.within_of_length_le
    rw [length_subtrees_of_perm (ids_sheetTree_perm sheet), Nat.add_comm]
  refine tree_eq_of_holds ((holds_node_iff.mp (holds_ofSheet sheet)).2 t ht) ?_
  rw [(stores_ofSheet sheet).size_eq]
  exact (hlevels t ht).mono (by omega)

/-- Where a number stands among the children of the root, a statement stands in
the sheet. -/
theorem exists_statement
    {ids more : List NodeId} {id : NodeId}
    (h : (ofSheet sheet).children 0 = ids ++ id :: more) :
    ∃ front statement back, sheet = front ++ statement :: back ∧
      ids.map (ofSheet sheet).tree = statementTrees 1 front ∧
      id = (statement.treeAt (1 + countStatements front)).rootId ∧
      (ofSheet sheet).tree id =
        statement.treeAt (1 + countStatements front) := by
  rw [(holds_ofSheet sheet).children_root, List.map_eq_append_iff] at h
  obtain ⟨ts, us, htrees, rfl, hus⟩ := h
  obtain ⟨t, us, rfl, rfl, -⟩ := List.map_eq_cons_iff.mp hus
  have htree : ∀ u ∈ ts ++ t :: us, (ofSheet sheet).tree u.rootId = u :=
    fun u hu => tree_ofSheet (htrees ▸ hu)
  obtain ⟨front, statement, back, rfl, rfl, rfl⟩ :=
    exists_of_statementTrees_eq_append htrees
  rw [List.forall_mem_append, List.forall_mem_cons] at htree
  refine ⟨front, statement, back, rfl, ?_, rfl, htree.2.1⟩
  rw [List.map_map]
  exact (List.map_congr_left htree.1).trans (List.map_id _)

/-- What checking and evaluation leave of a rule. -/
theorem exists_evaluated_rule
    {front back : Sheet} {pos : Position} {selectors : List Selector}
    {body : List Item}
    (hsheet : sheet = front ++ .rule pos selectors body :: back) :
    let r : SelectedRule := ⟨1 + countStatements front, pos, selectors, body,
      (Variables.after ⟨.empty, .empty⟩ front).values⟩
    r.tree.rootId ∈ (ofSheet sheet).check.evaluate.children 0 ∧
      ∃ fresh, (ofSheet sheet).check.evaluate.tree r.tree.rootId =
        r.evaluated (ofSheet sheet).check.diagnosticOf fresh := by
  intro r
  have hstores : (ofSheet sheet).check.Stores sheet :=
    (stores_ofSheet sheet).check
  have hselected : r ∈
      Selection.ofSheet (ofSheet sheet).check.diagnosticOf sheet := by
    have hmarks := marks_check sheet
    rw [hsheet] at hmarks ⊢
    exact Variables.mem_ofStatements front hmarks
  obtain ⟨fresh, hmem⟩ :=
    (SelectedRule.rewriting
      (ofSheet sheet).check.diagnosticOf).exists_mem_afterAll hselected
      (ofSheet sheet).check.size
  refine ⟨?_, fresh, hstores.tree_evaluate hmem⟩
  rw [hstores.holds_evaluate.children_root]
  exact List.mem_map.mpr ⟨_, hmem, rfl⟩

end Arena

/-! ## Rules of two sources -/

/-- The arena of a source after checking and evaluation, whatever is reported on
it. -/
def settled (source : List Char) : Arena :=
  (parse source).arena.check.evaluate

/-- A rule that stands in two sources behind the same assignments at top level
is left with the same selectors, the same declarations and the same reports in
both. -/
theorem settled_rule_unnumbered_eq
    {source source' : List Char} {ids more ids' more' : List NodeId}
    {id id' : NodeId}
    (hids : (parse source).arena.children 0 = ids ++ id :: more)
    (hids' : (parse source').arena.children 0 = ids' ++ id' :: more')
    (hrule : ((parse source).arena.tree id).isRule = true)
    (hsame : ((parse source).arena.tree id).shape =
      ((parse source').arena.tree id').shape)
    (hfront : ((ids.map (parse source).arena.tree).filter
      Canonical.isAssignment).map Tree.shape =
      ((ids'.map (parse source').arena.tree).filter Canonical.isAssignment).map
        Tree.shape) :
    id ∈ (settled source).children 0 ∧ id' ∈ (settled source').children 0 ∧
      ((settled source).tree id).isRule = true ∧
      ((settled source).tree id).unnumbered =
        ((settled source').tree id').unnumbered := by
  obtain ⟨front, statement, back, hsheet, htrees, rfl, htree⟩ :=
    Arena.exists_statement hids
  obtain ⟨front', statement', back', hsheet', htrees', rfl, htree'⟩ :=
    Arena.exists_statement hids'
  have hmoved : statement.moved unplaced = statement'.moved unplaced :=
    Statement.moved_eq_of_shape (htree ▸ htree' ▸ hsame)
  have hvariables : ∀ v : Variables, v.after front = v.after front' :=
    Variables.after_eq_of_shape (htrees ▸ htrees' ▸ hfront)
  have hrule : (statement.treeAt (1 + countStatements front)).isRule = true :=
    htree ▸ hrule
  cases statement with
  | assignment | ifThen | ifElse => cases hrule
  | rule pos selectors body =>
      cases statement' with
      | assignment | ifThen | ifElse => cases hmoved
      | rule pos' selectors' body' =>
          have hd : ((1 + countStatements front' : Nat) : Int) =
              (1 + countStatements front : Nat) +
              (countStatements front' - countStatements front) := by omega
          have hnotes := sameNotes_check hsheet hsheet' hmoved (hvariables _) hd
          obtain ⟨hmem, fresh, heval⟩ := Arena.exists_evaluated_rule hsheet
          obtain ⟨hmem', fresh', heval'⟩ := Arena.exists_evaluated_rule hsheet'
          refine ⟨hmem, hmem', ?_, ?_⟩
          · exact (congrArg Tree.isRule heval).trans rfl
          · refine (congrArg Tree.unnumbered heval).trans
              (Eq.trans ?_ (congrArg Tree.unnumbered heval').symm)
            rw [← hvariables]
            exact SelectedRule.unnumbered_evaluated_eq hd hmoved hnotes _
              fresh fresh'

/-- Another rule binds the name in between, or a conditional stands where it
has no place.  The rule is left alike: with the chosen branch instead of its
conditional, with the product folded, and with one declaration in error. -/
theorem settled_rule_unnumbered_eq_between_others :
    let source :=
      ("A:=1px;q\x7bA:=2;\x7dp\x7bif[TRUE]\x7bwidth:A*2;\x7d"
        ++ "color:A;\x7d").toList
    let source' :=
      ("if[B]\x7b\x7dA:=1px;p\x7bif[TRUE]\x7bwidth:A*2;\x7d"
        ++ "color:A;\x7d").toList
    (parse source).arena.children 0 = [3, 8] ++ 20 :: [] ∧
      (parse source').arena.children 0 = [2, 5] ++ 17 :: [] ∧
      ((settled source).tree 20).dump =
        "Stylerule\n  TagSelector: p\n"
          ++ "  Declaration\n    Property: width\n    PixelLiteral: 2px\n"
          ++ "  Declaration  !! property 'color' requires a color value "
          ++ "(hex #rrggbb), got Pixel\n"
          ++ "    Property: color\n    VariableReference: A\n" ∧
      20 ∈ (settled source).children 0 ∧
      ((settled source).tree 20).unnumbered =
        ((settled source').tree 17).unnumbered := by
  intro source source'
  have hids : (parse source).arena.children 0 = [3, 8] ++ 20 :: [] := by
    decide +kernel
  have hids' : (parse source').arena.children 0 = [2, 5] ++ 17 :: [] := by
    decide +kernel
  have hrule : ((parse source).arena.tree 20).isRule = true := by
    decide +kernel
  -- Both sides of an equation of shapes are compared with the shape itself.
  let bare (c : Content Tree) : Tree := .node ⟨0, Token.nowhere.pos, none⟩ c
  let name := bare (.reference "A")
  let rule := bare (.stylerule [bare (.selector "p")]
    [bare (.ifClause (bare (.literal (.bool true)))
      [bare (.declaration (bare (.propertyName "width"))
        (bare (.operation .multiply name (bare (.literal (.scalar 2))))))]
      .missing),
    bare (.declaration (bare (.propertyName "color")) name)])
  let front := [bare (.assignment name (bare (.literal (.pixel 1))))]
  have hshape : ((parse source).arena.tree 20).shape = rule := by
    unfold source
    with_unfolding_all rfl
  have hshape' : ((parse source').arena.tree 17).shape = rule := by
    unfold source'
    with_unfolding_all rfl
  have hfront : (([3, 8].map (parse source).arena.tree).filter
      Canonical.isAssignment).map Tree.shape = front := by
    unfold source
    with_unfolding_all rfl
  have hfront' : (([2, 5].map (parse source').arena.tree).filter
      Canonical.isAssignment).map Tree.shape = front := by
    unfold source'
    with_unfolding_all rfl
  obtain ⟨hmem, -, -, heq⟩ := settled_rule_unnumbered_eq hids hids' hrule
    (hshape.trans hshape'.symm) (hfront.trans hfront'.symm)
  exact ⟨hids, hids', by decide +kernel, hmem, heq⟩

end Stylesheet
