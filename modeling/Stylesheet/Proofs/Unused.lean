import Stylesheet.Proofs.Places
import Stylesheet.Proofs.Sessions

/-!
# Variables that are never read

A variable is remarked on as unused if no expression of the sheet reads it,
wherever that stands.  Assignments to such a variable can be taken out of a
sheet at any depth: the other names keep their types and values at every place,
so nothing new is found in the sheet and its meaning is the same.
-/

namespace Stylesheet

/-! ## Names that are read -/

/-- The names that an expression reads. -/
def Expr.names : Expr → List String
  | .literal _ _ => []
  | .reference _ name => [name]
  | .operation _ _ lhs rhs => lhs.names ++ rhs.names

mutual

/-- The names that the expressions of an item read. -/
def Item.names : Item → List String
  | .declaration _ _ expr | .assignment _ _ expr => expr.names
  | .ifThen _ guard body => guard.names ++ namesOfItems body
  | .ifElse _ guard body _ otherwise =>
      guard.names ++ namesOfItems body ++ namesOfItems otherwise

def namesOfItems : List Item → List String
  | [] => []
  | item :: items => item.names ++ namesOfItems items

end

def Statement.names : Statement → List String
  | .assignment _ _ expr => expr.names
  | .rule _ _ body => namesOfItems body
  | .ifThen pos guard body => (Item.ifThen pos guard body).names
  | .ifElse pos guard body elsePos otherwise =>
      (Item.ifElse pos guard body elsePos otherwise).names

/-- The names that the expressions of a sheet read. -/
def namesOf (sheet : Sheet) : List String :=
  sheet.flatMap Statement.names

namespace Lint

/-- All numbers are smaller than the given one. -/
def Below (n : Nat) (targets : List NodeId) : Prop :=
  ∀ id : Int, id ∈ targets → id < n

theorem Below.mono {n m : Nat} {targets : List NodeId} (h : Below n targets)
    (hle : n ≤ m) :
    Below m targets := by
  intro id hid
  have hlt := h id hid
  omega

/-- A walk over the trees, whose numbers lie between `n` and `m`, reads the
names and goes on behind the trees.  The targets that it has met never have a
number that is still to come. -/
def Collects (n m : Nat) (ts : List Tree) (names : List String) : Prop :=
  ∀ targets, Below n targets → ∃ targets', Below m targets' ∧
    ∀ rest, namesRead targets (ts.flatMap Tree.subtrees ++ rest) =
      names ++ namesRead targets' rest

/-- Whether a node is an assignment or a name. -/
def concernsNames : Content Tree → Bool
  | .assignment _ _ | .reference _ => true
  | _ => false

section Collects

variable {n m k : Nat} {ts us : List Tree} {names names' : List String}

theorem collects_nil (hle : n ≤ m) : Collects n m [] [] :=
  fun targets htargets => ⟨targets, htargets.mono hle, fun _ => rfl⟩

theorem Collects.append (h : Collects n m ts names)
    (h' : Collects m k us names') :
    Collects n k (ts ++ us) (names ++ names') := by
  intro targets htargets
  obtain ⟨targets, htargets, hread⟩ := h targets htargets
  obtain ⟨targets, htargets, hread'⟩ := h' targets htargets
  refine ⟨targets, htargets, fun rest => ?_⟩
  rw [List.flatMap_append, List.append_assoc, hread, hread', List.append_assoc]

theorem Collects.mono (h : Collects n m ts names) (hle : m ≤ k) :
    Collects n k ts names := by
  have happend := h.append (collects_nil hle)
  rwa [List.append_nil, List.append_nil] at happend

theorem collects_missing (hle : n ≤ m) : Collects n m [.missing] [] := by
  intro targets htargets
  refine ⟨targets, htargets.mono hle, fun rest => ?_⟩
  rw [List.flatMap_singleton, Tree.subtrees_missing]
  rfl

/-- A node that is neither an assignment nor a name is passed over. -/
theorem Collects.node
    {label : Label} {c : Content Tree} (h : Collects n m c.toList names)
    (hc : concernsNames c = false) : Collects n m [.node label c] names := by
  intro targets htargets
  obtain ⟨targets', htargets', hread⟩ := h targets htargets
  refine ⟨targets', htargets', fun rest => ?_⟩
  rw [List.flatMap_singleton, Tree.subtrees_node, List.cons_append,
    namesRead, hread]
  · rintro _ target expr heq
    rw [(Tree.node.inj heq).2] at hc
    cases hc
  · rintro _ name heq
    rw [(Tree.node.inj heq).2] at hc
    cases hc

end Collects

theorem collects_expr (e : Expr) (n : Nat) :
    Collects n (n + e.count) [e.treeAt n] e.names := by
  induction e generalizing n with
  | literal pos value => exact (collects_nil (Nat.le_succ n)).node rfl
  | reference pos name =>
      intro targets htargets
      refine ⟨targets, htargets.mono (Nat.le_succ n), fun rest => ?_⟩
      have hmem : (n : Int) ∉ targets :=
        fun hmem => Int.lt_irrefl _ (htargets _ hmem)
      simp [Expr.treeAt, Tree.plain, Content.toList, namesRead, hmem,
        Expr.names]
  | operation pos op lhs rhs ihl ihr =>
      have hboth := (ihl n).append (ihr (n + lhs.count))
      rw [Expr.count]
      exact (hboth.mono (by omega)).node rfl

/-- The target of an assignment is not read. -/
theorem collects_assignment (n : Nat) (pos : Position) (name : String)
    (e : Expr) :
    Collects n (n + (1 + e.count + 1)) [assignmentTree n pos name e]
      e.names := by
  intro targets htargets
  have hbelow : Below (n + 1) ((n : Int) :: targets) := by
    intro id hid
    rcases List.mem_cons.mp hid with rfl | hid
    · omega
    · exact htargets.mono (Nat.le_succ n) id hid
  obtain ⟨targets', htargets', hread⟩ := collects_expr e (n + 1) _ hbelow
  refine ⟨targets', htargets'.mono (by omega), fun rest => ?_⟩
  rw [← hread rest]
  simp [assignmentTree, Tree.plain, Content.toList, namesRead, Tree.label?]

theorem collects_declaration (n : Nat) (pos : Position) (property : String)
    (e : Expr) :
    Collects n (n + (1 + e.count + 1)) [declarationTree n pos property e]
      e.names := by
  have hname : Collects n (n + 1) [.plain n pos (.propertyName property)] [] :=
    (collects_nil (Nat.le_succ n)).node rfl
  exact ((hname.append (collects_expr e (n + 1))).mono (by omega)).node rfl

theorem collects_items (items : List Item) (n : Nat) :
    Collects n (n + countItems items) (itemTrees n items)
      (namesOfItems items) := by
  have hcons : ∀ {n : Nat} {item : Item} {items : List Item},
      Collects n (n + item.count) [item.treeAt n] item.names →
      Collects (n + item.count) (n + item.count + countItems items)
        (itemTrees (n + item.count) items) (namesOfItems items) →
      Collects n (n + countItems (item :: items)) (itemTrees n (item :: items))
        (namesOfItems (item :: items)) := by
    intro n item items hitem hitems
    have happend := hitem.append hitems
    rwa [Nat.add_assoc] at happend
  induction items using Item.list_induction generalizing n with
  | nil => exact collects_nil (Nat.le_refl n)
  | declaration pos property expr items ih =>
      refine hcons ?_ (ih _)
      rw [Item.treeAt]
      exact collects_declaration n pos property expr
  | assignment pos name expr items ih =>
      refine hcons ?_ (ih _)
      rw [Item.treeAt]
      exact collects_assignment n pos name expr
  | ifThen pos guard body items ihbody ih =>
      refine hcons ?_ (ih _)
      have hbranch := (collects_expr guard n).append (ihbody (n + guard.count))
      have hnone : Collects (n + guard.count + countItems body)
          (n + (guard.count + countItems body + 1)) [.missing] [] :=
        collects_missing (by omega)
      have hparts := hbranch.append hnone
      rw [List.append_nil] at hparts
      rw [Item.treeAt, Item.count]
      exact hparts.node rfl
  | ifElse pos guard body elsePos otherwise items ihbody ihelse ih =>
      refine hcons ?_ (ih _)
      have hbranch := (collects_expr guard n).append (ihbody (n + guard.count))
      have hclause : Collects (n + guard.count + countItems body)
          (n + (guard.count + countItems body + countItems otherwise + 1 + 1))
          [.plain (n + guard.count + countItems body + countItems otherwise)
            elsePos (.elseClause
              (itemTrees (n + guard.count + countItems body) otherwise))]
          (namesOfItems otherwise) :=
        ((ihelse (n + guard.count + countItems body)).mono (by omega)).node rfl
      rw [Item.treeAt, Item.count]
      exact (hbranch.append hclause).node rfl

theorem collects_selectors (selectors : List Selector) (n : Nat) :
    Collects n (n + selectors.length) (selectorTrees n selectors) [] := by
  induction selectors generalizing n with
  | nil => exact collects_nil (Nat.le_refl n)
  | cons selector selectors ih =>
      have hfirst : Collects n (n + 1)
          [.plain n selector.pos (.selector selector.text)] [] :=
        (collects_nil (Nat.le_succ n)).node rfl
      exact (hfirst.append (ih (n + 1))).mono (by rw [List.length_cons]; omega)

theorem collects_statement (s : Statement) (n : Nat) :
    Collects n (n + s.count) [s.treeAt n] s.names := by
  have hitem : ∀ item : Item,
      Collects n (n + item.count) [item.treeAt n] item.names := by
    intro item
    have hone := collects_items [item] n
    rwa [namesOfItems, namesOfItems, List.append_nil] at hone
  cases s with
  | assignment pos name expr => exact collects_assignment n pos name expr
  | rule pos selectors body =>
      have hparts := (collects_selectors selectors n).append
        (collects_items body (n + selectors.length))
      exact (hparts.mono (by rw [Statement.count]; omega)).node rfl
  | ifThen pos guard body => exact hitem (.ifThen pos guard body)
  | ifElse pos guard body elsePos otherwise =>
      exact hitem (.ifElse pos guard body elsePos otherwise)

theorem collects_statements (sheet : Sheet) (n : Nat) :
    Collects n (n + countStatements sheet) (statementTrees n sheet)
      (namesOf sheet) := by
  induction sheet generalizing n with
  | nil => exact collects_nil (Nat.le_refl n)
  | cons s sheet ih =>
      have happend := (collects_statement s n).append (ih (n + s.count))
      rwa [Nat.add_assoc] at happend

/-- The names that are used in a sheet are those that its expressions read. -/
theorem usedNames_sheetTree (sheet : Sheet) :
    usedNames (sheetTree sheet) = namesOf sheet := by
  have hroot : Collects 1 (1 + countStatements sheet) [sheetTree sheet]
      (namesOf sheet) :=
    (collects_statements sheet 1).node rfl
  obtain ⟨targets, -, hread⟩ := hroot [] nofun
  have hall := hread []
  rwa [List.flatMap_singleton, List.append_nil, namesRead,
    List.append_nil] at hall

/-! ## What is remarked on -/

section Message

variable {front front' name name' back back' : String}

theorem head?_eq_of_append_eq
    (h : front ++ name ++ back = front' ++ name' ++ back')
    (hne : front.toList ≠ []) (hne' : front'.toList ≠ []) :
    front.toList.head? = front'.toList.head? := by
  have hchars := congrArg (·.toList.head?) h
  simpa only [String.toList_append, List.append_assoc,
    List.head?_append_of_ne_nil _ hne, List.head?_append_of_ne_nil _ hne'] using
    hchars

theorem getLast?_eq_of_append_eq (h : front ++ back = front' ++ back')
    (hne : back.toList ≠ []) (hne' : back'.toList ≠ []) :
    back.toList.getLast? = back'.toList.getLast? := by
  have hchars := congrArg (·.toList.getLast?) h
  simpa only [String.toList_append, List.getLast?_append_of_ne_nil _ hne,
    List.getLast?_append_of_ne_nil _ hne'] using hchars

theorem eq_of_append_eq (h : front ++ name ++ back = front ++ name' ++ back) :
    name = name' := by
  rwa [String.append_left_inj, String.append_right_inj] at h

end Message

/-- The message tells that a variable is unused, and which one. -/
theorem Remark.eq_of_message_eq_unused
    {remark : Remark} {name : String}
    (h : remark.message = (Remark.unused name).message) :
    remark = .unused name := by
  change _ = "variable '" ++ name ++ "' is assigned but never used" at h
  -- Another remark starts or ends with another letter.
  cases remark with
  | unused other =>
      change "variable '" ++ other ++ "' is assigned but never used" = _ at h
      rw [eq_of_append_eq h]
  | uncapitalised other =>
      change "variable '" ++ other
        ++ "' should start with an upper-case letter" = _ at h
      exact absurd (getLast?_eq_of_append_eq h (by decide) (by decide))
        (by decide)
  | emptyRule selectors =>
      change "stylerule '" ++ selectors ++ "' has an empty body" = _ at h
      exact absurd (head?_eq_of_append_eq h (by decide) (by decide)) (by decide)
  | repeatedProperty property =>
      change "property '" ++ property
        ++ "' is declared more than once in the same body" = _ at h
      exact absurd (head?_eq_of_append_eq h (by decide) (by decide)) (by decide)
  | constantGuard value =>
      have h' := String.append_empty.trans h
      change "if condition is always " ++ (Literal.bool value).text ++ "" =
        _ at h'
      exact absurd (head?_eq_of_append_eq h' (by decide) (by decide))
        (by decide)

/-- Remarks on nodes, none of which calls a name unused that is among the used
ones. -/
def Fair (used : List String) (found : Diagnostics) : Prop :=
  ∀ d ∈ found, ∃ label remark, d = warning label remark ∧
    ∀ name, remark = .unused name → name ∉ used

section Fair

variable {used : List String}

theorem fair_nil : Fair used [] :=
  List.forall_mem_nil _

theorem Fair.append {found more : Diagnostics} (h : Fair used found)
    (h' : Fair used more) :
    Fair used (found ++ more) :=
  List.forall_mem_append.mpr ⟨h, h'⟩

theorem fair_singleton {label : Label} {remark : Remark}
    (h : ∀ name, remark = .unused name → name ∉ used) :
    Fair used [warning label remark] :=
  List.forall_mem_singleton.mpr ⟨label, remark, rfl, h⟩

theorem fair_repeats (seen : List String) (ts : List Tree) :
    Fair used (repeats seen ts) := by
  fun_induction repeats seen ts with
  | case1 => exact fair_nil
  | case2 seen label property expr ts name hname key ih =>
      refine Fair.append ?_ ih
      split
      · exact fair_singleton nofun
      · exact fair_nil
  | case3 seen label property expr ts hname ih => exact ih
  | case4 seen t ts hne ih => exact ih

theorem fair_onAssignment (label : Label) (name : String) :
    Fair used (onAssignment used label name) := by
  unfold onAssignment
  refine Fair.append ?_ ?_
  · split
    · exact fair_nil
    · exact fair_singleton nofun
  · split
    · exact fair_nil
    · next hunused =>
        refine fair_singleton fun other heq => ?_
        rwa [← Remark.unused.inj heq]

theorem fair_onRule (label : Label) (selectors body : List Tree) :
    Fair used (onRule label selectors body) := by
  unfold onRule
  split
  · exact fair_singleton nofun
  · exact fair_nil

theorem fair_onGuard (label : Label) (guard : Tree) :
    Fair used (onGuard label guard) := by
  unfold onGuard
  split
  · exact fair_singleton nofun
  · exact fair_nil

theorem fair_inItems {ts : List Tree}
    (h : ∀ t ∈ ts, Fair used (inItem used t)) :
    Fair used (inItems used ts) := by
  induction ts with
  | nil => exact fair_nil
  | cons t ts ih =>
      rw [List.forall_mem_cons] at h
      exact h.1.append (ih h.2)

theorem fair_inItem_and_inElse (t : Tree) :
    Fair used (inItem used t) ∧ Fair used (inElse used t) := by
  induction t using Tree.induction_on with
  | hmissing => exact ⟨fair_nil, fair_nil⟩
  | hnode label c ih =>
      have hbody : ∀ ts, ts ⊆ c.toList →
          Fair used (repeats [] ts ++ inItems used ts) :=
        fun ts hsub =>
          (fair_repeats [] ts).append
            (fair_inItems fun t ht => (ih t (hsub ht)).1)
      cases c with
      | assignment target expr =>
          refine ⟨?_, fair_nil⟩
          rw [inItem]
          split
          · split
            · exact fair_nil
            · exact fair_onAssignment label _
          · exact fair_nil
      | stylerule selectors body =>
          refine ⟨?_, fair_nil⟩
          rw [inItem, List.append_assoc]
          exact (fair_onRule label selectors body).append
            (hbody body (List.subset_append_right _ _))
      | ifClause guard body otherwise =>
          refine ⟨?_, fair_nil⟩
          have hsub : body ⊆ (Content.ifClause guard body otherwise).toList :=
            fun t ht => by
            simp [Content.toList, ht]
          have helse := (ih otherwise (by simp [Content.toList])).2
          rw [inItem, List.append_assoc (onGuard label guard)]
          exact ((fair_onGuard label guard).append (hbody body hsub)).append
            helse
      | elseClause body => exact ⟨fair_nil, hbody body (List.Subset.refl _)⟩
      | _ => exact ⟨fair_nil, fair_nil⟩

theorem fair_inSheet (root : Tree) : Fair (usedNames root) (inSheet root) := by
  unfold inSheet
  split
  · next label body =>
      exact (fair_repeats [] body).append
        (fair_inItems fun t _ => (fair_inItem_and_inElse t).1)
  · exact fair_nil

end Fair

/-- A variable that is remarked on as unused is read nowhere in the sheet. -/
theorem notMem_namesOf_of_remark
    {sheet : Sheet} {pos : Position} {name : String}
    (h : Diagnostic.warning pos (Remark.unused name).message ∈
      inSheet (sheetTree sheet)) :
    name ∉ namesOf sheet := by
  obtain ⟨label, remark, heq, hfair⟩ := fair_inSheet (sheetTree sheet) _ h
  rw [usedNames_sheetTree] at hfair
  refine hfair name (Remark.eq_of_message_eq_unused ?_)
  exact (congrArg Diagnostic.message heq).symm

end Lint

/-! ## Assignments that are taken out -/

/-- Assignments to a name are taken out of a list of items, some or all of them,
at any depth. -/
inductive PrunesItems (name : String) : List Item → List Item → Prop
  | nil : PrunesItems name [] []
  | drop {pos : Position} {expr : Expr} {items items' : List Item}
      (h : PrunesItems name items items') :
      PrunesItems name (.assignment pos name expr :: items) items'
  | declaration {pos : Position} {property : String} {expr : Expr}
      {items items' : List Item} (h : PrunesItems name items items') :
      PrunesItems name (.declaration pos property expr :: items)
        (.declaration pos property expr :: items')
  | assignment {pos : Position} {other : String} {expr : Expr}
      {items items' : List Item} (h : PrunesItems name items items') :
      PrunesItems name (.assignment pos other expr :: items)
        (.assignment pos other expr :: items')
  | ifThen {pos : Position} {guard : Expr} {body body' items items' : List Item}
      (hbody : PrunesItems name body body')
      (h : PrunesItems name items items') :
      PrunesItems name (.ifThen pos guard body :: items)
        (.ifThen pos guard body' :: items')
  | ifElse {pos elsePos : Position} {guard : Expr}
      {body body' otherwise otherwise' items items' : List Item}
      (hbody : PrunesItems name body body')
        (helse : PrunesItems name otherwise otherwise')
      (h : PrunesItems name items items') :
      PrunesItems name (.ifElse pos guard body elsePos otherwise :: items)
        (.ifElse pos guard body' elsePos otherwise' :: items')

/-- Assignments to a name are taken out of a sheet.  It does not matter what
happens inside the conditionals at top level, which stand for nothing. -/
inductive Prunes (name : String) : Sheet → Sheet → Prop
  | nil : Prunes name [] []
  | drop {pos : Position} {expr : Expr} {sheet sheet' : Sheet}
      (h : Prunes name sheet sheet') :
      Prunes name (.assignment pos name expr :: sheet) sheet'
  | assignment {pos : Position} {other : String} {expr : Expr}
      {sheet sheet' : Sheet} (h : Prunes name sheet sheet') :
      Prunes name (.assignment pos other expr :: sheet)
        (.assignment pos other expr :: sheet')
  | rule {pos : Position} {selectors : List Selector} {body body' : List Item}
      {sheet sheet' : Sheet} (hbody : PrunesItems name body body')
      (h : Prunes name sheet sheet') :
      Prunes name (.rule pos selectors body :: sheet)
        (.rule pos selectors body' :: sheet')
  | ifThen {pos : Position} {guard : Expr} {body body' : List Item}
      {sheet sheet' : Sheet} (h : Prunes name sheet sheet') :
      Prunes name (.ifThen pos guard body :: sheet)
        (.ifThen pos guard body' :: sheet')
  | ifElse {pos elsePos : Position} {guard : Expr}
      {body body' otherwise otherwise' : List Item} {sheet sheet' : Sheet}
      (h : Prunes name sheet sheet') :
      Prunes name (.ifElse pos guard body elsePos otherwise :: sheet)
        (.ifElse pos guard body' elsePos otherwise' :: sheet')

theorem PrunesItems.refl (name : String) (items : List Item) :
    PrunesItems name items items := by
  induction items using Item.list_induction with
  | nil => exact .nil
  | declaration pos property expr items ih => exact .declaration ih
  | assignment pos other expr items ih => exact .assignment ih
  | ifThen pos guard body items ihbody ih => exact .ifThen ihbody ih
  | ifElse pos guard body elsePos otherwise items ihbody ihelse ih =>
      exact .ifElse ihbody ihelse ih

theorem Prunes.refl (name : String) (sheet : Sheet) :
    Prunes name sheet sheet := by
  induction sheet with
  | nil => exact .nil
  | cons s sheet ih =>
      cases s with
      | assignment pos other expr => exact .assignment ih
      | rule pos selectors body => exact .rule (.refl name body) ih
      | ifThen pos guard body => exact .ifThen ih
      | ifElse pos guard body elsePos otherwise => exact .ifElse ih

namespace Typing

/-- The scopes agree on all names but the given one. -/
def AgreeOff (name : String) (env env' : Scope Ty) : Prop :=
  ∀ other, other ≠ name → env'.lookup? other = env.lookup? other

section AgreeOff

variable {name : String} {env env' : Scope Ty} {n n' : Nat}

theorem AgreeOff.push (h : AgreeOff name env env') :
    AgreeOff name env.push env'.push :=
  h

theorem AgreeOff.define (h : AgreeOff name env env') (other : String)
    (ty : Ty) :
    AgreeOff name (env.define other ty) (env'.define other ty) := by
  intro third hthird
  rw [Scope.lookup?_define, Scope.lookup?_define, h third hthird]

theorem AgreeOff.define_left (h : AgreeOff name env env') (ty : Ty) :
    AgreeOff name (env.define name ty) env' := by
  intro other hother
  rw [Scope.lookup?_define, if_neg hother, h other hother]

/-- An expression that does not read the name has the same type. -/
theorem AgreeOff.typeOf_eq
    (h : AgreeOff name env env') {e : Expr} (hname : name ∉ e.names) :
    typeOf env' (e.treeAt n') = typeOf env (e.treeAt n) := by
  induction e generalizing n n' with
  | literal pos value => rfl
  | reference pos other =>
      have hother : other ≠ name := by
        rintro rfl
        exact hname (List.mem_singleton_self _)
      simp only [Expr.treeAt, Tree.plain, typeOf, h other hother]
  | operation pos op lhs rhs ihl ihr =>
      rw [Expr.names, List.mem_append, not_or] at hname
      have hl : typeOf env' (lhs.treeAt n') = typeOf env (lhs.treeAt n) :=
        ihl hname.1
      have hr : typeOf env' (rhs.treeAt (n' + lhs.count)) =
          typeOf env (rhs.treeAt (n + lhs.count)) := ihr hname.2
      simp only [Expr.treeAt, Tree.plain, typeOf, hl, hr]

theorem AgreeOff.afterItem_assignmentTree
    (h : AgreeOff name env env') {pos : Position} {other : String} {e : Expr}
    (hname : name ∉ e.names) :
    AgreeOff name (afterItem env (assignmentTree n pos other e))
      (afterItem env' (assignmentTree n' pos other e)) := by
  have htype : typeOf env' (e.treeAt (n' + 1)) =
      typeOf env (e.treeAt (n + 1)) :=
    h.typeOf_eq hname
  rw [Stylesheet.afterItem_assignmentTree,
    Stylesheet.afterItem_assignmentTree, htype]
  split
  · exact h
  · exact h.define other _

end AgreeOff

end Typing

section Findings

open Typing

variable {env env' : Scope Ty} {n n' : Nat} {name : String}

theorem inItem_declarationTree_eq_nil_iff {pos : Position} {property : String}
    {e : Expr} :
    inItem env (declarationTree n pos property e) = [] ↔
      declarationFault? property (typeOf env (e.treeAt (n + 1))) = none := by
  simp only [declarationTree, Tree.plain, inItem, List.append_eq_nil_iff,
    findingOn_eq_nil_iff, Tree.propertyName?, Option.getD_some]
  refine ⟨And.right, fun hnone => ⟨inExpr_eq_nil_of_typeOf_ne_none ?_, hnone⟩⟩
  obtain ⟨kind, -, hty, -⟩ := accepted_of_declarationFault?_eq_none hnone
  rw [hty]
  exact Option.some_ne_none kind

theorem inItem_ifThen_eq_nil_iff {pos : Position} {guard : Expr}
    {body : List Item} :
    inItem env ((Item.ifThen pos guard body).treeAt n) = [] ↔
      typeOf env (guard.treeAt n) = some .bool ∧
        inBody env.push (itemTrees (n + guard.count) body) = [] := by
  simp only [Item.treeAt, Tree.plain, inItem, inElse, List.append_eq_nil_iff,
    findingOn_eq_nil_iff, ite_eq_left_iff, reduceCtorEq, imp_false, not_not,
    and_true]
  refine and_congr_left fun _ => ⟨And.right, fun hty => ⟨?_, hty⟩⟩
  exact inExpr_eq_nil_of_typeOf_ne_none
    (by rw [hty]; exact Option.some_ne_none _)

theorem inItem_ifElse_eq_nil_iff
    {pos elsePos : Position} {guard : Expr} {body otherwise : List Item} :
    inItem env ((Item.ifElse pos guard body elsePos otherwise).treeAt n) = [] ↔
      (typeOf env (guard.treeAt n) = some .bool ∧
        inBody env.push (itemTrees (n + guard.count) body) = []) ∧
      inBody env.push
        (itemTrees (n + guard.count + countItems body) otherwise) = [] := by
  simp only [Item.treeAt, Tree.plain, inItem, inElse, List.append_eq_nil_iff,
    findingOn_eq_nil_iff, ite_eq_left_iff, reduceCtorEq, imp_false, not_not]
  refine and_congr_left fun _ => and_congr_left fun _ =>
    ⟨And.right, fun hty => ⟨?_, hty⟩⟩
  exact inExpr_eq_nil_of_typeOf_ne_none
    (by rw [hty]; exact Option.some_ne_none _)

/-- Nothing is found in what is left of a list of items, if the name is not read
in them. -/
theorem PrunesItems.inBody_eq_nil
    {items items' : List Item} (h : PrunesItems name items items')
    (hname : name ∉ namesOfItems items) (hagree : AgreeOff name env env')
    (hnil : inBody env (itemTrees n items) = []) :
    inBody env' (itemTrees n' items') = [] := by
  -- The scopes agree off the name from the first assignment that is taken out
  -- up to the end of its list, and what comes behind the list does not see it.
  induction h generalizing env env' n n' with
  | nil => rfl
  | @drop pos expr items items' _ ih =>
      rw [namesOfItems, Item.names, List.mem_append, not_or] at hname
      rw [itemTrees, inBody, List.append_eq_nil_iff, Item.treeAt,
        afterItem_assignmentTree] at hnil
      refine ih hname.2 ?_ hnil.2
      split
      · exact hagree
      · exact hagree.define_left _
  | @declaration pos property expr items items' _ ih =>
      rw [namesOfItems, Item.names, List.mem_append, not_or] at hname
      rw [itemTrees, inBody, List.append_eq_nil_iff, Item.treeAt,
        inItem_declarationTree_eq_nil_iff] at hnil ⊢
      rw [hagree.typeOf_eq hname.1]
      exact ⟨hnil.1, ih hname.2 hagree hnil.2⟩
  | @assignment pos other expr items items' _ ih =>
      rw [namesOfItems, Item.names, List.mem_append, not_or] at hname
      rw [itemTrees, inBody, List.append_eq_nil_iff, Item.treeAt,
        inItem_assignmentTree_eq_nil_iff] at hnil ⊢
      rw [hagree.typeOf_eq hname.1]
      exact ⟨hnil.1,
        ih hname.2 (hagree.afterItem_assignmentTree hname.1) hnil.2⟩
  | @ifThen pos guard body body' items items' _ _ ihbody ih =>
      simp only [namesOfItems, Item.names, List.mem_append, not_or] at hname
      rw [itemTrees, inBody, List.append_eq_nil_iff,
        inItem_ifThen_eq_nil_iff] at hnil ⊢
      rw [hagree.typeOf_eq hname.1.1]
      exact ⟨⟨hnil.1.1, ihbody hname.1.2 hagree.push hnil.1.2⟩,
        ih hname.2 hagree hnil.2⟩
  | @ifElse pos elsePos guard body body' otherwise otherwise' items items' _ _ _
      ihbody ihelse ih =>
      simp only [namesOfItems, Item.names, List.mem_append, not_or] at hname
      rw [itemTrees, inBody, List.append_eq_nil_iff,
        inItem_ifElse_eq_nil_iff] at hnil ⊢
      obtain ⟨⟨⟨hguard, hbody⟩, helse⟩, hitems⟩ := hnil
      rw [hagree.typeOf_eq hname.1.1.1]
      exact ⟨⟨⟨hguard, ihbody hname.1.1.2 hagree.push hbody⟩,
        ihelse hname.1.2 hagree.push helse⟩, ih hname.2 hagree hitems⟩

/-- Nothing is found in what is left of a sheet, if the name is not read in
it. -/
theorem Prunes.atTop_eq_nil
    {sheet sheet' : Sheet} (h : Prunes name sheet sheet')
    (hname : name ∉ namesOf sheet) (hagree : AgreeOff name env env')
    (hnil : atTop env (statementTrees n sheet) = []) :
    atTop env' (statementTrees n' sheet') = [] := by
  induction h generalizing env env' n n' with
  | nil => rfl
  | @drop pos expr sheet sheet' _ ih =>
      rw [namesOf, List.flatMap_cons, List.mem_append, not_or] at hname
      rw [statementTrees, atTop_cons, List.append_eq_nil_iff, Statement.treeAt,
        afterItem_assignmentTree] at hnil
      refine ih hname.2 ?_ hnil.2
      split
      · exact hagree
      · exact hagree.define_left _
  | @assignment pos other expr sheet sheet' _ ih =>
      rw [namesOf, List.flatMap_cons, List.mem_append, not_or] at hname
      rw [statementTrees, atTop_cons, List.append_eq_nil_iff,
        Statement.treeAt] at hnil ⊢
      refine ⟨inItem_assignmentTree_eq_nil_iff.mpr ?_,
        ih hname.2 (hagree.afterItem_assignmentTree hname.1) hnil.2⟩
      rw [hagree.typeOf_eq hname.1]
      exact inItem_assignmentTree_eq_nil_iff.mp hnil.1
  | @rule pos selectors body body' sheet sheet' hbody _ ih =>
      rw [namesOf, List.flatMap_cons, List.mem_append, not_or] at hname
      rw [statementTrees, atTop_cons, List.append_eq_nil_iff] at hnil ⊢
      exact ⟨hbody.inBody_eq_nil hname.1 hagree.push hnil.1,
        ih hname.2 hagree hnil.2⟩
  | ifThen | ifElse =>
      rw [statementTrees, atTop_cons] at hnil
      cases hnil

end Findings

namespace Meaning

/-- The values of all names but the given one are the same. -/
def AgreeOff (name : String) (env env' : Env) : Prop :=
  ∀ other, other ≠ name → env' other = env other

section AgreeOff

variable {name : String} {env env' : Env}

theorem AgreeOff.bind (h : AgreeOff name env env') (other : String)
    (value : Option Literal) :
    AgreeOff name (env.bind other value) (env'.bind other value) := by
  intro third hthird
  rw [Env.bind, Env.bind, h third hthird]

theorem AgreeOff.bind_left (h : AgreeOff name env env')
    (value : Option Literal) :
    AgreeOff name (env.bind name value) env' := by
  intro other hother
  rw [Env.bind, if_neg hother, h other hother]

theorem AgreeOff.value?_eq (h : AgreeOff name env env') {e : Expr}
    (hname : name ∉ e.names) :
    e.value? env' = e.value? env := by
  induction e with
  | literal pos value => rfl
  | reference pos other =>
      refine h other ?_
      rintro rfl
      exact hname (List.mem_singleton_self _)
  | operation pos op lhs rhs ihl ihr =>
      rw [Expr.names, List.mem_append, not_or] at hname
      rw [Expr.value?, Expr.value?, ihl hname.1, ihr hname.2]

end AgreeOff

end Meaning

section Meaning

open Meaning

variable {name : String} {env env' : Env}

/-- What is left of a list of items stands for the same declarations, if the
name is not read. -/
theorem PrunesItems.ofItems_eq
    {items items' : List Item} (h : PrunesItems name items items')
    (hname : name ∉ namesOfItems items) (hagree : AgreeOff name env env') :
    ofItems env' items' = ofItems env items := by
  induction h generalizing env env' with
  | nil => rfl
  | @drop pos expr items items' _ ih =>
      rw [namesOfItems, Item.names, List.mem_append, not_or] at hname
      exact ih hname.2 (hagree.bind_left _)
  | @declaration pos property expr items items' _ ih =>
      rw [namesOfItems, Item.names, List.mem_append, not_or] at hname
      rw [ofItems, ofItems, ofItem, ofItem, hagree.value?_eq hname.1]
      exact congrArg _ (ih hname.2 hagree)
  | @assignment pos other expr items items' _ ih =>
      rw [namesOfItems, Item.names, List.mem_append, not_or] at hname
      rw [ofItems, ofItems, ofItem, ofItem, afterItem, afterItem,
        hagree.value?_eq hname.1]
      exact ih hname.2 (hagree.bind other _)
  | @ifThen pos guard body body' items items' _ _ ihbody ih =>
      simp only [namesOfItems, Item.names, List.mem_append, not_or] at hname
      rw [ofItems, ofItems, ofItem, ofItem, hagree.value?_eq hname.1.1,
        ihbody hname.1.2 hagree]
      exact congrArg _ (ih hname.2 hagree)
  | @ifElse pos elsePos guard body body' otherwise otherwise' items items' _ _ _
      ihbody ihelse ih =>
      simp only [namesOfItems, Item.names, List.mem_append, not_or] at hname
      rw [ofItems, ofItems, ofItem, ofItem, hagree.value?_eq hname.1.1.1,
        ihbody hname.1.1.2 hagree, ihelse hname.1.2 hagree]
      exact congrArg _ (ih hname.2 hagree)

/-- What is left of a sheet stands for the same rules, if the name is not
read. -/
theorem Prunes.ofStatements_eq
    {sheet sheet' : Sheet} (h : Prunes name sheet sheet')
    (hname : name ∉ namesOf sheet) (hagree : AgreeOff name env env') :
    ofStatements env' sheet' = ofStatements env sheet := by
  induction h generalizing env env' with
  | nil => rfl
  | @drop pos expr sheet sheet' _ ih =>
      rw [namesOf, List.flatMap_cons, List.mem_append, not_or] at hname
      exact ih hname.2 (hagree.bind_left _)
  | @assignment pos other expr sheet sheet' _ ih =>
      rw [namesOf, List.flatMap_cons, List.mem_append, not_or] at hname
      rw [ofStatements, ofStatements, hagree.value?_eq hname.1]
      exact ih hname.2 (hagree.bind other _)
  | @rule pos selectors body body' sheet sheet' hbody _ ih =>
      rw [namesOf, List.flatMap_cons, List.mem_append, not_or] at hname
      rw [ofStatements, ofStatements, hbody.ofItems_eq hname.1 hagree,
        ih hname.2 hagree]
  | ifThen _ ih | ifElse _ ih =>
      rw [namesOf, List.flatMap_cons, List.mem_append, not_or] at hname
      exact ih hname.2 hagree

end Meaning

/-! ## What the rest is compiled to -/

theorem lint_of_parse {source : List Char}
    (h : (parse source).diagnostics = []) :
    lint source = Lint.inSheet (sheetTree (parse source).sheet) := by
  simp only [lint, diagnostics_load, h, arena_load, Parsed.arena,
    rootTree_ofSheet]
  rfl

theorem diagnostics_check_eq_nil
    {sheet : Sheet} (h : Typing.atTop .empty (statementTrees 1 sheet) = []) :
    (Arena.ofSheet sheet).check.diagnostics = [] := by
  have hfound : Typing.inSheet (sheetTree sheet) = [] := h
  rw [diagnostics_check_statements, hfound, List.filterMap_eq_nil_iff]
  intro t _
  cases t <;> rfl

/-- Without assignments to a name that it does not read, a sheet that compiles
still compiles, and to the same CSS. -/
theorem outcome_of_prunes
    {source : List Char} (h : (compile source).diagnostics = []) {name : String}
    {sheet : Sheet} (hprunes : Prunes name (parse source).sheet sheet)
    (hname : name ∉ namesOf (parse source).sheet) :
    (⟨sheet, []⟩ : Parsed).outcome = ([], (compile source).css) := by
  obtain ⟨hcheck, hcomplete, hcss⟩ := compile_of_diagnostics_eq_nil h
  have hread : (⟨sheet, []⟩ : Parsed).diagnostics = [] := rfl
  have hfound : (⟨sheet, []⟩ : Parsed).arena.check.diagnostics = [] :=
    diagnostics_check_eq_nil
      (hprunes.atTop_eq_nil hname
        (fun _ _ => rfl) (atTop_eq_nil_of_check hcheck))
  have hrules : Meaning.ofSheet sheet = Meaning.ofSheet (parse source).sheet :=
    hprunes.ofStatements_eq hname fun _ _ => rfl
  rw [Parsed.outcome, if_neg (not_not.mpr hread), if_neg (not_not.mpr hfound),
    hrules, if_pos hcomplete, hcss]

end Stylesheet
