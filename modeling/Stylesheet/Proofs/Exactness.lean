import Stylesheet.Proofs.Checking
import Stylesheet.Proofs.Forms
import Stylesheet.Proofs.Scope
import Stylesheet.Proofs.Scoping
import Stylesheet.Proofs.Soundness

/-!
# Checking is exact

Checking carries the types of the variables along from item to item.  At every
place they are those that the items before the place give, so what checking
attaches to the nodes of a sheet is what is wrong with them by where they stand.
-/

namespace Stylesheet

namespace Scoping

open Typing

/-! ## Names -/

/-- The types of the variables in a list that opens at the place. -/
def scopeIn : Context → Scope Ty
  | [] => .empty
  | before :: outer => (before.foldl afterItem (scopeIn outer)).push

/-- The types of the variables at the place. -/
def scopeAt : Context → Scope Ty
  | [] => .empty
  | before :: outer => before.foldl afterItem (scopeIn outer)

theorem lookup?_scopeIn (ctx : Context) (name : String) :
    (scopeIn ctx).lookup? name = (scopeAt ctx).lookup? name := by
  cases ctx <;> rfl

/-- An item binds at most one name, inside the innermost frame. -/
theorem pop?_afterItem {env outer : Scope Ty} (h : env.pop? = some outer)
    (item : Tree) : (afterItem env item).pop? = some outer := by
  unfold afterItem
  split
  · split
    · split
      · exact h
      · exact Scope.pop?_define h _ _
    · exact h
  · exact h

theorem pop?_foldl_afterItem {env outer : Scope Ty}
    (h : env.pop? = some outer) (items : List Tree) :
    (items.foldl afterItem env).pop? = some outer := by
  induction items generalizing env with
  | nil => exact h
  | cons item items ih => exact ih (pop?_afterItem h item)

/-- Wherever in a list the frame that was opened for it is closed, the types
are again those at the item that holds the list. -/
theorem pop?_scopeAt (before around : List Tree) (outer : Context) :
    (scopeAt (before :: around :: outer)).pop? =
      some (scopeAt (around :: outer)) :=
  pop?_foldl_afterItem (Scope.pop?_push _) before

/-- No item before the place is an assignment to the empty name, which would be
passed over. -/
def Named (ctx : Context) : Prop :=
  ∀ before ∈ ctx, Unassigned "" before

theorem eq_of_variableName?
    {t : Tree} {name : String} (h : t.variableName? = some name) :
    ∃ label, t = .node label (.reference name) := by
  unfold Tree.variableName? at h
  split at h
  · next label _ =>
      obtain rfl := Option.some.inj h
      exact ⟨label, rfl⟩
  · cases h

section Names

variable {name : String} {expr item : Tree} {items : List Tree}
  {ctx source : Context}

theorem lookup?_afterItem_of_not_assigns
    (h : ∀ expr, ¬ Assigns name expr item) (env : Scope Ty) :
    (afterItem env item).lookup? name = env.lookup? name := by
  unfold afterItem
  split
  · next label target expr =>
      split
      · next other hother =>
          obtain ⟨targetLabel, rfl⟩ := eq_of_variableName? hother
          split
          · rfl
          · rw [Scope.lookup?_define, if_neg]
            rintro rfl
            exact h expr .intro
      · rfl
  · rfl

theorem lookup?_afterItem
    (h : Assigns name expr item) (hname : name ≠ "") (env : Scope Ty) :
    (afterItem env item).lookup? name = some (typeOf env expr) := by
  obtain ⟨⟩ := h
  rw [afterItem, Tree.variableName?]
  simp only [if_neg hname]
  rw [Scope.lookup?_define, if_pos rfl]

theorem lookup?_foldl_of_unassigned (h : Unassigned name items)
    (env : Scope Ty) :
    (items.foldl afterItem env).lookup? name = env.lookup? name := by
  induction items generalizing env with
  | nil => rfl
  | cons item items ih =>
      obtain ⟨hfirst, hrest⟩ := List.forall_mem_cons.mp h
      rw [List.foldl_cons, ih hrest, lookup?_afterItem_of_not_assigns hfirst]

theorem lookup?_scopeAt_of_unassigned
    (h : ∀ before ∈ ctx, Unassigned name before) :
    (scopeAt ctx).lookup? name = none := by
  induction ctx with
  | nil => rfl
  | cons before outer ih =>
      obtain ⟨hfirst, hrest⟩ := List.forall_mem_cons.mp h
      rw [scopeAt, lookup?_foldl_of_unassigned hfirst, lookup?_scopeIn,
        ih hrest]

/-- A name has the type of the expression that it stands for. -/
theorem Resolves.lookup?_scopeAt (h : Resolves name ctx source expr)
    (hctx : Named ctx) :
    (scopeAt ctx).lookup? name = some (typeOf (scopeAt source) expr) := by
  induction h with
  | @here before after item expr outer hitem hafter =>
      have hname : name ≠ "" := by
        rintro rfl
        exact hctx _ List.mem_cons_self item (by simp) expr hitem
      rw [scopeAt, List.foldl_append, List.foldl_cons,
        lookup?_foldl_of_unassigned hafter, lookup?_afterItem hitem hname]
      rfl
  | outside hbefore h ih =>
      rw [scopeAt, lookup?_foldl_of_unassigned hbefore, lookup?_scopeIn]
      exact ih (List.forall_mem_cons.mp hctx).2

theorem exists_last_assignment (h : ¬ Unassigned name items) :
    ∃ before item after expr, items = before ++ item :: after ∧
      Assigns name expr item ∧
      Unassigned name after := by
  induction items with
  | nil => exact absurd (List.forall_mem_nil _) h
  | cons first items ih =>
      by_cases hrest : Unassigned name items
      · have hfirst : ∃ expr, Assigns name expr first := by
          by_contra hnone
          exact h (List.forall_mem_cons.mpr ⟨not_exists.mp hnone, hrest⟩)
        obtain ⟨expr, hfirst⟩ := hfirst
        exact ⟨[], first, items, expr, rfl, hfirst, hrest⟩
      · obtain ⟨before, item, after, expr, rfl, hitem, hafter⟩ := ih hrest
        exact ⟨first :: before, item, after, expr, rfl, hitem, hafter⟩

theorem resolves_or_unassigned (name : String) (ctx : Context) :
    (∃ source expr, Resolves name ctx source expr) ∨
      ∀ before ∈ ctx, Unassigned name before := by
  induction ctx with
  | nil => exact .inr (List.forall_mem_nil _)
  | cons before outer ih =>
      by_cases hbefore : Unassigned name before
      · rcases ih with ⟨source, expr, h⟩ | hnone
        · exact .inl ⟨source, expr, .outside hbefore h⟩
        · exact .inr (List.forall_mem_cons.mpr ⟨hbefore, hnone⟩)
      · obtain ⟨before, item, after, expr, rfl, hitem, hafter⟩ :=
          exists_last_assignment hbefore
        exact .inl ⟨before :: outer, expr, .here hitem hafter⟩

theorem lookup?_scopeAt_eq_none_iff (hctx : Named ctx) :
    (scopeAt ctx).lookup? name = none ↔
      ∀ before ∈ ctx, Unassigned name before := by
  constructor
  · intro hnone
    rcases resolves_or_unassigned name ctx with ⟨source, expr, h⟩ | h
    · rw [h.lookup?_scopeAt hctx] at hnone
      cases hnone
    · exact h
  · exact lookup?_scopeAt_of_unassigned

theorem Resolves.named (h : Resolves name ctx source expr) (hctx : Named ctx) :
    Named source := by
  induction h with
  | here hitem hafter =>
      obtain ⟨hfirst, hrest⟩ := List.forall_mem_cons.mp hctx
      exact List.forall_mem_cons.mpr
        ⟨(List.forall_mem_append.mp hfirst).1, hrest⟩
  | outside hbefore h ih => exact ih (List.forall_mem_cons.mp hctx).2

/-- Fewer items stand before an assignment than before a place that sees it. -/
theorem Resolves.length_lt (h : Resolves name ctx source expr) :
    source.flatten.length < ctx.flatten.length := by
  induction h with
  | here hitem hafter =>
      simp only [List.flatten_cons, List.length_append, List.length_cons]
      omega
  | outside hbefore h ih =>
      rw [List.flatten_cons, List.length_append]
      omega

end Names

/-! ## Types -/

section Types

variable {ctx : Context} {lhs rhs expr : Tree} {kind : LiteralKind}

theorem HasType.typeOf_eq (h : HasType ctx expr kind) (hctx : Named ctx) :
    typeOf (scopeAt ctx) expr = some kind := by
  induction h with
  | literal => rfl
  | reference hname hexpr ih =>
      rw [typeOf, hname.lookup?_scopeAt hctx, Option.join_some,
        ih (hname.named hctx)]
  | sum hl hr ihl ihr =>
      rw [typeOf, ihl hctx, ihr hctx, Operator.type, if_pos rfl]
  | difference hl hr ihl ihr =>
      rw [typeOf, ihl hctx, ihr hctx, Operator.type, if_pos rfl]
  | scalarTimes hl hr hkind ihl ihr =>
      rw [typeOf, ihl hctx, ihr hctx]
      rcases hkind with rfl | rfl <;> rfl
  | timesScalar hl hr hkind ihl ihr =>
      rw [typeOf, ihl hctx, ihr hctx]
      rcases hkind with rfl | rfl <;> rfl

theorem hasType_operation
    {label : Label} {op : Operator} {env : Scope Ty}
    (hl : ∀ kind, typeOf env lhs = some kind → HasType ctx lhs kind)
    (hr : ∀ kind, typeOf env rhs = some kind → HasType ctx rhs kind)
    (h : typeOf env (.node label (.operation op lhs rhs)) = some kind) :
    HasType ctx (.node label (.operation op lhs rhs)) kind := by
  rw [typeOf] at h
  have hne : op.type (typeOf env lhs) (typeOf env rhs) ≠ none := by
    rw [h]
    exact Option.some_ne_none kind
  obtain ⟨hlne, hrne⟩ := Operator.ne_none_of_type_ne_none hne
  obtain ⟨left, hleft⟩ := Option.ne_none_iff_exists'.mp hlne
  obtain ⟨right, hright⟩ := Option.ne_none_iff_exists'.mp hrne
  have hlhs := hl left hleft
  have hrhs := hr right hright
  rw [hleft, hright] at h
  cases op with
  | add =>
      by_cases heq : left = right
      · subst heq
        obtain rfl : left = kind := by simpa [Operator.type] using h
        exact .sum hlhs hrhs
      · simp [Operator.type, heq] at h
  | subtract =>
      by_cases heq : left = right
      · subst heq
        obtain rfl : left = kind := by simpa [Operator.type] using h
        exact .difference hlhs hrhs
      · simp [Operator.type, heq] at h
  | multiply =>
      cases left <;> cases right <;> cases h
      · exact .timesScalar hlhs hrhs (.inr rfl)
      · exact .scalarTimes hlhs hrhs (.inr rfl)
      · exact .scalarTimes hlhs hrhs (.inl rfl)

theorem hasType_of_typeOf
    (hctx : Named ctx) (h : typeOf (scopeAt ctx) expr = some kind) :
    HasType ctx expr kind := by
  -- A name leads to an expression with fewer items before it, an operation to
  -- its operands.
  induction hn : ctx.flatten.length using
    Nat.strong_induction_on generalizing ctx expr kind with
  | h n ih =>
      induction expr using Tree.induction_on generalizing kind with
      | hmissing => cases h
      | hnode label c ihparts =>
          cases c with
          | literal value =>
              obtain rfl : value.kind = kind := Option.some.inj h
              exact .literal
          | reference name =>
              rcases resolves_or_unassigned name ctx with
                ⟨source, expr, hname⟩ | hnone
              · rw [typeOf, hname.lookup?_scopeAt hctx, Option.join_some] at h
                have hlt := hname.length_lt
                exact .reference hname
                  (ih _ (hn ▸ hlt) (hname.named hctx) h rfl)
              · rw [typeOf, lookup?_scopeAt_of_unassigned hnone] at h
                cases h
          | operation op lhs rhs =>
              exact hasType_operation
                (fun _ hl => ihparts lhs (by simp [Content.toList]) hl)
                (fun _ hr => ihparts rhs (by simp [Content.toList]) hr) h
          | _ => cases h

theorem typeOf_scopeAt_eq_some_iff (hctx : Named ctx) :
    typeOf (scopeAt ctx) expr = some kind ↔ HasType ctx expr kind :=
  ⟨hasType_of_typeOf hctx, fun h => h.typeOf_eq hctx⟩

theorem typeOf_scopeAt_eq_none_iff (hctx : Named ctx) :
    typeOf (scopeAt ctx) expr = none ↔ ∀ kind, ¬ HasType ctx expr kind := by
  simp only [Option.eq_none_iff_forall_ne_some, ne_eq,
    typeOf_scopeAt_eq_some_iff hctx]

end Types

/-! ## Expressions -/

/-- Something of the given kind is found about the node with the given
number. -/
def Reported (findings : List Finding) (id : NodeId)
    (kind : DiagnosticKind) : Prop :=
  ∃ f ∈ findings, f.id = id ∧ f.fault.kind = kind

section Reported

variable {id : NodeId} {kind : DiagnosticKind}

theorem not_reported_nil : ¬ Reported [] id kind := by
  rintro ⟨f, hf, -⟩
  cases hf

theorem reported_append {first second : List Finding} :
    Reported (first ++ second) id kind ↔
      Reported first id kind ∨ Reported second id kind := by
  simp only [Reported, List.mem_append, or_and_right, exists_or]

theorem reported_findingOn {label : Label} {fault? : Option Fault} :
    Reported (findingOn label fault?) id kind ↔
      id = label.id ∧ fault?.map Fault.kind = some kind := by
  cases fault? with
  | none => simp [Reported, findingOn]
  | some fault => simp [Reported, findingOn, eq_comm]

end Reported

section Exprs

variable {ctx : Context} {lhs rhs expr : Tree} {label : Label} {id : NodeId}
variable {kind : DiagnosticKind}

theorem faultyExpr_literal_iff {value : Literal} :
    FaultyExpr ctx (.node label (.literal value)) id kind ↔ False := by
  constructor
  · intro h
    cases h with
    | undefined hmem hnone => simp [Content.toList] at hmem
    | pixelProduct hmem hl hr => simp [Content.toList] at hmem
  · exact False.elim

theorem faultyExpr_reference_iff {name : String} :
    FaultyExpr ctx (.node label (.reference name)) id kind ↔
      (id = label.id ∧ kind = .undefinedVariable) ∧
        ∀ before ∈ ctx, Unassigned name before := by
  constructor
  · intro h
    cases h with
    | undefined hmem hnone =>
        simp only [Tree.subtrees_node, Content.toList, List.flatMap_nil,
          List.mem_singleton, Tree.node.injEq, Content.reference.injEq] at hmem
        obtain ⟨rfl, rfl⟩ := hmem
        exact ⟨⟨rfl, rfl⟩, hnone⟩
    | pixelProduct hmem hl hr => simp [Content.toList] at hmem
  · rintro ⟨⟨rfl, rfl⟩, hnone⟩
    exact .undefined (Tree.self_mem_subtrees _ _) hnone

theorem FaultyExpr.mono
    (h : FaultyExpr ctx expr id kind) {whole : Tree}
    (hsub : expr.subtrees ⊆ whole.subtrees) :
    FaultyExpr ctx whole id kind := by
  cases h with
  | undefined hmem hnone => exact .undefined (hsub hmem) hnone
  | pixelProduct hmem hl hr => exact .pixelProduct (hsub hmem) hl hr

theorem faultyExpr_operation_iff {op : Operator} :
    FaultyExpr ctx (.node label (.operation op lhs rhs)) id kind ↔
      (FaultyExpr ctx lhs id kind ∨ FaultyExpr ctx rhs id kind) ∨
        (id = label.id ∧ kind = .illegalOperandCombination) ∧
          op = .multiply ∧ HasType ctx lhs .pixel ∧ HasType ctx rhs .pixel := by
  have hsubtrees : ∀ t, t ∈ (Tree.node label (.operation op lhs rhs)).subtrees ↔
      t = .node label (.operation op lhs rhs) ∨ t ∈ lhs.subtrees ∨
        t ∈ rhs.subtrees := by
    simp [Content.toList]
  constructor
  · intro h
    cases h with
    | undefined hmem hnone =>
        rcases (hsubtrees _).mp hmem with heq | hmem | hmem
        · cases heq
        · exact .inl (.inl (.undefined hmem hnone))
        · exact .inl (.inr (.undefined hmem hnone))
    | pixelProduct hmem hl hr =>
        rcases (hsubtrees _).mp hmem with heq | hmem | hmem
        · cases heq
          exact .inr ⟨⟨rfl, rfl⟩, rfl, hl, hr⟩
        · exact .inl (.inl (.pixelProduct hmem hl hr))
        · exact .inl (.inr (.pixelProduct hmem hl hr))
  · rintro ((h | h) | ⟨⟨rfl, rfl⟩, rfl, hl, hr⟩)
    · exact h.mono fun t ht => (hsubtrees t).mpr (.inr (.inl ht))
    · exact h.mono fun t ht => (hsubtrees t).mpr (.inr (.inr ht))
    · exact .pixelProduct (Tree.self_mem_subtrees _ _) hl hr

theorem isPixelProduct_scopeAt_iff (hctx : Named ctx) {op : Operator} :
    isPixelProduct (scopeAt ctx) op lhs rhs = true ↔
      op = .multiply ∧ HasType ctx lhs .pixel ∧ HasType ctx rhs .pixel := by
  rw [isPixelProduct, Bool.and_eq_true, Bool.and_eq_true, decide_eq_true_iff,
    decide_eq_true_iff, decide_eq_true_iff, typeOf_scopeAt_eq_some_iff hctx,
    typeOf_scopeAt_eq_some_iff hctx, and_assoc]

/-- What is found in an expression is what is wrong in it. -/
theorem reported_inExpr_iff (hctx : Named ctx)
    (hexpr : Canonical.ExprTree expr) :
    Reported (inExpr (scopeAt ctx) expr) id kind ↔
      FaultyExpr ctx expr id kind := by
  induction hexpr with
  | literal h =>
      exact (iff_false_left not_reported_nil).mpr faultyExpr_literal_iff.mp
  | @reference label name hname htruth =>
      rw [faultyExpr_reference_iff, ← lookup?_scopeAt_eq_none_iff hctx, inExpr]
      cases (scopeAt ctx).lookup? name with
      | none => simp [Reported, Fault.kind, eq_comm]
      | some ty => simp [Reported]
  | @operation label op lhs rhs hl hr hgrouped ihl ihr =>
      rw [faultyExpr_operation_iff, ← ihl, ← ihr,
        ← isPixelProduct_scopeAt_iff hctx, inExpr, reported_append,
        reported_append]
      cases isPixelProduct (scopeAt ctx) op lhs rhs with
      | false => simp [Reported]
      | true => simp [Reported, Fault.kind, eq_comm]

end Exprs

/-! ## Items -/

section Properties

variable {property : String}

theorem find?_eq_none_iff :
    PropertyRule.find? property = none ↔ ¬ Allowed property := by
  unfold PropertyRule.find? Allowed
  split <;> simp_all

theorem mem_accepted_iff
    {rule : PropertyRule} (h : PropertyRule.find? property = some rule)
    {kind : LiteralKind} :
    kind ∈ rule.accepted ↔ Takes property kind := by
  rw [Takes]
  rcases find?_eq_some h with ⟨hname, rfl⟩ | ⟨hname, rfl⟩
  · have hsize : Text.lowercase property ∉ ["width", "height"] := by
      rcases List.mem_pair.mp hname with heq | heq <;> rw [heq] <;> decide
    simp [hname, hsize, PropertyRule.ofColor]
  · have hcolor : Text.lowercase property ∉ ["color", "background-color"] := by
      rcases List.mem_pair.mp hname with heq | heq <;> rw [heq] <;> decide
    simp [hname, hcolor, PropertyRule.ofSize]

theorem kind_declarationFault?_iff {ty : Ty} {kind : DiagnosticKind} :
    (declarationFault? property ty).map Fault.kind = some kind ↔
      (kind = .typeMismatch ∧ ty = none) ∨
        ∃ found, ty = some found ∧
          ((kind = .typeMismatch ∧ Allowed property ∧ ¬ Takes property found) ∨
            (kind = .disallowedProperty ∧ ¬ Allowed property)) := by
  cases ty with
  | none => simp [declarationFault?, Fault.kind, eq_comm]
  | some found =>
      rw [declarationFault?]
      cases hrule : PropertyRule.find? property with
      | none =>
          have hallowed := find?_eq_none_iff.mp hrule
          simp [hallowed, Fault.kind, eq_comm]
      | some rule =>
          have hallowed : Allowed property := by
            by_contra hnot
            rw [find?_eq_none_iff.mpr hnot] at hrule
            cases hrule
          by_cases hkind : found ∈ rule.accepted
          · have htakes := (mem_accepted_iff hrule).mp hkind
            simp [hkind, hallowed, htakes]
          · have htakes := mt (mem_accepted_iff hrule).mpr hkind
            simp [hkind, hallowed, htakes, Fault.kind, eq_comm]

end Properties

/-- What is found on an item and in its expression. -/
def onItem (env : Scope Ty) : Tree → List Finding
  | .node label (.ifClause guard _ _) =>
      inExpr env guard ++ findingOn label
        (if typeOf env guard = some .bool then none
          else some (.guardNotBool (typeOf env guard)))
  | .node label (.assignment target expr) =>
      inItem env (.node label (.assignment target expr))
  | .node label (.declaration property expr) =>
      inItem env (.node label (.declaration property expr))
  | _ => []

section Items

variable {ctx : Context} {expr : Tree} {label : Label} {id : NodeId}
  {kind : DiagnosticKind}

theorem faultyItem_assignment_iff {target : Tree} :
    FaultyItem ctx (.node label (.assignment target expr)) id kind ↔
      FaultyExpr ctx expr id kind ∨
        id = label.id ∧ kind = .typeMismatch ∧
          ∀ kind, ¬ HasType ctx expr kind := by
  constructor
  · intro h
    cases h with
    | expression hexpr h =>
        obtain ⟨⟩ := hexpr
        exact .inl h
    | untypedAssignment hnone => exact .inr ⟨rfl, rfl, hnone⟩
  · rintro (h | ⟨rfl, rfl, hnone⟩)
    · exact .expression .assignment h
    · exact .untypedAssignment hnone

theorem faultyItem_declaration_iff {nameLabel : Label} {property : String} :
    FaultyItem ctx
      (.node label (.declaration
        (.node nameLabel (.propertyName property)) expr))
        id kind ↔
      FaultyExpr ctx expr id kind ∨ id = label.id ∧
        ((kind = .typeMismatch ∧ ∀ kind, ¬ HasType ctx expr kind) ∨
          ∃ found, HasType ctx expr found ∧
            ((kind = .typeMismatch ∧ Allowed property ∧
              ¬ Takes property found) ∨
              (kind = .disallowedProperty ∧ ¬ Allowed property))) := by
  constructor
  · intro h
    cases h with
    | expression hexpr h =>
        obtain ⟨⟩ := hexpr
        exact .inl h
    | untypedDeclaration hnone => exact .inr ⟨rfl, .inl ⟨rfl, hnone⟩⟩
    | wrongType hexpr hproperty hkind =>
        exact .inr ⟨rfl, .inr ⟨_, hexpr, .inl ⟨rfl, hproperty, hkind⟩⟩⟩
    | disallowed hexpr hproperty =>
        exact .inr ⟨rfl, .inr ⟨_, hexpr, .inr ⟨rfl, hproperty⟩⟩⟩
  · rintro (h | ⟨rfl,
      ⟨rfl, hnone⟩ | ⟨found, hexpr,
        ⟨rfl, hproperty, hkind⟩ | ⟨rfl, hproperty⟩⟩⟩)
    · exact .expression .declaration h
    · exact .untypedDeclaration hnone
    · exact .wrongType hexpr hproperty hkind
    · exact .disallowed hexpr hproperty

theorem faultyItem_ifClause_iff {body : List Tree} {otherwise : Tree} :
    FaultyItem ctx (.node label (.ifClause expr body otherwise)) id kind ↔
      FaultyExpr ctx expr id kind ∨
        id = label.id ∧ kind = .typeMismatch ∧ ¬ HasType ctx expr .bool := by
  constructor
  · intro h
    cases h with
    | expression hexpr h =>
        obtain ⟨⟩ := hexpr
        exact .inl h
    | guardNotBool hguard => exact .inr ⟨rfl, rfl, hguard⟩
  · rintro (h | ⟨rfl, rfl, hguard⟩)
    · exact .expression .guard h
    · exact .guardNotBool hguard

theorem reported_guard_iff
    (hctx : Named ctx) (hguard : Canonical.ExprTree expr) {body : List Tree}
    {otherwise : Tree} :
    Reported (onItem (scopeAt ctx)
      (.node label (.ifClause expr body otherwise))) id kind ↔
      FaultyItem ctx (.node label (.ifClause expr body otherwise)) id kind := by
  rw [faultyItem_ifClause_iff, onItem, reported_append,
    reported_inExpr_iff hctx hguard, reported_findingOn,
    ← typeOf_scopeAt_eq_some_iff hctx]
  by_cases hbool : typeOf (scopeAt ctx) expr = some .bool
  · simp [hbool]
  · simp [hbool, Fault.kind, eq_comm]

/-- What is found on an item and in its expression is what is wrong there. -/
theorem reported_onItem_iff
    (hctx : Named ctx) {item : Tree} (hitem : Canonical.ItemTree item) :
    Reported (onItem (scopeAt ctx) item) id kind ↔
      FaultyItem ctx item id kind := by
  cases hitem with
  | @declaration label nameLabel property expr hname hexpr =>
      rw [faultyItem_declaration_iff, onItem, inItem, reported_append,
        reported_inExpr_iff hctx hexpr, reported_findingOn,
        kind_declarationFault?_iff, typeOf_scopeAt_eq_none_iff hctx]
      simp only [typeOf_scopeAt_eq_some_iff hctx, Tree.propertyName?,
        Option.getD_some]
  | @assignment label nameLabel name expr hname hexpr =>
      rw [faultyItem_assignment_iff, onItem, inItem, reported_append,
        reported_inExpr_iff hctx hexpr, reported_findingOn,
        ← typeOf_scopeAt_eq_none_iff hctx]
      by_cases hnone : typeOf (scopeAt ctx) expr = none
      · simp [hnone, Fault.kind, eq_comm]
      · simp [hnone]
  | ifThen hguard hbody => exact reported_guard_iff hctx hguard
  | ifElse hguard hbody hotherwise => exact reported_guard_iff hctx hguard

end Items

/-! ## The walk over a sheet -/

/-- A walk along a list finds on each item what it finds with the items before
it read. -/
theorem mem_walk_iff
    {walk : Scope Ty → List Tree → List Finding}
    {on : Scope Ty → Tree → List Finding} (hnil : ∀ env, walk env [] = [])
    (hcons : ∀ env t ts, walk env (t :: ts) = on env t
      ++ walk (afterItem env t) ts)
    {env : Scope Ty} {ts : List Tree} {f : Finding} :
    f ∈ walk env ts ↔ ∃ before item after, ts = before ++ item :: after ∧
      f ∈ on (before.foldl afterItem env) item := by
  induction ts generalizing env with
  | nil => simp [hnil]
  | cons t ts ih =>
      rw [hcons, List.mem_append, ih]
      constructor
      · rintro (h | ⟨before, item, after, rfl, h⟩)
        · exact ⟨[], t, ts, rfl, h⟩
        · exact ⟨t :: before, item, after, rfl, h⟩
      · rintro ⟨before, item, after, heq, h⟩
        rcases List.append_eq_cons_iff.mp heq.symm with
          ⟨rfl, hhead⟩ | ⟨before', rfl, hrest⟩
        · obtain ⟨rfl, rfl⟩ := List.cons.inj hhead
          exact .inl h
        · exact .inr ⟨before', item, after, hrest, h⟩

section Walks

variable {env : Scope Ty} {ts : List Tree} {f : Finding}

theorem mem_inBody_iff :
    f ∈ inBody env ts ↔ ∃ before item after, ts = before ++ item :: after ∧
      f ∈ inItem (before.foldl afterItem env) item :=
  mem_walk_iff (fun _ => by rw [inBody]) (fun _ _ _ => by rw [inBody])

theorem mem_atTop_iff :
    f ∈ atTop env ts ↔ ∃ before item after, ts = before ++ item :: after ∧
      f ∈ inTopItem (before.foldl afterItem env) item :=
  mem_walk_iff (fun _ => by rw [atTop]) atTop_cons

end Walks

section Stands

variable {items : List Tree} {ctx : Context} {item : Tree} {f : Finding}

theorem inTopItem_of_not_isConditional (h : ¬ IsConditional item)
    (env : Scope Ty) :
    inTopItem env item = inItem env item := by
  unfold inTopItem
  split
  · exact absurd trivial h
  · rfl

theorem onItem_subset_inItem (env : Scope Ty) (item : Tree) :
    onItem env item ⊆ inItem env item := by
  unfold onItem
  split
  · rw [inItem, List.append_assoc _ _ (inElse _ _)]
    exact List.subset_append_left _ _
  · exact List.Subset.refl _
  · exact List.Subset.refl _
  · exact List.nil_subset _

/-- The items of a list inside a standing item see the items before it and those
around it. -/
theorem Stands.mem_inBody_iff (h : Stands items ctx item) {body : List Tree} :
    f ∈ inBody (scopeAt ctx).push body ↔
      ∃ before inner after, body = before ++ inner :: after ∧
      f ∈ inItem (scopeAt (before :: ctx)) inner := by
  have hscope : (scopeAt ctx).push = scopeIn ctx := by cases h <;> rfl
  rw [hscope]
  exact Scoping.mem_inBody_iff

/-- What is found in an item that stands in a sheet is found in the sheet. -/
theorem Stands.inItem_subset (h : Stands items ctx item) :
    inItem (scopeAt ctx) item ⊆ atTop .empty items := by
  induction h with
  | @top before after item heq hplace =>
      intro f hf
      rw [mem_atTop_iff]
      refine ⟨before, item, after, heq, ?_⟩
      rwa [inTopItem_of_not_isConditional hplace]
  | @inRule ctx label selectors before after item h ih =>
      intro f hf
      apply ih
      rw [inItem, h.mem_inBody_iff]
      exact ⟨before, item, after, rfl, hf⟩
  | @inBranch ctx label guard otherwise item before after h ih =>
      intro f hf
      have hbody : f ∈ inBody (scopeAt ctx).push (before ++ item :: after) :=
        h.mem_inBody_iff.mpr ⟨before, item, after, rfl, hf⟩
      apply ih
      rw [inItem]
      exact List.mem_append_left _ (List.mem_append_right _ hbody)
  | @inAlternative ctx label elseLabel guard item body before after h ih =>
      intro f hf
      have hbody : f ∈ inBody (scopeAt ctx).push (before ++ item :: after) :=
        h.mem_inBody_iff.mpr ⟨before, item, after, rfl, hf⟩
      apply ih
      rw [inItem, inElse]
      exact List.mem_append_right _ hbody

/-- The finding is on an item that stands in the sheet, or in its expression. -/
def FoundOn (items : List Tree) (f : Finding) : Prop :=
  ∃ ctx item, Stands items ctx item ∧ f ∈ onItem (scopeAt ctx) item

theorem foundOn_of_mem_inItem_or_inElse (t : Tree) :
    (∀ {ctx : Context}, Stands items ctx t → f ∈ inItem (scopeAt ctx) t →
      FoundOn items f) ∧
      ∀ {ctx : Context} {label : Label} {guard : Tree} {body : List Tree},
        Stands items ctx (.node label (.ifClause guard body t)) →
          f ∈ inElse (scopeAt ctx) t →
          FoundOn items f := by
  induction t using Tree.induction_on with
  | hmissing =>
      refine ⟨fun _ hf => ?_, fun _ hf => ?_⟩
      · cases hf
      · cases hf
  | hnode label c ih =>
      -- Only an alternative shows anything when it is read as one.
      refine ⟨fun {ctx} h hf => ?_, fun {ctx _ _ _} h hf => ?_⟩
      · cases c with
        | assignment target expr => exact ⟨ctx, _, h, hf⟩
        | declaration property expr => exact ⟨ctx, _, h, hf⟩
        | stylerule selectors body =>
            rw [inItem] at hf
            obtain ⟨before, inner, after, rfl, hinner⟩ := h.mem_inBody_iff.mp hf
            exact (ih inner (by simp [Content.toList])).1 h.inRule hinner
        | ifClause guard body otherwise =>
            rw [inItem, List.mem_append, List.mem_append] at hf
            rcases hf with (hf | hf) | hf
            · exact ⟨ctx, _, h, hf⟩
            · obtain ⟨before, inner, after, rfl, hinner⟩ :=
                h.mem_inBody_iff.mp hf
              exact (ih inner (by simp [Content.toList])).1 h.inBranch hinner
            · exact (ih otherwise (by simp [Content.toList])).2 h hf
        | _ => cases hf
      · cases c with
        | elseClause body =>
            rw [inElse] at hf
            obtain ⟨before, inner, after, rfl, hinner⟩ := h.mem_inBody_iff.mp hf
            exact (ih inner (by simp [Content.toList])).1 h.inAlternative hinner
        | _ => cases hf

/-- What is found in a sheet: the conditionals at top level, and what is found
on the items that stand in it. -/
theorem mem_atTop_empty_iff :
    f ∈ atTop .empty items ↔
      (∃ label guard body otherwise,
        .node label (.ifClause guard body otherwise) ∈ items ∧
        f = ⟨label.id, .misplacedConditional⟩) ∨ FoundOn items f := by
  constructor
  · intro hf
    obtain ⟨before, item, after, heq, hmem⟩ := mem_atTop_iff.mp hf
    by_cases hplace : IsConditional item
    · unfold IsConditional at hplace
      split at hplace
      · next label guard body otherwise =>
          rw [inTopItem, List.mem_singleton] at hmem
          exact .inl ⟨label, guard, body, otherwise, by simp [heq], hmem⟩
      · cases hplace
    · rw [inTopItem_of_not_isConditional hplace] at hmem
      exact .inr ((foundOn_of_mem_inItem_or_inElse item).1
        (.top heq hplace) hmem)
  · rintro (⟨label, guard, body, otherwise, hmem, rfl⟩ | ⟨ctx, item, hitem, hf⟩)
    · obtain ⟨before, after, rfl⟩ := List.append_of_mem hmem
      exact mem_atTop_iff.mpr ⟨before, _, after, rfl, List.mem_singleton_self _⟩
    · exact hitem.inItem_subset (onItem_subset_inItem _ _ hf)

end Stands

/-! ## Sheets of the form that the grammar gives -/

/-- Items of the form that the grammar gives, whatever the selectors. -/
inductive Formed : Tree → Prop
  | item {t : Tree} (h : Canonical.ItemTree t) : Formed t
  | rule {label : Label} {selectors body : List Tree}
      (h : ∀ t ∈ body, Canonical.ItemTree t) :
      Formed (.node label (.stylerule selectors body))

theorem Formed.not_assigns_empty {t expr : Tree} (h : Formed t) :
    ¬ Assigns "" expr t := by
  rintro ⟨⟩
  cases h with
  | item h =>
      cases h with
      | assignment hname hexpr => exact hname.ne_empty rfl

section Formed

variable {items : List Tree} {ctx : Context} {item : Tree}

theorem unassigned_empty (h : ∀ t ∈ items, Formed t) : Unassigned "" items :=
  fun t ht _ => (h t ht).not_assigns_empty

theorem Named.inside
    {before after : List Tree} (hctx : Named ctx)
    (hbody : ∀ t ∈ before ++ item :: after, Canonical.ItemTree t) :
    Formed item ∧ Named (before :: ctx) := by
  obtain ⟨hbefore, hrest⟩ := List.forall_mem_append.mp hbody
  refine ⟨.item (List.forall_mem_cons.mp hrest).1,
    List.forall_mem_cons.mpr ⟨?_, hctx⟩⟩
  exact unassigned_empty fun t ht => .item (hbefore t ht)

theorem Stands.formed_and_named (h : Stands items ctx item)
    (hitems : ∀ t ∈ items, Formed t) :
    Formed item ∧ Named ctx := by
  induction h with
  | top heq hplace =>
      subst heq
      obtain ⟨hbefore, hrest⟩ := List.forall_mem_append.mp hitems
      exact ⟨(List.forall_mem_cons.mp hrest).1,
        List.forall_mem_singleton.mpr (unassigned_empty hbefore)⟩
  | inRule h ih =>
      obtain ⟨hform, hctx⟩ := ih
      cases hform with
      | item hform => cases hform
      | rule hbody => exact hctx.inside hbody
  | inBranch h ih =>
      obtain ⟨hform, hctx⟩ := ih
      cases hform with
      | item hform =>
          cases hform with
          | ifThen hguard hbody => exact hctx.inside hbody
          | ifElse hguard hbody hotherwise => exact hctx.inside hbody
  | inAlternative h ih =>
      obtain ⟨hform, hctx⟩ := ih
      cases hform with
      | item hform =>
          cases hform with
          | ifElse hguard hbody hotherwise => exact hctx.inside hotherwise

/-- What is found in a sheet is what is wrong in it. -/
theorem reported_atTop_iff
    (hitems : ∀ t ∈ items, Formed t) {id : NodeId} {kind : DiagnosticKind} :
    Reported (atTop .empty items) id kind ↔ Faulty items id kind := by
  constructor
  · rintro ⟨f, hf, rfl, rfl⟩
    rcases mem_atTop_empty_iff.mp hf with
      ⟨label, guard, body, otherwise, hmem, rfl⟩ | hfound
    · exact .misplaced hmem
    · obtain ⟨ctx, item, hitem, hon⟩ := hfound
      obtain ⟨hform, hctx⟩ := hitem.formed_and_named hitems
      cases hform with
      | item hform =>
          exact .item hitem
            ((reported_onItem_iff hctx hform).mp ⟨f, hon, rfl, rfl⟩)
      | rule hbody => cases hon
  · intro h
    cases h with
    | misplaced hmem =>
        exact ⟨_, mem_atTop_empty_iff.mpr (.inl ⟨_, _, _, _, hmem, rfl⟩),
          rfl, rfl⟩
    | item hitem h =>
        obtain ⟨hform, hctx⟩ := hitem.formed_and_named hitems
        cases hform with
        | item hform =>
            obtain ⟨f, hon, hid, hkind⟩ :=
              (reported_onItem_iff hctx hform).mpr h
            exact ⟨f, mem_atTop_empty_iff.mpr (.inr ⟨_, _, hitem, hon⟩),
              hid, hkind⟩
        | rule hbody =>
            cases h with
            | expression hexpr h => cases hexpr

end Formed

end Scoping

theorem Grammar.TopItem.formed
    {ts : List Token} {statement : Statement} (h : TopItem ts statement)
    (hts : Lexed ts) (n : Nat) : Scoping.Formed (statement.treeAt n) := by
  cases h with
  | assignment h =>
      exact .item (.assignment (h.exprTree hts).1 ((h.exprTree hts).2 _))
  | rule hselectors hbody => exact .rule (hbody.itemTrees hts.append.2 _)
  | @conditional _ _ branches h =>
      have htree := h.branchesTree hts n
      obtain ⟨guard, body, _ | ⟨elsePos, otherwise⟩⟩ := branches
      · exact .item (htree _)
      · exact .item (htree _)

theorem Grammar.WholeSheet.formed
    {ts : List Token} {sheet : Sheet} (h : WholeSheet ts sheet) (hts : Lexed ts)
    (n : Nat) :
    ∀ t ∈ Stylesheet.statementTrees n sheet, Scoping.Formed t := by
  induction h generalizing n with
  | nil => exact List.forall_mem_nil _
  | cons hstatement _ ih =>
      rw [Stylesheet.statementTrees, List.forall_mem_cons]
      exact ⟨hstatement.formed hts.append.1 n, ih hts.append.2 _⟩

/-! ## Annotated nodes -/

/-- No two findings in a sheet are about the same node. -/
theorem Typing.eq_of_mem_inSheet
    {sheet : Sheet} {f g : Finding} (hf : f ∈ inSheet (sheetTree sheet))
    (hg : g ∈ inSheet (sheetTree sheet)) (hid : f.id = g.id) : f = g := by
  have hsub := (ids_atTop_subperm .empty (statementTrees 1 sheet)).trans
    (ids_statementTrees_perm sheet 1).subperm
  obtain ⟨ids, hperm, hsublist⟩ := hsub
  have hnodup := hperm.nodup_iff.mp (hsublist.nodup (nodup_idRange _ _))
  exact List.inj_on_of_nodup_map hnodup hf hg hid

theorem Typing.find?_inSheet_eq_some_iff {sheet : Sheet} {id : NodeId}
    {f : Finding} :
    (inSheet (sheetTree sheet)).find? (·.id = id) = some f ↔
      f ∈ inSheet (sheetTree sheet) ∧ f.id = id := by
  constructor
  · intro hfind
    exact ⟨List.mem_of_find?_eq_some hfind,
      by simpa using List.find?_some hfind⟩
  · rintro ⟨hf, hid⟩
    have hsome : ((inSheet (sheetTree sheet)).find? (·.id = id)).isSome := by
      rw [List.find?_isSome]
      exact ⟨f, hf, by simpa using hid⟩
    obtain ⟨g, hfind⟩ := Option.isSome_iff_exists.mp hsome
    have hg : g.id = id := by simpa using List.find?_some hfind
    rw [hfind, eq_of_mem_inSheet (List.mem_of_find?_eq_some hfind) hf
      (hg.trans hid.symm)]

/-- After checking, a node carries a diagnostic of a kind exactly if something
of the kind was found about it. -/
theorem kind_diagnosticOf_check_iff
    {sheet : Sheet} {id : NodeId} {kind : DiagnosticKind} :
    ((Arena.ofSheet sheet).check.diagnosticOf id).map Diagnostic.kind =
      some kind ↔
      Scoping.Reported (Typing.inSheet (sheetTree sheet)) id kind := by
  by_cases hid : id ∈ (sheetTree sheet).ids
  · obtain ⟨t, ht, rfl⟩ := List.mem_map.mp hid
    cases t with
    | missing => exact absurd ht (Tree.missing_notMem_subtrees _)
    | node label c =>
        rw [Tree.rootId, diagnosticOf_check ht, Typing.reportOn, Tree.label?,
          Option.bind_some, Option.map_map, Option.map_eq_some_iff]
        simp only [Typing.find?_inSheet_eq_some_iff, and_assoc]
        rfl
  · rw [(stores_ofSheet sheet).check.diagnosticOf_eq_none_of_notMem hid,
      Option.map_none]
    refine iff_of_false (Option.some_ne_none kind).symm ?_
    rintro ⟨f, hf, rfl, -⟩
    obtain ⟨t, ht, hmem⟩ := Typing.exists_mem_ids_of_mem_atTop hf
    apply hid
    rw [sheetTree, Tree.plain, Tree.ids_node]
    exact List.mem_cons_of_mem _ (List.mem_flatMap.mpr ⟨t, ht, hmem⟩)

/-- After checking a sheet without syntax errors, a node carries a diagnostic of
a kind exactly if it is wrong in that way by where it stands. -/
theorem annotated_iff_faulty
    {source : List Char} (h : (parse source).diagnostics = []) (id : NodeId)
    (kind : DiagnosticKind) :
    ((parse source).arena.check.diagnosticOf id).map Diagnostic.kind =
      some kind ↔
      Scoping.Faulty (Scoping.itemsOf (parse source).arena.rootTree) id
        kind := by
  obtain ⟨ts, hlexed, hsheet⟩ := exists_lexed_of_parse h
  rw [Parsed.arena, kind_diagnosticOf_check_iff, rootTree_ofSheet]
  exact Scoping.reported_atTop_iff (hsheet.formed hlexed 1)

/-- A variable that is used before the assignment to it, and one that hides
another of its name. -/
theorem annotated_iff_faulty_shadowed :
    let source :=
      "A := A; A := 2px; p \x7b A := TRUE; if [A] \x7b width: A; \x7d \x7d".toList
    (parse source).diagnostics = [] ∧
      Scoping.Faulty (Scoping.itemsOf (parse source).arena.rootTree) 2
        .undefinedVariable ∧
      Scoping.Faulty (Scoping.itemsOf (parse source).arena.rootTree) 3
        .typeMismatch ∧
      Scoping.Faulty (Scoping.itemsOf (parse source).arena.rootTree) 14
        .typeMismatch ∧
      ¬ Scoping.Faulty (Scoping.itemsOf (parse source).arena.rootTree) 15
        .typeMismatch := by
  intro source
  have hparse : (parse source).diagnostics = [] := by decide +kernel
  refine ⟨hparse, ?_⟩
  simp only [← annotated_iff_faulty hparse]
  decide +kernel

end Stylesheet
