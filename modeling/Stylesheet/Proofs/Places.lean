import Stylesheet.Proofs.Lexing
import Stylesheet.Proofs.Outcome

/-!
# Places

Nothing but places depends on places.  Reading tokens that stand at other places
gives the same syntax and the same faults there, and what is found in a sheet,
what it stands for and how its compilation ends are all the same but for the
places in the reports.
-/

namespace Stylesheet

/-! ## Syntax at other places -/

section Moved

variable (g : Position → Position)

def Expr.moved : Expr → Expr
  | .literal pos value => .literal (g pos) value
  | .reference pos name => .reference (g pos) name
  | .operation pos op lhs rhs => .operation (g pos) op lhs.moved rhs.moved

def Selector.moved (s : Selector) : Selector :=
  { s with pos := g s.pos }

mutual

def Item.moved : Item → Item
  | .declaration pos property expr =>
      .declaration (g pos) property (expr.moved g)
  | .assignment pos name expr => .assignment (g pos) name (expr.moved g)
  | .ifThen pos guard body => .ifThen (g pos) (guard.moved g) (movedItems body)
  | .ifElse pos guard body elsePos otherwise =>
      .ifElse (g pos) (guard.moved g) (movedItems body) (g elsePos)
        (movedItems otherwise)

/-- The items of a body at other places. -/
def movedItems : List Item → List Item
  | [] => []
  | item :: items => item.moved :: movedItems items

end

def Statement.moved : Statement → Statement
  | .assignment pos name expr => .assignment (g pos) name (expr.moved g)
  | .rule pos selectors body =>
      .rule (g pos) (selectors.map (Selector.moved g)) (movedItems g body)
  | .ifThen pos guard body =>
      .ifThen (g pos) (guard.moved g) (movedItems g body)
  | .ifElse pos guard body elsePos otherwise =>
      .ifElse (g pos) (guard.moved g) (movedItems g body) (g elsePos)
        (movedItems g otherwise)

def SyntaxFault.moved : SyntaxFault → SyntaxFault
  | .expected kind t => .expected kind (t.moved g)
  | .expectedSelector t => .expectedSelector (t.moved g)
  | .strayAtTop t => .strayAtTop (t.moved g)
  | .strayInBody t => .strayInBody (t.moved g)
  | .strayInExpr t => .strayInExpr (t.moved g)
  | .invalidNumber t => .invalidNumber (t.moved g)

def Diagnostic.moved (d : Diagnostic) : Diagnostic :=
  { d with pos := g d.pos }

def Reading.Branches.moved (b : Reading.Branches) : Reading.Branches :=
  ⟨b.guard.moved g, movedItems g b.body,
    b.otherwise.map fun other => (g other.1, movedItems g other.2)⟩

/-- A reading at other places, given what that does to its value. -/
def Reading.moved {α : Type} (f : α → α) (r : Reading α) : Reading α :=
  ⟨f r.value, r.faults.map (SyntaxFault.moved g), r.rest.map (Token.moved g)⟩

@[simp] theorem Token.kind_moved (t : Token) : (t.moved g).kind = t.kind := rfl

@[simp] theorem Token.text_moved (t : Token) : (t.moved g).text = t.text := rfl

@[simp] theorem Token.pos_moved (t : Token) : (t.moved g).pos = g t.pos := rfl

theorem SyntaxFault.diagnostic_moved (fault : SyntaxFault) :
    (fault.moved g).diagnostic = fault.diagnostic.moved g := by
  cases fault <;> rfl

theorem movedItems_toList_append (item? : Option Item) (items : List Item) :
    movedItems g (item?.toList ++ items) =
      (item?.map (Item.moved g)).toList ++ movedItems g items := by
  cases item? <;> rfl

end Moved

/-! ## Reading tokens at other places -/

namespace Reading

variable {g : Position → Position}
  (hg : g Token.nowhere.pos = Token.nowhere.pos)

theorem item_moved (b : Branches) (pos : Position) :
    (b.moved g).item (g pos) = (b.item pos).moved g := by
  obtain ⟨guard, body, _ | ⟨elsePos, otherwise⟩⟩ := b <;> rfl

theorem statement_moved_of_branches (b : Branches) (pos : Position) :
    (b.moved g).statement (g pos) = (b.statement pos).moved g := by
  obtain ⟨guard, body, _ | ⟨elsePos, otherwise⟩⟩ := b <;> rfl

theorem skip_moved (ts : List Token) :
    skip (ts.map (Token.moved g)) = (skip ts).map (Token.moved g) := by
  induction ts with
  | nil => rfl
  | cons t rest ih =>
      rw [List.map_cons, skip, skip, Token.kind_moved]
      split <;> simp [ih]

theorem resume_moved (t : Token) (rest : List Token) :
    resume (t.moved g) (rest.map (Token.moved g)) =
      (resume t rest).map (Token.moved g) := by
  rw [resume, resume, Token.kind_moved]
  split
  · rfl
  · rfl
  · exact skip_moved rest

theorem number_moved (make : Int64 → Literal) (t : Token) (rest : List Token) :
    number make (t.moved g) (rest.map (Token.moved g)) =
      (number make t rest).moved g (Expr.moved g) := by
  by_cases hfits : decimal (t.text.toList.takeWhile Char.isDigit) < numberLimit
  · simp [number, hfits, Reading.moved, Expr.moved]
  · simp [number, hfits, Reading.moved, Expr.moved, SyntaxFault.moved]

theorem named_moved (t : Token) : named (t.moved g) = (named t).moved g := by
  by_cases htrue : Text.lowercase t.text = "true"
  · simp [named, htrue, Expr.moved]
  · by_cases hfalse : Text.lowercase t.text = "false"
    · simp [named, hfalse, Expr.moved]
    · simp [named, htrue, hfalse, Expr.moved]

include hg

theorem current_moved (ts : List Token) :
    current (ts.map (Token.moved g)) = (current ts).moved g := by
  cases ts with
  | nil => rw [List.map_nil, current, Token.moved, hg]
  | cons t rest => rfl

theorem expect_moved (kind : TokenKind) (ts : List Token) :
    expect kind (ts.map (Token.moved g)) = (expect kind ts).moved g id := by
  rw [expect, expect, current_moved hg, Token.kind_moved]
  split
  · rw [Reading.moved, List.map_tail]
    rfl
  · rfl

theorem atom_moved (ts : List Token) :
    atom (ts.map (Token.moved g)) = (atom ts).moved g (Expr.moved g) := by
  simp only [atom, current_moved hg, ← List.map_tail, Token.kind_moved]
  split
  case h_1 | h_2 | h_3 => exact number_moved ..
  case h_7 | h_8 => rw [named_moved]; rfl
  all_goals rfl

theorem moreFactors_moved (left : Expr) (ts : List Token) :
    moreFactors (left.moved g) (ts.map (Token.moved g)) =
      (moreFactors left ts).moved g (Expr.moved g) := by
  fun_induction moreFactors left ts with
  | case1 => rw [List.map_nil, moreFactors]; rfl
  | case2 left t rest hstar right hright more ih =>
      simp only [Expr.moved] at ih
      rw [List.map_cons, moreFactors, Token.kind_moved, if_pos hstar]
      simp only [atom_moved hg, Reading.moved, Token.pos_moved,
        List.map_append] at ih ⊢
      simp only [right, ih, more]
  | case3 left t rest hstar =>
      rw [List.map_cons, moreFactors, Token.kind_moved, if_neg hstar]
      rfl

theorem term_moved (ts : List Token) :
    term (ts.map (Token.moved g)) = (term ts).moved g (Expr.moved g) := by
  simp only [term, atom_moved hg, Reading.moved, moreFactors_moved hg,
    List.map_append]

theorem moreTerms_moved (left : Expr) (ts : List Token) :
    moreTerms (left.moved g) (ts.map (Token.moved g)) =
      (moreTerms left ts).moved g (Expr.moved g) := by
  fun_induction moreTerms left ts with
  | case1 => rw [List.map_nil, moreTerms]; rfl
  | case2 left t rest op hop right hright more ih =>
      simp only [Expr.moved] at ih
      rw [List.map_cons, moreTerms, Token.kind_moved, hop]
      simp only [term_moved hg, Reading.moved, Token.pos_moved,
        List.map_append] at ih ⊢
      simp only [right, ih, more]
  | case3 left t rest hop =>
      rw [List.map_cons, moreTerms, Token.kind_moved, hop]
      rfl

theorem expr_moved (ts : List Token) :
    expr (ts.map (Token.moved g)) = (expr ts).moved g (Expr.moved g) := by
  simp only [expr, term_moved hg, Reading.moved, moreTerms_moved hg,
    List.map_append]

theorem binding_moved (sign : TokenKind) (ts : List Token) :
    binding sign (ts.map (Token.moved g)) =
      (binding sign ts).moved g (Expr.moved g) := by
  simp only [binding, expect_moved hg, Reading.moved, expr_moved hg,
    List.map_append]

theorem simpleItem_moved (t : Token) (rest : List Token) :
    simpleItem (t.moved g) (rest.map (Token.moved g)) =
      (simpleItem t rest).moved g (Option.map (Item.moved g)) := by
  simp only [simpleItem, current_moved hg, Token.kind_moved, binding_moved hg,
    resume_moved]
  split
  · rfl
  · split
    · rfl
    · rfl

variable {inner : List Token → Reading (List Item)}
  (hinner : ∀ ts, inner (ts.map (Token.moved g)) =
    (inner ts).moved g (movedItems g))

include hinner

theorem blockOf_moved (ts : List Token) :
    blockOf inner (ts.map (Token.moved g)) =
      (blockOf inner ts).moved g (movedItems g) := by
  simp only [blockOf, expect_moved hg, Reading.moved, hinner, List.map_append]

theorem conditionalOf_moved (ts : List Token) :
    conditionalOf inner (ts.map (Token.moved g)) =
      (conditionalOf inner ts).moved g (Branches.moved g) := by
  simp only [conditionalOf, expect_moved hg, Reading.moved, expr_moved hg,
    blockOf_moved hg hinner, current_moved hg, Token.kind_moved,
    ← List.map_tail]
  split
  · simp [Branches.moved]
  · simp [Branches.moved]

omit hinner

theorem itemsWithin_moved (n : Nat) (ts : List Token) :
    itemsWithin n (ts.map (Token.moved g)) =
      (itemsWithin n ts).moved g (movedItems g) := by
  -- A block within the items is read with a smaller bound, which is where `ih`
  -- is used.
  induction n generalizing ts with
  | zero => cases ts <;> rfl
  | succ n ih =>
      cases ts with
      | nil => rfl
      | cons t rest =>
          simp only [List.map_cons, itemsWithin, Token.kind_moved,
            conditionalOf_moved hg ih, simpleItem_moved hg, Reading.moved, ih]
          split
          · rfl
          · split
            · rw [Token.pos_moved, item_moved, List.map_append, movedItems]
            · rw [movedItems_toList_append, List.map_append]

theorem items_moved (ts : List Token) :
    items (ts.map (Token.moved g)) = (items ts).moved g (movedItems g) := by
  rw [items, List.length_map, itemsWithin_moved hg, ← items]

theorem block_moved (ts : List Token) :
    block (ts.map (Token.moved g)) = (block ts).moved g (movedItems g) :=
  blockOf_moved hg (items_moved hg) ts

theorem conditional_moved (ts : List Token) :
    conditional (ts.map (Token.moved g)) =
      (conditional ts).moved g (Branches.moved g) :=
  conditionalOf_moved hg (items_moved hg) ts

theorem selector_moved (ts : List Token) :
    selector (ts.map (Token.moved g)) =
      (selector ts).moved g (Selector.moved g) := by
  simp only [selector, current_moved hg, Token.kind_moved, ← List.map_tail]
  split <;> rfl

theorem moreSelectors_moved (ts : List Token) :
    moreSelectors (ts.map (Token.moved g)) =
      (moreSelectors ts).moved g (List.map (Selector.moved g)) := by
  fun_induction moreSelectors ts with
  | case1 => rw [List.map_nil, moreSelectors]; rfl
  | case2 t rest hcomma first hfirst more ih =>
      rw [List.map_cons, moreSelectors, Token.kind_moved, if_pos hcomma]
      simp only [selector_moved hg, Reading.moved, List.map_append,
        List.map_cons] at ih ⊢
      simp only [first, ih, more]
  | case3 t rest hcomma =>
      rw [List.map_cons, moreSelectors, Token.kind_moved, if_neg hcomma]
      rfl

theorem rule_moved (t : Token) (rest : List Token) :
    rule (t.moved g) (rest.map (Token.moved g)) =
      (rule t rest).moved g (Statement.moved g) := by
  simp only [rule, moreSelectors_moved hg, Reading.moved, block_moved hg,
    List.map_append]
  rfl

theorem statement_moved (t : Token) (rest : List Token) :
    statement (t.moved g) (rest.map (Token.moved g)) =
      (statement t rest).moved g (Option.map (Statement.moved g)) := by
  simp only [statement, current_moved hg, Token.kind_moved, binding_moved hg,
    conditional_moved hg, rule_moved hg, resume_moved]
  split
  · rfl
  · split
    · rw [Reading.moved, Reading.moved, Token.pos_moved,
        statement_moved_of_branches]
      rfl
    · split
      · rfl
      · rfl

theorem statements_moved (ts : List Token) :
    statements (ts.map (Token.moved g)) =
      (statements ts).moved g (List.map (Statement.moved g)) := by
  fun_induction statements ts with
  | case1 => rw [List.map_nil, statements]; rfl
  | case2 t rest heof =>
      rw [List.map_cons, statements, Token.kind_moved, if_pos heof]
      rfl
  | case3 t rest heof first hfirst more ih =>
      rw [List.map_cons, statements, Token.kind_moved, if_neg heof]
      simp only [statement_moved hg, Reading.moved, List.map_append] at ih ⊢
      simp only [first, ih, more, Option.toList_map]

end Reading

/-! ## Trees at other places -/

section Trees

variable (g : Position → Position)

def Label.moved (label : Label) : Label :=
  { label with pos := g label.pos }

/-- A label at another place, and with a number that lies `d` behind. -/
def Label.shifted (d : Int) (label : Label) : Label :=
  { label with id := label.id + d, pos := g label.pos }

theorem Label.shifted_zero : Label.shifted g 0 = Label.moved g := by
  funext label
  rw [shifted, moved, Int.add_zero]

theorem Expr.count_moved (e : Expr) : (e.moved g).count = e.count := by
  induction e with
  | literal pos value => rfl
  | reference pos name => rfl
  | operation pos op lhs rhs ihl ihr => rw [moved, count, count, ihl, ihr]

theorem countItems_movedItems (items : List Item) :
    countItems (movedItems g items) = countItems items := by
  induction items using Item.list_induction with
  | nil => rfl
  | declaration pos property expr items ih =>
      simp [movedItems, Item.moved, countItems, Item.count,
        Expr.count_moved, ih]
  | assignment pos name expr items ih =>
      simp [movedItems, Item.moved, countItems, Item.count,
        Expr.count_moved, ih]
  | ifThen pos guard body items ihbody ih =>
      simp [movedItems, Item.moved, countItems, Item.count, Expr.count_moved,
        ihbody, ih]
  | ifElse pos guard body elsePos otherwise items ihbody ihelse ih =>
      simp [movedItems, Item.moved, countItems, Item.count, Expr.count_moved,
        ihbody, ihelse, ih]

theorem Item.count_moved (item : Item) : (item.moved g).count = item.count := by
  simpa [movedItems, countItems] using countItems_movedItems g [item]

theorem Statement.count_moved (statement : Statement) :
    (statement.moved g).count = statement.count := by
  cases statement with
  | assignment pos name expr => simp [moved, count, Expr.count_moved]
  | rule pos selectors body => simp [moved, count, countItems_movedItems]
  | ifThen pos guard body => exact Item.count_moved g (.ifThen pos guard body)
  | ifElse pos guard body elsePos otherwise =>
      exact Item.count_moved g (.ifElse pos guard body elsePos otherwise)

end Trees

section Shifted

variable {g : Position → Position} {n n' : Nat} {d : Int}
  (hd : (n' : Int) = n + d)

include hd

theorem Tree.relabel_plain (pos : Position) (c : Content Tree) :
    (Tree.plain n pos c).relabel (Label.shifted g d) =
      .plain n' (g pos) (c.map (Tree.relabel (Label.shifted g d))) := by
  rw [Tree.plain, Tree.plain, Tree.relabel_node, Label.shifted, hd]

theorem Expr.treeAt_moved (e : Expr) :
    (e.moved g).treeAt n' = (e.treeAt n).relabel (Label.shifted g d) := by
  induction e generalizing n n' with
  | literal pos value =>
      rw [moved, treeAt, treeAt, Tree.relabel_plain hd, Content.map]
  | reference pos name =>
      rw [moved, treeAt, treeAt, Tree.relabel_plain hd, Content.map]
  | operation pos op lhs rhs ihl ihr =>
      have hright : ((n' + lhs.count : Nat) : Int) =
          (n + lhs.count : Nat) + d := by omega
      have htop : ((n' + lhs.count + rhs.count : Nat) : Int) =
          (n + lhs.count + rhs.count : Nat) + d := by omega
      rw [moved, treeAt, treeAt, Tree.relabel_plain htop, count_moved,
        count_moved, ihl hd, ihr hright]
      rfl

theorem declarationTree_moved (pos : Position) (property : String) (e : Expr) :
    declarationTree n' (g pos) property (e.moved g) =
      (declarationTree n pos property e).relabel (Label.shifted g d) := by
  have hexpr : ((n' + 1 : Nat) : Int) = (n + 1 : Nat) + d := by omega
  have htop : ((n' + 1 + e.count : Nat) : Int) =
      (n + 1 + e.count : Nat) + d := by omega
  rw [declarationTree, declarationTree, Tree.relabel_plain htop,
    Expr.count_moved, e.treeAt_moved hexpr, Content.map, Tree.relabel_plain hd]
  rfl

theorem assignmentTree_moved (pos : Position) (name : String) (e : Expr) :
    assignmentTree n' (g pos) name (e.moved g) =
      (assignmentTree n pos name e).relabel (Label.shifted g d) := by
  have hexpr : ((n' + 1 : Nat) : Int) = (n + 1 : Nat) + d := by omega
  have htop : ((n' + 1 + e.count : Nat) : Int) =
      (n + 1 + e.count : Nat) + d := by omega
  rw [assignmentTree, assignmentTree, Tree.relabel_plain htop, Expr.count_moved,
    e.treeAt_moved hexpr, Content.map, Tree.relabel_plain hd]
  rfl

theorem itemTrees_movedItems (items : List Item) :
    itemTrees n' (movedItems g items) =
      (itemTrees n items).map (Tree.relabel (Label.shifted g d)) := by
  induction items using Item.list_induction generalizing n n' with
  | nil => rfl
  | declaration pos property expr items ih =>
      have hrest :
          ((n' + (Item.declaration pos property expr).count : Nat) : Int) =
          (n + (Item.declaration pos property expr).count : Nat) + d := by omega
      rw [movedItems, itemTrees, itemTrees, Item.count_moved, ih hrest,
        List.map_cons, Item.moved, Item.treeAt, Item.treeAt,
        declarationTree_moved hd]
  | assignment pos name expr items ih =>
      have hrest : ((n' + (Item.assignment pos name expr).count : Nat) : Int) =
          (n + (Item.assignment pos name expr).count : Nat) + d := by omega
      rw [movedItems, itemTrees, itemTrees, Item.count_moved, ih hrest,
        List.map_cons, Item.moved, Item.treeAt, Item.treeAt,
        assignmentTree_moved hd]
  | ifThen pos guard body items ihbody ih =>
      have hbody : ((n' + guard.count : Nat) : Int) =
          (n + guard.count : Nat) + d := by omega
      have htop : ((n' + guard.count + countItems body : Nat) : Int) =
          (n + guard.count + countItems body : Nat) + d := by omega
      have hrest : ((n' + (Item.ifThen pos guard body).count : Nat) : Int) =
          (n + (Item.ifThen pos guard body).count : Nat) + d := by omega
      rw [movedItems, itemTrees, itemTrees, Item.count_moved, ih hrest,
        List.map_cons, Item.moved, Item.treeAt, Item.treeAt,
        Tree.relabel_plain htop, Expr.count_moved, countItems_movedItems,
        guard.treeAt_moved hd, ihbody hbody, Content.map, Tree.relabel_missing]
  | ifElse pos guard body elsePos otherwise items ihbody ihelse ih =>
      have hbody : ((n' + guard.count : Nat) : Int) =
          (n + guard.count : Nat) + d := by omega
      have helse : ((n' + guard.count + countItems body : Nat) : Int) =
          (n + guard.count + countItems body : Nat) + d := by omega
      have hclause :
          ((n' + guard.count + countItems body + countItems otherwise : Nat) :
            Int) =
          (n + guard.count + countItems body + countItems otherwise : Nat) +
            d := by omega
      have htop :
          ((n' + guard.count + countItems body + countItems otherwise + 1 :
            Nat) : Int) =
          (n + guard.count + countItems body + countItems otherwise + 1 : Nat) +
            d := by omega
      have hrest :
          ((n' + (Item.ifElse pos guard body elsePos otherwise).count : Nat) :
            Int) =
            (n + (Item.ifElse pos guard body elsePos otherwise).count : Nat) +
              d := by omega
      rw [movedItems, itemTrees, itemTrees, Item.count_moved, ih hrest,
        List.map_cons, Item.moved, Item.treeAt, Item.treeAt,
        Tree.relabel_plain htop, Expr.count_moved, countItems_movedItems,
        countItems_movedItems, guard.treeAt_moved hd, ihbody hbody,
        ihelse helse, Content.map, Tree.relabel_plain hclause]
      rfl

theorem Item.treeAt_moved (item : Item) :
    (item.moved g).treeAt n' = (item.treeAt n).relabel (Label.shifted g d) := by
  simpa [movedItems, itemTrees] using itemTrees_movedItems (g := g) hd [item]

theorem selectorTrees_moved (selectors : List Selector) :
    selectorTrees n' (selectors.map (Selector.moved g)) =
      (selectorTrees n selectors).map (Tree.relabel (Label.shifted g d)) := by
  induction selectors generalizing n n' with
  | nil => rfl
  | cons selector selectors ih =>
      have hrest : ((n' + 1 : Nat) : Int) = (n + 1 : Nat) + d := by omega
      rw [List.map_cons, selectorTrees, selectorTrees, ih hrest, List.map_cons,
        Tree.relabel_plain hd]
      rfl

/-- A statement at other places and with other numbers has the same tree but for
its labels. -/
theorem Statement.treeAt_moved (statement : Statement) :
    (statement.moved g).treeAt n' =
      (statement.treeAt n).relabel (Label.shifted g d) := by
  cases statement with
  | assignment pos name expr => exact assignmentTree_moved hd pos name expr
  | rule pos selectors body =>
      have hbody : ((n' + selectors.length : Nat) : Int) =
          (n + selectors.length : Nat) + d := by
        omega
      have htop : ((n' + selectors.length + countItems body : Nat) : Int) =
          (n + selectors.length + countItems body : Nat) + d := by omega
      rw [moved, treeAt, treeAt, Tree.relabel_plain htop, List.length_map,
        countItems_movedItems, selectorTrees_moved hd,
        itemTrees_movedItems hbody]
      rfl
  | ifThen pos guard body => exact Item.treeAt_moved hd (.ifThen pos guard body)
  | ifElse pos guard body elsePos otherwise =>
      exact Item.treeAt_moved hd (.ifElse pos guard body elsePos otherwise)

end Shifted

section Trees

variable (g : Position → Position)

theorem statementTrees_moved (sheet : Sheet) (n : Nat) :
    statementTrees n (sheet.map (Statement.moved g)) =
      (statementTrees n sheet).map (Tree.relabel (Label.moved g)) := by
  induction sheet generalizing n with
  | nil => rfl
  | cons statement sheet ih =>
      have hzero : (n : Int) = n + 0 := (Int.add_zero _).symm
      rw [List.map_cons, statementTrees, statementTrees, Statement.count_moved,
        Statement.treeAt_moved hzero, Label.shifted_zero, ih, List.map_cons]

theorem inSheet_moved (sheet : Sheet) :
    Typing.inSheet (sheetTree (sheet.map (Statement.moved g))) =
      Typing.inSheet (sheetTree sheet) := by
  have hid : ∀ label, (Label.moved g label).id = id label.id := fun _ => rfl
  simp only [sheetTree, Tree.plain, Typing.inSheet, statementTrees_moved]
  rw [Typing.atTop_map_relabel hid, Typing.map_renumbered_id]

end Trees

/-! ## Reports at other places -/

theorem Typing.reportOn_relabel (g : Position → Position)
    (findings : List Finding) (t : Tree) :
    reportOn findings (t.relabel (Label.moved g)) =
      (reportOn findings t).map (Diagnostic.moved g) := by
  cases t with
  | missing => rw [Tree.relabel_missing]; rfl
  | node label c =>
      rw [Tree.relabel_node, reportOn, reportOn, Tree.label?, Tree.label?,
        Option.bind_some, Option.bind_some, Option.map_map]
      rfl

/-- Nothing is found about the root of a sheet. -/
theorem diagnostics_check_statements (sheet : Sheet) :
    (Arena.ofSheet sheet).check.diagnostics =
      ((statementTrees 1 sheet).flatMap Tree.subtrees).filterMap
        (Typing.reportOn (Typing.inSheet (sheetTree sheet))) := by
  rw [diagnostics_check, sheetTree, Tree.plain, Tree.subtrees_node,
    List.filterMap_cons_none]
  · rfl
  · rw [Typing.reportOn, Tree.label?, Option.bind_some, Option.map_eq_none_iff,
      List.find?_eq_none]
    intro finding hfinding hid
    obtain ⟨t, ht, hmem⟩ := Typing.exists_mem_ids_of_mem_atTop hfinding
    have hrange : finding.id ∈ idRange 1 (countStatements sheet) :=
      (ids_statementTrees_perm sheet 1).mem_iff.mp
        (List.mem_flatMap.mpr ⟨t, ht, hmem⟩)
    rw [mem_idRange] at hrange
    have hzero : finding.id = ((0 : Nat) : Int) := of_decide_eq_true hid
    rw [hzero] at hrange
    omega

theorem diagnostics_check_moved (g : Position → Position) (sheet : Sheet) :
    (Arena.ofSheet (sheet.map (Statement.moved g))).check.diagnostics =
      (Arena.ofSheet sheet).check.diagnostics.map (Diagnostic.moved g) := by
  have hsubtrees : (statementTrees 1 (sheet.map (Statement.moved g))).flatMap
      Tree.subtrees =
      ((statementTrees 1 sheet).flatMap Tree.subtrees).map
        (Tree.relabel (Label.moved g)) := by
    rw [statementTrees_moved, List.flatMap_map, List.map_flatMap]
    exact List.flatMap_congr fun t _ => Tree.subtrees_relabel _ t
  rw [diagnostics_check_statements, diagnostics_check_statements, inSheet_moved,
    hsubtrees, List.filterMap_map, List.map_filterMap]
  exact List.filterMap_congr fun t _ => Typing.reportOn_relabel g _ t

namespace Meaning

section Moved

variable (g : Position → Position)

def Declaration.moved (d : Declaration) : Declaration :=
  { d with pos := g d.pos }

def Rule.moved (r : Rule) : Rule :=
  { r with declarations := r.declarations.map (Declaration.moved g) }

theorem value?_moved (env : Env) (e : Expr) :
    (e.moved g).value? env = e.value? env := by
  induction e with
  | literal pos value => rfl
  | reference pos name => rfl
  | operation pos op lhs rhs ihl ihr =>
      rw [Expr.moved, Expr.value?, Expr.value?, ihl, ihr]

theorem afterItem_moved (env : Env) (item : Item) :
    afterItem env (item.moved g) = afterItem env item := by
  cases item <;> simp [Item.moved, afterItem, value?_moved]

theorem ofItems_movedItems (items : List Item) (env : Env) :
    ofItems env (movedItems g items) =
      (ofItems env items).map (Declaration.moved g) := by
  induction items using Item.list_induction generalizing env with
  | nil => rfl
  | declaration pos property expr items ih =>
      rw [movedItems, ofItems, ofItems, afterItem_moved, ih, List.map_append]
      simp [Item.moved, ofItem, value?_moved, Declaration.moved]
  | assignment pos name expr items ih =>
      rw [movedItems, ofItems, ofItems, afterItem_moved, ih, List.map_append]
      rfl
  | ifThen pos guard body items ihbody ih =>
      rw [movedItems, ofItems, ofItems, afterItem_moved, ih, List.map_append,
        Item.moved, ofItem, ofItem, value?_moved, ihbody]
      split <;> rfl
  | ifElse pos guard body elsePos otherwise items ihbody ihelse ih =>
      rw [movedItems, ofItems, ofItems, afterItem_moved, ih, List.map_append,
        Item.moved, ofItem, ofItem, value?_moved, ihbody, ihelse]
      split <;> rfl

theorem ofStatements_moved (sheet : Sheet) (env : Env) :
    ofStatements env (sheet.map (Statement.moved g)) =
      (ofStatements env sheet).map (Rule.moved g) := by
  induction sheet generalizing env with
  | nil => rfl
  | cons statement sheet ih =>
      cases statement with
      | assignment pos name expr =>
          rw [List.map_cons, Statement.moved, ofStatements, ofStatements,
            value?_moved, ih]
      | rule pos selectors body =>
          rw [List.map_cons, Statement.moved, ofStatements, ofStatements,
            ofItems_movedItems, ih, List.map_map]
          rfl
      | ifThen pos guard body => exact ih env
      | ifElse pos guard body elsePos otherwise => exact ih env

theorem ofSheet_moved (sheet : Sheet) :
    ofSheet (sheet.map (Statement.moved g)) =
      (ofSheet sheet).map (Rule.moved g) :=
  ofStatements_moved g sheet .empty

theorem complete_moved {rules : List Rule} :
    Complete (rules.map (Rule.moved g)) ↔ Complete rules := by
  simp only [Complete, List.forall_mem_map, Rule.moved]
  rfl

theorem css_moved (r : Rule) : (r.moved g).css = r.css := by
  rw [Rule.css, Rule.css, Rule.moved, List.filterMap_map]
  rfl

theorem errors_moved (rules : List Rule) :
    errors (rules.map (Rule.moved g)) =
      (errors rules).map (Diagnostic.moved g) := by
  have hdeclarations : (rules.map (Rule.moved g)).flatMap Rule.declarations =
      (rules.flatMap Rule.declarations).map (Declaration.moved g) := by
    rw [List.flatMap_map, List.map_flatMap]
    rfl
  rw [errors, errors, hdeclarations, List.filterMap_map, List.map_filterMap]
  refine List.filterMap_congr fun d _ => ?_
  rw [Function.comp_apply, Declaration.error?, Declaration.error?,
    Declaration.moved]
  cases d.value <;> rfl

end Moved

end Meaning

/-! ## Outcomes at other places -/

namespace Parsed

/-- What the compilation of a sheet reports, and its CSS. -/
def outcome (p : Parsed) : Diagnostics × String :=
  if p.diagnostics ≠ [] then (p.diagnostics, "")
  else if p.arena.check.diagnostics ≠ [] then (p.arena.check.diagnostics, "")
  else if Meaning.Complete (Meaning.ofSheet p.sheet) then
    ([], Css.text ((Meaning.ofSheet p.sheet).map Meaning.Rule.css))
  else (Meaning.errors (Meaning.ofSheet p.sheet), "")

def moved (g : Position → Position) (p : Parsed) : Parsed :=
  ⟨p.sheet.map (Statement.moved g), p.faults.map (SyntaxFault.moved g)⟩

theorem diagnostics_moved (g : Position → Position) (p : Parsed) :
    (p.moved g).diagnostics = p.diagnostics.map (Diagnostic.moved g) := by
  rw [diagnostics, diagnostics, moved, List.map_map, List.map_map]
  exact List.map_congr_left fun fault _ => SyntaxFault.diagnostic_moved g fault

theorem outcome_moved (g : Position → Position) (p : Parsed) :
    (p.moved g).outcome =
      (p.outcome.1.map (Diagnostic.moved g), p.outcome.2) := by
  have hcheck : (p.moved g).arena.check.diagnostics =
      p.arena.check.diagnostics.map (Diagnostic.moved g) :=
        diagnostics_check_moved g p.sheet
  have hrules : Meaning.ofSheet (p.moved g).sheet =
      (Meaning.ofSheet p.sheet).map (Meaning.Rule.moved g) :=
        Meaning.ofSheet_moved g p.sheet
  have hcss : ((Meaning.ofSheet p.sheet).map (Meaning.Rule.moved g)).map
      Meaning.Rule.css =
      (Meaning.ofSheet p.sheet).map Meaning.Rule.css := by
    rw [List.map_map]
    exact List.map_congr_left fun r _ => Meaning.css_moved g r
  simp only [outcome, diagnostics_moved, hcheck, hrules, hcss,
    Meaning.complete_moved, Meaning.errors_moved, ne_eq, List.map_eq_nil_iff]
  split
  · rfl
  · split
    · rfl
    · split <;> rfl

end Parsed

theorem compile_eq_outcome (source : List Char) :
    ((compile source).diagnostics, (compile source).css) =
      (parse source).outcome := by
  rcases compile_cases source with ⟨hread, heq⟩ | ⟨hread, hfound, heq⟩ |
    ⟨hcheck, hcomplete, heq⟩ | ⟨hcheck, hcomplete, heq⟩
  · rw [heq, Parsed.outcome, if_pos hread]
  · rw [heq, Parsed.outcome, if_neg (not_not.mpr hread), if_pos hfound]
  · obtain ⟨hread, hfound⟩ := check_eq_nil_iff.mp hcheck
    rw [heq, Parsed.outcome, if_neg (not_not.mpr hread),
      if_neg (not_not.mpr hfound), if_neg hcomplete]
  · obtain ⟨hread, hfound⟩ := check_eq_nil_iff.mp hcheck
    rw [heq, Parsed.outcome, if_neg (not_not.mpr hread),
      if_neg (not_not.mpr hfound), if_pos hcomplete]

/-- Sources that are read alike but for the places are compiled alike but for
the places. -/
theorem compile_of_parse_moved
    {source source' : List Char} {g g' : Position → Position}
    (h : (parse source').moved g' = (parse source).moved g) :
    (compile source').css = (compile source).css ∧
      (compile source').diagnostics.map (Diagnostic.moved g') =
        (compile source).diagnostics.map (Diagnostic.moved g) := by
  have houtcome := congrArg Parsed.outcome h
  rw [Parsed.outcome_moved, Parsed.outcome_moved, ← compile_eq_outcome,
    ← compile_eq_outcome, Prod.mk.injEq] at houtcome
  exact ⟨houtcome.2, houtcome.1⟩

/-- What is read from a source depends on its words alone, but for the
places. -/
theorem parse_unplaced (source : List Char) :
    (parse source).moved (fun _ => Token.nowhere.pos) =
      ⟨(Reading.statements (Scan.words source)).value,
        (Reading.statements (Scan.words source)).faults⟩ := by
  have hmoved :=
    Reading.statements_moved (g := fun _ => Token.nowhere.pos) rfl
      (Scan.scan source)
  have hwords : (Scan.scan source).map
      (Token.moved fun _ => Token.nowhere.pos) =
      Scan.words source := rfl
  rw [hwords] at hmoved
  rw [hmoved]
  rfl

end Stylesheet
