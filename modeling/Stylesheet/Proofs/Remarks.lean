import Mathlib.Data.List.Infix
import Mathlib.Data.List.Perm.Basic
import Stylesheet.Proofs.Forms
import Stylesheet.Proofs.Unused

/-!
# What is remarked on

The remarks on a sheet, told from its items alone.  Every item stands in one
list, at top level or in a body, and what can be remarked on is a matter of the
item, of the items in front of it in its list, and of the names that the sheet
reads.  The walk over the tree makes each of these remarks once and no other.
-/

namespace Stylesheet

/-! ## The items of a sheet -/

mutual

/-- The lists of items inside an item, at any depth. -/
def Item.bodies : Item → List (List Item)
  | .declaration _ _ _ | .assignment _ _ _ => []
  | .ifThen _ _ body => body :: bodiesIn body
  | .ifElse _ _ body _ otherwise =>
      body :: bodiesIn body ++ otherwise :: bodiesIn otherwise

def bodiesIn : List Item → List (List Item)
  | [] => []
  | item :: items => item.bodies ++ bodiesIn items

end

def Statement.bodies : Statement → List (List Item)
  | .assignment _ _ _ => []
  | .rule _ _ body => body :: bodiesIn body
  | .ifThen pos guard body => (Item.ifThen pos guard body).bodies
  | .ifElse pos guard body elsePos otherwise =>
      (Item.ifElse pos guard body elsePos otherwise).bodies

/-- The bodies of a sheet, at any depth. -/
def bodiesOf (sheet : Sheet) : List (List Item) :=
  sheet.flatMap Statement.bodies

/-- A statement that could stand in a body just as well. -/
def Statement.item? : Statement → Option Item
  | .assignment pos name expr => some (.assignment pos name expr)
  | .rule _ _ _ => none
  | .ifThen pos guard body => some (.ifThen pos guard body)
  | .ifElse pos guard body elsePos otherwise =>
      some (.ifElse pos guard body elsePos otherwise)

/-- The items of a sheet, at top level and in its bodies. -/
def itemsOf (sheet : Sheet) : List Item :=
  sheet.filterMap Statement.item? ++ (bodiesOf sheet).flatten

namespace Lint

/-! ## Remarks by themselves -/

def startsUpper (name : String) : Bool :=
  name.toList.head?.any Char.isUpper

/-- An assignment whose name does not start with an upper-case letter. -/
def uncapitalised? : Item → Option Diagnostic
  | .assignment pos name _ =>
      if startsUpper name then none
        else some (.warning pos (Remark.uncapitalised name).message)
  | _ => none

/-- An assignment whose name is not among the used ones. -/
def unused? (used : List String) : Item → Option Diagnostic
  | .assignment pos name _ =>
      if name ∈ used then none
        else some (.warning pos (Remark.unused name).message)
  | _ => none

/-- A guard that is a truth value, in the conditional at the given place. -/
def constant? (pos : Position) : Expr → Option Diagnostic
  | .literal _ (.bool value) =>
      some (.warning pos (Remark.constantGuard value).message)
  | _ => none

/-- A conditional whose guard is a truth value. -/
def constantGuard? : Item → Option Diagnostic
  | .declaration _ _ _ | .assignment _ _ _ => none
  | .ifThen pos guard _ | .ifElse pos guard _ _ _ => constant? pos guard

/-- A rule with nothing in it. -/
def emptyRule? : Statement → Option Diagnostic
  | .rule pos selectors [] =>
      let names := ", ".intercalate (selectors.map Selector.text)
      some (.warning pos (Remark.emptyRule names).message)
  | _ => none

/-- The item declares the property, which is given in lower case. -/
def declares (key : String) : Item → Bool
  | .declaration _ property _ => Text.lowercase property = key
  | _ => false

/-- A declaration of a property that one of the items in front declares. -/
def repeated? (front : List Item) : Item → Option Diagnostic
  | .declaration pos property _ =>
      if front.any (declares (Text.lowercase property)) then
        some (.warning pos (Remark.repeatedProperty property).message)
      else none
  | _ => none

/-- The remarks on the items of a list that have to do with the items in front
of them. -/
def repeatedIn (items : List Item) : Diagnostics :=
  (items.inits.zip items).filterMap fun p => repeated? p.1 p.2

/-- The remarks on an item, apart from the items inside it and in front of
it. -/
def onItem (used : List String) (item : Item) : Diagnostics :=
  (uncapitalised? item).toList ++ (unused? used item).toList
    ++ (constantGuard? item).toList

/-! ## Remarks in order -/

mutual

/-- The remarks on an item and inside it, in the order in which they are
made. -/
def remarksOn (used : List String) : Item → Diagnostics
  | .declaration _ _ _ => []
  | .assignment pos name expr => onItem used (.assignment pos name expr)
  | .ifThen pos guard body =>
      onItem used (.ifThen pos guard body)
        ++ (repeatedIn body ++ remarksIn used body)
  | .ifElse pos guard body elsePos otherwise =>
      onItem used (.ifElse pos guard body elsePos otherwise)
        ++ (repeatedIn body ++ remarksIn used body)
        ++ (repeatedIn otherwise ++ remarksIn used otherwise)

def remarksIn (used : List String) : List Item → Diagnostics
  | [] => []
  | item :: items => remarksOn used item ++ remarksIn used items

end

def remarksOnStatement (used : List String) : Statement → Diagnostics
  | .assignment pos name expr => remarksOn used (.assignment pos name expr)
  | .rule pos selectors body =>
      (emptyRule? (.rule pos selectors body)).toList
        ++ (repeatedIn body ++ remarksIn used body)
  | .ifThen pos guard body => remarksOn used (.ifThen pos guard body)
  | .ifElse pos guard body elsePos otherwise =>
      remarksOn used (.ifElse pos guard body elsePos otherwise)

section Walk

variable {used : List String}

theorem isCapitalised_eq {name : String} (h : Canonical.IsNameText name) :
    isCapitalised name = startsUpper name := by
  have hascii : ∀ c ∈ name.toList, c.toNat < 128 := by
    rcases h with h | h
    · exact (h.lexeme (by decide)).toNat_lt (by decide)
    · exact (h.lexeme (by decide)).toNat_lt (by decide)
  unfold isCapitalised startsUpper
  cases hname : name.toList with
  | nil => rfl
  | cons c cs =>
      rw [hname] at hascii
      exact forall_ascii (P := fun c => Text.isUpperLetter c = c.isUpper)
        (by decide +kernel) (hascii c List.mem_cons_self)

theorem inItem_assignmentTree
    {name : String} (h : Canonical.IsNameText name) (n : Nat) (pos : Position)
    (e : Expr) :
    inItem used (assignmentTree n pos name e) =
      onItem used (.assignment pos name e) := by
  have hempty := h.ne_empty
  simp [assignmentTree, Tree.plain, inItem, Tree.variableName?, hempty,
    onAssignment, isCapitalised_eq h, onItem, uncapitalised?, unused?,
    constantGuard?, warning, apply_ite Option.toList]

theorem onGuard_treeAt (label : Label) (guard : Expr) (n : Nat) :
    onGuard label (guard.treeAt n) = (constant? label.pos guard).toList := by
  cases guard with
  | literal pos value => cases value <;> rfl
  | _ => rfl

/-- Each element of a list with those in front of it, the first one apart from
the others. -/
theorem filterMap_zip_inits_cons
    {α β : Type} (f : List α → α → Option β) (front : List α) (x : α)
    (xs : List α) :
    ((x :: xs).inits.zip (x :: xs)).filterMap (fun p => f (front ++ p.1) p.2) =
      (f front x).toList ++
        (xs.inits.zip xs).filterMap fun p => f (front ++ [x] ++ p.1) p.2 := by
  rw [List.inits_cons, List.zip_cons_cons, List.zip_map_left,
    List.filterMap_cons, List.append_nil, List.filterMap_map]
  cases f front x <;> simp

/-- The properties that are seen are those that the items declare. -/
def Seen (front : List Item) (seen : List String) : Prop :=
  ∀ key, key ∈ seen ↔ front.any (declares key) = true

theorem Seen.declaration
    {front : List Item} {seen : List String} (h : Seen front seen)
    (pos : Position) (property : String) (expr : Expr) :
    Seen (front ++ [.declaration pos property expr])
      (Text.lowercase property :: seen) := by
  intro key
  have hfirst : declares key (.declaration pos property expr) = true ↔
      key = Text.lowercase property := by
    rw [declares, decide_eq_true_iff, eq_comm]
  rw [List.mem_cons, h, List.any_append, Bool.or_eq_true, List.any_cons,
    List.any_nil, Bool.or_false, hfirst, or_comm]

theorem Seen.other
    {front : List Item} {seen : List String} (h : Seen front seen) {item : Item}
    (hitem : ∀ key, declares key item = false) :
    Seen (front ++ [item]) seen := by
  intro key
  rw [h, List.any_append, List.any_cons, List.any_nil, hitem, Bool.or_false,
    Bool.or_false]

theorem repeats_itemTrees_append
    {seen : List String} {front : List Item} (hseen : Seen front seen)
    (items : List Item) (n : Nat) :
    repeats seen (itemTrees n items) =
      (items.inits.zip items).filterMap fun p =>
        repeated? (front ++ p.1) p.2 := by
  induction items generalizing seen front n with
  | nil => rfl
  | cons item items ih =>
      rw [filterMap_zip_inits_cons, itemTrees]
      cases item with
      | declaration pos property expr =>
          rw [← ih (hseen.declaration pos property expr), Item.treeAt,
            declarationTree, Tree.plain, repeats, Tree.plain,
            Tree.propertyName?, repeated?, apply_ite Option.toList]
          simp only [hseen _]
          rfl
      | assignment pos name expr =>
          rw [← ih (hseen.other fun _ => rfl)]
          rfl
      | ifThen pos guard body =>
          rw [← ih (hseen.other fun _ => rfl)]
          rfl
      | ifElse pos guard body elsePos otherwise =>
          rw [← ih (hseen.other fun _ => rfl)]
          rfl

theorem repeats_itemTrees (items : List Item) (n : Nat) :
    repeats [] (itemTrees n items) = repeatedIn items := by
  have hnone : Seen [] [] := fun key => by simp
  exact repeats_itemTrees_append hnone items n

/-- The walk over the trees of items makes the remarks on the items. -/
theorem inItems_itemTrees
    (used : List String) {items : List Item} {n : Nat}
    (h : ∀ t ∈ itemTrees n items, Canonical.ItemTree t) :
    inItems used (itemTrees n items) = remarksIn used items := by
  induction items using Item.list_induction generalizing n with
  | nil => rfl
  | declaration pos property expr items ih =>
      rw [itemTrees, List.forall_mem_cons] at h
      rw [itemTrees, inItems, ih h.2]
      rfl
  | assignment pos name expr items ih =>
      rw [itemTrees, List.forall_mem_cons] at h
      obtain ⟨hitem, hitems⟩ := h
      cases hitem with
      | assignment hname =>
          rw [itemTrees, inItems, ih hitems, Item.treeAt,
            inItem_assignmentTree hname]
          rfl
  | ifThen pos guard body items ihbody ih =>
      rw [itemTrees, List.forall_mem_cons] at h
      obtain ⟨hitem, hitems⟩ := h
      cases hitem with
      | ifThen hguard hbody =>
          have hnone : inElse used .missing = [] := rfl
          rw [itemTrees, inItems, ih hitems, Item.treeAt, Tree.plain, inItem,
            onGuard_treeAt, repeats_itemTrees, ihbody hbody, hnone,
            List.append_nil, List.append_assoc (constant? _ _).toList]
          rfl
  | ifElse pos guard body elsePos otherwise items ihbody ihelse ih =>
      rw [itemTrees, List.forall_mem_cons] at h
      obtain ⟨hitem, hitems⟩ := h
      cases hitem with
      | ifElse hguard hbody hotherwise =>
          rw [itemTrees, inItems, ih hitems, Item.treeAt, Tree.plain, inItem,
            onGuard_treeAt, repeats_itemTrees, ihbody hbody, Tree.plain, inElse,
            repeats_itemTrees, ihelse hotherwise,
            List.append_assoc (constant? _ _).toList]
          rfl

theorem inItem_treeAt
    (used : List String) {item : Item} {n : Nat}
    (h : Canonical.ItemTree (item.treeAt n)) :
    inItem used (item.treeAt n) = remarksOn used item := by
  have hone : ∀ t ∈ itemTrees n [item], Canonical.ItemTree t :=
    List.forall_mem_singleton.mpr h
  have hitems := inItems_itemTrees used hone
  rwa [itemTrees, itemTrees, inItems, inItems, remarksIn, remarksIn,
    List.append_nil, List.append_nil] at hitems

theorem filterMap_selectorTrees (selectors : List Selector) (n : Nat) :
    (selectorTrees n selectors).filterMap Tree.selectorText? =
      selectors.map Selector.text := by
  induction selectors generalizing n with
  | nil => rfl
  | cons selector selectors ih =>
      rw [selectorTrees, List.map_cons, ← ih (n + 1)]
      rfl

theorem onRule_trees
    (label : Label) (selectors : List Selector) (body : List Item) (n m : Nat) :
    onRule label (selectorTrees n selectors) (itemTrees m body) =
      (emptyRule? (.rule label.pos selectors body)).toList := by
  rw [onRule, filterMap_selectorTrees]
  cases body <;> rfl

end Walk

section Sheets

open Grammar

variable (used : List String)

theorem inItem_statementTree
    {ts : List Token} {statement : Statement} (h : TopItem ts statement)
    (hts : Lexed ts) (n : Nat) :
    inItem used (statement.treeAt n) = remarksOnStatement used statement := by
  cases h with
  | assignment h => exact inItem_assignmentTree (h.exprTree hts).1 n _ _
  | rule hselectors hbody =>
      rw [Statement.treeAt, Tree.plain, inItem, onRule_trees, repeats_itemTrees,
        inItems_itemTrees used (hbody.itemTrees hts.append.2 _),
        List.append_assoc]
      rfl
  | @conditional _ _ branches h =>
      have htree := h.branchesTree hts n
      obtain ⟨guard, body, _ | ⟨elsePos, otherwise⟩⟩ := branches
      · exact inItem_treeAt used (htree _)
      · exact inItem_treeAt used (htree _)

theorem inItems_statementTrees
    {ts : List Token} {sheet : Sheet} (h : WholeSheet ts sheet) (hts : Lexed ts)
    (n : Nat) :
    inItems used (statementTrees n sheet) =
      sheet.flatMap (remarksOnStatement used) := by
  induction h generalizing n with
  | nil => rfl
  | cons hstatement _ ih =>
      rw [statementTrees, inItems, List.flatMap_cons, ih hts.append.2,
        inItem_statementTree used hstatement hts.append.1]

/-- Nothing is declared at top level. -/
theorem repeats_statementTrees (sheet : Sheet) (n : Nat) :
    repeats [] (statementTrees n sheet) = [] := by
  induction sheet generalizing n with
  | nil => rfl
  | cons statement sheet ih => cases statement <;> exact ih _

end Sheets

/-! ## Each remark once -/

section Once

variable (used : List String)

/-- The remarks on the items of a list, apart from those inside the items. -/
def inList (items : List Item) : Diagnostics :=
  repeatedIn items ++ items.flatMap (onItem used)

theorem remarksIn_perm (items : List Item) :
    (remarksIn used items).Perm
      (items.flatMap (onItem used)
        ++ (bodiesIn items).flatMap (inList used)) := by
  rw [List.perm_iff_count]
  intro d
  induction items using Item.list_induction with
  | nil => rfl
  | declaration pos property expr items ih => exact ih
  | assignment pos name expr items ih =>
      simp only [remarksIn, remarksOn, bodiesIn, Item.bodies, List.flatMap_cons,
        List.nil_append, List.count_append] at ih ⊢
      omega
  | ifThen pos guard body items ihbody ih =>
      simp only [remarksIn, remarksOn, bodiesIn, Item.bodies, inList,
        List.flatMap_cons, List.flatMap_append,
        List.count_append] at ihbody ih ⊢
      omega
  | ifElse pos guard body elsePos otherwise items ihbody ihelse ih =>
      simp only [remarksIn, remarksOn, bodiesIn, Item.bodies, inList,
        List.flatMap_cons, List.flatMap_append,
        List.count_append] at ihbody ihelse ih ⊢
      omega

theorem remarksOn_perm (item : Item) :
    (remarksOn used item).Perm
      (onItem used item ++ item.bodies.flatMap (inList used)) := by
  have hone := remarksIn_perm used [item]
  rwa [remarksIn, remarksIn, bodiesIn, bodiesIn, List.append_nil,
    List.append_nil, List.flatMap_singleton] at hone

theorem remarksOnStatement_perm (statement : Statement) :
    (remarksOnStatement used statement).Perm
      ((emptyRule? statement).toList
        ++ statement.item?.toList.flatMap (onItem used) ++
        statement.bodies.flatMap (inList used)) := by
  cases statement with
  | assignment pos name expr =>
      rw [Statement.item?, Option.toList_some, List.flatMap_singleton]
      exact remarksOn_perm used (.assignment pos name expr)
  | rule pos selectors body =>
      have hbody := (remarksIn_perm used body).append_left (repeatedIn body)
      rw [← List.append_assoc] at hbody
      rw [Statement.item?, Option.toList_none, List.flatMap_nil,
        List.append_nil]
      exact hbody.append_left _
  | ifThen pos guard body =>
      rw [Statement.item?, Option.toList_some, List.flatMap_singleton]
      exact remarksOn_perm used (.ifThen pos guard body)
  | ifElse pos guard body elsePos otherwise =>
      rw [Statement.item?, Option.toList_some, List.flatMap_singleton]
      exact remarksOn_perm used (.ifElse pos guard body elsePos otherwise)

theorem flatMap_onItem_perm (items : List Item) :
    (items.flatMap (onItem used)).Perm
      (items.filterMap uncapitalised? ++ items.filterMap (unused? used) ++
        items.filterMap constantGuard?) := by
  simp only [List.filterMap_eq_flatMap_toList]
  have hnames :=
    List.flatMap_append_perm items (fun item => (uncapitalised? item).toList)
    fun item => (unused? used item).toList
  exact ((hnames.append_right _).trans
    (List.flatMap_append_perm items _ _)).symm

theorem flatMap_inList_perm (bodies : List (List Item)) :
    (bodies.flatMap (inList used)).Perm
      (bodies.flatMap repeatedIn ++ bodies.flatten.flatMap (onItem used)) := by
  rw [← List.flatMap_id, List.flatMap_assoc]
  exact (List.flatMap_append_perm bodies _ _).symm

theorem flatMap_remarksOnStatement_perm (sheet : Sheet) :
    (sheet.flatMap (remarksOnStatement used)).Perm
      (sheet.filterMap emptyRule?
        ++ (sheet.filterMap Statement.item?).flatMap (onItem used) ++
        (bodiesOf sheet).flatMap (inList used)) := by
  have hall :=
    List.Perm.flatMap_left sheet fun s _ => remarksOnStatement_perm used s
  rw [List.filterMap_eq_flatMap_toList, List.filterMap_eq_flatMap_toList,
    List.flatMap_assoc, bodiesOf, List.flatMap_assoc]
  have hsplit := List.flatMap_append_perm sheet (fun s => (emptyRule? s).toList)
    fun s => s.item?.toList.flatMap (onItem used)
  exact hall.trans
    ((hsplit.append_right _).trans (List.flatMap_append_perm sheet _ _)).symm

theorem remarks_perm (sheet : Sheet) :
    (sheet.flatMap (remarksOnStatement used)).Perm
      ((itemsOf sheet).filterMap uncapitalised?
        ++ (itemsOf sheet).filterMap (unused? used) ++
        sheet.filterMap emptyRule? ++ (bodiesOf sheet).flatMap repeatedIn ++
        (itemsOf sheet).filterMap constantGuard?) := by
  have hstatements := flatMap_remarksOnStatement_perm used sheet
  have hbodies := flatMap_inList_perm used (bodiesOf sheet)
  have hitems := flatMap_onItem_perm used (itemsOf sheet)
  rw [itemsOf, List.flatMap_append, ← itemsOf] at hitems
  rw [List.perm_iff_count] at hstatements hbodies hitems ⊢
  intro d
  have hsheet := hstatements d
  have hbody := hbodies d
  have hitem := hitems d
  simp only [List.count_append] at hsheet hbody hitem ⊢
  omega

end Once

end Lint

/-- The remarks on a source without syntax errors are those on its statements,
one after the other. -/
theorem lint_eq_remarks {source : List Char}
    (h : (parse source).diagnostics = []) :
    lint source = (parse source).sheet.flatMap
      (Lint.remarksOnStatement (namesOf (parse source).sheet)) := by
  obtain ⟨ts, hlexed, hsheet⟩ := exists_lexed_of_parse h
  have hused := Lint.usedNames_sheetTree (parse source).sheet
  rw [sheetTree, Tree.plain] at hused
  rw [lint_of_parse h, sheetTree, Tree.plain, Lint.inSheet, hused,
    Lint.repeats_statementTrees, Lint.inItems_statementTrees _ hsheet hlexed,
    List.nil_append]

/-- A source without syntax errors is given nothing but warnings on its style.
There is one for each assignment whose name does not start with an upper-case
letter, for each assignment whose name no expression reads, for each rule
without a body, for each declaration that has one of the same property in front
of it in its list, and for each conditional whose guard is a truth value. -/
theorem lint_exact {source : List Char} (h : (parse source).diagnostics = []) :
    (∀ d ∈ lint source, d.severity = .warning ∧ d.kind = .lint) ∧
      (lint source).Perm
        ((itemsOf (parse source).sheet).filterMap Lint.uncapitalised? ++
          (itemsOf (parse source).sheet).filterMap
            (Lint.unused? (namesOf (parse source).sheet)) ++
          (parse source).sheet.filterMap Lint.emptyRule? ++
          (bodiesOf (parse source).sheet).flatMap Lint.repeatedIn ++
          (itemsOf (parse source).sheet).filterMap Lint.constantGuard?) := by
  constructor
  · intro d hd
    rw [lint_of_parse h] at hd
    obtain ⟨label, remark, rfl, -⟩ := Lint.fair_inSheet _ d hd
    exact ⟨rfl, rfl⟩
  · rw [lint_eq_remarks h]
    exact Lint.remarks_perm _ _

/-- All kinds of remarks, in a conditional at top level and in one inside it. -/
theorem lint_exact_nested :
    let source := ("if [true] \x7b a := B; Width: 1px; if [B] \x7b \x7d " ++
      "else \x7b C := 2px; \x7d width: 3px; \x7d p, .q \x7b \x7d").toList
    (parse source).diagnostics = [] ∧
      (lint source).map Diagnostic.message =
        ["if condition is always true",
          "property 'width' is declared more than once in the same body",
          "variable 'a' should start with an upper-case letter",
          "variable 'a' is assigned but never used",
          "variable 'C' is assigned but never used",
          "stylerule 'p, .q' has an empty body"] ∧
      (lint source).Perm
        ((itemsOf (parse source).sheet).filterMap Lint.uncapitalised? ++
          (itemsOf (parse source).sheet).filterMap
            (Lint.unused? (namesOf (parse source).sheet)) ++
          (parse source).sheet.filterMap Lint.emptyRule? ++
          (bodiesOf (parse source).sheet).flatMap Lint.repeatedIn ++
          (itemsOf (parse source).sheet).filterMap Lint.constantGuard?) := by
  intro source
  have hparse : (parse source).diagnostics = [] := by decide +kernel
  refine ⟨hparse, ?_, (lint_exact hparse).2⟩
  decide +kernel

end Stylesheet
