import Stylesheet.Arena.OfSheet
import Stylesheet.Sheet.Parse

/-!
# Reading into an arena

A source is read straight into an arena.  Every node is added at the moment at
which reading comes to the end of it, behind the nodes that were added for its
parts, and the root is given a statement as soon as that has been added.  A
fault does not take a node back: a selector or an operand that is missing gets
a node of its own, and an item that breaks off is closed with what it has.

Each procedure comes with the law that it does the same as reading first and
storing at the end.  The laws also show that the loops come to an end.
-/

namespace Stylesheet

/-- The outcome of reading from a list of tokens into an arena. -/
structure Storing (α : Type) where
  value : α
  faults : List SyntaxFault
  rest : List Token
  arena : Arena

/-- What was read, with its value stored at the end. -/
def Reading.stored {α β : Type} (store : α → Arena → β × Arena)
    (r : Reading α) (a : Arena) : Storing β :=
  let s := store r.value a
  ⟨s.1, r.faults, r.rest, s.2⟩

namespace Storing

open Reading (current expect resume termSign? decimal numberLimit)

/-! ## Expressions -/

/-- Adds a node without parts at the place of a token. -/
def leaf (t : Token) (content : Content NodeId) (faults : List SyntaxFault)
    (rest : List Token) (a : Arena) : Storing NodeId :=
  let node := a.add t.pos content
  ⟨node.1, faults, rest, node.2⟩

def number (make : Int64 → Literal) (t : Token) (rest : List Token)
    (a : Arena) : Storing NodeId :=
  let n := decimal (t.text.toList.takeWhile Char.isDigit)
  if n < numberLimit then leaf t (.literal (make (Int64.ofNat n))) [] rest a
  else leaf t (.literal (make 0)) [.invalidNumber t] rest a

/-- What a name stands for: the truth values are recognised in any case. -/
def named (t : Token) : Content NodeId :=
  if Text.lowercase t.text = "true" then .literal (.bool true)
  else if Text.lowercase t.text = "false" then .literal (.bool false)
  else .reference t.text

/-- What stands in for an operand that could not be read. -/
def noOperand : Content NodeId :=
  .reference "<error>"

/-- A stray token gets a node, and is passed unless it ends the expression. -/
def atom (ts : List Token) (a : Arena) : Storing NodeId :=
  let t := current ts
  match t.kind with
  | .pixelSize => number .pixel t ts.tail a
  | .percentage => number .percentage t ts.tail a
  | .scalar => number .scalar t ts.tail a
  | .color => leaf t (.literal (.color t.text)) [] ts.tail a
  | .trueWord => leaf t (.literal (.bool true)) [] ts.tail a
  | .falseWord => leaf t (.literal (.bool false)) [] ts.tail a
  | .ident | .capitalIdent => leaf t (named t) [] ts.tail a
  | .semicolon | .rbracket | .rbrace =>
      leaf t noOperand [.strayInExpr t] ts a
  | _ => leaf t noOperand [.strayInExpr t] ts.tail a

theorem number_eq (make : Int64 → Literal) (t : Token) (rest : List Token)
    (a : Arena) :
    number make t rest a =
      (Reading.number make t rest).stored Expr.store a := by
  unfold number Reading.number
  dsimp only
  split <;> rfl

theorem leaf_named_eq (t : Token) (rest : List Token) (a : Arena) :
    leaf t (named t) [] rest a =
      Reading.stored Expr.store ⟨Reading.named t, [], rest⟩ a := by
  unfold named Reading.named
  split
  · rfl
  · split <;> rfl

theorem atom_eq (ts : List Token) (a : Arena) :
    atom ts a = (Reading.atom ts).stored Expr.store a := by
  unfold atom Reading.atom
  dsimp only
  generalize (current ts).kind = kind
  cases kind with
  | pixelSize | percentage | scalar => exact number_eq _ _ _ _
  | ident | capitalIdent => exact leaf_named_eq _ _ _
  | _ => rfl

theorem atom_rest_length_le (ts : List Token) (a : Arena) :
    (atom ts a).rest.length ≤ ts.length := by
  rw [atom_eq]
  exact Reading.atom_rest_length_le ts

/-- The factors after the first one, which has been added already. -/
def moreFactors (left : NodeId) (ts : List Token) (a : Arena) :
    Storing NodeId :=
  match ts with
  | [] => ⟨left, [], [], a⟩
  | t :: rest =>
      if t.kind = .star then
        let right := atom rest a
        have := atom_rest_length_le rest a
        let product :=
          right.arena.add t.pos (.operation .multiply left right.value)
        let more := moreFactors product.1 right.rest product.2
        ⟨more.value, right.faults ++ more.faults, more.rest, more.arena⟩
      else ⟨left, [], t :: rest, a⟩
termination_by ts.length

def term (ts : List Token) (a : Arena) : Storing NodeId :=
  let first := atom ts a
  let more := moreFactors first.value first.rest first.arena
  ⟨more.value, first.faults ++ more.faults, more.rest, more.arena⟩

/-- The node of the first factors is in the arena before the others are read. -/
theorem moreFactors_eq (left : Expr) (ts : List Token) (a : Arena) :
    moreFactors (left.store a).1 ts (left.store a).2 =
      (Reading.moreFactors left ts).stored Expr.store a := by
  fun_induction Reading.moreFactors left ts with
  | case1 left => rw [moreFactors]; rfl
  | case2 left t rest hstar right _ more ih =>
      simp only [Expr.store] at ih
      rw [moreFactors, if_pos hstar]
      simp only [atom_eq, Reading.stored] at ih ⊢
      rw [ih]
  | case3 left t rest hstar =>
      rw [moreFactors, if_neg hstar]
      rfl

theorem term_eq (ts : List Token) (a : Arena) :
    term ts a = (Reading.term ts).stored Expr.store a := by
  have hmore := moreFactors_eq (Reading.atom ts).value (Reading.atom ts).rest a
  simp only [term, atom_eq, Reading.stored, hmore]
  rfl

theorem term_rest_length_le (ts : List Token) (a : Arena) :
    (term ts a).rest.length ≤ ts.length := by
  rw [term_eq]
  exact Reading.term_rest_length_le ts

/-- The terms after the first one, which has been added already. -/
def moreTerms (left : NodeId) (ts : List Token) (a : Arena) : Storing NodeId :=
  match ts with
  | [] => ⟨left, [], [], a⟩
  | t :: rest =>
      match termSign? t.kind with
      | some op =>
          let right := term rest a
          have := term_rest_length_le rest a
          let sum := right.arena.add t.pos (.operation op left right.value)
          let more := moreTerms sum.1 right.rest sum.2
          ⟨more.value, right.faults ++ more.faults, more.rest, more.arena⟩
      | none => ⟨left, [], t :: rest, a⟩
termination_by ts.length

def expr (ts : List Token) (a : Arena) : Storing NodeId :=
  let first := term ts a
  let more := moreTerms first.value first.rest first.arena
  ⟨more.value, first.faults ++ more.faults, more.rest, more.arena⟩

theorem moreTerms_eq (left : Expr) (ts : List Token) (a : Arena) :
    moreTerms (left.store a).1 ts (left.store a).2 =
      (Reading.moreTerms left ts).stored Expr.store a := by
  fun_induction Reading.moreTerms left ts with
  | case1 left => rw [moreTerms]; rfl
  | case2 left t rest op hop right _ more ih =>
      simp only [Expr.store] at ih
      rw [moreTerms, hop]
      simp only [term_eq, Reading.stored] at ih ⊢
      rw [ih]
  | case3 left t rest hop =>
      rw [moreTerms, hop]
      rfl

theorem expr_eq (ts : List Token) (a : Arena) :
    expr ts a = (Reading.expr ts).stored Expr.store a := by
  have hmore := moreTerms_eq (Reading.term ts).value (Reading.term ts).rest a
  simp only [expr, term_eq, Reading.stored, hmore]
  rfl

/-! ## Bodies -/

/-- A declaration or an assignment, beginning with the name `t`.  The name is
added before the sign behind it is looked for, and the whole at the end, even
if the semicolon is missing. -/
def binding (sign : TokenKind) (name : String → Content NodeId)
    (whole : NodeId → NodeId → Content NodeId) (t : Token) (rest : List Token)
    (a : Arena) : Storing NodeId :=
  let head := a.add t.pos (name t.text)
  let mark := expect sign rest
  let value := expr mark.rest head.2
  let semicolon := expect .semicolon value.rest
  let node := value.arena.add t.pos (whole head.1 value.value)
  ⟨node.1, mark.faults ++ value.faults ++ semicolon.faults, semicolon.rest,
    node.2⟩

def declaration : Token → List Token → Arena → Storing NodeId :=
  binding .colon .propertyName .declaration

def assignment : Token → List Token → Arena → Storing NodeId :=
  binding .assign .reference .assignment

/-- An item of a body that is not a conditional; none if `t` cannot begin an
item, and then nothing is added. -/
def simpleItem (t : Token) (rest : List Token) (a : Arena) :
    Storing (Option NodeId) :=
  let ahead := (current rest).kind
  if (t.kind = .ident ∨ t.kind = .capitalIdent) ∧ ahead = .assign then
    let node := assignment t rest a
    ⟨some node.value, node.faults, node.rest, node.arena⟩
  else if t.kind = .ident ∨ (t.kind = .capitalIdent ∧ ahead = .colon) then
    let node := declaration t rest a
    ⟨some node.value, node.faults, node.rest, node.arena⟩
  else ⟨none, [.strayInBody t], resume t rest, a⟩

/-- A body between braces, its items being read by `inner`. -/
def blockOf (inner : List Token → Arena → Storing (List NodeId))
    (ts : List Token) (a : Arena) : Storing (List NodeId) :=
  let opening := expect .lbrace ts
  let body := inner opening.rest a
  let closing := expect .rbrace body.rest
  ⟨body.value, opening.faults ++ body.faults ++ closing.faults, closing.rest,
    body.arena⟩

/-- A conditional behind its first word, which stands at `pos`.  Its node is
the last one to be added, behind that of the alternative. -/
def conditionalOf (inner : List Token → Arena → Storing (List NodeId))
    (pos : Position) (ts : List Token) (a : Arena) : Storing NodeId :=
  let opening := expect .lbracket ts
  let guard := expr opening.rest a
  let closing := expect .rbracket guard.rest
  let body := blockOf inner closing.rest guard.arena
  let faults := opening.faults ++ guard.faults ++ closing.faults ++ body.faults
  if (current body.rest).kind = .elseWord then
    let otherwise := blockOf inner body.rest.tail body.arena
    let clause := otherwise.arena.add (current body.rest).pos
      (.elseClause otherwise.value)
    let node := clause.2.add pos (.ifClause guard.value body.value clause.1)
    ⟨node.1, faults ++ otherwise.faults, otherwise.rest, node.2⟩
  else
    let node := body.arena.add pos (.ifClause guard.value body.value noNode)
    ⟨node.1, faults, body.rest, node.2⟩

/-- The items up to a closing brace or the end of input, from at most `n`
tokens. -/
def itemsWithin : Nat → List Token → Arena → Storing (List NodeId)
  | _, [], a => ⟨[], [], [], a⟩
  | 0, ts, a => ⟨[], [], ts, a⟩
  | n + 1, t :: rest, a =>
      if t.kind = .rbrace ∨ t.kind = .eof then ⟨[], [], t :: rest, a⟩
      else if t.kind = .ifWord then
        let first := conditionalOf (itemsWithin n) t.pos rest a
        let more := itemsWithin n first.rest first.arena
        ⟨first.value :: more.value, first.faults ++ more.faults, more.rest,
          more.arena⟩
      else
        let first := simpleItem t rest a
        let more := itemsWithin n first.rest first.arena
        ⟨first.value.toList ++ more.value, first.faults ++ more.faults,
          more.rest, more.arena⟩

/-- The items up to a closing brace or the end of input. -/
def items (ts : List Token) (a : Arena) : Storing (List NodeId) :=
  itemsWithin ts.length ts a

/-- A body between braces. -/
def block (ts : List Token) (a : Arena) : Storing (List NodeId) :=
  blockOf items ts a

/-- A conditional behind its first word, which stands at `pos`. -/
def conditional (pos : Position) (ts : List Token) (a : Arena) :
    Storing NodeId :=
  conditionalOf items pos ts a

/-- Stores what there is. -/
def storeOption {α : Type} (store : α → Arena → NodeId × Arena) :
    Option α → Arena → Option NodeId × Arena
  | some x, a => (some (store x a).1, (store x a).2)
  | none, a => (none, a)

theorem declaration_eq (t : Token) (rest : List Token) (a : Arena) :
    declaration t rest a =
      (Reading.binding .colon rest).stored
        (storeDeclaration t.pos t.text) a := by
  simp only [declaration, binding, expr_eq]
  rfl

theorem assignment_eq (t : Token) (rest : List Token) (a : Arena) :
    assignment t rest a =
      (Reading.binding .assign rest).stored
        (storeAssignment t.pos t.text) a := by
  simp only [assignment, binding, expr_eq]
  rfl

theorem simpleItem_eq (t : Token) (rest : List Token) (a : Arena) :
    simpleItem t rest a =
      (Reading.simpleItem t rest).stored (storeOption Item.store) a := by
  unfold simpleItem Reading.simpleItem
  simp only [assignment_eq, declaration_eq]
  split
  · simp only [Reading.stored, storeOption, Item.store]
  · split
    · simp only [Reading.stored, storeOption, Item.store]
    · rfl

section Inner

variable {inner : List Token → Arena → Storing (List NodeId)}
  {inner' : List Token → Reading (List Item)}
  (h : ∀ ts a, inner ts a = (inner' ts).stored storeItems a)

include h

theorem blockOf_eq (ts : List Token) (a : Arena) :
    blockOf inner ts a = (Reading.blockOf inner' ts).stored storeItems a := by
  simp only [blockOf, h]
  rfl

theorem conditionalOf_eq (pos : Position) (ts : List Token) (a : Arena) :
    conditionalOf inner pos ts a =
      (Reading.conditionalOf inner' ts).stored
        (fun branches => (branches.item pos).store) a := by
  unfold conditionalOf Reading.conditionalOf
  simp only [expr_eq, blockOf_eq h, Reading.stored]
  split
  · simp only [Reading.Branches.item, Item.store]
  · simp only [Reading.Branches.item, Item.store]

end Inner

theorem storeItems_append (front back : List Item) (a : Arena) :
    storeItems (front ++ back) a =
      let first := storeItems front a
      let more := storeItems back first.2
      (first.1 ++ more.1, more.2) := by
  induction front generalizing a with
  | nil => rfl
  | cons item front ih => simp only [List.cons_append, storeItems, ih]

theorem storeItems_toList (item? : Option Item) (a : Arena) :
    storeItems item?.toList a =
      ((storeOption Item.store item? a).1.toList,
        (storeOption Item.store item? a).2) := by
  cases item? <;> rfl

theorem itemsWithin_eq (n : Nat) (ts : List Token) (a : Arena) :
    itemsWithin n ts a =
      (Reading.itemsWithin n ts).stored storeItems a := by
  induction n generalizing ts a with
  | zero => cases ts <;> rfl
  | succ n ih =>
      cases ts with
      | nil => rfl
      | cons t rest =>
          unfold itemsWithin Reading.itemsWithin
          dsimp only
          split
          · rfl
          · split
            · rw [conditionalOf_eq ih]
              simp only [ih, Reading.stored, storeItems]
            · rw [simpleItem_eq]
              simp only [ih, Reading.stored, storeItems_append,
                storeItems_toList]

theorem items_eq (ts : List Token) (a : Arena) :
    items ts a = (Reading.items ts).stored storeItems a :=
  itemsWithin_eq _ _ _

theorem block_eq (ts : List Token) (a : Arena) :
    block ts a = (Reading.block ts).stored storeItems a :=
  blockOf_eq items_eq ts a

theorem conditional_eq (pos : Position) (ts : List Token) (a : Arena) :
    conditional pos ts a =
      (Reading.conditional ts).stored
        (fun branches => (branches.item pos).store) a :=
  conditionalOf_eq items_eq pos ts a

/-! ## Statements -/

/-- What is no selector gets the node of one all the same. -/
def selector (ts : List Token) (a : Arena) : Storing NodeId :=
  let t := current ts
  let content : Content NodeId := .selector (Text.lowercase t.text)
  match t.kind with
  | .ident | .classIdent | .idIdent => leaf t content [] ts.tail a
  | _ => leaf t content [.expectedSelector t] ts a

/-- Stores a selector. -/
def storeSelector (s : Selector) (a : Arena) : NodeId × Arena :=
  a.add s.pos (.selector s.text)

theorem selector_eq (ts : List Token) (a : Arena) :
    selector ts a = (Reading.selector ts).stored storeSelector a := by
  unfold selector Reading.selector
  dsimp only
  generalize (current ts).kind = kind
  cases kind <;> rfl

theorem selector_rest_length_le (ts : List Token) (a : Arena) :
    (selector ts a).rest.length ≤ ts.length := by
  rw [selector_eq]
  exact Reading.selector_rest_length_le ts

/-- The selectors after the first one. -/
def moreSelectors (ts : List Token) (a : Arena) : Storing (List NodeId) :=
  match ts with
  | [] => ⟨[], [], [], a⟩
  | t :: rest =>
      if t.kind = .comma then
        let first := selector rest a
        have := selector_rest_length_le rest a
        let more := moreSelectors first.rest first.arena
        ⟨first.value :: more.value, first.faults ++ more.faults, more.rest,
          more.arena⟩
      else ⟨[], [], t :: rest, a⟩
termination_by ts.length

theorem moreSelectors_eq (ts : List Token) (a : Arena) :
    moreSelectors ts a =
      (Reading.moreSelectors ts).stored storeSelectors a := by
  fun_induction Reading.moreSelectors ts generalizing a with
  | case1 => rw [moreSelectors]; rfl
  | case2 t rest hcomma first _ more ih =>
      have hmore := ih (storeSelector first.value a).2
      rw [moreSelectors, if_pos hcomma]
      simp only [selector_eq, Reading.stored] at hmore ⊢
      rw [hmore]
      rfl
  | case3 t rest hcomma =>
      rw [moreSelectors, if_neg hcomma]
      rfl

/-- A rule, beginning with the token `t`, which can begin a selector. -/
def rule (t : Token) (rest : List Token) (a : Arena) : Storing NodeId :=
  let first := a.add t.pos (.selector (Text.lowercase t.text))
  let more := moreSelectors rest first.2
  let body := block more.rest more.arena
  let node := body.arena.add t.pos
    (.stylerule (first.1 :: more.value) body.value)
  ⟨node.1, more.faults ++ body.faults, body.rest, node.2⟩

theorem rule_eq (t : Token) (rest : List Token) (a : Arena) :
    rule t rest a = (Reading.rule t rest).stored Statement.store a := by
  simp only [rule, moreSelectors_eq, block_eq]
  rfl

/-- A statement at top level beginning with the token `t`; none if `t` cannot
begin one, and then nothing is added. -/
def statement (t : Token) (rest : List Token) (a : Arena) :
    Storing (Option NodeId) :=
  if t.kind = .capitalIdent ∨
      (t.kind = .ident ∧ (current rest).kind = .assign) then
    let node := assignment t rest a
    ⟨some node.value, node.faults, node.rest, node.arena⟩
  else if t.kind = .ifWord then
    let node := conditional t.pos rest a
    ⟨some node.value, node.faults, node.rest, node.arena⟩
  else if t.kind = .ident ∨ t.kind = .classIdent ∨ t.kind = .idIdent then
    let node := rule t rest a
    ⟨some node.value, node.faults, node.rest, node.arena⟩
  else ⟨none, [.strayAtTop t], resume t rest, a⟩

theorem store_statement (branches : Reading.Branches) (pos : Position)
    (a : Arena) :
    (branches.statement pos).store a = (branches.item pos).store a := by
  obtain ⟨guard, body, otherwise⟩ := branches
  cases otherwise <;> rfl

theorem statement_eq (t : Token) (rest : List Token) (a : Arena) :
    statement t rest a =
      (Reading.statement t rest).stored (storeOption Statement.store) a := by
  unfold statement Reading.statement
  simp only [assignment_eq, conditional_eq, rule_eq]
  split
  · rfl
  · split
    · simp only [Reading.stored, storeOption, store_statement]
    · split <;> rfl

theorem statement_rest_length_le (t : Token) (rest : List Token) (a : Arena) :
    (statement t rest a).rest.length ≤ rest.length := by
  rw [statement_eq]
  exact Reading.statement_rest_length_le t rest

/-- Gives the sheet at the root one more item. -/
def link (id : NodeId) (a : Arena) : Arena :=
  a.modify a.root fun node =>
    match node.content with
    | .stylesheet body => { node with content := .stylesheet (body ++ [id]) }
    | _ => node

/-- Gives the sheet at the root an item if there is one. -/
def link? (id? : Option NodeId) (a : Arena) : Arena :=
  match id? with
  | some id => link id a
  | none => a

/-- The statements up to the end of input. -/
def statements (ts : List Token) (a : Arena) : Storing Unit :=
  match ts with
  | [] => ⟨(), [], [], a⟩
  | t :: rest =>
      if t.kind = .eof then ⟨(), [], t :: rest, a⟩
      else
        let first := statement t rest a
        have := statement_rest_length_le t rest a
        let more := statements first.rest (link? first.value first.arena)
        ⟨(), first.faults ++ more.faults, more.rest, more.arena⟩
termination_by ts.length

end Storing

/-- The arena of the sheet that was read. -/
def Parsed.arena (p : Parsed) : Arena :=
  .ofSheet p.sheet

/-- The arena that a source was read into, with what was wrong with the
source. -/
structure Loaded where
  arena : Arena
  faults : List SyntaxFault

/-- Reads a source, given by its bytes, into an arena. -/
def load (source : List Char) : Loaded :=
  let r := Storing.statements (Scan.scan source) .empty
  ⟨r.arena, r.faults⟩

/-- The syntax errors of a source, in the order in which they are met. -/
def Loaded.diagnostics (l : Loaded) : Diagnostics :=
  l.faults.map SyntaxFault.diagnostic

end Stylesheet
