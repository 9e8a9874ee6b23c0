import Stylesheet.Canonical
import Stylesheet.Proofs.Places
import Stylesheet.Proofs.Spelling

/-!
# Writing and reading back

A tree of the form that the grammar gives is read back from its canonical text,
whatever the numbers and places of its nodes.  For each construct the text is
read token by token, the tokens are derived by the grammar, and what they derive
has the form of the tree.
-/

namespace Stylesheet

open Scan Grammar Reading

/-! ## The form of a tree -/

/-- A tree without the numbers, places and diagnostics of its nodes. -/
def Tree.shape (t : Tree) : Tree :=
  t.relabel fun _ => ⟨0, Token.nowhere.pos, none⟩

@[simp] theorem Tree.shape_missing : Tree.missing.shape = .missing :=
  relabel_missing _

@[simp] theorem Tree.shape_node (label : Label) (c : Content Tree) :
    (Tree.node label c).shape =
      .node ⟨0, Token.nowhere.pos, none⟩ (c.map Tree.shape) :=
  relabel_node _ label c

theorem Tree.shape_relabel (f : Label → Label) (t : Tree) :
    (t.relabel f).shape = t.shape :=
  relabel_relabel _ f t

namespace Canonical

/-- Values that can be written as literals. -/
def Writable : Literal → Prop
  | .pixel n | .percentage n | .scalar n => 0 ≤ n.toInt
  | .color text =>
      ∃ digits, text.toList = '#' :: digits ∧ digits.length = 6 ∧
        ∀ d ∈ digits, isHexDigit d = true
  | .bool _ => True

/-- Texts that are read as one name. -/
def IsNameText (text : String) : Prop :=
  LexesAs .ident text ∨ LexesAs .capitalIdent text

/-- Lower-case texts that are read as one selector. -/
def IsSelectorText (text : String) : Prop :=
  Text.lowercase text = text ∧
    (LexesAs .ident text ∨ LexesAs .classIdent text ∨ LexesAs .idIdent text)

instance (text : String) : Decidable (IsNameText text) :=
  inferInstanceAs (Decidable (LexesAs .ident text ∨ LexesAs .capitalIdent text))

theorem IsNameText.ne_empty {name : String} (h : IsNameText name) :
    name ≠ "" := by
  rintro rfl
  exact absurd h (by decide +kernel)

instance (text : String) : Decidable (IsSelectorText text) :=
  inferInstanceAs (Decidable (Text.lowercase text = text ∧
    (LexesAs .ident text ∨ LexesAs .classIdent text ∨ LexesAs .idIdent text)))

def IsSum : Tree → Prop
  | .node _ (.operation .add _ _) | .node _ (.operation .subtract _ _) => True
  | _ => False

def IsOperation : Tree → Prop
  | .node _ (.operation _ _ _) => True
  | _ => False

/-- Operands that need no parentheses, as sums and products group to the left
and products bind tighter. -/
def Grouped : Operator → Tree → Tree → Prop
  | .add, _, right | .subtract, _, right => ¬ IsSum right
  | .multiply, left, right => ¬ IsSum left ∧ ¬ IsOperation right

inductive ExprTree : Tree → Prop
  | literal {label : Label} {value : Literal} (h : Writable value) :
      ExprTree (.node label (.literal value))
  | reference {label : Label} {name : String} (hname : IsNameText name)
      (htruth : Text.lowercase name ≠ "true" ∧ Text.lowercase name ≠ "false") :
      ExprTree (.node label (.reference name))
  | operation {label : Label} {op : Operator} {left right : Tree}
      (hleft : ExprTree left) (hright : ExprTree right)
      (hgrouped : Grouped op left right) :
      ExprTree (.node label (.operation op left right))

/-- The items of bodies, with conditionals nested to any depth. -/
inductive ItemTree : Tree → Prop
  | declaration {label nameLabel : Label} {property : String} {expr : Tree}
      (hname : IsNameText property) (hexpr : ExprTree expr) :
      ItemTree (.node label
        (.declaration (.node nameLabel (.propertyName property)) expr))
  | assignment {label nameLabel : Label} {name : String} {expr : Tree}
      (hname : IsNameText name) (hexpr : ExprTree expr) :
      ItemTree (.node label
        (.assignment (.node nameLabel (.reference name)) expr))
  | ifThen {label : Label} {guard : Tree} {body : List Tree}
      (hguard : ExprTree guard) (hbody : ∀ t ∈ body, ItemTree t) :
      ItemTree (.node label (.ifClause guard body .missing))
  | ifElse {label elseLabel : Label} {guard : Tree} {body otherwise : List Tree}
      (hguard : ExprTree guard) (hbody : ∀ t ∈ body, ItemTree t)
      (hotherwise : ∀ t ∈ otherwise, ItemTree t) :
      ItemTree (.node label
        (.ifClause guard body (.node elseLabel (.elseClause otherwise))))

inductive SelectorTree : Tree → Prop
  | intro {label : Label} {text : String} (h : IsSelectorText text) :
      SelectorTree (.node label (.selector text))

inductive StatementTree : Tree → Prop
  | assignment {label nameLabel : Label} {name : String} {expr : Tree}
      (hname : IsNameText name) (hexpr : ExprTree expr) :
      StatementTree (.node label
        (.assignment (.node nameLabel (.reference name)) expr))
  | rule {label : Label} {selectors body : List Tree} (hne : selectors ≠ [])
      (hselectors : ∀ t ∈ selectors, SelectorTree t)
      (hbody : ∀ t ∈ body, ItemTree t) :
      StatementTree (.node label (.stylerule selectors body))
  | conditional {label : Label} {guard otherwise : Tree} {body : List Tree}
      (h : ItemTree (.node label (.ifClause guard body otherwise))) :
      StatementTree (.node label (.ifClause guard body otherwise))

/-- Trees of the form that the grammar gives. -/
inductive SheetTree : Tree → Prop
  | intro {label : Label} {statements : List Tree}
      (h : ∀ t ∈ statements, StatementTree t) :
      SheetTree (.node label (.stylesheet statements))

/-! ## Expressions -/

/-- The text of the tree is read as tokens that derive an expression of the form
of the tree. -/
def ReadsBack (Derived : List Token → Expr → Prop) (t : Tree) : Prop :=
  ∃ ts e, Spells (exprText t) ts ∧ Derived ts e ∧
    ∀ n, (e.treeAt n).shape = t.shape

theorem ReadsBack.mono
    {D D' : List Token → Expr → Prop} {t : Tree}
    (hD : ∀ {ts e}, D ts e → D' ts e) (h : ReadsBack D t) : ReadsBack D' t := by
  obtain ⟨ts, e, hspells, hderived, hshape⟩ := h
  exact ⟨ts, e, hspells, hD hderived, hshape⟩

theorem IsNameText.spells
    {name : String} (h : IsNameText name) :
    ∃ t : Token, Spells name [t] ∧ IsName t ∧ t.text = name := by
  rcases h with h | h
  · exact ⟨.bare .ident name, h.spells (by decide) (by decide), .inl rfl, rfl⟩
  · exact ⟨.bare .capitalIdent name, h.spells (by decide) (by decide),
      .inr rfl, rfl⟩

/-- A number with its unit is read as one token of the given class. -/
theorem spells_number
    {n : Int64} (h : 0 ≤ n.toInt) {kind : TokenKind} {unit : String}
    (hkind : kind ≠ .illegal)
    (hlexeme : ∀ {c digits}, (∀ d ∈ c :: digits, d.isDigit = true) →
      Lexeme kind (c :: (digits ++ unit.toList))) :
    Spells (toString n.toInt ++ unit)
      [.bare kind (toString n.toInt ++ unit)] := by
  obtain ⟨c, digits, htext, hdigits, -⟩ := exists_digits h
  refine Lexeme.spells ?_ hkind
  rw [String.toList_append, htext]
  exact hlexeme hdigits

theorem Writable.atom
    {value : Literal} (h : Writable value) :
    ∃ t : Token, Spells (literalText value) [t] ∧
      Atom [t] (.literal t.pos value) := by
  cases value with
  | pixel n =>
      exact ⟨_, spells_number h (by decide) .pixelSize,
        .pixel rfl (numeral_toString h .pixelSize (by simp))⟩
  | percentage n =>
      exact ⟨_, spells_number h (by decide) .percentage,
        .percentage rfl (numeral_toString h .percentage (by simp))⟩
  | scalar n =>
      let t := Token.bare .scalar (toString n.toInt ++ "")
      have hnumeral : Numeral t n := numeral_toString h .scalar (by simp)
      have hspells : Spells (toString n.toInt ++ "") [t] :=
        spells_number h (by decide) fun hdigits => by
          simpa using Lexeme.scalar hdigits
      rw [String.append_empty] at hspells
      exact ⟨t, hspells, .scalar rfl hnumeral⟩
  | color text =>
      obtain ⟨digits, htext, hlength, hdigits⟩ := h
      have hlexeme : Lexeme .color text.toList := by
        rw [htext]
        exact .color hlength hdigits
      exact ⟨.bare .color text, hlexeme.spells (by decide), .color rfl⟩
  | bool b =>
      cases b with
      | true =>
          have hword : LexesAs .trueWord "TRUE" := by decide +kernel
          exact ⟨_, hword.spells (by decide) (by decide), .trueWord rfl⟩
      | false =>
          have hword : LexesAs .falseWord "FALSE" := by decide +kernel
          exact ⟨_, hword.spells (by decide) (by decide), .falseWord rfl⟩

/-- The class of the sign of an operator. -/
def signKind : Operator → TokenKind
  | .add => .plus
  | .subtract => .minus
  | .multiply => .star

theorem fills_operator (op : Operator) :
    Fills op.sign [.bare (signKind op) op.sign] := by
  cases op with
  | add => exact fills_sign rfl (by decide) (by decide)
  | subtract => exact fills_sign rfl (by decide) (by decide)
  | multiply => exact fills_sign rfl (by decide) (by decide)

theorem spells_operation
    {left right : String} {ts us : List Token} (op : Operator)
    (hleft : Spells left ts) (hright : Spells right us) :
    Spells (left ++ " " ++ op.sign ++ " " ++ right)
      (ts ++ .bare (signKind op) op.sign :: us) := by
  have hspace := hleft.append_fills fills_space (by decide)
  have hspells :=
    ((hspace.append (fills_operator op)).append fills_space).append_spells
      hright
  simpa using hspells

theorem ReadsBack.operation
    {Left Right Whole : List Token → Expr → Prop} {left right : Tree}
    {op : Operator}
    (hwhole : ∀ {ts us : List Token} {l r : Expr} {sign : Token}, Left ts l →
      sign.kind = signKind op → Right us r →
        Whole (ts ++ sign :: us) (.operation sign.pos op l r))
    (hleft : ReadsBack Left left) (hright : ReadsBack Right right)
    (label : Label) :
    ReadsBack Whole (.node label (.operation op left right)) := by
  obtain ⟨ts, l, hspells, hderived, hshape⟩ := hleft
  obtain ⟨us, r, hspells', hderived', hshape'⟩ := hright
  refine ⟨_, _, spells_operation op hspells hspells',
    hwhole hderived rfl hderived', fun n => ?_⟩
  simp [Expr.treeAt, Tree.plain, Content.map, hshape, hshape']

/-- An expression is read back from its text: as an operand if it is no
operation, and as a term if it is no sum. -/
theorem ExprTree.readsBack
    {t : Tree} (h : ExprTree t) :
    (¬ IsOperation t → ReadsBack Atom t) ∧ (¬ IsSum t → ReadsBack Term t) ∧
      ReadsBack Expression t := by
  -- All three are needed at once: what an operand is read as depends on where
  -- it stands.
  have hatom : ∀ {t}, ReadsBack Atom t →
      (¬ IsOperation t → ReadsBack Atom t) ∧ (¬ IsSum t → ReadsBack Term t) ∧
        ReadsBack Expression t := fun hread =>
    ⟨fun _ => hread, fun _ => hread.mono .atom, hread.mono fun h =>
      .term (.atom h)⟩
  induction h with
  | literal h =>
      obtain ⟨t, hspells, hderived⟩ := h.atom
      exact hatom ⟨[t], _, hspells, hderived, fun n => by
        simp [Expr.treeAt, Tree.plain, Content.map]⟩
  | reference hname htruth =>
      obtain ⟨t, hspells, hkind, rfl⟩ := hname.spells
      exact hatom ⟨[t], _, hspells, .reference hkind htruth.1 htruth.2,
        fun n => by
        simp [Expr.treeAt, Tree.plain, Content.map]⟩
  | @operation label op left right _ _ hgrouped ihl ihr =>
      cases op with
      | add =>
          refine ⟨fun h => absurd trivial h, fun h => absurd trivial h, ?_⟩
          exact ReadsBack.operation .sum ihl.2.2 (ihr.2.1 hgrouped) label
      | subtract =>
          refine ⟨fun h => absurd trivial h, fun h => absurd trivial h, ?_⟩
          exact ReadsBack.operation .difference ihl.2.2 (ihr.2.1 hgrouped) label
      | multiply =>
          have hterm : ReadsBack Term
              (.node label (.operation .multiply left right)) :=
            ReadsBack.operation .product (ihl.2.1 hgrouped.1)
              (ihr.1 hgrouped.2) label
          exact ⟨fun h => absurd trivial h, fun _ => hterm, hterm.mono .term⟩

/-! ## Lines -/

/-- The tokens are read from the lines, whatever lines are behind them. -/
def FillLines (lines : List String) (ts : List Token) : Prop :=
  Fills (String.join (lines.map (· ++ "\n"))) ts

theorem fillLines_nil : FillLines [] [] :=
  fills_empty

theorem FillLines.append
    {lines lines' : List String} {ts us : List Token} (h : FillLines lines ts)
    (h' : FillLines lines' us) : FillLines (lines ++ lines') (ts ++ us) := by
  rw [FillLines, List.map_append, String.join_append]
  exact Fills.append h h'

theorem layout_replicate (n : Nat) : Layout (List.replicate n ' ') := by
  induction n with
  | zero => exact .nil
  | succ n ih => exact .blank rfl ih

theorem fills_indent (depth : Nat) :
    Fills (String.ofList (List.replicate (4 * depth) ' ')) [] := by
  apply fills_layout
  rw [bytesOf_eq_toList, String.toList_ofList]
  · exact layout_replicate _
  · rw [String.toList_ofList]
    intro c hc
    rw [List.eq_of_mem_replicate hc]
    decide

theorem fillLines_line
    {text : String} {ts : List Token} (h : Spells text ts) (depth : Nat) :
    FillLines [line depth text] ts := by
  have hline :=
    ((fills_indent depth).append_spells h).append_fills fills_newline
      (by decide)
  simpa [FillLines, line] using hline

theorem fillLines_empty : FillLines [""] [] := by
  simpa [FillLines] using fills_newline

/-! ## Items -/

/-- A name, a sign and an expression are read back from their text. -/
theorem fills_binding
    {sign : TokenKind} {mark : Token} {markText : String}
    (hmark : mark.kind = sign) (hfills : Fills markText [mark])
    (hapart : Apart markText) {name : String} (hname : IsNameText name)
    {expr : Tree} (hexpr : ExprTree expr) :
    ∃ ts t e, Fills (name ++ markText ++ exprText expr ++ ";") ts ∧
      Binding sign ts t e ∧
      t.text = name ∧ ∀ n, (e.treeAt n).shape = expr.shape := by
  obtain ⟨t, hspells, hkind, htext⟩ := hname.spells
  obtain ⟨ts, e, hspells', hderived, hshape⟩ := hexpr.readsBack.2.2
  have hfills' :=
    ((hspells.append_fills hfills hapart).append_spells hspells').append_fills
    fills_semicolon (by decide)
  exact ⟨_, t, e, hfills', .intro hkind hmark hderived rfl, htext, hshape⟩

/-- The lines of the tree, at any depth, are read as tokens that derive an item
of the form of the tree. -/
def ItemReadsBack (t : Tree) : Prop :=
  ∃ ts item, (∀ depth, FillLines (itemLines depth t) ts) ∧ BodyItem ts item ∧
    ∀ n, (item.treeAt n).shape = t.shape

theorem body_readsBack
    {body : List Tree} (h : ∀ t ∈ body, ItemReadsBack t) :
    ∃ ts items, (∀ depth, FillLines (bodyLines depth body) ts) ∧ Body ts items ∧
      ∀ n, (itemTrees n items).map Tree.shape = body.map Tree.shape := by
  induction body with
  | nil => exact ⟨[], [], fun _ => fillLines_nil, .nil, fun _ => rfl⟩
  | cons t body ih =>
      rw [List.forall_mem_cons] at h
      obtain ⟨ts, item, hlines, hitem, hshape⟩ := h.1
      obtain ⟨us, items, hlines', hitems, hshape'⟩ := ih h.2
      refine ⟨ts ++ us, item :: items, fun depth => ?_, .cons hitem hitems,
        fun n => ?_⟩
      · rw [bodyLines]
        exact (hlines depth).append (hlines' depth)
      · rw [itemTrees, List.map_cons, List.map_cons, hshape, hshape']

theorem fills_lbrace : Fills " \x7b" [.bare .lbrace "\x7b"] := by
  have htext : " \x7b" = " " ++ "\x7b" := by decide +kernel
  rw [htext]
  exact fills_space.append (fills_sign rfl (by decide) (by decide))

theorem fills_rbrace : Fills "\x7d" [.bare .rbrace "\x7d"] :=
  fills_sign rfl (by decide) (by decide)

theorem spells_if : Spells "if" [.bare .ifWord "if"] := by
  have hword : LexesAs .ifWord "if" := by decide +kernel
  exact hword.spells (by decide) (by decide)

theorem spells_else : Spells "else" [.bare .elseWord "else"] := by
  have hword : LexesAs .elseWord "else" := by decide +kernel
  exact hword.spells (by decide) (by decide)

theorem fills_if : Fills "if [" [.bare .ifWord "if", .bare .lbracket "["] := by
  have hspace := spells_if.append_fills fills_space (by decide)
  have htext : "if [" = "if" ++ " " ++ "[" := by decide +kernel
  rw [htext]
  exact hspace.append (fills_sign rfl (by decide) (by decide))

theorem fills_then :
    Fills "] \x7b" [.bare .rbracket "]", .bare .lbrace "\x7b"] := by
  have hclosing : Fills "]" [.bare .rbracket "]"] :=
    fills_sign rfl (by decide) (by decide)
  have htext : "] \x7b" = "]" ++ " \x7b" := by decide +kernel
  rw [htext]
  exact hclosing.append fills_lbrace

theorem fills_else :
    Fills "\x7d else \x7b"
      [.bare .rbrace "\x7d", .bare .elseWord "else", .bare .lbrace "\x7b"] := by
  have hother := spells_else.append_fills fills_lbrace (by decide)
  have htext : "\x7d else \x7b" = "\x7d" ++ " " ++ ("else" ++ " \x7b") := by
    decide +kernel
  rw [htext]
  exact (fills_rbrace.append fills_space).append hother

theorem fills_guard
    {guard : Tree} (h : ExprTree guard) :
    ∃ gs e, Fills ("if [" ++ exprText guard ++ "] \x7b")
        (.bare .ifWord "if" :: .bare .lbracket "[" :: gs ++
          [.bare .rbracket "]", .bare .lbrace "\x7b"]) ∧
      Expression gs e ∧ ∀ n, (e.treeAt n).shape = guard.shape := by
  obtain ⟨gs, e, hspells, hderived, hshape⟩ := h.readsBack.2.2
  have hfills :=
    (fills_if.append_spells hspells).append_fills fills_then (by decide)
  exact ⟨gs, e, hfills, hderived, hshape⟩

/-- A body between braces. -/
def enclosed (ts : List Token) : List Token :=
  .bare .lbrace "\x7b" :: ts ++ [.bare .rbrace "\x7d"]

theorem block_enclosed
    {ts : List Token} {items : List Item} (h : Body ts items) :
    Block (enclosed ts) items :=
  .intro rfl h rfl

theorem ItemTree.readsBack {t : Tree} (h : ItemTree t) : ItemReadsBack t := by
  induction h with
  | declaration hname hexpr =>
      obtain ⟨ts, t, e, hfills, hbinding, rfl, hshape⟩ :=
        fills_binding rfl fills_colon (by decide) hname hexpr
      refine ⟨ts, _, fun depth => ?_, .declaration hbinding, fun n => ?_⟩
      · simpa [itemLines, Tree.propertyName?] using
          fillLines_line hfills.spells depth
      · simp [Item.treeAt, declarationTree, Tree.plain, Content.map, hshape]
  | assignment hname hexpr =>
      obtain ⟨ts, t, e, hfills, hbinding, rfl, hshape⟩ :=
        fills_binding rfl fills_assign (by decide) hname hexpr
      refine ⟨ts, _, fun depth => ?_, .assignment hbinding, fun n => ?_⟩
      · simpa [itemLines, exprText] using fillLines_line hfills.spells depth
      · simp [Item.treeAt, assignmentTree, Tree.plain, Content.map, hshape]
  | ifThen hguard _ ih =>
      obtain ⟨gs, e, hfills, hderived, hshape⟩ := fills_guard hguard
      obtain ⟨bs, items, hlines, hitems, hshape'⟩ := body_readsBack ih
      have hclause : IfClause
          (.bare .ifWord "if" :: .bare .lbracket "[" :: gs ++
          .bare .rbracket "]" :: enclosed bs) (.bare .ifWord "if")
          ⟨e, items, none⟩ :=
        .ifThen rfl rfl hderived rfl (block_enclosed hitems)
      refine ⟨_, _, fun depth => ?_, .conditional hclause, fun n => ?_⟩
      · have hwhole :=
          ((fillLines_line hfills.spells depth).append
            (hlines (depth + 1))).append
          (fillLines_line fills_rbrace.spells depth)
        simpa [itemLines, elseLines, enclosed] using hwhole
      · simp [Branches.item, Item.treeAt, Tree.plain, Content.map, hshape,
          hshape']
  | ifElse hguard _ _ ih ihelse =>
      obtain ⟨gs, e, hfills, hderived, hshape⟩ := fills_guard hguard
      obtain ⟨bs, items, hlines, hitems, hshape'⟩ := body_readsBack ih
      obtain ⟨os, others, hlines', hothers, hshape''⟩ := body_readsBack ihelse
      have hclause : IfClause
          (.bare .ifWord "if" :: .bare .lbracket "[" :: gs ++
          .bare .rbracket "]" :: enclosed bs
            ++ .bare .elseWord "else" :: enclosed os)
          (.bare .ifWord "if") ⟨e, items, some (_, others)⟩ :=
        .ifElse rfl rfl hderived rfl (block_enclosed hitems) rfl
          (block_enclosed hothers)
      refine ⟨_, _, fun depth => ?_, .conditional hclause, fun n => ?_⟩
      · have hwhole :=
          ((((fillLines_line hfills.spells depth).append
            (hlines (depth + 1))).append
          (fillLines_line fills_else.spells depth)).append
          (hlines' (depth + 1))).append
          (fillLines_line fills_rbrace.spells depth)
        simpa [itemLines, elseLines, enclosed] using hwhole
      · simp [Branches.item, Item.treeAt, Tree.plain, Content.map, hshape,
          hshape', hshape'']

/-! ## Sheets -/

theorem IsSelectorText.spells
    {text : String} (h : IsSelectorText text) :
    ∃ t : Token, Spells text [t] ∧ IsSelector t ∧ t.text = text := by
  rcases h.2 with h | h | h
  · exact ⟨.bare .ident text, h.spells (by decide) (by decide), .inl rfl, rfl⟩
  · exact ⟨.bare .classIdent text, h.spells (by decide) (by decide),
      .inr (.inl rfl), rfl⟩
  · exact ⟨.bare .idIdent text, h.spells (by decide) (by decide),
      .inr (.inr rfl), rfl⟩

theorem fills_comma : Fills ", " [.bare .comma ","] := by
  have hcomma : Fills "," [.bare .comma ","] :=
    fills_sign rfl (by decide) (by decide)
  have htext : ", " = "," ++ " " := by decide +kernel
  rw [htext]
  exact hcomma.append fills_space

theorem selectorList_cons
    (label : Label) (text : String) (t : Tree) (selectors : List Tree)
    (h : ∀ s ∈ t :: selectors, SelectorTree s) :
    selectorList (.node label (.selector text) :: t :: selectors) =
      text ++ ", " ++ selectorList (t :: selectors) := by
  obtain ⟨_⟩ := h t List.mem_cons_self
  simp [selectorList, Tree.selectorText?, String.intercalate_cons_cons]

theorem selectors_readsBack
    {t : Tree} {selectors : List Tree}
    (h : ∀ s ∈ t :: selectors, SelectorTree s) :
    ∃ ts first more, Spells (selectorList (t :: selectors)) ts ∧
      Selectors ts (first :: more) ∧
      ∀ n, (selectorTrees n (first :: more)).map Tree.shape =
        (t :: selectors).map Tree.shape := by
  induction selectors generalizing t with
  | nil =>
      obtain ⟨htext⟩ := h t List.mem_cons_self
      obtain ⟨token, hspells, hkind, rfl⟩ := htext.spells
      refine ⟨[token], _, [], ?_, .single hkind, fun n => ?_⟩
      · simpa [selectorList, Tree.selectorText?] using hspells
      · simp [selectorTrees, Tree.plain, Content.map, htext.1]
  | cons s selectors ih =>
      rw [List.forall_mem_cons] at h
      obtain ⟨ts, first, more, hspells', hderived, hshape⟩ := ih h.2
      obtain ⟨htext⟩ := h.1
      obtain ⟨token, hspells, hkind, rfl⟩ := htext.spells
      refine ⟨token :: .bare .comma "," :: ts, _, first :: more, ?_,
        .cons hkind rfl hderived, fun n => ?_⟩
      · rw [selectorList_cons _ _ _ _ h.2]
        exact (hspells.append_fills fills_comma (by decide)).append_spells
          hspells'
      · rw [selectorTrees, List.map_cons, List.map_cons, hshape]
        simp [Tree.plain, Content.map, htext.1]

/-- The lines of the tree are read as tokens that derive a statement of the form
of the tree. -/
def StatementReadsBack (t : Tree) : Prop :=
  ∃ ts statement, FillLines (itemLines 0 t) ts ∧ TopItem ts statement ∧
    ∀ n, (statement.treeAt n).shape = t.shape

theorem StatementTree.readsBack {t : Tree} (h : StatementTree t) :
    StatementReadsBack t := by
  cases h with
  | assignment hname hexpr =>
      obtain ⟨ts, t, e, hfills, hbinding, rfl, hshape⟩ :=
        fills_binding rfl fills_assign (by decide) hname hexpr
      refine ⟨ts, _, ?_, .assignment hbinding, fun n => ?_⟩
      · simpa [itemLines, exprText] using fillLines_line hfills.spells 0
      · simp [Statement.treeAt, assignmentTree, Tree.plain, Content.map, hshape]
  | @rule label selectors body hne hselectors hbody =>
      obtain ⟨t, selectors, rfl⟩ := List.exists_cons_of_ne_nil hne
      obtain ⟨ts, first, more, hspells, hderived, hshape⟩ :=
        selectors_readsBack hselectors
      obtain ⟨bs, items, hlines, hitems, hshape'⟩ :=
        body_readsBack fun t ht => (hbody t ht).readsBack
      refine ⟨ts ++ enclosed bs, _, ?_, .rule hderived (block_enclosed hitems),
        fun n => ?_⟩
      · have hhead := hspells.append_fills fills_lbrace (by decide)
        have hwhole :=
          ((fillLines_line hhead.spells 0).append (hlines 1)).append
          (fillLines_line fills_rbrace.spells 0)
        simpa [itemLines, enclosed] using hwhole
      · simp [Statement.treeAt, Tree.plain, Content.map, hshape, hshape']
  | conditional h =>
      obtain ⟨ts, item, hlines, hitem, hshape⟩ := h.readsBack
      cases hitem with
      | declaration =>
          have hsort := hshape 0
          simp [Item.treeAt, declarationTree, Tree.plain, Content.map] at hsort
      | assignment =>
          have hsort := hshape 0
          simp [Item.treeAt, assignmentTree, Tree.plain, Content.map] at hsort
      | @conditional _ _ branches hclause =>
          refine ⟨ts, _, hlines 0, .conditional hclause, fun n => ?_⟩
          rw [← hshape n]
          obtain ⟨guard, body, _ | ⟨elsePos, otherwise⟩⟩ := branches <;> rfl

theorem statements_readBack
    {statements : List Tree} (h : ∀ t ∈ statements, StatementReadsBack t)
    (previous : Tree) :
    ∃ ts sheet, FillLines (linesAfter previous statements) ts ∧
      WholeSheet ts sheet ∧
      ∀ n, (statementTrees n sheet).map Tree.shape =
        statements.map Tree.shape := by
  induction statements generalizing previous with
  | nil => exact ⟨[], [], fillLines_nil, .nil, fun _ => rfl⟩
  | cons t statements ih =>
      rw [List.forall_mem_cons] at h
      obtain ⟨ts, statement, hlines, hitem, hshape⟩ := h.1
      obtain ⟨us, sheet, hlines', hsheet, hshape'⟩ := ih h.2 t
      refine ⟨ts ++ us, statement :: sheet, ?_, .cons hitem hsheet, fun n => ?_⟩
      · rw [linesAfter]
        split
        · exact hlines.append hlines'
        · exact (fillLines_empty.append hlines).append hlines'
      · rw [statementTrees, List.map_cons, List.map_cons, hshape, hshape']

theorem SheetTree.readsBack
    {root : Tree} (h : SheetTree root) :
    ∃ ts sheet, Fills (text root) ts ∧ WholeSheet ts sheet ∧
      (sheetTree sheet).shape = root.shape := by
  obtain @⟨label, statements, h⟩ := h
  cases statements with
  | nil =>
      refine ⟨[], [], fillLines_nil, .nil, ?_⟩
      simp [sheetTree, statementTrees, Tree.plain, Content.map]
  | cons t statements =>
      rw [List.forall_mem_cons] at h
      obtain ⟨ts, statement, hlines, hitem, hshape⟩ := h.1.readsBack
      obtain ⟨us, sheet, hlines', hsheet, hshape'⟩ :=
        statements_readBack (fun t ht => (h.2 t ht).readsBack) t
      refine ⟨ts ++ us, statement :: sheet, hlines.append hlines',
        .cons hitem hsheet, ?_⟩
      simp [sheetTree, statementTrees, Tree.plain, Content.map, hshape, hshape']

end Canonical

/-! ## Reading back -/

/-- The form of the tree of a sheet does not depend on places. -/
theorem shape_sheetTree_moved (g : Position → Position) (sheet : Sheet) :
    (sheetTree (sheet.map (Statement.moved g))).shape =
      (sheetTree sheet).shape := by
  have hshape : Tree.shape ∘ Tree.relabel (Label.moved g) = Tree.shape :=
    funext fun t => t.shape_relabel _
  simp only [sheetTree, Tree.plain, Tree.shape_node, Content.map,
    statementTrees_moved, List.map_map, hshape]

theorem Canonical.SheetTree.parse_text
    {root : Tree} (h : SheetTree root) :
    (parse (bytesOf (text root))).faults = [] ∧
      (sheetTree (parse (bytesOf (text root))).sheet).shape = root.shape := by
  obtain ⟨ts, sheet, hfills, hsheet, hshape⟩ := h.readsBack
  have hwords := hfills []
  rw [List.append_nil, words_nil] at hwords
  have hparse := parse_unplaced (bytesOf (text root))
  rw [hwords, (hsheet.read rfl).2] at hparse
  have hfaults := congrArg Parsed.faults hparse
  have hsame : (parse (bytesOf (text root))).sheet.map
      (Statement.moved fun _ => Token.nowhere.pos) = sheet :=
        congrArg Parsed.sheet hparse
  refine ⟨List.map_eq_nil_iff.mp hfaults, ?_⟩
  rw [← hshape, ← hsame, shape_sheetTree_moved]

theorem diagnostics_ofSheet (sheet : Sheet) :
    (Arena.ofSheet sheet).diagnostics = [] := by
  rw [Arena.diagnostics, (stores_ofSheet sheet).rootTree_eq,
    Tree.diagnostics_eq_nil_iff, ← Bool.not_eq_true, Tree.hasDiagnostic_noted]
  rintro ⟨id, -, hsome⟩
  rw [diagnosticOf_ofSheet] at hsome
  cases hsome

/-- The canonical text of a tree of the form that the grammar gives is read
without a fault, and what is read differs from the tree in nothing but the
numbers and places of the nodes. -/
theorem parse_canonical_text (root : Tree) (h : Canonical.SheetTree root) :
    (parse (bytesOf (Canonical.text root))).diagnostics = [] ∧
      (parse (bytesOf (Canonical.text root))).arena.rootTree.shape =
        root.shape ∧
      (parse (bytesOf (Canonical.text root))).arena.diagnostics = [] := by
  obtain ⟨hfaults, hshape⟩ := h.parse_text
  refine ⟨?_, ?_, diagnostics_ofSheet _⟩
  · rw [Parsed.diagnostics, hfaults]
    rfl
  · rw [Parsed.arena, rootTree_ofSheet]
    exact hshape

/-- A tree with a dash in a name, all operators, the largest number and nested
conditionals, whose nodes all carry the same number. -/
theorem parse_canonical_text_of_nesting :
    let at5 := Tree.node ⟨5, ⟨-1, 9⟩, none⟩
    let sum := at5 (.operation .add
      (at5 (.operation .subtract (at5 (.reference "a-b"))
        (at5 (.operation .multiply (at5 (.literal (.scalar 2)))
          (at5 (.literal (.pixel 9223372036854775807)))))))
      (at5 (.literal (.percentage 0))))
    let inner := at5 (.ifClause (at5 (.literal (.bool true)))
      [at5 (.declaration (at5 (.propertyName "color"))
        (at5 (.literal (.color "#00fFa9"))))]
      (at5 (.elseClause [at5 (.ifClause (at5 (.reference "B"))
        [at5 (.assignment (at5 (.reference "true")) sum)] .missing)])))
    let root := at5 (.stylesheet [at5 (.assignment (at5 (.reference "X")) sum),
      at5 (.stylerule
        [at5 (.selector "p"), at5 (.selector ".q_1"), at5 (.selector "#beef")]
        [inner])])
    Canonical.SheetTree root ∧
      Canonical.text root = "X := a-b - 2 * 9223372036854775807px + 0%;\n\n"
        ++ "p, .q_1, #beef \x7b\n    if [TRUE] \x7b\n        color: #00fFa9;\n    \x7d else \x7b\n"
        ++ "        if [B] \x7b\n            true := a-b - 2 * 9223372036854775807px + 0%;\n"
        ++ "        \x7d\n    \x7d\n\x7d\n" ∧
      (parse (bytesOf (Canonical.text root))).arena.rootTree.shape =
        root.shape := by
  intro at5 sum inner root
  have hnumber : ∀ n : Int64, 0 ≤ n → 0 ≤ n.toInt :=
    fun n hn => Int64.le_iff_toInt_le.mp hn
  have hsum : Canonical.ExprTree sum :=
    .operation
      (.operation (.reference (by decide +kernel) (by decide +kernel))
        (.operation (.literal (hnumber _ (by decide)))
          (.literal (hnumber _ (by decide))) ⟨id, id⟩) id)
      (.literal (hnumber _ (by decide))) id
  have hcolor : Canonical.ItemTree
      (at5 (.declaration (at5 (.propertyName "color"))
        (at5 (.literal (.color "#00fFa9"))))) :=
    .declaration (by decide +kernel)
      (.literal ⟨_, rfl, by decide, List.all_eq_true.mp (by decide)⟩)
  have hother : Canonical.ItemTree (at5 (.ifClause (at5 (.reference "B"))
      [at5 (.assignment (at5 (.reference "true")) sum)] .missing)) :=
    .ifThen (.reference (by decide +kernel) (by decide +kernel))
      (List.forall_mem_singleton.mpr (.assignment (by decide +kernel) hsum))
  have hinner : Canonical.ItemTree inner :=
    .ifElse (.literal trivial) (List.forall_mem_singleton.mpr hcolor)
      (List.forall_mem_singleton.mpr hother)
  have hroot : Canonical.SheetTree root := by
    refine .intro (List.forall_mem_cons.mpr
      ⟨.assignment (by decide +kernel) hsum,
      List.forall_mem_singleton.mpr (.rule (List.cons_ne_nil _ _) ?_
        (List.forall_mem_singleton.mpr hinner))⟩)
    simp only [List.forall_mem_cons, List.not_mem_nil, false_implies,
      implies_true, and_true]
    exact ⟨.intro (by decide +kernel), .intro (by decide +kernel),
      .intro (by decide +kernel)⟩
  exact ⟨hroot, by decide +kernel, (parse_canonical_text root hroot).2.1⟩

end Stylesheet
