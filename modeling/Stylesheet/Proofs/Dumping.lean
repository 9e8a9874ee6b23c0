import Stylesheet.Proofs.Isolation
import Stylesheet.Proofs.Offsets
import Stylesheet.Proofs.Outlines
import Stylesheet.Proofs.Sessions

/-!
# What a dump tells

The dump of a sheet is the text of an outline: a heading for each node, and
headings for the parts of a conditional.  The outline tells the sheet apart from
its places.  In a sheet that was read without a fault no name goes over a line,
so the text tells the outline, and two such sheets with the same dump have the
same tree apart from the numbers and places of its nodes.
-/

namespace Stylesheet

open Scan Grammar Reading

/-! ## The outline of a sheet -/

/-- The outline of an expression with what stands behind it. -/
def Expr.outline (behind : Outline Heading) : Expr → Outline Heading
  | .literal _ value => .entry ⟨.literal value.kind, value.text⟩ .empty behind
  | .reference _ name => .entry ⟨.reference, name⟩ .empty behind
  | .operation _ op lhs rhs =>
      .entry ⟨.operation op, ""⟩ (lhs.outline (rhs.outline .empty)) behind

/-- The outline of a name and an expression under one caption. -/
def bindingOutline
    (caption : Caption) (name : Heading) (expr : Expr)
    (behind : Outline Heading) : Outline Heading :=
  .entry ⟨caption, ""⟩ (.entry name .empty (expr.outline .empty)) behind

/-- The outline of a conditional, given those of its branches. -/
def conditionalOutline
    (guard : Expr) (body alternative behind : Outline Heading) :
    Outline Heading :=
  .entry ⟨.conditional, ""⟩
    (.entry ⟨.condition, ""⟩ (guard.outline .empty)
      (.entry ⟨.body, ""⟩ body alternative)) behind

mutual

/-- The outline of an item with what stands behind it. -/
def Item.outline (behind : Outline Heading) : Item → Outline Heading
  | .declaration _ property expr =>
      bindingOutline .declaration ⟨.property, property⟩ expr behind
  | .assignment _ name expr =>
      bindingOutline .assignment ⟨.reference, name⟩ expr behind
  | .ifThen _ guard body =>
      conditionalOutline guard (itemsOutline body) .empty behind
  | .ifElse _ guard body _ otherwise =>
      conditionalOutline guard (itemsOutline body)
        (.entry ⟨.alternative, ""⟩ (itemsOutline otherwise) .empty) behind

def itemsOutline : List Item → Outline Heading
  | [] => .empty
  | item :: items => item.outline (itemsOutline items)

end

def selectorsOutline (behind : Outline Heading) :
    List Selector → Outline Heading
  | [] => behind
  | selector :: selectors =>
      .entry ⟨.selector (.of selector.text), selector.text⟩ .empty
        (selectorsOutline behind selectors)

def Statement.outline (behind : Outline Heading) : Statement → Outline Heading
  | .assignment _ name expr =>
      bindingOutline .assignment ⟨.reference, name⟩ expr behind
  | .rule _ selectors body =>
      .entry ⟨.stylerule, ""⟩
        (selectorsOutline (itemsOutline body) selectors) behind
  | .ifThen _ guard body =>
      conditionalOutline guard (itemsOutline body) .empty behind
  | .ifElse _ guard body _ otherwise =>
      conditionalOutline guard (itemsOutline body)
        (.entry ⟨.alternative, ""⟩ (itemsOutline otherwise) .empty) behind

def statementsOutline : Sheet → Outline Heading
  | [] => .empty
  | statement :: statements => statement.outline (statementsOutline statements)

/-- The outline of a whole sheet. -/
def sheetOutline (sheet : Sheet) : Outline Heading :=
  .entry ⟨.stylesheet, ""⟩ (statementsOutline sheet) .empty

/-! ## A dump is the text of an outline -/

theorem Tree.dumpLines_plain (depth n : Nat) (pos : Position)
    (c : Content Tree) :
    (Tree.plain n pos c).dumpLines depth =
      dumpLine depth c.headline :: dumpContent depth c := by
  rw [plain, dumpLines, Label.remark, String.append_empty]

theorem Expr.dumped_outline (e : Expr) (n depth : Nat)
    (behind : Outline Heading) :
    (e.outline behind).dumped depth =
      (e.treeAt n).dumpLines depth ++ behind.dumped depth := by
  induction e generalizing n depth behind with
  | literal pos value =>
      rw [outline, treeAt, Tree.dumpLines_plain, Outline.dumped_entry]
      rfl
  | reference pos name =>
      rw [outline, treeAt, Tree.dumpLines_plain, Outline.dumped_entry]
      rfl
  | operation pos op lhs rhs ihl ihr =>
      rw [outline, treeAt, Tree.dumpLines_plain, Outline.dumped_entry, ihl n,
        ihr (n + lhs.count), Outline.dumped_empty, List.append_nil,
        Heading.text_plain]
      rfl

theorem dumped_conditionalOutline
    {guard : Expr} {body : List Item} {otherwise : Tree}
    {alternative : Outline Heading} {n m depth : Nat}
    (hbody : (itemsOutline body).dumped (depth + 2) =
      Tree.dumpAll (depth + 2) (itemTrees m body))
    (halternative : alternative.dumped (depth + 1) =
      otherwise.dumpLines (depth + 1))
    (k : Nat) (pos : Position) (behind : Outline Heading) :
    (conditionalOutline guard (itemsOutline body) alternative behind).dumped
      depth =
      (Tree.plain k pos
        (.ifClause (guard.treeAt n) (itemTrees m body) otherwise)).dumpLines
          depth
        ++ behind.dumped depth := by
  rw [conditionalOutline, Outline.dumped_entry, Outline.dumped_entry,
    Outline.dumped_entry, guard.dumped_outline n, hbody, halternative,
    Outline.dumped_empty, List.append_nil, Tree.dumpLines_plain,
    Tree.dumpContent, Heading.text_plain, Heading.text_plain,
    Heading.text_plain]
  simp only [List.cons_append, List.nil_append, List.append_assoc]
  rfl

theorem dumped_bindingOutline
    {caption : Caption} {name : Heading} {c : Content Tree} {e : Expr}
    {n depth : Nat} (hcaption : c.headline = caption.text)
    (hcontent : Tree.dumpContent depth c =
      Tree.dumpLine (depth + 1) name.text :: (e.treeAt n).dumpLines (depth + 1))
    (k : Nat) (pos : Position) (behind : Outline Heading) :
    (bindingOutline caption name e behind).dumped depth =
      (Tree.plain k pos c).dumpLines depth ++ behind.dumped depth := by
  rw [bindingOutline, Outline.dumped_entry, Outline.dumped_entry,
    e.dumped_outline n, Outline.dumped_empty, Outline.dumped_empty,
    List.nil_append, List.append_nil, Heading.text_plain, Tree.dumpLines_plain,
    hcaption, hcontent]
  rfl

theorem dumped_declarationOutline
    (n depth : Nat) (pos : Position) (property : String) (e : Expr)
    (behind : Outline Heading) :
    (bindingOutline .declaration ⟨.property, property⟩ e behind).dumped depth =
      (declarationTree n pos property e).dumpLines depth
        ++ behind.dumped depth := by
  refine dumped_bindingOutline (n := n + 1) rfl ?_ _ pos behind
  rw [Tree.dumpContent, Tree.dumpLines_plain]
  rfl

theorem dumped_assignmentOutline
    (n depth : Nat) (pos : Position) (name : String) (e : Expr)
    (behind : Outline Heading) :
    (bindingOutline .assignment ⟨.reference, name⟩ e behind).dumped depth =
      (assignmentTree n pos name e).dumpLines depth ++ behind.dumped depth := by
  refine dumped_bindingOutline (n := n + 1) rfl ?_ _ pos behind
  rw [Tree.dumpContent, Tree.dumpLines_plain]
  rfl

theorem dumped_alternativeOutline
    {otherwise : List Item} {m depth : Nat}
    (h : (itemsOutline otherwise).dumped (depth + 2) =
      Tree.dumpAll (depth + 2) (itemTrees m otherwise)) (k : Nat)
    (pos : Position) :
    (Outline.entry ⟨.alternative, ""⟩ (itemsOutline otherwise) .empty).dumped
      (depth + 1) =
      (Tree.plain k pos (.elseClause (itemTrees m otherwise))).dumpLines
        (depth + 1) := by
  rw [Outline.dumped_entry, h, Outline.dumped_empty, List.append_nil,
    Heading.text_plain, Tree.dumpLines_plain, Tree.dumpContent]
  rfl

theorem dumped_itemsOutline (items : List Item) (n depth : Nat) :
    (itemsOutline items).dumped depth =
      Tree.dumpAll depth (itemTrees n items) := by
  induction items using Item.list_induction generalizing n depth with
  | nil => rfl
  | declaration pos property expr items ih =>
      rw [itemsOutline, Item.outline, dumped_declarationOutline n depth pos, ih,
        itemTrees, Tree.dumpAll, Item.treeAt]
  | assignment pos name expr items ih =>
      rw [itemsOutline, Item.outline, dumped_assignmentOutline n depth pos, ih,
        itemTrees, Tree.dumpAll, Item.treeAt]
  | ifThen pos guard body items ihbody ih =>
      rw [itemsOutline, Item.outline, itemTrees, Tree.dumpAll,
        Item.treeAt, ← ih]
      exact dumped_conditionalOutline (ihbody _ _) rfl _ pos _
  | ifElse pos guard body elsePos otherwise items ihbody ihelse ih =>
      rw [itemsOutline, Item.outline, itemTrees, Tree.dumpAll,
        Item.treeAt, ← ih]
      exact dumped_conditionalOutline (ihbody _ _)
        (dumped_alternativeOutline (ihelse _ _) _ _) _ pos _

theorem dumped_selectorsOutline
    (selectors : List Selector) (n depth : Nat) (behind : Outline Heading) :
    (selectorsOutline behind selectors).dumped depth =
      Tree.dumpAll depth (selectorTrees n selectors)
        ++ behind.dumped depth := by
  induction selectors generalizing n with
  | nil => rfl
  | cons selector selectors ih =>
      rw [selectorsOutline, Outline.dumped_entry, ih (n + 1), selectorTrees,
        Tree.dumpAll, Tree.dumpLines_plain]
      rfl

theorem Statement.dumped_outline (s : Statement) (n depth : Nat)
    (behind : Outline Heading) :
    (s.outline behind).dumped depth = (s.treeAt n).dumpLines depth
      ++ behind.dumped depth := by
  cases s with
  | assignment pos name expr =>
      exact dumped_assignmentOutline n depth pos name expr behind
  | rule pos selectors body =>
      rw [outline, treeAt, Outline.dumped_entry,
        dumped_selectorsOutline selectors n,
        dumped_itemsOutline body (n + selectors.length), Heading.text_plain,
        Tree.dumpLines_plain, Tree.dumpContent]
      rfl
  | ifThen pos guard body =>
      exact dumped_conditionalOutline (dumped_itemsOutline body _ _) rfl _
        pos behind
  | ifElse pos guard body elsePos otherwise =>
      exact dumped_conditionalOutline (dumped_itemsOutline body _ _)
        (dumped_alternativeOutline (dumped_itemsOutline otherwise _ _) _
          elsePos) _ pos behind

theorem dumped_statementsOutline (sheet : Sheet) (n depth : Nat) :
    (statementsOutline sheet).dumped depth =
      Tree.dumpAll depth (statementTrees n sheet) := by
  induction sheet generalizing n with
  | nil => rfl
  | cons statement sheet ih =>
      rw [statementsOutline, statement.dumped_outline n,
        ih (n + statement.count), statementTrees, Tree.dumpAll]

theorem dump_sheetTree (sheet : Sheet) :
    (sheetTree sheet).dump = (sheetOutline sheet).text := by
  have hlines : (sheetOutline sheet).dumped 0 =
      (sheetTree sheet).dumpLines 0 := by
    rw [sheetOutline, Outline.dumped_entry, dumped_statementsOutline sheet 1,
      Outline.dumped_empty, List.append_nil, Heading.text_plain, sheetTree,
      Tree.dumpLines_plain, Tree.dumpContent]
    rfl
  rw [Tree.dump, Outline.text, hlines]

/-! ## The outline tells the sheet -/

theorem Literal.eq_of_kind_of_text
    {value value' : Literal} (hkind : value.kind = value'.kind)
    (htext : value.text = value'.text) : value = value' := by
  have hnumber {n n' : Int64}
      (h : toString n.toInt = toString n'.toInt) : n = n' :=
    Int64.toInt_inj.mp (Scan.toString_int_inj h)
  cases value <;> cases value' <;> try cases hkind
  case pixel.pixel => rw [hnumber ((String.append_left_inj _).mp htext)]
  case percentage.percentage =>
    rw [hnumber ((String.append_left_inj _).mp htext)]
  case color.color => exact congrArg Literal.color htext
  case scalar.scalar => rw [hnumber htext]
  case bool.bool b b' =>
    cases b <;> cases b'
    case false.false => rfl
    case true.true => rfl
    all_goals exact absurd htext (by decide)

theorem Expr.outline_inj
    {e e' : Expr} {behind behind' : Outline Heading}
    (h : e.outline behind = e'.outline behind') :
    e.moved unplaced = e'.moved unplaced ∧ behind = behind' := by
  induction e generalizing e' behind behind' with
  | literal pos value =>
      cases e' with
      | literal pos' value' =>
          obtain ⟨hheading, -, hbehind⟩ := Outline.entry.inj h
          obtain ⟨hcaption, htext⟩ := Heading.mk.inj hheading
          rw [Literal.eq_of_kind_of_text (Caption.literal.inj hcaption) htext]
          exact ⟨rfl, hbehind⟩
      | reference pos' name' => cases h
      | operation pos' op' lhs' rhs' => cases h
  | reference pos name =>
      cases e' with
      | literal pos' value' => cases h
      | reference pos' name' =>
          obtain ⟨hheading, -, hbehind⟩ := Outline.entry.inj h
          rw [(Heading.mk.inj hheading).2]
          exact ⟨rfl, hbehind⟩
      | operation pos' op' lhs' rhs' => cases h
  | operation pos op lhs rhs ihl ihr =>
      cases e' with
      | literal pos' value' => cases h
      | reference pos' name' => cases h
      | operation pos' op' lhs' rhs' =>
          obtain ⟨hheading, hbelow, hbehind⟩ := Outline.entry.inj h
          obtain ⟨hlhs, hright⟩ := ihl hbelow
          obtain ⟨hrhs, -⟩ := ihr hright
          rw [moved, moved, hlhs, hrhs,
            Caption.operation.inj (Heading.mk.inj hheading).1]
          exact ⟨rfl, hbehind⟩

theorem bindingOutline_inj
    {caption caption' : Caption} {name name' : Heading} {e e' : Expr}
    {behind behind' : Outline Heading}
    (h : bindingOutline caption name e behind =
      bindingOutline caption' name' e' behind') :
    name = name' ∧ e.moved unplaced = e'.moved unplaced ∧ behind = behind' := by
  obtain ⟨-, hbelow, hbehind⟩ := Outline.entry.inj h
  obtain ⟨hname, -, hexpr⟩ := Outline.entry.inj hbelow
  exact ⟨hname, (Expr.outline_inj hexpr).1, hbehind⟩

theorem conditionalOutline_inj
    {guard guard' : Expr}
    {body body' alternative alternative' behind behind' : Outline Heading}
    (h : conditionalOutline guard body alternative behind =
      conditionalOutline guard' body' alternative' behind') :
    guard.moved unplaced = guard'.moved unplaced ∧ body = body' ∧
      alternative = alternative' ∧
      behind = behind' := by
  obtain ⟨-, hbelow, hbehind⟩ := Outline.entry.inj h
  obtain ⟨-, hguard, hbranches⟩ := Outline.entry.inj hbelow
  obtain ⟨-, hbody, halternative⟩ := Outline.entry.inj hbranches
  exact ⟨(Expr.outline_inj hguard).1, hbody, halternative, hbehind⟩

/-- Items with the same outline are the same apart from their places. -/
theorem itemsOutline_inj
    {items items' : List Item} (h : itemsOutline items = itemsOutline items') :
    movedItems unplaced items = movedItems unplaced items' := by
  -- The captions tell the sorts of items apart, but for the two forms of a
  -- conditional: those differ in what stands behind the body.
  induction items using Item.list_induction generalizing items' with
  | nil =>
      rcases items' with _ | ⟨item', items'⟩
      · rfl
      · cases item' <;> cases h
  | declaration pos property expr items ih =>
      rcases items' with _ | ⟨item', items'⟩
      · cases h
      cases item' with
      | declaration pos' property' expr' =>
          obtain ⟨hname, hexpr, hrest⟩ := bindingOutline_inj h
          obtain ⟨-, rfl⟩ := Heading.mk.inj hname
          rw [movedItems, movedItems, Item.moved, Item.moved, hexpr, ih hrest]
          rfl
      | _ => cases h
  | assignment pos name expr items ih =>
      rcases items' with _ | ⟨item', items'⟩
      · cases h
      cases item' with
      | assignment pos' name' expr' =>
          obtain ⟨hname, hexpr, hrest⟩ := bindingOutline_inj h
          obtain ⟨-, rfl⟩ := Heading.mk.inj hname
          rw [movedItems, movedItems, Item.moved, Item.moved, hexpr, ih hrest]
          rfl
      | _ => cases h
  | ifThen pos guard body items ihbody ih =>
      rcases items' with _ | ⟨item', items'⟩
      · cases h
      cases item' with
      | ifThen pos' guard' body' =>
          obtain ⟨hguard, hbody, -, hrest⟩ := conditionalOutline_inj h
          rw [movedItems, movedItems, Item.moved, Item.moved, hguard,
            ihbody hbody, ih hrest]
          rfl
      | ifElse pos' guard' body' elsePos' otherwise' =>
          cases (conditionalOutline_inj h).2.2.1
      | _ => cases h
  | ifElse pos guard body elsePos otherwise items ihbody ihelse ih =>
      rcases items' with _ | ⟨item', items'⟩
      · cases h
      cases item' with
      | ifThen pos' guard' body' => cases (conditionalOutline_inj h).2.2.1
      | ifElse pos' guard' body' elsePos' otherwise' =>
          obtain ⟨hguard, hbody, halternative, hrest⟩ :=
            conditionalOutline_inj h
          obtain ⟨-, hotherwise, -⟩ := Outline.entry.inj halternative
          rw [movedItems, movedItems, Item.moved, Item.moved, hguard,
            ihbody hbody, ihelse hotherwise, ih hrest]
          rfl
      | _ => cases h

/-- No item has the heading of a selector, so it can be seen where the selectors
of a rule end. -/
theorem itemsOutline_ne_selector
    {items : List Item} {sort : SelectorSort} {text : String}
    {below behind : Outline Heading} :
    itemsOutline items ≠ .entry ⟨.selector sort, text⟩ below behind := by
  intro h
  rcases items with _ | ⟨item, items⟩
  · cases h
  · cases item <;> cases h

theorem selectorsOutline_inj
    {selectors selectors' : List Selector} {body body' : List Item}
    (h : selectorsOutline (itemsOutline body) selectors =
      selectorsOutline (itemsOutline body') selectors') :
    selectors.map (Selector.moved unplaced) =
      selectors'.map (Selector.moved unplaced) ∧
      itemsOutline body = itemsOutline body' := by
  induction selectors generalizing selectors' with
  | nil =>
      cases selectors' with
      | nil => exact ⟨rfl, h⟩
      | cons selector' selectors' => exact absurd h itemsOutline_ne_selector
  | cons selector selectors ih =>
      cases selectors' with
      | nil => exact absurd h.symm itemsOutline_ne_selector
      | cons selector' selectors' =>
          obtain ⟨hheading, -, hmore⟩ := Outline.entry.inj h
          obtain ⟨hselectors, hbody⟩ := ih hmore
          refine ⟨?_, hbody⟩
          rw [List.map_cons, List.map_cons, hselectors, Selector.moved,
            Selector.moved, (Heading.mk.inj hheading).2]
          rfl

theorem Statement.outline_inj
    {s s' : Statement} {behind behind' : Outline Heading}
    (h : s.outline behind = s'.outline behind') :
    s.moved unplaced = s'.moved unplaced ∧ behind = behind' := by
  cases s with
  | assignment pos name expr =>
      cases s' with
      | assignment pos' name' expr' =>
          obtain ⟨hname, hexpr, hbehind⟩ := bindingOutline_inj h
          obtain ⟨-, rfl⟩ := Heading.mk.inj hname
          exact ⟨by rw [moved, moved, hexpr]; rfl, hbehind⟩
      | _ => cases h
  | rule pos selectors body =>
      cases s' with
      | rule pos' selectors' body' =>
          obtain ⟨-, hbelow, hbehind⟩ := Outline.entry.inj h
          obtain ⟨hselectors, hbody⟩ := selectorsOutline_inj hbelow
          exact ⟨by rw [moved, moved, hselectors, itemsOutline_inj hbody]; rfl,
            hbehind⟩
      | _ => cases h
  | ifThen pos guard body =>
      cases s' with
      | ifThen pos' guard' body' =>
          obtain ⟨hguard, hbody, -, hbehind⟩ := conditionalOutline_inj h
          exact ⟨by rw [moved, moved, hguard, itemsOutline_inj hbody]; rfl,
            hbehind⟩
      | ifElse pos' guard' body' elsePos' otherwise' =>
          cases (conditionalOutline_inj h).2.2.1
      | _ => cases h
  | ifElse pos guard body elsePos otherwise =>
      cases s' with
      | ifThen pos' guard' body' => cases (conditionalOutline_inj h).2.2.1
      | ifElse pos' guard' body' elsePos' otherwise' =>
          obtain ⟨hguard, hbody, halternative, hbehind⟩ :=
            conditionalOutline_inj h
          obtain ⟨-, hotherwise, -⟩ := Outline.entry.inj halternative
          refine ⟨?_, hbehind⟩
          rw [moved, moved, hguard, itemsOutline_inj hbody,
            itemsOutline_inj hotherwise]
          rfl
      | _ => cases h

theorem statementsOutline_inj
    {sheet sheet' : Sheet}
    (h : statementsOutline sheet = statementsOutline sheet') :
    sheet.map (Statement.moved unplaced) =
      sheet'.map (Statement.moved unplaced) := by
  induction sheet generalizing sheet' with
  | nil =>
      cases sheet' with
      | nil => rfl
      | cons statement' sheet' => cases statement' <;> cases h
  | cons statement sheet ih =>
      cases sheet' with
      | nil => cases statement <;> cases h
      | cons statement' sheet' =>
          obtain ⟨hfirst, hrest⟩ := Statement.outline_inj h
          rw [List.map_cons, List.map_cons, hfirst, ih hrest]

/-! ## No name goes over a line -/

theorem Scan.Lexeme.newline_notMem
    {kind : TokenKind} {text : List Char} (h : Lexeme kind text) :
    '\n' ∉ text := by
  cases text with
  | nil => exact List.not_mem_nil
  | cons c tail =>
      rw [List.mem_cons, not_or]
      refine ⟨?_, h.notMem_tail rfl (by decide)⟩
      rintro rfl
      cases h.begins.1

theorem newline_notMem_toString (i : Int) : '\n' ∉ (toString i).toList := by
  have hdigits (k : Nat) : '\n' ∉ (Nat.repr k).toList := by
    rw [Nat.toList_repr]
    intro hmem
    cases Nat.isDigit_of_mem_toDigits (by decide) (by decide) hmem
  cases i with
  | ofNat k => exact hdigits k
  | negSucc k =>
      have htext : toString (Int.negSucc k) = "-" ++ Nat.repr (k + 1) := rfl
      rw [htext, String.toList_append, List.mem_append, not_or]
      exact ⟨by decide, hdigits (k + 1)⟩

theorem newline_notMem_append
    {a b : String} (ha : '\n' ∉ a.toList) (hb : '\n' ∉ b.toList) :
    '\n' ∉ (a ++ b).toList := by
  rw [String.toList_append, List.mem_append, not_or]
  exact ⟨ha, hb⟩

namespace Grammar

theorem Atom.all_outline
    {ts : List Token} {e : Expr} (h : Atom ts e) (hts : Lexed ts)
    {behind : Outline Heading} (hbehind : behind.All Heading.OneLine) :
    (e.outline behind).All Heading.OneLine := by
  have hentry {caption : Caption} {detail : String}
      (hdetail : '\n' ∉ detail.toList) :
      (Outline.entry ⟨caption, detail⟩ .empty behind).All Heading.OneLine :=
    ⟨Heading.oneLine_mk hdetail caption, trivial, hbehind⟩
  cases h with
  | pixel =>
      exact hentry (newline_notMem_append (newline_notMem_toString _)
        (by decide))
  | percentage =>
      exact hentry (newline_notMem_append (newline_notMem_toString _)
        (by decide))
  | scalar => exact hentry (newline_notMem_toString _)
  | color => exact hentry hts.cons.1.newline_notMem
  | trueWord => exact hentry (by decide)
  | falseWord => exact hentry (by decide)
  | trueName => exact hentry (by decide)
  | falseName => exact hentry (by decide)
  | reference => exact hentry hts.cons.1.newline_notMem

theorem Term.all_outline
    {ts : List Token} {e : Expr} (h : Term ts e) (hts : Lexed ts)
    {behind : Outline Heading} (hbehind : behind.All Heading.OneLine) :
    (e.outline behind).All Heading.OneLine := by
  induction h generalizing behind with
  | atom h => exact h.all_outline hts hbehind
  | product hl hsign hr ih =>
      obtain ⟨hleft, hright⟩ := hts.append
      exact ⟨Heading.oneLine_plain _,
        ih hleft (hr.all_outline hright.cons.2 trivial), hbehind⟩

theorem Expression.all_outline
    {ts : List Token} {e : Expr} (h : Expression ts e) (hts : Lexed ts)
    {behind : Outline Heading} (hbehind : behind.All Heading.OneLine) :
    (e.outline behind).All Heading.OneLine := by
  induction h generalizing behind with
  | term h => exact h.all_outline hts hbehind
  | sum hl hsign hr ih =>
      obtain ⟨hleft, hright⟩ := hts.append
      exact ⟨Heading.oneLine_plain _,
        ih hleft (hr.all_outline hright.cons.2 trivial), hbehind⟩
  | difference hl hsign hr ih =>
      obtain ⟨hleft, hright⟩ := hts.append
      exact ⟨Heading.oneLine_plain _,
        ih hleft (hr.all_outline hright.cons.2 trivial), hbehind⟩

theorem Binding.all_bindingOutline
    {sign : TokenKind} {ts : List Token} {t : Token} {e : Expr}
    (h : Binding sign ts t e) (hts : Lexed ts) (caption detail : Caption)
    {behind : Outline Heading} (hbehind : behind.All Heading.OneLine) :
    (bindingOutline caption ⟨detail, t.text⟩ e behind).All Heading.OneLine := by
  obtain ⟨hname, hmark, hexpr, hsemicolon⟩ := h
  obtain ⟨hfirst, hrest⟩ := hts.append.1.cons
  exact ⟨Heading.oneLine_plain _,
    ⟨Heading.oneLine_mk hfirst.newline_notMem _, trivial,
    hexpr.all_outline hrest.cons.2 trivial⟩, hbehind⟩

end Grammar

/-- Each heading of the items takes up one line. -/
def OneLineItems (ts : List Token) (items : List Item) : Prop :=
  Lexed ts → (itemsOutline items).All Heading.OneLine

/-- Each heading of the conditional takes up one line. -/
def OneLineBranches (ts : List Token) (branches : Branches) : Prop :=
  Lexed ts → ∀ pos behind, behind.All Heading.OneLine →
    ((branches.item pos).outline behind).All Heading.OneLine

theorem OneLineItems.ifThen
    {word opening closing : Token} {gs bs : List Token} {guard : Expr}
    {body : List Item} (hguard : Expression gs guard)
    (hbody : OneLineItems bs body) :
    OneLineBranches (word :: opening :: gs ++ closing :: bs)
      ⟨guard, body, none⟩ := by
  intro hts pos behind hbehind
  obtain ⟨hfront, hback⟩ := hts.append
  exact ⟨Heading.oneLine_plain _, ⟨Heading.oneLine_plain _,
    hguard.all_outline hfront.cons.2.cons.2 trivial, Heading.oneLine_plain _,
    hbody hback.cons.2, trivial⟩, hbehind⟩

theorem OneLineItems.ifElse
    {word opening closing other : Token} {gs bs os : List Token} {guard : Expr}
    {body otherwise : List Item} (hguard : Expression gs guard)
    (hbody : OneLineItems bs body) (hotherwise : OneLineItems os otherwise) :
    OneLineBranches (word :: opening :: gs ++ closing :: bs ++ other :: os)
      ⟨guard, body, some (other.pos, otherwise)⟩ := by
  intro hts pos behind hbehind
  obtain ⟨hthen, helse⟩ := hts.append
  obtain ⟨hfront, hback⟩ := hthen.append
  exact ⟨Heading.oneLine_plain _, ⟨Heading.oneLine_plain _,
    hguard.all_outline hfront.cons.2.cons.2 trivial, Heading.oneLine_plain _,
    hbody hback.cons.2, Heading.oneLine_plain _, hotherwise helse.cons.2,
    trivial⟩, hbehind⟩

namespace Grammar

theorem Block.oneLineItems {ts : List Token} {items : List Item}
    (h : Block ts items) :
    OneLineItems ts items :=
  @Block.rec
    (fun ts items _ => OneLineItems ts items)
    (fun ts _ branches _ => OneLineBranches ts branches)
    (fun ts item _ => Lexed ts → ∀ behind, behind.All Heading.OneLine →
      (item.outline behind).All Heading.OneLine)
    (fun ts items _ => OneLineItems ts items)
    (fun _ _ _ hbody hts => hbody hts.append.1.cons.2)
    (fun _ _ hguard _ _ hbody => hbody.ifThen hguard)
    (fun _ _ hguard _ _ _ _ hbody hotherwise => hbody.ifElse hguard hotherwise)
    (fun h hts _ hbehind =>
      h.all_bindingOutline hts .declaration .property hbehind)
    (fun h hts _ hbehind =>
      h.all_bindingOutline hts .assignment .reference hbehind)
    (fun _ h hts => h hts _)
    (fun _ => trivial)
    (fun _ _ hitem hbody hts => hitem hts.append.1 _ (hbody hts.append.2))
    ts items h

theorem IfClause.oneLineBranches
    {ts : List Token} {word : Token} {branches : Branches}
    (h : IfClause ts word branches) :
    OneLineBranches ts branches := by
  cases h with
  | ifThen _ _ hguard _ hbody => exact hbody.oneLineItems.ifThen hguard
  | ifElse _ _ hguard _ hbody _ hotherwise =>
      exact hbody.oneLineItems.ifElse hguard hotherwise.oneLineItems

theorem IsSelector.newline_notMem
    {t : Token} (h : IsSelector t) (hlexeme : Lexeme t.kind t.text.toList) :
    '\n' ∉ (Text.lowercase t.text).toList := by
  have hascii :=
    hlexeme.toNat_lt (by rcases h with h | h | h <;> rw [h] <;> decide)
  rw [Text.toList_lowercase, List.mem_map]
  rintro ⟨c, hc, hnewline⟩
  rw [Text.lowerChar_eq_newline (hascii c hc) hnewline] at hc
  exact hlexeme.newline_notMem hc

theorem Selectors.all_selectorsOutline
    {ts : List Token} {selectors : List Selector} (h : Selectors ts selectors)
    (hts : Lexed ts) {behind : Outline Heading}
    (hbehind : behind.All Heading.OneLine) :
    (selectorsOutline behind selectors).All Heading.OneLine := by
  induction h with
  | single h =>
      exact ⟨Heading.oneLine_mk (h.newline_notMem hts.cons.1) _, trivial,
        hbehind⟩
  | cons h hcomma hmore ih =>
      exact ⟨Heading.oneLine_mk (h.newline_notMem hts.cons.1) _, trivial,
        ih hts.cons.2.cons.2⟩

theorem TopItem.all_outline
    {ts : List Token} {s : Statement} (h : TopItem ts s) (hts : Lexed ts)
    {behind : Outline Heading} (hbehind : behind.All Heading.OneLine) :
    (s.outline behind).All Heading.OneLine := by
  cases h with
  | assignment h =>
      exact h.all_bindingOutline hts .assignment .reference hbehind
  | rule hselectors hbody =>
      exact ⟨Heading.oneLine_plain _,
        hselectors.all_selectorsOutline hts.append.1
        (hbody.oneLineItems hts.append.2), hbehind⟩
  | @conditional _ _ branches h =>
      have hbranches := h.oneLineBranches hts Token.nowhere.pos behind hbehind
      obtain ⟨guard, body, _ | ⟨elsePos, otherwise⟩⟩ := branches
      · exact hbranches
      · exact hbranches

theorem WholeSheet.all_statementsOutline
    {ts : List Token} {sheet : Sheet} (h : WholeSheet ts sheet)
    (hts : Lexed ts) :
    (statementsOutline sheet).All Heading.OneLine := by
  induction h with
  | nil => trivial
  | cons hstatement _ ih =>
      exact hstatement.all_outline hts.append.1 (ih hts.append.2)

end Grammar

theorem all_sheetOutline_of_parse
    {source : List Char} (h : (parse source).diagnostics = []) :
    (sheetOutline (parse source).sheet).All Heading.OneLine := by
  obtain ⟨ts, hlexed, hsheet⟩ := exists_lexed_of_parse h
  exact ⟨Heading.oneLine_plain _, hsheet.all_statementsOutline hlexed, trivial⟩

/-! ## Trees with the same dump -/

namespace Tree

theorem dumpAll_map_relabel
    {f : Label → Label} {ts : List Tree}
    (h : ∀ t ∈ ts, ∀ depth, (t.relabel f).dumpLines depth = t.dumpLines depth)
    (depth : Nat) :
    dumpAll depth (ts.map (relabel f)) = dumpAll depth ts := by
  induction ts with
  | nil => rfl
  | cons t ts ih =>
      rw [List.forall_mem_cons] at h
      rw [List.map_cons, dumpAll, dumpAll, h.1, ih h.2]

/-- A dump shows nothing of a label but the message of its diagnostic. -/
theorem dumpLines_relabel
    {f : Label → Label} (hf : ∀ label, (f label).remark = label.remark)
    (t : Tree) (depth : Nat) :
    (t.relabel f).dumpLines depth = t.dumpLines depth := by
  induction t using induction_on generalizing depth with
  | hmissing => rw [relabel_missing]
  | hnode label c ih =>
      have hheadline : (c.map (relabel f)).headline = c.headline := by
        cases c <;> rfl
      have hcontent : dumpContent depth (c.map (relabel f)) =
          dumpContent depth c := by
        cases c with
        | stylesheet body => exact dumpAll_map_relabel ih (depth + 1)
        | elseClause body => exact dumpAll_map_relabel ih (depth + 1)
        | stylerule selectors body =>
            obtain ⟨hselectors, hbody⟩ := List.forall_mem_append.mp ih
            rw [Content.map, dumpContent, dumpContent,
              dumpAll_map_relabel hselectors, dumpAll_map_relabel hbody]
        | declaration property expr =>
            rw [Content.map, dumpContent, dumpContent,
              ih property (by simp [Content.toList]),
              ih expr (by simp [Content.toList])]
        | assignment target expr =>
            rw [Content.map, dumpContent, dumpContent,
              ih target (by simp [Content.toList]),
              ih expr (by simp [Content.toList])]
        | operation op lhs rhs =>
            rw [Content.map, dumpContent, dumpContent,
              ih lhs (by simp [Content.toList]),
              ih rhs (by simp [Content.toList])]
        | ifClause guard body otherwise =>
            have hbody : ∀ t ∈ body, ∀ depth, (t.relabel f).dumpLines depth =
                t.dumpLines depth :=
              fun t ht => ih t (by simp [Content.toList, ht])
            rw [Content.map, dumpContent, dumpContent,
              ih guard (by simp [Content.toList]), dumpAll_map_relabel hbody,
              ih otherwise (by simp [Content.toList])]
        | _ => rfl
      rw [relabel_node, dumpLines, dumpLines, hf, hheadline, hcontent]

theorem dump_unnumbered (t : Tree) : t.unnumbered.dump = t.dump := by
  have hremark (label : Label) : label.unnumbered.remark = label.remark := by
    obtain ⟨id, pos, diagnostic⟩ := label
    cases diagnostic <;> rfl
  rw [dump, dump, unnumbered, dumpLines_relabel hremark]

end Tree

/-- A sheet is stored without diagnostics, so without numbers and places only
its form is left. -/
theorem unnumbered_sheetTree (sheet : Sheet) :
    (sheetTree sheet).unnumbered = (sheetTree sheet).shape := by
  have hnone : (Arena.ofSheet sheet).diagnosticOf = fun _ => none :=
    funext (diagnosticOf_ofSheet sheet)
  have hnoted := Arena.noted_eq_of_holds (holds_ofSheet sheet)
  rw [hnone, Tree.noted] at hnoted
  rw [← hnoted, Tree.unnumbered, Tree.relabel_relabel, Tree.shape_relabel]
  rfl

/-- Two sources that are read without a fault have the same dump exactly if
their trees are the same apart from the numbers and places of the nodes. -/
theorem dump_eq_iff_unnumbered_eq
    (source source' : List Char) (h : (parse source).diagnostics = [])
    (h' : (parse source').diagnostics = []) :
    (parse source).arena.rootTree.dump = (parse source').arena.rootTree.dump ↔
      (parse source).arena.rootTree.unnumbered =
        (parse source').arena.rootTree.unnumbered := by
  constructor
  · intro hdump
    rw [Parsed.arena, Parsed.arena, rootTree_ofSheet, rootTree_ofSheet,
      dump_sheetTree, dump_sheetTree] at hdump
    have houtline :=
      Outline.text_inj (all_sheetOutline_of_parse h)
        (all_sheetOutline_of_parse h') hdump
    obtain ⟨-, hstatements, -⟩ := Outline.entry.inj houtline
    have hsheet := statementsOutline_inj hstatements
    rw [Parsed.arena, Parsed.arena, rootTree_ofSheet, rootTree_ofSheet,
      unnumbered_sheetTree, unnumbered_sheetTree,
      ← shape_sheetTree_moved unplaced, hsheet, shape_sheetTree_moved]
  · intro htree
    rw [← Tree.dump_unnumbered, htree, Tree.dump_unnumbered]

/-- A sheet on one line, the same sheet spread over several, and one without the
empty branch. -/
theorem dump_eq_iff_unnumbered_eq_other_layout :
    let flat :=
      "a,.B\x7bif[TRUE]\x7bwidth:1px;\x7delse\x7b\x7dcolor:X+Y*2;\x7d".toList
    let spread :=
      ("a, /* b */ .b \x7b\n  if [ True ] \x7b width: 01px; \x7d\n  else \x7b \x7d\n"
        ++ "  color: X + Y * 2;\n\x7d\n").toList
    let shorter := "a,.B\x7bif[TRUE]\x7bwidth:1px;\x7dcolor:X+Y*2;\x7d".toList
    (parse flat).diagnostics = [] ∧ (parse spread).diagnostics = [] ∧
      (parse shorter).diagnostics = [] ∧
      (parse flat).arena.rootTree.unnumbered =
        (parse spread).arena.rootTree.unnumbered ∧
      (parse flat).arena.rootTree.unnumbered ≠
        (parse shorter).arena.rootTree.unnumbered := by
  intro flat spread shorter
  have hflat : (parse flat).diagnostics = [] := by decide +kernel
  have hspread : (parse spread).diagnostics = [] := by decide +kernel
  have hshorter : (parse shorter).diagnostics = [] := by decide +kernel
  have hsame : (parse flat).arena.rootTree.dump =
      (parse spread).arena.rootTree.dump := by
    decide +kernel
  have hother : (parse flat).arena.rootTree.dump ≠
      (parse shorter).arena.rootTree.dump := by
    decide +kernel
  exact ⟨hflat, hspread, hshorter,
    (dump_eq_iff_unnumbered_eq flat spread hflat hspread).mp hsame,
    (dump_eq_iff_unnumbered_eq flat shorter hflat hshorter).not.mp hother⟩

end Stylesheet
