import Stylesheet.Proofs.RoundTrip

/-!
# The form of what is read

What is read from a source without a fault has the form that the grammar gives,
provided that no selector spells a keyword once it is in lower case.  The form
of the tree of a sheet tells the whole sheet but for its places.
-/

namespace Stylesheet

open Scan Grammar Reading

/-! ## Lower case -/

namespace Text

section Ascii

variable {c : Char} (h : c.toNat < 128)

include h

theorem isNameChar_lowerChar : isNameChar (lowerChar c) = isNameChar c :=
  forall_ascii (P := fun c => isNameChar (lowerChar c) = isNameChar c)
    (by decide +kernel) h

theorem isHexDigit_lowerChar : isHexDigit (lowerChar c) = isHexDigit c :=
  forall_ascii (P := fun c => isHexDigit (lowerChar c) = isHexDigit c)
    (by decide +kernel) h

theorem isWordChar_lowerChar :
    isWordChar true (lowerChar c) = isWordChar true c :=
  forall_ascii (P := fun c => isWordChar true (lowerChar c) = isWordChar true c)
    (by decide +kernel) h

theorem lowerChar_lowerChar : lowerChar (lowerChar c) = lowerChar c :=
  forall_ascii (P := fun c => lowerChar (lowerChar c) = lowerChar c)
    (by decide +kernel) h

theorem lowerChar_of_isLower (hlower : c.isLower = true) : lowerChar c = c :=
  forall_ascii (P := fun c => c.isLower = true → lowerChar c = c)
    (by decide +kernel) h hlower

end Ascii

theorem toList_lowercase (s : String) :
    (lowercase s).toList = s.toList.map lowerChar :=
  String.toList_ofList

theorem lowercase_lowercase
    {s : String} (h : ∀ c ∈ s.toList, c.toNat < 128) :
    lowercase (lowercase s) = lowercase s := by
  rw [← String.toList_inj, toList_lowercase, toList_lowercase, List.map_map]
  exact List.map_congr_left fun c hc => lowerChar_lowerChar (h c hc)

end Text

namespace Scan

theorem ofWord_eq_ident_iff {c : Char} {tail : List Char} :
    TokenKind.ofWord (c :: tail) = .ident ↔
      c.isUpper = false ∧ c :: tail ≠ ['i', 'f'] ∧
        c :: tail ≠ ['e', 'l', 's', 'e'] := by
  unfold TokenKind.ofWord
  split
  · next h => simp [h]
  · split
    · next h => simp [h]
    · split
      · next h =>
          obtain ⟨rfl, -⟩ := List.cons.inj h
          simp
      · split
        · next h =>
            obtain ⟨rfl, -⟩ := List.cons.inj h
            simp
        · simp_all

theorem Lexeme.kind_eq_color
    {text : List Char} (h : Lexeme .color text) :
    ∃ digits, text = '#' :: digits ∧ digits.length = 6 ∧
      ∀ d ∈ digits, isHexDigit d = true := by
  generalize hkind : TokenKind.color = kind at h
  cases h with
  | @sign c _ h =>
      have hall : ∀ s ∈ signs, TokenKind.color ≠ s.2 := by decide
      exact absurd hkind (hall _ h)
  | @word c tail hc htail =>
      have hmem := ofWord_mem (c :: tail)
      rw [← hkind] at hmem
      exact absurd hmem (by decide)
  | color hlength hname => exact ⟨_, rfl, hlength, hname⟩
  | _ => cases hkind

/-- A selector in lower case is a selector of the same class, unless it is a
keyword then. -/
theorem Lexeme.lowercase
    {kind : TokenKind} {text : List Char} (h : Lexeme kind text)
    (hkind : kind = .ident ∨ kind = .classIdent ∨ kind = .idIdent)
    (hif : text.map Text.lowerChar ≠ ['i', 'f'])
    (helse : text.map Text.lowerChar ≠ ['e', 'l', 's', 'e']) :
    Lexeme kind (text.map Text.lowerChar) := by
  have hascii := h.toNat_lt (by rcases hkind with rfl | rfl | rfl <;> decide)
  have hname : ∀ {name : List Char}, (∀ d ∈ name, d.toNat < 128) →
      (∀ d ∈ name, isNameChar d = true) →
        ∀ d ∈ name.map Text.lowerChar, isNameChar d = true := by
    intro name hascii hname
    rw [List.forall_mem_map]
    intro d hd
    rw [Text.isNameChar_lowerChar (hascii d hd)]
    exact hname d hd
  cases h with
  | @sign c _ h =>
      have hall : ∀ s ∈ signs,
          ¬ (s.2 = .ident ∨ s.2 = .classIdent ∨ s.2 = .idIdent) := by decide
      exact absurd hkind (hall _ h)
  | @word c tail hc htail =>
      have hident : TokenKind.ofWord (c :: tail) = .ident := by
        have hmem := ofWord_mem (c :: tail)
        rcases hkind with hkind | hkind | hkind
        · exact hkind
        · exact absurd (hkind ▸ hmem) (by decide)
        · exact absurd (hkind ▸ hmem) (by decide)
      rw [List.forall_mem_cons] at hascii
      have hupper := (ofWord_eq_ident_iff.mp hident).1
      have hlower : c.isLower = true := by simpa [isAlpha_iff, hupper] using hc
      have hfirst : Text.lowerChar c = c :=
        Text.lowerChar_of_isLower hascii.1 hlower
      rw [List.map_cons, hfirst] at hif helse ⊢
      have hident' : TokenKind.ofWord (c :: tail.map Text.lowerChar) = .ident :=
        ofWord_eq_ident_iff.mpr ⟨hupper, hif, helse⟩
      rw [hident, ← hident']
      refine .word hc ?_
      rw [List.forall_mem_map]
      intro d hd
      have hword := htail d hd
      rw [hlower] at hword ⊢
      rw [Text.isWordChar_lowerChar (hascii.2 d hd)]
      exact hword
  | classIdent hne hchars =>
      rw [List.forall_mem_cons] at hascii
      exact .classIdent (by simpa using hne) (hname hascii.2 hchars)
  | @idIdent name hne hchars hcolor =>
      rw [List.forall_mem_cons] at hascii
      refine .idIdent (by simpa using hne) (hname hascii.2 hchars) ?_
      rw [List.length_map, List.forall_mem_map]
      rintro ⟨hlength, hhex⟩
      refine hcolor ⟨hlength, fun d hd => ?_⟩
      rw [← Text.isHexDigit_lowerChar (hascii.2 d hd)]
      exact hhex d hd
  | _ => rcases hkind with hkind | hkind | hkind <;> cases hkind

end Scan

/-! ## What is read has the form of the grammar -/

theorem Grammar.IsName.isNameText
    {t : Token} (h : IsName t) (hlexeme : Lexeme t.kind t.text.toList) :
    Canonical.IsNameText t.text := by
  rcases h with h | h
  · rw [h] at hlexeme
    exact .inl (hlexeme.lexesAs (by decide))
  · rw [h] at hlexeme
    exact .inr (hlexeme.lexesAs (by decide))

theorem Grammar.Numeral.nonneg {t : Token} {n : Int64} (h : Numeral t n) :
    0 ≤ n.toInt := by
  obtain ⟨digits, unit, -, -, -, -, hn⟩ := h
  rw [hn]
  exact Int.natCast_nonneg _

theorem Grammar.Atom.exprTree
    {ts : List Token} {e : Expr} (h : Atom ts e) (hts : Lexed ts) (n : Nat) :
    Canonical.ExprTree (e.treeAt n) ∧ ¬ Canonical.IsOperation (e.treeAt n) := by
  cases h with
  | pixel _ hnumber => exact ⟨.literal hnumber.nonneg, id⟩
  | percentage _ hnumber => exact ⟨.literal hnumber.nonneg, id⟩
  | scalar _ hnumber => exact ⟨.literal hnumber.nonneg, id⟩
  | color hkind =>
      have hlexeme := hts.cons.1
      rw [hkind] at hlexeme
      exact ⟨.literal hlexeme.kind_eq_color, id⟩
  | trueWord => exact ⟨.literal trivial, id⟩
  | falseWord => exact ⟨.literal trivial, id⟩
  | trueName => exact ⟨.literal trivial, id⟩
  | falseName => exact ⟨.literal trivial, id⟩
  | reference hname htrue hfalse =>
      exact ⟨.reference (hname.isNameText hts.cons.1) ⟨htrue, hfalse⟩, id⟩

theorem Canonical.IsSum.isOperation {t : Tree} (h : IsSum t) :
    IsOperation t := by
  unfold IsSum at h
  split at h
  · trivial
  · trivial
  · exact h.elim

theorem Grammar.Term.exprTree
    {ts : List Token} {e : Expr} (h : Term ts e) (hts : Lexed ts) (n : Nat) :
    Canonical.ExprTree (e.treeAt n) ∧ ¬ Canonical.IsSum (e.treeAt n) := by
  induction h generalizing n with
  | atom h =>
      obtain ⟨htree, hop⟩ := h.exprTree hts n
      exact ⟨htree, fun hsum => hop hsum.isOperation⟩
  | product hl hsign hr ih =>
      obtain ⟨hleft, hright⟩ := hts.append
      obtain ⟨hltree, hlsum⟩ := ih hleft n
      obtain ⟨hrtree, hrop⟩ := hr.exprTree hright.cons.2 _
      exact ⟨.operation hltree hrtree ⟨hlsum, hrop⟩, id⟩

theorem Grammar.Expression.exprTree
    {ts : List Token} {e : Expr} (h : Expression ts e) (hts : Lexed ts)
    (n : Nat) :
    Canonical.ExprTree (e.treeAt n) := by
  induction h generalizing n with
  | term h => exact (h.exprTree hts n).1
  | sum hl hsign hr ih =>
      obtain ⟨hleft, hright⟩ := hts.append
      obtain ⟨hrtree, hrsum⟩ := hr.exprTree hright.cons.2 _
      exact .operation (ih hleft n) hrtree hrsum
  | difference hl hsign hr ih =>
      obtain ⟨hleft, hright⟩ := hts.append
      obtain ⟨hrtree, hrsum⟩ := hr.exprTree hright.cons.2 _
      exact .operation (ih hleft n) hrtree hrsum

theorem Grammar.Binding.exprTree
    {sign : TokenKind} {ts : List Token} {t : Token} {e : Expr}
    (h : Binding sign ts t e) (hts : Lexed ts) :
    Canonical.IsNameText t.text ∧ ∀ n, Canonical.ExprTree (e.treeAt n) := by
  obtain ⟨hname, hmark, hexpr, hsemicolon⟩ := h
  obtain ⟨hfirst, hrest⟩ := hts.append.1.cons
  exact ⟨hname.isNameText hfirst, hexpr.exprTree hrest.cons.2⟩

/-- The trees of the items all have the form that the grammar gives. -/
def ItemTrees (ts : List Token) (its : List Item) : Prop :=
  Lexed ts → ∀ n, ∀ t ∈ itemTrees n its, Canonical.ItemTree t

/-- The tree of the conditional has the form that the grammar gives. -/
def BranchesTree (ts : List Token) (branches : Branches) : Prop :=
  Lexed ts → ∀ n pos, Canonical.ItemTree ((branches.item pos).treeAt n)

theorem ItemTrees.ifThen
    {word opening closing : Token} {gs bs : List Token} {guard : Expr}
    {body : List Item} (hguard : Expression gs guard)
    (hbody : ItemTrees bs body) :
    BranchesTree (word :: opening :: gs ++ closing :: bs)
      ⟨guard, body, none⟩ := by
  intro hts n pos
  obtain ⟨hfront, hback⟩ := hts.append
  exact .ifThen (hguard.exprTree hfront.cons.2.cons.2 n) (hbody hback.cons.2 _)

theorem ItemTrees.ifElse
    {word opening closing other : Token} {gs bs os : List Token} {guard : Expr}
    {body otherwise : List Item} (hguard : Expression gs guard)
    (hbody : ItemTrees bs body) (hotherwise : ItemTrees os otherwise) :
    BranchesTree (word :: opening :: gs ++ closing :: bs ++ other :: os)
      ⟨guard, body, some (other.pos, otherwise)⟩ := by
  intro hts n pos
  obtain ⟨hthen, helse⟩ := hts.append
  obtain ⟨hfront, hback⟩ := hthen.append
  exact .ifElse (hguard.exprTree hfront.cons.2.cons.2 n) (hbody hback.cons.2 _)
    (hotherwise helse.cons.2 _)

theorem Grammar.Block.itemTrees
    {ts : List Token} {its : List Item} (h : Block ts its) : ItemTrees ts its :=
  @Block.rec
    (fun ts its _ => ItemTrees ts its)
    (fun ts _ branches _ => BranchesTree ts branches)
    (fun ts item _ => Lexed ts → ∀ n, Canonical.ItemTree (item.treeAt n))
    (fun ts its _ => ItemTrees ts its)
    (fun _ _ _ hbody hts => hbody hts.append.1.cons.2)
    (fun _ _ hguard _ _ hbody => hbody.ifThen hguard)
    (fun _ _ hguard _ _ _ _ hbody hotherwise => hbody.ifElse hguard hotherwise)
    (fun h hts _ => .declaration (h.exprTree hts).1 ((h.exprTree hts).2 _))
    (fun h hts _ => .assignment (h.exprTree hts).1 ((h.exprTree hts).2 _))
    (fun _ h hts n => h hts n _)
    (fun _ _ => List.forall_mem_nil _)
    (fun _ _ hitem hbody hts n => by
      rw [Stylesheet.itemTrees, List.forall_mem_cons]
      exact ⟨hitem hts.append.1 n, hbody hts.append.2 _⟩)
    ts its h

theorem Grammar.IfClause.branchesTree
    {ts : List Token} {word : Token} {branches : Branches}
    (h : IfClause ts word branches) :
    BranchesTree ts branches := by
  cases h with
  | ifThen _ _ hguard _ hbody => exact hbody.itemTrees.ifThen hguard
  | ifElse _ _ hguard _ hbody _ hotherwise =>
      exact hbody.itemTrees.ifElse hguard hotherwise.itemTrees

/-- None of the selectors spells a keyword. -/
def KeywordFree (selectors : List Selector) : Prop :=
  ∀ s ∈ selectors, s.text ≠ "if" ∧ s.text ≠ "else"

instance (selectors : List Selector) : Decidable (KeywordFree selectors) :=
  inferInstanceAs (Decidable (∀ s ∈ selectors, s.text ≠ "if" ∧ s.text ≠ "else"))

theorem Grammar.IsSelector.isSelectorText
    {t : Token} (h : IsSelector t) (hlexeme : Lexeme t.kind t.text.toList)
    (hif : Text.lowercase t.text ≠ "if")
    (helse : Text.lowercase t.text ≠ "else") :
    Canonical.IsSelectorText (Text.lowercase t.text) := by
  have hascii :=
    hlexeme.toNat_lt (by rcases h with h | h | h <;> rw [h] <;> decide)
  rw [← String.toList_inj.ne, Text.toList_lowercase] at hif helse
  have hlower := hlexeme.lowercase h hif helse
  rw [← Text.toList_lowercase] at hlower
  refine ⟨Text.lowercase_lowercase hascii, ?_⟩
  rcases h with h | h | h <;> rw [h] at hlower
  · exact .inl (hlower.lexesAs (by decide))
  · exact .inr (.inl (hlower.lexesAs (by decide)))
  · exact .inr (.inr (hlower.lexesAs (by decide)))

theorem Grammar.Selectors.selectorTrees
    {ts : List Token} {selectors : List Selector} (h : Selectors ts selectors)
    (hts : Lexed ts) (hfree : KeywordFree selectors) (n : Nat) :
    ∀ t ∈ selectorTrees n selectors, Canonical.SelectorTree t := by
  induction h generalizing n with
  | single h =>
      obtain ⟨hif, helse⟩ := hfree _ List.mem_cons_self
      exact List.forall_mem_singleton.mpr
        (.intro (h.isSelectorText hts.cons.1 hif helse))
  | cons h hcomma hmore ih =>
      obtain ⟨hfirst, hrest⟩ := List.forall_mem_cons.mp hfree
      rw [Stylesheet.selectorTrees, List.forall_mem_cons]
      exact ⟨.intro (h.isSelectorText hts.cons.1 hfirst.1 hfirst.2),
        ih hts.cons.2.cons.2 hrest _⟩

theorem Grammar.TopItem.statementTree
    {ts : List Token} {statement : Statement} (h : TopItem ts statement)
    (hts : Lexed ts) (hfree : KeywordFree statement.selectors) (n : Nat) :
    Canonical.StatementTree (statement.treeAt n) := by
  cases h with
  | assignment h => exact .assignment (h.exprTree hts).1 ((h.exprTree hts).2 _)
  | rule hselectors hbody =>
      exact .rule (List.cons_ne_nil _ _)
        (hselectors.selectorTrees hts.append.1 hfree n)
        (hbody.itemTrees hts.append.2 _)
  | @conditional _ _ branches h =>
      have htree := h.branchesTree hts n
      obtain ⟨guard, body, _ | ⟨elsePos, otherwise⟩⟩ := branches
      · exact .conditional (htree _)
      · exact .conditional (htree _)

theorem Grammar.WholeSheet.statementTrees
    {ts : List Token} {sheet : Sheet} (h : WholeSheet ts sheet) (hts : Lexed ts)
    (hfree : KeywordFree (sheet.flatMap Statement.selectors)) (n : Nat) :
    ∀ t ∈ statementTrees n sheet, Canonical.StatementTree t := by
  induction h generalizing n with
  | nil => exact List.forall_mem_nil _
  | cons hstatement _ ih =>
      obtain ⟨hfirst, hrest⟩ := List.forall_mem_append.mp hfree
      rw [Stylesheet.statementTrees, List.forall_mem_cons]
      exact ⟨hstatement.statementTree hts.append.1 hfirst n,
        ih hts.append.2 hrest _⟩

theorem sheetTree_of_parse
    {source : List Char} (h : (parse source).diagnostics = [])
    (hfree : KeywordFree ((parse source).sheet.flatMap Statement.selectors)) :
    Canonical.SheetTree (sheetTree (parse source).sheet) := by
  obtain ⟨ts, hlexed, hsheet⟩ := exists_lexed_of_parse h
  exact .intro (hsheet.statementTrees hlexed hfree 1)

/-! ## The form of a tree tells the sheet -/

/-- No place at all. -/
def unplaced : Position → Position :=
  fun _ => Token.nowhere.pos

theorem Expr.moved_eq_of_shape
    {e e' : Expr} {n n' : Nat} (h : (e.treeAt n).shape = (e'.treeAt n').shape) :
    e.moved unplaced = e'.moved unplaced := by
  induction e generalizing e' n n' with
  | literal pos value =>
      cases e' <;>
        simp [treeAt, Tree.plain, Content.map, moved, unplaced] at h ⊢
      exact h
  | reference pos name =>
      cases e' <;>
        simp [treeAt, Tree.plain, Content.map, moved, unplaced] at h ⊢
      exact h
  | operation pos op lhs rhs ihl ihr =>
      cases e' <;>
        simp [treeAt, Tree.plain, Content.map, moved, unplaced] at h ⊢
      exact ⟨h.1, ihl h.2.1, ihr h.2.2⟩

/-- Items with trees of the same forms are the same apart from their places. -/
theorem movedItems_eq_of_shape
    {items items' : List Item} {n n' : Nat}
    (h : (itemTrees n items).map Tree.shape =
      (itemTrees n' items').map Tree.shape) :
    movedItems unplaced items = movedItems unplaced items' := by
  -- The numbers of the nodes are not in the forms, so they may differ from item
  -- to item.
  induction items using Item.list_induction generalizing items' n n' with
  | nil =>
      cases items' with
      | nil => rfl
      | cons item' items' => cases h
  | declaration pos property expr items ih =>
      rcases items' with _ | ⟨item', items'⟩
      · cases h
      obtain ⟨hitem, hrest⟩ := List.cons.inj h
      cases item' <;>
        simp [Item.treeAt, declarationTree, assignmentTree, Tree.plain,
          Content.map] at hitem
      obtain ⟨hname, hexpr⟩ := hitem
      simp [movedItems, Item.moved, unplaced, ih hrest, hname,
        Expr.moved_eq_of_shape hexpr]
  | assignment pos name expr items ih =>
      rcases items' with _ | ⟨item', items'⟩
      · cases h
      obtain ⟨hitem, hrest⟩ := List.cons.inj h
      cases item' <;>
        simp [Item.treeAt, declarationTree, assignmentTree, Tree.plain,
          Content.map] at hitem
      obtain ⟨hname, hexpr⟩ := hitem
      simp [movedItems, Item.moved, unplaced, ih hrest, hname,
        Expr.moved_eq_of_shape hexpr]
  | ifThen pos guard body items ihbody ih =>
      rcases items' with _ | ⟨item', items'⟩
      · cases h
      obtain ⟨hitem, hrest⟩ := List.cons.inj h
      cases item' <;>
        simp [Item.treeAt, declarationTree, assignmentTree, Tree.plain,
          Content.map] at hitem
      obtain ⟨hguard, hbody⟩ := hitem
      simp [movedItems, Item.moved, unplaced, ih hrest,
        Expr.moved_eq_of_shape hguard, ihbody hbody]
  | ifElse pos guard body elsePos otherwise items ihbody ihelse ih =>
      rcases items' with _ | ⟨item', items'⟩
      · cases h
      obtain ⟨hitem, hrest⟩ := List.cons.inj h
      cases item' <;>
        simp [Item.treeAt, declarationTree, assignmentTree, Tree.plain,
          Content.map] at hitem
      obtain ⟨hguard, hbody, hotherwise⟩ := hitem
      simp [movedItems, Item.moved, unplaced, ih hrest,
        Expr.moved_eq_of_shape hguard, ihbody hbody, ihelse hotherwise]

theorem Selector.moved_eq_of_shape
    {selectors selectors' : List Selector} {n n' : Nat}
    (h : (selectorTrees n selectors).map Tree.shape =
      (selectorTrees n' selectors').map Tree.shape) :
    selectors.map (Selector.moved unplaced) =
      selectors'.map (Selector.moved unplaced) := by
  induction selectors generalizing selectors' n n' with
  | nil =>
      cases selectors' with
      | nil => rfl
      | cons _ _ => cases h
  | cons selector selectors ih =>
      rcases selectors' with _ | ⟨selector', selectors'⟩
      · cases h
      obtain ⟨hfirst, hrest⟩ := List.cons.inj h
      simp [Tree.plain, Content.map] at hfirst
      simp [moved, unplaced, hfirst, ih hrest]

theorem Statement.moved_eq_of_shape
    {s s' : Statement} {n n' : Nat}
    (h : (s.treeAt n).shape = (s'.treeAt n').shape) :
    s.moved unplaced = s'.moved unplaced := by
  cases s <;> cases s' <;>
    simp [treeAt, Item.treeAt, assignmentTree, Tree.plain, Content.map] at h
  case assignment.assignment =>
    simp [moved, unplaced, h.1, Expr.moved_eq_of_shape h.2]
  case rule.rule =>
    simp [moved, unplaced, Selector.moved_eq_of_shape h.1,
      movedItems_eq_of_shape h.2]
  case ifThen.ifThen =>
    simp [moved, unplaced, Expr.moved_eq_of_shape h.1,
      movedItems_eq_of_shape h.2]
  case ifElse.ifElse =>
    simp [moved, unplaced, Expr.moved_eq_of_shape h.1,
      movedItems_eq_of_shape h.2.1, movedItems_eq_of_shape h.2.2]

theorem Statement.map_moved_eq_of_shape
    {sheet sheet' : Sheet} {n n' : Nat}
    (h : (statementTrees n sheet).map Tree.shape =
      (statementTrees n' sheet').map Tree.shape) :
    sheet.map (Statement.moved unplaced) =
      sheet'.map (Statement.moved unplaced) := by
  induction sheet generalizing sheet' n n' with
  | nil =>
      cases sheet' with
      | nil => rfl
      | cons _ _ => cases h
  | cons statement sheet ih =>
      rcases sheet' with _ | ⟨statement', sheet'⟩
      · cases h
      obtain ⟨hfirst, hrest⟩ := List.cons.inj h
      rw [List.map_cons, List.map_cons, moved_eq_of_shape hfirst, ih hrest]

theorem map_moved_eq_of_shape
    {sheet sheet' : Sheet}
    (h : (sheetTree sheet).shape = (sheetTree sheet').shape) :
    sheet.map (Statement.moved unplaced) =
      sheet'.map (Statement.moved unplaced) := by
  simp only [sheetTree, Tree.plain, Tree.shape_node, Content.map,
    Tree.node.injEq, Content.stylesheet.injEq, true_and] at h
  exact Statement.map_moved_eq_of_shape h

end Stylesheet
