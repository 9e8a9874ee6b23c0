import Stylesheet.Proofs.Forms

/-!
# Formatting

Formatting writes a sheet that was read without a fault in canonical layout.
Selectors are kept in lower case, so one of them may have become a keyword.  If
none has, the text is read back as the same sheet, is its own canonical text and
is compiled alike.  If one has, the text has a fault or is read as another
sheet.
-/

namespace Stylesheet

open Scan Grammar Reading

/-! ## The text of a form -/

namespace Canonical

theorem exprText_relabel (f : Label → Label) (t : Tree) :
    exprText (t.relabel f) = exprText t := by
  induction t using Tree.induction_on with
  | hmissing => rw [Tree.relabel_missing]
  | hnode label c ih =>
      rw [Tree.relabel_node]
      cases c with
      | operation op lhs rhs =>
          rw [Content.map, exprText, exprText,
            ih lhs (by simp [Content.toList]),
            ih rhs (by simp [Content.toList])]
      | _ => rfl

theorem selectorText?_relabel (f : Label → Label) (t : Tree) :
    (t.relabel f).selectorText? = t.selectorText? := by
  cases t with
  | missing => rw [Tree.relabel_missing]
  | node label c =>
      rw [Tree.relabel_node]
      cases c <;> rfl

theorem selectorList_map_relabel (f : Label → Label) (selectors : List Tree) :
    selectorList (selectors.map (Tree.relabel f)) = selectorList selectors := by
  rw [selectorList, selectorList, List.filterMap_map]
  congr 2
  exact funext (selectorText?_relabel f)

theorem bodyLines_map_relabel
    {f : Label → Label} {body : List Tree}
    (h : ∀ t ∈ body, ∀ depth, itemLines depth (t.relabel f) = itemLines depth t)
    (depth : Nat) :
    bodyLines depth (body.map (Tree.relabel f)) = bodyLines depth body := by
  induction body with
  | nil => rfl
  | cons t body ih =>
      rw [List.forall_mem_cons] at h
      rw [List.map_cons, bodyLines, bodyLines, h.1, ih h.2]

theorem itemLines_and_elseLines_relabel (f : Label → Label) (t : Tree)
    (depth : Nat) :
    itemLines depth (t.relabel f) = itemLines depth t ∧
      elseLines depth (t.relabel f) = elseLines depth t := by
  induction t using Tree.induction_on generalizing depth with
  | hmissing => rw [Tree.relabel_missing]; exact ⟨rfl, rfl⟩
  | hnode label c ih =>
      rw [Tree.relabel_node]
      cases c with
      | declaration property expr =>
          simp only [Content.map, itemLines, elseLines, exprText_relabel,
            Typing.propertyName?_relabel, and_self]
      | assignment target expr =>
          simp only [Content.map, itemLines, elseLines, exprText_relabel,
            and_self]
      | stylerule selectors body =>
          have hbody : ∀ depth,
              bodyLines depth (body.map (Tree.relabel f)) =
                bodyLines depth body :=
            bodyLines_map_relabel fun t ht depth =>
              (ih t (by simp [Content.toList, ht]) depth).1
          simp only [Content.map, itemLines, elseLines,
            selectorList_map_relabel, hbody, and_self]
      | ifClause guard body otherwise =>
          have hbody : ∀ depth,
              bodyLines depth (body.map (Tree.relabel f)) =
                bodyLines depth body :=
            bodyLines_map_relabel fun t ht depth =>
              (ih t (by simp [Content.toList, ht]) depth).1
          have helse := (ih otherwise (by simp [Content.toList]) depth).2
          simp only [Content.map, itemLines, elseLines, exprText_relabel, hbody,
            helse, and_self]
      | elseClause body =>
          have hbody : ∀ depth,
              bodyLines depth (body.map (Tree.relabel f)) =
                bodyLines depth body :=
            bodyLines_map_relabel fun t ht depth =>
              (ih t (by simp [Content.toList, ht]) depth).1
          simp only [Content.map, itemLines, elseLines, hbody, and_self]
      | _ => simp only [Content.map, itemLines, elseLines, and_self]

theorem linesAfter_map_relabel (f : Label → Label) (previous : Tree)
    (ts : List Tree) :
    linesAfter (previous.relabel f) (ts.map (Tree.relabel f)) =
      linesAfter previous ts := by
  have hassignment : ∀ t : Tree,
      isAssignment (t.relabel f) = isAssignment t := by
    rintro (_ | ⟨label, c⟩)
    · rw [Tree.relabel_missing]
    · rw [Tree.relabel_node]
      cases c <;> rfl
  induction ts generalizing previous with
  | nil => rfl
  | cons t ts ih =>
      rw [List.map_cons, linesAfter, linesAfter, hassignment, hassignment,
        (itemLines_and_elseLines_relabel f t 0).1, ih]

/-- The lines of a sheet depend on nothing in the labels of its nodes. -/
theorem sheetLines_relabel (f : Label → Label) (t : Tree) :
    sheetLines (t.relabel f) = sheetLines t := by
  cases t with
  | missing => rw [Tree.relabel_missing]
  | node label c =>
      rw [Tree.relabel_node]
      cases c with
      | stylesheet body =>
          cases body with
          | nil => rfl
          | cons t ts =>
              simp only [Content.map, List.map_cons, sheetLines,
                (itemLines_and_elseLines_relabel f t 0).1,
                linesAfter_map_relabel]
      | _ => rfl

theorem sheetLines_eq_of_shape {t t' : Tree} (h : t.shape = t'.shape) :
    sheetLines t = sheetLines t' := by
  have hlines := congrArg sheetLines h
  rwa [Tree.shape, Tree.shape, sheetLines_relabel, sheetLines_relabel] at hlines

theorem text_eq_of_shape {t t' : Tree} (h : t.shape = t'.shape) :
    text t = text t' := by
  rw [text, text, sheetLines_eq_of_shape h]

end Canonical

/-! ## Keywords among the selectors -/

/-- The classes of the tokens that selectors in lower case are read as. -/
def IsSelectorWord (t : Token) : Prop :=
  IsSelector t ∨ t.kind = .ifWord ∨ t.kind = .elseWord

theorem Grammar.IsSelector.spells_lowercase
    {t : Token} (h : IsSelector t) (hlexeme : Lexeme t.kind t.text.toList) :
    ∃ word : Token, Spells (Text.lowercase t.text) [word] ∧
      IsSelectorWord word ∧
      (IsSelector word →
        Text.lowercase t.text ≠ "if" ∧ Text.lowercase t.text ≠ "else") := by
  by_cases hif : Text.lowercase t.text = "if"
  · rw [hif]
    exact ⟨_, Canonical.spells_if, .inr (.inl rfl), nofun⟩
  · by_cases helse : Text.lowercase t.text = "else"
    · rw [helse]
      exact ⟨_, Canonical.spells_else, .inr (.inr rfl), nofun⟩
    · obtain ⟨word, hspells, hword, -⟩ :=
        (h.isSelectorText hlexeme hif helse).spells
      exact ⟨word, hspells, .inl hword, fun _ => ⟨hif, helse⟩⟩

/-- What stands behind the first selector of a rule. -/
def BehindSelector (ts : List Token) : Prop :=
  (current ts).kind = .comma ∨ (current ts).kind = .lbrace

theorem Canonical.selectorList_selectorTrees (selectors : List Selector)
    (n : Nat) :
    selectorList (selectorTrees n selectors) =
      ", ".intercalate (selectors.map Selector.text) := by
  rw [selectorList]
  congr 1
  induction selectors generalizing n with
  | nil => rfl
  | cons selector selectors ih =>
      exact congrArg (selector.text :: ·) (ih (n + 1))

/-- The selectors of a rule are written as words with commas between them.  If
one of them is a keyword, it is the first of them or a fault behind it. -/
theorem Grammar.Selectors.spells
    {ts : List Token} {selectors : List Selector} (h : Selectors ts selectors)
    (hts : Lexed ts) :
    ∃ word rest, Spells (", ".intercalate (selectors.map Selector.text))
      (word :: rest) ∧
      IsSelectorWord word ∧ ∀ opening more, opening.kind = .lbrace →
        BehindSelector (rest ++ opening :: more) ∧
          (¬ KeywordFree selectors → IsSelector word →
            (moreSelectors (rest ++ opening :: more)).faults ≠ []) := by
  induction h with
  | @single t ht =>
      obtain ⟨word, hspells, hword, hfree⟩ := ht.spells_lowercase hts.cons.1
      refine ⟨word, [], ?_, hword, fun opening more hopening =>
        ⟨.inr hopening, ?_⟩⟩
      · simpa using hspells
      · intro hkeyword hselector
        refine absurd ?_ hkeyword
        rw [KeywordFree, List.forall_mem_singleton]
        exact hfree hselector
  | @cons t comma ts selectors ht _ hmore ih =>
      obtain ⟨word, hspells, hword, hfree⟩ := ht.spells_lowercase hts.cons.1
      obtain ⟨next, rest, hspells', -, hbehind⟩ := ih hts.cons.2.cons.2
      refine ⟨word, .bare .comma "," :: next :: rest, ?_, hword,
        fun opening more hopening => ⟨.inl rfl, ?_⟩⟩
      · obtain ⟨first, others, rfl⟩ :
            ∃ first others, selectors = first :: others := by
          cases hmore <;> exact ⟨_, _, rfl⟩
        rw [List.map_cons] at hspells'
        rw [List.map_cons, List.map_cons, String.intercalate_cons_cons]
        exact (hspells.append_fills Canonical.fills_comma
          (by decide)).append_spells hspells'
      · intro hkeyword hselector
        have hrest : ¬ KeywordFree selectors := fun hrest =>
          hkeyword (List.forall_mem_cons.mpr ⟨hfree hselector, hrest⟩)
        have hcomma : (Token.bare .comma ",").kind = .comma := rfl
        rw [List.cons_append, List.cons_append, moreSelectors, if_pos hcomma]
        intro hnone
        obtain ⟨hfirst, hmore⟩ := List.append_eq_nil_iff.mp hnone
        obtain ⟨u, hcons, hu, -⟩ := selector_sound hfirst
        obtain ⟨rfl, htail⟩ := List.cons.inj hcons
        rw [← htail] at hmore
        exact (hbehind opening more hopening).2 hrest hu hmore

theorem Grammar.IfClause.begins
    {ts : List Token} {word : Token} {branches : Branches}
    (h : IfClause ts word branches) :
    ∃ opening us, ts = word :: opening :: us ∧ opening.kind = .lbracket := by
  cases h with
  | ifThen _ hopening => exact ⟨_, _, rfl, hopening⟩
  | ifElse _ hopening => exact ⟨_, _, rfl, hopening⟩

/-- A rule with a keyword among its selectors is not read back without a
fault. -/
theorem statement_faults_of_keyword
    {word : Token} {rest : List Token} (hword : IsSelectorWord word)
    (hbehind : BehindSelector rest)
    (hmore : IsSelector word → (moreSelectors rest).faults ≠ []) :
    (statement word rest).faults ≠ [] := by
  have hassign : ¬ (word.kind = .capitalIdent ∨
      (word.kind = .ident ∧ (current rest).kind = .assign)) := by
    rintro (hkind | ⟨-, hkind⟩)
    · rcases hword with (h | h | h) | h | h <;> rw [hkind] at h <;> cases h
    · rcases hbehind with h | h <;> rw [hkind] at h <;> cases h
  rw [statement, if_neg hassign]
  split
  · next hif =>
      intro hnone
      obtain ⟨us, hus, hclause⟩ := conditional_sound hif hnone
      obtain ⟨opening, vs, hvs, hopening⟩ := hclause.begins
      have hcurrent : (current rest).kind = .lbracket := by
        rw [hus, (List.cons.inj hvs).2]
        exact hopening
      rcases hbehind with hkind | hkind <;>
        rw [hcurrent] at hkind <;> cases hkind
  · split
    · next hselector =>
        intro hnone
        exact hmore hselector (List.append_eq_nil_iff.mp hnone).1
    · exact List.cons_ne_nil _ _

theorem statements_faults_of_keyword
    {word : Token} {rest : List Token} (hword : IsSelectorWord word)
    (hbehind : BehindSelector rest)
    (hmore : IsSelector word → (moreSelectors rest).faults ≠ []) :
    (statements (word :: rest)).faults ≠ [] := by
  have heof : word.kind ≠ .eof := by
    rcases hword with (h | h | h) | h | h <;> rw [h] <;> decide
  rw [statements, if_neg heof]
  intro hnone
  exact statement_faults_of_keyword hword hbehind hmore
    (List.append_eq_nil_iff.mp hnone).1

theorem exists_first_keyword
    {sheet : Sheet} (h : ¬ KeywordFree (sheet.flatMap Statement.selectors)) :
    ∃ front s back, sheet = front ++ s :: back ∧
      KeywordFree (front.flatMap Statement.selectors) ∧
      ¬ KeywordFree s.selectors := by
  induction sheet with
  | nil => exact absurd (List.forall_mem_nil _) h
  | cons s sheet ih =>
      by_cases hs : KeywordFree s.selectors
      · have hrest : ¬ KeywordFree (sheet.flatMap Statement.selectors) :=
          fun hrest => h (List.forall_mem_append.mpr ⟨hs, hrest⟩)
        obtain ⟨front, bad, back, rfl, hfront, hbad⟩ := ih hrest
        exact ⟨s :: front, bad, back, rfl,
          List.forall_mem_append.mpr ⟨hs, hfront⟩, hbad⟩
      · exact ⟨[], s, sheet, rfl, List.forall_mem_nil _, hs⟩

theorem Grammar.WholeSheet.split
    {ts : List Token} {front back : Sheet} {s : Statement}
    (h : WholeSheet ts (front ++ s :: back)) :
    ∃ us vs ws, ts = us ++ (vs ++ ws) ∧ WholeSheet us front ∧ TopItem vs s ∧
      WholeSheet ws back := by
  induction front generalizing ts with
  | nil =>
      obtain _ | @⟨vs, ws, _, _, hitem, hback⟩ := h
      exact ⟨[], vs, ws, rfl, .nil, hitem, hback⟩
  | cons first front ih =>
      obtain _ | @⟨us, rest, _, _, hitem, hrest⟩ := h
      obtain ⟨us', vs, ws, rfl, hfront, hs⟩ := ih hrest
      exact ⟨us ++ us', vs, ws, by rw [List.append_assoc],
        .cons hitem hfront, hs⟩

/-- The first rule of a sheet with a keyword among its selectors. -/
theorem exists_keyword_rule
    {source : List Char} (h : (parse source).diagnostics = [])
    (hkeyword : ¬ KeywordFree
      ((parse source).sheet.flatMap Statement.selectors)) :
    ∃ front pos selectors body back us vs,
      (parse source).sheet = front ++ .rule pos selectors body :: back ∧
      Lexed us ∧ WholeSheet us front ∧
      KeywordFree (front.flatMap Statement.selectors) ∧
      Lexed vs ∧ Selectors vs selectors ∧ ¬ KeywordFree selectors := by
  obtain ⟨ts, hts, hsheet⟩ := exists_lexed_of_parse h
  obtain ⟨front, s, back, heq, hfree, hs⟩ := exists_first_keyword hkeyword
  rw [heq] at hsheet
  obtain ⟨us, vs, ws, rfl, hfront, hitem, -⟩ := hsheet.split
  obtain ⟨hus, hrest⟩ := hts.append
  cases hitem with
  | assignment => exact absurd (List.forall_mem_nil _) hs
  | @conditional _ _ branches =>
      obtain ⟨guard, body, _ | ⟨elsePos, otherwise⟩⟩ := branches <;>
        exact absurd (List.forall_mem_nil _) hs
  | @rule vs bs first selectors body hselectors hbody =>
      exact ⟨front, _, _, body, back, us, vs, heq, hus, hfront, hfree,
        hrest.append.1.append.1, hselectors, hs⟩

namespace Canonical

theorem linesAfter_append_cons
    {t : Tree} (h : isAssignment t = false) (ts us : List Tree)
    (previous : Tree) :
    linesAfter previous (ts ++ t :: us) =
      linesAfter previous ts ++ "" :: (itemLines 0 t ++ linesAfter t us) := by
  induction ts generalizing previous with
  | nil => simp [linesAfter, h]
  | cons first ts ih => simp [linesAfter, ih]

/-- The empty line in front of a statement that others come before. -/
def gapAfter : List Tree → List String
  | [] => []
  | _ :: _ => [""]

theorem sheetLines_append_cons
    {t : Tree} (h : isAssignment t = false) (ts us : List Tree)
    (label : Label) :
    sheetLines (.node label (.stylesheet (ts ++ t :: us))) =
      sheetLines (.node label (.stylesheet ts)) ++ gapAfter ts ++
        (itemLines 0 t ++ linesAfter t us) := by
  cases ts with
  | nil => rfl
  | cons first ts => simp [sheetLines, linesAfter_append_cons h, gapAfter]

theorem fillLines_gapAfter (ts : List Tree) : FillLines (gapAfter ts) [] := by
  cases ts with
  | nil => exact fillLines_nil
  | cons => exact fillLines_empty

theorem FillLines.words_append
    {lines : List String} {ts : List Token} (h : FillLines lines ts)
    (more : List String) :
    words (bytesOf (String.join ((lines ++ more).map (· ++ "\n")))) =
      ts ++ words (bytesOf (String.join (more.map (· ++ "\n")))) := by
  rw [List.map_append, String.join_append, bytesOf_append]
  exact h _

end Canonical

/-- The lines of a sheet up to the selectors of one of its rules. -/
theorem Canonical.sheetLines_rule
    (front back : Sheet) (pos : Position) (selectors : List Selector)
    (body : List Item) :
    ∃ more, sheetLines (sheetTree (front ++ .rule pos selectors body :: back)) =
      sheetLines (sheetTree front) ++ gapAfter (statementTrees 1 front) ++
        [line 0 (", ".intercalate (selectors.map Selector.text) ++ " \x7b")]
          ++ more := by
  rw [sheetTree, Tree.plain, statementTrees_append, statementTrees,
    sheetLines_append_cons rfl, Statement.treeAt, Tree.plain, itemLines,
    selectorList_selectorTrees]
  simp only [List.append_assoc]
  exact ⟨_, rfl⟩

/-- The text of a sheet with a keyword among the selectors of a rule is read
back up to that rule, and there is a fault in reading the rule. -/
theorem words_text_of_keyword
    {us vs : List Token} {front : Sheet} {selectors : List Selector}
    (hus : Lexed us) (hfront : WholeSheet us front)
    (hfree : KeywordFree (front.flatMap Statement.selectors)) (hvs : Lexed vs)
    (hselectors : Selectors vs selectors) (hkeyword : ¬ KeywordFree selectors)
    (pos : Position) (body : List Item) (back : Sheet) :
    ∃ us' front' word rest, WholeSheet us' front' ∧
      (sheetTree front').shape = (sheetTree front).shape ∧
      words (bytesOf
        (Canonical.text
          (sheetTree (front ++ .rule pos selectors body :: back)))) =
        us' ++ word :: rest ∧
      (statements (word :: rest)).faults ≠ [] := by
  have hforms : Canonical.SheetTree (sheetTree front) :=
    .intro (hfront.statementTrees hus hfree 1)
  obtain ⟨us', front', hfills, hsheet', hshape⟩ := hforms.readsBack
  obtain ⟨word, rest, hspells, hword, hbehind⟩ := hselectors.spells hvs
  obtain ⟨more, hmore⟩ :=
    Canonical.sheetLines_rule front back pos selectors body
  have hhead := Canonical.fillLines_line
    (hspells.append_fills Canonical.fills_lbrace (by decide)).spells 0
  have hlines := (Canonical.FillLines.append hfills
    (Canonical.fillLines_gapAfter (statementTrees 1 front))).append hhead
  have hwords := hlines.words_append more
  rw [← hmore, List.append_nil, List.append_assoc, List.cons_append,
    List.cons_append, List.append_assoc, List.singleton_append] at hwords
  obtain ⟨hcurrent, hfaults⟩ := hbehind (.bare .lbrace "\x7b")
    (words (bytesOf (String.join (more.map (· ++ "\n"))))) rfl
  exact ⟨us', front', word, _, hsheet', hshape, hwords,
    statements_faults_of_keyword hword hcurrent (hfaults hkeyword)⟩

/-! ## Another branch -/

namespace Canonical

/-- The lines of a sheet up to the end of the first branch of a conditional. -/
def branchLines (front : Sheet) (guard : Expr)
    (body : List Item) : List String :=
  let n := 1 + countStatements front
  sheetLines (sheetTree front) ++ gapAfter (statementTrees 1 front) ++
    ([line 0 ("if [" ++ exprText (guard.treeAt n) ++ "] \x7b")] ++
      bodyLines 1 (itemTrees (n + guard.count) body))

theorem sheetLines_ifThen
    (front : Sheet) (pos : Position) (guard : Expr) (body : List Item) :
    sheetLines (sheetTree (front ++ [.ifThen pos guard body])) =
      branchLines front guard body ++ [line 0 "\x7d"] := by
  have helse : elseLines 0 .missing = [] := by simp [elseLines]
  rw [sheetTree, Tree.plain, statementTrees_append, statementTrees,
    sheetLines_append_cons rfl, Statement.treeAt, Item.treeAt, Tree.plain,
    itemLines, helse, statementTrees, linesAfter, List.append_nil,
    List.append_nil, ← List.append_assoc]
  rfl

theorem sheetLines_ifElse
    (front back : Sheet) (pos elsePos : Position) (guard : Expr)
    (body otherwise : List Item) :
    ∃ more, sheetLines
      (sheetTree (front ++ .ifElse pos guard body elsePos otherwise :: back)) =
      branchLines front guard body ++ line 0 "\x7d else \x7b" :: more := by
  rw [sheetTree, Tree.plain, statementTrees_append, statementTrees,
    sheetLines_append_cons rfl, Statement.treeAt, Item.treeAt, Tree.plain,
    Tree.plain, itemLines, elseLines, branchLines]
  simp only [List.append_assoc, List.cons_append]
  exact ⟨_, rfl⟩

/-- The end of a conditional can be told from the word for its other branch. -/
theorem join_branchLines_ne (front more more' : List String) :
    String.join ((front ++ line 0 "\x7d" :: more).map (· ++ "\n")) ≠
      String.join ((front ++ line 0 "\x7d else \x7b" :: more').map
        (· ++ "\n")) := by
  intro h
  have hchars := congrArg String.toList h
  simp [line] at hchars

end Canonical

theorem Grammar.IfClause.conditional_else
    {ts : List Token} {word : Token} {guard : Expr} {body : List Item}
    (h : IfClause ts word ⟨guard, body, none⟩) :
    ∃ us, ts = word :: us ∧ word.kind = .ifWord ∧
      ∀ other rest, other.kind = .elseWord →
      (conditional (us ++ other :: rest)).value =
        ⟨guard, body, some (other.pos, (block rest).value)⟩ := by
  cases h with
  | @ifThen _ opening closing gs bs _ _ hword hopening hguard hclosing hbody =>
      refine ⟨opening :: gs ++ closing :: bs, rfl, hword,
        fun other rest hother => ?_⟩
      have hread :=
        hguard.read_bracketed hopening hclosing (bs ++ other :: rest)
      simp [conditional_eq, hread, hbody.reads (other :: rest), current, hother]

theorem Grammar.TopItem.ifClause
    {ts : List Token} {pos : Position} {b : Branches}
    (h : TopItem ts (b.statement pos)) :
    ∃ word, word.pos = pos ∧ IfClause ts word b := by
  generalize hs : b.statement pos = s at h
  obtain ⟨guard, body, _ | ⟨elsePos, otherwise⟩⟩ := b <;> cases h with
  | assignment => cases hs
  | rule => cases hs
  | @conditional _ word b h =>
      obtain ⟨guard, body, _ | ⟨elsePos, otherwise⟩⟩ := b <;> cases hs
      exact ⟨word, rfl, h⟩

/-- Behind a sheet that ends with a conditional, the word for another branch
makes the conditional longer. -/
theorem Grammar.WholeSheet.statements_else
    {ts : List Token} {front : Sheet} {pos : Position} {guard : Expr}
    {body : List Item} (h : WholeSheet ts (front ++ [.ifThen pos guard body]))
    {other : Token} (hother : other.kind = .elseWord) (rest : List Token) :
    ∃ pos' otherwise more, (statements (ts ++ other :: rest)).value =
      front ++ .ifElse pos' guard body other.pos otherwise :: more := by
  obtain ⟨us, vs, ws, rfl, hfront, hitem, hnil⟩ := h.split
  cases hnil
  obtain ⟨word, -, hclause⟩ := TopItem.ifClause (b := ⟨guard, body, none⟩) hitem
  obtain ⟨vs, rfl, hword, hvalue⟩ := hclause.conditional_else
  have hne : (current (word :: (vs ++ other :: rest))).kind ≠ .elseWord := by
    simp [current, hword]
  have hread := (hfront.read_append fun hkind => absurd hkind hne).2
  rw [List.append_nil, List.append_assoc, List.cons_append, hread, statements]
  simp [hword, statement, hvalue other rest hother, Branches.statement]

/-- A rule that is taken for another branch is not written as it was. -/
theorem text_ifElse_ne
    {front front' : Sheet} {guard : Expr} {body : List Item} {pos : Position}
    (h : (sheetTree (front' ++ [.ifThen pos guard body])).shape =
      (sheetTree front).shape)
    (pos' elsePos : Position) (otherwise : List Item) (back' : Sheet)
    (rulePos : Position) (selectors : List Selector) (ruleBody : List Item)
    (back : Sheet) :
    Canonical.text
      (sheetTree (front'
        ++ .ifElse pos' guard body elsePos otherwise :: back')) ≠
      Canonical.text
        (sheetTree (front ++ .rule rulePos selectors ruleBody :: back)) := by
  obtain ⟨more', hmore'⟩ :=
    Canonical.sheetLines_ifElse front' back' pos' elsePos guard body otherwise
  obtain ⟨more, hmore⟩ :=
    Canonical.sheetLines_rule front back rulePos selectors ruleBody
  rw [← Canonical.sheetLines_eq_of_shape h, Canonical.sheetLines_ifThen,
    List.append_assoc, List.append_assoc, List.append_assoc,
    List.singleton_append] at hmore
  rw [Canonical.text, Canonical.text, hmore', hmore]
  exact (Canonical.join_branchLines_ne _ _ _).symm

/-- A sheet with a keyword among its selectors is not read back from its text:
there is a fault in the text, or its own text is another one. -/
theorem text_of_keyword
    {source : List Char} (h : (parse source).diagnostics = [])
    (hkeyword : ¬ KeywordFree
      ((parse source).sheet.flatMap Statement.selectors)) :
    let text := Canonical.text (sheetTree (parse source).sheet)
    (parse (bytesOf text)).faults ≠ [] ∨
      Canonical.text (sheetTree (parse (bytesOf text)).sheet) ≠ text := by
  intro text
  obtain ⟨front, pos, selectors, body, back, us, vs, heq, hus, hfront, hfree,
      hvs, hselectors,
    hkeyword⟩ := exists_keyword_rule h hkeyword
  obtain ⟨us', front', word, rest, hfront', hshape, hwords, hfaults⟩ :=
    words_text_of_keyword hus hfront hfree hvs hselectors hkeyword pos body back
  have hparse := parse_unplaced (bytesOf text)
  rw [← heq] at hwords
  rw [hwords] at hparse
  -- The keyword is a fault, except that `else` behind a conditional goes on
  -- with the conditional.
  by_cases hclosed : (current (word :: rest)).kind = .elseWord →
      ∀ s ∈ front'.getLast?, s.isOpen = false
  · refine .inl fun hnone => hfaults ?_
    have hread := congrArg Parsed.faults hparse
    rw [(hfront'.read_append hclosed).2, Parsed.moved, hnone] at hread
    exact hread.symm
  · obtain ⟨hkind, s, hs, hopen⟩ :
        word.kind = .elseWord ∧ ∃ s ∈ front'.getLast?, s.isOpen = true := by
      simpa [current] using hclosed
    obtain ⟨front', rfl⟩ := List.getLast?_eq_some_iff.mp hs
    cases s with
    | ifThen ifPos guard ifBody =>
        obtain ⟨pos', otherwise, back', hvalue⟩ :=
          hfront'.statements_else hkind rest
        have hsheet : (parse (bytesOf text)).sheet.map
            (Statement.moved unplaced) =
            front' ++ .ifElse pos' guard ifBody word.pos otherwise :: back' :=
          (congrArg Parsed.sheet hparse).trans hvalue
        have htext := Canonical.text_eq_of_shape
          (shape_sheetTree_moved unplaced (parse (bytesOf text)).sheet)
        refine .inr ?_
        change _ ≠ Canonical.text (sheetTree (parse source).sheet)
        rw [← htext, hsheet, heq]
        exact text_ifElse_ne hshape pos' word.pos otherwise back' pos selectors
          body back
    | _ => cases hopen

/-! ## Formatting -/

theorem format_eq_ok {source : List Char}
    (h : (parse source).diagnostics = []) :
    format source = .ok (Canonical.text (sheetTree (parse source).sheet)) := by
  simp only [format, diagnostics_load, h, arena_load, Parsed.arena,
    rootTree_ofSheet]
  rfl

theorem parse_moved_of_shape
    {source source' : List Char} (h : (parse source).faults = [])
    (h' : (parse source').faults = [])
    (hshape : (sheetTree (parse source').sheet).shape =
      (sheetTree (parse source).sheet).shape) :
    (parse source').moved unplaced = (parse source).moved unplaced := by
  rw [Parsed.moved, Parsed.moved, h, h', map_moved_eq_of_shape hshape]

/-- What a diagnostic says, wherever it is. -/
def Diagnostic.report (d : Diagnostic) : Severity × DiagnosticKind × String :=
  (d.severity, d.kind, d.message)

/-- Formatting gives a text that is read without a fault, that is its own
canonical text, and that is compiled to the same CSS with the same reports but
for their places. -/
def FormatsSafely (source : List Char) : Prop :=
  ∃ text, format source = .ok text ∧ (parse (bytesOf text)).diagnostics = [] ∧
    format (bytesOf text) = .ok text ∧
    (compile (bytesOf text)).css = (compile source).css ∧
    (compile (bytesOf text)).diagnostics.map Diagnostic.report =
      (compile source).diagnostics.map Diagnostic.report

theorem formatsSafely_of_keywordFree
    {source : List Char} (h : (parse source).diagnostics = [])
    (hfree : KeywordFree ((parse source).sheet.flatMap Statement.selectors)) :
    FormatsSafely source := by
  obtain ⟨hfaults, hshape⟩ := (sheetTree_of_parse h hfree).parse_text
  generalize htext : Canonical.text (sheetTree (parse source).sheet) =
    text at hfaults hshape
  have hread : (parse (bytesOf text)).diagnostics = [] :=
    List.map_eq_nil_iff.mpr hfaults
  refine ⟨text, htext ▸ format_eq_ok h, hread, ?_, ?_⟩
  · rw [format_eq_ok hread, Canonical.text_eq_of_shape hshape, htext]
  · obtain ⟨hcss, hdiagnostics⟩ :=
      compile_of_parse_moved
        (parse_moved_of_shape (List.map_eq_nil_iff.mp h) hfaults hshape)
    refine ⟨hcss, ?_⟩
    have hreports := congrArg (List.map Diagnostic.report) hdiagnostics
    rw [List.map_map, List.map_map] at hreports
    exact hreports

theorem keywordFree_of_formatsSafely
    {source : List Char} (h : (parse source).diagnostics = [])
    (hsafe : FormatsSafely source) :
    KeywordFree ((parse source).sheet.flatMap Statement.selectors) := by
  obtain ⟨text, hformat, hread, hagain, -⟩ := hsafe
  by_contra hkeyword
  rw [format_eq_ok h] at hformat
  obtain rfl := Except.ok.inj hformat
  rw [format_eq_ok hread] at hagain
  rcases text_of_keyword h hkeyword with hfaults | hother
  · exact hfaults (List.map_eq_nil_iff.mp hread)
  · exact hother (Except.ok.inj hagain)

/-- A source that is read without a fault is formatted safely exactly if no
selector spells a keyword once it is in lower case. -/
theorem formatsSafely_iff_keywordFree
    (source : List Char) (h : (parse source).diagnostics = []) :
    FormatsSafely source ↔
      KeywordFree ((parse source).sheet.flatMap Statement.selectors) :=
  ⟨keywordFree_of_formatsSafely h, formatsSafely_of_keywordFree h⟩

/-- A source with comments, leading zeros, selectors in mixed case and an error,
and one in which a rule would become another branch. -/
theorem formatsSafely_mixed_case :
    let mixed :=
      "W:=007px;/*c*/a1,.Qx\x7bif[tRuE]\x7bwidth:W*2;\x7delse\x7bx-y:#FFffFF+undef;\x7d\x7d".toList
    let branching := "if [TRUE] \x7b \x7d eLSE \x7b width: 1px; \x7d".toList
    ((parse mixed).diagnostics = [] ∧ FormatsSafely mixed ∧
      format mixed =
        .ok ("W := 7px;\n\na1, .qx \x7b\n    if [TRUE] \x7b\n        width: W * 2;\n"
          ++ "    \x7d else \x7b\n        x-y: #FFffFF + undef;\n    \x7d\n\x7d\n")) ∧
    ((parse branching).diagnostics = [] ∧ ¬ FormatsSafely branching) := by
  intro mixed branching
  have hmixed : (parse mixed).diagnostics = [] := by decide +kernel
  have hbranching : (parse branching).diagnostics = [] := by decide +kernel
  refine ⟨⟨hmixed, ?_, by decide +kernel⟩, hbranching, ?_⟩
  · exact (formatsSafely_iff_keywordFree mixed hmixed).mpr (by decide +kernel)
  · rw [formatsSafely_iff_keywordFree branching hbranching]
    decide +kernel

/-- The canonical text of a rule with the selector `iF` is not read without a
fault. -/
theorem format_keyword_selector :
    let source := "iF \x7b \x7d".toList
    (parse source).diagnostics = [] ∧ format source = .ok "if \x7b\n\x7d\n" ∧
      (parse (bytesOf "if \x7b\n\x7d\n")).diagnostics ≠ [] ∧
      ¬ FormatsSafely source := by
  intro source
  have hformat : format source = .ok "if \x7b\n\x7d\n" := by decide +kernel
  have hread : (parse (bytesOf "if \x7b\n\x7d\n")).diagnostics ≠ [] := by
    decide +kernel
  refine ⟨by decide +kernel, hformat, hread, ?_⟩
  rintro ⟨text, htext, hsafe, -⟩
  rw [hformat] at htext
  obtain rfl := Except.ok.inj htext
  exact hread hsafe

end Stylesheet
