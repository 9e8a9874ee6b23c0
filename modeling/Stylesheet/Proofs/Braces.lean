import Stylesheet.Command.Repl
import Stylesheet.Proofs.Entries

/-!
# Counting braces

The depth that tells whether an entry is complete is counted on the bytes of the
entry, without reading its tokens.  It is the number of its opening braces less
that of its closing braces, as they are among its tokens, and one more if it
ends inside a comment.  The grammar closes every brace that it opens, so an
entry that can be read and whose comments are closed is not held back.
-/

namespace Stylesheet

/-! ## Braces among tokens -/

/-- The number of opening braces less the number of closing braces. -/
def netBraces (ts : List Token) : Int :=
  ts.countP (·.kind = .lbrace) - ts.countP (·.kind = .rbrace)

/-- What a token of the given class counts. -/
def TokenKind.braces : TokenKind → Int
  | lbrace => 1
  | rbrace => -1
  | _ => 0

@[simp] theorem netBraces_nil : netBraces [] = 0 := rfl

@[simp] theorem netBraces_cons (t : Token) (ts : List Token) :
    netBraces (t :: ts) = t.kind.braces + netBraces ts := by
  simp only [netBraces, List.countP_cons, decide_eq_true_eq]
  cases t.kind <;> simp [TokenKind.braces] <;> omega

@[simp] theorem netBraces_append (ts us : List Token) :
    netBraces (ts ++ us) = netBraces ts + netBraces us := by
  simp only [netBraces, List.countP_append, Int.natCast_add]
  omega

namespace Scan

/-! ## The depth of layout and of lexemes -/

theorem braceDepth_cons
    {c : Char} {cs : List Char} (h : ¬ (c = '/' ∧ cs.head? = some '*')) :
    braceDepth (c :: cs) =
      (if c = '\x7b' then 1 else if c = '\x7d' then -1 else 0)
        + braceDepth cs := by
  rw [braceDepth]
  rintro tail rfl rfl
  exact h ⟨rfl, rfl⟩

theorem afterComment?_cons
    {c : Char} {cs : List Char} (h : ¬ (c = '*' ∧ cs.head? = some '/')) :
    afterComment? (c :: cs) = afterComment? cs := by
  rw [afterComment?]
  rintro tail rfl rfl
  exact h ⟨rfl, rfl⟩

theorem braceDepth_closed_comment {cs rest : List Char}
    (h : afterComment? cs = some rest) :
    braceDepth ('/' :: '*' :: cs) = braceDepth rest := by
  rw [braceDepth]
  split
  · next hnone =>
      rw [h] at hnone
      cases hnone
  · next rest' hsome =>
      rw [h] at hsome
      rw [Option.some.inj hsome]

theorem braceDepth_open_comment {cs : List Char} (h : afterComment? cs = none) :
    braceDepth ('/' :: '*' :: cs) = 1 := by
  rw [braceDepth]
  split
  · rfl
  · next rest hsome =>
      rw [h] at hsome
      cases hsome

theorem Gap.braceDepth_append {gap : List Char} (h : Gap gap)
    (rest : List Char) :
    braceDepth (gap ++ rest) = braceDepth rest := by
  refine h.pass (fun {c cs} hblank hopen => ?_) (fun cs hbody => ?_) rest
  · have hc : c ≠ '\x7b' ∧ c ≠ '\x7d' := by
      constructor <;> rintro rfl <;> cases hblank
    rw [braceDepth_cons hopen, if_neg hc.1, if_neg hc.2, Int.zero_add]
  · refine braceDepth_closed_comment ?_
    exact hbody.pass afterComment?_cons ('*' :: '/' :: cs) (by simp)

theorem OpenGap.braceDepth_eq {cs : List Char} (h : OpenGap cs) :
    braceDepth cs = 1 := by
  obtain ⟨gap, body, rfl, hgap, hbody⟩ := h
  have hpassed := hbody.pass afterComment?_cons [] (by decide)
  rw [List.append_nil] at hpassed
  rw [List.append_assoc, hgap.braceDepth_append]
  exact braceDepth_open_comment hpassed

theorem braceDepth_append_of_notMem
    {tail : List Char} (hslash : '/' ∉ tail) (hopening : '\x7b' ∉ tail)
    (hclosing : '\x7d' ∉ tail) (rest : List Char) :
    braceDepth (tail ++ rest) = braceDepth rest := by
  induction tail with
  | nil => rfl
  | cons c tail ih =>
      rw [List.mem_cons, not_or] at hslash hopening hclosing
      rw [List.cons_append, braceDepth_cons fun hopen => hslash.1 hopen.1.symm,
        if_neg (Ne.symm hopening.1), if_neg (Ne.symm hclosing.1), Int.zero_add,
        ih hslash.2 hopening.2 hclosing.2]

/-- A lexeme is a brace exactly if it begins with one. -/
theorem Lexeme.braces
    {kind : TokenKind} {c : Char} {tail : List Char}
    (h : Lexeme kind (c :: tail)) :
    kind.braces = if c = '\x7b' then 1 else if c = '\x7d' then -1 else 0 := by
  have hletter : isNameChar c = true → ¬ c = '\x7b' ∧ ¬ c = '\x7d' := by
    intro hname
    constructor <;> rintro rfl <;> cases hname
  have hdigit : c.isDigit = true → ¬ c = '\x7b' ∧ ¬ c = '\x7d' := fun hc =>
    hletter (isNameChar_of_isDigit c hc)
  cases h with
  | sign h =>
      have hall : ∀ s ∈ signs,
          s.2.braces = if s.1 = '\x7b' then 1 else if s.1 = '\x7d' then -1
            else 0 := by decide
      exact hall _ h
  | word hc htail =>
      have hnone : ∀ k ∈ [.ifWord, .elseWord, .trueWord, .falseWord,
          .capitalIdent, .ident],
          TokenKind.braces k = 0 := by decide
      have hne := hletter (by simp [isNameChar, hc])
      rw [hnone _ (ofWord_mem _), if_neg hne.1, if_neg hne.2]
  | scalar hdigits =>
      have hne := hdigit (hdigits c List.mem_cons_self)
      rw [if_neg hne.1, if_neg hne.2]
      rfl
  | percentage hdigits =>
      have hne := hdigit (hdigits c List.mem_cons_self)
      rw [if_neg hne.1, if_neg hne.2]
      rfl
  | pixelSize hdigits =>
      have hne := hdigit (hdigits c List.mem_cons_self)
      rw [if_neg hne.1, if_neg hne.2]
      rfl
  | illegal h hblank hnul =>
      have hne : ¬ c = '\x7b' ∧ ¬ c = '\x7d' := by
        constructor <;> rintro rfl <;> cases h
      rw [if_neg hne.1, if_neg hne.2]
      rfl
  | _ => rfl

/-- A lexeme counts what its token counts: no comment begins inside it, and a
brace is alone. -/
theorem braceDepth_drop_lexeme
    {c : Char} {cs : List Char} (hcs : layout (c :: cs) = [])
    (hnul : c ≠ '\x00') :
    braceDepth (c :: cs) =
      (lexeme c cs).1.braces + braceDepth (cs.drop (lexeme c cs).2.length) := by
  obtain ⟨hblank, hopen⟩ := layout_eq_nil_iff.mp hcs
  have hlexeme := lexeme_sound hblank hnul cs
  have hsplit := List.prefix_iff_eq_append.mp (lexeme_isPrefix c cs)
  have hdepth : braceDepth cs =
      braceDepth (cs.drop (lexeme c cs).2.length) := by
    nth_rewrite 1 [← hsplit]
    exact braceDepth_append_of_notMem (hlexeme.notMem_tail rfl (by decide))
      (hlexeme.notMem_tail rfl (by decide))
      (hlexeme.notMem_tail rfl (by decide)) _
  rw [braceDepth_cons hopen, hlexeme.braces, hdepth]

/-- Counting on the bytes agrees with counting among the tokens. -/
theorem braceDepth_eq_netBraces
    {cs : List Char} (hnul : '\x00' ∉ cs) (p : Position) :
    braceDepth cs =
      netBraces (Cursor.tokens ⟨p, cs⟩) + if endsInComment false cs then 1
        else 0 := by
  induction cs using Cursor.tokens_induction generalizing p with
  | hend cs hend =>
      obtain ⟨rest, hcs, hrest⟩ := Cursor.atEnd_of_tokens hend
      have hlayout : layout cs = cs := by
        cases rest with
        | nil => exact (hcs.trans (List.append_nil _)).symm
        | cons c rest =>
            rw [hcs, hrest c rfl] at hnul
            simp at hnul
      rw [hend p, netBraces_cons, netBraces_nil]
      rcases gap_or_openGap_layout cs with hgap | hopen
      · rw [hlayout] at hgap
        have hdepth := hgap.braceDepth_append []
        have hclosed := hgap.endsInComment []
        rw [List.append_nil] at hdepth hclosed
        rw [hdepth, hclosed, braceDepth]
        rfl
      · rw [hlayout] at hopen
        rw [hopen.braceDepth_eq, endsInComment_of_openGap hopen]
        rfl
  | hcons gap c cs hgap hcs hc ih =>
      have hrest : '\x00' ∉ cs.drop (lexeme c cs).2.length := fun hmem => hnul
        (List.mem_append_right _
          (List.mem_cons_of_mem _ (List.mem_of_mem_drop hmem)))
      rw [hgap.gap.braceDepth_append, hgap.gap.endsInComment,
        braceDepth_drop_lexeme hcs hc, endsInComment_drop_lexeme hcs hc,
        Cursor.tokens_cons hgap hcs hc, netBraces_cons,
        ih hrest ((p.after gap).after (c :: (lexeme c cs).2)), Int.add_assoc]

end Scan

/-! ## Braces in the grammar -/

namespace Grammar

theorem IsName.braces {t : Token} (h : IsName t) : t.kind.braces = 0 := by
  rcases h with h | h <;> rw [h] <;> rfl

theorem Atom.netBraces {ts : List Token} {e : Expr} (h : Atom ts e) :
    netBraces ts = 0 := by
  have hone : ∀ {t : Token}, t.kind.braces = 0 →
      Stylesheet.netBraces [t] = 0 := by
    intro t ht
    rw [netBraces_cons, netBraces_nil, ht, Int.add_zero]
  cases h with
  | pixel hkind => exact hone (by rw [hkind]; rfl)
  | percentage hkind => exact hone (by rw [hkind]; rfl)
  | scalar hkind => exact hone (by rw [hkind]; rfl)
  | color hkind => exact hone (by rw [hkind]; rfl)
  | trueWord hkind => exact hone (by rw [hkind]; rfl)
  | falseWord hkind => exact hone (by rw [hkind]; rfl)
  | trueName hname => exact hone hname.braces
  | falseName hname => exact hone hname.braces
  | reference hname => exact hone hname.braces

theorem Term.netBraces {ts : List Token} {e : Expr} (h : Term ts e) :
    netBraces ts = 0 := by
  induction h with
  | atom h => exact h.netBraces
  | product _ hsign hr ih => simp [ih, hsign, hr.netBraces, TokenKind.braces]

theorem Expression.netBraces {ts : List Token} {e : Expr}
    (h : Expression ts e) :
    netBraces ts = 0 := by
  induction h with
  | term h => exact h.netBraces
  | sum _ hsign hr ih => simp [ih, hsign, hr.netBraces, TokenKind.braces]
  | difference _ hsign hr ih => simp [ih, hsign, hr.netBraces, TokenKind.braces]

theorem Binding.netBraces
    {sign : TokenKind} {ts : List Token} {name : Token} {e : Expr}
    (h : Binding sign ts name e) (hsign : sign.braces = 0) :
    netBraces ts = 0 := by
  obtain @⟨_, mark, semicolon, _, _, hname, hmark, hexpr, hsemicolon⟩ := h
  have hnone : mark.kind.braces = 0 := hmark ▸ hsign
  have hend : semicolon.kind.braces = 0 := by rw [hsemicolon]; rfl
  simp [hname.braces, hnone, hexpr.netBraces, hend]

/-- A body between braces closes each brace that it opens, and so does
everything inside it. -/
theorem Block.netBraces {ts : List Token} {its : List Item} (h : Block ts its) :
    netBraces ts = 0 :=
  @Block.rec
    (fun ts _ _ => Stylesheet.netBraces ts = 0)
    (fun ts _ _ _ => Stylesheet.netBraces ts = 0)
    (fun ts _ _ => Stylesheet.netBraces ts = 0)
    (fun ts _ _ => Stylesheet.netBraces ts = 0)
    (fun hopening _ hclosing hbody => by simp [hopening, hbody, hclosing,
      TokenKind.braces])
    (fun hword hopening hguard hclosing _ hbody => by
      simp [hword, hopening, hguard.netBraces, hclosing, hbody,
        TokenKind.braces])
    (fun hword hopening hguard hclosing _ hother _ hbody hotherwise => by
      simp [hword, hopening, hguard.netBraces, hclosing, hbody, hother,
        hotherwise, TokenKind.braces])
    (fun h => h.netBraces rfl)
    (fun h => h.netBraces rfl)
    (fun _ h => h)
    rfl
    (fun _ _ hitem hbody => by simp [hitem, hbody])
    ts its h

theorem IfClause.netBraces
    {ts : List Token} {word : Token} {branches : Reading.Branches}
    (h : IfClause ts word branches) : netBraces ts = 0 := by
  cases h with
  | ifThen hword hopening hguard hclosing hbody =>
      simp [hword, hopening, hguard.netBraces, hclosing, hbody.netBraces,
        TokenKind.braces]
  | ifElse hword hopening hguard hclosing hbody hother hotherwise =>
      simp [hword, hopening, hguard.netBraces, hclosing, hbody.netBraces,
        hother, hotherwise.netBraces, TokenKind.braces]

theorem IsSelector.braces {t : Token} (h : IsSelector t) :
    t.kind.braces = 0 := by
  rcases h with h | h | h <;> rw [h] <;> rfl

theorem Selectors.netBraces
    {ts : List Token} {selectors : List Selector} (h : Selectors ts selectors) :
    netBraces ts = 0 := by
  induction h with
  | single h => simp [h.braces]
  | @cons t comma _ _ h hcomma _ ih =>
      have hnone : comma.kind.braces = 0 := by rw [hcomma]; rfl
      simp [h.braces, hnone, ih]

theorem TopItem.netBraces {ts : List Token} {s : Statement} (h : TopItem ts s) :
    netBraces ts = 0 := by
  cases h with
  | assignment h => exact h.netBraces rfl
  | rule hselectors hbody => simp [hselectors.netBraces, hbody.netBraces]
  | conditional h => exact h.netBraces

theorem WholeSheet.netBraces {ts : List Token} {sheet : Sheet}
    (h : WholeSheet ts sheet) :
    netBraces ts = 0 := by
  induction h with
  | nil => rfl
  | cons hstatement _ ih => simp [hstatement.netBraces, ih]

end Grammar

theorem netBraces_scan_of_parse
    {source : List Char} (h : (parse source).diagnostics = []) :
    netBraces (Scan.scan source) = 0 := by
  obtain ⟨body, last, hscan, -, hlast⟩ := (Scan.Cursor.start source).tokens_eq
  have hbody := (wholeSheet_of_parse h hscan).netBraces
  rw [Scan.scan, hscan, netBraces_append, hbody, netBraces_cons, hlast]
  rfl

/-! ## Entries -/

namespace Command.Repl

/-- The entry that a line goes on with, or that it begins. -/
def entryWith (r : Repl) (line : List Char) : List Char :=
  if r.pending = [] then line else r.pending ++ '\n' :: line

theorem submit_pending (r : Repl) (entry : List Char) :
    (r.submit entry).next.pending = [] := by
  unfold submit
  simp only
  split <;> rfl

/-- An entry is held back exactly if its depth is positive. -/
theorem feed_pending (r : Repl) (line : List Char) :
    (r.feed line).next.pending =
      if braceDepth (r.entryWith line) > 0 then r.entryWith line else [] := by
  rw [feed]
  change (if braceDepth (r.entryWith line) > 0 then _
    else _ : Reply).next.pending = _
  split
  · rfl
  · split
    · rfl
    · rfl
    · rfl
    · exact submit_pending r _

end Command.Repl

/-- The depth of a source without NUL bytes is the number of opening braces less
that of closing braces among its tokens, and one more if it ends inside a
comment.  So it is 0 if the source can be read and its comments are closed, and
the loop does not wait for more lines of such an entry. -/
theorem braceDepth_counts_tokens (source : List Char) (hnul : '\x00' ∉ source) :
    braceDepth source =
        (Scan.scan source).countP (·.kind = .lbrace) -
            (Scan.scan source).countP (·.kind = .rbrace) +
          (if Scan.endsInComment false source then 1 else 0) ∧
      ((parse source).diagnostics = [] →
        Scan.endsInComment false source = false →
        braceDepth source = 0 ∧ ∀ (r : Command.Repl) (line : List Char),
          r.entryWith line = source → (r.feed line).next.pending = []) := by
  have hdepth := Scan.braceDepth_eq_netBraces hnul .start
  refine ⟨hdepth, fun hread hclosed => ?_⟩
  have hbalanced : netBraces (Scan.Cursor.tokens ⟨.start, source⟩) = 0 :=
    netBraces_scan_of_parse hread
  have hzero : braceDepth source = 0 := by
    rw [hdepth, hbalanced, hclosed]
    rfl
  refine ⟨hzero, ?_⟩
  rintro r line rfl
  rw [Command.Repl.feed_pending, hzero]
  rfl

/-- A source that ends inside a comment, with a slash before another comment,
and an entry on two lines that has braces in its comments. -/
theorem braceDepth_counts_tokens_beside_comments :
    let unclosed := "\x7d\x7b//*\x7b*/\x7b/*/\x7d".toList
    let entry := "/*\x7b/*/p\x7b\nwidth:1px;/*\x7d*/\x7d/**/".toList
    let waiting : Command.Repl := ⟨.empty, [], "/*\x7b/*/p\x7b".toList⟩
    ('\x00' ∉ unclosed ∧ Scan.endsInComment false unclosed = true ∧
      (Scan.scan unclosed).countP (·.kind = .lbrace) = 2 ∧
      (Scan.scan unclosed).countP (·.kind = .rbrace) = 1 ∧
      braceDepth unclosed = 2) ∧
    ('\x00' ∉ entry ∧ (parse entry).diagnostics = [] ∧
      Scan.endsInComment false entry = false ∧
      braceDepth entry = 0 ∧
      (waiting.feed "width:1px;/*\x7d*/\x7d/**/".toList).next.pending =
        []) := by
  intro unclosed entry waiting
  have hunclosed : '\x00' ∉ unclosed := by decide +kernel
  have hopening : (Scan.scan unclosed).countP (·.kind = .lbrace) = 2 := by
    decide +kernel
  have hclosing : (Scan.scan unclosed).countP (·.kind = .rbrace) = 1 := by
    decide +kernel
  have hinside : Scan.endsInComment false unclosed = true := by decide +kernel
  have hentry : '\x00' ∉ entry := by decide +kernel
  have hread : (parse entry).diagnostics = [] := by decide +kernel
  have hclosed : Scan.endsInComment false entry = false := by decide +kernel
  obtain ⟨hzero, hfed⟩ :=
    (braceDepth_counts_tokens entry hentry).2 hread hclosed
  refine ⟨⟨hunclosed, hinside, hopening, hclosing, ?_⟩, hentry, hread, hclosed,
    hzero, ?_⟩
  · rw [(braceDepth_counts_tokens unclosed hunclosed).1, hopening, hclosing,
      hinside]
    rfl
  · exact hfed waiting _ (by decide +kernel)

end Stylesheet
