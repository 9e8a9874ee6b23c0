import Stylesheet.Proofs.Sessions
import Stylesheet.Proofs.SourceOrder

/-!
# Entries

What is reported on an entry of a session.  If the source of the session leaves
no comment open, an entry is read behind it as it is read alone, only that its
places are further down.  So syntax errors in an entry are reported as in a
session without entries, and all other reports stand in the lines of the entry.
-/

namespace Stylesheet

namespace Scan

/-! ## Comments that are open at the end -/

/-- Whether a source ends inside a comment, when it begins inside one or not. -/
def endsInComment : Bool → List Char → Bool
  | inside, [] => inside
  | false, '/' :: '*' :: cs => endsInComment true cs
  | true, '*' :: '/' :: cs => endsInComment false cs
  | inside, _ :: cs => endsInComment inside cs

theorem endsInComment_false_cons
    {c : Char} {cs : List Char} (h : ¬ (c = '/' ∧ cs.head? = some '*')) :
    endsInComment false (c :: cs) = endsInComment false cs := by
  rw [endsInComment]
  · rintro tail - rfl rfl
    exact h ⟨rfl, rfl⟩
  · nofun

theorem endsInComment_true_cons
    {c : Char} {cs : List Char} (h : ¬ (c = '*' ∧ cs.head? = some '/')) :
    endsInComment true (c :: cs) = endsInComment true cs := by
  rw [endsInComment]
  · nofun
  · rintro tail - rfl rfl
    exact h ⟨rfl, rfl⟩

theorem CommentBody.of_cons {c : Char} {body : List Char}
    (h : CommentBody (c :: body)) :
    CommentBody body ∧ c ≠ '\x00' ∧ ¬ (c = '*' ∧ body.head? = some '/') := by
  obtain ⟨hsign, hnul⟩ := h
  rw [List.mem_cons, not_or] at hnul
  refine ⟨⟨fun hinside =>
    hsign (hinside.trans (List.suffix_cons c body).isInfix), hnul.2⟩,
    Ne.symm hnul.1, ?_⟩
  rintro ⟨rfl, hhead⟩
  obtain ⟨tail, rfl⟩ := List.head?_eq_some_iff.mp hhead
  exact hsign (List.prefix_append ['*', '/'] tail).isInfix

/-- No comment ends between its body and what does not begin with a slash, such
as the closing sign. -/
theorem CommentBody.head_append {c : Char} {body : List Char}
    (h : CommentBody (c :: body)) (rest : List Char)
    (hrest : rest.head? ≠ some '/') :
    ¬ (c = '*' ∧ (body ++ rest).head? = some '/') := by
  rintro ⟨hc, hhead⟩
  cases body with
  | nil => exact hrest hhead
  | cons d body => exact h.of_cons.2.2 ⟨hc, hhead⟩

theorem CommentBody.closed {body : List Char} (h : CommentBody body) :
    Closed (body ++ ['*', '/']) := by
  induction body with
  | nil => exact closed_sign
  | cons c body ih =>
      have hopen := h.head_append ['*', '/'] (by decide)
      exact (ih h.of_cons.1).cons hopen h.of_cons.2.1

theorem Gap.layout {gap : List Char} (h : Gap gap) : Layout gap := by
  induction h with
  | nil => exact .nil
  | blank hc _ ih => exact .blank (isBlank_iff.mpr hc) ih
  | comment hbody _ ih => simpa using Layout.comment hbody.closed ih

section Passing

variable {β : Type} {f : List Char → β}

/-- What passes over one character of a comment passes over its body. -/
theorem CommentBody.pass
    (hf : ∀ {c : Char} {cs : List Char},
      ¬ (c = '*' ∧ cs.head? = some '/') → f (c :: cs) = f cs)
    {body : List Char} (h : CommentBody body) (rest : List Char)
    (hrest : rest.head? ≠ some '/') : f (body ++ rest) = f rest := by
  induction body with
  | nil => rfl
  | cons c body ih =>
      rw [List.cons_append, hf (h.head_append rest hrest), ih h.of_cons.1]

/-- What passes over blanks and over whole comments passes over a gap. -/
theorem Gap.pass
    (hblank : ∀ {c : Char} {cs : List Char}, isBlank c = true →
      ¬ (c = '/' ∧ cs.head? = some '*') → f (c :: cs) = f cs)
    (hcomment : ∀ {body : List Char} (cs : List Char), CommentBody body →
      f ('/' :: '*' :: (body ++ '*' :: '/' :: cs)) = f cs)
    {gap : List Char} (h : Gap gap) (rest : List Char) :
    f (gap ++ rest) = f rest := by
  induction h with
  | nil => rfl
  | @blank c gap hc _ ih =>
      rw [List.cons_append, hblank (isBlank_iff.mpr hc) ?_, ih]
      rintro ⟨rfl, -⟩
      revert hc
      decide
  | @comment body gap hbody _ ih =>
      have hpassed := hcomment (gap ++ rest) hbody
      rw [ih] at hpassed
      simpa using hpassed

end Passing

theorem CommentBody.endsInComment_open {body : List Char}
    (h : CommentBody body) : endsInComment true body = true := by
  have hpassed := h.pass endsInComment_true_cons [] (by decide)
  rwa [List.append_nil] at hpassed

theorem Gap.endsInComment {gap : List Char} (h : Gap gap) (rest : List Char) :
    endsInComment false (gap ++ rest) = Scan.endsInComment false rest := by
  refine h.pass (fun _ => endsInComment_false_cons) (fun cs hbody => ?_) rest
  exact hbody.pass endsInComment_true_cons ('*' :: '/' :: cs) (by simp)

theorem endsInComment_of_openGap {cs : List Char} (h : OpenGap cs) :
    endsInComment false cs = true := by
  obtain ⟨gap, body, rfl, hgap, hbody⟩ := h
  rw [List.append_assoc, hgap.endsInComment]
  exact hbody.endsInComment_open

theorem endsInComment_append_of_notMem
    {tail : List Char} (h : '/' ∉ tail) (rest : List Char) :
    endsInComment false (tail ++ rest) = endsInComment false rest := by
  induction tail with
  | nil => rfl
  | cons c tail ih =>
      rw [List.mem_cons, not_or] at h
      rw [List.cons_append, endsInComment_false_cons fun hopen =>
        h.1 hopen.1.symm, ih h.2]

/-- No comment begins inside a lexeme. -/
theorem endsInComment_drop_lexeme
    {c : Char} {cs : List Char} (hcs : layout (c :: cs) = [])
    (hnul : c ≠ '\x00') :
    endsInComment false (c :: cs) =
      endsInComment false (cs.drop (lexeme c cs).2.length) := by
  obtain ⟨hblank, hopen⟩ := layout_eq_nil_iff.mp hcs
  have htail :=
    (lexeme_sound hblank hnul cs).notMem_tail (d := '/') rfl (by decide)
  have hsplit := List.prefix_iff_eq_append.mp (lexeme_isPrefix c cs)
  rw [endsInComment_false_cons hopen]
  nth_rewrite 1 [← hsplit]
  exact endsInComment_append_of_notMem htail _

namespace Cursor

/-- A source without tokens is layout, if it leaves no comment open. -/
theorem layout_of_tokens_eq
    {cs : List Char}
    (h : ∀ p, tokens ⟨p, cs⟩ = [⟨.eof, "", p.after (layout cs)⟩])
    (hnul : '\x00' ∉ cs) (hclosed : endsInComment false cs = false) :
    Layout cs := by
  obtain ⟨rest, hcs, hend⟩ := atEnd_of_tokens h
  have hrest : rest = [] := by
    cases rest with
    | nil => rfl
    | cons c rest =>
        rw [hcs, hend c rfl] at hnul
        simp at hnul
  rw [hrest, List.append_nil] at hcs
  rcases gap_or_openGap_layout cs with hgap | hopen
  · rw [← hcs] at hgap
    exact hgap.layout
  · rw [← hcs] at hopen
    rw [endsInComment_of_openGap hopen] at hclosed
    cases hclosed

/-- Behind a blank, and outside of comments, what is added is read as it is read
alone. -/
theorem tokens_append_of_closed
    {cs : List Char} (h : cs = [] ∨ EndsBlank cs) (hnul : '\x00' ∉ cs)
    (hclosed : endsInComment false cs = false) (added : List Char)
    (p : Position) :
    ∃ body last, tokens ⟨p, cs⟩ = body ++ [last] ∧
      tokens ⟨p, cs ++ added⟩ = body ++ tokens ⟨p.after cs, added⟩ := by
  -- Behind each lexeme the three hypotheses hold of what is left; the last
  -- token is the end.
  induction cs using tokens_induction generalizing p with
  | hend cs hend =>
      exact ⟨[], _, hend p,
        tokens_layout (layout_of_tokens_eq hend hnul hclosed) p added⟩
  | hcons gap c cs hgap hcs hc ih =>
      have hblank := (h.resolve_left (by simp)).behind hcs
      have hsplit := List.prefix_iff_eq_append.mp (lexeme_isPrefix c cs)
      have hrest : '\x00' ∉ cs.drop (lexeme c cs).2.length := fun hmem => hnul
        (List.mem_append_right _
          (List.mem_cons_of_mem _ (List.mem_of_mem_drop hmem)))
      rw [hgap.gap.endsInComment, endsInComment_drop_lexeme hcs hc] at hclosed
      obtain ⟨body, last, hbody, hmore⟩ :=
        ih (.inr hblank.drop_lexeme) hrest hclosed
        ((p.after gap).after (c :: (lexeme c cs).2))
      have hafter : ((p.after gap).after (c :: (lexeme c cs).2)).after
          (cs.drop (lexeme c cs).2.length) = p.after (gap ++ c :: cs) := by
        rw [← Position.after_append, ← Position.after_append, List.cons_append,
          hsplit]
      rw [hafter] at hmore
      refine ⟨⟨(lexeme c cs).1, String.ofList (c :: (lexeme c cs).2),
        p.after gap⟩ :: body, last,
        ?_, ?_⟩
      · rw [tokens_cons hgap hcs hc, hbody, List.cons_append]
      · rw [List.append_assoc, List.cons_append,
          tokens_cons_of_endsBlank hgap hcs hc hblank, hmore, List.cons_append]

end Cursor

end Scan

/-! ## Places further down -/

namespace Position

/-- The place a number of lines further down.  What is no place in a source
stays where it is. -/
def down (lines : Nat) (p : Position) : Position :=
  if 1 ≤ p.line then ⟨p.line + lines, p.column⟩ else p

theorem one_le_line_after {p : Position} (h : 1 ≤ p.line) (cs : List Char) :
    1 ≤ (p.after cs).line := by
  induction cs generalizing p with
  | nil => exact h
  | cons c cs ih =>
      apply ih
      unfold next
      split
      · exact Int.le_add_one h
      · exact h

theorem down_after {p : Position} (h : 1 ≤ p.line) (lines : Nat)
    (cs : List Char) :
    (p.after cs).down lines = (p.down lines).after cs := by
  induction cs generalizing p with
  | nil => rfl
  | cons c cs ih =>
      have hnext : 1 ≤ (p.next c).line := one_le_line_after h [c]
      have hdown : (p.next c).down lines = (p.down lines).next c := by
        rw [down, if_pos hnext, down, if_pos h]
        unfold next
        split
        · simp only [Position.mk.injEq, and_true]
          omega
        · rfl
      calc ((p.next c).after cs).down lines =
        ((p.next c).down lines).after cs := ih hnext
        _ = ((p.down lines).next c).after cs := by rw [hdown]

theorem start_after_of_endsLine {source : List Char} (h : EndsLine source) :
    start.after source = start.down (source.count '\n') := by
  rw [start_after]
  rcases h with rfl | ⟨cs, rfl⟩
  · rfl
  · simp [down, start]

end Position

theorem Scan.Cursor.tokens_down
    {p : Position} (h : 1 ≤ p.line) (lines : Nat) (cs : List Char) :
    tokens ⟨p.down lines, cs⟩ =
      (tokens ⟨p, cs⟩).map (Token.moved (Position.down lines)) := by
  induction cs using tokens_induction generalizing p with
  | hend cs hend =>
      rw [hend, hend, List.map_singleton, ← Position.down_after h]
      rfl
  | hcons gap c cs hgap hcs hnul ih =>
      have hgapLine := Position.one_le_line_after h gap
      rw [tokens_cons hgap hcs hnul, tokens_cons hgap hcs hnul, List.map_cons,
        ← Position.down_after h, ← Position.down_after hgapLine,
        ih (Position.one_le_line_after hgapLine _)]
      rfl

/-! ## What is read from an entry -/

open Scan Grammar Reading

/-- What is added to a source is read as it is read alone, with its places
further down. -/
theorem parse_append_of_closed
    {source : List Char} (hline : EndsLine source) (hnul : '\x00' ∉ source)
    (hclosed : endsInComment false source = false) (hcheck : check source = [])
    (added : List Char) :
    let entry := (parse added).moved (Position.down (source.count '\n'))
    parse (source ++ added) =
      ⟨(parse source).sheet ++ entry.sheet, entry.faults⟩ := by
  intro entry
  have hblank : source = [] ∨ EndsBlank source :=
    hline.imp id fun ⟨cs, hcs⟩ => ⟨cs, '\n', hcs, rfl⟩
  obtain ⟨body, last, hscan, hgrown⟩ :=
    Cursor.tokens_append_of_closed hblank hnul hclosed added .start
  have hmoved : Cursor.tokens ⟨Position.start.after source, added⟩ =
      (scan added).map (Token.moved (Position.down (source.count '\n'))) := by
    rw [Position.start_after_of_endsLine hline]
    exact Cursor.tokens_down (Int.le_refl 1) _ added
  -- A conditional would take in an `else` at the front of what is added.
  have hkept : (current
      (Cursor.tokens ⟨Position.start.after source, added⟩)).kind = .elseWord →
      ∀ s ∈ (parse source).sheet.getLast?, s.isOpen = false :=
    fun _ s hs => isOpen_eq_false_of_check hcheck s (List.mem_of_getLast? hs)
  have hsheet := wholeSheet_of_parse (check_eq_nil_iff.mp hcheck).1 hscan
  have hread := (hsheet.read_append hkept).2
  rw [← hgrown, hmoved, statements_moved rfl] at hread
  exact congrArg (fun r => Parsed.mk r.value r.faults) hread

/-! ## The places of an entry -/

section Moved

variable (g : Position → Position)

theorem Expr.places_moved (e : Expr) : (e.moved g).places = e.places.map g := by
  induction e with
  | literal pos value => rfl
  | reference pos name => rfl
  | operation pos op lhs rhs ihl ihr =>
      rw [moved, places, places, ihl, ihr, List.map_append, List.map_cons]

theorem itemPlaces_movedItems (items : List Item) :
    itemPlaces (movedItems g items) = (itemPlaces items).map g := by
  induction items using Item.list_induction with
  | nil => rfl
  | declaration pos property expr items ih =>
      simp [movedItems, itemPlaces, Item.moved, Item.places, ih,
        Expr.places_moved]
  | assignment pos name expr items ih =>
      simp [movedItems, itemPlaces, Item.moved, Item.places, ih,
        Expr.places_moved]
  | ifThen pos guard body items ihbody ih =>
      simp [movedItems, itemPlaces, Item.moved, Item.places, ih, ihbody,
        Expr.places_moved]
  | ifElse pos guard body elsePos otherwise items ihbody ihelse ih =>
      simp [movedItems, itemPlaces, Item.moved, Item.places, ih, ihbody, ihelse,
        Expr.places_moved]

theorem Statement.places_moved (statement : Statement) :
    (statement.moved g).places = statement.places.map g := by
  cases statement with
  | assignment pos name expr =>
      rw [moved, places, places, Expr.places_moved, List.map_cons]
  | rule pos selectors body =>
      rw [moved, places, places, itemPlaces_movedItems, List.map_append,
        List.map_map, List.map_map]
      rfl
  | ifThen pos guard body =>
      simp [moved, places, Item.places, Expr.places_moved,
        itemPlaces_movedItems]
  | ifElse pos guard body elsePos otherwise =>
      simp [moved, places, Item.places, Expr.places_moved,
        itemPlaces_movedItems]

theorem flatMap_places_moved (sheet : Sheet) :
    (sheet.map (Statement.moved g)).flatMap Statement.places =
      (sheet.flatMap Statement.places).map g := by
  rw [List.flatMap_map, List.map_flatMap]
  exact List.flatMap_congr fun statement _ => statement.places_moved g

end Moved

/-- A token of an entry does not begin behind the newline that ends the
entry. -/
theorem line_of_mem_scan
    {entry : List Char} {body : List Token} {last : Token}
    (hscan : scan (entry ++ ['\n']) = body ++ [last]) :
    ∀ t ∈ body, 1 ≤ t.pos.line ∧ t.pos.line ≤ entry.count '\n' + 1 := by
  obtain ⟨placed, hplaced, htiles⟩ :=
    @Cursor.exists_tiles (entry ++ ['\n']) [] List.not_mem_nil
  obtain ⟨front, rfl, hfront⟩ := htiles.ends
  have hbody : front.map Placed.token = body := by
    rw [List.map_append] at hplaced
    exact (List.append_inj' (hplaced.trans hscan) rfl).1
  rw [← hbody, List.forall_mem_map]
  intro a ha
  have hfirst : a.first ≤ entry.length := by
    obtain ⟨-, -, hlast⟩ := htiles.inside a (List.mem_append_left _ ha)
    have hlt := (hfront a ha).2
    rw [List.nil_append, List.length_append, List.length_singleton] at hlast
    omega
  have hcount : (entry.take a.first).count '\n' ≤ entry.count '\n' :=
    (List.take_sublist _ _).count_le _
  rw [htiles.pos_eq a (List.mem_append_left _ ha), Position.atOffset,
    List.nil_append, List.take_append_of_le_length hfirst]
  dsimp only
  omega

theorem line_of_mem_places
    {entry : List Char} (h : (parse (entry ++ ['\n'])).diagnostics = []) :
    ∀ p ∈ (parse (entry ++ ['\n'])).sheet.flatMap Statement.places,
      1 ≤ p.line ∧ p.line ≤ entry.count '\n' + 1 := by
  intro p hp
  obtain ⟨body, last, hscan, -, -⟩ := (Cursor.start (entry ++ ['\n'])).tokens_eq
  obtain ⟨t, ht, rfl⟩ :=
    List.mem_map.mp ((wholeSheet_of_parse h hscan).places_sublist.subset hp)
  exact line_of_mem_scan hscan t ht

/-! ## What is reported on an entry -/

/-- Where nothing is found in the statements in front, all that is noted stands
behind them. -/
theorem Marks.added_places
    {notes : NodeId → Option Diagnostic} {tenv : Scope Ty} {n : Nat}
    {sheet more : List Statement}
    (h : Marks notes n (countStatements (sheet ++ more))
      (Typing.atTop tenv (statementTrees n (sheet ++ more))))
    (hsheet : Typing.atTop tenv (statementTrees n sheet) = []) :
    ((statementTrees n (sheet ++ more)).flatMap
      (Tree.notedPlaces notes)).Sublist
      (more.flatMap Statement.places) := by
  induction sheet generalizing n tenv with
  | nil => exact h.statements_places
  | cons statement sheet ih =>
      rw [statementTrees, Typing.atTop_cons, List.append_eq_nil_iff] at hsheet
      have hhead := h.head_statement
      rw [hsheet.1] at hhead
      have hids : [statement.treeAt n].flatMap Tree.ids ⊆
          idRange n statement.count := by
        rw [List.flatMap_singleton]
        exact (statement.ids_treeAt_perm n).subset
      have hnone := hhead.notedPlaces_eq_nil hids (List.forall_mem_nil _)
      rw [List.flatMap_singleton] at hnone
      rw [List.cons_append, statementTrees, List.flatMap_cons, hnone,
        List.nil_append]
      exact ih h.tail_statement hsheet.2

namespace Meaning

theorem pos_mem_itemPlaces_cons
    {item : Item} {items : List Item} {env : Env}
    (hitem : ∀ d ∈ ofItem env item, d.pos ∈ item.places)
    (hitems : ∀ d ∈ ofItems (afterItem env item) items,
      d.pos ∈ itemPlaces items) :
    ∀ d ∈ ofItems env (item :: items), d.pos ∈ itemPlaces (item :: items) := by
  rw [ofItems, List.forall_mem_append, itemPlaces]
  exact ⟨fun d hd => List.mem_append_left _ (hitem d hd),
    fun d hd => List.mem_append_right _ (hitems d hd)⟩

theorem pos_mem_itemPlaces (items : List Item) (env : Env) :
    ∀ d ∈ ofItems env items, d.pos ∈ itemPlaces items := by
  induction items using Item.list_induction generalizing env with
  | nil => exact List.forall_mem_nil _
  | declaration pos property expr items ih =>
      refine pos_mem_itemPlaces_cons ?_ (ih _)
      rw [ofItem, List.forall_mem_singleton]
      exact List.mem_cons_self
  | assignment pos name expr items ih =>
      exact pos_mem_itemPlaces_cons (List.forall_mem_nil _) (ih _)
  | ifThen pos guard body items ihbody ih =>
      refine pos_mem_itemPlaces_cons (fun d hd => ?_) (ih _)
      rw [ofItem] at hd
      split at hd
      · exact List.mem_append_right _ (ihbody env d hd)
      · cases hd
  | ifElse pos guard body elsePos otherwise items ihbody ihelse ih =>
      refine pos_mem_itemPlaces_cons (fun d hd => ?_) (ih _)
      rw [ofItem] at hd
      split at hd
      · exact List.mem_append_left _ (List.mem_append_right _ (ihbody env d hd))
      · exact List.mem_append_right _ (List.mem_cons_of_mem _ (ihelse env d hd))

/-- The declarations in force stand at places of the sheet. -/
theorem pos_mem_places (sheet : Sheet) (env : Env) :
    ∀ d ∈ (ofStatements env sheet).flatMap Rule.declarations,
      d.pos ∈ sheet.flatMap Statement.places := by
  induction sheet generalizing env with
  | nil => exact List.forall_mem_nil _
  | cons statement sheet ih =>
      cases statement with
      | rule pos selectors body =>
          rw [ofStatements, List.flatMap_cons, List.forall_mem_append,
            List.flatMap_cons]
          refine ⟨fun d hd => List.mem_append_left _ ?_,
            fun d hd => List.mem_append_right _ (ih env d hd)⟩
          exact List.mem_append_right _ (pos_mem_itemPlaces body env d hd)
      | assignment pos name expr =>
          exact fun d hd => List.mem_append_right _ (ih _ d hd)
      | ifThen pos guard body =>
          exact fun d hd => List.mem_append_right _ (ih env d hd)
      | ifElse pos guard body elsePos otherwise =>
          exact fun d hd => List.mem_append_right _ (ih env d hd)

theorem errors_append (rules more : List Rule) :
    errors (rules ++ more) = errors rules ++ errors more := by
  rw [errors, List.flatMap_append, List.filterMap_append]
  rfl

theorem pos_of_mem_errors {rules : List Rule} {e : Diagnostic}
    (h : e ∈ errors rules) :
    ∃ d ∈ rules.flatMap Rule.declarations, e.pos = d.pos := by
  obtain ⟨d, hd, herror⟩ := List.mem_filterMap.mp h
  refine ⟨d, hd, ?_⟩
  unfold Declaration.error? at herror
  split at herror
  · cases herror
  · rw [← Option.some.inj herror]
    rfl

end Meaning

/-- Behind a source that compiles, only what is added is reported on. -/
theorem pos_mem_places_of_added
    {source grown : List Char} {more : Sheet}
    (hold : (compile source).diagnostics = [])
    (hread : (parse grown).diagnostics = [])
    (hsheet : (parse grown).sheet = (parse source).sheet ++ more) :
    ∀ d ∈ (compile grown).diagnostics, d.pos ∈
      more.flatMap Statement.places := by
  obtain ⟨hcheck, hcomplete, -⟩ := compile_of_diagnostics_eq_nil hold
  intro d hd
  rcases compile_cases grown with
    ⟨hfaulty, -⟩ | ⟨-, -, heq⟩ | ⟨-, -, heq⟩ | ⟨-, -, heq⟩
  · exact absurd hread hfaulty
  · rw [heq] at hd
    have hpos := List.mem_map_of_mem (f := Diagnostic.pos) hd
    rw [Parsed.arena, hsheet, map_pos_diagnostics_check] at hpos
    exact ((marks_check _).added_places (atTop_eq_nil_of_check hcheck)).subset
      hpos
  · obtain ⟨env, hrules⟩ :=
      Meaning.ofStatements_append (parse source).sheet .empty
    have hnone := (Meaning.errors_eq_nil_iff _).mpr hcomplete
    rw [Meaning.ofSheet] at hnone
    rw [heq, Meaning.ofSheet, hsheet, hrules, Meaning.errors_append, hnone,
      List.nil_append] at hd
    obtain ⟨declaration, hmem, hpos⟩ := Meaning.pos_of_mem_errors hd
    rw [hpos]
    exact Meaning.pos_mem_places more env declaration hmem
  · rw [heq] at hd
    cases hd

namespace Session

/-- The sessions that there are: each entry is added to a session that there
is. -/
inductive Reachable : Session → Prop
  | empty : Reachable .empty
  | extend {s next : Session} {entry : List Char} {added : String}
      (h : Reachable s)
      (hextend : s.extend entry = .ok (added, next)) : Reachable next

theorem Reachable.exists_batch {s : Session} (h : s.Reachable) :
    ∃ accepted, s.Batch accepted := by
  induction h with
  | empty => exact ⟨[], batch_empty⟩
  | extend _ hextend ih =>
      obtain ⟨accepted, hbatch⟩ := ih
      exact ⟨_, (hbatch.extend hextend).1⟩

/-- Counting the lines from the start of the entry takes places back to where
they are in it. -/
theorem relocate_down (s : Session) (d : Diagnostic) :
    s.relocate (d.moved (Position.down s.lines)) = d := by
  unfold relocate Diagnostic.moved Position.down
  by_cases h : 1 ≤ d.pos.line
  · rw [if_pos h, if_pos (by dsimp only; omega)]
    simp
  · rw [if_neg h, if_neg (by dsimp only; omega)]

section Closed

variable {s : Session} {accepted : List (List Char)} (h : s.Batch accepted)
  (hnul : '\x00' ∉ s.source)
  (hclosed : Scan.endsInComment false s.source = false)
  (entry : List Char)

include h hnul hclosed

theorem Batch.parse_eq :
    let read := (parse (entry ++ ['\n'])).moved (Position.down s.lines)
    parse (s.source ++ entry ++ ['\n']) =
      ⟨(parse s.source).sheet ++ read.sheet, read.faults⟩ := by
  rw [h.lines_eq, List.append_assoc]
  exact parse_append_of_closed h.endsLine hnul hclosed
    (compile_of_diagnostics_eq_nil h.compiles).1 _

theorem Batch.diagnostics_eq :
    (parse (s.source ++ entry ++ ['\n'])).diagnostics =
      (parse (entry ++ ['\n'])).diagnostics.map
        (Diagnostic.moved (Position.down s.lines)) := by
  rw [h.parse_eq hnul hclosed]
  exact Parsed.diagnostics_moved _ _

/-- The syntax errors of an entry are reported as if it were alone. -/
theorem Batch.extend_of_syntax_error
    (hread : (parse (entry ++ ['\n'])).diagnostics ≠ []) :
    s.extend entry = .error (parse (entry ++ ['\n'])).diagnostics := by
  have hgrown := h.diagnostics_eq hnul hclosed entry
  have hne : (parse (s.source ++ entry ++ ['\n'])).diagnostics ≠ [] := by
    rwa [hgrown, Ne, List.map_eq_nil_iff]
  have hcompile : (compile (s.source ++ entry ++ ['\n'])).diagnostics =
      (parse (s.source ++ entry ++ ['\n'])).diagnostics := by
    have houtcome :=
      congrArg Prod.fst (compile_eq_outcome (s.source ++ entry ++ ['\n']))
    rwa [Parsed.outcome, if_pos hne] at houtcome
  rcases s.extend_cases entry with ⟨hnone, -⟩ | ⟨-, heq⟩
  · rw [hcompile] at hnone
    exact absurd hnone hne
  · rw [heq, hcompile, hgrown, List.map_map]
    congr 1
    exact (List.map_congr_left fun d _ => s.relocate_down d).trans
      (List.map_id _)

/-- What else is reported on an entry stands in its lines. -/
theorem Batch.line_of_mem_error
    (hread : (parse (entry ++ ['\n'])).diagnostics = []) {ds : Diagnostics}
    (hextend : s.extend entry = .error ds) :
    ∀ d ∈ ds, 1 ≤ d.pos.line ∧ d.pos.line ≤ entry.count '\n' + 1 := by
  rcases s.extend_cases entry with ⟨-, heq⟩ | ⟨-, heq⟩
  · rw [heq] at hextend
    cases hextend
  · rw [heq] at hextend
    rw [← Except.error.inj hextend, List.forall_mem_map]
    intro d hd
    have hgrown : (parse (s.source ++ entry ++ ['\n'])).diagnostics = [] := by
      rw [h.diagnostics_eq hnul hclosed entry, hread, List.map_nil]
    have hsheet := congrArg Parsed.sheet (h.parse_eq hnul hclosed entry)
    have hpos := pos_mem_places_of_added h.compiles hgrown hsheet d hd
    rw [Parsed.moved, flatMap_places_moved] at hpos
    obtain ⟨p, hp, hdown⟩ := List.mem_map.mp hpos
    -- The report stands at a place of the entry, moved down and then counted
    -- back.
    have hback := s.relocate_down { d with pos := p }
    rw [Diagnostic.moved, hdown] at hback
    rw [hback]
    exact line_of_mem_places hread p hp

end Closed

end Session

/-- The syntax errors of an entry are reported as in a session without entries.
What else is wrong with an entry is reported in its own lines. -/
theorem entry_errors_independent_of_session
    {s : Session} (hs : s.Reachable) (hnul : '\x00' ∉ s.source)
    (hclosed : endsInComment false s.source = false) (entry : List Char) :
    ((parse (entry ++ ['\n'])).diagnostics ≠ [] →
      ∃ ds, s.extend entry = .error ds ∧
        Session.empty.extend entry = .error ds ∧
        ds = (parse (entry ++ ['\n'])).diagnostics) ∧
    ((parse (entry ++ ['\n'])).diagnostics = [] →
      ∀ ds, s.extend entry = .error ds →
        ∀ d ∈ ds, 1 ≤ d.pos.line ∧ d.pos.line ≤ entry.count '\n' + 1) := by
  obtain ⟨accepted, hbatch⟩ := hs.exists_batch
  refine ⟨fun hread =>
    ⟨_, hbatch.extend_of_syntax_error hnul hclosed entry hread, ?_, rfl⟩,
    fun hread ds hextend =>
      hbatch.line_of_mem_error hnul hclosed entry hread hextend⟩
  exact Session.batch_empty.extend_of_syntax_error List.not_mem_nil rfl
    entry hread

/-- Behind an entry of two lines: one that breaks off inside a rule, and one
whose second line has an undefined name. -/
theorem entry_errors_behind_two_lines :
    let s : Session := ⟨"W := 4px; /* two\nlines */\n".toList, "", 2⟩
    let broken := "p \x7b\n  width W".toList
    let undefined := "p \x7b width: W;\n  height: V; \x7d".toList
    s.Reachable ∧ '\x00' ∉ s.source ∧ endsInComment false s.source = false ∧
      (∃ ds, s.extend broken = .error ds ∧
        Session.empty.extend broken = .error ds ∧
        ds.map Diagnostic.pos = [⟨2, 9⟩, ⟨3, 1⟩, ⟨3, 1⟩]) ∧
      ∃ ds, s.extend undefined = .error ds ∧
        ds.map Diagnostic.pos = [⟨2, 3⟩, ⟨2, 11⟩] ∧
        ∀ d ∈ ds, 1 ≤ d.pos.line ∧ d.pos.line ≤ 2 := by
  intro s broken undefined
  have hs : s.Reachable := by
    rcases Session.empty.extend_cases "W := 4px; /* two\nlines */".toList with
      ⟨-, heq⟩ | ⟨hfound, -⟩
    · have hcss : (compile "W := 4px; /* two\nlines */\n".toList).css = "" := by
        decide +kernel
      have hnext : (⟨_, _, _⟩ : Session) = s :=
        congrArg (Session.mk s.source · 2) hcss
      exact hnext ▸ Session.Reachable.empty.extend heq
    · exact absurd (by decide +kernel) hfound
  have hnul : '\x00' ∉ s.source := by decide +kernel
  have hclosed : endsInComment false s.source = false := by decide +kernel
  refine ⟨hs, hnul, hclosed, ?_, ?_⟩
  · obtain ⟨ds, hextend, hempty, hds⟩ :=
      (entry_errors_independent_of_session hs hnul hclosed
      broken).1 (by decide +kernel)
    refine ⟨ds, hextend, hempty, ?_⟩
    rw [hds]
    decide +kernel
  · have hlines :=
      (entry_errors_independent_of_session hs hnul hclosed undefined).2
      (by decide +kernel)
    rcases s.extend_cases undefined with ⟨hnone, -⟩ | ⟨-, heq⟩
    · exact absurd hnone (by decide +kernel)
    · exact ⟨_, heq, by decide +kernel, hlines _ heq⟩

end Stylesheet
