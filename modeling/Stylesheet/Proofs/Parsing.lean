import Stylesheet.Compile
import Stylesheet.Proofs.Grammar
import Stylesheet.Proofs.Lexing
import Stylesheet.Proofs.Numbering
import Stylesheet.Tree.Dump

/-!
# Reading follows the grammar

A reading without a fault has taken tokens that the grammar derives, and tokens
that the grammar derives are read without a fault, whatever stands behind them
as long as it cannot be a part of them.  So reading accepts just what the
grammar derives, and what it gives is the only derivation.
-/

namespace Stylesheet

open Reading Grammar

/-! ## Numerals -/

theorem foldl_decimal (digits : List Char) (n : Nat) :
    digits.foldl (fun n d => 10 * n + (d.toNat - '0'.toNat)) n =
      n * Nat.pow 10 digits.length + valueOf digits := by
  induction digits generalizing n with
  | nil => simp [valueOf]
  | cons d digits ih =>
      rw [List.foldl_cons, ih, valueOf, List.length_cons]
      have hpow : Nat.pow 10 (digits.length + 1) =
          Nat.pow 10 digits.length * 10 := rfl
      rw [hpow]
      grind

theorem decimal_eq_valueOf (digits : List Char) :
    decimal digits = valueOf digits := by
  rw [decimal, foldl_decimal, Nat.zero_mul, Nat.zero_add]

theorem Grammar.Numeral.read
    {t : Token} {n : Int64} (h : Numeral t n) (make : Int64 → Literal)
    (rest : List Token) :
    number make t rest = ⟨.literal t.pos (make n), [], rest⟩ := by
  obtain ⟨digits, unit, htext, hdigits, hunit, hle, hn⟩ := h
  have hlt : valueOf digits < numberLimit := Nat.lt_succ_of_le hle
  have hword : Int64.ofNat (valueOf digits) = n := by
    rw [← Int64.toInt_inj, Int64.toInt_ofNat_of_lt hlt, hn]
  simp only [number, htext, (Scan.span_isDigit unit hdigits hunit).1,
    decimal_eq_valueOf, if_pos hlt, hword]

theorem Reading.number_sound
    {make : Int64 → Literal} {t : Token} {rest : List Token}
    (h : (number make t rest).faults = []) :
    ∃ n, Numeral t n ∧
      number make t rest = ⟨.literal t.pos (make n), [], rest⟩ := by
  unfold number at h ⊢
  simp only at h ⊢
  split at h
  · next hlt =>
      refine ⟨_, ⟨_, _, List.takeWhile_append_dropWhile.symm, fun d hd =>
        List.mem_takeWhile_imp hd,
        fun c hc => ?_, ?_, ?_⟩, if_pos hlt⟩
      · have hhead := List.head?_dropWhile_not Char.isDigit t.text.toList
        rw [hc] at hhead
        exact hhead
      · rw [← decimal_eq_valueOf]
        exact Nat.le_of_lt_succ hlt
      · rw [← decimal_eq_valueOf, Int64.toInt_ofNat_of_lt hlt]
  · cases h

/-! ## What the grammar derives is read

The tokens of a derivation are read whatever stands behind them, apart from a
token that would make it longer: a sign behind an operand, a comma behind a
selector, the word for another branch behind a conditional. -/

theorem Grammar.Atom.read
    {ts : List Token} {e : Expr} (h : Atom ts e) (rest : List Token) :
    atom (ts ++ rest) = ⟨e, [], rest⟩ := by
  cases h with
  | pixel hkind hnumber => simp [atom, current, hkind, hnumber.read]
  | percentage hkind hnumber => simp [atom, current, hkind, hnumber.read]
  | scalar hkind hnumber => simp [atom, current, hkind, hnumber.read]
  | color hkind => simp [atom, current, hkind]
  | trueWord hkind => simp [atom, current, hkind]
  | falseWord hkind => simp [atom, current, hkind]
  | trueName hname htrue =>
      rcases hname with hkind | hkind <;>
        simp [atom, current, hkind, named, htrue]
  | falseName hname hfalse =>
      rcases hname with hkind | hkind <;>
        simp [atom, current, hkind, named, hfalse]
  | reference hname htrue hfalse =>
      rcases hname with hkind | hkind <;>
        simp [atom, current, hkind, named, htrue, hfalse]

/-- Behind a term that has been read, reading goes on with its further
factors. -/
theorem Grammar.Term.read
    {ts : List Token} {e : Expr} (h : Term ts e) (rest : List Token) :
    term (ts ++ rest) = moreFactors e rest := by
  induction h generalizing rest with
  | atom h => simp [term, h.read]
  | product hl hsign hr ih =>
      rw [List.append_assoc, List.cons_append, ih, moreFactors]
      simp [hsign, hr.read]

theorem moreFactors_of_ne_star
    (e : Expr) {rest : List Token} (h : (current rest).kind ≠ .star) :
    moreFactors e rest = ⟨e, [], rest⟩ := by
  cases rest with
  | nil => rw [moreFactors]
  | cons t rest =>
      have ht : t.kind ≠ .star := h
      rw [moreFactors, if_neg ht]

/-- Behind an expression that has been read, reading goes on with its further
terms. -/
theorem Grammar.Expression.read
    {ts : List Token} {e : Expr} (h : Expression ts e) {rest : List Token}
    (hrest : (current rest).kind ≠ .star) :
    expr (ts ++ rest) = moreTerms e rest := by
  induction h generalizing rest with
  | term h => simp [expr, h.read, moreFactors_of_ne_star _ hrest]
  | sum hl hsign hr ih =>
      rw [List.append_assoc, List.cons_append, ih (by simp [current, hsign]),
        moreTerms]
      simp [hsign, termSign?, hr.read, moreFactors_of_ne_star _ hrest]
  | difference hl hsign hr ih =>
      rw [List.append_assoc, List.cons_append, ih (by simp [current, hsign]),
        moreTerms]
      simp [hsign, termSign?, hr.read, moreFactors_of_ne_star _ hrest]

theorem Grammar.Expression.read_of_ends
    {ts : List Token} {e : Expr} (h : Expression ts e) {t : Token}
    (rest : List Token) (ht : t.kind = .semicolon ∨ t.kind = .rbracket) :
    expr (ts ++ t :: rest) = ⟨e, [], t :: rest⟩ := by
  have hstar : (current (t :: rest)).kind ≠ .star := by
    rcases ht with ht | ht <;> simp [current, ht]
  have hsign : termSign? t.kind = none := by
    rcases ht with ht | ht <;> rw [ht] <;> rfl
  rw [h.read hstar, moreTerms, hsign]

theorem expect_of_kind
    {kind : TokenKind} {t : Token} (h : t.kind = kind) (rest : List Token) :
    expect kind (t :: rest) = ⟨(), [], rest⟩ := by
  simp [expect, current, h]

theorem Grammar.Binding.read
    {sign : TokenKind} {ts : List Token} {name : Token} {e : Expr}
    (h : Binding sign ts name e) :
    ∃ us, ts = name :: us ∧ IsName name ∧
      ∀ rest, (current (us ++ rest)).kind = sign ∧
      binding sign (us ++ rest) = ⟨e, [], rest⟩ := by
  obtain @⟨_, mark, semicolon, ts, _, hname, hmark, hexpr, hsemicolon⟩ := h
  refine ⟨mark :: ts ++ [semicolon], rfl, hname, fun rest => ⟨hmark, ?_⟩⟩
  simp [binding, expect_of_kind hmark,
    hexpr.read_of_ends rest (.inl hsemicolon), expect_of_kind hsemicolon]

/-- An expression between brackets. -/
def bracketed (ts : List Token) : Reading Expr :=
  let opening := expect .lbracket ts
  let guard := expr opening.rest
  let closing := expect .rbracket guard.rest
  ⟨guard.value, opening.faults ++ guard.faults ++ closing.faults, closing.rest⟩

theorem bracketed_rest_length_le (ts : List Token) :
    (bracketed ts).rest.length ≤ ts.length :=
  Nat.le_trans (expect_rest_length_le _ _)
    (Nat.le_trans (expr_rest_length_le _) (expect_rest_length_le _ _))

theorem conditional_eq (ts : List Token) :
    conditional ts =
      let guard := bracketed ts
      let body := block guard.rest
      if (current body.rest).kind = .elseWord then
        let otherwise := block body.rest.tail
        ⟨⟨guard.value, body.value,
          some ((current body.rest).pos, otherwise.value)⟩,
          guard.faults ++ body.faults ++ otherwise.faults, otherwise.rest⟩
      else ⟨⟨guard.value, body.value, none⟩, guard.faults ++ body.faults,
        body.rest⟩ :=
  rfl

theorem Grammar.Expression.read_bracketed
    {gs : List Token} {guard : Expr} (hguard : Expression gs guard)
    {opening closing : Token} (hopening : opening.kind = .lbracket)
    (hclosing : closing.kind = .rbracket) (rest : List Token) :
    bracketed (opening :: (gs ++ closing :: rest)) = ⟨guard, [], rest⟩ := by
  simp [bracketed, expect_of_kind hopening,
    hguard.read_of_ends rest (.inr hclosing), expect_of_kind hclosing]

/-- The tokens are read as a body between braces, whatever stands behind
them. -/
def ReadsBlock (ts : List Token) (its : List Item) : Prop :=
  ∀ rest, block (ts ++ rest) = ⟨its, [], rest⟩

/-- The tokens are read as a conditional, unless it has no other branch and the
word for one stands behind it. -/
def ReadsConditional (ts : List Token) (word : Token)
    (branches : Branches) : Prop :=
  ∃ us, ts = word :: us ∧ word.kind = .ifWord ∧
    ∀ rest, (branches.otherwise = none → (current rest).kind ≠ .elseWord) →
      conditional (us ++ rest) = ⟨branches, [], rest⟩

/-- The tokens are read as an item, before the items behind them are read.  An
item never begins with the word for another branch, so it cannot be taken for a
part of the item before it. -/
def ReadsItem (ts : List Token) (item : Item) : Prop :=
  (∀ rest, (current (ts ++ rest)).kind ≠ .elseWord) ∧
    ∀ rest, (current rest).kind ≠ .elseWord →
      items (ts ++ rest) =
        ⟨item :: (items rest).value, (items rest).faults, (items rest).rest⟩

/-- The tokens are read as the items of a body that the next brace closes. -/
def ReadsBody (ts : List Token) (its : List Item) : Prop :=
  ∀ closing rest, closing.kind = .rbrace →
    (current (ts ++ closing :: rest)).kind ≠ .elseWord ∧
      items (ts ++ closing :: rest) = ⟨its, [], closing :: rest⟩

theorem ReadsBody.block
    {opening closing : Token} {ts : List Token} {its : List Item}
    (hopening : opening.kind = .lbrace) (hbody : ReadsBody ts its)
    (hclosing : closing.kind = .rbrace) :
    ReadsBlock (opening :: ts ++ [closing]) its := by
  intro rest
  have hitems := (hbody closing rest hclosing).2
  simp [Reading.block, blockOf, expect_of_kind hopening, hitems,
    expect_of_kind hclosing]

theorem ReadsBlock.ifThen
    {word opening closing : Token} {gs bs : List Token} {guard : Expr}
    {body : List Item} (hword : word.kind = .ifWord)
    (hopening : opening.kind = .lbracket) (hguard : Expression gs guard)
    (hclosing : closing.kind = .rbracket) (hbody : ReadsBlock bs body) :
    ReadsConditional (word :: opening :: gs ++ closing :: bs) word
      ⟨guard, body, none⟩ := by
  refine ⟨opening :: gs ++ closing :: bs, rfl, hword, fun rest hrest => ?_⟩
  have hread := hguard.read_bracketed hopening hclosing (bs ++ rest)
  simp [conditional_eq, hread, hbody rest, hrest rfl]

theorem ReadsBlock.ifElse
    {word opening closing other : Token} {gs bs os : List Token} {guard : Expr}
    {body otherwise : List Item}
    (hword : word.kind = .ifWord) (hopening : opening.kind = .lbracket)
    (hguard : Expression gs guard) (hclosing : closing.kind = .rbracket)
    (hbody : ReadsBlock bs body) (hother : other.kind = .elseWord)
    (hotherwise : ReadsBlock os otherwise) :
    ReadsConditional
      (word :: opening :: gs ++ closing :: bs ++ other :: os) word
      ⟨guard, body, some (other.pos, otherwise)⟩ := by
  refine ⟨opening :: gs ++ closing :: bs ++ other :: os, rfl, hword,
    fun rest _ => ?_⟩
  have hread :=
    hguard.read_bracketed hopening hclosing (bs ++ other :: (os ++ rest))
  simp [conditional_eq, hread, hbody (other :: (os ++ rest)), current, hother,
    hotherwise rest]

theorem readsItem_of_simpleItem
    {name : Token} {us : List Token} {item : Item} (hname : IsName name)
    (h : ∀ rest, simpleItem name (us ++ rest) = ⟨some item, [], rest⟩) :
    ReadsItem (name :: us) item := by
  constructor
  · intro rest
    rcases hname with hkind | hkind <;> simp [current, hkind]
  · intro rest _
    rw [List.cons_append, items_cons]
    rcases hname with hkind | hkind <;> simp [hkind, h]

theorem Grammar.Binding.readsDeclaration
    {ts : List Token} {name : Token} {e : Expr} (h : Binding .colon ts name e) :
    ReadsItem ts (.declaration name.pos name.text e) := by
  obtain ⟨us, rfl, hname, hread⟩ := h.read
  refine readsItem_of_simpleItem hname fun rest => ?_
  rcases hname with hkind | hkind <;> simp [simpleItem, hkind, hread]

theorem Grammar.Binding.readsAssignment
    {ts : List Token} {name : Token} {e : Expr}
    (h : Binding .assign ts name e) :
    ReadsItem ts (.assignment name.pos name.text e) := by
  obtain ⟨us, rfl, hname, hread⟩ := h.read
  refine readsItem_of_simpleItem hname fun rest => ?_
  rcases hname with hkind | hkind <;> simp [simpleItem, hkind, hread]

theorem ReadsConditional.item
    {ts : List Token} {word : Token} {branches : Branches}
    (h : ReadsConditional ts word branches) :
    ReadsItem ts (branches.item word.pos) := by
  obtain ⟨us, rfl, hword, hread⟩ := h
  constructor
  · intro rest
    simp [current, hword]
  · intro rest hrest
    rw [List.cons_append, items_cons]
    simp [hword, hread rest fun _ => hrest]

theorem readsBody_nil : ReadsBody [] [] := by
  intro closing rest hclosing
  rw [List.nil_append, items_cons]
  simp [current, hclosing]

theorem ReadsItem.cons
    {ts us : List Token} {item : Item} {its : List Item}
    (hitem : ReadsItem ts item) (hbody : ReadsBody us its) :
    ReadsBody (ts ++ us) (item :: its) := by
  intro closing rest hclosing
  obtain ⟨hhead, hitems⟩ := hbody closing rest hclosing
  rw [List.append_assoc]
  refine ⟨hitem.1 _, ?_⟩
  rw [hitem.2 _ hhead, hitems]

/-- A derivation of a body between braces is followed from its innermost bodies
outwards. -/
theorem Grammar.Block.reads
    {ts : List Token} {its : List Item} (h : Block ts its) :
    ReadsBlock ts its :=
  @Block.rec
    (fun ts its _ => ReadsBlock ts its)
    (fun ts word branches _ => ReadsConditional ts word branches)
    (fun ts item _ => ReadsItem ts item)
    (fun ts its _ => ReadsBody ts its)
    (fun hopening _ hclosing hbody => hbody.block hopening hclosing)
    (fun hword hopening hguard hclosing _ hbody =>
      hbody.ifThen hword hopening hguard hclosing)
    (fun hword hopening hguard hclosing _ hother _ hbody hotherwise =>
      hbody.ifElse hword hopening hguard hclosing hother hotherwise)
    (fun h => h.readsDeclaration)
    (fun h => h.readsAssignment)
    (fun _ h => h.item)
    readsBody_nil
    (fun _ _ hitem hbody => hitem.cons hbody)
    ts its h

theorem Grammar.IfClause.reads
    {ts : List Token} {word : Token} {branches : Branches}
    (h : IfClause ts word branches) :
    ReadsConditional ts word branches := by
  cases h with
  | ifThen hword hopening hguard hclosing hbody =>
      exact hbody.reads.ifThen hword hopening hguard hclosing
  | ifElse hword hopening hguard hclosing hbody hother hotherwise =>
      exact hbody.reads.ifElse hword hopening hguard hclosing hother
        hotherwise.reads

theorem Grammar.Selectors.read
    {ts : List Token} {selectors : List Selector} (h : Selectors ts selectors) :
    ∃ t us more, ts = t :: us ∧
      selectors = ⟨t.pos, Text.lowercase t.text⟩ :: more ∧
      IsSelector t ∧ ∀ opening rest, opening.kind = .lbrace →
        (current (us ++ opening :: rest)).kind ≠ .assign ∧
          moreSelectors (us ++ opening :: rest) =
            ⟨more, [], opening :: rest⟩ := by
  induction h with
  | @single t ht =>
      refine ⟨t, [], [], rfl, rfl, ht, fun opening rest hopening => ?_⟩
      rw [List.nil_append, moreSelectors]
      simp [current, hopening]
  | @cons t comma ts selectors ht hcomma _ ih =>
      obtain ⟨first, us, more, rfl, rfl, hfirst, hmore⟩ := ih
      refine ⟨t, comma :: first :: us, _, rfl, rfl, ht,
        fun opening rest hopening => ?_⟩
      have hselector : selector (first :: (us ++ opening :: rest)) =
          ⟨⟨first.pos, Text.lowercase first.text⟩, [],
            us ++ opening :: rest⟩ := by
        rcases hfirst with hkind | hkind | hkind <;>
          simp [selector, current, hkind]
      rw [List.cons_append, List.cons_append, moreSelectors]
      simp [current, hcomma, hselector, (hmore opening rest hopening).2]

/-- Whether the statement goes on if the word for another branch stands behind
it. -/
def Statement.isOpen : Statement → Bool
  | .ifThen _ _ _ => true
  | _ => false

/-- The tokens are read as a statement, unless it goes on behind them. -/
def ReadsStatement (ts : List Token) (s : Statement) : Prop :=
  ∃ t us, ts = t :: us ∧ t.kind ≠ .eof ∧ t.kind ≠ .elseWord ∧
    ∀ rest, (s.isOpen = true → (current rest).kind ≠ .elseWord) →
      statement t (us ++ rest) = ⟨some s, [], rest⟩

theorem Grammar.Binding.readsStatement
    {ts : List Token} {name : Token} {e : Expr}
    (h : Binding .assign ts name e) :
    ReadsStatement ts (.assignment name.pos name.text e) := by
  obtain ⟨us, rfl, hname, hread⟩ := h.read
  refine ⟨name, us, rfl, ?_, ?_, fun rest _ => ?_⟩ <;>
    rcases hname with hkind | hkind <;> simp [statement, hkind, hread]

theorem Grammar.Selectors.readsStatement
    {ts bs : List Token} {first : Selector} {selectors : List Selector}
    {body : List Item} (h : Selectors ts (first :: selectors))
    (hbody : Block bs body) :
    ReadsStatement (ts ++ bs) (.rule first.pos (first :: selectors) body) := by
  obtain ⟨t, us, more, rfl, hselectors, ht, hmore⟩ := h.read
  obtain ⟨rfl, rfl⟩ := List.cons.inj hselectors
  have hread := hbody.reads
  obtain @⟨opening, closing, bs, _, hopening, _, _⟩ := hbody
  refine ⟨t, us ++ (opening :: bs ++ [closing]), rfl, ?_, ?_, fun rest _ => ?_⟩
  · rcases ht with hkind | hkind | hkind <;> simp [hkind]
  · rcases ht with hkind | hkind | hkind <;> simp [hkind]
  · obtain ⟨hassign, hmore⟩ := hmore opening (bs ++ closing :: rest) hopening
    have hblock := hread rest
    simp only [List.cons_append, List.append_assoc, List.nil_append] at hblock ⊢
    rcases ht with hkind | hkind | hkind <;>
      simp [statement, hkind, hassign, rule, hmore, hblock]

theorem ReadsConditional.statement
    {ts : List Token} {word : Token} {branches : Branches}
    (h : ReadsConditional ts word branches) :
    ReadsStatement ts (branches.statement word.pos) := by
  obtain ⟨us, rfl, hword, hread⟩ := h
  refine ⟨word, us, rfl, ?_, ?_, fun rest hrest => ?_⟩
  · simp [hword]
  · simp [hword]
  · have hopen : branches.otherwise = none →
        (current rest).kind ≠ .elseWord := by
      intro hnone
      exact hrest (by simp [Branches.statement, hnone, Statement.isOpen])
    simp [Reading.statement, hword, hread rest hopen]

theorem Grammar.TopItem.reads
    {ts : List Token} {s : Statement} (h : TopItem ts s) :
    ReadsStatement ts s := by
  cases h with
  | assignment h => exact h.readsStatement
  | rule hselectors hbody => exact hselectors.readsStatement hbody
  | conditional h => exact h.reads.statement

/-- The tokens of a sheet are read before the statements behind them, unless the
last statement goes on there. -/
theorem Grammar.WholeSheet.read_append
    {ts : List Token} {sheet : Sheet} (h : WholeSheet ts sheet)
    {rest : List Token}
    (hrest : (current rest).kind = .elseWord →
      ∀ s ∈ sheet.getLast?, s.isOpen = false) :
    (sheet ≠ [] → (current (ts ++ rest)).kind ≠ .elseWord) ∧
      statements (ts ++ rest) =
        ⟨sheet ++ (statements rest).value, (statements rest).faults,
          (statements rest).rest⟩ := by
  induction h with
  | nil => exact ⟨fun h => absurd rfl h, rfl⟩
  | @cons ts us s sheet hstatement hsheet ih =>
      obtain ⟨t, vs, rfl, heof, helse, hread⟩ := hstatement.reads
      obtain ⟨hhead, hmore⟩ := ih fun hkind s hs =>
        hrest hkind s (List.mem_getLast?_cons hs)
      have hbehind : s.isOpen = true →
          (current (us ++ rest)).kind ≠ .elseWord := by
        intro hopen
        cases hsheet with
        | nil =>
            intro hkind
            have hclosed := hrest hkind s rfl
            rw [hopen] at hclosed
            cases hclosed
        | cons => exact hhead (List.cons_ne_nil _ _)
      rw [List.append_assoc, List.cons_append, statements, if_neg heof]
      refine ⟨fun _ => helse, ?_⟩
      simp [hread _ hbehind, hmore]

/-- The tokens of a sheet are read up to the end of input. -/
theorem Grammar.WholeSheet.read
    {ts : List Token} {sheet : Sheet} (h : WholeSheet ts sheet) {last : Token}
    (hlast : last.kind = .eof) :
    (current (ts ++ [last])).kind ≠ .elseWord ∧
      statements (ts ++ [last]) = ⟨sheet, [], [last]⟩ := by
  have hne : last.kind ≠ .elseWord := by simp [hlast]
  have hend : statements [last] = ⟨[], [], [last]⟩ := by
    rw [statements, if_pos hlast]
  have hkept : (current [last]).kind = .elseWord →
      ∀ s ∈ sheet.getLast?, s.isOpen = false :=
    fun hkind => absurd hkind hne
  obtain ⟨hhead, hread⟩ := h.read_append hkept
  rw [hend, List.append_nil] at hread
  refine ⟨?_, hread⟩
  cases h with
  | nil => exact hne
  | cons => exact hhead (List.cons_ne_nil _ _)

/-! ## What is read without a fault is derived -/

theorem Reading.expect_sound
    {kind : TokenKind} {ts : List Token} (hkind : kind ≠ .eof)
    (h : (expect kind ts).faults = []) :
    ∃ t, ts = t :: (expect kind ts).rest ∧ t.kind = kind := by
  unfold expect at h ⊢
  split at h
  · next hcurrent =>
      rw [if_pos hcurrent]
      cases ts with
      | nil => exact absurd hcurrent.symm hkind
      | cons t rest => exact ⟨t, rfl, hcurrent⟩
  · cases h

/-- What two readings pass, one after the other. -/
theorem append_passed
    {ts us vs rest rest' : List Token} (hus : ts = us ++ rest)
    (hvs : rest = vs ++ rest') :
    ts = (us ++ vs) ++ rest' := by
  rw [hus, hvs, List.append_assoc]

/-- A reading between two marks passes the marks and what it passes itself. -/
theorem Reading.enclosed_sound
    {α : Type} {first last : TokenKind} {ts : List Token} {inner : Reading α}
    {Derived : List Token → Prop} (hfirst : first ≠ .eof) (hlast : last ≠ .eof)
    (hinner : inner.faults = [] →
      ∃ us, (expect first ts).rest = us ++ inner.rest ∧ Derived us)
    (h : (expect first ts).faults ++ inner.faults
      ++ (expect last inner.rest).faults = []) :
    ∃ opening us closing, ts = (opening :: us ++ [closing])
      ++ (expect last inner.rest).rest ∧
      opening.kind = first ∧ Derived us ∧ closing.kind = last := by
  obtain ⟨hfront, hend⟩ := List.append_eq_nil_iff.mp h
  obtain ⟨hstart, hfaults⟩ := List.append_eq_nil_iff.mp hfront
  obtain ⟨opening, hts, hopening⟩ := expect_sound hfirst hstart
  obtain ⟨us, hus, hderived⟩ := hinner hfaults
  obtain ⟨closing, hrest, hclosing⟩ := expect_sound hlast hend
  refine ⟨opening, us, closing, ?_, hopening, hderived, hclosing⟩
  rw [List.append_assoc]
  exact hts.trans
    (congrArg (opening :: ·) (hus.trans (congrArg (us ++ ·) hrest)))

theorem Grammar.IsName.atom
    {t : Token} (h : IsName t) : Atom [t] (named t) := by
  unfold named
  split
  · next htrue => exact .trueName h htrue
  · next htrue =>
      split
      · next hfalse => exact .falseName h hfalse
      · next hfalse => exact .reference h htrue hfalse

theorem Reading.atom_sound
    {ts : List Token} (h : (atom ts).faults = []) :
    ∃ t, ts = t :: (atom ts).rest ∧ Atom [t] (atom ts).value := by
  cases ts with
  | nil => cases h
  | cons t rest =>
      refine ⟨t, ?_⟩
      unfold atom at h ⊢
      simp only [current, List.tail_cons] at h ⊢
      split at h
      case h_1 hkind =>
        obtain ⟨n, hnumber, hread⟩ := number_sound h
        rw [hread]
        exact ⟨rfl, .pixel hkind hnumber⟩
      case h_2 hkind =>
        obtain ⟨n, hnumber, hread⟩ := number_sound h
        rw [hread]
        exact ⟨rfl, .percentage hkind hnumber⟩
      case h_3 hkind =>
        obtain ⟨n, hnumber, hread⟩ := number_sound h
        rw [hread]
        exact ⟨rfl, .scalar hkind hnumber⟩
      case h_4 hkind =>
        exact ⟨rfl, .color hkind⟩
      case h_5 hkind =>
        exact ⟨rfl, .trueWord hkind⟩
      case h_6 hkind =>
        exact ⟨rfl, .falseWord hkind⟩
      case h_7 hkind =>
        exact ⟨rfl, IsName.atom (.inl hkind)⟩
      case h_8 hkind =>
        exact ⟨rfl, IsName.atom (.inr hkind)⟩
      all_goals cases h

theorem Reading.moreFactors_sound
    {left : Expr} {ts us : List Token} (hleft : Term us left)
    (h : (moreFactors left ts).faults = []) :
    ∃ vs, ts = vs ++ (moreFactors left ts).rest ∧
      Term (us ++ vs) (moreFactors left ts).value := by
  fun_induction moreFactors left ts generalizing us
  case case1 => exact ⟨[], rfl, by simpa using hleft⟩
  case case2 left t rest hstar right _ more ih =>
    obtain ⟨hright, hmore⟩ := List.append_eq_nil_iff.mp h
    obtain ⟨factor, hrest, hatom⟩ := atom_sound hright
    obtain ⟨vs, hvs, hterm⟩ := ih (.product hleft hstar hatom) hmore
    have hpassed : t :: rest = [t, factor] ++ right.rest :=
      congrArg (t :: ·) hrest
    exact ⟨[t, factor] ++ vs, append_passed hpassed hvs, by simpa using hterm⟩
  case case3 => exact ⟨[], rfl, by simpa using hleft⟩

theorem Reading.term_sound
    {ts : List Token} (h : (term ts).faults = []) :
    ∃ us, ts = us ++ (term ts).rest ∧ Term us (term ts).value := by
  obtain ⟨hfirst, hmore⟩ := List.append_eq_nil_iff.mp h
  obtain ⟨factor, hts, hatom⟩ := atom_sound hfirst
  obtain ⟨vs, hvs, hterm⟩ := moreFactors_sound (.atom hatom) hmore
  have hpassed : ts = [factor] ++ (atom ts).rest := hts
  exact ⟨[factor] ++ vs, append_passed hpassed hvs, hterm⟩

/-- A sign that joins terms makes an expression of an expression and a term. -/
theorem Grammar.Expression.join
    {ts us : List Token} {sign : Token} {op : Operator} {l r : Expr}
    (hl : Expression ts l) (hsign : termSign? sign.kind = some op)
    (hr : Term us r) :
    Expression (ts ++ sign :: us) (.operation sign.pos op l r) := by
  unfold termSign? at hsign
  split at hsign
  · next hkind =>
      cases hsign
      exact .sum hl hkind hr
  · next hkind =>
      cases hsign
      exact .difference hl hkind hr
  · cases hsign

theorem Reading.moreTerms_sound
    {left : Expr} {ts us : List Token} (hleft : Expression us left)
    (h : (moreTerms left ts).faults = []) :
    ∃ vs, ts = vs ++ (moreTerms left ts).rest ∧
      Expression (us ++ vs) (moreTerms left ts).value := by
  fun_induction moreTerms left ts generalizing us
  case case1 => exact ⟨[], rfl, by simpa using hleft⟩
  case case2 left t rest op hsign right _ more ih =>
    obtain ⟨hright, hmore⟩ := List.append_eq_nil_iff.mp h
    obtain ⟨ws, hrest, hterm⟩ := term_sound hright
    obtain ⟨vs, hvs, hexpr⟩ := ih (hleft.join hsign hterm) hmore
    have hpassed : t :: rest = t :: ws ++ right.rest := congrArg (t :: ·) hrest
    exact ⟨t :: ws ++ vs, append_passed hpassed hvs, by simpa using hexpr⟩
  case case3 => exact ⟨[], rfl, by simpa using hleft⟩

theorem Reading.expr_sound
    {ts : List Token} (h : (expr ts).faults = []) :
    ∃ us, ts = us ++ (expr ts).rest ∧ Expression us (expr ts).value := by
  obtain ⟨hfirst, hmore⟩ := List.append_eq_nil_iff.mp h
  obtain ⟨us, hts, hterm⟩ := term_sound hfirst
  obtain ⟨vs, hvs, hexpr⟩ := moreTerms_sound (.term hterm) hmore
  exact ⟨us ++ vs, append_passed hts hvs, hexpr⟩

theorem Reading.binding_sound
    {sign : TokenKind} {name : Token} {ts : List Token} (hsign : sign ≠ .eof)
    (hname : IsName name) (h : (binding sign ts).faults = []) :
    ∃ us, ts = us ++ (binding sign ts).rest ∧
      Binding sign (name :: us) name (binding sign ts).value := by
  obtain ⟨mark, us, semicolon, hts, hmark, hexpr, hsemicolon⟩ :=
    enclosed_sound hsign (by decide) expr_sound h
  exact ⟨mark :: us ++ [semicolon], hts, .intro hname hmark hexpr hsemicolon⟩

theorem Reading.simpleItem_sound
    {t : Token} {rest : List Token} (h : (simpleItem t rest).faults = []) :
    ∃ us item, rest = us ++ (simpleItem t rest).rest ∧
      (simpleItem t rest).value = some item ∧ BodyItem (t :: us) item := by
  unfold simpleItem at h ⊢
  simp only at h ⊢
  split at h
  · next hassign =>
      rw [if_pos hassign]
      obtain ⟨us, hus, hbinding⟩ := binding_sound (by decide) hassign.1 h
      exact ⟨us, _, hus, rfl, .assignment hbinding⟩
  · next hassign =>
      split at h
      · next hcolon =>
          have hname : IsName t := hcolon.imp id And.left
          rw [if_neg hassign, if_pos hcolon]
          obtain ⟨us, hus, hbinding⟩ := binding_sound (by decide) hname h
          exact ⟨us, _, hus, rfl, .declaration hbinding⟩
      · cases h

/-- Items read without a fault are derived from the tokens that were passed. -/
def DerivesItems (ts : List Token) : Prop :=
  (items ts).faults = [] →
    ∃ us, ts = us ++ (items ts).rest ∧ Body us (items ts).value

theorem Reading.block_sound_of
    {n : Nat} (hitems : ∀ ts, ts.length ≤ n → DerivesItems ts) {ts : List Token}
    (hts : ts.length ≤ n) (h : (block ts).faults = []) :
    ∃ us, ts = us ++ (block ts).rest ∧ Block us (block ts).value := by
  have hlength := Nat.le_trans (expect_rest_length_le .lbrace ts) hts
  obtain ⟨opening, us, closing, heq, hopening, hbody, hclosing⟩ :=
    enclosed_sound (by decide) (by decide) (hitems _ hlength) h
  exact ⟨opening :: us ++ [closing], heq, .intro hopening hbody hclosing⟩

theorem bracketed_sound
    {ts : List Token} (h : (bracketed ts).faults = []) :
    ∃ opening gs closing, ts = (opening :: gs ++ [closing])
      ++ (bracketed ts).rest ∧
      opening.kind = .lbracket ∧ Expression gs (bracketed ts).value ∧
        closing.kind = .rbracket :=
  enclosed_sound (by decide) (by decide) expr_sound h

/-- The guard and the first branch of a conditional. -/
theorem Reading.guarded_sound_of
    {n : Nat} (hitems : ∀ ts, ts.length ≤ n → DerivesItems ts) {ts : List Token}
    (hts : ts.length ≤ n)
    (h : (bracketed ts).faults ++ (block (bracketed ts).rest).faults = []) :
    ∃ opening gs closing bs,
      ts = (opening :: gs ++ closing :: bs)
        ++ (block (bracketed ts).rest).rest ∧
        opening.kind = .lbracket ∧ Expression gs (bracketed ts).value ∧
          closing.kind = .rbracket ∧
          Block bs (block (bracketed ts).rest).value := by
  obtain ⟨hguard, hbody⟩ := List.append_eq_nil_iff.mp h
  have hlength := Nat.le_trans (bracketed_rest_length_le ts) hts
  obtain ⟨opening, gs, closing, hgs, hopening, hguard, hclosing⟩ :=
    bracketed_sound hguard
  obtain ⟨bs, hbs, hbody⟩ := block_sound_of hitems hlength hbody
  refine ⟨opening, gs, closing, bs, ?_, hopening, hguard, hclosing, hbody⟩
  simpa using append_passed hgs hbs

theorem Reading.conditional_sound_of
    {n : Nat} (hitems : ∀ ts, ts.length ≤ n → DerivesItems ts) {word : Token}
    {ts : List Token} (hword : word.kind = .ifWord) (hts : ts.length ≤ n)
    (h : (conditional ts).faults = []) :
    ∃ us, ts = us ++ (conditional ts).rest ∧
      IfClause (word :: us) word (conditional ts).value := by
  have hlength := Nat.le_trans (block_rest_length_le (bracketed ts).rest)
    (Nat.le_trans (bracketed_rest_length_le ts) hts)
  rw [conditional_eq] at h ⊢
  simp only at h ⊢
  split at h
  · next helse =>
      rw [if_pos helse]
      obtain ⟨hfront, hotherwise⟩ := List.append_eq_nil_iff.mp h
      obtain ⟨opening, gs, closing, bs, hpassed, hopening, hguard, hclosing,
          hbody⟩ :=
        guarded_sound_of hitems hts hfront
      -- the word for the other branch is in front of what the first branch has
      -- left
      generalize (block (bracketed ts).rest).rest = behind at *
      cases behind with
      | nil => cases helse
      | cons other behind =>
          obtain ⟨os, hos, hotherwise⟩ :=
            block_sound_of hitems (Nat.le_of_succ_le hlength) hotherwise
          exact ⟨opening :: gs ++ closing :: bs ++ other :: os,
            append_passed hpassed (congrArg (other :: ·) hos),
            .ifElse hword hopening hguard hclosing hbody helse hotherwise⟩
  · next helse =>
      rw [if_neg helse]
      obtain ⟨opening, gs, closing, bs, hpassed, hopening, hguard, hclosing,
          hbody⟩ :=
        guarded_sound_of hitems hts h
      exact ⟨opening :: gs ++ closing :: bs, hpassed,
        .ifThen hword hopening hguard hclosing hbody⟩

theorem Reading.items_sound (ts : List Token) : DerivesItems ts := by
  cases ts with
  | nil => exact fun _ => ⟨[], rfl, .nil⟩
  | cons t rest =>
      -- whatever begins with `t`, the bodies inside it and the items behind it
      -- are shorter
      have hshorter : ∀ us : List Token, us.length ≤ rest.length →
          DerivesItems us :=
        fun us hle => items_sound us
      intro h
      rw [items_cons] at h ⊢
      split at h
      · next hend =>
          rw [if_pos hend]
          exact ⟨[], rfl, .nil⟩
      · next hend =>
          rw [if_neg hend]
          split at h
          · next hword =>
              rw [if_pos hword]
              obtain ⟨hfirst, hmore⟩ := List.append_eq_nil_iff.mp h
              obtain ⟨us, hus, hclause⟩ :=
                conditional_sound_of hshorter hword (Nat.le_refl _) hfirst
              obtain ⟨vs, hvs, hbody⟩ :=
                hshorter _ (conditional_rest_length_le rest) hmore
              have hpassed : t :: rest = t :: us ++ (conditional rest).rest :=
                congrArg (t :: ·) hus
              exact ⟨t :: us ++ vs, append_passed hpassed hvs,
                .cons (.conditional hclause) hbody⟩
          · next hword =>
              rw [if_neg hword]
              obtain ⟨hfirst, hmore⟩ := List.append_eq_nil_iff.mp h
              obtain ⟨us, item, hus, hvalue, hitem⟩ := simpleItem_sound hfirst
              obtain ⟨vs, hvs, hbody⟩ :=
                hshorter _ (simpleItem_rest_length_le t rest) hmore
              have hpassed : t :: rest = t :: us ++ (simpleItem t rest).rest :=
                congrArg (t :: ·) hus
              refine ⟨t :: us ++ vs, append_passed hpassed hvs, ?_⟩
              simp only [hvalue]
              exact .cons hitem hbody
termination_by ts.length

theorem Reading.block_sound
    {ts : List Token} (h : (block ts).faults = []) :
    ∃ us, ts = us ++ (block ts).rest ∧ Block us (block ts).value :=
  block_sound_of (fun us _ => items_sound us) (Nat.le_refl _) h

theorem Reading.conditional_sound
    {word : Token} {ts : List Token} (hword : word.kind = .ifWord)
    (h : (conditional ts).faults = []) :
    ∃ us, ts = us ++ (conditional ts).rest ∧
      IfClause (word :: us) word (conditional ts).value :=
  conditional_sound_of (fun us _ => items_sound us) hword (Nat.le_refl _) h

theorem Reading.selector_sound
    {ts : List Token} (h : (selector ts).faults = []) :
    ∃ t, ts = t :: (selector ts).rest ∧ IsSelector t ∧
      (selector ts).value = ⟨t.pos, Text.lowercase t.text⟩ := by
  cases ts with
  | nil => cases h
  | cons t rest =>
      refine ⟨t, ?_⟩
      unfold selector at h ⊢
      simp only [current, List.tail_cons] at h ⊢
      split at h
      case h_1 hkind => exact ⟨rfl, .inl hkind, rfl⟩
      case h_2 hkind => exact ⟨rfl, .inr (.inl hkind), rfl⟩
      case h_3 hkind => exact ⟨rfl, .inr (.inr hkind), rfl⟩
      case h_4 => cases h

theorem Reading.moreSelectors_sound
    {t : Token} {ts : List Token} (ht : IsSelector t)
    (h : (moreSelectors ts).faults = []) :
    ∃ us, ts = us ++ (moreSelectors ts).rest ∧
      Selectors (t :: us)
        (⟨t.pos, Text.lowercase t.text⟩ :: (moreSelectors ts).value) := by
  fun_induction moreSelectors ts generalizing t
  case case1 => exact ⟨[], rfl, .single ht⟩
  case case2 comma rest hcomma first _ more ih =>
    obtain ⟨hfirst, hmore⟩ := List.append_eq_nil_iff.mp h
    obtain ⟨s, hrest, hs, hvalue⟩ := selector_sound hfirst
    obtain ⟨us, hus, hselectors⟩ := ih hs hmore
    have hpassed : comma :: rest = [comma, s] ++ first.rest :=
      congrArg (comma :: ·) hrest
    refine ⟨[comma, s] ++ us, append_passed hpassed hus, ?_⟩
    rw [← hvalue] at hselectors
    exact .cons ht hcomma hselectors
  case case3 => exact ⟨[], rfl, .single ht⟩

theorem Reading.rule_sound
    {t : Token} {rest : List Token} (ht : IsSelector t)
    (h : (rule t rest).faults = []) :
    ∃ us, rest = us ++ (rule t rest).rest ∧
      TopItem (t :: us) (rule t rest).value := by
  obtain ⟨hmore, hbody⟩ := List.append_eq_nil_iff.mp h
  obtain ⟨us, hus, hselectors⟩ := moreSelectors_sound ht hmore
  obtain ⟨bs, hbs, hbody⟩ := block_sound hbody
  exact ⟨us ++ bs, append_passed hus hbs, .rule hselectors hbody⟩

theorem Reading.statement_sound
    {t : Token} {rest : List Token} (h : (statement t rest).faults = []) :
    ∃ us s, rest = us ++ (statement t rest).rest ∧
      (statement t rest).value = some s ∧ TopItem (t :: us) s := by
  unfold statement at h ⊢
  split at h
  · next hassign =>
      have hname : IsName t := hassign.symm.imp And.left id
      rw [if_pos hassign]
      obtain ⟨us, hus, hbinding⟩ := binding_sound (by decide) hname h
      exact ⟨us, _, hus, rfl, .assignment hbinding⟩
  · next hassign =>
      rw [if_neg hassign]
      split at h
      · next hword =>
          rw [if_pos hword]
          obtain ⟨us, hus, hclause⟩ := conditional_sound hword h
          exact ⟨us, _, hus, rfl, .conditional hclause⟩
      · next hword =>
          rw [if_neg hword]
          split at h
          · next hselector =>
              rw [if_pos hselector]
              obtain ⟨us, hus, hrule⟩ := rule_sound hselector h
              exact ⟨us, _, hus, rfl, hrule⟩
          · cases h

/-- Statements read without a fault are derived from the tokens that were
passed, and only the end of input has stopped the reading. -/
theorem Reading.statements_sound
    {ts : List Token} (h : (statements ts).faults = []) :
    ∃ us, ts = us ++ (statements ts).rest ∧
      WholeSheet us (statements ts).value ∧
      (current (statements ts).rest).kind = .eof := by
  fun_induction statements ts
  case case1 => exact ⟨[], rfl, .nil, rfl⟩
  case case2 t rest heof => exact ⟨[], rfl, .nil, heof⟩
  case case3 t rest _ first _ more ih =>
    obtain ⟨hfirst, hmore⟩ := List.append_eq_nil_iff.mp h
    obtain ⟨us, s, hus, hvalue, hs⟩ := statement_sound hfirst
    obtain ⟨vs, hvs, hsheet, heof⟩ := ih hmore
    have hpassed : t :: rest = t :: us ++ first.rest := congrArg (t :: ·) hus
    have hfirstValue : first.value = some s := hvalue
    refine ⟨t :: us ++ vs, append_passed hpassed hvs, ?_, heof⟩
    simp only [hfirstValue]
    exact .cons hs hsheet

/-! ## Whole sources -/

/-- The last of the tokens is not the end of input. -/
def EndsInside (ts : List Token) : Prop :=
  ∃ us t, ts = us ++ [t] ∧ t.kind ≠ .eof

theorem EndsInside.append
    {ts : List Token} (us : List Token) (h : EndsInside ts) :
    EndsInside (us ++ ts) := by
  obtain ⟨vs, t, rfl, ht⟩ := h
  exact ⟨us ++ vs, t, (List.append_assoc us vs [t]).symm, ht⟩

theorem EndsInside.cons
    {ts : List Token} (t : Token) (h : EndsInside ts) : EndsInside (t :: ts) :=
  h.append [t]

theorem Grammar.Block.endsInside
    {ts : List Token} {its : List Item} (h : Block ts its) : EndsInside ts := by
  obtain ⟨_, _, hclosing⟩ := h
  exact ⟨_, _, rfl, by simp [hclosing]⟩

theorem Grammar.IfClause.endsInside
    {ts : List Token} {word : Token} {branches : Branches}
    (h : IfClause ts word branches) :
    EndsInside ts := by
  cases h with
  | ifThen _ _ _ _ hbody => exact (hbody.endsInside.cons _).append _
  | ifElse _ _ _ _ _ _ hotherwise =>
      exact (hotherwise.endsInside.cons _).append _

theorem Grammar.TopItem.endsInside
    {ts : List Token} {s : Statement} (h : TopItem ts s) : EndsInside ts := by
  cases h with
  | assignment h =>
      obtain ⟨_, _, _, hsemicolon⟩ := h
      exact ⟨_, _, rfl, by simp [hsemicolon]⟩
  | rule _ hbody => exact hbody.endsInside.append _
  | conditional h => exact h.endsInside

theorem Grammar.WholeSheet.endsInside
    {ts : List Token} {sheet : Sheet} (h : WholeSheet ts sheet)
    (hts : ts ≠ []) :
    EndsInside ts := by
  induction h with
  | nil => exact absurd rfl hts
  | @cons ts us _ _ hstatement _ ih =>
      rcases eq_or_ne us [] with rfl | hus
      · rw [List.append_nil]
        exact hstatement.endsInside
      · exact (ih hus).append ts

/-- Reading stops in front of the first end of input. -/
theorem eq_of_append_eq_append_eof
    {body us rest : List Token} {last : Token}
    (hbody : ∀ t ∈ body, t.kind ≠ .eof) (heq : body ++ [last] = us ++ rest)
    (hus : us ≠ [] → EndsInside us) (hlast : last.kind = .eof)
    (hrest : (current rest).kind = .eof) : us = body := by
  cases rest with
  | nil =>
      rw [List.append_nil] at heq
      obtain ⟨vs, t, hvs, ht⟩ := hus (by simp [← heq])
      obtain ⟨-, hsame⟩ := List.append_inj' (heq.trans hvs) rfl
      obtain rfl := List.singleton_inj.mp hsame
      exact absurd hlast ht
  | cons t rest =>
      rcases List.append_eq_append_iff.mp heq with
        ⟨vs, hvs, hend⟩ | ⟨vs, hvs, hend⟩
      · obtain ⟨rfl, -⟩ | ⟨_, hnil⟩ := List.singleton_eq_append_iff.mp hend
        · rw [hvs, List.append_nil]
        · cases hnil
      · cases vs with
        | nil => rw [hvs, List.append_nil]
        | cons v vs =>
            obtain ⟨rfl, -⟩ := List.cons.inj hend
            exact absurd hrest (hbody t (by simp [hvs]))

theorem Scan.Cursor.tokens_eq (cur : Scan.Cursor) :
    ∃ body last, cur.tokens = body ++ [last] ∧ (∀ t ∈ body, t.kind ≠ .eof) ∧
      last.kind = .eof := by
  fun_induction Scan.Cursor.tokens cur
  case case1 cur heof => exact ⟨[], _, rfl, List.forall_mem_nil _, heof⟩
  case case2 cur hne ih =>
    obtain ⟨body, last, heq, hbody, hlast⟩ := ih
    refine ⟨cur.next.1 :: body, last, ?_,
      List.forall_mem_cons.mpr ⟨hne, hbody⟩, hlast⟩
    rw [heq, List.cons_append]

theorem parse_diagnostics_eq_nil_iff {source : List Char} :
    (parse source).diagnostics = [] ↔
      (statements (Scan.scan source)).faults = [] :=
  List.map_eq_nil_iff

/-- The selectors of a statement, if it is a rule. -/
def Statement.selectors : Statement → List Selector
  | .rule _ selectors _ => selectors
  | _ => []

theorem Grammar.Selectors.exists_token
    {ts : List Token} {selectors : List Selector} (h : Selectors ts selectors)
    {s : Selector} (hs : s ∈ selectors) :
    ∃ t ∈ ts, IsSelector t ∧ s.text = Text.lowercase t.text := by
  induction h with
  | @single t ht =>
      rw [List.mem_singleton.mp hs]
      exact ⟨t, List.mem_cons_self, ht, rfl⟩
  | @cons t comma ts selectors ht _ _ ih =>
      rcases List.mem_cons.mp hs with rfl | hs
      · exact ⟨t, List.mem_cons_self, ht, rfl⟩
      · obtain ⟨u, hu, hselector⟩ := ih hs
        exact ⟨u, List.mem_cons_of_mem _ (List.mem_cons_of_mem _ hu), hselector⟩

/-- Every selector of a sheet is one of its tokens in lower case. -/
theorem Grammar.WholeSheet.exists_token
    {ts : List Token} {sheet : Sheet} (h : WholeSheet ts sheet) {s : Selector}
    (hs : s ∈ sheet.flatMap Statement.selectors) :
    ∃ t ∈ ts, IsSelector t ∧ s.text = Text.lowercase t.text := by
  induction h with
  | nil => cases hs
  | cons hstatement _ ih =>
      rcases List.mem_append.mp hs with hs | hs
      · cases hstatement with
        | assignment => cases hs
        | rule hselectors _ =>
            obtain ⟨t, ht, hselector⟩ := hselectors.exists_token hs
            exact ⟨t, List.mem_append_left _ (List.mem_append_left _ ht),
              hselector⟩
        | @conditional _ _ branches _ =>
            obtain ⟨guard, body, _ | ⟨elsePos, otherwise⟩⟩ := branches <;>
              cases hs
      · obtain ⟨t, ht, hselector⟩ := ih hs
        exact ⟨t, List.mem_append_right _ ht, hselector⟩

/-- The grammar derives what is read without a fault. -/
theorem wholeSheet_of_parse
    {source : List Char} (h : (parse source).diagnostics = [])
    {body : List Token} {last : Token}
    (hscan : Scan.scan source = body ++ [last]) :
    WholeSheet body (parse source).sheet := by
  obtain ⟨body', last', hscan', hbody, hlast⟩ :=
    (Scan.Cursor.start source).tokens_eq
  obtain ⟨rfl, -⟩ := List.append_inj' (hscan.symm.trans hscan') rfl
  obtain ⟨us, hus, hsheet, hrest⟩ :=
    statements_sound (parse_diagnostics_eq_nil_iff.mp h)
  rwa [eq_of_append_eq_append_eof hbody (hscan'.symm.trans hus)
    hsheet.endsInside hlast hrest]
    at hsheet

/-- Reading accepts just the sources whose tokens the grammar derives, and gives
their only derivation. -/
theorem parse_accepts_grammar (source : List Char) :
    ∃ body last, Scan.scan source = body ++ [last] ∧
      (∀ t ∈ body, t.kind ≠ .eof) ∧
      last.kind = .eof ∧
      ((parse source).diagnostics = [] ↔ ∃ sheet, WholeSheet body sheet) ∧
      (∀ sheet, WholeSheet body sheet ↔
        (parse source).diagnostics = [] ∧ (parse source).sheet = sheet) ∧
      (parse source).arena.rootTree = sheetTree (parse source).sheet := by
  obtain ⟨body, last, hscan, hbody, hlast⟩ :=
    (Scan.Cursor.start source).tokens_eq
  have hparsed : ∀ sheet, WholeSheet body sheet →
      (parse source).diagnostics = [] ∧ (parse source).sheet = sheet := by
    intro sheet h
    have hread := (h.read hlast).2
    rw [← hscan] at hread
    exact ⟨parse_diagnostics_eq_nil_iff.mpr (congrArg Reading.faults hread),
      congrArg Reading.value hread⟩
  have hderived : (parse source).diagnostics = [] →
      WholeSheet body (parse source).sheet := by
    intro h
    obtain ⟨us, hus, hsheet, hrest⟩ :=
      statements_sound (parse_diagnostics_eq_nil_iff.mp h)
    rwa [eq_of_append_eq_append_eof hbody (hscan.symm.trans hus)
      hsheet.endsInside hlast hrest]
      at hsheet
  refine ⟨body, last, hscan, hbody, hlast, ⟨fun h => ⟨_, hderived h⟩, ?_⟩,
    fun sheet => ⟨hparsed sheet, ?_⟩, rootTree_ofSheet _⟩
  · rintro ⟨sheet, h⟩
    exact (hparsed sheet h).1
  · rintro ⟨h, rfl⟩
    exact hderived h

/-- A source with a conditional and the largest numeral, and one whose numeral
is too large. -/
theorem parse_accepts_grammar_largest_numeral :
    let accepted :=
      "A := 1 - 2 * B + c; p, .Q \x7b if [TRUE] \x7b x: 9223372036854775807px; \x7d \x7d".toList
    let refused := "A := 9223372036854775808;".toList
    (∃ body last sheet, Scan.scan accepted = body ++ [last] ∧
      WholeSheet body sheet ∧
      (sheetTree sheet).dumpLines 0 =
        ["Stylesheet",
          "  VariableAssignment",
          "    VariableReference: A",
          "    AddOperation",
          "      SubtractOperation",
          "        ScalarLiteral: 1",
          "        MultiplyOperation",
          "          ScalarLiteral: 2",
          "          VariableReference: B",
          "      VariableReference: c",
          "  Stylerule",
          "    TagSelector: p",
          "    ClassSelector: .q",
          "    IfClause",
          "      Condition:",
          "        BoolLiteral: true",
          "      Body:",
          "        Declaration",
          "          Property: x",
          "          PixelLiteral: 9223372036854775807px"]) ∧
    ∃ body last, Scan.scan refused = body ++ [last] ∧
      ¬∃ sheet, WholeSheet body sheet := by
  intro accepted refused
  constructor
  · obtain ⟨body, last, hscan, -, -, -, hsheet, htree⟩ :=
      parse_accepts_grammar accepted
    refine ⟨body, last, (parse accepted).sheet, hscan,
      (hsheet _).mpr ⟨?_, rfl⟩, ?_⟩
    · decide +kernel
    · rw [← htree]
      decide +kernel
  · obtain ⟨body, last, hscan, -, -, hderived, -⟩ :=
      parse_accepts_grammar refused
    refine ⟨body, last, hscan, fun h => ?_⟩
    exact absurd (hderived.mpr h) (by decide +kernel)

end Stylesheet
