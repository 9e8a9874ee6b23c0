import Mathlib.Data.Prod.Lex
import Mathlib.Logic.Relation
import Stylesheet.Proofs.SyntaxErrors

/-!
# Reading goes forward

A procedure of reading is carried out by carrying out others, one where the one
before it left off, down to the passing of a single token.  Many of them may
pass nothing: a token that is missing is not passed, nor is the semicolon in
front of which an operand is missing, nor the brace at which reading is taken up
again.  Still reading never stands still.  A round of the loop over a sheet or
over a body passes the token in front if nothing else did, and a conditional is
entered at its word, which it passes before it comes to its branches.  So a
procedure that is entered again inside itself has less in front of it, and
reading comes to the end token whatever the tokens are.
-/

namespace Stylesheet.Reading

/-! ## What readings pass -/

theorem tail_length_lt {ts : List Token} (h : (current ts).kind ≠ .eof) :
    ts.tail.length < ts.length := by
  obtain ⟨rest, hts⟩ := current_ne_eof h
  rw [hts, List.tail_cons, List.length_cons]
  exact Nat.lt_succ_self _

theorem length_lt_of_suffix_tail
    {ts us : List Token} (h : (current ts).kind ≠ .eof) (hus : us <:+ ts.tail) :
    us.length < ts.length :=
  Nat.lt_of_le_of_lt hus.length_le (tail_length_lt h)

theorem expect_rest_suffix (kind : TokenKind) (ts : List Token) :
    (expect kind ts).rest <:+ ts := by
  unfold expect
  split
  · exact List.tail_suffix ts
  · exact List.suffix_rfl

theorem binding_rest_suffix (sign : TokenKind) (ts : List Token) :
    (binding sign ts).rest <:+ ts :=
  (expect_rest_suffix _ _).trans
    ((along_expr _).suffix.trans (expect_rest_suffix _ _))

/-- A statement passes the token that it begins with, also if that token is
stray. -/
theorem statement_rest_suffix (t : Token) (rest : List Token) :
    (statement t rest).rest <:+ rest := by
  unfold statement
  dsimp only
  split
  · exact binding_rest_suffix _ _
  · split
    · exact (along_conditional rest).suffix
    · split
      · exact (along_rule t rest).suffix
      · exact (trail_resume t rest).suffix

theorem simpleItem_rest_suffix (t : Token) (rest : List Token) :
    (simpleItem t rest).rest <:+ rest := by
  unfold simpleItem
  dsimp only
  split
  · exact binding_rest_suffix _ _
  · split
    · exact binding_rest_suffix _ _
    · exact (trail_resume t rest).suffix

theorem number_rest (make : Int64 → Literal) (t : Token) (us : List Token) :
    (number make t us).rest = us := by
  unfold number
  dsimp only
  split <;> rfl

/-! ## Procedures and their parts -/

/-- The procedures of reading.  A loop is a procedure that ends by entering
itself; `statement` and `item` are single rounds of the loops `statements` and
`items`. -/
inductive Procedure where
  | statements
  | statement
  | rule
  | selector
  | moreSelectors
  | block
  | items
  | item
  | conditional
  | binding (sign : TokenKind)
  | expr
  | moreTerms (left : Expr)
  | term
  | moreFactors (left : Expr)
  | atom
  | expect (kind : TokenKind)
  | skip
  | advance
  deriving DecidableEq

namespace Procedure

/-- What a procedure leaves of the tokens that are in front when it is entered.
A rule, a conditional, a declaration or an assignment is entered at its first
token. -/
def rest : Procedure → List Token → List Token
  | .statements, ts => (Reading.statements ts).rest
  | .statement, ts => (Reading.statement (current ts) ts.tail).rest
  | .rule, ts => (Reading.rule (current ts) ts.tail).rest
  | .selector, ts => (Reading.selector ts).rest
  | .moreSelectors, ts => (Reading.moreSelectors ts).rest
  | .block, ts => (Reading.block ts).rest
  | .items, ts => (Reading.items ts).rest
  | .item, ts =>
      if (current ts).kind = .ifWord then (Reading.conditional ts.tail).rest
      else (simpleItem (current ts) ts.tail).rest
  | .conditional, ts => (Reading.conditional ts.tail).rest
  | .binding sign, ts => (Reading.binding sign ts.tail).rest
  | .expr, ts => (Reading.expr ts).rest
  | .moreTerms left, ts => (Reading.moreTerms left ts).rest
  | .term, ts => (Reading.term ts).rest
  | .moreFactors left, ts => (Reading.moreFactors left ts).rest
  | .atom, ts => (Reading.atom ts).rest
  | .expect kind, ts => (Reading.expect kind ts).rest
  | .skip, ts => Reading.skip ts
  | .advance, ts => ts.tail

/-- What is left when the given procedures have been carried out in turn. -/
def after (ps : List Procedure) (ts : List Token) : List Token :=
  ps.foldl (fun us p => p.rest us) ts

/-- The procedure that the tokens in front call for at top level. -/
def atTop (ts : List Token) : Procedure :=
  let kind := (current ts).kind
  if kind = .capitalIdent ∨
    (kind = .ident ∧ (current ts.tail).kind = .assign) then
    .binding .assign
  else if kind = .ifWord then .conditional
  else if kind = .ident ∨ kind = .classIdent ∨ kind = .idIdent then .rule
  else .skip

/-- The procedure that the tokens in front call for in a body. -/
def inBody (ts : List Token) : Procedure :=
  let kind := (current ts).kind
  let ahead := (current ts.tail).kind
  if kind = .ifWord then .conditional
  else if (kind = .ident ∨ kind = .capitalIdent) ∧ ahead = .assign then
    .binding .assign
  else if kind = .ident ∨ (kind = .capitalIdent ∧ ahead = .colon) then
    .binding .colon
  else .skip

/-- One round of a loop.  If the procedure passes no token, the one in front is
passed all the same. -/
def round (p : Procedure) (ts : List Token) : List Procedure :=
  if (p.rest ts).length = ts.length then [p, .advance] else [p]

/-- A conditional up to the end of its first branch. -/
def firstBranch : List Procedure :=
  [.expect .ifWord, .expect .lbracket, .expr, .expect .rbracket, .block]

/-- The other branch of a conditional, if the word for one is in front. -/
def otherBranch (ts : List Token) : List Procedure :=
  if (current ts).kind = .elseWord then [.advance, .block] else []

/-- The procedures by which a procedure is carried out, in turn.  Only the
passing of a single token has no parts but moves. -/
def parts : Procedure → List Token → List Procedure
  | .statements, ts =>
      if (current ts).kind = .eof then [] else [.statement, .statements]
  | .statement, ts => round (atTop ts) ts
  | .rule, _ => [.selector, .moreSelectors, .block]
  | .selector, ts =>
      match (current ts).kind with
      | .ident | .classIdent | .idIdent => [.advance]
      | _ => []
  | .moreSelectors, ts =>
      if (current ts).kind = .comma then [.advance, .selector, .moreSelectors]
        else []
  | .block, _ => [.expect .lbrace, .items, .expect .rbrace]
  | .items, ts =>
      if (current ts).kind = .rbrace ∨ (current ts).kind = .eof then []
        else [.item, .items]
  | .item, ts => round (inBody ts) ts
  | .conditional, ts => firstBranch ++ otherBranch (after firstBranch ts)
  | .binding sign, _ => [.advance, .expect sign, .expr, .expect .semicolon]
  | .expr, ts => [.term, .moreTerms (Reading.term ts).value]
  | .moreTerms left, ts =>
      match termSign? (current ts).kind with
      | some op =>
          [.advance, .term,
            .moreTerms (.operation (current ts).pos op
              left (Reading.term ts.tail).value)]
      | none => []
  | .term, ts => [.atom, .moreFactors (Reading.atom ts).value]
  | .moreFactors left, ts =>
      if (current ts).kind = .star then
        [.advance, .atom,
          .moreFactors (.operation (current ts).pos .multiply
            left (Reading.atom ts.tail).value)]
      else []
  | .atom, ts =>
      match (current ts).kind with
      | .semicolon | .rbracket | .rbrace => []
      | _ => [.advance]
  | .expect kind, ts => if (current ts).kind = kind then [.advance] else []
  | .skip, ts =>
      match (current ts).kind with
      | .semicolon => [.advance]
      | .rbrace | .ifWord | .eof => []
      | _ => [.advance, .skip]
  | .advance, _ => []

/-- The tokens at which a procedure may be entered: a round begins in front of
the end token, and a rule and a conditional begin at the tokens that tell
them. -/
def FitsAt : Procedure → List Token → Prop
  | .statement, ts | .item, ts => (current ts).kind ≠ .eof
  | .rule, ts =>
      (current ts).kind = .ident ∨ (current ts).kind = .classIdent ∨
        (current ts).kind = .idIdent
  | .conditional, ts => (current ts).kind = .ifWord
  | _, _ => True

/-! ### No procedure turns back -/

theorem item_rest_suffix (ts : List Token) : item.rest ts <:+ ts.tail := by
  simp only [rest]
  split
  · exact (along_conditional _).suffix
  · exact simpleItem_rest_suffix _ _

/-- No procedure turns back, wherever it is entered. -/
theorem rest_suffix (p : Procedure) (ts : List Token) : p.rest ts <:+ ts := by
  have htail : ∀ {us : List Token}, us <:+ ts.tail → us <:+ ts :=
    fun h => h.trans (List.tail_suffix ts)
  cases p with
  | statements => exact (along_statements ts).suffix
  | statement => exact htail (statement_rest_suffix _ _)
  | rule => exact htail (along_rule _ _).suffix
  | selector => exact (along_selector ts).suffix
  | moreSelectors => exact (along_moreSelectors ts).suffix
  | block => exact (along_block ts).suffix
  | items => exact (along_items ts).suffix
  | item => exact htail (item_rest_suffix ts)
  | conditional => exact htail (along_conditional _).suffix
  | binding sign => exact htail (binding_rest_suffix sign _)
  | expr => exact (along_expr ts).suffix
  | moreTerms left => exact (along_moreTerms left ts).suffix
  | term => exact (along_term ts).suffix
  | moreFactors left => exact (along_moreFactors left ts).suffix
  | atom => exact (along_atom ts).suffix
  | expect kind => exact expect_rest_suffix kind ts
  | skip => exact (trail_skip ts).suffix
  | advance => exact List.tail_suffix ts

theorem rest_length_le (p : Procedure) (ts : List Token) :
    (p.rest ts).length ≤ ts.length :=
  (p.rest_suffix ts).length_le

/-! ### A procedure is its parts -/

@[simp] theorem after_nil (ts : List Token) : after [] ts = ts :=
  rfl

@[simp] theorem after_cons (p : Procedure) (ps : List Procedure)
    (ts : List Token) :
    after (p :: ps) ts = after ps (p.rest ts) :=
  rfl

theorem after_append (ps qs : List Procedure) (ts : List Token) :
    after (ps ++ qs) ts = after qs (after ps ts) :=
  List.foldl_append

theorem expect_rest_length_lt
    {kind : TokenKind} {ts : List Token} (h : (current ts).kind = kind)
    (hkind : kind ≠ .eof) :
    ((expect kind).rest ts).length < ts.length := by
  simp only [rest, Reading.expect, if_pos h]
  exact tail_length_lt (h ▸ hkind)

/-- A round is over when the token in front has been passed. -/
theorem after_round_of_passed
    {ts us : List Token} (h : (current ts).kind ≠ .eof) (hus : us <:+ ts.tail)
    {p : Procedure} (hp : p.rest ts = us) : after (round p ts) ts = us := by
  have hne : (p.rest ts).length ≠ ts.length := by
    rw [hp]
    exact Nat.ne_of_lt (length_lt_of_suffix_tail h hus)
  rw [round, if_neg hne, after_cons, after_nil, hp]

/-- Where a token is stray, the tokens up to the next place to go on from are
passed.  If there are none, the stray token stands at such a place, and is
passed alone. -/
theorem after_round_skip
    {ts : List Token} (hword : (current ts).kind ≠ .ifWord)
    (heof : (current ts).kind ≠ .eof) :
    after (round skip ts) ts = resume (current ts) ts.tail := by
  cases ts with
  | nil => exact absurd rfl heof
  | cons t us =>
      have hpassed : ∀ {rest' : List Token}, rest' <:+ us →
          skip.rest (t :: us) = rest' →
          after (round skip (t :: us)) (t :: us) = rest' :=
        fun hrest => after_round_of_passed heof hrest
      simp only [current, List.tail_cons] at hword heof ⊢
      unfold resume
      split
      · next hkind =>
          exact hpassed List.suffix_rfl (by simp [rest, Reading.skip, hkind])
      · next hkind =>
          -- Only a brace is left in place, so that the round has to pass it.
          have hskip : skip.rest (t :: us) = t :: us := by
            simp [rest, Reading.skip, hkind]
          rw [round, if_pos (by rw [hskip]), after_cons, hskip]
          rfl
      · next hsemicolon hrbrace =>
          refine hpassed (trail_skip us).suffix ?_
          rw [rest, Reading.skip]
          split <;> simp_all

theorem after_parts_statements (ts : List Token) :
    after (statements.parts ts) ts = statements.rest ts := by
  cases ts with
  | nil => simp [parts, rest, current, Token.nowhere, Reading.statements]
  | cons t us =>
      by_cases heof : t.kind = .eof
      · simp [parts, rest, current, heof, Reading.statements]
      · simp [parts, rest, current, heof, Reading.statements.eq_def (t :: us)]

theorem after_parts_statement {ts : List Token} (h : statement.FitsAt ts) :
    after (statement.parts ts) ts = statement.rest ts := by
  have hpassed : ∀ {p : Procedure}, p.rest ts = statement.rest ts →
      after (round p ts) ts = statement.rest ts :=
    after_round_of_passed h (statement_rest_suffix _ _)
  rw [parts, atTop]
  split
  · next hname =>
      exact hpassed (by simp only [rest, Reading.statement, if_pos hname])
  · next hname =>
      split
      · next hword =>
          exact hpassed
            (by simp only [rest, Reading.statement, if_neg hname, if_pos hword])
      · next hword =>
          split
          · next hselector =>
              refine hpassed ?_
              simp only [rest, Reading.statement, if_neg hname, if_neg hword,
                if_pos hselector]
          · next hselector =>
              rw [after_round_skip hword h]
              simp only [rest, Reading.statement, if_neg hname, if_neg hword,
                if_neg hselector]

theorem after_parts_item {ts : List Token} (h : item.FitsAt ts) :
    after (item.parts ts) ts = item.rest ts := by
  have hpassed : ∀ {p : Procedure}, p.rest ts = item.rest ts →
      after (round p ts) ts = item.rest ts :=
    after_round_of_passed h (item_rest_suffix ts)
  rw [parts, inBody]
  split
  · next hword => exact hpassed (by simp only [rest, if_pos hword])
  · next hword =>
      split
      · next hassign =>
          exact hpassed
            (by simp only [rest, simpleItem, if_neg hword, if_pos hassign])
      · next hassign =>
          split
          · next hcolon =>
              refine hpassed ?_
              simp only [rest, simpleItem, if_neg hword, if_neg hassign,
                if_pos hcolon]
          · next hcolon =>
              rw [after_round_skip hword h]
              simp only [rest, simpleItem, if_neg hword, if_neg hassign,
                if_neg hcolon]

theorem after_parts_rule {ts : List Token} (h : rule.FitsAt ts) :
    after (rule.parts ts) ts = rule.rest ts := by
  have hselector : selector.rest ts = ts.tail := by
    rcases h with hkind | hkind | hkind <;> simp [rest, Reading.selector, hkind]
  simp only [parts, after_cons, after_nil, hselector]
  rfl

theorem after_parts_items (ts : List Token) :
    after (items.parts ts) ts = items.rest ts := by
  cases ts with
  | nil => simp [parts, rest, current, Token.nowhere]
  | cons t us =>
      by_cases hend : t.kind = .rbrace ∨ t.kind = .eof
      · simp [parts, rest, items_cons, current, hend]
      · by_cases hword : t.kind = .ifWord <;>
          simp [parts, rest, items_cons, current, hend, hword]

theorem after_firstBranch {ts : List Token} (h : conditional.FitsAt ts) :
    after firstBranch ts = (Reading.block (bracketed ts.tail).rest).rest := by
  have hword : (Procedure.expect .ifWord).rest ts = ts.tail := by
    have hkind : (current ts).kind = .ifWord := h
    simp [rest, Reading.expect, hkind]
  simp only [firstBranch, after_cons, after_nil, hword]
  rfl

theorem after_parts_conditional {ts : List Token} (h : conditional.FitsAt ts) :
    after (conditional.parts ts) ts = conditional.rest ts := by
  rw [parts, after_append, after_firstBranch h, otherBranch, rest,
    conditional_eq]
  by_cases helse :
    (current (Reading.block (bracketed ts.tail).rest).rest).kind = .elseWord
  · simp only [if_pos helse, after_cons, after_nil, rest]
  · simp only [if_neg helse, after_nil]

theorem after_parts_moreSelectors (ts : List Token) :
    after (moreSelectors.parts ts) ts = moreSelectors.rest ts := by
  cases ts with
  | nil => simp [parts, rest, current, Token.nowhere, Reading.moreSelectors]
  | cons t us =>
      by_cases hcomma : t.kind = .comma
      · simp [parts, rest, current, hcomma,
          Reading.moreSelectors.eq_def (t :: us)]
      · simp [parts, rest, current, hcomma, Reading.moreSelectors]

theorem after_parts_moreTerms (left : Expr) (ts : List Token) :
    after ((moreTerms left).parts ts) ts = (moreTerms left).rest ts := by
  cases ts with
  | nil =>
      simp [parts, rest, current, Token.nowhere, termSign?, Reading.moreTerms]
  | cons t us =>
      cases hsign : termSign? t.kind with
      | some op =>
          simp [parts, rest, current, hsign,
            Reading.moreTerms.eq_def left (t :: us)]
      | none => simp [parts, rest, current, hsign, Reading.moreTerms]

theorem after_parts_moreFactors (left : Expr) (ts : List Token) :
    after ((moreFactors left).parts ts) ts = (moreFactors left).rest ts := by
  cases ts with
  | nil => simp [parts, rest, current, Token.nowhere, Reading.moreFactors]
  | cons t us =>
      by_cases hstar : t.kind = .star
      · simp [parts, rest, current, hstar,
          Reading.moreFactors.eq_def left (t :: us)]
      · simp [parts, rest, current, hstar, Reading.moreFactors]

theorem after_parts_atom (ts : List Token) :
    after (atom.parts ts) ts = atom.rest ts := by
  simp only [parts, rest, Reading.atom]
  split
  · next hkind => simp [hkind]
  · next hkind => simp [hkind]
  · next hkind => simp [hkind]
  · split <;> simp_all [number_rest, rest]

theorem after_parts_skip (ts : List Token) :
    after (skip.parts ts) ts = skip.rest ts := by
  cases ts with
  | nil => rfl
  | cons t us =>
      simp only [parts, rest, current, Reading.skip]
      split <;> simp_all [rest]

/-- A procedure leaves what its parts leave, carried out one after another. -/
theorem after_parts {p : Procedure} {ts : List Token} (h : p.FitsAt ts)
    (hp : p ≠ .advance) :
    after (p.parts ts) ts = p.rest ts := by
  cases p with
  | statements => exact after_parts_statements ts
  | statement => exact after_parts_statement h
  | rule => exact after_parts_rule h
  | selector =>
      simp only [parts, rest, Reading.selector]
      split <;> simp_all [rest]
  | moreSelectors => exact after_parts_moreSelectors ts
  | block => rfl
  | items => exact after_parts_items ts
  | item => exact after_parts_item h
  | conditional => exact after_parts_conditional h
  | binding sign => rfl
  | expr => rfl
  | moreTerms left => exact after_parts_moreTerms left ts
  | term => rfl
  | moreFactors left => exact after_parts_moreFactors left ts
  | atom => exact after_parts_atom ts
  | expect kind =>
      simp only [parts, rest, Reading.expect]
      split <;> rfl
  | skip => exact after_parts_skip ts
  | advance => exact absurd rfl hp

/-! ### The order of the procedures -/

/-- A procedure enters one of its own rank, or of a higher one, only behind a
token that it has passed. -/
def rank : Procedure → Nat
  | .advance => 0
  | .expect _ | .atom | .selector | .skip => 1
  | .moreFactors _ | .moreSelectors => 2
  | .term => 3
  | .moreTerms _ => 4
  | .expr => 5
  | .binding _ | .conditional => 6
  | .item => 7
  | .items => 8
  | .block => 9
  | .rule => 10
  | .statement => 11
  | .statements => 12

/-- The first of the procedures may be entered at the given tokens, and the
others anywhere.  Each is of a rank below the given one, unless it comes behind
a first one that passes a token. -/
def Descending (bound : Nat) (ts : List Token) : List Procedure → Prop
  | [] => True
  | p :: ps => p.FitsAt ts ∧ p.rank < bound ∧
      ∀ q ∈ ps, (∀ us, q.FitsAt us) ∧
        ((p.rest ts).length < ts.length ∨ q.rank < bound)

theorem descending_of_passed
    {bound : Nat} {ts : List Token} {p : Procedure} {ps : List Procedure}
    (hfits : p.FitsAt ts) (hrank : p.rank < bound)
    (hpassed : (p.rest ts).length < ts.length)
    (hps : ∀ q ∈ ps, ∀ us, q.FitsAt us) : Descending bound ts (p :: ps) :=
  ⟨hfits, hrank, fun q hq => ⟨hps q hq, .inl hpassed⟩⟩

theorem descending_advance
    {bound : Nat} {ts : List Token} {ps : List Procedure}
    (hts : (current ts).kind ≠ .eof) (hbound : 0 < bound)
    (hps : ∀ q ∈ ps, ∀ us, q.FitsAt us) :
    Descending bound ts (.advance :: ps) :=
  descending_of_passed trivial hbound (tail_length_lt hts) hps

theorem descending_round
    {bound : Nat} {ts : List Token} {p : Procedure}
    (h : p.FitsAt ts ∧ p.rank < bound) :
    Descending bound ts (round p ts) := by
  unfold round
  split
  · refine ⟨h.1, h.2, List.forall_mem_singleton.mpr ⟨fun _ => trivial, .inr ?_⟩⟩
    exact Nat.lt_of_le_of_lt (Nat.zero_le _) h.2
  · exact ⟨h.1, h.2, List.forall_mem_nil _⟩

theorem atTop_fits (ts : List Token) :
    (atTop ts).FitsAt ts ∧ (atTop ts).rank < rank .statement := by
  unfold atTop
  dsimp only
  split
  · exact ⟨trivial, by decide⟩
  · split
    · next hword => exact ⟨hword, by decide⟩
    · split
      · next hselector => exact ⟨hselector, by decide⟩
      · exact ⟨trivial, by decide⟩

theorem inBody_fits (ts : List Token) :
    (inBody ts).FitsAt ts ∧ (inBody ts).rank < rank .item := by
  unfold inBody
  dsimp only
  split
  · next hword => exact ⟨hword, by decide⟩
  · split
    · exact ⟨trivial, by decide⟩
    · split
      · exact ⟨trivial, by decide⟩
      · exact ⟨trivial, by decide⟩

theorem descending_statements (ts : List Token) :
    Descending (rank .statements) ts (statements.parts ts) := by
  unfold parts
  dsimp only
  split
  · trivial
  · next hend =>
      refine descending_of_passed hend (by decide) ?_ (by simp [FitsAt])
      exact length_lt_of_suffix_tail hend (statement_rest_suffix _ _)

theorem descending_items (ts : List Token) :
    Descending (rank .items) ts (items.parts ts) := by
  unfold parts
  dsimp only
  split
  · trivial
  · next hend =>
      have hne : (current ts).kind ≠ .eof := fun heof => hend (.inr heof)
      refine descending_of_passed hne (by decide) ?_ (by simp [FitsAt])
      exact length_lt_of_suffix_tail hne (item_rest_suffix ts)

/-- A conditional passes its word before anything else. -/
theorem descending_conditional {ts : List Token} (h : conditional.FitsAt ts) :
    Descending (rank .conditional) ts (conditional.parts ts) := by
  refine descending_of_passed trivial (by decide)
    (expect_rest_length_lt h (by decide)) ?_
  unfold otherBranch
  split <;> simp [FitsAt]

/-- The parts of a procedure are of lower rank or come behind a token that it
has passed. -/
theorem descending_parts {p : Procedure} {ts : List Token} (h : p.FitsAt ts) :
    Descending p.rank ts (p.parts ts) := by
  cases p with
  | statements => exact descending_statements ts
  | statement => exact descending_round (atTop_fits ts)
  | rule => simp [parts, Descending, FitsAt, rank]
  | selector =>
      simp only [parts]
      split <;> simp [Descending, FitsAt, rank]
  | moreSelectors =>
      simp only [parts]
      split
      · next hcomma =>
          exact descending_advance (by rw [hcomma]; decide) (by decide)
            (by simp [FitsAt])
      · trivial
  | block => simp [parts, Descending, FitsAt, rank]
  | items => exact descending_items ts
  | item => exact descending_round (inBody_fits ts)
  | conditional => exact descending_conditional h
  | binding sign => simp [parts, Descending, FitsAt, rank]
  | expr => simp [parts, Descending, FitsAt, rank]
  | moreTerms left =>
      simp only [parts]
      split
      · next op hop =>
          exact descending_advance (ne_eof_of_termSign? hop) (by simp [rank])
            (by simp [FitsAt])
      · trivial
  | term => simp [parts, Descending, FitsAt, rank]
  | moreFactors left =>
      simp only [parts]
      split
      · next hstar =>
          exact descending_advance (by rw [hstar]; decide) (by simp [rank])
            (by simp [FitsAt])
      · trivial
  | atom =>
      simp only [parts]
      split <;> simp [Descending, FitsAt, rank]
  | expect kind =>
      simp only [parts]
      split <;> simp [Descending, FitsAt, rank]
  | skip =>
      simp only [parts]
      split
      case h_5 heof =>
        exact descending_advance heof (by decide) (by simp [FitsAt])
      all_goals simp [Descending, FitsAt, rank]
  | advance => trivial

end Procedure

/-! ## Calls -/

/-- A procedure that is entered where the given tokens are in front. -/
structure Call where
  procedure : Procedure
  front : List Token
  deriving DecidableEq

namespace Call

/-- What is in front when the call is over. -/
def rest (c : Call) : List Token :=
  c.procedure.rest c.front

/-- The procedures are entered in turn, each where the one before it left
off. -/
def inTurn : List Procedure → List Token → List Call
  | [], _ => []
  | p :: ps, ts => ⟨p, ts⟩ :: inTurn ps (p.rest ts)

/-- The calls by which a call is carried out. -/
def calls (c : Call) : List Call :=
  inTurn (c.procedure.parts c.front) c.front

/-- The second call is made in carrying out the first one. -/
def Enters (c d : Call) : Prop :=
  d ∈ c.calls

instance (c d : Call) : Decidable (c.Enters d) :=
  inferInstanceAs (Decidable (d ∈ c.calls))

def Fits (c : Call) : Prop :=
  c.procedure.FitsAt c.front

/-- Calls are compared by what is in front of them, and then by their rank. -/
def measure (c : Call) : Nat ×ₗ Nat :=
  toLex (c.front.length, c.procedure.rank)

theorem mem_inTurn
    {ps : List Procedure} {ts : List Token} {d : Call} (h : d ∈ inTurn ps ts) :
    d.procedure ∈ ps ∧ d.front <:+ ts := by
  induction ps generalizing ts with
  | nil => cases h
  | cons p ps ih =>
      rcases List.mem_cons.mp h with rfl | hlater
      · exact ⟨List.mem_cons_self, List.suffix_rfl⟩
      · obtain ⟨hmem, hfront⟩ := ih hlater
        exact ⟨List.mem_cons_of_mem _ hmem, hfront.trans (p.rest_suffix ts)⟩

variable {c d : Call}

theorem Enters.suffix (h : c.Enters d) : d.front <:+ c.front :=
  (mem_inTurn h).2

/-- What a call makes may be made where it is, and has less in front of it or is
of lower rank. -/
theorem Enters.descends (h : c.Enters d) (hc : c.Fits) :
    d.Fits ∧ d.measure < c.measure := by
  have hdescending := Procedure.descending_parts hc
  unfold Enters calls at h
  unfold measure
  cases hparts : c.procedure.parts c.front with
  | nil =>
      rw [hparts] at h
      cases h
  | cons p ps =>
      rw [hparts] at h hdescending
      obtain ⟨hfits, hrank, hothers⟩ := hdescending
      rw [Prod.Lex.toLex_lt_toLex]
      rcases List.mem_cons.mp h with rfl | hlater
      · exact ⟨hfits, .inr ⟨rfl, hrank⟩⟩
      · -- Behind the first call, what is in front decides if that call passed a
        -- token.
        obtain ⟨hmem, hfront⟩ := mem_inTurn hlater
        obtain ⟨hfits, hless⟩ := hothers d.procedure hmem
        have hle := hfront.length_le
        have hpassed := p.rest_length_le c.front
        refine ⟨hfits d.front, ?_⟩
        dsimp only
        omega

/-- No call makes calls without end. -/
theorem acc_of_fits (h : c.Fits) : Acc (fun d c => Enters c d) c := by
  induction hm : c.measure using WellFoundedLT.induction generalizing c with
  | _ m ih =>
      subst hm
      refine Acc.intro c fun d hd => ?_
      obtain ⟨hfits, hlt⟩ := hd.descends h
      exact ih d.measure hlt hfits rfl

/-- The second call is made in carrying out the first one, or in carrying out a
call that is. -/
def Within (c d : Call) : Prop :=
  Relation.TransGen Enters c d

theorem Within.descends (h : c.Within d) (hc : c.Fits) :
    d.Fits ∧ d.measure < c.measure := by
  induction h with
  | single h => exact h.descends hc
  | tail _ h ih =>
      obtain ⟨hfits, hlt⟩ := h.descends ih.1
      exact ⟨hfits, hlt.trans ih.2⟩

/-- A procedure that is entered again inside itself has less in front of it. -/
theorem Within.length_lt
    (h : c.Within d) (hc : c.Fits) (hsame : d.procedure = c.procedure) :
    d.front.length < c.front.length := by
  have hlt := (h.descends hc).2
  rw [measure, measure, Prod.Lex.toLex_lt_toLex, hsame] at hlt
  exact hlt.resolve_right fun hrank => Nat.lt_irrefl _ hrank.2

/-- Behind its word, a conditional makes all calls but the one that passes the
word. -/
theorem Enters.length_lt_of_conditional
    (h : c.Enters d) (hc : c.Fits) (hconditional : c.procedure = .conditional)
    (hd : d.procedure ≠ .expect .ifWord) : d.front.length < c.front.length := by
  obtain ⟨p, ts⟩ := c
  obtain rfl : p = .conditional := hconditional
  have hword : (current ts).kind = .ifWord := hc
  have hpassed : (Procedure.rest (.expect .ifWord) ts).length < ts.length :=
    Procedure.expect_rest_length_lt hword (by decide)
  rcases List.mem_cons.mp h with rfl | hlater
  · exact absurd rfl hd
  · exact Nat.lt_of_le_of_lt (mem_inTurn hlater).2.length_le hpassed

end Call

/-! ## The cursor -/

/-- How many of the tokens have been passed when the given ones are in front. -/
def cursor (tokens front : List Token) : Nat :=
  tokens.length - front.length

theorem cursor_lt_cursor
    {tokens us vs : List Token} (hlength : vs.length < us.length)
    (hus : us <:+ tokens) :
    cursor tokens us < cursor tokens vs := by
  have hle := hus.length_le
  unfold cursor
  omega

namespace Call

/-- Where the cursor stands when the call is made. -/
def start (tokens : List Token) (c : Call) : Nat :=
  cursor tokens c.front

/-- Where the cursor stands when the call is over. -/
def stop (tokens : List Token) (c : Call) : Nat :=
  cursor tokens c.rest

/-- The call that reads all tokens. -/
def whole (tokens : List Token) : Call :=
  ⟨.statements, tokens⟩

/-- The call is made in reading the tokens. -/
def Reached (tokens : List Token) (c : Call) : Prop :=
  Relation.ReflTransGen Enters (whole tokens) c

end Call

/-- Reading the tokens goes forward and comes to the end token. -/
structure ReadsForward (tokens : List Token) : Prop where
  /-- No call moves the cursor back, or behind the last token. -/
  never_back : ∀ c : Call, c.Reached tokens →
    c.front = tokens.drop (c.start tokens) ∧
      c.rest = tokens.drop (c.stop tokens) ∧
      c.start tokens ≤ c.stop tokens ∧ c.stop tokens ≤ tokens.length
  /-- The cursor is moved by the passing of single tokens only, from which all
  calls are made up. -/
  made_up : ∀ c : Call, c.Reached tokens → c.procedure ≠ .advance →
    Procedure.after (c.procedure.parts c.front) c.front = c.rest
  /-- Every round of the loops over a sheet and over a body moves the cursor. -/
  round_moves : ∀ c : Call, c.Reached tokens →
    c.procedure = .statement ∨ c.procedure = .item →
    c.start tokens < c.stop tokens
  /-- A conditional is entered at its word, passes it before it makes another
  call, and so is never entered again at the same place. -/
  word_passed : ∀ c : Call, c.Reached tokens → c.procedure = .conditional →
    (∃ t, tokens[c.start tokens]? = some t ∧ t.kind = .ifWord) ∧
      (∀ d, c.Enters d → d.procedure ≠ .expect .ifWord →
        c.start tokens < d.start tokens) ∧
      ∀ d, c.Within d → d.procedure = .conditional →
        c.start tokens < d.start tokens
  /-- There is no endless chain of calls. -/
  comes_to_end : Acc (fun d c => Call.Enters c d) (.whole tokens)
  /-- When all calls are over, the cursor stands at the end token or behind
  it. -/
  end_reached : ∀ i t, tokens[i]? = some t → t.kind = .eof →
    i ≤ (Call.whole tokens).stop tokens

namespace Call

variable {tokens : List Token} {c d : Call}

theorem Reached.fits_and_suffix (h : c.Reached tokens) :
    c.Fits ∧ c.front <:+ tokens := by
  induction h with
  | refl => exact ⟨trivial, List.suffix_rfl⟩
  | tail _ hstep ih => exact ⟨(hstep.descends ih.1).1, hstep.suffix.trans ih.2⟩

theorem Reached.rest_suffix (h : c.Reached tokens) : c.rest <:+ tokens :=
  (c.procedure.rest_suffix c.front).trans h.fits_and_suffix.2

theorem Reached.never_back (h : c.Reached tokens) :
    c.front = tokens.drop (c.start tokens) ∧
      c.rest = tokens.drop (c.stop tokens) ∧
      c.start tokens ≤ c.stop tokens ∧ c.stop tokens ≤ tokens.length := by
  have hrest := (c.procedure.rest_suffix c.front).length_le
  refine ⟨List.suffix_iff_eq_drop.mp h.fits_and_suffix.2,
    List.suffix_iff_eq_drop.mp h.rest_suffix, Nat.sub_le_sub_left hrest _,
    Nat.sub_le _ _⟩

theorem Reached.round_moves
    (h : c.Reached tokens)
    (hround : c.procedure = .statement ∨ c.procedure = .item) :
    c.start tokens < c.stop tokens := by
  obtain ⟨hfits, hfront⟩ := h.fits_and_suffix
  obtain ⟨p, ts⟩ := c
  refine cursor_lt_cursor ?_ hfront
  rcases hround with rfl | rfl
  · exact length_lt_of_suffix_tail hfits (statement_rest_suffix _ _)
  · exact length_lt_of_suffix_tail hfits (Procedure.item_rest_suffix _)

theorem Reached.at_word (h : c.Reached tokens)
    (hconditional : c.procedure = .conditional) :
    ∃ t, tokens[c.start tokens]? = some t ∧ t.kind = .ifWord := by
  obtain ⟨hfits, -⟩ := h.fits_and_suffix
  have hfront := h.never_back.1
  rw [Fits, hconditional] at hfits
  have hword : (current c.front).kind = .ifWord := hfits
  obtain ⟨rest, hrest⟩ := current_ne_eof (by rw [hword]; decide)
  refine ⟨current c.front, ?_, hword⟩
  rw [← List.head?_drop, ← hfront, hrest]
  rfl

end Call

theorem statements_rest_at_end (ts : List Token) :
    (current (statements ts).rest).kind = .eof := by
  fun_induction statements ts with
  | case1 => rfl
  | case2 t rest heof => exact heof
  | case3 t rest hend first hfirst more ih => exact ih

/-- All that is left when all statements have been read is the end token, if
that. -/
theorem Ended.statements_rest_length {tokens : List Token} (h : Ended tokens) :
    (statements tokens).rest.length ≤ 1 := by
  have hend := statements_rest_at_end tokens
  have hsuffix := (along_statements tokens).suffix
  cases hrest : (statements tokens).rest with
  | nil => exact Nat.zero_le _
  | cons t rest =>
      rw [hrest] at hend hsuffix
      rw [(h t rest hsuffix).mp hend]
      exact Nat.le_refl _

/-- Reading goes forward through any tokens that are closed by an end token, and
comes to that token. -/
theorem reading_goes_forward
    {body : List Token} {last : Token} (hbody : ∀ t ∈ body, t.kind ≠ .eof)
    (hlast : last.kind = .eof) : ReadsForward (body ++ [last]) := by
  refine ⟨fun c h => h.never_back, fun c h hne =>
    Procedure.after_parts h.fits_and_suffix.1 hne,
    fun c h hround => h.round_moves hround, fun c h hconditional => ?_,
    Call.acc_of_fits trivial, fun i t hi _ => ?_⟩
  · obtain ⟨hfits, hfront⟩ := h.fits_and_suffix
    refine ⟨h.at_word hconditional, fun d hd hne => ?_, fun d hd hsame => ?_⟩
    · exact cursor_lt_cursor
        (hd.length_lt_of_conditional hfits hconditional hne) hfront
    · exact cursor_lt_cursor
        (hd.length_lt hfits (hsame.trans hconditional.symm)) hfront
  · have hlt : i < (body ++ [last]).length :=
      (List.getElem?_eq_some_iff.mp hi).1
    have hleft := (ended_append_singleton hbody hlast).statements_rest_length
    change i ≤ (body ++ [last]).length -
      (statements (body ++ [last])).rest.length
    omega

/-- A stray brace, and a conditional that breaks off behind the word of another
one. -/
def brokenNesting : List Token :=
  [⟨.rbrace, "\x7d", ⟨1, 1⟩⟩, ⟨.ifWord, "if", ⟨1, 3⟩⟩, ⟨.lbracket, "[", ⟨1, 6⟩⟩,
    ⟨.rbracket, "]", ⟨1, 7⟩⟩, ⟨.lbrace, "\x7b", ⟨1, 9⟩⟩,
    ⟨.ifWord, "if", ⟨1, 11⟩⟩] ++
    [⟨.eof, "", ⟨1, 13⟩⟩]

/-- The brace is passed, although reading may be taken up again there, and one
conditional is entered inside the other.  The inner one misses its operand at
the end token, and passes it. -/
theorem reading_goes_forward_past_end :
    ReadsForward brokenNesting ∧
      Call.Reached brokenNesting ⟨.conditional, brokenNesting.drop 1⟩ ∧
      Call.Within ⟨.conditional, brokenNesting.drop 1⟩
        ⟨.conditional, brokenNesting.drop 5⟩ ∧
      (Call.whole brokenNesting).stop brokenNesting = brokenNesting.length := by
  refine ⟨reading_goes_forward (by decide) rfl, ?_, ?_, by decide +kernel⟩
  · have hbehind : (Call.whole brokenNesting).Enters
        ⟨.statements, brokenNesting.drop 1⟩ := by
      decide +kernel
    have hround : Call.Enters ⟨.statements, brokenNesting.drop 1⟩
        ⟨.statement, brokenNesting.drop 1⟩ := by decide +kernel
    have hword : Call.Enters ⟨.statement, brokenNesting.drop 1⟩
        ⟨.conditional, brokenNesting.drop 1⟩ := by decide +kernel
    exact ((Relation.ReflTransGen.single hbehind).tail hround).tail hword
  · have hbody : Call.Enters ⟨.conditional, brokenNesting.drop 1⟩
        ⟨.block, brokenNesting.drop 4⟩ := by decide +kernel
    have hitems : Call.Enters ⟨.block, brokenNesting.drop 4⟩
        ⟨.items, brokenNesting.drop 5⟩ := by
      decide +kernel
    have hround : Call.Enters ⟨.items, brokenNesting.drop 5⟩
        ⟨.item, brokenNesting.drop 5⟩ := by
      decide +kernel
    have hword : Call.Enters ⟨.item, brokenNesting.drop 5⟩
        ⟨.conditional, brokenNesting.drop 5⟩ := by decide +kernel
    exact (((Relation.TransGen.single hbody).tail hitems).tail hround).tail
      hword

end Stylesheet.Reading
