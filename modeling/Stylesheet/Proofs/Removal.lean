import Stylesheet.Proofs.Insertion
import Stylesheet.Proofs.Unused

/-!
# Taking an assignment out of a source

An assignment at any depth of a sheet is a run of tokens between the end of one
item and the beginning of another.  So its text can be cut out of the source,
from its name up to its semicolon, and what is left is read as the sheet without
the assignment.  If the assignment is remarked on as unused, the rest compiles
to the same CSS.
-/

namespace Stylesheet

/-! ## One assignment less -/

section Removes

variable (pos : Position) (name : String) (expr : Expr)

/-- The assignment is taken out of a list of items, or of a list inside one of
them. -/
inductive RemovesItem : List Item → List Item → Prop
  | here {items : List Item} : RemovesItem
      (.assignment pos name expr :: items) items
  | later {item : Item} {items items' : List Item}
      (h : RemovesItem items items') :
      RemovesItem (item :: items) (item :: items')
  | inThen {ifPos : Position} {guard : Expr} {body body' items : List Item}
      (h : RemovesItem body body') :
      RemovesItem (.ifThen ifPos guard body :: items)
        (.ifThen ifPos guard body' :: items)
  | inFirst {ifPos elsePos : Position} {guard : Expr}
      {body body' otherwise items : List Item} (h : RemovesItem body body') :
      RemovesItem (.ifElse ifPos guard body elsePos otherwise :: items)
        (.ifElse ifPos guard body' elsePos otherwise :: items)
  | inSecond {ifPos elsePos : Position} {guard : Expr}
      {body otherwise otherwise' items : List Item}
      (h : RemovesItem otherwise otherwise') :
      RemovesItem (.ifElse ifPos guard body elsePos otherwise :: items)
        (.ifElse ifPos guard body elsePos otherwise' :: items)

/-- The assignment is taken out of a sheet, from the list that it stands in. -/
inductive Removes : Sheet → Sheet → Prop
  | here {sheet : Sheet} : Removes (.assignment pos name expr :: sheet) sheet
  | later {s : Statement} {sheet sheet' : Sheet} (h : Removes sheet sheet') :
      Removes (s :: sheet) (s :: sheet')
  | inRule {rulePos : Position} {selectors : List Selector}
      {body body' : List Item} {sheet : Sheet}
      (h : RemovesItem pos name expr body body') :
      Removes (.rule rulePos selectors body :: sheet)
        (.rule rulePos selectors body' :: sheet)
  | inThen {ifPos : Position} {guard : Expr} {body body' : List Item}
      {sheet : Sheet} (h : RemovesItem pos name expr body body') :
      Removes (.ifThen ifPos guard body :: sheet)
        (.ifThen ifPos guard body' :: sheet)
  | inFirst {ifPos elsePos : Position} {guard : Expr}
      {body body' otherwise : List Item} {sheet : Sheet}
      (h : RemovesItem pos name expr body body') :
      Removes (.ifElse ifPos guard body elsePos otherwise :: sheet)
        (.ifElse ifPos guard body' elsePos otherwise :: sheet)
  | inSecond {ifPos elsePos : Position} {guard : Expr}
      {body otherwise otherwise' : List Item} {sheet : Sheet}
      (h : RemovesItem pos name expr otherwise otherwise') :
      Removes (.ifElse ifPos guard body elsePos otherwise :: sheet)
        (.ifElse ifPos guard body elsePos otherwise' :: sheet)

end Removes

section Removes

variable {pos : Position} {name : String} {expr : Expr}

theorem RemovesItem.prunesItems
    {items items' : List Item} (h : RemovesItem pos name expr items items') :
    PrunesItems name items items' := by
  induction h with
  | @here items => exact .drop (.refl name items)
  | @later item items items' _ ih =>
      cases item with
      | declaration => exact .declaration ih
      | assignment => exact .assignment ih
      | ifThen pos guard body => exact .ifThen (.refl name body) ih
      | ifElse pos guard body elsePos otherwise =>
          exact .ifElse (.refl name body) (.refl name otherwise) ih
  | inThen _ ih => exact .ifThen ih (.refl name _)
  | inFirst _ ih => exact .ifElse ih (.refl name _) (.refl name _)
  | inSecond _ ih => exact .ifElse (.refl name _) ih (.refl name _)

theorem Removes.prunes
    {sheet sheet' : Sheet} (h : Removes pos name expr sheet sheet') :
    Prunes name sheet sheet' := by
  induction h with
  | @here sheet => exact .drop (.refl name sheet)
  | @later s sheet sheet' _ ih =>
      cases s with
      | assignment => exact .assignment ih
      | rule pos selectors body => exact .rule (.refl name body) ih
      | ifThen => exact .ifThen ih
      | ifElse => exact .ifElse ih
  | inRule h => exact .rule h.prunesItems (.refl name _)
  | inThen => exact .ifThen (.refl name _)
  | inFirst => exact .ifElse (.refl name _)
  | inSecond => exact .ifElse (.refl name _)

end Removes

/-! ## The tokens of an assignment -/

namespace Grammar

open Reading (Branches)

/-- The signs behind which an item may begin. -/
def stops : List TokenKind :=
  [.lbrace, .rbrace, .semicolon]

/-- An item may begin behind the tokens. -/
def EndsItem (us : List Token) : Prop :=
  ∀ t ∈ us.getLast?, t.kind ∈ stops

theorem endsItem_nil : EndsItem [] :=
  nofun

theorem endsItem_concat {us : List Token} {t : Token} (h : t.kind ∈ stops) :
    EndsItem (us ++ [t]) := by
  intro u hu
  rw [List.getLast?_concat, Option.mem_some_iff] at hu
  rwa [← hu]

theorem EndsItem.append {us vs : List Token} (hus : EndsItem us)
    (hvs : EndsItem vs) :
    EndsItem (us ++ vs) := by
  rcases List.eq_nil_or_concat vs with rfl | ⟨vs, t, rfl⟩
  · rwa [List.append_nil]
  · rw [List.concat_eq_append, ← List.append_assoc]
    exact endsItem_concat (hvs t (by simp))

theorem Binding.endsItem
    {sign : TokenKind} {ts : List Token} {name : Token} {e : Expr}
    (h : Binding sign ts name e) :
    EndsItem ts := by
  cases h with
  | intro _ _ _ hsemicolon =>
      exact endsItem_concat (by simp [stops, hsemicolon])

theorem Block.endsItem_append
    {bs : List Token} {body : List Item} (h : Block bs body)
    (front : List Token) :
    EndsItem (front ++ bs) := by
  cases h with
  | intro _ _ hclosing =>
      rw [← List.append_assoc]
      exact endsItem_concat (by simp [stops, hclosing])

theorem IfClause.endsItem
    {ts : List Token} {word : Token} {b : Branches} (h : IfClause ts word b) :
    EndsItem ts := by
  cases h with
  | @ifThen word opening closing gs bs guard body _ _ _ _ hbody =>
      have hends := hbody.endsItem_append (word :: opening :: gs ++ [closing])
      rwa [List.append_assoc] at hends
  | @ifElse word opening closing other gs bs os guard body otherwise _ _ _ _ _ _
      helse =>
      have hends :=
        helse.endsItem_append
          (word :: opening :: gs ++ closing :: bs ++ [other])
      rwa [List.append_assoc] at hends

theorem BodyItem.endsItem {ts : List Token} {item : Item}
    (h : BodyItem ts item) :
    EndsItem ts := by
  cases h with
  | declaration h => exact h.endsItem
  | assignment h => exact h.endsItem
  | conditional h => exact h.endsItem

theorem TopItem.endsItem {ts : List Token} {s : Statement} (h : TopItem ts s) :
    EndsItem ts := by
  cases h with
  | assignment h => exact h.endsItem
  | @rule ts _ _ _ _ _ hbody => exact hbody.endsItem_append ts
  | conditional h => exact h.endsItem

theorem BodyItem.ifClause
    {ts : List Token} {pos : Position} {b : Branches}
    (h : BodyItem ts (b.item pos)) :
    ∃ word, word.pos = pos ∧ IfClause ts word b := by
  generalize hitem : b.item pos = item at h
  obtain ⟨guard, body, _ | ⟨elsePos, otherwise⟩⟩ := b <;> cases h with
  | declaration => cases hitem
  | assignment => cases hitem
  | @conditional _ word b h =>
      obtain ⟨guard, body, _ | ⟨elsePos, otherwise⟩⟩ := b <;> cases hitem
      exact ⟨word, rfl, h⟩

theorem BodyItem.binding
    {ts : List Token} {pos : Position} {name : String} {e : Expr}
    (h : BodyItem ts (.assignment pos name e)) :
    ∃ t, Binding .assign ts t e ∧ t.pos = pos ∧ t.text = name := by
  generalize hitem : Item.assignment pos name e = item at h
  cases h with
  | declaration => cases hitem
  | @assignment _ t _ h =>
      cases hitem
      exact ⟨t, h, rfl, rfl⟩
  | @conditional _ _ b =>
      obtain ⟨guard, body, _ | ⟨elsePos, otherwise⟩⟩ := b <;> cases hitem

theorem TopItem.binding
    {ts : List Token} {pos : Position} {name : String} {e : Expr}
    (h : TopItem ts (.assignment pos name e)) :
    ∃ t, Binding .assign ts t e ∧ t.pos = pos ∧ t.text = name := by
  generalize hs : Statement.assignment pos name e = s at h
  cases h with
  | @assignment _ t _ h =>
      cases hs
      exact ⟨t, h, rfl, rfl⟩
  | rule => cases hs
  | @conditional _ _ b =>
      obtain ⟨guard, body, _ | ⟨elsePos, otherwise⟩⟩ := b <;> cases hs

/-- The tokens of an assignment are taken out at a place where an item may
begin. -/
def Cuts (pos : Position) (name : String) (expr : Expr)
    (ts ts' : List Token) : Prop :=
  ∃ us vs ws t, ts = us ++ (vs ++ ws) ∧ ts' = us ++ ws ∧ EndsItem us ∧
    Binding .assign vs t expr ∧ t.pos = pos ∧ t.text = name

section Cuts

variable {pos : Position} {name : String} {expr : Expr} {ts ts' : List Token}

theorem cuts_front
    (h : ∃ t, Binding .assign ts t expr ∧ t.pos = pos ∧ t.text = name)
    (back : List Token) :
    Cuts pos name expr (ts ++ back) back := by
  obtain ⟨t, hbinding⟩ := h
  exact ⟨[], ts, back, t, rfl, rfl, endsItem_nil, hbinding⟩

theorem Cuts.append_left
    (h : Cuts pos name expr ts ts') {front : List Token}
    (hfront : EndsItem front) :
    Cuts pos name expr (front ++ ts) (front ++ ts') := by
  obtain ⟨us, vs, ws, t, rfl, rfl, hus, hvs⟩ := h
  exact ⟨front ++ us, vs, ws, t, by rw [List.append_assoc],
    by rw [List.append_assoc], hfront.append hus, hvs⟩

theorem Cuts.append_right (h : Cuts pos name expr ts ts') (back : List Token) :
    Cuts pos name expr (ts ++ back) (ts' ++ back) := by
  obtain ⟨us, vs, ws, t, rfl, rfl, hus, hvs⟩ := h
  exact ⟨us, vs, ws ++ back, t, by simp only [List.append_assoc],
    by rw [List.append_assoc], hus, hvs⟩

/-- From all tokens of the first body an assignment can be taken out so that the
second is left. -/
def CutsBody (pos : Position) (name : String) (expr : Expr)
    (body body' : List Item) : Prop :=
  ∀ ts, Body ts body → ∃ ts', Cuts pos name expr ts ts' ∧ Body ts' body'

variable {body body' : List Item}

theorem CutsBody.block
    (h : CutsBody pos name expr body body') {bs : List Token}
    (hblock : Block bs body) :
    ∃ bs', (∀ front, Cuts pos name expr (front ++ bs) (front ++ bs')) ∧
      Block bs' body' := by
  cases hblock with
  | @intro opening closing ts _ hopening hbody hclosing =>
      obtain ⟨ts', hcuts, hbody'⟩ := h ts hbody
      refine ⟨opening :: ts' ++ [closing], fun front => ?_,
        .intro hopening hbody' hclosing⟩
      have hfront : EndsItem (front ++ [opening]) :=
        endsItem_concat (by simp [stops, hopening])
      have hwhole := (hcuts.append_left hfront).append_right [closing]
      simpa using hwhole

theorem CutsBody.first
    (h : CutsBody pos name expr body body') {word : Token} {guard : Expr}
    {otherwise : Option (Position × List Item)}
    (hclause : IfClause ts word ⟨guard, body, otherwise⟩) :
    ∃ ts', Cuts pos name expr ts ts' ∧
      IfClause ts' word ⟨guard, body', otherwise⟩ := by
  cases hclause with
  | @ifThen word opening closing gs bs guard body hword hopening hguard hclosing
      hbody =>
      obtain ⟨bs', hcuts, hbody'⟩ := h.block hbody
      refine ⟨word :: opening :: gs ++ closing :: bs', ?_,
        .ifThen hword hopening hguard hclosing hbody'⟩
      simpa using hcuts (word :: opening :: gs ++ [closing])
  | @ifElse word opening closing other gs bs os guard body otherwise hword
      hopening hguard hclosing hbody hother helse =>
      obtain ⟨bs', hcuts, hbody'⟩ := h.block hbody
      refine ⟨word :: opening :: gs ++ closing :: bs' ++ other :: os, ?_,
        .ifElse hword hopening hguard hclosing hbody' hother helse⟩
      have hwhole :=
        (hcuts (word :: opening :: gs ++ [closing])).append_right (other :: os)
      simpa using hwhole

theorem CutsBody.second
    {otherwise otherwise' : List Item}
    (h : CutsBody pos name expr otherwise otherwise') {word : Token}
    {guard : Expr} {elsePos : Position}
    (hclause : IfClause ts word ⟨guard, body, some (elsePos, otherwise)⟩) :
    ∃ ts', Cuts pos name expr ts ts' ∧
      IfClause ts' word ⟨guard, body, some (elsePos, otherwise')⟩ := by
  cases hclause with
  | @ifElse word opening closing other gs bs os guard body otherwise hword
      hopening hguard hclosing hbody hother helse =>
      obtain ⟨os', hcuts, helse'⟩ := h.block helse
      refine ⟨word :: opening :: gs ++ closing :: bs ++ other :: os', ?_,
        .ifElse hword hopening hguard hclosing hbody hother helse'⟩
      simpa using hcuts (word :: opening :: gs ++ closing :: bs ++ [other])

theorem Body.cuts_conditional
    {vs us : List Token} {word : Token} {b : Branches} {items : List Item}
    (hclause : ∃ vs', Cuts pos name expr vs vs' ∧ IfClause vs' word b)
    (hitems : Body us items) :
    ∃ ts', Cuts pos name expr (vs ++ us) ts' ∧
      Body ts' (b.item word.pos :: items) := by
  obtain ⟨vs', hcuts, hclause⟩ := hclause
  exact ⟨vs' ++ us, hcuts.append_right us, .cons (.conditional hclause) hitems⟩

/-- Whatever tokens a list of items has, those of the assignment are among
them. -/
theorem cutsBody_of_removes
    {items items' : List Item} (h : RemovesItem pos name expr items items') :
    CutsBody pos name expr items items' := by
  induction h with
  | here =>
      intro ts hbody
      cases hbody with
      | @cons vs us _ items hitem hitems =>
          exact ⟨us, cuts_front hitem.binding us, hitems⟩
  | later _ ih =>
      intro ts hbody
      cases hbody with
      | @cons vs us item items hitem hitems =>
          obtain ⟨us', hcuts, hitems'⟩ := ih us hitems
          exact ⟨vs ++ us', hcuts.append_left hitem.endsItem,
            .cons hitem hitems'⟩
  | @inThen ifPos guard body body' items _ ih =>
      intro ts hbody
      cases hbody with
      | cons hitem hitems =>
          obtain ⟨word, rfl, hclause⟩ :=
            BodyItem.ifClause (b := ⟨guard, body, none⟩) hitem
          exact Body.cuts_conditional (ih.first hclause) hitems
  | @inFirst ifPos elsePos guard body body' otherwise items _ ih =>
      intro ts hbody
      cases hbody with
      | cons hitem hitems =>
          obtain ⟨word, rfl, hclause⟩ :=
            BodyItem.ifClause
              (b := ⟨guard, body, some (elsePos, otherwise)⟩) hitem
          exact Body.cuts_conditional (ih.first hclause) hitems
  | @inSecond ifPos elsePos guard body otherwise otherwise' items _ ih =>
      intro ts hbody
      cases hbody with
      | cons hitem hitems =>
          obtain ⟨word, rfl, hclause⟩ :=
            BodyItem.ifClause
              (b := ⟨guard, body, some (elsePos, otherwise)⟩) hitem
          exact Body.cuts_conditional (ih.second hclause) hitems

theorem WholeSheet.cuts_conditional
    {vs us : List Token} {word : Token} {b : Branches} {sheet : Sheet}
    (hclause : ∃ vs', Cuts pos name expr vs vs' ∧ IfClause vs' word b)
    (hsheet : WholeSheet us sheet) :
    ∃ ts', Cuts pos name expr (vs ++ us) ts' ∧
      WholeSheet ts' (b.statement word.pos :: sheet) := by
  obtain ⟨vs', hcuts, hclause⟩ := hclause
  exact ⟨vs' ++ us, hcuts.append_right us, .cons (.conditional hclause) hsheet⟩

/-- Whatever tokens a sheet has, those of the assignment are among them. -/
theorem WholeSheet.exists_cuts
    {sheet sheet' : Sheet} (hsheet : WholeSheet ts sheet)
    (h : Removes pos name expr sheet sheet') :
    ∃ ts', Cuts pos name expr ts ts' ∧ WholeSheet ts' sheet' := by
  induction h generalizing ts with
  | here =>
      cases hsheet with
      | @cons vs us _ sheet hitem hsheet =>
          exact ⟨us, cuts_front hitem.binding us, hsheet⟩
  | later _ ih =>
      cases hsheet with
      | @cons vs us s sheet hitem hsheet =>
          obtain ⟨us', hcuts, hsheet'⟩ := ih hsheet
          exact ⟨vs ++ us', hcuts.append_left hitem.endsItem,
            .cons hitem hsheet'⟩
  | @inRule rulePos selectors body body' sheet h =>
      cases hsheet with
      | @cons vs us _ _ hitem hsheet =>
          generalize hrule : Statement.rule rulePos selectors body = s at hitem
          cases hitem with
          | assignment => cases hrule
          | @rule ts bs first selectors body hselectors hblock =>
              cases hrule
              obtain ⟨bs', hcuts, hblock'⟩ :=
                (cutsBody_of_removes h).block hblock
              exact ⟨ts ++ bs' ++ us, (hcuts ts).append_right us,
                .cons (.rule hselectors hblock') hsheet⟩
          | @conditional _ _ b =>
              obtain ⟨guard, body, _ | ⟨elsePos, otherwise⟩⟩ := b <;>
                cases hrule
  | @inThen ifPos guard body body' sheet h =>
      cases hsheet with
      | cons hitem hsheet =>
          obtain ⟨word, rfl, hclause⟩ :=
            TopItem.ifClause (b := ⟨guard, body, none⟩) hitem
          exact WholeSheet.cuts_conditional
            ((cutsBody_of_removes h).first hclause) hsheet
  | @inFirst ifPos elsePos guard body body' otherwise sheet h =>
      cases hsheet with
      | cons hitem hsheet =>
          obtain ⟨word, rfl, hclause⟩ :=
            TopItem.ifClause
              (b := ⟨guard, body, some (elsePos, otherwise)⟩) hitem
          exact WholeSheet.cuts_conditional
            ((cutsBody_of_removes h).first hclause) hsheet
  | @inSecond ifPos elsePos guard body otherwise otherwise' sheet h =>
      cases hsheet with
      | cons hitem hsheet =>
          obtain ⟨word, rfl, hclause⟩ :=
            TopItem.ifClause
              (b := ⟨guard, body, some (elsePos, otherwise)⟩) hitem
          exact WholeSheet.cuts_conditional
            ((cutsBody_of_removes h).second hclause) hsheet

end Cuts

end Grammar

/-! ## The text of an assignment -/

namespace Scan

open Grammar (stops EndsItem)

theorem sign_of_stop
    {kind : TokenKind} {text : List Char} (h : Lexeme kind text)
    (hkind : kind ∈ stops) :
    ∃ c, text = [c] ∧ (c, kind) ∈ signs ∧ c ≠ ':' ∧ Ends [c] := by
  have hall : ∀ s ∈ signs, s.2 ∈ stops → s.1 ≠ ':' ∧ Ends [s.1] := by decide
  cases h with
  | @sign c kind h => exact ⟨c, rfl, h, hall _ h hkind⟩
  | word =>
      have hwords : ∀ kind ∈ [TokenKind.ifWord, .elseWord, .trueWord,
          .falseWord, .capitalIdent, .ident], kind ∉ stops := by decide
      exact absurd hkind (hwords _ (ofWord_mem _))
  | _ => exact absurd hkind (by decide)

/-- A sign that ends an item is told without what follows it. -/
theorem Cursor.exists_sign
    {cs : List Char} {p : Position} {vs : List Token} {stop : Token}
    (hstop : stop.kind ∈ stops) (h : tokens ⟨p, cs⟩ = stop :: vs) :
    ∃ front back, cs = front ++ back ∧ tokens ⟨p.after front, back⟩ = vs ∧
      ∀ other, Ends (front ++ other) ∧
        words (front ++ other) = stop.unplaced :: words other := by
  rcases tokens_cases cs with hnone | ⟨gap, c, rest, rfl, hgap, hcs, hnul⟩
  · rw [hnone] at h
    have heof : stop.kind = .eof :=
      (congrArg Token.kind (List.cons.inj h).1).symm
    rw [heof] at hstop
    exact absurd hstop (by decide)
  rw [tokens_cons hgap hcs hnul] at h
  obtain ⟨rfl, htokens⟩ := List.cons.inj h
  obtain ⟨d, hd, hsign, hcolon, hends⟩ :=
    sign_of_stop (lexeme_sound (layout_eq_nil_iff.mp hcs).1 hnul rest) hstop
  obtain ⟨rfl, htail⟩ := List.cons.inj hd
  rw [htail] at htokens
  refine ⟨gap ++ [c], rest, by simp, ?_, fun other => ?_⟩
  · rw [Position.after_append]
    exact htokens
  · rw [List.append_assoc, List.singleton_append, words_layout hgap,
      words_sign hsign hcolon, htail]
    exact ⟨hgap.ends_append (ends_cons.mpr (ends_cons.mp hends)), rfl⟩

/-- Behind a sign that ends an item, the source is read as if it began there. -/
theorem Cursor.exists_text_of_stop
    {cs : List Char} {p : Position} {us vs : List Token} {stop : Token}
    (hstop : stop.kind ∈ stops) (h : tokens ⟨p, cs⟩ = us ++ stop :: vs) :
    ∃ text rest, cs = text ++ rest ∧ tokens ⟨p.after text, rest⟩ = vs ∧
      ∀ other, words (text ++ other) = (us ++ [stop]).map Token.unplaced
        ++ words other := by
  obtain ⟨text, gap, rest, rfl, -, hreads, hbehind, -⟩ := exists_split h
  obtain ⟨front, back, hsplit, hback, hfront⟩ := exists_sign hstop hbehind
  refine ⟨text ++ front, back, by rw [hsplit, List.append_assoc], ?_,
    fun other => ?_⟩
  · rw [Position.after_append, hback]
  · obtain ⟨hends, hwords⟩ := hfront other
    rw [List.append_assoc, hreads.words_append _ hends, hwords, List.map_append,
      List.append_assoc]
    rfl

theorem Cursor.exists_text_of_endsItem
    {cs : List Char} {p : Position} {us vs : List Token} (hus : EndsItem us)
    (h : tokens ⟨p, cs⟩ = us ++ vs) :
    ∃ text rest, cs = text ++ rest ∧ tokens ⟨p.after text, rest⟩ = vs ∧
      ∀ other, words (text ++ other) = us.map Token.unplaced
        ++ words other := by
  rcases List.eq_nil_or_concat us with rfl | ⟨us, stop, rfl⟩
  · exact ⟨[], cs, rfl, h, fun _ => rfl⟩
  · rw [List.concat_eq_append] at h hus ⊢
    rw [List.append_assoc] at h
    exact exists_text_of_stop (hus stop (by simp)) h

/-- A run of tokens between two places where an item may begin is read from a
text of its own, which can be cut out. -/
theorem Cursor.exists_cut
    {cs : List Char} {p : Position} {us vs ws : List Token} {t : Token}
    (hus : EndsItem us) (hvs : EndsItem (t :: vs)) (hkind : t.kind ≠ .eof)
    (h : tokens ⟨p, cs⟩ = us ++ (t :: vs ++ ws)) :
    ∃ front text back, cs = front ++ text ++ back ∧ p.after front = t.pos ∧
      words text = (t :: vs).map Token.unplaced ++ [.nowhere] ∧
      words (front ++ back) = (us ++ ws).map Token.unplaced := by
  obtain ⟨before, rest, rfl, hrest, hbefore⟩ := exists_text_of_endsItem hus h
  rcases tokens_cases rest with hnone | ⟨gap, c, rest, rfl, hgap, hcs, hnul⟩
  · rw [hnone] at hrest
    exact absurd (congrArg Token.kind (List.cons.inj hrest).1).symm hkind
  have hpos : p.after (before ++ gap) = t.pos := by
    have hfirst :=
      (List.cons.inj ((tokens_cons hgap hcs hnul _).symm.trans hrest)).1
    rw [Position.after_append, ← hfirst]
  rw [tokens_layout hgap, ← Position.after_append] at hrest
  obtain ⟨text, back, hsplit, hback, htext⟩ := exists_text_of_endsItem hvs hrest
  refine ⟨before ++ gap, text, back, ?_, hpos, ?_, ?_⟩
  · rw [hsplit]
    simp only [List.append_assoc]
  · have halone := htext []
    rwa [List.append_nil, words_nil] at halone
  · rw [List.append_assoc, hbefore, words_layout hgap, words_eq_of_tokens hback,
      List.map_append]

end Scan

/-! ## Sources with an assignment less -/

open Grammar Scan

/-- The source is read without a fault, and as the sheet but for the places. -/
def ReadAs (source : List Char) (sheet : Sheet) : Prop :=
  (parse source).moved unplaced = (⟨sheet, []⟩ : Parsed).moved unplaced

theorem readAs_of_words
    {source : List Char} {ts : List Token} {last : Token} {sheet : Sheet}
    (hsheet : WholeSheet ts sheet) (hlast : last.kind = .eof)
    (hwords : words source = (ts ++ [last]).map Token.unplaced) :
    ReadAs source sheet := by
  have hread := (hsheet.read hlast).2
  have hmoved := Reading.statements_moved (g := unplaced) rfl (ts ++ [last])
  rw [hread] at hmoved
  have hparse := parse_unplaced source
  rw [hwords] at hparse
  exact hparse.trans (congrArg (fun r => (⟨r.value, r.faults⟩ : Parsed)) hmoved)

/-- A source that is read as a sheet compiles to what the sheet does. -/
theorem ReadAs.compile
    {source : List Char} {sheet : Sheet} {css : String}
    (h : ReadAs source sheet)
    (hsheet : (⟨sheet, []⟩ : Parsed).outcome = ([], css)) :
    (compile source).diagnostics = [] ∧ (compile source).css = css := by
  have houtcome := congrArg Parsed.outcome h
  rw [Parsed.outcome_moved, Parsed.outcome_moved, ← compile_eq_outcome, hsheet,
    Prod.mk.injEq]
    at houtcome
  exact ⟨List.map_eq_nil_iff.mp houtcome.1, houtcome.2⟩

/-- The text of an assignment can be cut out of a source. -/
theorem exists_cut_of_removes
    {source : List Char} (h : (parse source).diagnostics = []) {pos : Position}
    {name : String} {expr : Expr} {sheet : Sheet}
    (hremoves : Removes pos name expr (parse source).sheet sheet) :
    ∃ front text back, source = front ++ text ++ back ∧
      Position.start.after front = pos ∧
      ReadAs text [.assignment pos name expr] ∧
      ReadAs (front ++ back) sheet := by
  obtain ⟨body, last, hscan, -, hlast⟩ := (Cursor.start source).tokens_eq
  obtain ⟨body', ⟨us, vs, ws, t, rfl, rfl, hus, hbinding, rfl, rfl⟩, hsheet⟩ :=
    (wholeSheet_of_parse h hscan).exists_cuts hremoves
  have hassignment : WholeSheet (vs ++ []) [.assignment t.pos t.text expr] :=
    .cons (.assignment hbinding) .nil
  obtain ⟨vs, rfl, hkind⟩ : ∃ vs', vs = t :: vs' ∧ t.kind ≠ .eof := by
    cases hbinding with
    | intro hname =>
        exact ⟨_, rfl, by rcases hname with hname | hname <;> simp [hname]⟩
  have htokens : Cursor.tokens ⟨.start, source⟩ = us
      ++ (t :: vs ++ (ws ++ [last])) := by
    have happend : us ++ (t :: vs ++ ws) ++ [last] = us
        ++ (t :: vs ++ (ws ++ [last])) := by simp
    rw [← happend]
    exact hscan
  obtain ⟨front, text, back, hsource, hpos, htext, hrest⟩ :=
    Cursor.exists_cut hus hbinding.endsItem hkind htokens
  refine ⟨front, text, back, hsource, hpos, ?_, ?_⟩
  · rw [List.append_nil] at hassignment
    have heof : Token.nowhere.kind = .eof := rfl
    refine readAs_of_words hassignment heof ?_
    rw [htext, List.map_append]
    rfl
  · refine readAs_of_words hsheet hlast ?_
    rw [hrest, List.append_assoc]

/-- The remark that a variable is never used is right: an assignment that it is
made on can be cut out of the source, from its name up to its semicolon, and
what is left still compiles, to the same CSS.  So does every other source that
is read as the sheet without the assignment. -/
theorem unused_assignment_removable
    {source : List Char} (h : (compile source).diagnostics = [])
    {pos : Position} {name : String}
    (hunused : .warning pos (Lint.Remark.unused name).message ∈ lint source)
    {expr : Expr} {sheet : Sheet}
    (hremoves : Removes pos name expr (parse source).sheet sheet) :
    (∃ front text back, source = front ++ text ++ back ∧
      Position.start.after front = pos ∧
      ReadAs text [.assignment pos name expr] ∧ ReadAs (front ++ back) sheet ∧
      (compile (front ++ back)).diagnostics = [] ∧
      (compile (front ++ back)).css = (compile source).css) ∧
    ∀ rest, ReadAs rest sheet →
      (compile rest).diagnostics = [] ∧
        (compile rest).css = (compile source).css := by
  have hread : (parse source).diagnostics = [] :=
    (check_eq_nil_iff.mp (compile_of_diagnostics_eq_nil h).1).1
  rw [lint_of_parse hread] at hunused
  have houtcome :=
    outcome_of_prunes h hremoves.prunes (Lint.notMem_namesOf_of_remark hunused)
  obtain ⟨front, text, back, hsource, hpos, htext, hrest⟩ :=
    exists_cut_of_removes hread hremoves
  exact ⟨⟨front, text, back, hsource, hpos, htext, hrest,
    hrest.compile houtcome⟩,
    fun rest hrest => hrest.compile houtcome⟩

/-- One of three assignments to an unused variable, in a branch inside a
rule. -/
theorem unused_assignment_removable_from_branch :
    let source :=
      ("A := 1px;\np \x7b if [TRUE] \x7b B := A * 2;/**/B := 3; width: A; \x7d "
        ++ "else \x7b B := 4; \x7d \x7d").toList
    (compile source).diagnostics = [] ∧
      .warning ⟨2, 17⟩ "variable 'B' is assigned but never used" ∈ lint source ∧
      ∃ front text back, source = front ++ text ++ back ∧
        Position.start.after front = ⟨2, 17⟩ ∧
        (compile (front ++ back)).diagnostics = [] ∧
        (compile (front ++ back)).css = "p \x7b\n  width: 1px;\n\x7d\n" := by
  intro source
  have hsilent : (compile source).diagnostics = [] := by decide +kernel
  have hcss : (compile source).css = "p \x7b\n  width: 1px;\n\x7d\n" := by
    decide +kernel
  have hunused :
      .warning ⟨2, 17⟩ (Lint.Remark.unused "B").message ∈ lint source := by
    decide +kernel
  obtain ⟨expr, sheet, hremoves⟩ :
      ∃ expr sheet, Removes ⟨2, 17⟩ "B" expr (parse source).sheet sheet := by
    unfold source
    with_unfolding_all exact ⟨_, _, .later (.inRule (.inFirst .here))⟩
  obtain ⟨⟨front, text, back, hcut, hpos, -, -, hrest⟩, -⟩ :=
    unused_assignment_removable hsilent hunused hremoves
  rw [hcss] at hrest
  exact ⟨hsilent, hunused, front, text, back, hcut, hpos, hrest⟩

end Stylesheet
