import Stylesheet.Sheet.Parse

/-!
# The grammar of the style language

Which lists of tokens are expressions, bodies and whole sheets, and what each of
them stands for.  Sums and products group to the left, products bind tighter,
and every part keeps the place of the token that the syntax names: an operation
that of its sign, all others that of their first token.
-/

namespace Stylesheet.Grammar

open Reading (Branches)

/-! ## Numerals -/

/-- The number that decimal digits stand for, each counting by its place. -/
def valueOf : List Char → Nat
  | [] => 0
  | d :: digits =>
      (d.toNat - '0'.toNat) * Nat.pow 10 digits.length + valueOf digits

/-- The largest number that a numeral may stand for. -/
def largestNumber : Nat := 9223372036854775807

/-- The token is spelled with the digits of the number, and perhaps a unit
behind them. -/
def Numeral (t : Token) (n : Int64) : Prop :=
  ∃ digits unit, t.text.toList = digits ++ unit ∧
    (∀ d ∈ digits, d.isDigit = true) ∧
    (∀ c ∈ unit.head?, c.isDigit = false) ∧ valueOf digits ≤ largestNumber ∧
      n.toInt = valueOf digits

/-! ## Expressions -/

def IsName (t : Token) : Prop :=
  t.kind = .ident ∨ t.kind = .capitalIdent

/-- An operand is a literal or a name; names that spell a truth value stand for
it. -/
inductive Atom : List Token → Expr → Prop
  | pixel {t : Token} {n : Int64} (hkind : t.kind = .pixelSize)
      (hnumber : Numeral t n) :
      Atom [t] (.literal t.pos (.pixel n))
  | percentage {t : Token} {n : Int64} (hkind : t.kind = .percentage)
      (hnumber : Numeral t n) :
      Atom [t] (.literal t.pos (.percentage n))
  | scalar {t : Token} {n : Int64} (hkind : t.kind = .scalar)
      (hnumber : Numeral t n) :
      Atom [t] (.literal t.pos (.scalar n))
  | color {t : Token} (hkind : t.kind = .color) : Atom [t]
      (.literal t.pos (.color t.text))
  | trueWord {t : Token} (hkind : t.kind = .trueWord) : Atom [t]
      (.literal t.pos (.bool true))
  | falseWord {t : Token} (hkind : t.kind = .falseWord) : Atom [t]
      (.literal t.pos (.bool false))
  | trueName {t : Token} (hname : IsName t)
      (htrue : Text.lowercase t.text = "true") :
      Atom [t] (.literal t.pos (.bool true))
  | falseName {t : Token} (hname : IsName t)
      (hfalse : Text.lowercase t.text = "false") :
      Atom [t] (.literal t.pos (.bool false))
  | reference {t : Token} (hname : IsName t)
      (htrue : Text.lowercase t.text ≠ "true")
      (hfalse : Text.lowercase t.text ≠ "false") : Atom [t]
      (.reference t.pos t.text)

inductive Term : List Token → Expr → Prop
  | atom {ts : List Token} {e : Expr} (h : Atom ts e) : Term ts e
  | product {ts us : List Token} {sign : Token} {l r : Expr} (hl : Term ts l)
      (hsign : sign.kind = .star) (hr : Atom us r) :
      Term (ts ++ sign :: us) (.operation sign.pos .multiply l r)

inductive Expression : List Token → Expr → Prop
  | term {ts : List Token} {e : Expr} (h : Term ts e) : Expression ts e
  | sum {ts us : List Token} {sign : Token} {l r : Expr} (hl : Expression ts l)
      (hsign : sign.kind = .plus) (hr : Term us r) :
      Expression (ts ++ sign :: us) (.operation sign.pos .add l r)
  | difference {ts us : List Token} {sign : Token} {l r : Expr}
      (hl : Expression ts l) (hsign : sign.kind = .minus) (hr : Term us r) :
      Expression (ts ++ sign :: us) (.operation sign.pos .subtract l r)

/-! ## Bodies -/

/-- A name, the given sign, an expression and a semicolon. -/
inductive Binding (sign : TokenKind) : List Token → Token → Expr → Prop
  | intro {name mark semicolon : Token} {ts : List Token} {e : Expr}
      (hname : IsName name) (hmark : mark.kind = sign) (hexpr : Expression ts e)
      (hsemicolon : semicolon.kind = .semicolon) :
      Binding sign (name :: mark :: ts ++ [semicolon]) name e

mutual

/-- A body between braces. -/
inductive Block : List Token → List Item → Prop
  | intro {opening closing : Token} {ts : List Token} {items : List Item}
      (hopening : opening.kind = .lbrace) (hbody : Body ts items)
      (hclosing : closing.kind = .rbrace) : Block
        (opening :: ts ++ [closing]) items

/-- A conditional, with its first word. -/
inductive IfClause : List Token → Token → Branches → Prop
  | ifThen {word opening closing : Token} {gs bs : List Token} {guard : Expr}
      {body : List Item} (hword : word.kind = .ifWord)
      (hopening : opening.kind = .lbracket)
      (hguard : Expression gs guard) (hclosing : closing.kind = .rbracket)
      (hbody : Block bs body) :
      IfClause (word :: opening :: gs ++ closing :: bs) word ⟨guard, body, none⟩
  | ifElse {word opening closing other : Token} {gs bs os : List Token}
      {guard : Expr} {body otherwise : List Item}
      (hword : word.kind = .ifWord) (hopening : opening.kind = .lbracket)
      (hguard : Expression gs guard) (hclosing : closing.kind = .rbracket)
      (hbody : Block bs body) (hother : other.kind = .elseWord)
      (hotherwise : Block os otherwise) :
      IfClause (word :: opening :: gs ++ closing :: bs ++ other :: os) word
        ⟨guard, body, some (other.pos, otherwise)⟩

inductive BodyItem : List Token → Item → Prop
  | declaration {ts : List Token} {name : Token} {e : Expr}
      (h : Binding .colon ts name e) :
      BodyItem ts (.declaration name.pos name.text e)
  | assignment {ts : List Token} {name : Token} {e : Expr}
      (h : Binding .assign ts name e) :
      BodyItem ts (.assignment name.pos name.text e)
  | conditional {ts : List Token} {word : Token} {branches : Branches}
      (h : IfClause ts word branches) : BodyItem ts (branches.item word.pos)

inductive Body : List Token → List Item → Prop
  | nil : Body [] []
  | cons {ts us : List Token} {item : Item} {items : List Item}
      (hitem : BodyItem ts item) (hitems : Body us items) : Body (ts ++ us)
      (item :: items)

end

/-! ## Sheets -/

def IsSelector (t : Token) : Prop :=
  t.kind = .ident ∨ t.kind = .classIdent ∨ t.kind = .idIdent

/-- Selectors, which are kept in lower case, with commas between them. -/
inductive Selectors : List Token → List Selector → Prop
  | single {t : Token} (h : IsSelector t) : Selectors [t]
      [⟨t.pos, Text.lowercase t.text⟩]
  | cons {t comma : Token} {ts : List Token} {selectors : List Selector}
      (h : IsSelector t) (hcomma : comma.kind = .comma)
      (hmore : Selectors ts selectors) :
      Selectors (t :: comma :: ts) (⟨t.pos, Text.lowercase t.text⟩ :: selectors)

inductive TopItem : List Token → Statement → Prop
  | assignment {ts : List Token} {name : Token} {e : Expr}
      (h : Binding .assign ts name e) :
      TopItem ts (.assignment name.pos name.text e)
  | rule {ts bs : List Token} {first : Selector} {selectors : List Selector}
      {body : List Item} (hselectors : Selectors ts (first :: selectors))
      (hbody : Block bs body) :
      TopItem (ts ++ bs) (.rule first.pos (first :: selectors) body)
  | conditional {ts : List Token} {word : Token} {branches : Branches}
      (h : IfClause ts word branches) : TopItem ts (branches.statement word.pos)

/-- The tokens of a whole sheet, without the end of input. -/
inductive WholeSheet : List Token → Sheet → Prop
  | nil : WholeSheet [] []
  | cons {ts us : List Token} {statement : Statement} {sheet : Sheet}
      (hstatement : TopItem ts statement) (hsheet : WholeSheet us sheet) :
      WholeSheet (ts ++ us) (statement :: sheet)

end Stylesheet.Grammar
