import Stylesheet.Position

/-!
# Tokens

The words of the style language.  Each token keeps the text it was read from and
the place where that text begins.
-/

namespace Stylesheet

/-- The classes of tokens. -/
inductive TokenKind where
  | illegal
  | eof
  | ident
  | capitalIdent
  | classIdent
  | idIdent
  | pixelSize
  | percentage
  | scalar
  | color
  | ifWord
  | elseWord
  | trueWord
  | falseWord
  | plus
  | minus
  | star
  | assign
  | lbrace
  | rbrace
  | lbracket
  | rbracket
  | colon
  | semicolon
  | comma
  deriving DecidableEq, Inhabited

namespace TokenKind

/-- The classes in the order of their codes, which start at 0. -/
def all : List TokenKind :=
  [illegal, eof, ident, capitalIdent, classIdent, idIdent, pixelSize,
    percentage, scalar, color, ifWord, elseWord, trueWord, falseWord, plus,
    minus, star, assign, lbrace, rbrace, lbracket, rbracket, colon,
    semicolon, comma]

def ofCode? (code : Int) : Option TokenKind :=
  if code < 0 then none else all[code.toNat]?

/-- How messages call a token of this class: words and signs by their spelling,
other classes by a name. -/
def name : TokenKind → String
  | illegal => "ILLEGAL"
  | eof => "EOF"
  | ident => "IDENT"
  | capitalIdent => "CAPITAL_IDENT"
  | classIdent => "CLASS_IDENT"
  | idIdent => "ID_IDENT"
  | pixelSize => "PIXELSIZE"
  | percentage => "PERCENTAGE"
  | scalar => "SCALAR"
  | color => "COLOR"
  | ifWord => "if"
  | elseWord => "else"
  | trueWord => "TRUE"
  | falseWord => "FALSE"
  | plus => "+"
  | minus => "-"
  | star => "*"
  | assign => ":="
  | lbrace => "\x7b"
  | rbrace => "\x7d"
  | lbracket => "["
  | rbracket => "]"
  | colon => ":"
  | semicolon => ";"
  | comma => ","

/-- The name of the class with the given code; a code of no class is shown as a
number. -/
def nameOfCode (code : Int) : String :=
  match ofCode? code with
  | some kind => kind.name
  | none => "TokenType(" ++ toString code ++ ")"

/-- The class of a word: a keyword, a capitalised name or a plain name. -/
def ofWord (word : List Char) : TokenKind :=
  if word = ['i', 'f'] then ifWord
  else if word = ['e', 'l', 's', 'e'] then elseWord
  else if word = ['T', 'R', 'U', 'E'] then trueWord
  else if word = ['F', 'A', 'L', 'S', 'E'] then falseWord
  else match word with
    | c :: _ => if c.isUpper then capitalIdent else ident
    | [] => ident

end TokenKind

/-- A token: its class, its text and the place where the text begins. -/
structure Token where
  kind : TokenKind
  text : String
  pos : Position
  deriving DecidableEq, Inhabited

namespace Token

/-- What is read behind the last token of a list. -/
def nowhere : Token := ⟨.eof, "", ⟨0, 0⟩⟩

/-- How messages call a token: by its class, and by its text too when the class
leaves the text open. -/
def describe (t : Token) : String :=
  match t.kind with
  | .illegal | .ident | .capitalIdent => t.kind.name ++ " '" ++ t.text ++ "'"
  | kind => kind.name

end Token
end Stylesheet
