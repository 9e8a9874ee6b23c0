import Stylesheet.Token

/-!
# Reading tokens

A source is a list of bytes, each shown as the character of that number.
Reading a token skips layout (blanks and comments) and then takes the longest
lexeme; a NUL byte ends the source as its end does.  Every part is described as
a run at the front of what is left to read, so nothing is lost and every
position is the place after the bytes read so far.
-/

namespace Stylesheet

namespace Scan

def isBlank (c : Char) : Bool :=
  c = ' ' || c = '\t' || c = '\n' || c = '\r'

/-- The characters of a name after a dot or a number sign. -/
def isNameChar (c : Char) : Bool :=
  c.isAlpha || c.isDigit || c = '-' || c = '_'

/-- The characters of a word; a dash is one only in a word that begins in lower
case. -/
def isWordChar (dash : Bool) (c : Char) : Bool :=
  c.isAlpha || c.isDigit || c = '_' || (dash && c = '-')

def isHexDigit (c : Char) : Bool :=
  c.isDigit || ('a' ≤ c && c ≤ 'f') || ('A' ≤ c && c ≤ 'F')

/-- What a comment holds after its opening sign, with its closing sign if it has
one.  The end of the source and a NUL byte end a comment too. -/
def commentTail : List Char → List Char
  | [] => []
  | '*' :: '/' :: _ => ['*', '/']
  | c :: cs => if c = '\x00' then [] else c :: commentTail cs

/-- The longest run of blanks and comments at the front. -/
def layout (cs : List Char) : List Char :=
  match cs with
  | [] => []
  | '/' :: '*' :: rest =>
      let body := commentTail rest
      '/' :: '*' :: (body ++ layout (rest.drop body.length))
  | c :: rest => if isBlank c then c :: layout rest else []
termination_by cs.length

/-- The lexeme that begins with a number sign. -/
def hashLexeme (cs : List Char) : TokenKind × List Char :=
  let name := cs.takeWhile isNameChar
  if name = [] then (.illegal, [])
  else if name.length = 6 && name.all isHexDigit then (.color, name)
  else (.idIdent, name)

/-- The lexeme that begins with a digit: a number with its unit. -/
def numberLexeme (cs : List Char) : TokenKind × List Char :=
  let digits := cs.takeWhile Char.isDigit
  match cs.dropWhile Char.isDigit with
  | 'p' :: 'x' :: _ => (.pixelSize, digits ++ ['p', 'x'])
  | '%' :: _ => (.percentage, digits ++ ['%'])
  | _ => (.scalar, digits)

/-- The class of the lexeme that begins with `c`, and the rest of its text,
taken from the front of `cs`. -/
def lexeme (c : Char) (cs : List Char) : TokenKind × List Char :=
  match c with
  | ':' =>
      match cs with
      | '=' :: _ => (.assign, ['='])
      | _ => (.colon, [])
  | '+' => (.plus, [])
  | '-' => (.minus, [])
  | '*' => (.star, [])
  | '{' => (.lbrace, [])
  | '}' => (.rbrace, [])
  | '[' => (.lbracket, [])
  | ']' => (.rbracket, [])
  | ';' => (.semicolon, [])
  | ',' => (.comma, [])
  | '.' =>
      let name := cs.takeWhile isNameChar
      if name = [] then (.illegal, []) else (.classIdent, name)
  | '#' => hashLexeme cs
  | _ =>
      if c.isAlpha then
        let tail := cs.takeWhile (isWordChar c.isLower)
        (.ofWord (c :: tail), tail)
      else if c.isDigit then numberLexeme cs
      else (.illegal, [])

/-- What is left to read, and the place where it begins. -/
structure Cursor where
  pos : Position
  rest : List Char

namespace Cursor

def start (source : List Char) : Cursor := ⟨.start, source⟩

/-- Reads the token that begins right here.  At the end of the source, and at a
NUL byte, it is the end token, and reading on is possible: the column moves all
the same. -/
def readHere (here : Position) : List Char → Token × Cursor
  | [] => (⟨.eof, "", here⟩, ⟨⟨here.line, here.column + 1⟩, []⟩)
  | c :: rest =>
      if c = '\x00' then (⟨.eof, "", here⟩, ⟨here.next c, rest⟩)
      else
        let tail := (lexeme c rest).2
        (⟨(lexeme c rest).1, String.ofList (c :: tail), here⟩,
          ⟨here.after (c :: tail), rest.drop tail.length⟩)

/-- Reads one token, behind the layout in front of it. -/
def next (cur : Cursor) : Token × Cursor :=
  let gap := layout cur.rest
  readHere (cur.pos.after gap) (cur.rest.drop gap.length)

theorem readHere_rest_length_lt {here : Position} {cs : List Char}
    (h : (readHere here cs).1.kind ≠ .eof) :
    (readHere here cs).2.rest.length < cs.length := by
  cases cs with
  | nil => simp [readHere] at h
  | cons c rest =>
      by_cases hnul : c = '\x00'
      · simp [readHere, hnul] at h
      · simp only [readHere, hnul, if_false, List.length_drop, List.length_cons]
        omega

theorem next_rest_length_lt {cur : Cursor} (h : cur.next.1.kind ≠ .eof) :
    cur.next.2.rest.length < cur.rest.length := by
  have hlt := readHere_rest_length_lt h
  simp only [List.length_drop] at hlt
  exact Nat.lt_of_lt_of_le hlt (Nat.sub_le _ _)

/-- Reads exactly `n` tokens, also beyond the end of the source. -/
def take : Nat → Cursor → List Token
  | 0, _ => []
  | n + 1, cur => cur.next.1 :: take n cur.next.2

/-- Reads tokens up to the first end token, which is the last of the list. -/
def tokens (cur : Cursor) : List Token :=
  if cur.next.1.kind = .eof then [cur.next.1]
    else cur.next.1 :: tokens cur.next.2
termination_by cur.rest.length
decreasing_by exact next_rest_length_lt ‹_›

end Cursor

/-- The tokens of a source. -/
def scan (source : List Char) : List Token :=
  (Cursor.start source).tokens

end Scan
end Stylesheet
