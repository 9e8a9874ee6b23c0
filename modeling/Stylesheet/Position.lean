/-!
# Positions

Places in a source, by line and column.  A source begins at line 1, column 1,
and columns count bytes.  Nodes made by hand may carry any integers.
-/

namespace Stylesheet

/-- A place in a source. -/
structure Position where
  line : Int
  column : Int
  deriving DecidableEq, Inhabited

namespace Position

/-- Where a source begins. -/
def start : Position := ⟨1, 1⟩

/-- The place after one byte: a newline opens the next line. -/
def next (p : Position) (c : Char) : Position :=
  if c = '\n' then ⟨p.line + 1, 1⟩ else ⟨p.line, p.column + 1⟩

/-- The place after a run of bytes. -/
def after (p : Position) (cs : List Char) : Position :=
  cs.foldl next p

/-- The text `line:column`. -/
def text (p : Position) : String :=
  toString p.line ++ ":" ++ toString p.column

end Position
end Stylesheet
