import Stylesheet.Command.Script
import Stylesheet.Session
import Stylesheet.Text.Blank
import Stylesheet.Text.Lines

/-!
# The interactive loop

Entries are read line by line until their braces are closed, and then added to a
session.  Entries are kept in a history, which is read from a file at the start
and written back at the end.  Lines and entries are bytes: a line that is too
long to be read at once may be cut inside a character.
-/

namespace Stylesheet.Command

/-- The entries so far, the latest first. -/
abbrev History := List (List Char)

namespace History

/-- How many entries are kept. -/
def limit : Nat := 1000

/-- The file in the home directory that holds the history. -/
def file : String := ".icssc_history"

/-- Whether a line can be an entry of a history that is read from a file. -/
def admits (line : Text.Line) : Bool :=
  line.complete && isText line.bytes

/-- The history that a file holds, one entry on a line, up to the first line
that can be none. -/
def ofBytes (bytes : List Char) : History :=
  ((((Text.lines bytes).takeWhile admits).map (·.bytes)).reverse).take limit

/-- Adds an entry, unless it repeats the latest one. -/
def insert (entry : List Char) (h : History) : History :=
  if h.head? = some entry then h else (entry :: h).take limit

/-- The bytes of a file that holds the history. -/
def bytes (h : History) : List Char :=
  h.reverse.flatMap (· ++ ['\n'])

end History

/-- The loop between two lines: `pending` holds the lines of an entry that is
not complete. -/
structure Repl where
  session : Session
  history : History
  pending : List Char

namespace Repl

def banner : String :=
  "icssc repl - type ICSS, :reset to start over, :quit to exit\n"

/-- What is printed before a line is read. -/
def prompt (r : Repl) : String :=
  if r.pending = [] then "icss> " else "....  "

/-- An entry on one line. -/
def oneLine (entry : List Char) : List Char :=
  entry.map fun c => if c = '\n' then ' ' else c

/-- What a line does to the loop: its next state, what it prints, and whether it
ends. -/
structure Reply where
  next : Repl
  stdout : String
  stderr : String
  quits : Bool

/-- Adds a complete entry to the session. -/
def submit (r : Repl) (entry : List Char) : Reply :=
  let history := r.history.insert (oneLine entry)
  match r.session.extend entry with
  | .ok (css, session) => ⟨⟨session, history, []⟩, css, "", false⟩
  | .error diagnostics =>
      ⟨⟨r.session, history, []⟩, "", diagnostics.report "repl" ++ "\n", false⟩

/-- Takes in one line. -/
def feed (r : Repl) (line : List Char) : Reply :=
  let entry := if r.pending = [] then line else r.pending ++ '\n' :: line
  if braceDepth entry > 0 then ⟨{ r with pending := entry }, "", "", false⟩
  else match Text.trim (textOf entry) with
    | "" => ⟨{ r with pending := [] }, "", "", false⟩
    | ":quit" => ⟨{ r with pending := [] }, "", "", true⟩
    | ":reset" => ⟨⟨.empty, r.history, []⟩, "", "", false⟩
    | _ => r.submit entry

/-- What the loop leaves behind: its last state, and what it printed on each
stream. -/
structure Transcript where
  last : Repl
  stdout : String
  stderr : String

/-- Takes in the lines of the input, and ends with them. -/
def feedAll (r : Repl) : List (List Char) → Transcript
  | [] => ⟨r, r.prompt ++ "\n", ""⟩
  | line :: lines =>
      let reply := r.feed line
      if reply.quits then ⟨reply.next, r.prompt ++ reply.stdout, reply.stderr⟩
      else
        let more := reply.next.feedAll lines
        ⟨more.last, r.prompt ++ reply.stdout ++ more.stdout,
          reply.stderr ++ more.stderr⟩

/-- The loop at its start, with the history that a file holds if there is
one. -/
def start (history : Option (List Char)) : Repl :=
  ⟨.empty, History.ofBytes (history.getD []), []⟩

/-- The whole loop on an input, in a directory that is also the home
directory. -/
def run (input : List Char) (d : Directory) : Outcome :=
  let t :=
    (start (d.read History.file).toOption).feedAll
      ((Text.lines input).map (·.bytes))
  let written := d.write History.file t.last.history.bytes
  ⟨0, banner ++ t.stdout, t.stderr, written.toOption.getD d⟩

end Repl
end Stylesheet.Command
