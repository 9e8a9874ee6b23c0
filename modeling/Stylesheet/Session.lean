import Stylesheet.Compile
import Stylesheet.Text.Split

/-!
# Sessions

A source that grows entry by entry.  An entry that does not compile after all
the earlier ones is forgotten; one that does adds its CSS to what is there.
-/

namespace Stylesheet

/-- What comes after the end of a comment, if it has one. -/
def afterComment? : List Char → Option (List Char)
  | [] => none
  | '*' :: '/' :: rest => some rest
  | _ :: rest => afterComment? rest

theorem afterComment?_length_le {cs rest : List Char}
    (h : afterComment? cs = some rest) :
    rest.length ≤ cs.length := by
  fun_induction afterComment? cs with
  | case1 => simp at h
  | case2 tail =>
      obtain rfl : tail = rest := by simpa using h
      simp only [List.length_cons]
      omega
  | case3 c tail _ ih => exact Nat.le_succ_of_le (ih h)

/-- How many braces are open at the end of a source, comments apart.  An open
comment counts as one more. -/
def braceDepth (source : List Char) : Int :=
  match source with
  | [] => 0
  | '/' :: '*' :: rest =>
      match h : afterComment? rest with
      | none => 1
      | some rest' =>
          have := afterComment?_length_le h
          braceDepth rest'
  | c :: rest =>
      (if c = '{' then 1 else if c = '}' then -1 else 0) + braceDepth rest
termination_by source.length

/-- The accepted entries so far, the CSS they compile to, and the number of
lines they take. -/
structure Session where
  source : List Char
  css : String
  lines : Nat

namespace Session

/-- A session without entries. -/
def empty : Session := ⟨[], "", 0⟩

/-- A diagnostic with its line counted from the start of the latest entry. -/
def relocate (s : Session) (d : Diagnostic) : Diagnostic :=
  if d.pos.line > s.lines then
    { d with pos := ⟨d.pos.line - s.lines, d.pos.column⟩ } else d

/-- Compiles the session with one more entry: what the entry adds to the CSS,
and the session with the entry, or what is wrong with it. -/
def extend (s : Session) (entry : List Char) :
    Except Diagnostics (String × Session) :=
  let source := s.source ++ entry ++ ['\n']
  let compiled := compile source
  if compiled.diagnostics.hasErrors then
    .error (compiled.diagnostics.map s.relocate)
  else
    .ok (Text.cutFront "\n" (Text.cutFront s.css compiled.css),
      ⟨source, compiled.css, s.lines + entry.count '\n' + 1⟩)

end Session
end Stylesheet
