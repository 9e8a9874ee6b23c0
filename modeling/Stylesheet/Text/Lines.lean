/-!
# Lines

Input is read line by line, and no more than a fixed number of bytes at once: a
line that is longer comes in pieces.  A carriage return before a newline belongs
to the line ending.
-/

namespace Stylesheet.Text

/-- How many bytes are read at once, the newline included. -/
def lineLimit : Nat := 4096

/-- A line without its ending, or a piece of one. -/
structure Line where
  bytes : List Char
  /-- Whether this is the line up to its end, and not a piece that is followed
  by more. -/
  complete : Bool
  deriving DecidableEq

/-- A line without the carriage return at its end, if it has one. -/
def cutReturn (line : List Char) : List Char :=
  if line.getLast? = some '\r' then line.dropLast else line

theorem length_le_cutReturn_length_succ (line : List Char) :
    line.length ≤ (cutReturn line).length + 1 := by
  unfold cutReturn
  split
  · rw [List.length_dropLast]
    omega
  · omega

/-- The first line of what is left to read, and what follows it.  The last line
need not have an ending.  A piece does not end with a carriage return, since
that may be the start of an ending. -/
def nextLine (cs : List Char) : Line × List Char :=
  let body := (cs.take lineLimit).takeWhile (· ≠ '\n')
  if body.length = lineLimit then
    let piece := cutReturn body
    (⟨piece, false⟩, cs.drop piece.length)
  else match cs.drop body.length with
    | [] => (⟨body, true⟩, [])
    | _ :: rest => (⟨cutReturn body, true⟩, rest)

theorem nextLine_rest_length_lt {cs : List Char} (h : cs ≠ []) :
    (nextLine cs).2.length < cs.length := by
  have hpos : 0 < cs.length := List.length_pos_iff.mpr h
  simp only [nextLine]
  split
  · rename_i hfull
    have hpiece :=
      length_le_cutReturn_length_succ ((cs.take lineLimit).takeWhile (· ≠ '\n'))
    have hlimit : lineLimit = 4096 := rfl
    rw [hfull] at hpiece
    rw [List.length_drop]
    omega
  · split
    · exact hpos
    · rename_i hdrop
      have hlen := congrArg List.length hdrop
      simp only [List.length_drop, List.length_cons] at hlen
      simp only
      omega

/-- The lines of the input, and the pieces of those that are too long. -/
def lines (cs : List Char) : List Line :=
  match cs with
  | [] => []
  | c :: rest => (nextLine (c :: rest)).1 :: lines (nextLine (c :: rest)).2
termination_by cs.length
decreasing_by exact nextLine_rest_length_lt (List.cons_ne_nil c rest)

end Stylesheet.Text
