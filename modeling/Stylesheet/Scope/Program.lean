import Stylesheet.Scope

/-!
# Programs on a scope

Sequences of operations on one scope, some of which may fail.  A failure ends
the outermost step it happens in; the frames that the step's blocks opened are
closed all the same.
-/

namespace Stylesheet.Scope

/-- An operation on a scope. -/
inductive Step (α : Type) where
  | push
  | pop
  | define (name : String) (value : α)
  | lookup (name : String)
  | depth
  /-- Runs steps in a frame of their own. -/
  | scoped (steps : List (Step α))
  | fail (message : String)

/-- What a step answers.  The steps of a block answer together, each with the
depth after it. -/
inductive Answer (α : Type) where
  | done
  | found (value : Option α)
  | depth (n : Nat)
  | block (answers : List (Answer α × Nat))
  | failed (message : String)

/-- What is said when the global frame is to be closed. -/
def globalPopMessage : String := "scope: pop of global frame"

variable {α : Type}

/-- Closes the frame of a block that ended with `result`.  If there is no frame
left to close, that failure counts and not an earlier one. -/
def leave (result : Except String (List (Answer α × Nat))) (s : Scope α) :
    Except String (Answer α) × Scope α :=
  match s.pop? with
  | some outer => (result.map .block, outer)
  | none => (.error globalPopMessage, s)

mutual

/-- Runs one step. -/
def Step.run : Step α → Scope α → Except String (Answer α) × Scope α
  | .push, s => (.ok .done, s.push)
  | .pop, s =>
      match s.pop? with
      | some outer => (.ok .done, outer)
      | none => (.error globalPopMessage, s)
  | .define name value, s => (.ok .done, s.define name value)
  | .lookup name, s => (.ok (.found (s.lookup? name)), s)
  | .depth, s => (.ok (.depth s.depth), s)
  | .scoped steps, s =>
      let inside := runBlock steps s.push
      leave inside.1 inside.2
  | .fail message, s => (.error message, s)

/-- Runs the steps of a block up to the first failure. -/
def runBlock :
    List (Step α) → Scope α → Except String (List (Answer α × Nat)) × Scope α
  | [], s => (.ok [], s)
  | step :: steps, s =>
      let first := step.run s
      match first.1 with
      | .error message => (.error message, first.2)
      | .ok answer =>
          let more := runBlock steps first.2
          (more.1.map ((answer, first.2.depth) :: ·), more.2)

end

/-- Runs the steps of a program; a step that fails answers so, and the next one
goes on. -/
def runProgram : List (Step α) → Scope α → List (Answer α × Nat)
  | [], _ => []
  | step :: steps, s =>
      let first := step.run s
      let answer := match first.1 with
        | .ok answer => answer
        | .error message => .failed message
      (answer, first.2.depth) :: runProgram steps first.2

end Stylesheet.Scope
