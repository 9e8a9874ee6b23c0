import Stylesheet.Diagnostic
import Stylesheet.Token

/-!
# Reading from a list of tokens

A reading takes tokens from the front of a list and never fails: it gives a
value, the faults it met, and the tokens that are left.  Behind the last token
there is only more end of input.
-/

namespace Stylesheet

/-- What can be wrong with the tokens of a source. -/
inductive SyntaxFault where
  | expected (kind : TokenKind) (found : Token)
  | expectedSelector (found : Token)
  | strayAtTop (found : Token)
  | strayInBody (found : Token)
  | strayInExpr (found : Token)
  | invalidNumber (found : Token)
  deriving DecidableEq

namespace SyntaxFault

/-- The token at which a fault is noticed. -/
def found : SyntaxFault → Token
  | expected _ t | expectedSelector t | strayAtTop t | strayInBody t
  | strayInExpr t
  | invalidNumber t => t

def message : SyntaxFault → String
  | expected kind t => "expected " ++ kind.name ++ ", got " ++ t.describe
  | expectedSelector t => "expected selector, got " ++ t.describe
  | strayAtTop t => "unexpected " ++ t.describe ++ " at top level"
  | strayInBody t => "unexpected " ++ t.describe ++ " in rule body"
  | strayInExpr t => "unexpected " ++ t.describe ++ " in expression"
  | invalidNumber t => "invalid number '" ++ t.text ++ "'"

def diagnostic (fault : SyntaxFault) : Diagnostic :=
  .error .syntaxError fault.found.pos fault.message

end SyntaxFault

/-- The outcome of reading from a list of tokens. -/
structure Reading (α : Type) where
  value : α
  faults : List SyntaxFault
  rest : List Token

namespace Reading

/-- The token in front. -/
def current : List Token → Token
  | [] => .nowhere
  | t :: _ => t

/-- Passes a token of the given class; another token is a fault and is left in
place. -/
def expect (kind : TokenKind) (ts : List Token) : Reading Unit :=
  if (current ts).kind = kind then ⟨(), [], ts.tail⟩
  else ⟨(), [.expected kind (current ts)], ts⟩

/-- Passes tokens up to a place where an item can begin or a body ends: behind
the next semicolon, or at the next closing brace, conditional or end. -/
def skip : List Token → List Token
  | [] => []
  | t :: rest =>
      match t.kind with
      | .semicolon => rest
      | .rbrace | .ifWord | .eof => t :: rest
      | _ => skip rest

/-- Where reading goes on after the stray token `t`, which is passed in any
case. -/
def resume (t : Token) (rest : List Token) : List Token :=
  match t.kind with
  | .semicolon | .rbrace => rest
  | _ => skip rest

theorem expect_rest_length_le (kind : TokenKind) (ts : List Token) :
    (expect kind ts).rest.length ≤ ts.length := by
  unfold expect
  split <;> simp

theorem skip_length_le (ts : List Token) : (skip ts).length ≤ ts.length := by
  induction ts with
  | nil => simp [skip]
  | cons t rest ih =>
      unfold skip
      split <;> simp only [List.length_cons] <;> omega

theorem resume_length_le (t : Token) (rest : List Token) :
    (resume t rest).length ≤ rest.length := by
  unfold resume
  split
  · exact Nat.le_refl _
  · exact Nat.le_refl _
  · exact skip_length_le rest

end Reading
end Stylesheet
