import Stylesheet.Sheet
import Stylesheet.Sheet.Reading
import Stylesheet.Text.Lowercase

/-!
# Reading an expression

Sums and differences of products of operands, all grouping to the left.  An
operand that cannot be read is replaced by a name that no source can write.
-/

namespace Stylesheet.Reading

/-- The number written by a run of decimal digits. -/
def decimal (digits : List Char) : Nat :=
  digits.foldl (fun n d => 10 * n + (d.toNat - '0'.toNat)) 0

/-- The first number that does not fit a signed word. -/
def numberLimit : Nat := 0x8000000000000000

/-- A number with its unit.  A number that does not fit a signed word counts as
zero. -/
def number (make : Int64 → Literal) (t : Token)
    (rest : List Token) : Reading Expr :=
  let n := decimal (t.text.toList.takeWhile Char.isDigit)
  if n < numberLimit then ⟨.literal t.pos (make (Int64.ofNat n)), [], rest⟩
  else ⟨.literal t.pos (make 0), [.invalidNumber t], rest⟩

/-- What a name stands for in an expression: the truth values are recognised in
any case. -/
def named (t : Token) : Expr :=
  if Text.lowercase t.text = "true" then .literal t.pos (.bool true)
  else if Text.lowercase t.text = "false" then .literal t.pos (.bool false)
  else .reference t.pos t.text

/-- What stands in for an operand that could not be read. -/
def noOperand (t : Token) : Expr :=
  .reference t.pos "<error>"

/-- A stray token is passed, unless it ends the expression. -/
def atom (ts : List Token) : Reading Expr :=
  let t := current ts
  match t.kind with
  | .pixelSize => number .pixel t ts.tail
  | .percentage => number .percentage t ts.tail
  | .scalar => number .scalar t ts.tail
  | .color => ⟨.literal t.pos (.color t.text), [], ts.tail⟩
  | .trueWord => ⟨.literal t.pos (.bool true), [], ts.tail⟩
  | .falseWord => ⟨.literal t.pos (.bool false), [], ts.tail⟩
  | .ident | .capitalIdent => ⟨named t, [], ts.tail⟩
  | .semicolon | .rbracket | .rbrace => ⟨noOperand t, [.strayInExpr t], ts⟩
  | _ => ⟨noOperand t, [.strayInExpr t], ts.tail⟩

theorem atom_rest_length_le (ts : List Token) :
    (atom ts).rest.length ≤ ts.length := by
  unfold atom number
  simp only
  split <;> first | split <;> simp | simp

/-- The factors after the first one; products group to the left. -/
def moreFactors (left : Expr) (ts : List Token) : Reading Expr :=
  match ts with
  | [] => ⟨left, [], []⟩
  | t :: rest =>
      if t.kind = .star then
        let right := atom rest
        have := atom_rest_length_le rest
        let more :=
          moreFactors (.operation t.pos .multiply left right.value) right.rest
        ⟨more.value, right.faults ++ more.faults, more.rest⟩
      else ⟨left, [], t :: rest⟩
termination_by ts.length

theorem moreFactors_rest_length_le (left : Expr) (ts : List Token) :
    (moreFactors left ts).rest.length ≤ ts.length := by
  fun_induction moreFactors left ts with
  | case1 => simp
  | case2 left t rest _ right hright more ih =>
      simp only [List.length_cons]
      exact Nat.le_succ_of_le (Nat.le_trans ih hright)
  | case3 => simp

def term (ts : List Token) : Reading Expr :=
  let first := atom ts
  let more := moreFactors first.value first.rest
  ⟨more.value, first.faults ++ more.faults, more.rest⟩

theorem term_rest_length_le (ts : List Token) :
    (term ts).rest.length ≤ ts.length :=
  Nat.le_trans (moreFactors_rest_length_le _ _) (atom_rest_length_le ts)

/-- The operator of a sign that joins terms. -/
def termSign? : TokenKind → Option Operator
  | .plus => some .add
  | .minus => some .subtract
  | _ => none

/-- The terms after the first one; sums and differences group to the left. -/
def moreTerms (left : Expr) (ts : List Token) : Reading Expr :=
  match ts with
  | [] => ⟨left, [], []⟩
  | t :: rest =>
      match termSign? t.kind with
      | some op =>
          let right := term rest
          have := term_rest_length_le rest
          let more :=
            moreTerms (.operation t.pos op left right.value) right.rest
          ⟨more.value, right.faults ++ more.faults, more.rest⟩
      | none => ⟨left, [], t :: rest⟩
termination_by ts.length

theorem moreTerms_rest_length_le (left : Expr) (ts : List Token) :
    (moreTerms left ts).rest.length ≤ ts.length := by
  fun_induction moreTerms left ts with
  | case1 => simp
  | case2 left t rest op _ right hright more ih =>
      simp only [List.length_cons]
      exact Nat.le_succ_of_le (Nat.le_trans ih hright)
  | case3 => simp

def expr (ts : List Token) : Reading Expr :=
  let first := term ts
  let more := moreTerms first.value first.rest
  ⟨more.value, first.faults ++ more.faults, more.rest⟩

theorem expr_rest_length_le (ts : List Token) :
    (expr ts).rest.length ≤ ts.length :=
  Nat.le_trans (moreTerms_rest_length_le _ _) (term_rest_length_le ts)

end Stylesheet.Reading
