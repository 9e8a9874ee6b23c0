import Stylesheet.Sheet.Body
import Stylesheet.Token.Scan

/-!
# Reading a sheet

Reading a whole sheet from its tokens, with one token of look-ahead.  A fault
never stops the reading: every procedure gives its value and the tokens that are
left, which are never more than it was given.
-/

namespace Stylesheet
namespace Reading

/-- A selector is kept in lower case; what is no selector is kept as one all the
same. -/
def selector (ts : List Token) : Reading Selector :=
  let t := current ts
  let value : Selector := ⟨t.pos, Text.lowercase t.text⟩
  match t.kind with
  | .ident | .classIdent | .idIdent => ⟨value, [], ts.tail⟩
  | _ => ⟨value, [.expectedSelector t], ts⟩

theorem selector_rest_length_le (ts : List Token) :
    (selector ts).rest.length ≤ ts.length := by
  unfold selector
  simp only
  split <;> simp

/-- The selectors after the first one. -/
def moreSelectors (ts : List Token) : Reading (List Selector) :=
  match ts with
  | [] => ⟨[], [], []⟩
  | t :: rest =>
      if t.kind = .comma then
        let first := selector rest
        have := selector_rest_length_le rest
        let more := moreSelectors first.rest
        ⟨first.value :: more.value, first.faults ++ more.faults, more.rest⟩
      else ⟨[], [], t :: rest⟩
termination_by ts.length

theorem moreSelectors_rest_length_le (ts : List Token) :
    (moreSelectors ts).rest.length ≤ ts.length := by
  fun_induction moreSelectors ts with
  | case1 => simp
  | case2 t rest _ first hfirst more ih =>
      simp only [List.length_cons]
      exact Nat.le_succ_of_le (Nat.le_trans ih hfirst)
  | case3 => simp

/-- A rule, beginning with the token `t`, which can begin a selector. -/
def rule (t : Token) (rest : List Token) : Reading Statement :=
  let more := moreSelectors rest
  let body := block more.rest
  ⟨.rule t.pos (⟨t.pos, Text.lowercase t.text⟩ :: more.value) body.value,
    more.faults ++ body.faults, body.rest⟩

theorem rule_rest_length_le (t : Token) (rest : List Token) :
    (rule t rest).rest.length ≤ rest.length :=
  Nat.le_trans (block_rest_length_le _) (moreSelectors_rest_length_le rest)

/-- A statement at top level beginning with the token `t`; none if `t` cannot
begin one. -/
def statement (t : Token) (rest : List Token) : Reading (Option Statement) :=
  if t.kind = .capitalIdent ∨
    (t.kind = .ident ∧ (current rest).kind = .assign) then
    let value := binding .assign rest
    ⟨some (.assignment t.pos t.text value.value), value.faults, value.rest⟩
  else if t.kind = .ifWord then
    let branches := conditional rest
    ⟨some (branches.value.statement t.pos), branches.faults, branches.rest⟩
  else if t.kind = .ident ∨ t.kind = .classIdent ∨ t.kind = .idIdent then
    let value := rule t rest
    ⟨some value.value, value.faults, value.rest⟩
  else ⟨none, [.strayAtTop t], resume t rest⟩

theorem statement_rest_length_le (t : Token) (rest : List Token) :
    (statement t rest).rest.length ≤ rest.length := by
  unfold statement
  split
  · exact binding_rest_length_le _ _
  · split
    · exact conditional_rest_length_le _
    · split
      · exact rule_rest_length_le t rest
      · exact resume_length_le _ _

/-- The statements up to the end of input. -/
def statements (ts : List Token) : Reading Sheet :=
  match ts with
  | [] => ⟨[], [], []⟩
  | t :: rest =>
      if t.kind = .eof then ⟨[], [], t :: rest⟩
      else
        let first := statement t rest
        have := statement_rest_length_le t rest
        let more := statements first.rest
        ⟨first.value.toList ++ more.value, first.faults ++ more.faults,
          more.rest⟩
termination_by ts.length

end Reading

/-- A sheet as it was read, with what was wrong with its source. -/
structure Parsed where
  sheet : Sheet
  faults : List SyntaxFault

/-- Reads a source, given by its bytes. -/
def parse (source : List Char) : Parsed :=
  let r := Reading.statements (Scan.scan source)
  ⟨r.value, r.faults⟩

/-- The syntax errors of a source, in the order in which they are met. -/
def Parsed.diagnostics (p : Parsed) : Diagnostics :=
  p.faults.map SyntaxFault.diagnostic

end Stylesheet
