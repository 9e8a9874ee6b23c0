import Mathlib.Algebra.Ring.Int.Defs
import Mathlib.Algebra.Ring.Nat
import Stylesheet.Proofs.Sessions

/-!
# Exact numbers

A sheet whose variables are replaced by what they stand for, and the numbers of
what is left in unbounded integers.  The values of a sheet are words that wrap
around at every step, and a variable keeps the wrapped word.  Taking an integer
to its word commutes with sums, differences and products, so the number of a
declaration is the exact one reduced once.  It is exact if that one fits a word,
whatever happened on the way.
-/

namespace Stylesheet

/-! ## Replacing variables -/

/-- What the variables stand for, without variables. -/
abbrev Definitions := String → Option Expr

namespace Definitions

def empty : Definitions := fun _ => none

def bind (defs : Definitions) (name : String) (expr : Expr) : Definitions :=
  fun other => if other = name then some expr else defs other

end Definitions

/-- The expression with every variable replaced by what it stands for. -/
def Expr.inline (defs : Definitions) : Expr → Expr
  | .literal pos value => .literal pos value
  | .reference pos name => (defs name).getD (.reference pos name)
  | .operation pos op lhs rhs =>
      .operation pos op (lhs.inline defs) (rhs.inline defs)

/-- No operation gives a truth value, so only the word for it is true. -/
def Expr.isTrue : Expr → Bool
  | .literal _ (.bool true) => true
  | _ => false

namespace Inlining

/-- A declaration in force, with an expression that has no variables. -/
structure Declaration where
  pos : Position
  property : String
  expr : Expr

structure Rule where
  selectors : List String
  declarations : List Declaration

/-- What the variables stand for behind an item. -/
def afterItem (defs : Definitions) : Item → Definitions
  | .assignment _ name expr => defs.bind name (expr.inline defs)
  | _ => defs

mutual

/-- The declarations in force in an item. -/
def ofItem (defs : Definitions) : Item → List Declaration
  | .declaration pos property expr => [⟨pos, property, expr.inline defs⟩]
  | .assignment _ _ _ => []
  | .ifThen _ guard body =>
      if (guard.inline defs).isTrue then ofItems defs body else []
  | .ifElse _ guard body _ otherwise =>
      if (guard.inline defs).isTrue then ofItems defs body
        else ofItems defs otherwise

def ofItems (defs : Definitions) : List Item → List Declaration
  | [] => []
  | item :: items => ofItem defs item ++ ofItems (afterItem defs item) items

end

def ofStatements (defs : Definitions) : List Statement → List Rule
  | [] => []
  | .assignment _ name expr :: statements =>
      ofStatements (defs.bind name (expr.inline defs)) statements
  | .rule _ selectors body :: statements =>
      ⟨selectors.map Selector.text, ofItems defs body⟩
        :: ofStatements defs statements
  | .ifThen _ _ _ :: statements | .ifElse _ _ _ _ _ :: statements =>
      ofStatements defs statements

/-- The rules of a sheet, with the declarations in force in them. -/
def ofSheet (sheet : Sheet) : List Rule :=
  ofStatements .empty sheet

end Inlining

/-! ## Unbounded integers -/

/-- The operation on integers. -/
def Operator.exact : Operator → Int → Int → Int
  | add, a, b => a + b
  | subtract, a, b => a - b
  | multiply, a, b => a * b

/-- The operation on words, which wraps around. -/
def Operator.wrapped : Operator → Int64 → Int64 → Int64
  | add, a, b => a + b
  | subtract, a, b => a - b
  | multiply, a, b => a * b

/-- Taking an integer to its word commutes with the operations. -/
theorem Operator.ofInt_exact (op : Operator) (a b : Int) :
    Int64.ofInt (op.exact a b) =
      op.wrapped (Int64.ofInt a) (Int64.ofInt b) := by
  cases op with
  | add => exact Int64.ofInt_add a b
  | subtract => exact Int64.ofInt_sub a b
  | multiply => exact Int64.ofInt_mul a b

/-- The number that a value has, whatever its unit. -/
def Literal.number? : Literal → Option Int64
  | pixel n | percentage n | scalar n => some n
  | color _ | bool _ => none

/-- The number of an expression without variables, in unbounded integers. -/
def Expr.amount? : Expr → Option Int
  | .literal _ value => value.number?.map Int64.toInt
  | .reference _ _ => none
  | .operation _ op lhs rhs =>
      lhs.amount?.bind fun a => rhs.amount?.map fun b => op.exact a b

theorem Operator.number?_of_result?
    {op : Operator} {left right value : Literal}
    (h : op.result? left right = some value) :
    ∃ a b, left.number? = some a ∧ right.number? = some b ∧
      value.number? = some (op.wrapped a b) := by
  unfold result? at h
  split at h
  all_goals first
    | cases h
      exact ⟨_, _, rfl, rfl, rfl⟩
    | cases h

/-- The number of a value is the word of the exact number. -/
theorem Expr.amount?_of_value?
    {env : Env} (henv : ∀ name, env name = none) (e : Expr) {value : Literal}
    {n : Int64} (hvalue : e.value? env = some value)
    (hn : value.number? = some n) :
    ∃ i, e.amount? = some i ∧ Int64.ofInt i = n := by
  induction e generalizing value n with
  | literal pos v =>
      obtain rfl : v = value := Option.some.inj hvalue
      exact ⟨n.toInt, by rw [amount?, hn]; rfl, Int64.ofInt_toInt n⟩
  | reference pos name =>
      rw [value?, henv] at hvalue
      cases hvalue
  | operation pos op lhs rhs ihl ihr =>
      rw [value?_operation] at hvalue
      obtain ⟨left, hleft, hvalue⟩ := Option.bind_eq_some_iff.mp hvalue
      obtain ⟨right, hright, hresult⟩ := Option.bind_eq_some_iff.mp hvalue
      obtain ⟨a, b, ha, hb, hwrapped⟩ := op.number?_of_result? hresult
      obtain ⟨i, hi, rfl⟩ := ihl hleft ha
      obtain ⟨j, hj, rfl⟩ := ihr hright hb
      refine ⟨op.exact i j, by rw [amount?, hi, hj]; rfl, ?_⟩
      rw [op.ofInt_exact]
      exact Option.some.inj (hwrapped.symm.trans hn)

/-! ## Values and what variables stand for -/

theorem Expr.isTrue_iff
    {env : Env} (henv : ∀ name, env name = none) (e : Expr) :
    e.isTrue = true ↔ e.value? env = some (.bool true) := by
  cases e with
  | literal pos value =>
      rw [value?, Option.some.injEq]
      unfold isTrue
      split <;> simp_all
  | reference pos name => simp [isTrue, value?, henv]
  | operation pos op lhs rhs =>
      refine iff_of_false Bool.false_ne_true fun hvalue => ?_
      rw [value?_operation] at hvalue
      obtain ⟨left, -, hvalue⟩ := Option.bind_eq_some_iff.mp hvalue
      obtain ⟨right, -, hresult⟩ := Option.bind_eq_some_iff.mp hvalue
      obtain ⟨_, _, -, -, hnumber⟩ := op.number?_of_result? hresult
      cases hnumber

/-- The values of the variables are those of what they stand for. -/
def Definitions.Agree (defs : Definitions) (env : Env) : Prop :=
  ∀ name, env name = (defs name).bind (Expr.value? .empty)

namespace Definitions

theorem agree_empty : empty.Agree .empty :=
  fun _ => rfl

theorem Agree.value?_inline {defs : Definitions} {env : Env}
    (h : defs.Agree env) (e : Expr) :
    (e.inline defs).value? .empty = e.value? env := by
  induction e with
  | literal pos value => rfl
  | reference pos name =>
      rw [Expr.inline, Expr.value?, h name]
      cases defs name <;> rfl
  | operation pos op lhs rhs ihl ihr =>
      rw [Expr.inline, Expr.value?_operation, Expr.value?_operation, ihl, ihr]

theorem Agree.bind
    {defs : Definitions} {env : Env} (h : defs.Agree env) (name : String)
    (e : Expr) :
    (defs.bind name (e.inline defs)).Agree (env.bind name (e.value? env)) := by
  intro other
  unfold Definitions.bind Env.bind
  split
  · exact (h.value?_inline e).symm
  · exact h other

theorem Agree.guard_iff {defs : Definitions} {env : Env} (h : defs.Agree env)
    (guard : Expr) :
    guard.value? env = some (.bool true) ↔
      (guard.inline defs).isTrue = true := by
  rw [Expr.isTrue_iff fun _ => rfl, ← h.value?_inline]
  rfl

theorem Agree.afterItem {defs : Definitions} {env : Env} (h : defs.Agree env)
    (item : Item) :
    (Inlining.afterItem defs item).Agree (Meaning.afterItem env item) := by
  cases item with
  | assignment pos name expr => exact h.bind name expr
  | _ => exact h

end Definitions

namespace Inlining

/-- What a declaration stands for. -/
def Declaration.meaning (d : Declaration) : Meaning.Declaration :=
  ⟨d.pos, d.property, d.expr.value? .empty⟩

def Rule.meaning (r : Rule) : Meaning.Rule :=
  ⟨r.selectors, r.declarations.map Declaration.meaning⟩

theorem map_meaning_ofItems
    (items : List Item) {defs : Definitions} {env : Env} (h : defs.Agree env) :
    (ofItems defs items).map Declaration.meaning =
      Meaning.ofItems env items := by
  -- A branch is read with the definitions before it, so both sides go on from
  -- where they agree.
  induction items using Item.list_induction generalizing defs env with
  | nil => rfl
  | declaration pos property expr items ih =>
      rw [ofItems, Meaning.ofItems, List.map_append, ih (h.afterItem _), ofItem,
        Meaning.ofItem, ← h.value?_inline]
      rfl
  | assignment pos name expr items ih =>
      rw [ofItems, Meaning.ofItems, List.map_append, ih (h.afterItem _)]
      rfl
  | ifThen pos guard body items ihbody ih =>
      rw [ofItems, Meaning.ofItems, List.map_append, ih (h.afterItem _), ofItem,
        Meaning.ofItem, apply_ite (List.map Declaration.meaning), ihbody h]
      simp only [h.guard_iff, List.map_nil]
  | ifElse pos guard body elsePos otherwise items ihbody ihelse ih =>
      rw [ofItems, Meaning.ofItems, List.map_append, ih (h.afterItem _), ofItem,
        Meaning.ofItem, apply_ite (List.map Declaration.meaning), ihbody h,
        ihelse h]
      simp only [h.guard_iff]

theorem map_meaning_ofStatements
    (statements : List Statement) {defs : Definitions} {env : Env}
    (h : defs.Agree env) :
    (ofStatements defs statements).map Rule.meaning =
      Meaning.ofStatements env statements := by
  induction statements generalizing defs env with
  | nil => rfl
  | cons statement statements ih =>
      cases statement with
      | assignment pos name expr => exact ih (h.bind name expr)
      | rule pos selectors body =>
          rw [ofStatements, Meaning.ofStatements, List.map_cons, ih h,
            Rule.meaning, map_meaning_ofItems body h]
      | ifThen pos guard body => exact ih h
      | ifElse pos guard body elsePos otherwise => exact ih h

/-! ## Compiled numbers -/

/-- The declaration is written with a number that is the exact number of its
expression, reduced to the words that there are; it is the exact number if that
is one of them. -/
def Declaration.FoldsTo (d : Declaration) (written : String × Literal) : Prop :=
  written.1 = d.property ∧
    ∀ n : Int64, written.2 = .pixel n ∨ written.2 = .percentage n →
      ∃ i, d.expr.amount? = some i ∧ n.toInt = i.bmod (2 ^ 64) ∧
        (-2 ^ 63 ≤ i → i < 2 ^ 63 → n.toInt = i)

/-- The rule is written with its selectors and its declarations, in order. -/
def Rule.FoldsTo (r : Rule) (written : Css.Rule) : Prop :=
  written.selectors = r.selectors ∧
    List.Forall₂ Declaration.FoldsTo r.declarations written.declarations

theorem Declaration.foldsTo
    {d : Declaration} {value : Literal} (h : d.meaning.value = some value) :
    d.FoldsTo (d.property, value) := by
  refine ⟨rfl, fun n hn => ?_⟩
  have hnumber : value.number? = some n := by
    rcases hn with hn | hn <;> exact congrArg Literal.number? hn
  obtain ⟨i, hi, rfl⟩ := d.expr.amount?_of_value? (fun _ => rfl) h hnumber
  exact ⟨i, hi, Int64.toInt_ofInt, Int64.toInt_ofInt_of_le⟩

theorem Rule.foldsTo
    {r : Rule} (h : ∀ d ∈ r.meaning.declarations, d.value.isSome) :
    r.FoldsTo r.meaning.css := by
  refine ⟨rfl, ?_⟩
  obtain ⟨selectors, declarations⟩ := r
  simp only [meaning, Meaning.Rule.css] at h ⊢
  induction declarations with
  | nil => exact .nil
  | cons d declarations ih =>
      obtain ⟨hd, hrest⟩ := List.forall_mem_cons.mp h
      obtain ⟨value, hvalue⟩ := Option.isSome_iff_exists.mp hd
      rw [List.map_cons, List.filterMap_cons_some (by rw [hvalue]; rfl)]
      exact .cons (Declaration.foldsTo hvalue) (ih hrest)

end Inlining

theorem rules_compile {source : List Char} (h : check source = []) :
    Css.rules (compile source).arena.rootTree =
      (Meaning.ofSheet (parse source).sheet).map Meaning.Rule.css := by
  rw [compile_of_check_eq_nil h, finish_arena]
  exact rules_evaluate (stores_parse source).check (check_eq_nil_iff.mp h).2

/-- On every source that compiles, each size in the CSS is the number of its
declaration in unbounded integers, with all variables replaced by what they
stand for, reduced once to a signed word. -/
theorem compile_exact_modulo_word
    (source : List Char) (h : (compile source).diagnostics.hasErrors = false) :
    (compile source).css =
      Css.text (Css.rules (compile source).arena.rootTree) ∧
      List.Forall₂ Inlining.Rule.FoldsTo (Inlining.ofSheet (parse source).sheet)
        (Css.rules (compile source).arena.rootTree) := by
  obtain ⟨hcheck, hcomplete, hcss⟩ :=
    compile_of_diagnostics_eq_nil ((hasErrors_compile source).mp h)
  have hrules := rules_compile hcheck
  have hmeaning : (Inlining.ofSheet (parse source).sheet).map
      Inlining.Rule.meaning =
      Meaning.ofSheet (parse source).sheet :=
    Inlining.map_meaning_ofStatements _ Definitions.agree_empty
  rw [hrules, ← hmeaning, List.map_map]
  refine ⟨by rw [hcss, ← hmeaning, List.map_map], ?_⟩
  rw [List.forall₂_map_right_iff, List.forall₂_same]
  intro r hr
  refine Inlining.Rule.foldsTo (hcomplete r.meaning ?_)
  rw [← hmeaning]
  exact List.mem_map_of_mem hr

/-- The largest number doubled and taken back, and a number that fits no
word. -/
theorem compile_exact_modulo_word_overflowing :
    let source :=
      ("A := 9223372036854775807px; B := 2 * A; "
        ++ "p \x7b if [TRUE] \x7b width: B - A; \x7d height: A + 1px; \x7d").toList
    (compile source).diagnostics.hasErrors = false ∧
      (Inlining.ofSheet (parse source).sheet).map
          (fun r => r.declarations.map fun d => d.expr.amount?) =
        [[some 9223372036854775807, some 9223372036854775808]] ∧
      (compile source).css = "p \x7b\n  width: 9223372036854775807px;\n"
        ++ "  height: -9223372036854775808px;\n\x7d\n" ∧
      List.Forall₂ Inlining.Rule.FoldsTo (Inlining.ofSheet (parse source).sheet)
        (Css.rules (compile source).arena.rootTree) := by
  intro source
  have haccepted : (compile source).diagnostics.hasErrors = false := by
    decide +kernel
  obtain ⟨hcss, hfolds⟩ := compile_exact_modulo_word source haccepted
  exact ⟨haccepted, by decide +kernel, hcss.trans (by decide +kernel), hfolds⟩

end Stylesheet
