import Stylesheet.Proofs.Checking
import Stylesheet.Proofs.Evaluation

/-!
# Correctness of compilation

On a sheet without diagnostics, evaluation in place selects just the
declarations that the sheet stands for, so what is generated from the evaluated
sheet is the text of its meaning.  A declaration in force that has no value is
reported instead.
-/

namespace Stylesheet

open Arena

/-- No node carries a diagnostic. -/
def noNotes : NodeId → Option Diagnostic := fun _ => none

/-! ## Selection without diagnostics -/

theorem Tree.hasDiagnostic_noNotes (t : Tree) :
    (t.noted noNotes).hasDiagnostic = false := by
  rw [← Bool.not_eq_true, hasDiagnostic_noted]
  simp [noNotes]

namespace Selection

@[simp] theorem value?_noNotes (env : Env) (t : Tree) (e : Expr) :
    value? noNotes env t e = e.value? env := by
  simp [value?, Tree.hasDiagnostic_noNotes]

theorem afterItem_noNotes (env : Env) (n : Nat) (item : Item) :
    afterItem noNotes env n item = Meaning.afterItem env item := by
  cases item <;> simp [afterItem, Meaning.afterItem]

theorem guardHolds_noNotes (env : Env) (n top : Nat) (guard : Expr) :
    guardHolds noNotes env n top guard =
      decide (guard.value? env = some (.bool true)) := by
  simp [guardHolds, noNotes]

end Selection

/-- The declaration in force that a selected declaration is. -/
def Selected.meaning (s : Selected) : Meaning.Declaration :=
  ⟨s.pos, s.property, s.value⟩

namespace Selection

theorem map_meaning_ofItems (items : List Item) (env : Env) (n : Nat) :
    (ofItems noNotes env n items).map Selected.meaning =
      Meaning.ofItems env items := by
  induction items using Item.list_induction generalizing env n with
  | nil => rfl
  | declaration pos property expr items ih =>
      rw [ofItems, Meaning.ofItems, List.map_append, ih, afterItem_noNotes]
      simp [ofItem, Meaning.ofItem, Selected.meaning]
  | assignment pos name expr items ih =>
      rw [ofItems, Meaning.ofItems, List.map_append, ih, afterItem_noNotes]
      rfl
  | ifThen pos guard body items ihbody ih =>
      rw [ofItems, Meaning.ofItems, List.map_append, ih, afterItem_noNotes,
        ofItem, Meaning.ofItem, guardHolds_noNotes]
      by_cases hguard : guard.value? env = some (.bool true) <;>
        simp [hguard, ihbody]
  | ifElse pos guard body elsePos otherwise items ihbody ihelse ih =>
      rw [ofItems, Meaning.ofItems, List.map_append, ih, afterItem_noNotes,
        ofItem, Meaning.ofItem, guardHolds_noNotes]
      by_cases hguard : guard.value? env = some (.bool true) <;>
        simp [hguard, ihbody, ihelse]

end Selection

/-- The rule that a selected rule stands for. -/
def SelectedRule.meaning (r : SelectedRule) : Meaning.Rule :=
  ⟨r.selectors.map Selector.text, (r.declarations noNotes).map Selected.meaning⟩

theorem Selection.map_meaning_ofStatements
    (statements : List Statement) (env : Env) (n : Nat) :
    (ofStatements noNotes env n statements).map SelectedRule.meaning =
      Meaning.ofStatements env statements := by
  induction statements generalizing env n with
  | nil => rfl
  | cons statement statements ih =>
      cases statement with
      | assignment pos name expr =>
          rw [ofStatements, Meaning.ofStatements, value?_noNotes, ih]
      | rule pos selectors body =>
          rw [ofStatements, Meaning.ofStatements, List.map_cons, ih,
            SelectedRule.meaning, SelectedRule.declarations,
            map_meaning_ofItems]
      | ifThen pos guard body => exact ih _ _
      | ifElse pos guard body elsePos otherwise => exact ih _ _

/-! ## Reading the evaluated sheet -/

namespace Selected

theorem result?_eq_value_of_mem
    {r : SelectedRule} {s : Selected} (hs : s ∈ r.declarations noNotes) :
    s.result? = s.value := by
  obtain ⟨env, hvalue⟩ := Selection.exists_env_of_mem_ofItems noNotes _ _ _ hs
  exact result?_eq_value hvalue (Tree.hasDiagnostic_noNotes _)

theorem noted_evaluated (s : Selected) (fresh : Nat) :
    (s.evaluated noNotes fresh).noted noNotes = s.evaluated noNotes fresh := by
  have hexpr : (s.exprTree noNotes fresh).noted noNotes =
      s.exprTree noNotes fresh := by
    unfold exprTree
    split
    · simp [Tree.plain, Content.map, noNotes]
    · exact Tree.noted_noted ..
  rw [evaluated, Tree.noted_node, Content.map, hexpr, Tree.noted_noted]

theorem declaration?_evaluated
    {s : Selected} (h : s.result? = s.value) (fresh : Nat) :
    Css.declaration? (s.evaluated noNotes fresh) =
      s.meaning.value.map fun value => (s.meaning.property, value) := by
  simp only [evaluated, Tree.plain, Tree.noted_node, Content.map,
    Css.declaration?, Tree.propertyName?, literalValue?_exprTree, h, meaning]
  cases s.value <;> rfl

theorem inRuleItem_evaluated
    {s : Selected} (h : s.result? = s.value) (hsome : s.value.isSome)
    (fresh : Nat) :
    Css.inRuleItem (s.evaluated noNotes fresh) = [] := by
  obtain ⟨value, hvalue⟩ := Option.isSome_iff_exists.mp hsome
  simp [evaluated, Tree.plain, Content.map, Css.inRuleItem, Tree.propertyName?,
    literalValue?_exprTree, h, hvalue]

theorem unevaluable?_evaluated
    {s : Selected} (h : s.result? = s.value) (fresh : Nat) :
    unevaluable? (s.evaluated noNotes fresh) = s.meaning.error? := by
  rw [evaluated, unevaluable?, literalValue?_exprTree, h,
    Meaning.Declaration.error?, meaning]
  cases hvalue : s.value with
  | none =>
      rw [if_neg (by decide), Tree.plain, Tree.noted_node, Content.map,
        Tree.propertyName?]
      rfl
  | some value => exact if_pos rfl

theorem walk_evaluated (s : Selected) (fresh : Nat) :
    (s.evaluated noNotes fresh).walk isDeclaration =
      [s.evaluated noNotes fresh] := by
  rw [evaluated, Tree.walk_node, isDeclaration, if_pos rfl]

end Selected

namespace SelectedRule

theorem noted_evaluated (r : SelectedRule) (fresh : Nat) :
    (r.evaluated noNotes fresh).noted noNotes = r.evaluated noNotes fresh := by
  have hselectors :
      ((selectorTrees r.first r.selectors).map (Tree.noted noNotes)).map
      (Tree.noted noNotes) =
        (selectorTrees r.first r.selectors).map (Tree.noted noNotes) := by
    rw [List.map_map]
    exact List.map_congr_left fun t _ => Tree.noted_noted noNotes noNotes t
  rw [evaluated, Tree.noted_node, Content.map, hselectors,
    (Selected.rewriting noNotes).noted_afterAll fun s _ fresh =>
      s.noted_evaluated fresh]

theorem selectorText?_noted_selectorTrees (selectors : List Selector)
    (n : Nat) :
    ((selectorTrees n selectors).map (Tree.noted noNotes)).filterMap
      Tree.selectorText? =
      selectors.map Selector.text := by
  induction selectors generalizing n with
  | nil => rfl
  | cons selector selectors ih =>
      have hfirst : Tree.selectorText?
          ((Tree.plain n selector.pos (.selector selector.text)).noted
            noNotes) =
            some selector.text := by
        rw [Tree.plain, Tree.noted_node, Content.map, Tree.selectorText?]
      rw [selectorTrees, List.map_cons, List.map_cons,
        List.filterMap_cons_some hfirst, ih]

theorem rule?_evaluated (r : SelectedRule) (fresh : Nat) :
    Css.rule? (r.evaluated noNotes fresh) = some r.meaning.css := by
  rw [evaluated, Css.rule?, selectorText?_noted_selectorTrees,
    (Selected.rewriting noNotes).filterMap_afterAll
      (fun s hs => Selected.declaration?_evaluated
        (Selected.result?_eq_value_of_mem hs)) fresh,
    meaning, Meaning.Rule.css, List.filterMap_map]
  rfl

theorem inSheetItem_evaluated
    {r : SelectedRule} (hselectors : r.selectors ≠ [])
    (hsome : ∀ d ∈ r.meaning.declarations, d.value.isSome) (fresh : Nat) :
    Css.inSheetItem (r.evaluated noNotes fresh) = [] := by
  have hempty : ((selectorTrees r.first r.selectors).map
      (Tree.noted noNotes)).isEmpty =
      false := by
    cases hcases : r.selectors with
    | nil => exact absurd hcases hselectors
    | cons selector selectors => rfl
  have htexts : ((selectorTrees r.first r.selectors).map
      (Tree.noted noNotes)).filter
      (fun t => t.selectorText?.isNone) = [] := by
    rw [List.filter_eq_nil_iff, List.forall_mem_map]
    intro t ht
    obtain ⟨k, -, pos, text, rfl⟩ := exists_of_mem_selectorTrees ht
    simp [Tree.plain, Content.map, Tree.selectorText?]
  have hbody : ((Selected.rewriting noNotes).afterAll fresh
      (r.declarations noNotes)).flatMap
      Css.inRuleItem = [] := by
    rw [(Selected.rewriting noNotes).flatMap_afterAll
      (g := fun _ => []) (fun s hs fresh' => ?_) fresh]
    · simp
    · exact Selected.inRuleItem_evaluated (Selected.result?_eq_value_of_mem hs)
        (hsome s.meaning (List.mem_map_of_mem hs)) fresh'
  rw [evaluated, Css.inSheetItem, hempty, htexts, hbody]
  rfl

theorem not_isDeclaration_stylerule
    {selectors body : List Tree} :
    ¬ isDeclaration (.stylerule selectors body) = true :=
  Bool.false_ne_true

theorem unevaluable?_walk_evaluated (r : SelectedRule) (fresh : Nat) :
    ((r.evaluated noNotes fresh).walk isDeclaration).filterMap unevaluable? =
      r.meaning.declarations.filterMap Meaning.Declaration.error? := by
  have hselectors :
      (((selectorTrees r.first r.selectors).map (Tree.noted noNotes)).flatMap
      (Tree.walk isDeclaration)).filterMap unevaluable? = [] := by
    rw [List.filterMap_eq_nil_iff, List.flatMap_map]
    intro t ht
    obtain ⟨leaf, hleaf, ht⟩ := List.mem_flatMap.mp ht
    obtain ⟨k, -, pos, text, rfl⟩ := exists_of_mem_selectorTrees hleaf
    rw [Tree.plain, Tree.noted_node, Tree.walk_node, Content.map] at ht
    rw [List.mem_singleton.mp ht]
    rfl
  have hbody :
      (((Selected.rewriting noNotes).afterAll fresh
        (r.declarations noNotes)).flatMap
      (Tree.walk isDeclaration)).filterMap unevaluable? =
        r.meaning.declarations.filterMap Meaning.Declaration.error? := by
    rw [List.filterMap_flatMap, (Selected.rewriting noNotes).flatMap_afterAll
      (g := fun s => s.meaning.error?.toList) (fun s hs fresh' => ?_) fresh]
    · rw [meaning, List.filterMap_map, List.filterMap_eq_flatMap_toList]
      rfl
    · change List.filterMap unevaluable?
        ((s.evaluated noNotes fresh').walk isDeclaration) = _
      rw [Selected.walk_evaluated, List.filterMap_eq_flatMap_toList,
        List.flatMap_singleton,
        Selected.unevaluable?_evaluated (Selected.result?_eq_value_of_mem hs)]
  have hrule : unevaluable? (r.evaluated noNotes fresh) = none := rfl
  rw [evaluated] at hrule ⊢
  rw [Tree.walk_node, if_neg not_isDeclaration_stylerule,
    List.filterMap_cons_none hrule, Content.toList, List.flatMap_append,
    List.filterMap_append, hselectors, hbody, List.nil_append]

end SelectedRule

/-! ## Whole sheets -/

namespace Meaning

theorem error?_eq_none_iff (d : Declaration) :
    d.error? = none ↔ d.value.isSome := by
  unfold Declaration.error?
  cases d.value <;> simp

theorem errors_eq_nil_iff (rules : List Rule) :
    errors rules = [] ↔ Complete rules := by
  simp only [errors, List.filterMap_eq_nil_iff, List.forall_mem_flatMap,
    error?_eq_none_iff, Complete]

theorem hasErrors_errors (rules : List Rule) :
    (errors rules).hasErrors = true ↔ ¬ Complete rules := by
  rw [← errors_eq_nil_iff]
  constructor
  · intro h hnil
    rw [hnil] at h
    cases h
  · intro h
    obtain ⟨d, hd⟩ := List.exists_mem_of_ne_nil _ h
    refine List.any_eq_true.mpr ⟨d, hd, ?_⟩
    obtain ⟨declaration, -, herror⟩ := List.mem_filterMap.mp hd
    unfold Declaration.error? at herror
    split at herror
    · cases herror
    · rw [← Option.some.inj herror]
      rfl

end Meaning

section Sheets

variable {a : Arena} {sheet : Sheet}

theorem Selection.map_meaning_ofSheet (sheet : Sheet) :
    (ofSheet noNotes sheet).map SelectedRule.meaning = Meaning.ofSheet sheet :=
  map_meaning_ofStatements sheet .empty 1

theorem rootTree_evaluate_of_clean (h : a.Stores sheet)
    (hclean : a.diagnostics = []) :
    a.evaluate.rootTree =
      .node ⟨0, .start, none⟩
        (.stylesheet ((SelectedRule.rewriting noNotes).afterAll a.size
        (Selection.ofSheet noNotes sheet))) := by
  have htree := h.rootTree_evaluate
  rwa [h.diagnosticOf_eq_none hclean] at htree

/-- Evaluation attaches no diagnostics. -/
theorem noted_rootTree_evaluate (h : a.Stores sheet)
    (hclean : a.diagnostics = []) :
    a.evaluate.rootTree.noted noNotes = a.evaluate.rootTree := by
  rw [rootTree_evaluate_of_clean h hclean, Tree.noted_node, Content.map,
    (SelectedRule.rewriting noNotes).noted_afterAll fun r _ fresh =>
      r.noted_evaluated fresh]
  rfl

/-- The rules that are read off the evaluated sheet are those that the sheet
stands for. -/
theorem rules_evaluate (h : a.Stores sheet) (hclean : a.diagnostics = []) :
    Css.rules a.evaluate.rootTree =
      (Meaning.ofSheet sheet).map Meaning.Rule.css := by
  rw [rootTree_evaluate_of_clean h hclean, Css.rules,
    (SelectedRule.rewriting noNotes).filterMap_afterAll
      (fun r _ fresh => r.rule?_evaluated fresh) a.size,
    ← Selection.map_meaning_ofSheet, List.map_map, ← List.filterMap_eq_map]
  rfl

theorem unevaluated_evaluate (h : a.Stores sheet)
    (hclean : a.diagnostics = []) :
    a.evaluate.unevaluated = Meaning.errors (Meaning.ofSheet sheet) := by
  have hroot : ∀ body : List Tree, ¬ isDeclaration (.stylesheet body) = true :=
    fun _ => Bool.false_ne_true
  rw [Arena.unevaluated, rootTree_evaluate_of_clean h hclean, Tree.walk_node,
    if_neg (hroot _), List.filterMap_cons_none rfl, Content.toList,
    List.filterMap_flatMap, (SelectedRule.rewriting noNotes).flatMap_afterAll
      (fun r _ fresh => r.unevaluable?_walk_evaluated fresh) a.size,
    ← Selection.map_meaning_ofSheet, Meaning.errors, List.filterMap_flatMap,
    List.flatMap_map]

theorem obstacles_evaluate
    (h : a.Stores sheet) (hclean : a.diagnostics = [])
    (hselectors : ∀ pos selectors body, .rule pos selectors body ∈ sheet →
      selectors ≠ [])
    (hcomplete : Meaning.Complete (Meaning.ofSheet sheet)) :
    Css.obstacles a.evaluate.rootTree = [] := by
  let p := SelectedRule.rewriting noNotes
  let rs := Selection.ofSheet noNotes sheet
  have hshape : (p.afterAll a.size rs).flatMap Css.inSheetItem = [] := by
    rw [p.flatMap_afterAll (g := fun _ => []) (fun r hr fresh => ?_) a.size]
    · simp
    · refine SelectedRule.inSheetItem_evaluated
        (hselectors _ _ _ (Selection.statement_mem_of_mem_ofStatements hr))
        ?_ fresh
      refine hcomplete r.meaning ?_
      rw [← Selection.map_meaning_ofSheet]
      exact List.mem_map_of_mem hr
  have hnodes : a.evaluate.rootTree.subtrees.filterMap Css.onNode? = [] := by
    have hnone := Tree.hasDiagnostic_noNotes a.evaluate.rootTree
    rw [noted_rootTree_evaluate h hclean] at hnone
    simpa [Tree.hasDiagnostic, Css.onNode?] using hnone
  rw [rootTree_evaluate_of_clean h hclean] at hnodes ⊢
  rw [Css.obstacles, hshape, hnodes, List.append_nil]

/-- What is made of a stored sheet without diagnostics is what it stands for. -/
theorem finish_of_clean
    (h : a.Stores sheet) (hclean : a.diagnostics = [])
    (hselectors : ∀ pos selectors body, .rule pos selectors body ∈ sheet →
      selectors ≠ []) :
    finish a =
      if Meaning.Complete (Meaning.ofSheet sheet) then
        ⟨[], a.evaluate,
          Css.text ((Meaning.ofSheet sheet).map Meaning.Rule.css)⟩
      else ⟨Meaning.errors (Meaning.ofSheet sheet), a.evaluate, ""⟩ := by
  have herrors := Meaning.hasErrors_errors (Meaning.ofSheet sheet)
  rw [finish, unevaluated_evaluate h hclean]
  by_cases hcomplete : Meaning.Complete (Meaning.ofSheet sheet)
  · rw [if_neg (herrors.not.mpr (not_not.mpr hcomplete)), if_pos hcomplete,
      Css.generate, obstacles_evaluate h hclean hselectors hcomplete,
      rules_evaluate h hclean, hclean]
  · rw [if_pos (herrors.mpr hcomplete), if_neg hcomplete]

end Sheets

/-! ## Sources -/

theorem Reading.selectors_ne_nil_of_statement
    {t : Token} {rest : List Token} {pos : Position} {selectors : List Selector}
    {body : List Item}
    (h : (statement t rest).value = some (.rule pos selectors body)) :
    selectors ≠ [] := by
  unfold statement at h
  split at h
  · cases h
  · split at h
    · simp only [Branches.statement] at h
      split at h <;> cases h
    · split at h
      · cases h
        exact List.cons_ne_nil _ _
      · cases h

theorem Reading.selectors_ne_nil_of_mem_statements
    {ts : List Token} {pos : Position} {selectors : List Selector}
    {body : List Item} (h : .rule pos selectors body ∈ (statements ts).value) :
    selectors ≠ [] := by
  fun_induction statements ts with
  | case1 => cases h
  | case2 => cases h
  | case3 t rest hkind first hfirst more ih =>
      rw [List.mem_append, Option.mem_toList] at h
      rcases h with h | h
      · exact selectors_ne_nil_of_statement h
      · exact ih h

/-- Compiling a source on which nothing is reported gives the text of what the
source stands for, or one error for each declaration in force that has no
value. -/
theorem compile_eq_meaning (source : List Char) (h : check source = []) :
    let rules := Meaning.ofSheet (parse source).sheet
    (Meaning.Complete rules →
      (compile source).css = Css.text (rules.map Meaning.Rule.css) ∧
        (compile source).diagnostics = []) ∧
    (¬ Meaning.Complete rules →
      (compile source).css = "" ∧
        (compile source).diagnostics = Meaning.errors rules) ∧
    Css.rules (compile source).arena.rootTree = rules.map Meaning.Rule.css := by
  intro rules
  have hstores := (stores_parse source).check
  have hclean := (check_eq_nil_iff.mp h).2
  have hfinish : compile source =
      if Meaning.Complete rules then
        ⟨[], (parse source).arena.check.evaluate,
          Css.text (rules.map Meaning.Rule.css)⟩
      else ⟨Meaning.errors rules, (parse source).arena.check.evaluate, ""⟩ :=
    (compile_of_check_eq_nil h).trans (finish_of_clean hstores hclean
      fun _ _ _ hmem => Reading.selectors_ne_nil_of_mem_statements hmem)
  refine ⟨fun hcomplete => ?_, fun hcomplete => ?_, ?_⟩
  · rw [hfinish, if_pos hcomplete]
    exact ⟨rfl, rfl⟩
  · rw [hfinish, if_neg hcomplete]
    exact ⟨rfl, rfl⟩
  · rw [compile_of_check_eq_nil h, finish_arena]
    exact rules_evaluate hstores hclean

/-- A variable that is bound anew inside a branch, and a sum of colors, which
has no value. -/
theorem compile_shadowing_and_color_sum :
    let shadowing :=
      "w := 10px; p \x7b if [TRUE] \x7b w := w * 2; width: w; \x7d height: w; \x7d".toList
    let colorSum := "p \x7b width: 5%; color: #ff0000 + #00ff00; \x7d".toList
    (check shadowing = [] ∧
      (compile shadowing).css =
        "p \x7b\n  width: 20px;\n  height: 10px;\n\x7d\n") ∧
    (check colorSum = [] ∧ (compile colorSum).css = "" ∧
      (compile colorSum).diagnostics = [.error .unevaluable ⟨1, 16⟩
        "expression in declaration 'color' does not evaluate to a value"]) := by
  intro shadowing colorSum
  have hshadowing : check shadowing = [] := by decide +kernel
  have hcolorSum : check colorSum = [] := by decide +kernel
  have hcomplete : Meaning.Complete
      (Meaning.ofSheet (parse shadowing).sheet) := by
    decide +kernel
  have hincomplete : ¬ Meaning.Complete
      (Meaning.ofSheet (parse colorSum).sheet) := by
    decide +kernel
  obtain ⟨hcss, -⟩ := (compile_eq_meaning shadowing hshadowing).1 hcomplete
  obtain ⟨hempty, herrors⟩ :=
    (compile_eq_meaning colorSum hcolorSum).2.1 hincomplete
  refine ⟨⟨hshadowing, hcss.trans ?_⟩, hcolorSum, hempty, herrors.trans ?_⟩
  · decide +kernel
  · decide +kernel

end Stylesheet
