import Stylesheet.Proofs.Correctness

/-!
# Outcomes of compilation

A compilation ends in one of four ways: the source cannot be read, checking
finds something, a declaration in force has no value, or there is CSS.  Once the
first three are excluded, every node of the evaluated sheet is of the sort that
plain CSS has in its place, so generating cannot fail.
-/

namespace Stylesheet

open Arena

/-! ## Plain CSS, read strictly -/

namespace Css

/-- The rule that an item at top level is.  There is none if a node of the item
is not of the sort that stands there in plain CSS. -/
def strictRule? : Tree → Option Rule
  | .node _ (.stylerule selectors body) => do
      let texts ← selectors.mapM Tree.selectorText?
      let declarations ← body.mapM declaration?
      pure ⟨texts, declarations⟩
  | _ => none

/-- The rules of a sheet, if every item of it is one. -/
def strictRules? : Tree → Option (List Rule)
  | .node _ (.stylesheet body) => body.mapM strictRule?
  | _ => none

theorem mapM_eq_some_filterMap
    {α β : Type} {f : α → Option β} {xs : List α} (h : ∀ x ∈ xs, (f x).isSome) :
    xs.mapM f = some (xs.filterMap f) := by
  induction xs with
  | nil => rfl
  | cons x xs ih =>
      rw [List.forall_mem_cons] at h
      obtain ⟨y, hy⟩ := Option.isSome_iff_exists.mp h.1
      rw [List.mapM_cons, hy, ih h.2, List.filterMap_cons_some hy]
      rfl

theorem declaration?_isSome {t : Tree} (h : inRuleItem t = []) :
    (declaration? t).isSome := by
  unfold inRuleItem at h
  split at h
  · next label property expr =>
      simp only [List.append_eq_nil_iff, ite_eq_right_iff, reduceCtorEq,
        imp_false, Option.isNone_iff_eq_none] at h
      obtain ⟨name, hname⟩ := Option.ne_none_iff_exists'.mp h.1
      obtain ⟨value, hvalue⟩ := Option.ne_none_iff_exists'.mp h.2
      simp only [declaration?, hname, hvalue, Option.isSome_some]
  · cases h

theorem strictRule?_eq {t : Tree} (h : inSheetItem t = []) :
    strictRule? t = rule? t ∧ (rule? t).isSome := by
  unfold inSheetItem at h
  split at h
  · next label selectors body =>
      simp only [List.append_eq_nil_iff, List.map_eq_nil_iff,
        List.filter_eq_nil_iff, List.flatMap_eq_nil_iff] at h
      obtain ⟨⟨-, hselectors⟩, hbody⟩ := h
      have htexts : selectors.mapM Tree.selectorText? =
          some (selectors.filterMap Tree.selectorText?) :=
        mapM_eq_some_filterMap fun t ht => by
          simpa [Option.isSome_iff_ne_none] using hselectors t ht
      have hdeclarations : body.mapM declaration? =
          some (body.filterMap declaration?) :=
        mapM_eq_some_filterMap fun t ht => declaration?_isSome (hbody t ht)
      refine ⟨?_, rfl⟩
      rw [strictRule?, htexts, hdeclarations]
      rfl
  · cases h

/-- Where nothing stands in the way of plain CSS, no node is out of place. -/
theorem strictRules?_eq_some {root : Tree} (h : obstacles root = []) :
    strictRules? root = some (rules root) := by
  unfold obstacles at h
  split at h
  · next label body =>
      rw [List.append_eq_nil_iff, List.flatMap_eq_nil_iff] at h
      have hstrict : body.mapM strictRule? =
          some (body.filterMap strictRule?) := by
        refine mapM_eq_some_filterMap fun t ht => ?_
        obtain ⟨heq, hsome⟩ := strictRule?_eq (h.1 t ht)
        rwa [heq]
      rw [strictRules?, hstrict, rules]
      exact congrArg some
        (List.filterMap_congr fun t ht => (strictRule?_eq (h.1 t ht)).1)
  · cases h

end Css

/-! ## What each stage reports -/

theorem Diagnostics.hasErrors_eq_false_iff
    {ds : Diagnostics} (h : ∀ d ∈ ds, d.isError = true) :
    ds.hasErrors = false ↔ ds = [] := by
  rw [hasErrors, List.any_eq_false]
  constructor
  · intro hnone
    refine List.eq_nil_iff_forall_not_mem.mpr fun d hd => ?_
    exact hnone d hd (h d hd)
  · rintro rfl d hd
    cases hd

/-- The stages that can end a compilation with errors. -/
inductive Stage where
  | reading
  | checking
  | evaluating

/-- The kinds of errors that a stage reports. -/
def Stage.kinds : Stage → List DiagnosticKind
  | reading => [.syntaxError]
  | checking => [.undefinedVariable, .typeMismatch, .illegalOperandCombination,
      .disallowedProperty, .misplacedConditional]
  | evaluating => [.unevaluable]

/-- Everything on the list is an error that the stage reports. -/
def Stage.Reports (stage : Stage) (ds : Diagnostics) : Prop :=
  ∀ d ∈ ds, d.isError = true ∧ d.kind ∈ stage.kinds

theorem Stage.Reports.hasErrors_eq_false_iff
    {stage : Stage} {ds : Diagnostics} (h : stage.Reports ds) :
    ds.hasErrors = false ↔ ds = [] :=
  Diagnostics.hasErrors_eq_false_iff fun d hd => (h d hd).1

theorem reports_parse (source : List Char) :
    Stage.reading.Reports (parse source).diagnostics := by
  intro d hd
  obtain ⟨fault, -, rfl⟩ := List.mem_map.mp hd
  exact ⟨rfl, List.mem_singleton_self _⟩

theorem reports_check (source : List Char) :
    Stage.checking.Reports (parse source).arena.check.diagnostics := by
  intro d hd
  rw [Parsed.arena, diagnostics_check, List.mem_filterMap] at hd
  obtain ⟨t, -, hreport⟩ := hd
  obtain ⟨label, -, hmap⟩ := Option.bind_eq_some_iff.mp hreport
  obtain ⟨finding, -, rfl⟩ := Option.map_eq_some_iff.mp hmap
  refine ⟨rfl, ?_⟩
  change finding.fault.kind ∈ Stage.checking.kinds
  cases finding.fault <;> simp [Typing.Fault.kind, Stage.kinds]

theorem reports_unevaluated (a : Arena) :
    Stage.evaluating.Reports a.unevaluated := by
  intro d hd
  obtain ⟨t, -, ht⟩ := List.mem_filterMap.mp hd
  unfold unevaluable? at ht
  split at ht
  · split at ht
    · cases ht
    · rw [← Option.some.inj ht]
      exact ⟨rfl, List.mem_singleton_self _⟩
  · cases ht

/-- What a stage has to report on a source, if the stages before it are
silent. -/
def Stage.report (source : List Char) : Stage → Diagnostics
  | reading => (parse source).diagnostics
  | checking => check source
  | evaluating => (parse source).arena.check.evaluate.unevaluated

/-! ## The outcomes -/

/-- The four ways in which a compilation ends, each with all that it leaves. -/
theorem compile_cases (source : List Char) :
    let checked := (parse source).arena.check
    let rules := Meaning.ofSheet (parse source).sheet
    ((parse source).diagnostics ≠ [] ∧
      compile source = ⟨(parse source).diagnostics, (parse source).arena, ""⟩) ∨
    ((parse source).diagnostics = [] ∧ checked.diagnostics ≠ [] ∧
      compile source = ⟨checked.diagnostics, checked, ""⟩) ∨
    (check source = [] ∧ ¬ Meaning.Complete rules ∧
      compile source = ⟨Meaning.errors rules, checked.evaluate, ""⟩) ∨
    (check source = [] ∧ Meaning.Complete rules ∧
      compile source =
        ⟨[], checked.evaluate, Css.text (rules.map Meaning.Rule.css)⟩) := by
  intro checked rules
  have hparse := (reports_parse source).hasErrors_eq_false_iff
  have hcheck := (reports_check source).hasErrors_eq_false_iff
  by_cases hread : (parse source).diagnostics = []
  · by_cases hfound : checked.diagnostics = []
    · have hnil : check source = [] := check_eq_nil_iff.mpr ⟨hread, hfound⟩
      have hfinish := finish_of_clean (stores_parse source).check hfound
        fun _ _ _ hmem => Reading.selectors_ne_nil_of_mem_statements hmem
      refine .inr (.inr ?_)
      by_cases hcomplete : Meaning.Complete rules
      · rw [if_pos hcomplete] at hfinish
        exact .inr ⟨hnil, hcomplete,
          (compile_of_check_eq_nil hnil).trans hfinish⟩
      · rw [if_neg hcomplete] at hfinish
        exact .inl ⟨hnil, hcomplete,
          (compile_of_check_eq_nil hnil).trans hfinish⟩
    · have herrors : checked.diagnostics.hasErrors = true := by
        rw [← Bool.not_eq_false, hcheck]
        exact hfound
      refine .inr (.inl ⟨hread, hfound, ?_⟩)
      simp only [compile, diagnostics_load, arena_load]
      rw [if_neg (by simp [hparse.mpr hread]), if_pos herrors]
  · have herrors : (parse source).diagnostics.hasErrors = true := by
      rw [← Bool.not_eq_false, hparse]
      exact hread
    refine .inl ⟨hread, ?_⟩
    simp only [compile, diagnostics_load, arena_load]
    rw [if_pos herrors]

/-- Nothing stands in the way of generating from a sheet whose declarations all
have values. -/
theorem obstacles_of_silent
    {source : List Char} (hcheck : check source = [])
    (hvalues : (parse source).arena.check.evaluate.unevaluated = []) :
    Css.obstacles (parse source).arena.check.evaluate.rootTree = [] := by
  have hstores := (stores_parse source).check
  have hclean := (check_eq_nil_iff.mp hcheck).2
  rw [unevaluated_evaluate hstores hclean, Meaning.errors_eq_nil_iff] at hvalues
  exact obstacles_evaluate hstores hclean
    (fun _ _ _ hmem => Reading.selectors_ne_nil_of_mem_statements hmem) hvalues

theorem report_checking
    {source : List Char} (h : (parse source).diagnostics = []) :
    Stage.checking.report source = (parse source).arena.check.diagnostics := by
  simp only [Stage.report, check, diagnostics_load, arena_load, h]
  rfl

theorem report_evaluating
    {source : List Char} (h : check source = []) :
    Stage.evaluating.report source =
      Meaning.errors (Meaning.ofSheet (parse source).sheet) :=
  unevaluated_evaluate (stores_parse source).check (check_eq_nil_iff.mp h).2

/-- Generating never fails on a sheet that reading, checking and evaluation have
passed.  So a compilation either reports errors of one stage and gives no CSS,
or reports nothing and gives the text of the rules that the evaluated sheet
consists of, node by node. -/
theorem compile_never_stuck (source : List Char) :
    ((parse source).diagnostics.hasErrors = false →
      (parse source).arena.check.diagnostics.hasErrors = false →
      (parse source).arena.check.evaluate.unevaluated.hasErrors = false →
        Css.obstacles (parse source).arena.check.evaluate.rootTree = []) ∧
    ((∃ stage : Stage, (compile source).diagnostics = stage.report source ∧
        (compile source).diagnostics ≠ [] ∧
        stage.Reports (compile source).diagnostics ∧
        (compile source).css = "") ∨
      ((compile source).diagnostics = [] ∧
        Css.generate (compile source).arena.rootTree =
          .ok (compile source).css ∧
        ∃ rules, Css.strictRules? (compile source).arena.rootTree = some rules ∧
          (compile source).css = Css.text rules)) := by
  constructor
  · intro hparse hcheck hvalues
    rw [(reports_parse source).hasErrors_eq_false_iff] at hparse
    rw [(reports_check source).hasErrors_eq_false_iff] at hcheck
    rw [(reports_unevaluated _).hasErrors_eq_false_iff] at hvalues
    exact obstacles_of_silent (check_eq_nil_iff.mpr ⟨hparse, hcheck⟩) hvalues
  · rcases compile_cases source with ⟨hread, heq⟩ | ⟨hread, hfound, heq⟩ |
      ⟨hcheck, hcomplete, heq⟩ | ⟨hcheck, hcomplete, heq⟩
    · rw [heq]
      exact .inl ⟨.reading, rfl, hread, reports_parse source, rfl⟩
    · rw [heq]
      exact .inl ⟨.checking, (report_checking hread).symm, hfound,
        reports_check source, rfl⟩
    · have hreport := report_evaluating hcheck
      rw [heq, ← hreport]
      refine .inl ⟨.evaluating, rfl, ?_, reports_unevaluated _, rfl⟩
      rw [hreport, Ne, Meaning.errors_eq_nil_iff]
      exact hcomplete
    · have hvalues : (parse source).arena.check.evaluate.unevaluated = [] :=
        (report_evaluating hcheck).trans
          ((Meaning.errors_eq_nil_iff _).mpr hcomplete)
      have hnone := obstacles_of_silent hcheck hvalues
      have hrules :=
        rules_evaluate (stores_parse source).check
          (check_eq_nil_iff.mp hcheck).2
      rw [heq, ← hrules]
      refine .inr ⟨rfl, ?_, _, Css.strictRules?_eq_some hnone, rfl⟩
      rw [Css.generate, hnone]

/-- A source that compiles, with a conditional inside a conditional, and a sum
of colors, on which evaluation gives up. -/
theorem compile_never_stuck_on_nesting :
    let nested :=
      "p \x7b if [TRUE] \x7b if [FALSE] \x7b \x7d else \x7b width: 2 * 4px; \x7d \x7d \x7d".toList
    let summed := "p \x7b color: #000000 + #ffffff; \x7d".toList
    ((parse nested).diagnostics.hasErrors = false ∧
      (parse nested).arena.check.diagnostics.hasErrors = false ∧
      (parse nested).arena.check.evaluate.unevaluated.hasErrors = false ∧
      Css.obstacles (parse nested).arena.check.evaluate.rootTree = [] ∧
      ∃ rules, Css.strictRules? (compile nested).arena.rootTree = some rules ∧
        Css.text rules = "p \x7b\n  width: 8px;\n\x7d\n") ∧
    (∃ stage : Stage, (compile summed).diagnostics = stage.report summed ∧
      (compile summed).diagnostics ≠ [] ∧
      stage.Reports (compile summed).diagnostics) := by
  intro nested summed
  have hread : (parse nested).diagnostics.hasErrors = false := by decide +kernel
  have hfound : (parse nested).arena.check.diagnostics.hasErrors = false := by
    decide +kernel
  have hvalues : (parse nested).arena.check.evaluate.unevaluated.hasErrors =
      false := by
    decide +kernel
  have hsilent : (compile nested).diagnostics = [] := by decide +kernel
  have hcss : (compile nested).css = "p \x7b\n  width: 8px;\n\x7d\n" := by
    decide +kernel
  have hreported : (compile summed).diagnostics ≠ [] := by decide +kernel
  obtain ⟨hnone, hend⟩ := compile_never_stuck nested
  obtain ⟨-, hend'⟩ := compile_never_stuck summed
  refine ⟨⟨hread, hfound, hvalues, hnone hread hfound hvalues, ?_⟩, ?_⟩
  · rcases hend with ⟨_, -, hne, -⟩ | ⟨-, -, rules, hrules, htext⟩
    · exact absurd hsilent hne
    · exact ⟨rules, hrules, htext.symm.trans hcss⟩
  · rcases hend' with ⟨stage, hreport, hne, hstage, -⟩ | ⟨hnil, -⟩
    · exact ⟨stage, hreport, hne, hstage⟩
    · exact absurd hnil hreported

end Stylesheet
