import Stylesheet.Compile
import Stylesheet.Proofs.Findings
import Stylesheet.Proofs.Loading

/-!
# Checked sheets

Checking attaches diagnostics to the nodes of a stored sheet and changes nothing
else.  A node of a sheet carries one afterwards exactly if something was found
about it.
-/

namespace Stylesheet

open Arena

theorem Tree.diagnostics_eq_nil_iff {t : Tree} :
    t.diagnostics = [] ↔ t.hasDiagnostic = false := by
  simp [diagnostics, hasDiagnostic]

namespace Arena.Stores

variable {a : Arena} {sheet : Sheet}

theorem attachAll (h : a.Stores sheet) (findings : List Typing.Finding) :
    (findings.foldl attach a).Stores sheet := by
  induction findings generalizing a with
  | nil => exact h
  | cons finding findings ih => exact ih (h.annotate ..)

theorem check (h : a.Stores sheet) : a.check.Stores sheet :=
  h.attachAll _

/-- Outside a stored sheet there is nothing to carry a diagnostic. -/
theorem diagnosticOf_eq_none_of_notMem
    (h : a.Stores sheet) {id : Int} (hid : id ∉ (sheetTree sheet).ids) :
    a.diagnosticOf id = none := by
  by_cases hneg : id < 0
  · rw [diagnosticOf, node?_of_neg hneg, Option.bind_none]
  · apply diagnosticOf_of_size_le
    refine Int.not_lt.mp fun hlt => hid ?_
    exact h.mem_ids_iff.mpr ⟨Int.not_lt.mp hneg, hlt⟩

theorem diagnosticOf_eq_none
    (h : a.Stores sheet) (hd : a.diagnostics = []) :
    a.diagnosticOf = fun _ => none := by
  funext id
  by_cases hid : id ∈ (sheetTree sheet).ids
  · rw [Arena.diagnostics, h.rootTree_eq, Tree.diagnostics_eq_nil_iff] at hd
    by_contra hne
    have hsome :=
      (Tree.hasDiagnostic_noted _).mpr
        ⟨id, hid, Option.isSome_iff_ne_none.mpr hne⟩
    rw [hd] at hsome
    cases hsome
  · exact h.diagnosticOf_eq_none_of_notMem hid

end Arena.Stores

/-- What is reported of a finding on a node at the given place. -/
def Typing.Finding.report (f : Typing.Finding) (pos : Position) : Diagnostic :=
  .error f.fault.kind pos f.fault.message

theorem node?_attach
    {a : Arena} {id : NodeId} {node : Node} (hnode : a.node? id = some node)
    (finding : Typing.Finding) :
    (a.attach finding).node? id = some { node with
      diagnostic :=
        if finding.id = id then
          some (node.diagnostic.getD (finding.report node.pos))
        else node.diagnostic } := by
  rw [attach, node?_annotate, hnode]
  by_cases hid : finding.id = id
  · rw [if_pos hid.symm, if_pos hid]
    rfl
  · rw [if_neg (Ne.symm hid), if_neg hid]

/-- A node keeps the diagnostic it has; otherwise the first finding about it is
attached. -/
theorem node?_attachAll
    {a : Arena} {id : NodeId} {node : Node} (hnode : a.node? id = some node)
    (findings : List Typing.Finding) :
    (findings.foldl attach a).node? id = some { node with
      diagnostic := node.diagnostic.or
        ((findings.find? (·.id = id)).map (·.report node.pos)) } := by
  induction findings generalizing a node with
  | nil => simpa using hnode
  | cons finding findings ih =>
      rw [List.foldl_cons, ih (node?_attach hnode finding), List.find?_cons]
      by_cases hid : finding.id = id
      · cases hd : node.diagnostic <;> simp [hid]
      · simp [hid]

/-- The first finding about a node, as it is reported there. -/
def Typing.reportOn (findings : List Typing.Finding)
    (t : Tree) : Option Diagnostic :=
  t.label?.bind fun label =>
    (findings.find? (·.id = label.id)).map (·.report label.pos)

theorem diagnosticOf_check
    {sheet : Sheet} {label : Label} {c : Content Tree}
    (h : .node label c ∈ (sheetTree sheet).subtrees) :
    (Arena.ofSheet sheet).check.diagnosticOf label.id =
      Typing.reportOn (Typing.inSheet (sheetTree sheet)) (.node label c) := by
  have hnode := holds_ofSheet sheet label c h
  have hnone : label.diagnostic = none := by
    have hlabel := diagnosticOf_ofSheet sheet label.id
    rwa [diagnosticOf, hnode, Option.bind_some] at hlabel
  rw [Arena.check, (stores_ofSheet sheet).rootTree_eq, Typing.inSheet_noted,
    diagnosticOf, node?_attachAll hnode, Option.bind_some, hnone]
  rfl

/-- Checking reports the first finding about each node, in the order of a
walk. -/
theorem diagnostics_check (sheet : Sheet) :
    (Arena.ofSheet sheet).check.diagnostics =
      (sheetTree sheet).subtrees.filterMap
        (Typing.reportOn (Typing.inSheet (sheetTree sheet))) := by
  rw [Arena.diagnostics, (stores_ofSheet sheet).check.rootTree_eq,
    Tree.diagnostics, Tree.subtrees_noted, List.filterMap_map]
  refine List.filterMap_congr fun t ht => ?_
  cases t with
  | missing => exact absurd ht (Tree.missing_notMem_subtrees _)
  | node label c =>
      rw [← diagnosticOf_check ht, Function.comp_apply, Tree.noted_node]
      rfl

/-- A node of a sheet carries a diagnostic after checking exactly if something
was found about it. -/
theorem diagnosticOf_check_isSome
    {sheet : Sheet} {id : NodeId} (hid : id ∈ (sheetTree sheet).ids) :
    ((Arena.ofSheet sheet).check.diagnosticOf id).isSome ↔
      ∃ f ∈ Typing.inSheet (sheetTree sheet), f.id = id := by
  obtain ⟨t, ht, rfl⟩ := List.mem_map.mp hid
  cases t with
  | missing => exact absurd ht (Tree.missing_notMem_subtrees _)
  | node label c =>
      rw [Tree.rootId, diagnosticOf_check ht, Typing.reportOn, Tree.label?,
        Option.bind_some, Option.isSome_map, List.find?_isSome]
      simp

/-! ## Sources without errors -/

/-- Nothing is reported on a source if reading it and checking it each report
nothing. -/
theorem check_eq_nil_iff {source : List Char} :
    check source = [] ↔
      (parse source).diagnostics = [] ∧
        (parse source).arena.check.diagnostics = [] := by
  simp only [check, diagnostics_load, arena_load, Parsed.diagnostics]
  cases (parse source).faults with
  | nil => simp [Diagnostics.hasErrors]
  | cons fault faults =>
      have herrors : Diagnostics.hasErrors
          ((fault :: faults).map SyntaxFault.diagnostic) = true := rfl
      rw [if_pos herrors]
      simp

/-- A source on which nothing is reported is evaluated. -/
theorem compile_of_check_eq_nil
    {source : List Char} (h : check source = []) :
    compile source = finish (parse source).arena.check := by
  obtain ⟨hparse, hcheck⟩ := check_eq_nil_iff.mp h
  simp [compile, hparse, hcheck, Diagnostics.hasErrors]

theorem finish_arena (a : Arena) : (finish a).arena = a.evaluate := by
  simp only [finish]
  split
  · rfl
  · split <;> rfl

theorem stores_parse (source : List Char) :
    (parse source).arena.Stores (parse source).sheet :=
  stores_ofSheet _

end Stylesheet
