import Stylesheet.Proofs.Checking

/-!
# Annotated arenas

Attaching diagnostics to the nodes of an arena, whatever its nodes refer to.
The arena keeps its size, its root and everything else about its nodes, and
shows the same trees with other diagnostics.  Since what checking finds does not
depend on the diagnostics, checking again finds the same faults at nodes that
carry a diagnostic already.
-/

namespace Stylesheet
namespace Arena

/-! ## Arenas with other diagnostics -/

/-- The same arena with the diagnostic of each node given by its number. -/
def noted (notes : NodeId → Option Diagnostic) (a : Arena) : Arena :=
  { a with nodes :=
    a.nodes.mapIdx fun n node => { node with diagnostic := notes (n : Int) } }

section Noted

variable (notes : NodeId → Option Diagnostic) (a : Arena)

@[simp] theorem size_noted : (a.noted notes).size = a.size := by
  simp [noted, size]

@[simp] theorem root_noted : (a.noted notes).root = a.root := rfl

theorem node?_noted (id : Int) :
    (a.noted notes).node? id =
      (a.node? id).map fun node => { node with diagnostic := notes id } := by
  rcases id with n | n
  · change (a.noted notes).node? (n : Int) =
      (a.node? (n : Int)).map fun node =>
        { node with diagnostic := notes (n : Int) }
    simp [noted, node?_natCast]
  · have hneg : Int.negSucc n < 0 := Int.negSucc_lt_zero n
    rw [node?_of_neg hneg, node?_of_neg hneg, Option.map_none]

theorem treeWithin_noted (n : Nat) (id : NodeId) :
    (a.noted notes).treeWithin n id = (a.treeWithin n id).noted notes := by
  induction n generalizing id with
  | zero => exact (Tree.noted_missing notes).symm
  | succ n ih =>
      rw [treeWithin, treeWithin, node?_noted]
      cases a.node? id with
      | none => exact (Tree.noted_missing notes).symm
      | some node =>
          simp only [Option.map_some]
          rw [Tree.noted_node, Content.map_map]
          exact congrArg _ (Content.map_congr fun child _ => ih child)

theorem rootTree_noted : (a.noted notes).rootTree = a.rootTree.noted notes := by
  rw [rootTree, tree, size_noted, root_noted, treeWithin_noted]
  rfl

end Noted

/-- A node of the second arena is that of the first one, apart from its
diagnostic.  A diagnostic that is there stays, and a new one stands at the place
of its node. -/
structure Annotates (a b : Arena) : Prop where
  size_eq : b.size = a.size
  root_eq : b.root = a.root
  node?_eq : ∀ id, b.node? id =
    (a.node? id).map fun node => { node with diagnostic := b.diagnosticOf id }
  kept : ∀ id d, a.diagnosticOf id = some d → b.diagnosticOf id = some d
  pos_eq : ∀ id node d, a.node? id = some node → node.diagnostic = none →
    b.diagnosticOf id = some d → d.pos = node.pos

theorem Annotates.eq_noted {a b : Arena} (h : a.Annotates b) :
    b = a.noted b.diagnosticOf :=
  ext_node? h.root_eq fun id => (h.node?_eq id).trans (node?_noted _ a id).symm

/-- Other diagnostics do not change which sheet is stored. -/
theorem Stores.noted
    {a : Arena} {sheet : Sheet} (h : a.Stores sheet)
    (notes : NodeId → Option Diagnostic) :
    (a.noted notes).Stores sheet := by
  refine ⟨(size_noted notes a).trans h.size_eq, h.root_eq, ?_⟩
  have hheld : (a.noted notes).Holds
      (((sheetTree sheet).noted a.diagnosticOf).noted
        (a.noted notes).diagnosticOf) :=
    h.holds.noted fun id _ node hnode =>
      ⟨notes id, by rw [node?_noted, hnode]; rfl⟩
  rwa [Tree.noted_noted] at hheld

/-! ## Attaching what was found -/

theorem size_annotate (a : Arena) (id : NodeId) (kind : DiagnosticKind)
    (message : String) :
    (a.annotate id kind message).size = a.size := by
  unfold annotate annotate?
  split <;> simp

theorem root_annotate (a : Arena) (id : NodeId) (kind : DiagnosticKind)
    (message : String) :
    (a.annotate id kind message).root = a.root := by
  unfold annotate annotate?
  split <;> simp

theorem size_attachAll (a : Arena) (findings : List Typing.Finding) :
    (findings.foldl attach a).size = a.size := by
  induction findings generalizing a with
  | nil => rfl
  | cons finding findings ih => exact (ih _).trans (size_annotate a ..)

theorem root_attachAll (a : Arena) (findings : List Typing.Finding) :
    (findings.foldl attach a).root = a.root := by
  induction findings generalizing a with
  | nil => rfl
  | cons finding findings ih => exact (ih _).trans (root_annotate a ..)

theorem node?_attachAll_of_none
    {a : Arena} {id : NodeId} (hnode : a.node? id = none)
    (findings : List Typing.Finding) :
    (findings.foldl attach a).node? id = none := by
  induction findings generalizing a with
  | nil => exact hnode
  | cons finding findings ih =>
      apply ih
      rw [attach, node?_annotate, hnode, Option.map_none, ite_self]

/-- The first finding about the node with the given number, as it is reported at
a place. -/
def firstReport (findings : List Typing.Finding) (id : NodeId)
    (pos : Position) : Option Diagnostic :=
  (findings.find? (·.id = id)).map (·.report pos)

theorem node?_check (a : Arena) (id : NodeId) :
    a.check.node? id = (a.node? id).map fun node =>
      { node with
        diagnostic :=
          node.diagnostic.or
            (firstReport (Typing.inSheet a.rootTree) id node.pos) } := by
  cases hnode : a.node? id with
  | none => exact node?_attachAll_of_none hnode _
  | some node => exact node?_attachAll hnode _

theorem diagnosticOf_check_of_node?
    {a : Arena} {id : NodeId} {node : Node} (hnode : a.node? id = some node) :
    a.check.diagnosticOf id =
      node.diagnostic.or
        (firstReport (Typing.inSheet a.rootTree) id node.pos) := by
  rw [diagnosticOf, node?_check, hnode]
  rfl

theorem annotates_check (a : Arena) : a.Annotates a.check where
  size_eq := size_attachAll a _
  root_eq := root_attachAll a _
  node?_eq id := by
    cases hnode : a.node? id with
    | none => rw [node?_check, hnode, Option.map_none, Option.map_none]
    | some node =>
        rw [diagnosticOf_check_of_node? hnode, node?_check, hnode]; rfl
  kept id d hd := by
    obtain ⟨node, hnode, hdiag⟩ := Option.bind_eq_some_iff.mp hd
    rw [diagnosticOf_check_of_node? hnode, hdiag, Option.some_or]
  pos_eq id node d hnode hnone hd := by
    rw [diagnosticOf_check_of_node? hnode, hnone, Option.none_or] at hd
    obtain ⟨finding, -, rfl⟩ := Option.map_eq_some_iff.mp hd
    rfl

/-! ## Checking again -/

/-- Both runs find the same. -/
theorem inSheet_rootTree_check (a : Arena) :
    Typing.inSheet a.check.rootTree = Typing.inSheet a.rootTree := by
  rw [(annotates_check a).eq_noted, rootTree_noted, Typing.inSheet_noted]

theorem firstReport_isSome_iff
    {findings : List Typing.Finding} {id : NodeId} {pos : Position} :
    (firstReport findings id pos).isSome ↔ ∃ f ∈ findings, f.id = id := by
  rw [firstReport, Option.isSome_map, List.find?_isSome]
  simp

/-- A node carries a diagnostic behind the check exactly if it had one or
something was found about it. -/
theorem diagnosticOf_check_isSome_iff
    {a : Arena} {id : NodeId} {node : Node} (hnode : a.node? id = some node) :
    (a.check.diagnosticOf id).isSome ↔
      node.diagnostic.isSome ∨ ∃ f ∈ Typing.inSheet a.rootTree, f.id = id := by
  rw [diagnosticOf_check_of_node? hnode, Option.isSome_or, Bool.or_eq_true,
    firstReport_isSome_iff]

theorem check_check (a : Arena) : a.check.check = a.check := by
  refine ext_node? (root_attachAll a.check _) fun id => ?_
  rw [node?_check a.check, inSheet_rootTree_check, node?_check a,
    Option.map_map]
  refine congrArg (Option.map · (a.node? id)) (funext fun node => ?_)
  simp only [Function.comp_apply]
  cases node.diagnostic <;>
    cases firstReport (Typing.inSheet a.rootTree) id node.pos <;> rfl

end Arena

open Arena

/-- Checking only attaches diagnostics, to nodes that have none and about which
something is found.  A second run finds the same, attaches nothing and reports
the same. -/
theorem check_annotates_once (a : Arena) :
    a.Annotates a.check ∧
      (∀ id node, a.node? id = some node →
        ((a.check.diagnosticOf id).isSome ↔
          node.diagnostic.isSome ∨
            ∃ f ∈ Typing.inSheet a.rootTree, f.id = id)) ∧
      (∀ f ∈ Typing.inSheet a.check.rootTree,
        a.check.annotate? f.id f.fault.kind f.fault.message = none) ∧
      a.check.check = a.check ∧
      a.check.check.diagnostics = a.check.diagnostics := by
  refine ⟨annotates_check a, fun id node hnode =>
    diagnosticOf_check_isSome_iff hnode, ?_,
    check_check a, congrArg Arena.diagnostics (check_check a)⟩
  intro f hf
  rw [inSheet_rootTree_check] at hf
  rw [annotate?]
  cases hnode : a.node? f.id with
  | none => rw [node?_check, hnode]; rfl
  | some node =>
      have hsome :=
        (diagnosticOf_check_isSome_iff hnode).mpr (.inr ⟨f, hf, rfl⟩)
      rw [(annotates_check a).node?_eq, hnode]
      obtain ⟨d, hd⟩ := Option.isSome_iff_exists.mp hsome
      rw [hd]
      rfl

/-- A declaration that two rules share, one of which assigns to the variable
before it.  It is found wrong twice and keeps the first diagnostic. -/
theorem check_annotates_once_shared_declaration :
    let a : Arena := ⟨#[⟨.start, none, .stylesheet [4, 8]⟩,
      ⟨⟨1, 3⟩, none, .propertyName "width"⟩, ⟨⟨1, 10⟩, none, .reference "A"⟩,
      ⟨⟨1, 3⟩, none, .declaration 1 2⟩, ⟨⟨1, 1⟩, none, .stylerule [] [3]⟩,
      ⟨⟨2, 3⟩, none, .reference "A"⟩, ⟨⟨2, 8⟩, none, .literal (.bool true)⟩,
      ⟨⟨2, 3⟩, none, .assignment 5 6⟩, ⟨⟨2, 1⟩, none, .stylerule [] [7, 3]⟩], 0⟩
    (Typing.inSheet a.rootTree).map Typing.Finding.id = [2, 3, 3] ∧
      (a.check.diagnosticOf 3).map Diagnostic.message =
        some "undefined expression in declaration 'width'" ∧
      a.check.size = a.size ∧
      a.check.check.diagnostics = a.check.diagnostics := by
  intro a
  obtain ⟨hannotates, -, -, -, hagain⟩ := check_annotates_once a
  exact ⟨by decide +kernel, by decide +kernel, hannotates.size_eq, hagain⟩

end Stylesheet
