import Mathlib.Data.List.Perm.Subperm
import Mathlib.Logic.Relation
import Stylesheet.Proofs.Outcome
import Stylesheet.Proofs.Trimming

/-!
# Generating from any arena

Generating first looks for everything that stands in the way of plain CSS, and
then reads the rules without asking again of what sort a node is.  If no node of
the arena is below itself, the first pass comes to every node that can be
reached from the root, whatever the nodes refer to, and what it lets through is
just what the second pass can read.
-/

namespace Stylesheet

/-! ## Parts of a tree -/

theorem Css.exists_of_declaration?_isSome {t : Tree}
    (h : (declaration? t).isSome) :
    ∃ label property expr, t = .node label (.declaration property expr) ∧
      ∃ name, property.propertyName? = some name ∧
        ∃ value, expr.literalValue? = some value := by
  unfold declaration? at h
  split at h
  · next label property expr =>
      split at h
      · next name value hname hvalue =>
          exact ⟨label, property, expr, rfl, name, hname, value, hvalue⟩
      · cases h
  · cases h

theorem Content.mem_children_or
    {c : Content NodeId} {id : NodeId} (h : id ∈ c.toList) :
    id ∈ c.children ∨ id = noNode := by
  cases c <;> simp_all [children, toList]
  all_goals grind

/-! ## Arenas without cycles -/

namespace Arena

/-- The second node stands among the children of the first. -/
def IsParent (a : Arena) (id child : NodeId) : Prop :=
  child ∈ a.children id

/-- No node is below itself. -/
def Acyclic (a : Arena) : Prop :=
  ∀ id, ¬ Relation.TransGen a.IsParent id id

/-- There is no cycle if the nodes can be ranked so that every child ranks below
its parent. -/
theorem acyclic_of_rank
    {a : Arena} (rank : NodeId → Nat)
    (h : ∀ n < a.size, ∀ child ∈ a.children (n : Nat),
      rank child < rank (n : Nat)) :
    a.Acyclic := by
  have hstep : ∀ id child, a.IsParent id child → rank child < rank id := by
    intro id child hchild
    rcases id with n | n
    · refine h n ?_ child hchild
      by_contra hle
      have hnone : a.node? (Int.ofNat n) = none := by
        change a.node? (n : Int) = none
        rw [node?_natCast]
        exact Array.getElem?_eq_none (Nat.not_lt.mp hle)
      rw [IsParent, children, hnone] at hchild
      cases hchild
    · rw [IsParent, children, node?_of_neg (Int.negSucc_lt_zero n)] at hchild
      cases hchild
  intro id hcycle
  have hless : ∀ {id below}, Relation.TransGen a.IsParent id below →
      rank below < rank id := by
    intro id below hbelow
    induction hbelow with
    | single hchild => exact hstep _ _ hchild
    | tail _ hchild ih => exact Nat.lt_trans (hstep _ _ hchild) ih
  exact Nat.lt_irrefl _ (hless hcycle)

/-- The nodes of the path are all different and stand above the given one. -/
structure Above (a : Arena) (path : List NodeId) (id : NodeId) : Prop where
  nodup : path.Nodup
  present : ∀ p ∈ path, (a.node? p).isSome
  above : ∀ p ∈ path, Relation.TransGen a.IsParent p id

theorem above_nil (a : Arena) (id : NodeId) : a.Above [] id :=
  ⟨List.nodup_nil, List.forall_mem_nil _, List.forall_mem_nil _⟩

variable {a : Arena}

theorem tree_of_none {id : NodeId} (h : a.node? id = none) :
    a.tree id = .missing := by
  rw [tree]
  cases a.size with
  | zero => rfl
  | succ n => rw [treeWithin, h]

variable (hacyclic : a.Acyclic)

include hacyclic

theorem Acyclic.above_cons
    {path : List NodeId} {id child : NodeId} (h : a.Above path id)
    (hid : (a.node? id).isSome) (hchild : child ∈ a.children id) :
    a.Above (id :: path) child where
  nodup :=
    List.nodup_cons.mpr ⟨fun hmem => hacyclic id (h.above id hmem), h.nodup⟩
  present := List.forall_mem_cons.mpr ⟨hid, h.present⟩
  above :=
    List.forall_mem_cons.mpr
      ⟨.single hchild, fun p hp => (h.above p hp).tail hchild⟩

/-- A path cannot take up more nodes than there are. -/
theorem Acyclic.node?_eq_none
    {path : List NodeId} {id : NodeId} (h : a.Above path id)
    (hlength : a.size ≤ path.length) :
    a.node? id = none := by
  by_contra hne
  have hid : (a.node? id).isSome := Option.isSome_iff_ne_none.mpr hne
  have hnodup : (id :: path).Nodup :=
    List.nodup_cons.mpr ⟨fun hmem => hacyclic id (h.above id hmem), h.nodup⟩
  have hrange : ∀ p : Int, (a.node? p).isSome → p ∈ idRange 0 a.size := by
    intro p hp
    have hlt := lt_size_of_node?_isSome hp
    have hnonneg : ¬ p < 0 := fun hneg => by simp [node?_of_neg hneg] at hp
    exact mem_idRange.mpr (by omega)
  have hsubset : id :: path ⊆ idRange 0 a.size := by
    intro p hp
    rcases List.mem_cons.mp hp with rfl | hp
    · exact hrange p hid
    · exact hrange p (h.present p hp)
  have hle := (hnodup.subperm hsubset).length_le
  rw [length_idRange, List.length_cons] at hle
  omega

theorem Acyclic.treeWithin_succ
    {path : List NodeId} {id : NodeId} {n : Nat} (h : a.Above path id)
    (hn : a.size ≤ path.length + n) :
    a.treeWithin n id = a.treeWithin (n + 1) id := by
  induction n generalizing path id with
  | zero =>
      rw [treeWithin, treeWithin, hacyclic.node?_eq_none h hn]
  | succ n ih =>
      rw [treeWithin, treeWithin]
      cases hnode : a.node? id with
      | none => rfl
      | some node =>
          have hsame : node.content.map (a.treeWithin n) =
              node.content.map (a.treeWithin (n + 1)) := by
            refine Content.map_congr fun child hchild => ?_
            rcases Content.mem_children_or hchild with hmem | rfl
            · have hmem' : child ∈ a.children id := by rwa [children, hnode]
              refine ih (hacyclic.above_cons h (Option.isSome_of_eq_some hnode)
                hmem') ?_
              rw [List.length_cons]
              omega
            · cases n <;> simp [treeWithin]
          simp only [hsame]

/-- The tree of a node shows the node over the trees of its children, with no
bound to the depth. -/
theorem Acyclic.tree_of_node?
    {id : NodeId} {node : Node} (hnode : a.node? id = some node) :
    a.tree id = .node ⟨id, node.pos, node.diagnostic⟩
      (node.content.map a.tree) := by
  have hdeeper : a.treeWithin a.size id = a.treeWithin (a.size + 1) id :=
    hacyclic.treeWithin_succ (above_nil a id) (by simp)
  rw [tree, hdeeper, treeWithin, hnode]
  rfl

/-- A node shows its own diagnostic. -/
theorem Acyclic.diagnostic?_tree (id : NodeId) :
    (a.tree id).diagnostic? = a.diagnosticOf id := by
  cases hnode : a.node? id with
  | none => rw [tree_of_none hnode, diagnosticOf, hnode]; rfl
  | some node => rw [hacyclic.tree_of_node? hnode, diagnosticOf, hnode]; rfl

/-! ### Nodes that are seen from the root -/

theorem Acyclic.tree_mem_subtrees
    {id : NodeId} (hid : a.Reaches id) (hsome : (a.node? id).isSome) :
    a.tree id ∈ a.rootTree.subtrees := by
  obtain ⟨node, hnode⟩ := Option.isSome_iff_exists.mp hsome
  have hself : a.tree id ∈ (a.tree id).subtrees := by
    rw [hacyclic.tree_of_node? hnode]
    exact Tree.self_mem_subtrees _ _
  induction hid generalizing node with
  | root => exact hself
  | @child parent id _ hchild ih =>
      cases hparent : a.node? parent with
      | none =>
          rw [children, hparent] at hchild
          cases hchild
      | some top =>
          have htop := hacyclic.tree_of_node? hparent
          have hover : a.tree parent ∈ a.rootTree.subtrees := by
            refine ih (Option.isSome_of_eq_some hparent) top hparent ?_
            rw [htop]
            exact Tree.self_mem_subtrees _ _
          rw [children, hparent] at hchild
          have hpart : a.tree id ∈ (top.content.map a.tree).toList := by
            rw [Content.toList_map]
            exact List.mem_map_of_mem
              (Content.mem_toList_of_mem_children hchild)
          refine Tree.subtrees_trans hover ?_
          rw [htop]
          exact Tree.subtrees_subset hpart hself

theorem Acyclic.exists_of_mem_subtrees
    {id : NodeId} {s : Tree} (hid : a.Reaches id)
    (hs : s ∈ (a.tree id).subtrees) :
    ∃ id', a.Reaches id' ∧ s = a.tree id' := by
  generalize htree : a.tree id = t at hs
  induction t using Tree.induction_on generalizing id with
  | hmissing => cases (Tree.subtrees_missing ▸ hs)
  | hnode label c ih =>
      rw [Tree.subtrees_node, List.mem_cons, List.mem_flatMap] at hs
      rcases hs with rfl | ⟨part, hpart, hs⟩
      · exact ⟨id, hid, htree.symm⟩
      · cases hnode : a.node? id with
        | none =>
            rw [tree_of_none hnode] at htree
            cases htree
        | some node =>
            rw [hacyclic.tree_of_node? hnode] at htree
            obtain ⟨-, rfl⟩ := Tree.node.inj htree
            rw [Content.toList_map, List.mem_map] at hpart
            obtain ⟨child, hchild, rfl⟩ := hpart
            rcases Content.mem_children_or hchild with hmem | rfl
            · have hreaches : a.Reaches child :=
                hid.child (by rwa [children, hnode])
              refine ih _ ?_ hreaches rfl hs
              rw [Content.toList_map]
              exact List.mem_map_of_mem hchild
            · rw [tree_of_none (node?_noNode a), Tree.subtrees_missing] at hs
              cases hs

/-- The sheet shows a diagnostic exactly if a node that can be reached carries
one. -/
theorem Acyclic.forall_diagnostic?_iff :
    (∀ t ∈ a.rootTree.subtrees, t.diagnostic? = none) ↔
      ∀ id, a.Reaches id → a.diagnosticOf id = none := by
  constructor
  · intro h id hid
    by_cases hsome : (a.node? id).isSome
    · rw [← hacyclic.diagnostic?_tree]
      exact h _ (hacyclic.tree_mem_subtrees hid hsome)
    · rw [diagnosticOf, Option.not_isSome_iff_eq_none.mp hsome,
        Option.bind_none]
  · intro h t ht
    obtain ⟨id, hid, rfl⟩ := hacyclic.exists_of_mem_subtrees .root ht
    rw [hacyclic.diagnostic?_tree]
    exact h id hid

omit hacyclic

/-! ## Plain CSS in an arena -/

/-- The node is a declaration of a named property, and its expression is a
literal. -/
def PlainDeclaration (a : Arena) (id : NodeId) : Prop :=
  ∃ property expr name value, a.content? id =
    some (.declaration property expr) ∧
    a.content? property = some (.propertyName name) ∧
    a.content? expr = some (.literal value)

/-- The node is a rule with at least one selector, and it holds selectors and
declarations only. -/
def PlainRule (a : Arena) (id : NodeId) : Prop :=
  ∃ selectors body, a.content? id = some (.stylerule selectors body) ∧
    selectors ≠ [] ∧
    (∀ s ∈ selectors, ∃ text, a.content? s = some (.selector text)) ∧
    ∀ item ∈ body, a.PlainDeclaration item

/-- The root is a sheet of rules that plain CSS can say, and nothing that can be
reached from it carries a diagnostic. -/
structure Plain (a : Arena) : Prop where
  rules : ∃ body, a.content? a.root = some (.stylesheet body) ∧
    ∀ id ∈ body, a.PlainRule id
  clean : ∀ id, a.Reaches id → a.diagnosticOf id = none

/-! ### Reading without asking

Each of these takes it for granted that the nodes it comes to are of the sort it
needs.  There is no result if one of them is not. -/

def selectorText? (a : Arena) (id : NodeId) : Option String :=
  (a.content? id).bind fun
    | .selector text => some text
    | _ => none

def propertyName? (a : Arena) (id : NodeId) : Option String :=
  (a.content? id).bind fun
    | .propertyName name => some name
    | _ => none

def literalValue? (a : Arena) (id : NodeId) : Option Literal :=
  (a.content? id).bind fun
    | .literal value => some value
    | _ => none

def declaration? (a : Arena) (id : NodeId) : Option (String × Literal) :=
  (a.content? id).bind fun
    | .declaration property expr => do
        let name ← a.propertyName? property
        let value ← a.literalValue? expr
        pure (name, value)
    | _ => none

def rule? (a : Arena) (id : NodeId) : Option Css.Rule :=
  (a.content? id).bind fun
    | .stylerule selectors body => do
        let texts ← selectors.mapM a.selectorText?
        let declarations ← body.mapM a.declaration?
        pure ⟨texts, declarations⟩
    | _ => none

/-- The rules of the sheet, read by following the numbers from node to node. -/
def rules? (a : Arena) : Option (List Css.Rule) :=
  (a.content? a.root).bind fun
    | .stylesheet body => body.mapM a.rule?
    | _ => none

theorem plainDeclaration_iff {id : NodeId} :
    a.PlainDeclaration id ↔ (a.declaration? id).isSome := by
  constructor
  · rintro ⟨property, expr, name, value, hid, hname, hvalue⟩
    simp [declaration?, hid, propertyName?, hname, literalValue?, hvalue]
  · intro h
    obtain ⟨declared, h⟩ := Option.isSome_iff_exists.mp h
    obtain ⟨c, hid, h⟩ := Option.bind_eq_some_iff.mp h
    cases c with
    | declaration property expr =>
        obtain ⟨name, hname, h⟩ := Option.bind_eq_some_iff.mp h
        obtain ⟨value, hvalue, -⟩ := Option.bind_eq_some_iff.mp h
        obtain ⟨c, hproperty, hc⟩ := Option.bind_eq_some_iff.mp hname
        obtain ⟨c', hexpr, hc'⟩ := Option.bind_eq_some_iff.mp hvalue
        cases c <;> cases hc
        cases c' <;> cases hc'
        exact ⟨property, expr, name, value, hid, hproperty, hexpr⟩
    | _ => cases h

/-! ### Trees tell the same -/

include hacyclic

/-- What can be read from a tree can be read from the content of its node, if so
it is for a node over the trees of its children. -/
theorem Acyclic.read_tree
    {β : Type} {f : Tree → Option β} {g : Content NodeId → Option β}
    (hmissing : f .missing = none)
    (hnode : ∀ label c, f (.node label (c.map a.tree)) = g c) (id : NodeId) :
    f (a.tree id) = (a.content? id).bind g := by
  cases hid : a.node? id with
  | none =>
      rw [tree_of_none hid, content?, hid, hmissing, Option.map_none,
        Option.bind_none]
  | some node =>
      rw [hacyclic.tree_of_node? hid, content?_of_node? hid, hnode,
        Option.bind_some]

theorem Acyclic.selectorText?_tree (id : NodeId) :
    (a.tree id).selectorText? = a.selectorText? id :=
  hacyclic.read_tree rfl (fun _ c => by cases c <;> rfl) id

theorem Acyclic.propertyName?_tree (id : NodeId) :
    (a.tree id).propertyName? = a.propertyName? id :=
  hacyclic.read_tree rfl (fun _ c => by cases c <;> rfl) id

theorem Acyclic.literalValue?_tree (id : NodeId) :
    (a.tree id).literalValue? = a.literalValue? id :=
  hacyclic.read_tree rfl (fun _ c => by cases c <;> rfl) id

theorem Acyclic.declaration?_tree (id : NodeId) :
    Css.declaration? (a.tree id) = a.declaration? id := by
  refine hacyclic.read_tree rfl (fun label c => ?_) id
  cases c with
  | declaration property expr =>
      simp only [Content.map, Css.declaration?, hacyclic.propertyName?_tree,
        hacyclic.literalValue?_tree]
      cases a.propertyName? property <;> cases a.literalValue? expr <;> rfl
  | _ => rfl

theorem Acyclic.strictRule?_tree (id : NodeId) :
    Css.strictRule? (a.tree id) = a.rule? id := by
  have hselectors : Tree.selectorText? ∘ a.tree = a.selectorText? :=
    funext hacyclic.selectorText?_tree
  have hbody : Css.declaration? ∘ a.tree = a.declaration? :=
    funext hacyclic.declaration?_tree
  refine hacyclic.read_tree rfl (fun label c => ?_) id
  cases c with
  | stylerule selectors body =>
      simp only [Content.map, Css.strictRule?, List.mapM_map, hselectors, hbody]
  | _ => rfl

theorem Acyclic.strictRules?_tree : Css.strictRules? a.rootTree = a.rules? := by
  have hrules : Css.strictRule? ∘ a.tree = a.rule? :=
    funext hacyclic.strictRule?_tree
  refine hacyclic.read_tree rfl (fun label c => ?_) a.root
  cases c with
  | stylesheet body =>
      simp only [Content.map, Css.strictRules?, List.mapM_map, hrules]
  | _ => rfl

/-! ## What stands in the way -/

theorem Acyclic.inRuleItem_eq_nil_iff {id : NodeId} :
    Css.inRuleItem (a.tree id) = [] ↔ a.PlainDeclaration id := by
  rw [plainDeclaration_iff, ← hacyclic.declaration?_tree]
  constructor
  · exact Css.declaration?_isSome
  · intro h
    obtain ⟨label, property, expr, htree, name, hname, value, hvalue⟩ :=
      Css.exists_of_declaration?_isSome h
    simp [htree, Css.inRuleItem, hname, hvalue]

theorem Acyclic.inSheetItem_eq_nil_iff {id : NodeId} :
    Css.inSheetItem (a.tree id) = [] ↔ a.PlainRule id := by
  cases hnode : a.node? id with
  | none =>
      simp [tree_of_none hnode, Css.inSheetItem, PlainRule, content?, hnode]
  | some node =>
      obtain ⟨pos, d, c⟩ := node
      have hcontent : a.content? id = some c := content?_of_node? hnode
      rw [hacyclic.tree_of_node? hnode]
      cases c with
      | stylerule selectors body =>
          have hselector : ∀ s, (a.tree s).selectorText?.isNone = false ↔
              ∃ text, a.content? s = some (.selector text) := by
            intro s
            rw [hacyclic.selectorText?_tree, selectorText?]
            cases a.content? s with
            | none => simp
            | some c => cases c <;> simp
          simp only [Content.map, Css.inSheetItem, List.append_eq_nil_iff,
            ite_eq_right_iff, List.map_eq_nil_iff, List.filter_eq_nil_iff,
            List.flatMap_eq_nil_iff, List.forall_mem_map,
            hacyclic.inRuleItem_eq_nil_iff, Bool.not_eq_true, hselector]
          constructor
          · rintro ⟨⟨hne, htexts⟩, hitems⟩
            refine ⟨selectors, body, hcontent, ?_, htexts, hitems⟩
            rintro rfl
            cases hne rfl
          · rintro ⟨selectors', body', heq, hne, htexts, hitems⟩
            rw [hcontent, Option.some.injEq, Content.stylerule.injEq] at heq
            obtain ⟨rfl, rfl⟩ := heq
            refine ⟨⟨fun hempty => ?_, htexts⟩, hitems⟩
            simp [hne] at hempty
      | _ => simp [Content.map, Css.inSheetItem, PlainRule, hcontent]

theorem Acyclic.obstacles_eq_nil_iff :
    Css.obstacles a.rootTree = [] ↔ a.Plain := by
  cases hnode : a.node? a.root with
  | none =>
      have hno : ¬a.Plain :=
        fun ⟨⟨body, hbody, _⟩, _⟩ => by simp [content?, hnode] at hbody
      simp [rootTree, tree_of_none hnode, Css.obstacles, hno]
  | some node =>
      obtain ⟨pos, d, c⟩ := node
      have hcontent : a.content? a.root = some c := content?_of_node? hnode
      have htree := hacyclic.tree_of_node? hnode
      cases c with
      | stylesheet body =>
          have hdiagnostics : a.rootTree.subtrees.filterMap Css.onNode? = [] ↔
              ∀ id, a.Reaches id → a.diagnosticOf id = none := by
            rw [← hacyclic.forall_diagnostic?_iff, List.filterMap_eq_nil_iff]
            simp only [Css.onNode?, Option.map_eq_none_iff]
          have hrules : Css.obstacles a.rootTree =
              (body.map a.tree).flatMap Css.inSheetItem ++
                a.rootTree.subtrees.filterMap Css.onNode? := by
            rw [rootTree, htree]
            rfl
          rw [hrules, List.append_eq_nil_iff, hdiagnostics,
            List.flatMap_eq_nil_iff]
          simp only [List.forall_mem_map, hacyclic.inSheetItem_eq_nil_iff]
          constructor
          · rintro ⟨hbody, hclean⟩
            exact ⟨⟨body, hcontent, hbody⟩, hclean⟩
          · rintro ⟨⟨body', heq, hbody⟩, hclean⟩
            rw [hcontent, Option.some.injEq, Content.stylesheet.injEq] at heq
            exact ⟨heq ▸ hbody, hclean⟩
      | _ =>
          have hno : ¬a.Plain :=
            fun ⟨⟨body, hbody, _⟩, _⟩ => by simp [hcontent] at hbody
          simp [rootTree, htree, Content.map, Css.obstacles, hno]

/-- Where generating gives CSS, every node that it reads is of the sort that it
takes it for. -/
theorem Acyclic.generate_eq_ok (h : a.Plain) :
    ∃ rules, a.rules? = some rules ∧
      Css.generate a.rootTree = .ok (Css.text rules) := by
  have hnone := hacyclic.obstacles_eq_nil_iff.mpr h
  refine ⟨Css.rules a.rootTree, ?_, ?_⟩
  · rw [← hacyclic.strictRules?_tree]
    exact Css.strictRules?_eq_some hnone
  · rw [Css.generate, hnone]

theorem Acyclic.generate_eq_error (h : ¬a.Plain) :
    ∃ found, found ≠ [] ∧ Css.generate a.rootTree = .error found := by
  have hsome : Css.obstacles a.rootTree ≠ [] := fun hnone =>
    h (hacyclic.obstacles_eq_nil_iff.mp hnone)
  refine ⟨Css.obstacles a.rootTree, hsome, ?_⟩
  unfold Css.generate
  split
  · next hnone => exact absurd hnone hsome
  · rfl

end Arena

/-- From an arena without cycles, whatever its nodes are and refer to, CSS is
generated exactly if it is plain, and it is the text of the rules that are found
by following the numbers without asking what sort a node is.  Otherwise there is
no CSS but a list of what stands in the way. -/
theorem generate_guarded {a : Arena} (h : a.Acyclic) :
    ((∃ css, Css.generate a.rootTree = .ok css) ↔ a.Plain) ∧
      (∀ css, Css.generate a.rootTree = .ok css →
        ∃ rules, a.rules? = some rules ∧ css = Css.text rules) ∧
      (¬a.Plain → ∃ found, found ≠ [] ∧
        Css.generate a.rootTree = .error found) := by
  have hplain : ∀ css, Css.generate a.rootTree = .ok css → a.Plain := by
    intro css hcss
    by_contra hno
    obtain ⟨found, -, herror⟩ := h.generate_eq_error hno
    rw [hcss] at herror
    cases herror
  refine ⟨⟨fun ⟨css, hcss⟩ => hplain css hcss, fun hyes => ?_⟩,
    fun css hcss => ?_, h.generate_eq_error⟩
  · obtain ⟨rules, -, hok⟩ := h.generate_eq_ok hyes
    exact ⟨_, hok⟩
  · obtain ⟨rules, hrules, hok⟩ := h.generate_eq_ok (hplain css hcss)
    rw [hcss] at hok
    exact ⟨rules, hrules, Except.ok.inj hok⟩

/-- A sheet that holds one rule twice, which holds one declaration twice.  The
selector of the rule is the node with the given number. -/
def twice (selector : NodeId) : Arena where
  nodes := #[
    ⟨.start, none, .stylesheet [4, 4]⟩,
    ⟨.start, none, .selector "p"⟩,
    ⟨.start, none, .propertyName "width"⟩,
    ⟨.start, none, .literal (.pixel 1)⟩,
    ⟨.start, none, .stylerule [selector] [5, 5]⟩,
    ⟨.start, none, .declaration 2 3⟩]
  root := 0

/-- Shared nodes are generated as often as they are met; there is no node with
the number 9. -/
theorem generate_guarded_shared_and_dangling :
    (twice 1).Acyclic ∧ (twice 1).Plain ∧
      (Css.generate (twice 1).rootTree).toOption =
        some ("p \x7b\n  width: 1px;\n  width: 1px;\n\x7d\n\n" ++
          "p \x7b\n  width: 1px;\n  width: 1px;\n\x7d\n") ∧
      (twice 9).Acyclic ∧ ¬(twice 9).Plain := by
  have hrank : ∀ selector ∈ [1, 9], (twice selector).Acyclic := by
    have hdecide : ∀ selector ∈ [1, 9], ∀ n < 6,
        ∀ child ∈ (twice selector).children (n : Nat),
        ([3, 0, 0, 0, 2, 1].getD child.toNat 0) <
          ([3, 0, 0, 0, 2, 1].getD n 0) := by decide
    intro selector hselector
    exact Arena.acyclic_of_rank (fun id => [3, 0, 0, 0, 2, 1].getD id.toNat 0)
      (hdecide selector hselector)
  have hshared := generate_guarded (hrank 1 (by decide))
  have hdangling := generate_guarded (hrank 9 (by decide))
  refine ⟨hrank 1 (by decide), hshared.1.mp ⟨_, rfl⟩, ?_, hrank 9 (by decide),
    fun hplain => ?_⟩
  · decide +kernel
  · obtain ⟨css, hcss⟩ := hdangling.1.mpr hplain
    have hnone : (Css.generate (twice 9).rootTree).toOption = none := by
      decide +kernel
    rw [hcss] at hnone
    cases hnone

end Stylesheet
