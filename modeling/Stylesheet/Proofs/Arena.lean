import Mathlib.Data.List.Basic
import Stylesheet.Typing

/-!
# Arenas and the trees they hold

What each operation on an arena does to the nodes that a number gives, and when
a given tree is the one that is seen from a number.  A tree is held by an arena
if each of its nodes is found there under its own number; changes elsewhere in
the arena then leave the tree as it is.
-/

namespace Stylesheet

/-! ## Children of a node -/

namespace Content

variable {α β γ : Type}

/-- All children of a node in order, the absent ones too. -/
def toList : Content α → List α
  | stylesheet body | elseClause body => body
  | stylerule selectors body => selectors ++ body
  | declaration first second | assignment first second
  | operation _ first second =>
      [first, second]
  | ifClause guard body otherwise => guard :: body ++ [otherwise]
  | selector _ | propertyName _ | literal _ | reference _ => []

theorem map_map (f : α → β) (g : β → γ) (c : Content α) :
    (c.map f).map g = c.map (g ∘ f) := by
  cases c <;> simp [map]

theorem map_congr
    {f g : α → β} {c : Content α} (h : ∀ x ∈ c.toList, f x = g x) :
    c.map f = c.map g := by
  cases c <;> simp_all [map, toList]

theorem map_eq_self
    {f : α → α} {c : Content α} (h : ∀ x ∈ c.toList, f x = x) :
    c.map f = c := by
  have hlist : ∀ xs : List α, (∀ x ∈ xs, f x = x) → xs.map f = xs :=
    fun xs hxs => (List.map_congr_left hxs).trans (List.map_id xs)
  cases c <;> simp_all [map, toList]

theorem toList_map (f : α → β) (c : Content α) :
    (c.map f).toList = c.toList.map f := by
  cases c <;> simp [map, toList]

theorem sizeOf_lt_of_mem
    [SizeOf α] {c : Content α} {x : α} (h : x ∈ c.toList) :
    sizeOf x < sizeOf c := by
  have hlist : ∀ {xs : List α}, x ∈ xs → sizeOf x < sizeOf xs :=
    List.sizeOf_lt_of_mem
  cases c <;>
    simp only [toList, List.cons_append, List.mem_cons, List.mem_append,
      List.not_mem_nil, or_false] at h <;>
    simp only [stylesheet.sizeOf_spec, stylerule.sizeOf_spec,
      declaration.sizeOf_spec, assignment.sizeOf_spec, ifClause.sizeOf_spec,
      elseClause.sizeOf_spec, operation.sizeOf_spec]
  case stylesheet | elseClause => have := hlist h; omega
  case stylerule =>
    rcases h with h | h <;> have := hlist h <;> omega
  case declaration | assignment | operation =>
    rcases h with rfl | rfl <;> omega
  case ifClause =>
    rcases h with rfl | h | rfl
    · omega
    · have := hlist h
      omega
    · omega

end Content

/-! ## Trees -/

namespace Tree

/-- The number of the node on top; a missing tree stands for an absent child. -/
def rootId : Tree → NodeId
  | missing => noNode
  | node label _ => label.id

/-- The numbers of all nodes of a tree, in the order of a walk. -/
def ids (t : Tree) : List NodeId :=
  t.subtrees.map rootId

/-- To prove something of every tree, prove it of a node whose children all have
it. -/
theorem induction_on
    {P : Tree → Prop} (t : Tree) (hmissing : P missing)
    (hnode : ∀ label c, (∀ t ∈ c.toList, P t) → P (node label c)) : P t := by
  match t with
  | missing => exact hmissing
  | node label c =>
      refine hnode label c fun s hs => ?_
      have hlt := Content.sizeOf_lt_of_mem hs
      exact induction_on s hmissing hnode
termination_by sizeOf t
decreasing_by simp only [node.sizeOf_spec]; omega

theorem walkAll_eq_flatMap
    (skip : Content Tree → Bool) (ts : List Tree) :
    walkAll skip ts = ts.flatMap (walk skip) := by
  induction ts with
  | nil => simp [walkAll]
  | cons t ts ih => simp [walkAll, ih]

theorem walkContent_eq_flatMap
    (skip : Content Tree → Bool) (c : Content Tree) :
    walkContent skip c = c.toList.flatMap (walk skip) := by
  cases c <;> simp [walkContent, Content.toList, walkAll_eq_flatMap]

theorem walk_node
    (skip : Content Tree → Bool) (label : Label) (c : Content Tree) :
    (node label c).walk skip =
      node label c :: if skip c then [] else c.toList.flatMap (walk skip) := by
  rw [walk, walkContent_eq_flatMap]

@[simp] theorem subtrees_missing : missing.subtrees = [] := by
  simp [subtrees, walk]

@[simp] theorem subtrees_node
    (label : Label) (c : Content Tree) :
    (node label c).subtrees = node label c :: c.toList.flatMap subtrees :=
  walk_node _ label c

@[simp] theorem ids_missing : missing.ids = [] := by
  simp [ids]

@[simp] theorem ids_node
    (label : Label) (c : Content Tree) :
    (node label c).ids = label.id :: c.toList.flatMap ids := by
  simp only [ids, subtrees_node, List.map_cons, List.map_flatMap]
  rfl

/-- A walk that skips something meets no other trees than one that does not. -/
theorem walk_subset_subtrees (skip : Content Tree → Bool) (t : Tree) :
    t.walk skip ⊆ t.subtrees := by
  induction t using induction_on with
  | hmissing => simp [walk]
  | hnode label c ih =>
      intro s hs
      rw [walk_node, List.mem_cons] at hs
      rw [subtrees_node, List.mem_cons]
      refine hs.imp_right fun hs => ?_
      split at hs
      · cases hs
      · obtain ⟨t, ht, hmem⟩ := List.mem_flatMap.mp hs
        exact List.mem_flatMap.mpr ⟨t, ht, ih t ht hmem⟩

theorem missing_notMem_subtrees (t : Tree) : missing ∉ t.subtrees := by
  induction t using induction_on with
  | hmissing => simp
  | hnode label c ih =>
      rw [subtrees_node, List.mem_cons, List.mem_flatMap]
      rintro (h | ⟨t, ht, hmem⟩)
      · cases h
      · exact ih t ht hmem

theorem subtrees_subset
    {label : Label} {c : Content Tree} {t : Tree} (h : t ∈ c.toList) :
    t.subtrees ⊆ (node label c).subtrees := by
  intro s hs
  rw [subtrees_node]
  exact List.mem_cons_of_mem _ (List.mem_flatMap.mpr ⟨t, h, hs⟩)

theorem self_mem_subtrees (label : Label) (c : Content Tree) :
    node label c ∈ (node label c).subtrees := by
  rw [subtrees_node]
  exact List.mem_cons_self

theorem subtrees_trans
    {t s : Tree} (h : s ∈ t.subtrees) : s.subtrees ⊆ t.subtrees := by
  induction t using induction_on with
  | hmissing => simp at h
  | hnode label c ih =>
      have hcases := h
      rw [subtrees_node, List.mem_cons, List.mem_flatMap] at hcases
      rcases hcases with rfl | ⟨t, ht, hs⟩
      · exact List.Subset.refl _
      · exact List.Subset.trans (ih t ht hs) (subtrees_subset ht)

/-- To say something of all nodes of a tree, say it of the node on top and of
those in its parts. -/
theorem forall_node_mem_subtrees_iff
    {P : Label → Content Tree → Prop} {label : Label} {c : Content Tree} :
    (∀ label' c', node label' c' ∈ (node label c).subtrees → P label' c') ↔
      P label c ∧ ∀ t ∈ c.toList, ∀ label' c', node label' c' ∈ t.subtrees →
        P label' c' := by
  constructor
  · intro h
    refine ⟨h label c (self_mem_subtrees label c),
      fun t ht label' c' hmem => ?_⟩
    exact h label' c' (subtrees_subset ht hmem)
  · rintro ⟨htop, hparts⟩ label' c' hmem
    rw [subtrees_node, List.mem_cons, List.mem_flatMap] at hmem
    rcases hmem with heq | ⟨t, ht, hmem⟩
    · obtain ⟨rfl, rfl⟩ := node.inj heq
      exact htop
    · exact hparts t ht label' c' hmem

theorem ids_subset_of_mem_subtrees
    {t s : Tree} (h : s ∈ t.subtrees) : s.ids ⊆ t.ids :=
  List.map_subset _ (subtrees_trans h)

/-! ### Levels -/

/-- The tree has at most `n` levels of nodes. -/
def Within : Nat → Tree → Prop
  | 0, t => t = missing
  | _ + 1, missing => True
  | n + 1, node _ c => ∀ t ∈ c.toList, t.Within n

theorem Within.mono
    {t : Tree} {n m : Nat} (h : t.Within n) (hle : n ≤ m) : t.Within m := by
  induction m generalizing n t with
  | zero =>
      obtain rfl := Nat.le_zero.mp hle
      exact h
  | succ m ih =>
      cases t with
      | missing => trivial
      | node label c =>
          cases n with
          | zero => cases h
          | succ n => exact fun t ht => ih (h t ht) (Nat.le_of_succ_le_succ hle)

/-- There are no more levels than nodes. -/
theorem within_of_length_le
    {t : Tree} {n : Nat} (h : t.subtrees.length ≤ n) : t.Within n := by
  induction n generalizing t with
  | zero =>
      cases t with
      | missing => rfl
      | node label c => simp at h
  | succ n ih =>
      cases t with
      | missing => trivial
      | node label c =>
          intro t ht
          rw [subtrees_node, List.length_cons] at h
          obtain ⟨before, after, heq⟩ := List.append_of_mem ht
          simp only [heq, List.flatMap_append, List.flatMap_cons,
            List.length_append] at h
          exact ih (by omega)

/-! ### Trees with other labels -/

mutual

/-- The same tree with other labels. -/
def relabel (f : Label → Label) : Tree → Tree
  | missing => missing
  | node label c => node (f label) (relabelContent f c)

def relabelContent (f : Label → Label) : Content Tree → Content Tree
  | .stylesheet body => .stylesheet (relabelAll f body)
  | .stylerule selectors body =>
      .stylerule (relabelAll f selectors) (relabelAll f body)
  | .selector text => .selector text
  | .declaration property expr =>
      .declaration (relabel f property) (relabel f expr)
  | .propertyName name => .propertyName name
  | .assignment target expr => .assignment (relabel f target) (relabel f expr)
  | .ifClause guard body otherwise =>
      .ifClause (relabel f guard) (relabelAll f body) (relabel f otherwise)
  | .elseClause body => .elseClause (relabelAll f body)
  | .literal value => .literal value
  | .reference name => .reference name
  | .operation op lhs rhs => .operation op (relabel f lhs) (relabel f rhs)

def relabelAll (f : Label → Label) : List Tree → List Tree
  | [] => []
  | t :: ts => relabel f t :: relabelAll f ts

end

section Relabel

variable (f : Label → Label)

theorem relabelAll_eq_map (ts : List Tree) :
    relabelAll f ts = ts.map (relabel f) := by
  induction ts with
  | nil => rfl
  | cons t ts ih => rw [relabelAll, ih, List.map_cons]

@[simp] theorem relabel_missing : relabel f missing = missing := by
  rw [relabel]

@[simp] theorem relabel_node (label : Label) (c : Content Tree) :
    relabel f (node label c) = node (f label) (c.map (relabel f)) := by
  rw [relabel]
  congr 1
  cases c <;> simp [relabelContent, Content.map, relabelAll_eq_map]

theorem subtrees_relabel (t : Tree) :
    (t.relabel f).subtrees = t.subtrees.map (relabel f) := by
  induction t using induction_on with
  | hmissing => simp
  | hnode label c ih =>
      rw [relabel_node, subtrees_node, subtrees_node, List.map_cons,
        relabel_node, Content.toList_map, List.flatMap_map, List.map_flatMap]
      exact congrArg _ (List.flatMap_congr ih)

theorem relabel_relabel (g : Label → Label) (t : Tree) :
    (t.relabel g).relabel f = t.relabel (f ∘ g) := by
  induction t using induction_on with
  | hmissing => simp
  | hnode label c ih =>
      rw [relabel_node, relabel_node, relabel_node, Content.map_map]
      exact congrArg _ (Content.map_congr ih)

end Relabel

/-! ### Trees with other diagnostics -/

/-- The same tree with the diagnostic of each node given by its number. -/
def noted (notes : NodeId → Option Diagnostic) : Tree → Tree :=
  relabel fun label => ⟨label.id, label.pos, notes label.id⟩

section Noted

variable (notes : NodeId → Option Diagnostic)

@[simp] theorem noted_missing : noted notes missing = missing :=
  relabel_missing _

@[simp] theorem noted_node (label : Label) (c : Content Tree) :
    noted notes (node label c) =
      node ⟨label.id, label.pos, notes label.id⟩ (c.map (noted notes)) :=
  relabel_node _ label c

@[simp] theorem rootId_noted (t : Tree) :
    (t.noted notes).rootId = t.rootId := by
  cases t <;> simp [rootId]

theorem subtrees_noted (t : Tree) :
    (t.noted notes).subtrees = t.subtrees.map (noted notes) :=
  subtrees_relabel _ t

@[simp] theorem ids_noted (t : Tree) : (t.noted notes).ids = t.ids := by
  simp only [ids, subtrees_noted, List.map_map]
  exact List.map_congr_left fun s _ => rootId_noted notes s

@[simp] theorem noted_noted (notes' : NodeId → Option Diagnostic) (t : Tree) :
    (t.noted notes').noted notes = t.noted notes :=
  relabel_relabel _ _ t

theorem noted_mem_subtrees
    {t s : Tree} (h : s ∈ t.subtrees) :
    s.noted notes ∈ (t.noted notes).subtrees := by
  rw [subtrees_noted]
  exact List.mem_map_of_mem h

theorem hasDiagnostic_noted {t : Tree} :
    (t.noted notes).hasDiagnostic = true ↔ ∃ id ∈ t.ids, (notes id).isSome := by
  simp only [hasDiagnostic, subtrees_noted, ids, List.any_map, List.any_eq_true,
    List.mem_map, exists_exists_and_eq_and]
  refine exists_congr fun s => and_congr_right fun hs => ?_
  cases s with
  | missing => exact absurd hs (missing_notMem_subtrees t)
  | node label c => simp [diagnostic?, label?, rootId]

end Noted

end Tree

/-! ## Nodes of an arena -/

namespace Arena

@[simp] theorem node?_natCast (a : Arena) (n : Nat) :
    a.node? (n : Int) = a.nodes[n]? := by
  rw [node?, if_neg (Int.not_lt.mpr (Int.natCast_nonneg n)), Int.toNat_natCast]

theorem lt_size_of_node?_eq_some
    {a : Arena} {n : Nat} {node : Node} (h : a.node? (n : Int) = some node) :
    n < a.size := by
  rw [node?_natCast] at h
  exact (Array.getElem?_eq_some_iff.mp h).1

theorem node?_of_neg {a : Arena} {id : Int} (h : id < 0) : a.node? id = none :=
  if_pos h

/-- Two arenas with the same root and the same nodes are equal. -/
theorem ext_node?
    {a b : Arena} (hroot : a.root = b.root)
    (h : ∀ id : Int, a.node? id = b.node? id) :
    a = b := by
  have hnodes : a.nodes = b.nodes := Array.ext_getElem? fun n => by
    simpa only [node?_natCast] using h n
  cases a
  cases b
  simp_all

@[simp] theorem node?_noNode (a : Arena) : a.node? noNode = none :=
  node?_of_neg (by decide)

@[simp] theorem add_fst (a : Arena) (pos : Position) (c : Content NodeId) :
    (a.add pos c).1 = a.size := rfl

@[simp] theorem size_add (a : Arena) (pos : Position) (c : Content NodeId) :
    (a.add pos c).2.size = a.size + 1 := by
  simp [add, size]

@[simp] theorem root_add (a : Arena) (pos : Position) (c : Content NodeId) :
    (a.add pos c).2.root = a.root := rfl

theorem node?_add
    (a : Arena) (pos : Position) (c : Content NodeId) (id : Int) :
    (a.add pos c).2.node? id = if id = a.size then some ⟨pos, none, c⟩
      else a.node? id := by
  rcases id with n | n
  · change (a.add pos c).2.node? (n : Int) = if (n : Int) = a.size then _
      else a.node? (n : Int)
    simp only [add, node?_natCast, Array.getElem?_push, size, Int.natCast_inj]
  · have hneg : Int.negSucc n < 0 := Int.negSucc_lt_zero n
    rw [node?_of_neg hneg, node?_of_neg hneg, if_neg (by omega)]

@[simp] theorem size_modify (a : Arena) (id : NodeId) (f : Node → Node) :
    (a.modify id f).size = a.size := by
  unfold modify
  split <;> simp [size]

@[simp] theorem root_modify (a : Arena) (id : NodeId) (f : Node → Node) :
    (a.modify id f).root = a.root := by
  unfold modify
  split <;> rfl

theorem node?_modify
    (a : Arena) (id : Int) (f : Node → Node) (j : Int) :
    (a.modify id f).node? j = if j = id then (a.node? j).map f
      else a.node? j := by
  rcases j with m | m
  · change (a.modify id f).node? (m : Int) =
      if (m : Int) = id then (a.node? (m : Int)).map f else a.node? (m : Int)
    by_cases hid : id < 0
    · rw [modify, if_pos hid, if_neg (by omega)]
    · obtain ⟨n, rfl⟩ := Int.eq_ofNat_of_zero_le (Int.not_lt.mp hid)
      rw [modify, if_neg hid]
      simp only [node?_natCast, Int.toNat_natCast, Array.getElem?_modify,
        Int.natCast_inj, @eq_comm _ m n]
  · have hneg : Int.negSucc m < 0 := Int.negSucc_lt_zero m
    rw [node?_of_neg hneg, node?_of_neg hneg, Option.map_none, ite_self]

theorem node?_setContent
    (a : Arena) (id : Int) (c : Content NodeId) (j : Int) :
    (a.setContent id c).node? j =
      if j = id then (a.node? j).map fun node => { node with content := c }
      else a.node? j :=
  node?_modify a id _ j

@[simp] theorem size_setContent (a : Arena) (id : NodeId) (c : Content NodeId) :
    (a.setContent id c).size = a.size :=
  size_modify a id _

@[simp] theorem root_setContent (a : Arena) (id : NodeId) (c : Content NodeId) :
    (a.setContent id c).root = a.root :=
  root_modify a id _

@[simp] theorem diagnosticOf_setContent
    (a : Arena) (id : Int) (c : Content NodeId) (j : Int) :
    (a.setContent id c).diagnosticOf j = a.diagnosticOf j := by
  rw [diagnosticOf, diagnosticOf, node?_setContent]
  split
  · cases a.node? j <;> rfl
  · rfl

/-- Attaching an error changes at most the diagnostic of one node that has none
yet. -/
theorem node?_annotate
    (a : Arena) (id : Int) (kind : DiagnosticKind) (message : String)
    (j : Int) :
    (a.annotate id kind message).node? j =
      if j = id then
        (a.node? j).map fun node =>
          { node with
            diagnostic :=
              some (node.diagnostic.getD (.error kind node.pos message)) }
      else a.node? j := by
  cases hnode : a.node? id with
  | none =>
      have hsame : a.annotate id kind message = a := by
        simp [annotate, annotate?, hnode]
      by_cases hj : j = id
      · simp [hsame, hj, hnode]
      · simp [hsame, hj]
  | some node =>
      obtain ⟨pos, diagnostic, c⟩ := node
      cases diagnostic with
      | none =>
          by_cases hj : j = id
          · simp [annotate, annotate?, hnode, node?_modify, hj]
          · simp [annotate, annotate?, hnode, node?_modify, hj]
      | some d =>
          have hsame : a.annotate id kind message = a := by
            simp [annotate, annotate?, hnode]
          by_cases hj : j = id
          · simp [hsame, hj, hnode]
          · simp [hsame, hj]

/-! ## Trees of an arena -/

/-- Every node of the tree is found in the arena under its number. -/
def Holds (a : Arena) (t : Tree) : Prop :=
  ∀ label c, Tree.node label c ∈ t.subtrees →
    a.node? label.id = some ⟨label.pos, label.diagnostic, c.map Tree.rootId⟩

theorem holds_missing (a : Arena) : a.Holds .missing := by
  simp [Holds]

theorem holds_node_iff
    {a : Arena} {label : Label} {c : Content Tree} :
    a.Holds (.node label c) ↔
      a.node? label.id = some ⟨label.pos, label.diagnostic, c.map Tree.rootId⟩ ∧
        ∀ t ∈ c.toList, a.Holds t :=
  Tree.forall_node_mem_subtrees_iff

/-- What is held depends only on the nodes whose numbers occur in the tree. -/
theorem Holds.congr
    {a a' : Arena} {t : Tree} (h : a.Holds t)
    (hsame : ∀ id ∈ t.ids, a'.node? id = a.node? id) : a'.Holds t := by
  intro label c hmem
  rw [hsame label.id (List.mem_map.mpr ⟨_, hmem, rfl⟩)]
  exact h label c hmem

theorem diagnosticOf_eq_of_holds
    {a : Arena} {t : Tree} {label : Label} {c : Content Tree} (h : a.Holds t)
    (hmem : .node label c ∈ t.subtrees) :
    a.diagnosticOf label.id = label.diagnostic := by
  rw [diagnosticOf, h label c hmem, Option.bind_some]

/-- A tree that the arena holds carries the diagnostics of the arena. -/
theorem noted_eq_of_holds
    {a : Arena} {t : Tree} (h : a.Holds t) : t.noted a.diagnosticOf = t := by
  induction t using Tree.induction_on with
  | hmissing => exact Tree.noted_missing _
  | hnode label c ih =>
      have hlabel := diagnosticOf_eq_of_holds h (List.mem_cons_self ..)
      have hc : c.map (Tree.noted a.diagnosticOf) = c :=
        Content.map_eq_self fun t ht => ih t ht ((holds_node_iff.mp h).2 t ht)
      rw [Tree.noted_node, hlabel, hc]

/-- A change of diagnostics alone shows in the tree as just that. -/
theorem Holds.noted
    {a a' : Arena} {t : Tree} (h : a.Holds t)
    (hsame : ∀ id ∈ t.ids, ∀ node, a.node? id = some node →
      ∃ d, a'.node? id = some { node with diagnostic := d }) :
    a'.Holds (t.noted a'.diagnosticOf) := by
  intro label c hmem
  rw [Tree.subtrees_noted, List.mem_map] at hmem
  obtain ⟨s, hs, heq⟩ := hmem
  cases s with
  | missing => exact absurd hs (Tree.missing_notMem_subtrees t)
  | node label' c' =>
      rw [Tree.noted_node] at heq
      obtain ⟨rfl, rfl⟩ := Tree.node.inj heq
      obtain ⟨d, hd⟩ :=
        hsame label'.id (List.mem_map.mpr ⟨_, hs, rfl⟩) _ (h label' c' hs)
      have hdiag : a'.diagnosticOf label'.id = d := by
        rw [diagnosticOf, hd, Option.bind_some]
      have hroot : Tree.rootId ∘ Tree.noted a'.diagnosticOf = Tree.rootId :=
        funext fun t => Tree.rootId_noted _ t
      rw [hd, hdiag, Content.map_map, hroot]

theorem lt_size_of_node?_isSome
    {a : Arena} {id : Int} (h : (a.node? id).isSome) : id < a.size := by
  rcases id with n | n
  · obtain ⟨node, hnode⟩ := Option.isSome_iff_exists.mp h
    exact Int.ofNat_lt.mpr (lt_size_of_node?_eq_some hnode)
  · rw [node?_of_neg (Int.negSucc_lt_zero n)] at h
    cases h

theorem Holds.node?_isSome
    {a : Arena} {t : Tree} {id : NodeId} (h : a.Holds t) (hid : id ∈ t.ids) :
    (a.node? id).isSome := by
  obtain ⟨s, hs, rfl⟩ := List.mem_map.mp hid
  cases s with
  | missing => exact absurd hs (Tree.missing_notMem_subtrees t)
  | node label c => exact Option.isSome_of_eq_some (h label c hs)

theorem Holds.lt_size
    {a : Arena} {t : Tree} {id : NodeId} (h : a.Holds t) (hid : id ∈ t.ids) :
    id < (a.size : Int) :=
  lt_size_of_node?_isSome (h.node?_isSome hid)

theorem Holds.of_mem_subtrees
    {a : Arena} {t s : Tree} (h : a.Holds t) (hs : s ∈ t.subtrees) :
    a.Holds s :=
  fun label c hmem => h label c (Tree.subtrees_trans hs hmem)

theorem treeWithin_eq_of_holds
    {a : Arena} {t : Tree} {n : Nat} (h : a.Holds t) (hn : t.Within n) :
    a.treeWithin n t.rootId = t := by
  induction n generalizing t with
  | zero =>
      obtain rfl : t = .missing := hn
      rfl
  | succ n ih =>
      cases t with
      | missing => simp [treeWithin, Tree.rootId]
      | node label c =>
          obtain ⟨hnode, hchildren⟩ := holds_node_iff.mp h
          have hc : (c.map Tree.rootId).map (a.treeWithin n) = c := by
            rw [Content.map_map]
            exact Content.map_eq_self fun t ht => ih (hchildren t ht) (hn t ht)
          simp only [treeWithin, Tree.rootId, hnode, hc]

/-- A tree that the arena holds, with no more levels than the arena has nodes,
is seen from its top. -/
theorem tree_eq_of_holds
    {a : Arena} {t : Tree} (h : a.Holds t) (hlevels : t.Within a.size) :
    a.tree t.rootId = t :=
  treeWithin_eq_of_holds h hlevels

end Arena
end Stylesheet
