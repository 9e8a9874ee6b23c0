import Mathlib.Data.List.Nodup
import Stylesheet.Arena.OfSheet
import Stylesheet.Proofs.Arena

/-!
# The numbers of a stored sheet

Storing a sheet numbers its nodes in the order in which they are completed, so
the nodes of every part take up an unbroken run of numbers.  Here the tree of
each part is given by the first number of its run, and an arena is said to store
a sheet if it holds that tree, whatever diagnostics are attached to it.
-/

namespace Stylesheet

/-! ## Counting nodes -/

def Expr.pos : Expr → Position
  | .literal pos _ | .reference pos _ | .operation pos _ _ _ => pos

def Expr.count : Expr → Nat
  | .literal _ _ | .reference _ _ => 1
  | .operation _ _ lhs rhs => lhs.count + rhs.count + 1

mutual

/-- The number of nodes of an item. -/
def Item.count : Item → Nat
  | .declaration _ _ expr | .assignment _ _ expr => 1 + expr.count + 1
  | .ifThen _ guard body => guard.count + countItems body + 1
  | .ifElse _ guard body _ otherwise =>
      guard.count + countItems body + countItems otherwise + 1 + 1

def countItems : List Item → Nat
  | [] => 0
  | item :: items => item.count + countItems items

end

def Statement.count : Statement → Nat
  | .assignment _ _ expr => 1 + expr.count + 1
  | .rule _ selectors body => selectors.length + countItems body + 1
  | .ifThen pos guard body => (Item.ifThen pos guard body).count
  | .ifElse pos guard body elsePos otherwise =>
      (Item.ifElse pos guard body elsePos otherwise).count

def countStatements : List Statement → Nat
  | [] => 0
  | statement :: statements => statement.count + countStatements statements

theorem Expr.count_pos (e : Expr) : 0 < e.count := by
  cases e <;> simp [count]

theorem Item.count_pos (item : Item) : 0 < item.count := by
  cases item <;> simp [count]

/-! ## Trees from a number on -/

/-- A node without a diagnostic. -/
def Tree.plain (n : Nat) (pos : Position) (c : Content Tree) : Tree :=
  .node ⟨n, pos, none⟩ c

/-- The tree of an expression whose nodes are numbered from `n` on. -/
def Expr.treeAt (n : Nat) : Expr → Tree
  | .literal pos value => .plain n pos (.literal value)
  | .reference pos name => .plain n pos (.reference name)
  | .operation pos op lhs rhs =>
      .plain (n + lhs.count + rhs.count) pos
        (.operation op (lhs.treeAt n) (rhs.treeAt (n + lhs.count)))

def declarationTree (n : Nat) (pos : Position) (property : String)
    (expr : Expr) : Tree :=
  .plain (n + 1 + expr.count) pos
    (.declaration (.plain n pos (.propertyName property)) (expr.treeAt (n + 1)))

def assignmentTree (n : Nat) (pos : Position) (name : String)
    (expr : Expr) : Tree :=
  .plain (n + 1 + expr.count) pos
    (.assignment (.plain n pos (.reference name)) (expr.treeAt (n + 1)))

mutual

/-- The tree of an item whose nodes are numbered from `n` on. -/
def Item.treeAt (n : Nat) : Item → Tree
  | .declaration pos property expr => declarationTree n pos property expr
  | .assignment pos name expr => assignmentTree n pos name expr
  | .ifThen pos guard body =>
      .plain (n + guard.count + countItems body) pos
        (.ifClause (guard.treeAt n) (itemTrees (n + guard.count) body) .missing)
  | .ifElse pos guard body elsePos otherwise =>
      let m := n + guard.count + countItems body
      .plain (m + countItems otherwise + 1) pos
        (.ifClause (guard.treeAt n) (itemTrees (n + guard.count) body)
          (.plain (m + countItems otherwise) elsePos
            (.elseClause (itemTrees m otherwise))))

def itemTrees (n : Nat) : List Item → List Tree
  | [] => []
  | item :: items => item.treeAt n :: itemTrees (n + item.count) items

end

def selectorTrees (n : Nat) : List Selector → List Tree
  | [] => []
  | selector :: selectors =>
      .plain n selector.pos (.selector selector.text) :: selectorTrees (n + 1)
        selectors

def Statement.treeAt (n : Nat) : Statement → Tree
  | .assignment pos name expr => assignmentTree n pos name expr
  | .rule pos selectors body =>
      .plain (n + selectors.length + countItems body) pos
        (.stylerule (selectorTrees n selectors)
          (itemTrees (n + selectors.length) body))
  | .ifThen pos guard body => (Item.ifThen pos guard body).treeAt n
  | .ifElse pos guard body elsePos otherwise =>
      (Item.ifElse pos guard body elsePos otherwise).treeAt n

def statementTrees (n : Nat) : List Statement → List Tree
  | [] => []
  | statement :: statements =>
      statement.treeAt n :: statementTrees (n + statement.count) statements

theorem statementTrees_append (front back : Sheet) (n : Nat) :
    statementTrees n (front ++ back) =
      statementTrees n front
        ++ statementTrees (n + countStatements front) back := by
  induction front generalizing n with
  | nil => rfl
  | cons s front ih =>
      rw [List.cons_append, statementTrees, statementTrees, ih, countStatements,
        List.cons_append, Nat.add_assoc]

/-- The tree of a whole sheet, whose root comes first. -/
def sheetTree (sheet : Sheet) : Tree :=
  .plain 0 .start (.stylesheet (statementTrees 1 sheet))

/-! ## The run of numbers of a part -/

/-- The numbers of `k` nodes from `n` on. -/
def idRange (n k : Nat) : List NodeId :=
  (List.range' n k).map fun i : Nat => (i : Int)

theorem mem_idRange {n k : Nat} {id : Int} :
    id ∈ idRange n k ↔ (n : Int) ≤ id ∧ id < n + k := by
  simp only [idRange, List.mem_map, List.mem_range'_1]
  constructor
  · rintro ⟨i, hi, rfl⟩
    omega
  · rintro ⟨hle, hlt⟩
    exact ⟨id.toNat, by omega, by omega⟩

theorem idRange_subset
    {n k m j : Nat} (hfirst : n ≤ m) (hlast : m + j ≤ n + k) :
    idRange m j ⊆ idRange n k := by
  intro id hid
  have hrange := mem_idRange.mp hid
  exact mem_idRange.mpr (by omega)

theorem notMem_idRange_of_mem
    {n k m j : Nat} {id : Int} (hid : id ∈ idRange n k)
    (hle : n + k ≤ m ∨ m + j ≤ n) :
    id ∉ idRange m j := by
  rw [mem_idRange] at hid ⊢
  omega

theorem ne_of_mem_idRange
    {n k m : Nat} {id : Int} (hid : id ∈ idRange n k) (hle : n + k ≤ m) :
    id ≠ m := by
  rw [mem_idRange] at hid
  omega

theorem nodup_idRange (n k : Nat) : (idRange n k).Nodup :=
  List.Nodup.map (fun _ _ heq => Int.ofNat.inj heq) List.nodup_range'

theorem idRange_one (n : Nat) : idRange n 1 = [(n : Int)] := rfl

theorem idRange_add (n j k : Nat) :
    idRange n (j + k) = idRange n j ++ idRange (n + j) k := by
  rw [idRange, idRange, idRange, ← List.map_append, List.range'_append_1]

@[simp] theorem length_idRange (n k : Nat) : (idRange n k).length = k := by
  simp [idRange]

theorem length_subtrees_of_perm
    {t : Tree} {n k : Nat} (h : t.ids.Perm (idRange n k)) :
    t.subtrees.length = k := by
  rw [← List.length_map, ← length_idRange n k]
  exact h.length_eq

/-- A run of numbers with the number behind it in front. -/
theorem cons_idRange_perm (n k : Nat) :
    (((n + k : Nat) : Int) :: idRange n k).Perm (idRange n (k + 1)) := by
  rw [idRange_add, idRange_one]
  exact (List.perm_append_singleton _ _).symm

/-- A node over a part that ends right before it continues the run of that
part. -/
theorem ids_plain_perm
    {n k top : Nat} {pos : Position} {c : Content Tree}
    (h : (c.toList.flatMap Tree.ids).Perm (idRange n k)) (htop : top = n + k) :
    (Tree.plain top pos c).ids.Perm (idRange n (k + 1)) := by
  subst htop
  rw [Tree.plain, Tree.ids_node]
  exact (h.cons _).trans (cons_idRange_perm n k)

theorem Expr.ids_treeAt_perm (e : Expr) (n : Nat) :
    (e.treeAt n).ids.Perm (idRange n e.count) := by
  induction e generalizing n with
  | literal pos value => exact .refl _
  | reference pos name => exact .refl _
  | operation pos op lhs rhs ihl ihr =>
      refine ids_plain_perm ?_ (Nat.add_assoc ..)
      simpa [Content.toList, idRange_add] using
        (ihl n).append (ihr (n + lhs.count))

theorem ids_declarationTree_perm
    (n : Nat) (pos : Position) (property : String) (e : Expr) :
    (declarationTree n pos property e).ids.Perm
      (idRange n (1 + e.count + 1)) := by
  refine ids_plain_perm ?_ (Nat.add_assoc ..)
  simpa [Content.toList, Tree.plain, idRange_add, idRange_one] using
    e.ids_treeAt_perm (n + 1)

theorem ids_assignmentTree_perm
    (n : Nat) (pos : Position) (name : String) (e : Expr) :
    (assignmentTree n pos name e).ids.Perm (idRange n (1 + e.count + 1)) := by
  refine ids_plain_perm ?_ (Nat.add_assoc ..)
  simpa [Content.toList, Tree.plain, idRange_add, idRange_one] using
    e.ids_treeAt_perm (n + 1)

/-- To prove something of all lists of items, take the first item apart and use
it for the items inside that one and for the items behind it. -/
theorem Item.list_induction
    {P : List Item → Prop} (nil : P [])
    (declaration : ∀ pos property expr items, P items →
      P (.declaration pos property expr :: items))
    (assignment : ∀ pos name expr items, P items →
      P (.assignment pos name expr :: items))
    (ifThen : ∀ pos guard body items, P body → P items →
      P (.ifThen pos guard body :: items))
    (ifElse : ∀ pos guard body elsePos otherwise items, P body → P otherwise →
      P items →
      P (.ifElse pos guard body elsePos otherwise :: items))
    (items : List Item) : P items :=
  match items with
  | [] => nil
  | .declaration pos property expr :: items =>
      declaration pos property expr items
        (list_induction nil declaration assignment ifThen ifElse items)
  | .assignment pos name expr :: items =>
      assignment pos name expr items
        (list_induction nil declaration assignment ifThen ifElse items)
  | .ifThen pos guard body :: items =>
      ifThen pos guard body items
        (list_induction nil declaration assignment ifThen ifElse body)
        (list_induction nil declaration assignment ifThen ifElse items)
  | .ifElse pos guard body elsePos otherwise :: items =>
      ifElse pos guard body elsePos otherwise items
        (list_induction nil declaration assignment ifThen ifElse body)
        (list_induction nil declaration assignment ifThen ifElse otherwise)
        (list_induction nil declaration assignment ifThen ifElse items)

theorem ids_itemTrees_perm (items : List Item) (n : Nat) :
    ((itemTrees n items).flatMap Tree.ids).Perm
      (idRange n (countItems items)) := by
  induction items using Item.list_induction generalizing n with
  | nil => exact .refl _
  | declaration pos property expr items ih =>
      rw [itemTrees, List.flatMap_cons, countItems, idRange_add]
      exact (ids_declarationTree_perm n pos property expr).append (ih _)
  | assignment pos name expr items ih =>
      rw [itemTrees, List.flatMap_cons, countItems, idRange_add]
      exact (ids_assignmentTree_perm n pos name expr).append (ih _)
  | ifThen pos guard body items ihbody ih =>
      rw [itemTrees, List.flatMap_cons, countItems, idRange_add]
      refine List.Perm.append (ids_plain_perm ?_ (Nat.add_assoc ..)) (ih _)
      simpa [Content.toList, idRange_add] using
        (guard.ids_treeAt_perm n).append (ihbody (n + guard.count))
  | ifElse pos guard body elsePos otherwise items ihbody ihelse ih =>
      rw [itemTrees, List.flatMap_cons, countItems, idRange_add]
      refine List.Perm.append ?_ (ih _)
      have hbody : ((guard.treeAt n).ids
          ++ (itemTrees (n + guard.count) body).flatMap Tree.ids).Perm
            (idRange n (guard.count + countItems body)) := by
        rw [idRange_add]
        exact (guard.ids_treeAt_perm n).append (ihbody _)
      have helse : (Tree.plain
          (n + guard.count + countItems body + countItems otherwise) elsePos
          (.elseClause (itemTrees (n + guard.count + countItems body)
            otherwise))).ids.Perm
            (idRange (n + guard.count + countItems body)
              (countItems otherwise + 1)) :=
        ids_plain_perm (ihelse _) rfl
      have hall := hbody.append helse
      rw [Nat.add_assoc n, ← idRange_add] at hall
      rw [Item.count, Item.treeAt]
      refine ids_plain_perm ?_ (by omega)
      simpa [Content.toList, Nat.add_assoc] using hall

theorem Item.ids_treeAt_perm (item : Item) (n : Nat) :
    (item.treeAt n).ids.Perm (idRange n item.count) := by
  simpa [itemTrees, countItems] using ids_itemTrees_perm [item] n

theorem exists_of_mem_selectorTrees
    {selectors : List Selector} {n : Nat} {t : Tree}
    (ht : t ∈ selectorTrees n selectors) :
    ∃ k < selectors.length, ∃ pos text, t =
      .plain (n + k) pos (.selector text) := by
  induction selectors generalizing n with
  | nil => cases ht
  | cons selector selectors ih =>
      rw [selectorTrees, List.mem_cons] at ht
      rcases ht with rfl | ht
      · exact ⟨0, Nat.succ_pos _, _, _, rfl⟩
      · obtain ⟨k, hk, pos, text, rfl⟩ := ih ht
        exact ⟨k + 1, Nat.succ_lt_succ hk, pos, text,
          by rw [Nat.add_assoc, Nat.add_comm 1]⟩

theorem ids_selectorTrees_perm (selectors : List Selector) (n : Nat) :
    ((selectorTrees n selectors).flatMap Tree.ids).Perm
      (idRange n selectors.length) := by
  induction selectors generalizing n with
  | nil => exact .refl _
  | cons selector selectors ih =>
      rw [List.length_cons, Nat.add_comm, idRange_add]
      exact (List.Perm.refl [(n : Int)]).append (ih (n + 1))

theorem Statement.ids_treeAt_perm (statement : Statement) (n : Nat) :
    (statement.treeAt n).ids.Perm (idRange n statement.count) := by
  cases statement with
  | assignment pos name expr => exact ids_assignmentTree_perm n pos name expr
  | rule pos selectors body =>
      refine ids_plain_perm ?_ (Nat.add_assoc ..)
      simpa [Content.toList, idRange_add] using
        (ids_selectorTrees_perm selectors n).append (ids_itemTrees_perm body _)
  | ifThen pos guard body => exact Item.ids_treeAt_perm _ n
  | ifElse pos guard body elsePos otherwise => exact Item.ids_treeAt_perm _ n

theorem ids_statementTrees_perm (statements : List Statement) (n : Nat) :
    ((statementTrees n statements).flatMap Tree.ids).Perm
      (idRange n (countStatements statements)) := by
  induction statements generalizing n with
  | nil => exact .refl _
  | cons statement statements ih =>
      rw [statementTrees, List.flatMap_cons, countStatements, idRange_add]
      exact (statement.ids_treeAt_perm n).append (ih _)

/-- The numbers of a sheet's nodes are those from 0 on, each taken once. -/
theorem ids_sheetTree_perm (sheet : Sheet) :
    (sheetTree sheet).ids.Perm (idRange 0 (1 + countStatements sheet)) := by
  rw [idRange_add, idRange_one, sheetTree, Tree.plain, Tree.ids_node]
  exact (ids_statementTrees_perm sheet 1).cons _

/-! ## Storing -/

namespace Arena

/-- The second arena is the first one with `k` nodes added behind it. -/
structure Grows (a : Arena) (k : Nat) (a' : Arena) : Prop where
  size_eq : a'.size = a.size + k
  root_eq : a'.root = a.root
  node?_eq : ∀ id : Int, id < a.size → a'.node? id = a.node? id
  diagnosticOf_eq : ∀ id : Int, a.size ≤ id → a'.diagnosticOf id = none

theorem diagnosticOf_of_size_le {a : Arena} {id : Int} (h : a.size ≤ id) :
    a.diagnosticOf id = none := by
  cases hnode : a.node? id with
  | none => rw [diagnosticOf, hnode, Option.bind_none]
  | some node =>
      have hlt := lt_size_of_node?_isSome (Option.isSome_of_eq_some hnode)
      omega

theorem Grows.refl (a : Arena) : a.Grows 0 a :=
  ⟨rfl, rfl, fun _ _ => rfl, fun _ => diagnosticOf_of_size_le⟩

theorem Grows.trans
    {a b c : Arena} {j k : Nat} (hab : a.Grows j b) (hbc : b.Grows k c) :
    a.Grows (j + k) c := by
  refine ⟨?_, hbc.root_eq.trans hab.root_eq, fun id hid => ?_, fun id hid => ?_⟩
  · rw [hbc.size_eq, hab.size_eq, Nat.add_assoc]
  · have hlt : id < b.size := by
      rw [hab.size_eq]
      omega
    rw [hbc.node?_eq id hlt, hab.node?_eq id hid]
  · by_cases hlt : id < b.size
    · rw [diagnosticOf, hbc.node?_eq id hlt]
      exact hab.diagnosticOf_eq id hid
    · exact hbc.diagnosticOf_eq id (Int.not_lt.mp hlt)

theorem grows_add (a : Arena) (pos : Position) (c : Content NodeId) :
    a.Grows 1 (a.add pos c).2 := by
  refine ⟨size_add a pos c, rfl, fun id hid => ?_, fun id hid => ?_⟩
  · rw [node?_add, if_neg (by omega)]
  · rw [diagnosticOf, node?_add]
    split
    · rfl
    · exact diagnosticOf_of_size_le hid

theorem Holds.grows
    {a a' : Arena} {k : Nat} {t : Tree} (h : a.Holds t)
    (hgrows : a.Grows k a') :
    a'.Holds t :=
  h.congr fun id hid => hgrows.node?_eq id (h.lt_size hid)

/-- Storing gave the number of the tree's top, in an arena with `k` more nodes
that holds the tree. -/
structure Gains (a : Arena) (k : Nat) (t : Tree)
    (stored : NodeId × Arena) : Prop where
  id_eq : stored.1 = t.rootId
  grows : a.Grows k stored.2
  holds : stored.2.Holds t

/-- The same for a list of trees. -/
structure GainsAll
    (a : Arena) (k : Nat) (ts : List Tree)
    (stored : List NodeId × Arena) : Prop where
  ids_eq : stored.1 = ts.map Tree.rootId
  grows : a.Grows k stored.2
  holds : ∀ t ∈ ts, stored.2.Holds t

/-- A node is stored behind its children. -/
theorem Grows.gains_add
    {a b : Arena} {k top : Nat} {pos : Position} {c : Content Tree}
    {content : Content NodeId} (hgrows : a.Grows k b)
    (hchildren : ∀ t ∈ c.toList, b.Holds t)
    (hcontent : content = c.map Tree.rootId) (htop : top = a.size + k) :
    a.Gains (k + 1) (.plain top pos c) (b.add pos content) := by
  have hsize : b.size = top := hgrows.size_eq.trans htop.symm
  refine ⟨congrArg _ hsize, hgrows.trans (grows_add b pos content), ?_⟩
  refine holds_node_iff.mpr
    ⟨?_, fun t ht => (hchildren t ht).grows (grows_add b pos content)⟩
  rw [node?_add, hsize, if_pos rfl, hcontent]

theorem GainsAll.nil (a : Arena) : a.GainsAll 0 [] ([], a) :=
  ⟨rfl, .refl a, by simp⟩

theorem Gains.cons
    {a : Arena} {j k : Nat} {t : Tree} {ts : List Tree}
    {first : NodeId × Arena} {more : List NodeId × Arena}
    (hfirst : a.Gains j t first) (hmore : first.2.GainsAll k ts more) :
    a.GainsAll (j + k) (t :: ts) (first.1 :: more.1, more.2) := by
  refine ⟨?_, hfirst.grows.trans hmore.grows, ?_⟩
  · rw [List.map_cons, ← hfirst.id_eq, ← hmore.ids_eq]
  · intro s hs
    rcases List.mem_cons.mp hs with rfl | hs
    · exact hfirst.holds.grows hmore.grows
    · exact hmore.holds s hs

end Arena

open Arena

theorem Expr.gains_store (e : Expr) (a : Arena) :
    a.Gains e.count (e.treeAt a.size) (e.store a) := by
  induction e generalizing a with
  | literal pos value =>
      exact (Grows.refl a).gains_add (by simp [Content.toList]) rfl rfl
  | reference pos name =>
      exact (Grows.refl a).gains_add (by simp [Content.toList]) rfl rfl
  | operation pos op lhs rhs ihl ihr =>
      have hl := ihl a
      have hr := ihr (lhs.store a).2
      rw [hl.grows.size_eq] at hr
      refine (hl.grows.trans hr.grows).gains_add ?_ ?_ (Nat.add_assoc ..)
      · simpa [Content.toList] using ⟨hl.holds.grows hr.grows, hr.holds⟩
      · rw [hl.id_eq, hr.id_eq]
        rfl

/-- A declaration and an assignment are stored alike: a leaf, an expression, and
the node. -/
theorem Arena.gains_pair
    (head : Content Tree) (both : ∀ {α : Type}, α → α → Content α)
    (hhead : head.toList = [])
    (hboth : ∀ x y : Tree, (both x y).toList = [x, y])
    (hmap : ∀ x y : Tree, (both x y).map Tree.rootId = both x.rootId y.rootId)
    (a : Arena) (pos : Position) (e : Expr) :
    a.Gains (1 + e.count + 1)
      (.plain (a.size + 1 + e.count) pos
        (both (.plain a.size pos head) (e.treeAt (a.size + 1))))
      ((e.store (a.add pos (head.map Tree.rootId)).2).2.add pos
        (both (a.size : NodeId)
          (e.store (a.add pos (head.map Tree.rootId)).2).1)) := by
  have hname : a.Gains 1 (.plain a.size pos head)
      (a.add pos (head.map Tree.rootId)) :=
    (Grows.refl a).gains_add (by simp [hhead]) rfl rfl
  have hvalue := e.gains_store (a.add pos (head.map Tree.rootId)).2
  rw [size_add] at hvalue
  refine (hname.grows.trans hvalue.grows).gains_add ?_ ?_ (Nat.add_assoc ..)
  · simpa [hboth] using ⟨hname.holds.grows hvalue.grows, hvalue.holds⟩
  · rw [hmap, hvalue.id_eq]
    rfl

theorem gains_storeDeclaration
    (pos : Position) (property : String) (e : Expr) (a : Arena) :
    a.Gains (1 + e.count + 1) (declarationTree a.size pos property e)
      (storeDeclaration pos property e a) :=
  gains_pair (.propertyName property) .declaration rfl (fun _ _ => rfl)
    (fun _ _ => rfl) a pos e

theorem gains_storeAssignment
    (pos : Position) (name : String) (e : Expr) (a : Arena) :
    a.Gains (1 + e.count + 1) (assignmentTree a.size pos name e)
      (storeAssignment pos name e a) :=
  gains_pair (.reference name) .assignment rfl (fun _ _ => rfl)
    (fun _ _ => rfl) a pos e

theorem gains_storeItems (items : List Item) (a : Arena) :
    a.GainsAll (countItems items) (itemTrees a.size items)
      (storeItems items a) := by
  induction items using Item.list_induction generalizing a with
  | nil => exact .nil a
  | declaration pos property expr items ih =>
      have hfirst := gains_storeDeclaration pos property expr a
      refine hfirst.cons ?_
      rw [Item.count, ← hfirst.grows.size_eq]
      exact ih _
  | assignment pos name expr items ih =>
      have hfirst := gains_storeAssignment pos name expr a
      refine hfirst.cons ?_
      rw [Item.count, ← hfirst.grows.size_eq]
      exact ih _
  | ifThen pos guard body items ihbody ih =>
      have hguard := guard.gains_store a
      have hbody := ihbody (guard.store a).2
      rw [hguard.grows.size_eq] at hbody
      have hfirst : a.Gains (Item.ifThen pos guard body).count
          ((Item.ifThen pos guard body).treeAt a.size)
          ((Item.ifThen pos guard body).store a) := by
        refine (hguard.grows.trans hbody.grows).gains_add ?_ ?_
          (Nat.add_assoc ..)
        · simp only [Content.toList, List.cons_append, List.forall_mem_cons,
            List.forall_mem_append, List.not_mem_nil, false_implies,
            implies_true, and_true]
          exact ⟨hguard.holds.grows hbody.grows, hbody.holds, holds_missing _⟩
        · rw [hguard.id_eq, hbody.ids_eq]
          rfl
      refine hfirst.cons ?_
      rw [← hfirst.grows.size_eq]
      exact ih _
  | ifElse pos guard body elsePos otherwise items ihbody ihelse ih =>
      have hguard := guard.gains_store a
      have hbody := ihbody (guard.store a).2
      have helse := ihelse (storeItems body (guard.store a).2).2
      rw [hbody.grows.size_eq, hguard.grows.size_eq] at helse
      rw [hguard.grows.size_eq] at hbody
      have hgrows := (hguard.grows.trans hbody.grows).trans helse.grows
      have hclause : a.Gains
          (guard.count + countItems body + countItems otherwise + 1)
          (.plain
            (a.size + guard.count + countItems body + countItems otherwise)
            elsePos
            (.elseClause (itemTrees (a.size + guard.count + countItems body)
              otherwise)))
          ((storeItems otherwise (storeItems body (guard.store a).2).2).2.add
            elsePos (.elseClause
              (storeItems otherwise
                (storeItems body (guard.store a).2).2).1)) := by
        refine hgrows.gains_add helse.holds ?_ (by omega)
        rw [helse.ids_eq]
        rfl
      have hrest := helse.grows.trans (grows_add _ elsePos
        (.elseClause (storeItems otherwise
          (storeItems body (guard.store a).2).2).1))
      have hfirst : a.Gains (Item.ifElse pos guard body elsePos otherwise).count
          ((Item.ifElse pos guard body elsePos otherwise).treeAt a.size)
          ((Item.ifElse pos guard body elsePos otherwise).store a) := by
        refine hclause.grows.gains_add ?_ ?_ (by omega)
        · simp only [Content.toList, List.cons_append, List.forall_mem_cons,
            List.forall_mem_append, List.not_mem_nil, false_implies,
            implies_true, and_true]
          exact ⟨(hguard.holds.grows hbody.grows).grows hrest,
            fun t ht => (hbody.holds t ht).grows hrest, hclause.holds⟩
        · rw [hguard.id_eq, hbody.ids_eq, hclause.id_eq]
          rfl
      refine hfirst.cons ?_
      rw [← hfirst.grows.size_eq]
      exact ih _

theorem Item.gains_store (item : Item) (a : Arena) :
    a.Gains item.count (item.treeAt a.size) (item.store a) := by
  have h := gains_storeItems [item] a
  refine ⟨(List.cons.inj h.ids_eq).1, ?_, h.holds _ (List.mem_singleton_self _)⟩
  exact h.grows

theorem gains_storeSelectors (selectors : List Selector) (a : Arena) :
    a.GainsAll selectors.length (selectorTrees a.size selectors)
      (storeSelectors selectors a) := by
  induction selectors generalizing a with
  | nil => exact .nil a
  | cons selector selectors ih =>
      have hfirst : a.Gains 1
          (.plain a.size selector.pos (.selector selector.text))
          (a.add selector.pos (.selector selector.text)) :=
        (Grows.refl a).gains_add (by simp [Content.toList]) rfl rfl
      rw [List.length_cons, Nat.add_comm]
      refine hfirst.cons ?_
      rw [← hfirst.grows.size_eq]
      exact ih _

theorem Statement.gains_store (statement : Statement) (a : Arena) :
    a.Gains statement.count (statement.treeAt a.size) (statement.store a) := by
  cases statement with
  | assignment pos name expr => exact gains_storeAssignment pos name expr a
  | rule pos selectors body =>
      have hheads := gains_storeSelectors selectors a
      have hbody := gains_storeItems body (storeSelectors selectors a).2
      rw [hheads.grows.size_eq] at hbody
      refine (hheads.grows.trans hbody.grows).gains_add ?_ ?_ (Nat.add_assoc ..)
      · simp only [Content.toList, List.forall_mem_append]
        exact ⟨fun t ht => (hheads.holds t ht).grows hbody.grows, hbody.holds⟩
      · rw [hheads.ids_eq, hbody.ids_eq]
        rfl
  | ifThen pos guard body => exact Item.gains_store _ a
  | ifElse pos guard body elsePos otherwise => exact Item.gains_store _ a

theorem gains_storeStatements (statements : List Statement) (a : Arena) :
    a.GainsAll (countStatements statements) (statementTrees a.size statements)
      (storeStatements statements a) := by
  induction statements generalizing a with
  | nil => exact .nil a
  | cons statement statements ih =>
      have hfirst := statement.gains_store a
      refine hfirst.cons ?_
      rw [← hfirst.grows.size_eq]
      exact ih _

/-! ## Arenas that store a sheet -/

/-- The arena is that of the sheet, apart from the diagnostics attached to its
nodes. -/
structure Arena.Stores (a : Arena) (sheet : Sheet) : Prop where
  size_eq : a.size = 1 + countStatements sheet
  root_eq : a.root = 0
  holds : a.Holds ((sheetTree sheet).noted a.diagnosticOf)

theorem holds_ofSheet (sheet : Sheet) :
    (Arena.ofSheet sheet).Holds (sheetTree sheet) := by
  have h := gains_storeStatements sheet .empty
  refine holds_node_iff.mpr
    ⟨?_, fun t ht => (h.holds t ht).congr fun id hid => ?_⟩
  · have hroot : (storeStatements sheet .empty).2.node? 0 =
        Arena.empty.node? 0 :=
      h.grows.node?_eq 0 (by decide)
    change (Arena.ofSheet sheet).node? 0 = _
    rw [Arena.ofSheet, node?_setContent, if_pos rfl, hroot, h.ids_eq]
    rfl
  · have hrange : id ∈ idRange 1 (countStatements sheet) :=
      (ids_statementTrees_perm sheet 1).mem_iff.mp
        (List.mem_flatMap.mpr ⟨t, ht, hid⟩)
    have hne : id ≠ 0 := by
      rintro rfl
      exact absurd (mem_idRange.mp hrange).1 (by decide)
    rw [Arena.ofSheet, node?_setContent, if_neg hne]

theorem stores_ofSheet (sheet : Sheet) :
    (Arena.ofSheet sheet).Stores sheet := by
  have h := gains_storeStatements sheet .empty
  refine ⟨?_, ?_, ?_⟩
  · rw [Arena.ofSheet, size_setContent, h.grows.size_eq]
    rfl
  · rw [Arena.ofSheet, root_setContent, h.grows.root_eq]
    rfl
  · rw [noted_eq_of_holds (holds_ofSheet sheet)]
    exact holds_ofSheet sheet

/-- A sheet is stored without diagnostics. -/
theorem diagnosticOf_ofSheet (sheet : Sheet) (id : Int) :
    (Arena.ofSheet sheet).diagnosticOf id = none := by
  have h := gains_storeStatements sheet .empty
  have hstored : (storeStatements sheet .empty).2.diagnosticOf id = none := by
    by_cases hid : id < (Arena.empty.size : Int)
    · rw [diagnosticOf, h.grows.node?_eq id hid]
      by_cases hneg : id < 0
      · rw [node?_of_neg hneg, Option.bind_none]
      · have hsize : Arena.empty.size = 1 := rfl
        obtain rfl : id = 0 := by omega
        rfl
    · exact h.grows.diagnosticOf_eq id (Int.not_lt.mp hid)
  rw [Arena.ofSheet, diagnosticOf_setContent, hstored]

/-! ## Parts of a stored sheet -/

section Parts

variable {a : Arena} {notes : NodeId → Option Diagnostic} {n : Nat}

/-- A node of a sheet is held with its diagnostic, and so are its parts. -/
theorem holds_noted_plain_iff {pos : Position} {c : Content Tree} :
    a.Holds ((Tree.plain n pos c).noted notes) ↔
      a.node? (n : Int) = some ⟨pos, notes n, c.map Tree.rootId⟩ ∧
        ∀ t ∈ c.toList, a.Holds (t.noted notes) := by
  have hroot : Tree.rootId ∘ Tree.noted notes = Tree.rootId :=
    funext fun t => Tree.rootId_noted _ t
  rw [Tree.plain, Tree.noted_node, holds_node_iff, Content.map_map, hroot,
    Content.toList_map, List.forall_mem_map]

/-- The node on top of an expression is a literal exactly if the expression
is. -/
theorem holds_expr
    {e : Expr} (h : a.Holds ((e.treeAt n).noted notes)) :
    ∃ c, a.node? (e.treeAt n).rootId =
      some ⟨e.pos, notes (e.treeAt n).rootId, c⟩ ∧
      ∀ value, c = .literal value ↔ e = .literal e.pos value := by
  cases e with
  | literal pos value =>
      exact ⟨_, (holds_noted_plain_iff.mp h).1,
        fun _ => by simp [Content.map, Expr.pos]⟩
  | reference pos name =>
      exact ⟨_, (holds_noted_plain_iff.mp h).1, fun _ => by simp [Content.map]⟩
  | operation pos op lhs rhs =>
      exact ⟨_, (holds_noted_plain_iff.mp h).1, fun _ => by simp [Content.map]⟩

theorem holds_declarationTree
    {pos : Position} {property : String} {e : Expr}
    (h : a.Holds ((declarationTree n pos property e).noted notes)) :
    a.node? (declarationTree n pos property e).rootId =
        some ⟨pos, notes (n + 1 + e.count : Nat),
          .declaration n (e.treeAt (n + 1)).rootId⟩ ∧
      a.Holds ((Tree.plain n pos (.propertyName property)).noted notes) ∧
        a.Holds ((e.treeAt (n + 1)).noted notes) := by
  obtain ⟨hnode, hparts⟩ := holds_noted_plain_iff.mp h
  exact ⟨hnode, hparts _ (by simp [Content.toList]),
    hparts _ (by simp [Content.toList])⟩

theorem holds_assignmentTree
    {pos : Position} {name : String} {e : Expr}
    (h : a.Holds ((assignmentTree n pos name e).noted notes)) :
    a.node? (assignmentTree n pos name e).rootId =
        some ⟨pos, notes (n + 1 + e.count : Nat),
          .assignment n (e.treeAt (n + 1)).rootId⟩ ∧
      a.Holds ((Tree.plain n pos (.reference name)).noted notes) ∧
        a.Holds ((e.treeAt (n + 1)).noted notes) := by
  obtain ⟨hnode, hparts⟩ := holds_noted_plain_iff.mp h
  exact ⟨hnode, hparts _ (by simp [Content.toList]),
    hparts _ (by simp [Content.toList])⟩

theorem holds_ifThen
    {pos : Position} {guard : Expr} {body : List Item}
    (h : a.Holds (((Item.ifThen pos guard body).treeAt n).noted notes)) :
    a.node? ((Item.ifThen pos guard body).treeAt n).rootId =
        some ⟨pos, notes (n + guard.count + countItems body : Nat),
          .ifClause (guard.treeAt n).rootId
            ((itemTrees (n + guard.count) body).map Tree.rootId) noNode⟩ ∧
      a.Holds ((guard.treeAt n).noted notes) ∧
        ∀ t ∈ itemTrees (n + guard.count) body, a.Holds (t.noted notes) := by
  rw [Item.treeAt] at h ⊢
  obtain ⟨hnode, hparts⟩ := holds_noted_plain_iff.mp h
  exact ⟨hnode, hparts _ (by simp [Content.toList]),
    fun t ht => hparts t (by simp [Content.toList, ht])⟩

theorem holds_ifElse
    {pos : Position} {guard : Expr} {body : List Item}
    {elsePos : Position} {otherwise : List Item}
    (h : a.Holds
      (((Item.ifElse pos guard body elsePos otherwise).treeAt n).noted notes)) :
    a.node? ((Item.ifElse pos guard body elsePos otherwise).treeAt n).rootId =
        some ⟨pos, notes
          (n + guard.count + countItems body + countItems otherwise + 1 : Nat),
          .ifClause (guard.treeAt n).rootId
            ((itemTrees (n + guard.count) body).map Tree.rootId)
            (n + guard.count + countItems body + countItems otherwise : Nat)⟩ ∧
      a.Holds ((guard.treeAt n).noted notes) ∧
      (∀ t ∈ itemTrees (n + guard.count) body, a.Holds (t.noted notes)) ∧
      (∃ d, a.node?
          (n + guard.count + countItems body + countItems otherwise : Nat) =
        some ⟨elsePos, d, .elseClause
          ((itemTrees (n + guard.count + countItems body) otherwise).map
            Tree.rootId)⟩) ∧
        ∀ t ∈ itemTrees (n + guard.count + countItems body) otherwise,
          a.Holds (t.noted notes) := by
  rw [Item.treeAt] at h ⊢
  obtain ⟨hnode, hparts⟩ := holds_noted_plain_iff.mp h
  obtain ⟨helse, hotherwise⟩ := holds_noted_plain_iff.mp
    (hparts (.plain (n + guard.count + countItems body + countItems otherwise)
      elsePos (.elseClause
        (itemTrees (n + guard.count + countItems body) otherwise)))
      (by simp [Content.toList]))
  exact ⟨hnode, hparts _ (by simp [Content.toList]),
    fun t ht => hparts t (by simp [Content.toList, ht]), ⟨_, helse⟩, hotherwise⟩

theorem holds_rule
    {pos : Position} {selectors : List Selector} {body : List Item}
    (h : a.Holds (((Statement.rule pos selectors body).treeAt n).noted notes)) :
    a.node? ((Statement.rule pos selectors body).treeAt n).rootId =
        some ⟨pos, notes (n + selectors.length + countItems body : Nat),
          .stylerule ((selectorTrees n selectors).map Tree.rootId)
            ((itemTrees (n + selectors.length) body).map Tree.rootId)⟩ ∧
      (∀ t ∈ selectorTrees n selectors, a.Holds (t.noted notes)) ∧
        ∀ t ∈ itemTrees (n + selectors.length) body,
          a.Holds (t.noted notes) := by
  rw [Statement.treeAt] at h ⊢
  obtain ⟨hnode, hparts⟩ := holds_noted_plain_iff.mp h
  exact ⟨hnode, fun t ht => hparts t (by simp [Content.toList, ht]),
    fun t ht => hparts t (by simp [Content.toList, ht])⟩

end Parts

namespace Arena.Stores

variable {a : Arena} {sheet : Sheet}

theorem rootTree_eq (h : a.Stores sheet) :
    a.rootTree = (sheetTree sheet).noted a.diagnosticOf := by
  rw [rootTree, h.root_eq]
  refine tree_eq_of_holds h.holds (Tree.within_of_length_le (Nat.le_of_eq ?_))
  rw [Tree.subtrees_noted, List.length_map,
    length_subtrees_of_perm (ids_sheetTree_perm sheet), h.size_eq]

/-- The numbers of a stored sheet are those of the arena. -/
theorem mem_ids_iff (h : a.Stores sheet) {id : Int} :
    id ∈ (sheetTree sheet).ids ↔ 0 ≤ id ∧ id < a.size := by
  rw [(ids_sheetTree_perm sheet).mem_iff, mem_idRange, h.size_eq]
  omega

/-- Attaching errors does not change which sheet is stored. -/
theorem annotate
    (h : a.Stores sheet) (id : NodeId) (kind : DiagnosticKind)
    (message : String) :
    (a.annotate id kind message).Stores sheet := by
  have hnode := node?_annotate a id kind message
  have hsize : (a.annotate id kind message).size = a.size ∧
      (a.annotate id kind message).root = a.root := by
    unfold Arena.annotate annotate?
    split <;> simp
  refine ⟨hsize.1.trans h.size_eq, hsize.2.trans h.root_eq, ?_⟩
  have hsame : ∀ j ∈ ((sheetTree sheet).noted a.diagnosticOf).ids, ∀ node,
      a.node? j = some node →
        ∃ d, (a.annotate id kind message).node? j =
          some { node with diagnostic := d } := by
    intro j _ node hj
    rw [hnode j, hj]
    split
    · exact ⟨_, rfl⟩
    · exact ⟨node.diagnostic, rfl⟩
  have hnoted := h.holds.noted hsame
  rwa [Tree.noted_noted] at hnoted

end Arena.Stores

theorem rootTree_ofSheet (sheet : Sheet) :
    (Arena.ofSheet sheet).rootTree = sheetTree sheet := by
  rw [(stores_ofSheet sheet).rootTree_eq,
    noted_eq_of_holds (holds_ofSheet sheet)]

end Stylesheet
