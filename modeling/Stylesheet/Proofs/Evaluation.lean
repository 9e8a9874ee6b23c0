import Stylesheet.Proofs.Evaluated

/-!
# Evaluation in place

Evaluating a stored sheet node by node, with a chain of frames and an arena that
changes under way, gives what selection says on the syntax: the same
declarations in the same order, and an arena that differs exactly by the writes
of those declarations.
-/

namespace Stylesheet

open Arena

variable {notes : NodeId → Option Diagnostic}

/-- The tree of a part of a sheet is seen from its top. -/
theorem Arena.Holds.tree_eq
    {a : Arena} {t : Tree} {n k : Nat}
    (h : a.Holds (t.noted notes)) (hperm : t.ids.Perm (idRange n k)) :
    a.tree t.rootId = t.noted notes := by
  rw [← Tree.rootId_noted notes]
  refine tree_eq_of_holds h (Tree.within_of_length_le ?_)
  rw [Tree.subtrees_noted, List.length_map, length_subtrees_of_perm hperm]
  cases k with
  | zero => exact Nat.zero_le _
  | succ k =>
      have hmem : ((n + k : Nat) : Int) ∈ (t.noted notes).ids := by
        rw [Tree.ids_noted, hperm.mem_iff, mem_idRange]
        omega
      have hlt := h.lt_size hmem
      exact Nat.le_trans (Nat.succ_le_succ (Nat.le_add_left k n))
        (Int.ofNat_lt.mp hlt)

theorem Tree.eval?_operation
    (env : Scope (Option Literal)) (label : Label) (op : Operator)
    (lhs rhs : Tree) :
    (Tree.node label (.operation op lhs rhs)).eval? env =
      (lhs.eval? env).bind fun left => (rhs.eval? env).bind fun right =>
        op.result? left right := by
  rw [Tree.eval?]
  cases lhs.eval? env <;> cases rhs.eval? env <;> rfl

namespace Evaluation

/-- The chain of frames gives each name the value that the environment gives
it. -/
def State.Sees (st : State) (env : Env) : Prop :=
  ∀ name, (st.env.lookup? name).join = env name

theorem State.Sees.define
    {st : State} {env : Env} (h : st.Sees env) (name : String)
    (value : Option Literal) :
    State.Sees { st with env := st.env.define name value }
      (env.bind name value) := by
  intro other
  rw [Scope.lookup?_define, Env.bind]
  split
  · rfl
  · exact h other

theorem State.Sees.push {st : State} {env : Env} (h : st.Sees env) :
    State.Sees { st with env := st.env.push } env :=
  h

theorem eval?_noted_treeAt
    (notes : NodeId → Option Diagnostic) {st : State} {env : Env}
    (h : st.Sees env) (e : Expr) (n : Nat) :
    ((e.treeAt n).noted notes).eval? st.env = e.value? env := by
  induction e generalizing n with
  | literal pos value =>
      simp [Expr.treeAt, Tree.plain, Content.map, Tree.eval?, Expr.value?]
  | reference pos name =>
      simp [Expr.treeAt, Tree.plain, Content.map, Tree.eval?, Expr.value?,
        h name]
  | operation pos op lhs rhs ihl ihr =>
      simp only [Expr.treeAt, Tree.plain, Tree.noted_node, Content.map]
      rw [Tree.eval?_operation, Expr.value?_operation, ihl, ihr]

/-! ## Single steps -/

section Steps

variable {st : State} {env : Env}

theorem assign_eq
    (h : st.Sees env) {n : Nat} {pos : Position} {name : String} {e : Expr}
    (hholds : st.arena.Holds ((assignmentTree n pos name e).noted notes)) :
    st.assign (assignmentTree n pos name e).rootId n (e.treeAt (n + 1)).rootId =
      { st with
        env := st.env.define name
          (Selection.value? notes env (assignmentTree n pos name e) e) } := by
  obtain ⟨-, htarget, hexpr⟩ := holds_assignmentTree hholds
  have htree : st.arena.tree n =
      (Tree.plain n pos (.reference name)).noted notes :=
    htarget.tree_eq (.refl (idRange n 1))
  simp only [State.assign, htree, hexpr.tree_eq (e.ids_treeAt_perm _),
    hholds.tree_eq (ids_assignmentTree_perm n pos name e), Tree.plain,
    Tree.noted_node, Content.map, Tree.variableName?,
    eval?_noted_treeAt notes h, Selection.value?]

/-- A declaration whose expression is not a literal gets the value that is
found, if any. -/
theorem declare_of_ne_literal
    {id property expr : NodeId} {pos : Position} {d : Option Diagnostic}
    {c : Content NodeId} (hnode : st.arena.node? expr = some ⟨pos, d, c⟩)
    (hne : ∀ value, c ≠ .literal value) :
    st.declare id property expr =
      match if (st.arena.tree id).hasDiagnostic then none
        else (st.arena.tree expr).eval? st.env with
      | some value =>
          { st with
            arena := (st.arena.add pos (.literal value)).2.setContent id
              (.declaration property st.arena.size) }
      | none => st := by
  unfold State.declare
  rw [hnode]
  split
  · rfl
  · cases c with
    | literal value => exact absurd rfl (hne value)
    | _ => rfl

theorem declare_eq
    (h : st.Sees env) {s : Selected}
    (hholds : st.arena.Holds (s.tree.noted notes))
    (hvalue : s.value = Selection.value? notes env s.tree s.expr) :
    st.declare s.id s.first (s.expr.treeAt (s.first + 1)).rootId =
      { st with arena := s.write st.arena } := by
  obtain ⟨-, -, hexpr⟩ := holds_declarationTree hholds
  obtain ⟨c, hnode, hliteral⟩ := holds_expr hexpr
  by_cases he : ∃ value, s.expr = .literal s.expr.pos value
  · obtain ⟨value, he⟩ := he
    rw [(hliteral value).mpr he] at hnode
    simp only [State.declare, hnode, ite_self, Selected.write,
      s.written?_of_literal he]
  · have hne : ∀ value, c ≠ .literal value :=
      fun value hc => he ⟨value, (hliteral value).mp hc⟩
    have htree : st.arena.tree s.id = s.tree.noted notes :=
      hholds.tree_eq (ids_declarationTree_perm _ _ _ _)
    have hfound : (if (st.arena.tree s.id).hasDiagnostic then none
        else (st.arena.tree (s.expr.treeAt (s.first + 1)).rootId).eval?
        st.env) = s.value := by
      rw [hvalue, htree, hexpr.tree_eq (s.expr.ids_treeAt_perm _),
        eval?_noted_treeAt notes h]
      rfl
    rw [declare_of_ne_literal hnode hne, hfound, Selected.write,
      s.written?_of_ne_literal fun value hlit => he ⟨value, hlit⟩]
    cases s.value <;> rfl

theorem guardHolds_eq
    (h : st.Sees env) {id : NodeId} {top n : Nat} {pos : Position}
    {c : Content NodeId} {guard : Expr}
    (hnode : st.arena.node? id = some ⟨pos, notes top, c⟩)
    (hguard : st.arena.Holds ((guard.treeAt n).noted notes)) :
    st.guardHolds id (guard.treeAt n).rootId =
      Selection.guardHolds notes env n top guard := by
  have hdiag : st.arena.diagnosticOf id = notes top := by
    rw [diagnosticOf, hnode, Option.bind_some]
  simp only [State.guardHolds, hdiag, hguard.tree_eq (guard.ids_treeAt_perm n),
    eval?_noted_treeAt notes h, Selection.guardHolds, Selection.value?]
  by_cases hnoted : ((guard.treeAt n).noted notes).hasDiagnostic = true <;>
    simp [hnoted]

end Steps

/-! ## Frames -/

theorem env_declare (id property expr : NodeId) (st : State) :
    (st.declare id property expr).env = st.env := by
  unfold State.declare
  split
  · rfl
  · split
    · rfl
    · rfl
    · split <;> rfl

theorem pop?_assign {st : State} {outer : Scope (Option Literal)}
    (h : st.env.pop? = some outer) (id target expr : NodeId) :
    (st.assign id target expr).env.pop? = some outer := by
  unfold State.assign
  split
  · exact Scope.pop?_define h _ _
  · exact h

/-- The evaluation of a list of items opens and closes frames in pairs, so that
the frames around the innermost one are the same behind it. -/
def KeepsOuter (run : List NodeId → State → List NodeId × State) : Prop :=
  ∀ (ids : List NodeId) (st : State) (outer : Scope (Option Literal)),
    st.env.pop? = some outer → (run ids st).2.env.pop? = some outer

section KeepsOuter

variable {inner : List NodeId → State → List NodeId × State}

/-- Closing the frame gives back the variables from before it was opened. -/
theorem KeepsOuter.env_inFrame (h : KeepsOuter inner) (ids : List NodeId)
    (st : State) : (st.inFrame (inner ids)).2.env = st.env := by
  have hinside := h ids { st with env := st.env.push } st.env
    (Scope.pop?_push st.env)
  simp only [State.inFrame, hinside, Option.getD_some]

theorem KeepsOuter.item (h : KeepsOuter inner) (level : Level) (id : NodeId)
    {st : State} {outer : Scope (Option Literal)}
    (houter : st.env.pop? = some outer) :
    (Evaluation.item inner level id st).2.env.pop? = some outer := by
  unfold Evaluation.item
  cases (st.arena.node? id).map Node.content with
  | none => exact houter
  | some c =>
      cases c with
      | assignment target expr => exact pop?_assign houter id target expr
      | declaration property expr => simpa only [env_declare] using houter
      | stylerule selectors body =>
          simpa only [h.env_inFrame body st] using houter
      | ifClause guard body otherwise =>
          cases level with
          | top => exact houter
          | inner => simpa only [h.env_inFrame _ st] using houter
      | _ => exact houter

theorem KeepsOuter.items (h : KeepsOuter inner) (level : Level) :
    KeepsOuter (Evaluation.items inner level) := by
  intro ids
  induction ids with
  | nil => exact fun _ _ houter => houter
  | cons id ids ih =>
      exact fun st outer houter => ih _ outer (h.item level id houter)

end KeepsOuter

theorem keepsOuter_bodyWithin (k : Nat) : KeepsOuter (bodyWithin k) := by
  induction k with
  | zero => exact fun _ _ _ houter => houter
  | succ k ih => exact ih.items .inner

/-- A rule and a branch leave the variables around them as they were. -/
theorem env_inFrame_bodyWithin (k : Nat) (ids : List NodeId) (st : State) :
    (st.inFrame (bodyWithin k ids)).2.env = st.env :=
  (keepsOuter_bodyWithin k).env_inFrame ids st

theorem State.Sees.inFrame {st : State} {env : Env} (h : st.Sees env) (k : Nat)
    (ids : List NodeId) : (st.inFrame (bodyWithin k ids)).2.Sees env := by
  intro name
  rw [env_inFrame_bodyWithin]
  exact h name

/-! ## Whole bodies -/

/-- The evaluation of some items left the selected declarations in their place,
and wrote just those. -/
structure Wrote (ss : List Selected) (a : Arena)
    (done : List NodeId × State) : Prop where
  ids_eq : done.1 = ss.map fun s => (s.id : NodeId)
  arena_eq : done.2.arena = ss.foldl Selected.write a

theorem Wrote.append
    {ss ss' : List Selected} {a : Arena} {first more : List NodeId × State}
    (hfirst : Wrote ss a first) (hmore : Wrote ss' first.2.arena more) :
    Wrote (ss ++ ss') a (first.1 ++ more.1, more.2) := by
  refine ⟨?_, ?_⟩
  · rw [List.map_append, hfirst.ids_eq, hmore.ids_eq]
  · rw [hmore.arena_eq, hfirst.arena_eq, List.foldl_append]

/-- Writes inside one part of a sheet leave the parts behind it alone. -/
theorem Wrote.holds
    {ss : List Selected} {a : Arena} {done : List NodeId × State} {t : Tree}
    {m : Nat} (hdone : Wrote ss a done) (h : a.Holds (t.noted notes))
    (hbefore : ∀ s ∈ ss, s.id < m) (hbehind : ∀ id ∈ t.ids, (m : Int) ≤ id) :
    done.2.arena.Holds (t.noted notes) := by
  rw [hdone.arena_eq]
  refine h.congr fun id hid =>
    (Selected.rewriting notes).node?_writeAll (h.lt_size hid)
    fun s hs => .inr ?_
  rw [Tree.ids_noted] at hid
  exact Int.lt_of_lt_of_le (Int.ofNat_lt.mpr (hbefore s hs)) (hbehind id hid)

/-- Evaluating the items, with any numbers and variables, is as selection
says. -/
def Follows (notes : NodeId → Option Diagnostic) (items : List Item) : Prop :=
  ∀ (k n : Nat) (st : State) (env : Env), countItems items ≤ k →
    (∀ t ∈ itemTrees n items, st.arena.Holds (t.noted notes)) → st.Sees env →
      Wrote (Selection.ofItems notes env n items) st.arena
        (bodyWithin k ((itemTrees n items).map Tree.rootId) st)

theorem follows_cons
    {item : Item} {items : List Item}
    (hitem : ∀ (k n : Nat) (st : State) (env : Env), item.count ≤ k + 1 →
      st.arena.Holds ((item.treeAt n).noted notes) → st.Sees env →
        Wrote (Selection.ofItem notes env n item) st.arena
          (Evaluation.item (bodyWithin k) .inner (item.treeAt n).rootId st) ∧
        (Evaluation.item (bodyWithin k) .inner (item.treeAt n).rootId st).2.Sees
          (Selection.afterItem notes env n item))
    (hitems : Follows notes items) : Follows notes (item :: items) := by
  intro k n st env hk hholds hsees
  rw [countItems] at hk
  have hpos := item.count_pos
  obtain ⟨k, rfl⟩ : ∃ j, k = j + 1 := ⟨k - 1, by omega⟩
  rw [itemTrees, List.forall_mem_cons] at hholds
  have hfirst : item.count ≤ k + 1 := by omega
  have hrest : countItems items ≤ k + 1 := by omega
  obtain ⟨hwrote, hafter⟩ := hitem k n st env hfirst hholds.1 hsees
  rw [itemTrees, Selection.ofItems]
  refine hwrote.append (hitems _ _ _ _ hrest (fun t ht => ?_) hafter)
  refine hwrote.holds (hholds.2 t ht) (m := n + item.count)
    (fun s hs => (Selection.ofItem_bounds notes item env n hs).2)
    fun id hid => ?_
  have hrange :=
    (ids_itemTrees_perm items _).mem_iff.mp (List.mem_flatMap.mpr ⟨t, ht, hid⟩)
  exact (mem_idRange.mp hrange).1

theorem inFrame_wrote
    {st : State} {ss : List Selected} {run : State → List NodeId × State}
    (h : Wrote ss st.arena (run { st with env := st.env.push })) :
    Wrote ss st.arena (st.inFrame run) :=
  ⟨h.ids_eq, h.arena_eq⟩

/-- The items of the branch that a conditional selects are evaluated in a frame
of their own. -/
theorem item_ifClause
    {st : State} {k : Nat} {id guard otherwise : NodeId} {body : List NodeId}
    {pos : Position} {d : Option Diagnostic}
    (hnode : st.arena.node? id =
      some ⟨pos, d, .ifClause guard body otherwise⟩) :
    Evaluation.item (bodyWithin k) .inner id st =
      st.inFrame (bodyWithin k (st.branch id guard body otherwise)) := by
  simp only [Evaluation.item, hnode, Option.map_some]

theorem follows (items : List Item) : Follows notes items := by
  induction items using Item.list_induction with
  | nil =>
      intro k n st env _ _ _
      cases k <;> exact ⟨rfl, rfl⟩
  | declaration pos property expr items ih =>
      refine follows_cons (fun k n st env _ hholds hsees => ?_) ih
      rw [Item.treeAt] at hholds ⊢
      let s : Selected := ⟨n, pos, property, expr,
        Selection.value? notes env (declarationTree n pos property expr) expr⟩
      have hitem : Evaluation.item (bodyWithin k) .inner
          (declarationTree n pos property expr).rootId st =
            ([(s.id : NodeId)], { st with arena := s.write st.arena }) := by
        simp only [Evaluation.item, (holds_declarationTree hholds).1,
          Option.map_some]
        exact congrArg (Prod.mk _) (declare_eq (s := s) hsees hholds rfl)
      rw [hitem]
      exact ⟨⟨rfl, rfl⟩, hsees⟩
  | assignment pos name expr items ih =>
      refine follows_cons (fun k n st env _ hholds hsees => ?_) ih
      rw [Item.treeAt] at hholds ⊢
      have hitem : Evaluation.item (bodyWithin k) .inner
          (assignmentTree n pos name expr).rootId st =
            ([], st.assign (assignmentTree n pos name expr).rootId n
              (expr.treeAt (n + 1)).rootId) := by
        simp only [Evaluation.item, (holds_assignmentTree hholds).1,
          Option.map_some]
      rw [hitem, assign_eq hsees hholds]
      exact ⟨⟨rfl, rfl⟩, hsees.define name _⟩
  | ifThen pos guard body items ihbody ih =>
      refine follows_cons (fun k n st env hk hholds hsees => ?_) ih
      obtain ⟨hnode, hguard, hbody⟩ := holds_ifThen hholds
      rw [Item.count] at hk
      have hle : countItems body ≤ k := by have := guard.count_pos; omega
      rw [item_ifClause hnode]
      refine ⟨inFrame_wrote ?_, hsees.inFrame k _⟩
      rw [State.branch, guardHolds_eq hsees hnode hguard, node?_noNode,
        Selection.ofItem]
      split
      · exact ihbody k _ { st with env := st.env.push } env hle hbody hsees.push
      · cases k <;> exact ⟨rfl, rfl⟩
  | ifElse pos guard body elsePos otherwise items ihbody ihelse ih =>
      refine follows_cons (fun k n st env hk hholds hsees => ?_) ih
      obtain ⟨hnode, hguard, hbody, ⟨d, hclause⟩, hotherwise⟩ :=
        holds_ifElse hholds
      rw [Item.count] at hk
      have hle : countItems body ≤ k ∧ countItems otherwise ≤ k := by
        have := guard.count_pos
        omega
      rw [item_ifClause hnode]
      refine ⟨inFrame_wrote ?_, hsees.inFrame k _⟩
      rw [State.branch, guardHolds_eq hsees hnode hguard, hclause,
        Selection.ofItem]
      split
      · exact ihbody k _ { st with env := st.env.push } env hle.1 hbody
          hsees.push
      · exact ihelse k _ { st with env := st.env.push } env hle.2 hotherwise
          hsees.push

/-! ## Whole sheets -/

/-- The evaluation of some statements left the selected rules in their place,
and wrote just those. -/
structure WroteRules
    (notes : NodeId → Option Diagnostic) (rs : List SelectedRule) (a : Arena)
    (done : List NodeId × State) : Prop where
  ids_eq : done.1 = rs.map fun r => (r.id : NodeId)
  arena_eq : done.2.arena = rs.foldl (SelectedRule.write notes) a

/-- The trees of later statements have only larger numbers. -/
theorem statementTrees_behind
    {statements : List Statement} {m : Nat} {t : Tree} {id : Int}
    (ht : t ∈ statementTrees m statements) (hid : id ∈ t.ids) :
    (m : Int) ≤ id :=
  (mem_idRange.mp ((ids_statementTrees_perm statements m).mem_iff.mp
    (List.mem_flatMap.mpr ⟨t, ht, hid⟩))).1

theorem statements_follow
    (statements : List Statement) (k n : Nat) (st : State) (env : Env)
    (hk : countStatements statements ≤ k)
    (hholds : ∀ t ∈ statementTrees n statements, st.arena.Holds (t.noted notes))
    (hsees : st.Sees env) :
    WroteRules notes (Selection.ofStatements notes env n statements) st.arena
      (Evaluation.items (bodyWithin k) .top
        ((statementTrees n statements).map Tree.rootId) st) := by
  induction statements generalizing n st env with
  | nil => exact ⟨rfl, rfl⟩
  | cons statement statements ih =>
      rw [statementTrees, List.forall_mem_cons] at hholds
      obtain ⟨hfirst, hrest⟩ := hholds
      rw [countStatements] at hk
      have hk' : countStatements statements ≤ k :=
        Nat.le_trans (Nat.le_add_left _ _) hk
      rw [statementTrees, List.map_cons, Evaluation.items]
      cases statement with
      | assignment pos name expr =>
          rw [Statement.treeAt] at hfirst ⊢
          have hitem : Evaluation.item (bodyWithin k) .top
              (assignmentTree n pos name expr).rootId st =
                ([], st.assign (assignmentTree n pos name expr).rootId n
                  (expr.treeAt (n + 1)).rootId) := by
            simp only [Evaluation.item, (holds_assignmentTree hfirst).1,
              Option.map_some]
          have hafter := hsees.define name
            (Selection.value? notes env (assignmentTree n pos name expr) expr)
          rw [hitem, assign_eq hsees hfirst]
          exact ih _ ⟨st.arena, st.env.define name _⟩ _ hk' hrest hafter
      | ifThen pos guard body =>
          have hitem : Evaluation.item (bodyWithin k) .top
              ((Item.ifThen pos guard body).treeAt n).rootId st = ([], st) := by
            simp only [Evaluation.item, (holds_ifThen hfirst).1,
              Option.map_some]
          rw [Statement.treeAt, hitem]
          exact ih _ st env hk' hrest hsees
      | ifElse pos guard body elsePos otherwise =>
          have hitem : Evaluation.item (bodyWithin k) .top
              ((Item.ifElse pos guard body elsePos otherwise).treeAt n).rootId
              st = ([], st) := by
            simp only [Evaluation.item, (holds_ifElse hfirst).1,
              Option.map_some]
          rw [Statement.treeAt, hitem]
          exact ih _ st env hk' hrest hsees
      | rule pos selectors body =>
          let r : SelectedRule := ⟨n, pos, selectors, body, env⟩
          obtain ⟨hnode, -, hbody⟩ := holds_rule hfirst
          have hle : countItems body ≤ k := by
            rw [Statement.count] at hk
            omega
          have hwrote : Wrote (r.declarations notes) st.arena
              (st.inFrame (bodyWithin k
                ((itemTrees (n + selectors.length) body).map
                Tree.rootId))) :=
            inFrame_wrote
              (follows body k _ { st with env := st.env.push } env hle hbody
                hsees.push)
          have hitem : Evaluation.item (bodyWithin k) .top
              ((Statement.rule pos selectors body).treeAt n).rootId st =
                ([(r.id : NodeId)],
                  { st with arena := r.write notes st.arena }) := by
            simp only [Evaluation.item, hnode, Option.map_some, hwrote.ids_eq,
              hwrote.arena_eq, env_inFrame_bodyWithin]
            rfl
          rw [hitem]
          have hkept : ∀ t ∈ statementTrees (n +
              (Statement.rule pos selectors body).count)
              statements, (r.write notes st.arena).Holds (t.noted notes) := by
            intro t ht
            refine (hrest t ht).congr fun id hid => ?_
            have hlt := (hrest t ht).lt_size hid
            have hbehind :=
              statementTrees_behind ht (Tree.ids_noted notes t ▸ hid)
            have hid : r.id <
                n + (Statement.rule pos selectors body).count := by
              simp only [SelectedRule.id, Statement.count, r]
              omega
            exact (SelectedRule.rewriting notes).node?_write hlt
              (.inr (Int.lt_of_lt_of_le (Int.ofNat_lt.mpr hid) hbehind))
          have hmore :=
            ih _ { st with arena := r.write notes st.arena } env hk' hkept hsees
          exact ⟨congrArg _ hmore.ids_eq, hmore.arena_eq⟩

end Evaluation

open Evaluation in
/-- Evaluating a stored sheet writes its selected rules and leaves nothing but
them at top level. -/
theorem Arena.Stores.evaluate_eq
    {a : Arena} {sheet : Sheet} (h : a.Stores sheet) :
    a.evaluate =
      ((Selection.ofSheet a.diagnosticOf sheet).foldl
        (SelectedRule.write a.diagnosticOf) a).setContent 0
          (.stylesheet
            ((Selection.ofSheet a.diagnosticOf sheet).map fun r =>
              (r.id : NodeId))) := by
  obtain ⟨hroot, hstatements⟩ := holds_noted_plain_iff.mp h.holds
  have hbody : a.rootBody? =
      some ((statementTrees 1 sheet).map Tree.rootId) := by
    have hnode : a.node? a.root = some ⟨.start, a.diagnosticOf 0,
        .stylesheet ((statementTrees 1 sheet).map Tree.rootId)⟩ := by
      rw [h.root_eq]
      exact hroot
    rw [rootBody?, hnode]
  have hcount : countStatements sheet ≤ a.size := by
    rw [h.size_eq]
    omega
  have hwrote :=
    statements_follow sheet a.size 1 ⟨a, .empty⟩ .empty hcount hstatements
    fun _ => rfl
  rw [Arena.evaluate, hbody]
  simp only [hwrote.ids_eq, hwrote.arena_eq, h.root_eq]
  rfl

/-- The evaluated sheet: its root and below it the selected rules as evaluation
leaves them. -/
def evaluatedTree (notes : NodeId → Option Diagnostic) (fresh : Nat)
    (sheet : Sheet) : Tree :=
  .node ⟨0, .start, notes 0⟩
    (.stylesheet ((SelectedRule.rewriting notes).afterAll fresh
      (Selection.ofSheet notes sheet)))

section Evaluate

variable {a : Arena} {sheet : Sheet}

theorem Arena.Stores.bounds_of_mem_ofSheet
    (h : a.Stores sheet) {r : SelectedRule}
    (hr : r ∈ Selection.ofSheet notes sheet) :
    1 ≤ r.first ∧ r.id < a.size := by
  rw [h.size_eq]
  exact Selection.ofStatements_bounds hr

theorem Arena.Stores.holds_evaluate (h : a.Stores sheet) :
    a.evaluate.Holds (evaluatedTree a.diagnosticOf a.size sheet) := by
  let p := SelectedRule.rewriting a.diagnosticOf
  let rs := Selection.ofSheet a.diagnosticOf sheet
  obtain ⟨hroot, hstatements⟩ := holds_noted_plain_iff.mp h.holds
  have hpos : 0 < a.size := lt_size_of_node?_eq_some hroot
  have hheld :=
    p.holds_afterAll
      (fun r hr => Selection.holds_of_mem_ofStatements hstatements hr)
    (Selection.ofStatements_ordered sheet .empty 1)
  rw [h.evaluate_eq, evaluatedTree]
  refine holds_node_iff.mpr
    ⟨?_, fun t ht => (hheld t ht).congr fun (id : Int) hid => ?_⟩
  · have hsame : (rs.foldl p.write a).node? (0 : Int) = a.node? (0 : Int) :=
      p.node?_writeAll (Int.ofNat_lt.mpr hpos) fun r hr =>
        .inl (Int.ofNat_lt.mpr (h.bounds_of_mem_ofSheet hr).1)
    rw [node?_setContent, if_pos rfl, Content.map, p.rootId_afterAll rs a.size]
    exact congrArg (Option.map _) (hsame.trans hroot)
  · obtain ⟨r, hr, fresh, hfresh, rfl⟩ := p.exists_of_mem_afterAll ht
    have hcases := SelectedRule.mem_ids_evaluated hid
    have hfirst := (h.bounds_of_mem_ofSheet hr).1
    have hne : id ≠ 0 := by omega
    rw [node?_setContent, if_neg hne]
    rfl

theorem Arena.Stores.size_le_size_evaluate (h : a.Stores sheet) :
    a.size ≤ a.evaluate.size := by
  rw [h.evaluate_eq, size_setContent]
  exact Nat.le.intro
    ((SelectedRule.rewriting a.diagnosticOf).size_writeAll _ a).symm

theorem Arena.Stores.root_evaluate (h : a.Stores sheet) :
    a.evaluate.root = 0 := by
  rw [h.evaluate_eq, root_setContent, ← h.root_eq]
  exact (SelectedRule.rewriting a.diagnosticOf).root_writeAll _ a

/-- The root of the evaluated sheet is seen with everything below it. -/
theorem Arena.Stores.within_evaluatedTree (h : a.Stores sheet) :
    (evaluatedTree a.diagnosticOf a.size sheet).Within (a.size - 1 + 1) := by
  intro t ht
  obtain ⟨r, hr, fresh, -, rfl⟩ :=
    (SelectedRule.rewriting a.diagnosticOf).exists_of_mem_afterAll ht
  have hrule := h.bounds_of_mem_ofSheet hr
  have hle := r.first_le_id
  exact (r.within_evaluated fresh).mono (by omega)

/-- What is seen from the root after evaluation: the selected rules as
evaluation leaves them. -/
theorem Arena.Stores.rootTree_evaluate
    (h : a.Stores sheet) :
    a.evaluate.rootTree =
      .node ⟨0, .start, a.diagnosticOf 0⟩
        (.stylesheet ((SelectedRule.rewriting a.diagnosticOf).afterAll a.size
          (Selection.ofSheet a.diagnosticOf sheet))) := by
  have hpos : 0 < a.size := by
    rw [h.size_eq]
    omega
  have hsize := h.size_le_size_evaluate
  rw [rootTree, h.root_evaluate]
  exact tree_eq_of_holds h.holds_evaluate
    (h.within_evaluatedTree.mono (by omega))

theorem Arena.Stores.rootBody?_evaluate (h : a.Stores sheet) :
    a.evaluate.rootBody? =
      some ((Selection.ofSheet a.diagnosticOf sheet).map fun r =>
        (r.id : NodeId)) := by
  have hids := (SelectedRule.rewriting a.diagnosticOf).rootId_afterAll
    (Selection.ofSheet a.diagnosticOf sheet) a.size
  have hroot : a.evaluate.node? 0 = some _ :=
    (holds_node_iff.mp h.holds_evaluate).1
  rw [rootBody?, h.root_evaluate, hroot]
  exact congrArg some hids

/-- What is seen from a selected rule after evaluation. -/
theorem Arena.Stores.tree_evaluate
    (h : a.Stores sheet) {t : Tree}
    (ht : t ∈ (SelectedRule.rewriting a.diagnosticOf).afterAll a.size
      (Selection.ofSheet a.diagnosticOf sheet)) :
    a.evaluate.tree t.rootId = t := by
  have hsize := h.size_le_size_evaluate
  exact tree_eq_of_holds ((holds_node_iff.mp h.holds_evaluate).2 t ht)
    ((h.within_evaluatedTree t ht).mono (by omega))

end Evaluate

/-- The declarations of the evaluated sheet are the selected ones. -/
theorem Arena.Stores.exists_selected
    {a : Arena} {sheet : Sheet} (h : a.Stores sheet) {label : Label}
    {property expr : Tree}
    (hmem : .node label (.declaration property expr) ∈
      a.evaluate.rootTree.subtrees) :
    ∃ r ∈ Selection.ofSheet a.diagnosticOf sheet,
      ∃ s ∈ r.declarations a.diagnosticOf, ∃ fresh,
      .node label (.declaration property expr) =
        s.evaluated a.diagnosticOf fresh := by
  rw [h.rootTree_evaluate, Tree.subtrees_node, List.mem_cons,
    List.mem_flatMap] at hmem
  rcases hmem with hroot | ⟨t, ht, hmem⟩
  · cases hroot
  · obtain ⟨r, hr, fresh, -, rfl⟩ :=
      (SelectedRule.rewriting a.diagnosticOf).exists_of_mem_afterAll ht
    exact ⟨r, hr, SelectedRule.exists_of_mem_subtrees hmem⟩

end Stylesheet
