import Stylesheet.Proofs.Numbering
import Stylesheet.Sheet.Storing

/-!
# The arena that reading builds

Reading into an arena adds nodes in the order in which it comes to their ends,
and the root learns of a statement only when that has been added.  Since no
procedure looks at the root or changes it, the arena is in the end that of the
sheet which is read, and so its nodes make up a tree however often reading had
to recover from an error.
-/

namespace Stylesheet

/-! ## Storing beside the root -/

/-- Storing takes no node away, and does the same whatever stands at the
root. -/
structure Beside {β : Type} (store : Arena → β × Arena) : Prop where
  size_le : ∀ a, a.size ≤ (store a).2.size
  root_eq : ∀ a, (store a).2.root = a.root
  setContent : ∀ a c, 0 < a.size →
    store (a.setContent 0 c) = ((store a).1, (store a).2.setContent 0 c)

namespace Beside

variable {β γ : Type}

theorem pure (x : β) : Beside fun a => (x, a) :=
  ⟨fun _ => Nat.le_refl _, fun _ => rfl, fun _ _ _ => rfl⟩

theorem bind {f : Arena → β × Arena} {g : β → Arena → γ × Arena}
    (hf : Beside f) (hg : ∀ x, Beside (g x)) :
    Beside fun a => g (f a).1 (f a).2 := by
  refine ⟨fun a => ?_, fun a => ?_, fun a c hpos => ?_⟩
  · exact Nat.le_trans (hf.size_le a) ((hg _).size_le _)
  · exact ((hg _).root_eq _).trans (hf.root_eq a)
  · have hmid : 0 < (f a).2.size := Nat.lt_of_lt_of_le hpos (hf.size_le a)
    rw [hf.setContent a c hpos]
    exact (hg _).setContent _ c hmid

theorem add (pos : Position) (content : Content NodeId) :
    Beside fun a => a.add pos content := by
  refine ⟨fun a => ?_, fun a => rfl, fun a c hpos => ?_⟩
  · rw [Arena.size_add]
    exact Nat.le_succ _
  · have hfst : ((a.setContent 0 c).add pos content).1 =
        (a.add pos content).1 := by
      rw [Arena.add_fst, Arena.add_fst, Arena.size_setContent]
    refine Prod.ext hfst (Arena.ext_node? ?_ fun id => ?_)
    · simp only [Arena.root_add, Arena.root_setContent]
    · simp only [Arena.node?_add, Arena.node?_setContent,
        Arena.size_setContent]
      by_cases hnew : id = a.size
      · rw [if_pos hnew, if_neg (by omega), if_pos hnew]
      · simp only [if_neg hnew]

end Beside

theorem Expr.beside_store (e : Expr) : Beside e.store := by
  induction e with
  | literal pos value => exact .add pos (.literal value)
  | reference pos name => exact .add pos (.reference name)
  | operation pos op lhs rhs ihl ihr =>
      exact ihl.bind fun left => ihr.bind fun right =>
        .add pos (.operation op left right)

theorem beside_storeDeclaration (pos : Position) (property : String)
    (e : Expr) : Beside (storeDeclaration pos property e) :=
  (Beside.add pos (.propertyName property)).bind fun name =>
    e.beside_store.bind fun value => .add pos (.declaration name value)

theorem beside_storeAssignment (pos : Position) (name : String) (e : Expr) :
    Beside (storeAssignment pos name e) :=
  (Beside.add pos (.reference name)).bind fun target =>
    e.beside_store.bind fun value => .add pos (.assignment target value)

section Conditionals

variable {guard : Expr} {body otherwise : List Item}
  (hbody : Beside (storeItems body))

include hbody

theorem beside_store_ifThen (pos : Position) :
    Beside (Item.ifThen pos guard body).store :=
  guard.beside_store.bind fun cond => hbody.bind fun inside =>
    .add pos (.ifClause cond inside noNode)

theorem beside_store_ifElse (pos elsePos : Position)
    (helse : Beside (storeItems otherwise)) :
    Beside (Item.ifElse pos guard body elsePos otherwise).store :=
  guard.beside_store.bind fun cond => hbody.bind fun inside =>
    helse.bind fun instead =>
      (Beside.add elsePos (.elseClause instead)).bind fun clause =>
        .add pos (.ifClause cond inside clause)

end Conditionals

theorem beside_storeItems_cons {item : Item} {items : List Item}
    (hfirst : Beside item.store) (hmore : Beside (storeItems items)) :
    Beside (storeItems (item :: items)) :=
  hfirst.bind fun id => hmore.bind fun ids => .pure (id :: ids)

theorem beside_storeItems (items : List Item) : Beside (storeItems items) := by
  induction items using Item.list_induction with
  | nil => exact .pure []
  | declaration pos property expr items ih =>
      exact beside_storeItems_cons
        (beside_storeDeclaration pos property expr) ih
  | assignment pos name expr items ih =>
      exact beside_storeItems_cons (beside_storeAssignment pos name expr) ih
  | ifThen pos guard body items ihbody ih =>
      exact beside_storeItems_cons (beside_store_ifThen ihbody pos) ih
  | ifElse pos guard body elsePos otherwise items ihbody ihelse ih =>
      exact beside_storeItems_cons
        (beside_store_ifElse ihbody pos elsePos ihelse) ih

theorem beside_storeSelectors (selectors : List Selector) :
    Beside (storeSelectors selectors) := by
  induction selectors with
  | nil => exact .pure []
  | cons selector selectors ih =>
      exact (Beside.add selector.pos (.selector selector.text)).bind fun id =>
        ih.bind fun ids => .pure (id :: ids)

theorem Statement.beside_store (s : Statement) : Beside s.store := by
  cases s with
  | assignment pos name expr => exact beside_storeAssignment pos name expr
  | rule pos selectors body =>
      exact (beside_storeSelectors selectors).bind fun heads =>
        (beside_storeItems body).bind fun inside =>
          .add pos (.stylerule heads inside)
  | ifThen pos guard body =>
      exact beside_store_ifThen (beside_storeItems body) pos
  | ifElse pos guard body elsePos otherwise =>
      exact beside_store_ifElse (beside_storeItems body) pos elsePos
        (beside_storeItems otherwise)

/-! ## The sheet at the root -/

namespace Storing

/-- A statement is linked behind those that the root has already. -/
theorem link_setContent {a : Arena} (hroot : a.root = 0) (id : NodeId)
    (ids : List NodeId) :
    link id (a.setContent 0 (.stylesheet ids)) =
      a.setContent 0 (.stylesheet (ids ++ [id])) := by
  refine Arena.ext_node? ?_ fun j => ?_
  · simp only [link, Arena.root_modify, Arena.root_setContent]
  · simp only [link, Arena.root_setContent, hroot, Arena.node?_modify,
      Arena.node?_setContent]
    by_cases hj : j = 0
    · simp only [if_pos hj, Option.map_map]
      rfl
    · simp only [if_neg hj]

theorem beside_storeOption (s? : Option Statement) :
    Beside (storeOption Statement.store s?) := by
  cases s? with
  | none => exact .pure none
  | some s => exact s.beside_store.bind fun id => .pure (some id)

theorem storeStatements_toList_append (s? : Option Statement) (sheet : Sheet)
    (a : Arena) :
    storeStatements (s?.toList ++ sheet) a =
      let first := storeOption Statement.store s? a
      let more := storeStatements sheet first.2
      (first.1.toList ++ more.1, more.2) := by
  cases s? <;> rfl

/-- One round of the loop: what is stored goes behind the nodes that are there,
and the root has its number behind those that it had. -/
theorem link?_storeOption (s? : Option Statement) {a : Arena}
    (ids : List NodeId) (hroot : a.root = 0) (hpos : 0 < a.size) :
    let stored := storeOption Statement.store s? a
    let beside :=
      storeOption Statement.store s? (a.setContent 0 (.stylesheet ids))
    link? beside.1 beside.2 =
      stored.2.setContent 0 (.stylesheet (ids ++ stored.1.toList)) := by
  intro stored beside
  have hbeside := (beside_storeOption s?).setContent a (.stylesheet ids) hpos
  have hroot' := ((beside_storeOption s?).root_eq a).trans hroot
  change beside = (stored.1, stored.2.setContent 0 (.stylesheet ids)) at hbeside
  rw [hbeside]
  cases hid : stored.1 with
  | none => rw [link?, Option.toList_none, List.append_nil]
  | some id => exact link_setContent hroot' id ids

/-- Reading into an arena whose root has some statements already gives the root
the ones that are read from here on, as if they were stored at the end. -/
theorem statements_eq (ts : List Token) (a : Arena) (ids : List NodeId)
    (hroot : a.root = 0) (hpos : 0 < a.size) :
    statements ts (a.setContent 0 (.stylesheet ids)) =
      (Reading.statements ts).stored (fun sheet a =>
        ((), (storeStatements sheet a).2.setContent 0
          (.stylesheet (ids ++ (storeStatements sheet a).1)))) a := by
  fun_induction Reading.statements ts generalizing a ids with
  | case1 =>
      rw [statements]
      simp only [Reading.stored, storeStatements, List.append_nil]
  | case2 t rest heof =>
      rw [statements, if_pos heof]
      simp only [Reading.stored, storeStatements, List.append_nil]
  | case3 t rest heof first _ more ih =>
      have hstored := beside_storeOption first.value
      have hround := link?_storeOption first.value ids hroot hpos
      have hmore := ih (storeOption Statement.store first.value a).2
        (ids ++ (storeOption Statement.store first.value a).1.toList)
        ((hstored.root_eq a).trans hroot)
        (Nat.lt_of_lt_of_le hpos (hstored.size_le a))
      rw [statements, if_neg heof]
      simp only [statement_eq, Reading.stored, storeStatements_toList_append]
        at hround hmore ⊢
      rw [hround, hmore]
      simp only [List.append_assoc]
      rfl

end Storing

/-- The arena that a source is read into is that of the sheet which is read. -/
theorem load_eq (source : List Char) :
    load source = ⟨(parse source).arena, (parse source).faults⟩ := by
  have hempty : Arena.empty.setContent 0 (.stylesheet []) = .empty := rfl
  have hstatements := Storing.statements_eq (Scan.scan source) .empty [] rfl
    (Nat.succ_pos 0)
  rw [hempty] at hstatements
  rw [load, hstatements]
  rfl

@[simp] theorem arena_load (source : List Char) :
    (load source).arena = (parse source).arena := by
  rw [load_eq]

@[simp] theorem diagnostics_load (source : List Char) :
    (load source).diagnostics = (parse source).diagnostics := by
  rw [load_eq]
  rfl

end Stylesheet
