import Stylesheet.Proofs.Checking
import Stylesheet.Proofs.Correctness

/-!
# Types and values

Checking and evaluation go through a sheet with a chain of frames each, the one
of types and the other of values, and each gives up at other places.  Wherever
both stand at the same point, a variable with a value has the type of that
value, and a variable whose type is one of numbers has a value.  It follows that
a declaration without a diagnostic shows a value that its property accepts, and
that a size always shows one.
-/

namespace Stylesheet

open Typing

/-! ## Values that fit a type -/

/-- Whether values of the kind can be computed with. -/
def LiteralKind.isNumber : LiteralKind → Bool
  | .pixel | .percentage | .scalar => true
  | .color | .bool => false

/-- What is known of the value of an expression of the given type. -/
structure Fits (ty : Ty) (value : Option Literal) : Prop where
  kind_eq : ∀ v, value = some v → ty = some v.kind
  isSome : ∀ kind, ty = some kind → kind.isNumber = true → value.isSome

theorem fits_literal (v : Literal) : Fits (some v.kind) (some v) := by
  refine ⟨fun w hw => ?_, fun _ _ _ => rfl⟩
  rw [Option.some.inj hw]

theorem fits_none : Fits none none :=
  ⟨nofun, nofun⟩

namespace Operator

theorem type_eq_of_result?
    {op : Operator} {l r v : Literal} (h : op.result? l r = some v) :
    op.type (some l.kind) (some r.kind) = some v.kind := by
  cases op <;> cases l <;> cases r <;> cases h <;> rfl

/-- Both sides of an operation with a type have that type, unless it is a pixel
size times a plain number. -/
theorem type_eq_some
    {op : Operator} {left right : Ty} {kind : LiteralKind}
    (h : op.type left right = some kind) :
    (left = some kind ∧ right = some kind) ∨
      kind = .pixel ∧
        (left = some .scalar ∧ right = some .pixel ∨
          left = some .pixel ∧ right = some .scalar) := by
  have hsum : (if left = right then left else none) = some kind →
      left = some kind ∧ right = some kind := by
    intro hif
    split at hif
    · next heq => exact ⟨hif, heq ▸ hif⟩
    · cases hif
  cases op with
  | add => exact .inl (hsum h)
  | subtract => exact .inl (hsum h)
  | multiply =>
      rcases left with _ | left
      · cases h
      · rcases right with _ | right
        · cases left <;> cases h
        · cases left <;> cases right <;> cases h <;> simp

theorem isNumber_of_type
    {op : Operator} {left right : Ty} {kind : LiteralKind}
    (h : op.type left right = some kind) (hkind : kind.isNumber = true) :
    (∃ i, left = some i ∧ i.isNumber = true) ∧ ∃ j, right = some j ∧
      j.isNumber = true := by
  rcases type_eq_some h with ⟨hl, hr⟩ | ⟨-, ⟨hl, hr⟩ | ⟨hl, hr⟩⟩
  · exact ⟨⟨kind, hl, hkind⟩, kind, hr, hkind⟩
  · exact ⟨⟨_, hl, rfl⟩, _, hr, rfl⟩
  · exact ⟨⟨_, hl, rfl⟩, _, hr, rfl⟩

theorem result?_isSome_of_type
    {op : Operator} {l r : Literal} {kind : LiteralKind}
    (h : op.type (some l.kind) (some r.kind) = some kind)
    (hkind : kind.isNumber = true) :
    (op.result? l r).isSome := by
  cases op <;> cases l <;> cases r <;> cases h <;> cases hkind <;> rfl

theorem ne_none_of_type_ne_none
    {op : Operator} {left right : Ty} (h : op.type left right ≠ none) :
    left ≠ none ∧ right ≠ none := by
  obtain ⟨kind, hkind⟩ := Option.ne_none_iff_exists'.mp h
  rcases type_eq_some hkind with
    ⟨rfl, rfl⟩ | ⟨-, ⟨rfl, rfl⟩ | ⟨rfl, rfl⟩⟩ <;> simp

end Operator

theorem Fits.operation
    {left right : Ty} {l r : Option Literal} (hl : Fits left l)
    (hr : Fits right r) (op : Operator) :
    Fits (op.type left right)
      (l.bind fun a => r.bind fun b => op.result? a b) := by
  refine ⟨fun v hv => ?_, fun kind hty hkind => ?_⟩
  · obtain ⟨a, ha, hbind⟩ := Option.bind_eq_some_iff.mp hv
    obtain ⟨b, hb, hresult⟩ := Option.bind_eq_some_iff.mp hbind
    rw [hl.kind_eq a ha, hr.kind_eq b hb]
    exact Operator.type_eq_of_result? hresult
  · obtain ⟨⟨i, hi, hinum⟩, j, hj, hjnum⟩ := Operator.isNumber_of_type hty hkind
    obtain ⟨a, rfl⟩ := Option.isSome_iff_exists.mp (hl.isSome i hi hinum)
    obtain ⟨b, rfl⟩ := Option.isSome_iff_exists.mp (hr.isSome j hj hjnum)
    rw [hl.kind_eq a rfl, hr.kind_eq b rfl] at hty
    exact Operator.result?_isSome_of_type hty hkind

/-! ## Expressions -/

/-- The types of the variables agree with their values.  The empty name never
gets a type. -/
structure Agrees (tenv : Scope Ty) (env : Env) : Prop where
  lookup?_empty : tenv.lookup? "" = none
  fits : ∀ name ty, tenv.lookup? name = some ty → Fits ty (env name)

theorem agrees_empty : Agrees .empty .empty :=
  ⟨rfl, fun _ _ h => by cases h⟩

theorem Agrees.push {tenv : Scope Ty} {env : Env} (h : Agrees tenv env) :
    Agrees tenv.push env :=
  ⟨h.lookup?_empty, h.fits⟩

theorem Agrees.define
    {tenv : Scope Ty} {env : Env} (h : Agrees tenv env) {name : String}
    (hname : name ≠ "") {ty : Ty} {value : Option Literal}
    (hfits : Fits ty value) :
    Agrees (tenv.define name ty) (env.bind name value) := by
  refine ⟨?_, fun other ty' hty' => ?_⟩
  · rw [Scope.lookup?_define, if_neg hname.symm, h.lookup?_empty]
  · rw [Scope.lookup?_define] at hty'
    rw [Env.bind]
    split at hty'
    · next heq =>
        rw [if_pos heq, ← Option.some.inj hty']
        exact hfits
    · next hne =>
        rw [if_neg hne]
        exact h.fits other ty' hty'

theorem Agrees.bind_empty
    {tenv : Scope Ty} {env : Env} (h : Agrees tenv env)
    (value : Option Literal) :
    Agrees tenv (env.bind "" value) := by
  refine ⟨h.lookup?_empty, fun name ty hty => ?_⟩
  have hne : name ≠ "" := by
    rintro rfl
    rw [h.lookup?_empty] at hty
    cases hty
  rw [Env.bind, if_neg hne]
  exact h.fits name ty hty

section Expressions

variable {tenv : Scope Ty} {env : Env}

/-- The value of an expression in which nothing is wrong fits its type. -/
theorem fits_value?
    (h : Agrees tenv env) {e : Expr} {n : Nat}
    (hnone : inExpr tenv (e.treeAt n) = []) :
    Fits (typeOf tenv (e.treeAt n)) (e.value? env) := by
  induction e generalizing n with
  | literal pos value => exact fits_literal value
  | reference pos name =>
      simp only [Expr.treeAt, Tree.plain, inExpr, ite_eq_right_iff] at hnone
      cases hty : tenv.lookup? name with
      | none => simp [hty] at hnone
      | some ty =>
          simp only [Expr.treeAt, Tree.plain, typeOf, hty]
          exact h.fits name ty hty
  | operation pos op lhs rhs ihl ihr =>
      simp only [Expr.treeAt, Tree.plain, inExpr,
        List.append_eq_nil_iff] at hnone
      rw [Expr.value?_operation]
      exact (ihl hnone.1.1).operation (ihr hnone.1.2) op

/-- Nothing is wrong in an expression that has a type. -/
theorem inExpr_eq_nil_of_typeOf_ne_none {t : Tree} (h : typeOf tenv t ≠ none) :
    inExpr tenv t = [] := by
  induction t using Tree.induction_on with
  | hmissing => rfl
  | hnode label c ih =>
      cases c with
      | reference name =>
          rw [typeOf] at h
          cases hty : tenv.lookup? name with
          | none => simp [hty] at h
          | some ty => simp [inExpr, hty]
      | operation op lhs rhs =>
          rw [typeOf] at h
          obtain ⟨hl, hr⟩ := Operator.ne_none_of_type_ne_none h
          have hproduct : isPixelProduct tenv op lhs rhs = false := by
            by_contra htrue
            simp only [isPixelProduct, Bool.not_eq_false, Bool.and_eq_true,
              decide_eq_true_eq] at htrue
            obtain ⟨⟨hop, hleft⟩, hright⟩ := htrue
            rw [hop, hleft, hright] at h
            exact h rfl
          rw [inExpr, ih lhs (by simp [Content.toList]) hl,
            ih rhs (by simp [Content.toList]) hr, hproduct]
          rfl
      | _ => rfl

end Expressions

/-! ## Diagnostics and findings of a part -/

/-- Of the numbers in a run, those with a diagnostic are those with a
finding. -/
def Marks
    (notes : NodeId → Option Diagnostic) (n k : Nat)
    (findings : List Finding) : Prop :=
  ∀ id ∈ idRange n k, (notes id).isSome ↔ ∃ f ∈ findings, f.id = id

section Marks

variable {notes : NodeId → Option Diagnostic} {tenv : Scope Ty} {f : Finding}
  {n : Nat}

theorem Marks.part
    {k m j : Nat} {findings part : List Finding} (h : Marks notes n k findings)
    (hrange : idRange m j ⊆ idRange n k)
    (hpart : ∀ f : Finding, f.id ∈ idRange m j → (f ∈ findings ↔ f ∈ part)) :
    Marks notes m j part := by
  intro id hid
  rw [h id (hrange hid)]
  constructor
  · rintro ⟨f, hf, rfl⟩
    exact ⟨f, (hpart f hid).mp hf, rfl⟩
  · rintro ⟨f, hf, rfl⟩
    exact ⟨f, (hpart f hid).mpr hf, rfl⟩

theorem Marks.left
    {k m j : Nat} {first rest : List Finding}
    (h : Marks notes n k (first ++ rest)) (hrange : idRange m j ⊆ idRange n k)
    (hrest : ∀ f ∈ rest, f.id ∉ idRange m j) :
    Marks notes m j first := by
  refine h.part hrange fun f hf => ?_
  rw [List.mem_append, or_iff_left fun hmem => hrest f hmem hf]

theorem Marks.right
    {k m j : Nat} {first rest : List Finding}
    (h : Marks notes n k (first ++ rest)) (hrange : idRange m j ⊆ idRange n k)
    (hfirst : ∀ f ∈ first, f.id ∉ idRange m j) :
    Marks notes m j rest := by
  refine h.part hrange fun f hf => ?_
  rw [List.mem_append, or_iff_right fun hmem => hfirst f hmem hf]

/-- A part carries a diagnostic exactly if something is found in it. -/
theorem Marks.hasDiagnostic_iff
    {k : Nat} {t : Tree} {findings : List Finding}
    (h : Marks notes n k findings) (hperm : t.ids.Perm (idRange n k))
    (hids : ∀ f ∈ findings, f.id ∈ t.ids) :
    (t.noted notes).hasDiagnostic = true ↔ findings ≠ [] := by
  rw [Tree.hasDiagnostic_noted]
  constructor
  · rintro ⟨id, hid, hsome⟩ rfl
    obtain ⟨f, hf, -⟩ := (h id (hperm.mem_iff.mp hid)).mp hsome
    cases hf
  · intro hne
    obtain ⟨f, hf⟩ := List.exists_mem_of_ne_nil _ hne
    have hid := hids f hf
    exact ⟨f.id, hid, (h f.id (hperm.mem_iff.mp hid)).mpr ⟨f, hf, rfl⟩⟩

theorem Marks.eq_nil
    {k : Nat} {t : Tree} {findings : List Finding}
    (h : Marks notes n k findings) (hperm : t.ids.Perm (idRange n k))
    (hids : ∀ f ∈ findings, f.id ∈ t.ids)
    (hclean : (t.noted notes).hasDiagnostic = false) : findings = [] := by
  by_contra hne
  have hsome := (h.hasDiagnostic_iff hperm hids).mpr hne
  rw [hclean] at hsome
  cases hsome

theorem mem_idRange_of_mem_inExpr {e : Expr}
    (hf : f ∈ inExpr tenv (e.treeAt n)) :
    f.id ∈ idRange n e.count :=
  (e.ids_treeAt_perm n).mem_iff.mp (mem_ids_of_mem_inExpr hf)

theorem mem_idRange_of_mem_inItem {item : Item}
    (hf : f ∈ inItem tenv (item.treeAt n)) :
    f.id ∈ idRange n item.count :=
  (item.ids_treeAt_perm n).mem_iff.mp (mem_ids_of_mem_inItem hf)

theorem mem_idRange_of_mem_inBody
    {items : List Item} (hf : f ∈ inBody tenv (itemTrees n items)) :
    f.id ∈ idRange n (countItems items) := by
  obtain ⟨t, ht, hid⟩ := exists_mem_ids_of_mem_inBody hf
  exact (ids_itemTrees_perm items n).mem_iff.mp
    (List.mem_flatMap.mpr ⟨t, ht, hid⟩)

theorem Marks.head
    {item : Item} {items : List Item}
    (h : Marks notes n (countItems (item :: items))
      (inBody tenv (itemTrees n (item :: items)))) :
    Marks notes n item.count (inItem tenv (item.treeAt n)) := by
  rw [countItems, itemTrees, inBody] at h
  exact h.left (idRange_subset (Nat.le_refl _) (by omega)) fun f hf =>
    notMem_idRange_of_mem (mem_idRange_of_mem_inBody hf) (.inr (Nat.le_refl _))

theorem Marks.tail
    {item : Item} {items : List Item}
    (h : Marks notes n (countItems (item :: items))
      (inBody tenv (itemTrees n (item :: items)))) :
    Marks notes (n + item.count) (countItems items)
      (inBody (afterItem tenv (item.treeAt n))
        (itemTrees (n + item.count) items)) := by
  rw [countItems, itemTrees, inBody] at h
  exact h.right (idRange_subset (by omega) (by omega)) fun f hf =>
    notMem_idRange_of_mem (mem_idRange_of_mem_inItem hf) (.inl (Nat.le_refl _))

/-- What is found in the guard of a conditional and in its branches stands
apart. -/
theorem Marks.conditional
    {k top j : Nat} {pos : Position} {guard : Expr} {fault? : Option Fault}
    {body : List Item} {env : Scope Ty} {rest : List Finding}
    (h : Marks notes n k
      (inExpr tenv (guard.treeAt n) ++ findingOn ⟨top, pos, none⟩ fault?
      ++ inBody env (itemTrees (n + guard.count) body) ++ rest))
    (htop : n + guard.count + countItems body + j ≤ top) (hk : top < n + k)
    (hrest : ∀ f ∈ rest, f.id ∈ idRange (n + guard.count + countItems body) j) :
    Marks notes n guard.count (inExpr tenv (guard.treeAt n)) ∧
      Marks notes (n + guard.count) (countItems body)
        (inBody env (itemTrees (n + guard.count) body)) ∧
      Marks notes (n + guard.count + countItems body) j rest := by
  have hown : ∀ m i, m + i ≤ top →
      ∀ f ∈ findingOn ⟨top, pos, none⟩ fault?, f.id ∉ idRange m i :=
    fun m i hle f hf hmem =>
      ne_of_mem_idRange hmem hle (id_eq_of_mem_findingOn hf)
  have hguard : ∀ m i, n + guard.count ≤ m → ∀ f ∈ inExpr tenv (guard.treeAt n),
      f.id ∉ idRange m i :=
    fun m i hle f hf =>
      notMem_idRange_of_mem (mem_idRange_of_mem_inExpr hf) (.inl hle)
  have hbody : ∀ m i, m + i ≤ n + guard.count ∨
      n + guard.count + countItems body ≤ m →
      ∀ f ∈ inBody env (itemTrees (n + guard.count) body), f.id ∉ idRange m i :=
    fun m i hle f hf =>
      notMem_idRange_of_mem (mem_idRange_of_mem_inBody hf) hle.symm
  refine ⟨?_, ?_, ?_⟩
  · rw [List.append_assoc, List.append_assoc] at h
    refine h.left (idRange_subset (Nat.le_refl _) (by omega)) ?_
    simp only [List.forall_mem_append]
    refine ⟨hown n _ (by omega), hbody n _ (.inl (Nat.le_refl _)),
      fun f hf => ?_⟩
    exact notMem_idRange_of_mem (hrest f hf) (.inr (by omega))
  · refine (h.left (m := n + guard.count) (j := countItems body)
      (idRange_subset (by omega) (by omega)) ?_).right (List.Subset.refl _) ?_
    · exact fun f hf =>
        notMem_idRange_of_mem (hrest f hf) (.inr (Nat.le_refl _))
    · rw [List.forall_mem_append]
      exact ⟨hguard _ _ (Nat.le_refl _), hown _ _ (by omega)⟩
  · refine h.right (idRange_subset (by omega) (by omega)) ?_
    simp only [List.forall_mem_append]
    exact ⟨⟨hguard _ _ (by omega), hown _ _ htop⟩,
      hbody _ _ (.inr (Nat.le_refl _))⟩

theorem Marks.ifThen
    {pos : Position} {guard : Expr} {body : List Item}
    (h : Marks notes n (Item.ifThen pos guard body).count
      (inItem tenv ((Item.ifThen pos guard body).treeAt n))) :
    Marks notes n guard.count (inExpr tenv (guard.treeAt n)) ∧
      Marks notes (n + guard.count) (countItems body)
        (inBody tenv.push (itemTrees (n + guard.count) body)) := by
  rw [Item.count, Item.treeAt, Tree.plain, inItem] at h
  obtain ⟨hguard, hbody, -⟩ := h.conditional (j := 0) (Nat.le_refl _) (by omega)
    (List.forall_mem_nil _)
  exact ⟨hguard, hbody⟩

theorem Marks.ifElse
    {pos elsePos : Position} {guard : Expr} {body otherwise : List Item}
    (h : Marks notes n (Item.ifElse pos guard body elsePos otherwise).count
      (inItem tenv ((Item.ifElse pos guard body elsePos otherwise).treeAt n))) :
    Marks notes n guard.count (inExpr tenv (guard.treeAt n)) ∧
      Marks notes (n + guard.count) (countItems body)
        (inBody tenv.push (itemTrees (n + guard.count) body)) ∧
      Marks notes (n + guard.count + countItems body) (countItems otherwise)
        (inBody tenv.push
          (itemTrees (n + guard.count + countItems body) otherwise)) := by
  rw [Item.count, Item.treeAt, Tree.plain, inItem] at h
  exact h.conditional (Nat.le_succ _) (by omega) fun f hf =>
    mem_idRange_of_mem_inBody hf

end Marks

/-! ## Items -/

/-- What is known of a selected declaration: if nothing is wrong with it, its
value fits a kind that the property accepts. -/
def Selected.Sound (notes : NodeId → Option Diagnostic) (s : Selected) : Prop :=
  (s.tree.noted notes).hasDiagnostic = false →
    ∃ kind rule, PropertyRule.find? s.property = some rule ∧
      kind ∈ rule.accepted ∧
      Fits (some kind) s.value

theorem accepted_of_declarationFault?_eq_none
    {property : String} {ty : Ty} (h : declarationFault? property ty = none) :
    ∃ kind rule, ty = some kind ∧ PropertyRule.find? property = some rule ∧
      kind ∈ rule.accepted := by
  unfold declarationFault? at h
  split at h
  · cases h
  · next kind =>
      split at h
      · cases h
      · next rule hrule =>
          split at h
          · next hmem => exact ⟨kind, rule, rfl, hrule, hmem⟩
          · cases h

section Items

variable {notes : NodeId → Option Diagnostic} {tenv : Scope Ty} {env : Env}
  {n : Nat}

theorem sound_declaration
    (h : Agrees tenv env) {pos : Position} {property : String} {e : Expr}
    (hmarks : Marks notes n (Item.declaration pos property e).count
      (inItem tenv (declarationTree n pos property e))) :
    Selected.Sound notes ⟨n, pos, property, e,
      Selection.value? notes env (declarationTree n pos property e) e⟩ := by
  intro hclean
  change ((declarationTree n pos property e).noted notes).hasDiagnostic =
    false at hclean
  have hnil := hmarks.eq_nil (ids_declarationTree_perm n pos property e)
    (fun f hf => mem_ids_of_mem_inItem hf) hclean
  simp only [declarationTree, Tree.plain, inItem, List.append_eq_nil_iff,
    findingOn_eq_nil_iff] at hnil
  obtain ⟨kind, rule, hty, hrule, hmem⟩ :=
    accepted_of_declarationFault?_eq_none hnil.2
  refine ⟨kind, rule, hrule, hmem, ?_⟩
  have hvalue : Selection.value? notes env
      (declarationTree n pos property e) e =
      e.value? env := by
    rw [Selection.value?, hclean]
    rfl
  rw [hvalue, ← hty]
  exact fits_value? h hnil.1

theorem afterItem_assignmentTree (tenv : Scope Ty) (n : Nat) (pos : Position)
    (name : String) (e : Expr) :
    Typing.afterItem tenv (assignmentTree n pos name e) =
      if name = "" then tenv
        else tenv.define name (typeOf tenv (e.treeAt (n + 1))) := by
  simp only [assignmentTree, Tree.plain, Typing.afterItem, Tree.variableName?]

/-- Nothing is wrong in an assignment exactly if its expression has a type. -/
theorem inItem_assignmentTree_eq_nil_iff {pos : Position} {name : String}
    {e : Expr} :
    inItem tenv (assignmentTree n pos name e) = [] ↔
      typeOf tenv (e.treeAt (n + 1)) ≠ none := by
  simp only [assignmentTree, Tree.plain, inItem, List.append_eq_nil_iff,
    findingOn_eq_nil_iff, ite_eq_right_iff, reduceCtorEq, imp_false]
  exact ⟨And.right, fun hne => ⟨inExpr_eq_nil_of_typeOf_ne_none hne, hne⟩⟩

/-- An assignment whose expression has no type leaves its variable without a
value. -/
theorem Marks.value?_assignment
    {pos : Position} {name : String} {e : Expr}
    (hmarks : Marks notes n (Item.assignment pos name e).count
      (inItem tenv (assignmentTree n pos name e))) (env : Env) :
    Selection.value? notes env (assignmentTree n pos name e) e =
      if typeOf tenv (e.treeAt (n + 1)) = none then none else e.value? env := by
  have hiff := hmarks.hasDiagnostic_iff (ids_assignmentTree_perm n pos name e)
    fun f hf => mem_ids_of_mem_inItem hf
  rw [ne_eq, inItem_assignmentTree_eq_nil_iff, not_not] at hiff
  simp only [Selection.value?, hiff]

theorem agrees_after_assignment
    (h : Agrees tenv env) {pos : Position} {name : String} {e : Expr}
    (hmarks : Marks notes n (Item.assignment pos name e).count
      (inItem tenv (assignmentTree n pos name e))) :
    Agrees (Typing.afterItem tenv (assignmentTree n pos name e))
      (env.bind name
        (Selection.value? notes env (assignmentTree n pos name e) e)) := by
  rw [afterItem_assignmentTree, hmarks.value?_assignment]
  by_cases hname : name = ""
  · subst hname
    exact h.bind_empty _
  · rw [if_neg hname]
    refine h.define hname ?_
    split
    · next hnone =>
        rw [hnone]
        exact fits_none
    · next hne => exact fits_value? h (inExpr_eq_nil_of_typeOf_ne_none hne)

/-- What holds of the declarations selected from the first item and of those
selected from the items behind it holds of all. -/
theorem sound_cons
    {item : Item} {items : List Item}
    (hitem : ∀ s ∈ Selection.ofItem notes env n item, s.Sound notes)
    (hitems : ∀ s ∈ Selection.ofItems notes
      (Selection.afterItem notes env n item) (n + item.count) items,
      s.Sound notes) :
    ∀ s ∈ Selection.ofItems notes env n (item :: items), s.Sound notes := by
  rw [Selection.ofItems, List.forall_mem_append]
  exact ⟨hitem, hitems⟩

theorem sound_ofItems
    (items : List Item) (h : Agrees tenv env)
    (hmarks : Marks notes n (countItems items)
      (inBody tenv (itemTrees n items))) :
    ∀ s ∈ Selection.ofItems notes env n items, s.Sound notes := by
  induction items using Item.list_induction generalizing n tenv env with
  | nil => simp [Selection.ofItems]
  | declaration pos property expr items ih =>
      have hhead := hmarks.head
      have htail := hmarks.tail
      rw [Item.treeAt] at hhead htail
      refine sound_cons ?_ (ih h htail)
      rw [Selection.ofItem, List.forall_mem_singleton]
      exact sound_declaration h hhead
  | assignment pos name expr items ih =>
      have hhead := hmarks.head
      have htail := hmarks.tail
      rw [Item.treeAt] at hhead htail
      refine sound_cons ?_ (ih (agrees_after_assignment h hhead) htail)
      rw [Selection.ofItem]
      exact List.forall_mem_nil _
  | ifThen pos guard body items ihbody ih =>
      have htail := hmarks.tail
      rw [Item.treeAt] at htail
      refine sound_cons ?_ (ih h htail)
      rw [Selection.ofItem]
      split
      · exact ihbody h.push hmarks.head.ifThen.2
      · exact List.forall_mem_nil _
  | ifElse pos guard body elsePos otherwise items ihbody ihelse ih =>
      have htail := hmarks.tail
      rw [Item.treeAt] at htail
      refine sound_cons ?_ (ih h htail)
      obtain ⟨-, hbody, hotherwise⟩ := hmarks.head.ifElse
      rw [Selection.ofItem]
      split
      · exact ihbody h.push hbody
      · exact ihelse h.push hotherwise

end Items

/-! ## Statements -/

section Statements

variable {notes : NodeId → Option Diagnostic} {tenv : Scope Ty} {env : Env}
  {n : Nat}

theorem mem_idRange_of_mem_inTopItem
    {statement : Statement} {f : Finding}
    (hf : f ∈ inTopItem tenv (statement.treeAt n)) :
    f.id ∈ idRange n statement.count :=
  (statement.ids_treeAt_perm n).mem_iff.mp (mem_ids_of_mem_inTopItem hf)

theorem mem_idRange_of_mem_atTop
    {statements : List Statement} {f : Finding}
    (hf : f ∈ atTop tenv (statementTrees n statements)) :
    f.id ∈ idRange n (countStatements statements) := by
  obtain ⟨t, ht, hid⟩ := exists_mem_ids_of_mem_atTop hf
  exact (ids_statementTrees_perm statements n).mem_iff.mp
    (List.mem_flatMap.mpr ⟨t, ht, hid⟩)

theorem Marks.head_statement
    {statement : Statement} {statements : List Statement}
    (h : Marks notes n (countStatements (statement :: statements))
      (atTop tenv (statementTrees n (statement :: statements)))) :
    Marks notes n statement.count (inTopItem tenv (statement.treeAt n)) := by
  rw [countStatements, statementTrees, atTop_cons] at h
  exact h.left (idRange_subset (Nat.le_refl _) (by omega)) fun f hf =>
    notMem_idRange_of_mem (mem_idRange_of_mem_atTop hf) (.inr (Nat.le_refl _))

theorem Marks.tail_statement
    {statement : Statement} {statements : List Statement}
    (h : Marks notes n (countStatements (statement :: statements))
      (atTop tenv (statementTrees n (statement :: statements)))) :
    Marks notes (n + statement.count) (countStatements statements)
      (atTop (afterItem tenv (statement.treeAt n))
        (statementTrees (n + statement.count) statements)) := by
  rw [countStatements, statementTrees, atTop_cons] at h
  exact h.right (idRange_subset (by omega) (by omega)) fun f hf =>
    notMem_idRange_of_mem (mem_idRange_of_mem_inTopItem hf)
      (.inl (Nat.le_refl _))

theorem sound_rule
    (h : Agrees tenv env) {pos : Position} {selectors : List Selector}
    {body : List Item}
    (hmarks : Marks notes n (Statement.rule pos selectors body).count
      (inTopItem tenv ((Statement.rule pos selectors body).treeAt n))) :
    ∀ s ∈ SelectedRule.declarations notes ⟨n, pos, selectors, body, env⟩,
      s.Sound notes := by
  rw [Statement.count] at hmarks
  have hbody : Marks notes (n + selectors.length) (countItems body)
      (inBody tenv.push (itemTrees (n + selectors.length) body)) :=
    hmarks.part (idRange_subset (by omega) (by omega)) fun _ _ => Iff.rfl
  exact sound_ofItems body h.push hbody

theorem sound_ofStatements
    (statements : List Statement) (h : Agrees tenv env)
    (hmarks : Marks notes n (countStatements statements)
      (atTop tenv (statementTrees n statements))) :
    ∀ r ∈ Selection.ofStatements notes env n statements,
      ∀ s ∈ r.declarations notes, s.Sound notes := by
  induction statements generalizing n tenv env with
  | nil => exact List.forall_mem_nil _
  | cons statement statements ih =>
      have hhead := hmarks.head_statement
      have htail := hmarks.tail_statement
      cases statement with
      | assignment pos name expr =>
          exact ih (agrees_after_assignment h hhead) htail
      | rule pos selectors body =>
          rw [Selection.ofStatements, List.forall_mem_cons]
          exact ⟨sound_rule h hhead, ih h htail⟩
      | ifThen pos guard body =>
          rw [Statement.treeAt, Item.treeAt] at htail
          exact ih h htail
      | ifElse pos guard body elsePos otherwise =>
          rw [Statement.treeAt, Item.treeAt] at htail
          exact ih h htail

end Statements

/-! ## Sources -/

theorem marks_check (sheet : Sheet) :
    Marks (Arena.ofSheet sheet).check.diagnosticOf 1 (countStatements sheet)
      (atTop .empty (statementTrees 1 sheet)) := by
  intro id hid
  refine diagnosticOf_check_isSome ((ids_sheetTree_perm sheet).mem_iff.mpr ?_)
  exact idRange_subset (by omega) (by omega) hid

/-- A declaration of the evaluated sheet that carries no diagnostic has a
property that takes values of some kind, and what it shows fits that kind. -/
theorem fits_literalValue?_of_clean
    (source : List Char) {label : Label} {property expr : Tree}
    (hmem : .node label (.declaration property expr) ∈
      (parse source).arena.check.evaluate.rootTree.subtrees)
    (hclean : (Tree.node label (.declaration property expr)).hasDiagnostic =
      false) :
    ∃ name kind rule, property.propertyName? = some name ∧
      PropertyRule.find? name = some rule ∧ kind ∈ rule.accepted ∧
        Fits (some kind) expr.literalValue? := by
  obtain ⟨r, hr, s, hs, fresh, heq⟩ :=
    (stores_parse source).check.exists_selected hmem
  have hsound :=
    sound_ofStatements _ agrees_empty (marks_check (parse source).sheet) r
      hr s hs
  obtain ⟨env, hvalue⟩ := Selection.exists_env_of_mem_ofItems _ _ _ _ hs
  rw [heq] at hclean
  have hbefore := Selected.hasDiagnostic_tree hvalue hclean
  obtain ⟨kind, rule, hrule, hkind, hfits⟩ := hsound hbefore
  obtain ⟨-, hcontent⟩ := Tree.node.inj heq
  obtain ⟨rfl, rfl⟩ := Content.declaration.inj hcontent
  refine ⟨s.property, kind, rule, propertyName?_noted _ _, hrule, hkind, ?_⟩
  rwa [Selected.literalValue?_exprTree,
    Selected.result?_eq_value hvalue hbefore]

theorem find?_eq_some
    {name : String} {rule : PropertyRule}
    (h : PropertyRule.find? name = some rule) :
    (Text.lowercase name ∈ ["color", "background-color"] ∧ rule = .ofColor) ∨
      (Text.lowercase name ∈ ["width", "height"] ∧ rule = .ofSize) := by
  unfold PropertyRule.find? at h
  split at h <;> simp_all

/-- After checking and evaluation, a declaration that carries no diagnostic and
shows a value has a property from the list, and the value is of a kind that the
property takes. -/
theorem literal_kind_accepted
    (source : List Char) {label : Label} {property expr : Tree}
    {value : Literal} (hmem : .node label (.declaration property expr) ∈
      (parse source).arena.check.evaluate.rootTree.subtrees)
    (hclean : (Tree.node label (.declaration property expr)).hasDiagnostic =
      false)
    (hliteral : expr.literalValue? = some value) :
    ∃ name, property.propertyName? = some name ∧
      ((Text.lowercase name ∈ ["color", "background-color"] ∧
        value.kind = .color) ∨
        (Text.lowercase name ∈ ["width", "height"] ∧
          (value.kind = .pixel ∨ value.kind = .percentage))) := by
  obtain ⟨name, kind, rule, hname, hrule, hkind, hfits⟩ :=
    fits_literalValue?_of_clean source hmem hclean
  have heq : kind = value.kind := Option.some.inj (hfits.kind_eq value hliteral)
  subst heq
  refine ⟨name, hname, ?_⟩
  rcases find?_eq_some hrule with ⟨hmember, rfl⟩ | ⟨hmember, rfl⟩
  · exact .inl ⟨hmember, by simpa [PropertyRule.ofColor] using hkind⟩
  · exact .inr ⟨hmember, by simpa [PropertyRule.ofSize] using hkind⟩

/-- The property and the value, if any, of a declaration that carries no
diagnostic. -/
def Tree.declared? : Tree → Option (String × Option Literal)
  | .node label (.declaration property expr) =>
      if (Tree.node label (.declaration property expr)).hasDiagnostic then none
      else property.propertyName?.map fun name => (name, expr.literalValue?)
  | _ => none

theorem exists_of_mem_declared?
    {ts : List Tree} {name : String} {value : Option Literal}
    (h : (name, value) ∈ ts.filterMap Tree.declared?) :
    ∃ label property expr, .node label (.declaration property expr) ∈ ts ∧
      (Tree.node label (.declaration property expr)).hasDiagnostic = false ∧
      property.propertyName? = some name ∧ expr.literalValue? = value := by
  obtain ⟨t, hmem, ht⟩ := List.mem_filterMap.mp h
  unfold Tree.declared? at ht
  split at ht
  · next label property expr =>
      split at ht
      · cases ht
      · next hclean =>
          obtain ⟨_, hname, heq⟩ := Option.map_eq_some_iff.mp ht
          obtain ⟨rfl, rfl⟩ := Prod.mk.inj heq
          exact ⟨label, property, expr, hmem, by simpa using hclean, hname, rfl⟩
  · cases ht

/-- Beside a declaration in error, one that evaluation gives a value. -/
theorem literal_kind_accepted_beside_error :
    let source := "A := 4px; p \x7b Width: A * 3; margin: A; \x7d".toList
    ∃ label property expr,
      .node label (.declaration property expr) ∈
        (parse source).arena.check.evaluate.rootTree.subtrees ∧
      (Tree.node label (.declaration property expr)).hasDiagnostic = false ∧
      expr.literalValue? = some (.pixel 12) ∧
      ∃ name, property.propertyName? = some name ∧
        ((Text.lowercase name ∈ ["color", "background-color"] ∧
            (Literal.pixel 12).kind = .color) ∨
          (Text.lowercase name ∈ ["width", "height"] ∧
            ((Literal.pixel 12).kind = .pixel ∨
              (Literal.pixel 12).kind = .percentage))) := by
  intro source
  have hdeclared : ("Width", some (Literal.pixel 12)) ∈
      (parse source).arena.check.evaluate.rootTree.subtrees.filterMap
        Tree.declared? := by
    decide +kernel
  obtain ⟨label, property, expr, hmem, hclean, -, hvalue⟩ :=
    exists_of_mem_declared? hdeclared
  exact ⟨label, property, expr, hmem, hclean, hvalue,
    literal_kind_accepted source hmem hclean hvalue⟩

/-! ## Progress -/

/-- A size that fits a kind of sizes has a value. -/
theorem isSome_of_fits_size
    {kind : LiteralKind} (hkind : kind ∈ PropertyRule.ofSize.accepted)
    {value : Option Literal} (h : Fits (some kind) value) : value.isSome := by
  have hcases : kind = .pixel ∨ kind = .percentage := by
    simpa [PropertyRule.ofSize] using hkind
  refine h.isSome kind rfl ?_
  rcases hcases with rfl | rfl <;> rfl

/-- A declaration that carries no diagnostic is one of a color, or it is one of
a size and shows a value. -/
theorem color_or_size_of_clean
    (source : List Char) {label : Label} {property expr : Tree}
    (hmem : .node label (.declaration property expr) ∈
      (parse source).arena.check.evaluate.rootTree.subtrees)
    (hclean : (Tree.node label (.declaration property expr)).hasDiagnostic =
      false) :
    ∃ name, property.propertyName? = some name ∧
      (Text.lowercase name ∈ ["color", "background-color"] ∨
        Text.lowercase name ∈ ["width", "height"] ∧
          expr.literalValue?.isSome) := by
  obtain ⟨name, kind, rule, hname, hrule, hkind, hfits⟩ :=
    fits_literalValue?_of_clean source hmem hclean
  refine ⟨name, hname, ?_⟩
  rcases find?_eq_some hrule with ⟨hmember, rfl⟩ | ⟨hmember, rfl⟩
  · exact .inl hmember
  · exact .inr ⟨hmember, isSome_of_fits_size hkind hfits⟩

/-- Nothing carries a diagnostic after the evaluation of a source that passes
all checks. -/
theorem hasDiagnostic_of_check_eq_nil
    {source : List Char} (h : check source = []) {t : Tree}
    (ht : t ∈ (parse source).arena.check.evaluate.rootTree.subtrees) :
    t.hasDiagnostic = false := by
  rw [← noted_rootTree_evaluate (stores_parse source).check
    (check_eq_nil_iff.mp h).2,
    Tree.subtrees_noted] at ht
  obtain ⟨s, -, rfl⟩ := List.mem_map.mp ht
  exact s.hasDiagnostic_noNotes

/-- What is reported on compiling a source that passes all checks is about
declarations that evaluation left without a value. -/
theorem exists_declaration_of_mem_diagnostics
    {source : List Char} (h : check source = []) {d : Diagnostic}
    (hd : d ∈ (compile source).diagnostics) :
    ∃ label property expr, .node label (.declaration property expr) ∈
        (parse source).arena.check.evaluate.rootTree.subtrees ∧
      expr.literalValue? = none ∧
      unevaluable? (.node label (.declaration property expr)) = some d := by
  have hstores := (stores_parse source).check
  have hclean := (check_eq_nil_iff.mp h).2
  rw [compile_of_check_eq_nil h, finish_of_clean hstores hclean
    fun _ _ _ hmem => Reading.selectors_ne_nil_of_mem_statements hmem] at hd
  split at hd
  · cases hd
  · rw [← unevaluated_evaluate hstores hclean] at hd
    obtain ⟨t, hwalk, ht⟩ := List.mem_filterMap.mp hd
    have hmem := Tree.walk_subset_subtrees isDeclaration _ hwalk
    have hcases := ht
    unfold unevaluable? at hcases
    split at hcases
    · next label property expr =>
        split at hcases
        · cases hcases
        · next hnone =>
            exact ⟨label, property, expr, hmem, by simpa using hnone, ht⟩
    · cases hcases

/-- After checking and evaluation, a size that carries no diagnostic shows a
value.  So what compiling reports on a source that passes all checks is about
colors only. -/
theorem size_has_value (source : List Char) :
    (∀ label property expr,
      .node label (.declaration property expr) ∈
        (parse source).arena.check.evaluate.rootTree.subtrees →
      (Tree.node label (.declaration property expr)).hasDiagnostic = false →
      (∃ name, property.propertyName? = some name ∧
        Text.lowercase name ∈ ["width", "height"]) →
      ∃ value, expr.literalValue? = some value) ∧
    (check source = [] →
      ∀ d ∈ (compile source).diagnostics, d.kind = .unevaluable →
      ∃ label property expr name,
        .node label (.declaration property expr) ∈
          (compile source).arena.rootTree.subtrees ∧
        unevaluable? (.node label (.declaration property expr)) = some d ∧
        property.propertyName? = some name ∧
        Text.lowercase name ∈ ["color", "background-color"]) := by
  refine ⟨?_, ?_⟩
  · rintro label property expr hmem hclean ⟨name, hname, hmember⟩
    obtain ⟨name', hname', hcases⟩ := color_or_size_of_clean source hmem hclean
    obtain rfl : name = name' := Option.some.inj (hname.symm.trans hname')
    rcases hcases with hcolor | ⟨-, hsome⟩
    · have hapart : ∀ text ∈ ["width", "height"], text ∉
          ["color", "background-color"] := by
        decide
      exact absurd hcolor (hapart _ hmember)
    · exact Option.isSome_iff_exists.mp hsome
  · intro hcheck d hd _
    obtain ⟨label, property, expr, hmem, hnone, hd⟩ :=
      exists_declaration_of_mem_diagnostics hcheck hd
    obtain ⟨name, hname, hcases⟩ :=
      color_or_size_of_clean source hmem
        (hasDiagnostic_of_check_eq_nil hcheck hmem)
    refine ⟨label, property, expr, name, ?_, hd, hname, ?_⟩
    · rwa [compile_of_check_eq_nil hcheck, finish_arena]
    · rcases hcases with hcolor | ⟨-, hsome⟩
      · exact hcolor
      · rw [hnone] at hsome
        cases hsome

/-- A size that is computed from a variable, and a sum of colors that is
reported. -/
theorem size_has_value_and_color_sum :
    let sized := "A := 25%; p \x7b HEIGHT: A + A; color: A; \x7d".toList
    let summed := "p \x7b Color: #ff0000 + #00ff00; \x7d".toList
    (∃ label property expr value,
      .node label (.declaration property expr) ∈
        (parse sized).arena.check.evaluate.rootTree.subtrees ∧
      (Tree.node label (.declaration property expr)).hasDiagnostic = false ∧
      property.propertyName? = some "HEIGHT" ∧
      expr.literalValue? = some value) ∧
    (check summed = [] ∧
      ∃ d ∈ (compile summed).diagnostics, d.kind = .unevaluable ∧
      ∃ label property expr name,
        .node label (.declaration property expr) ∈
          (compile summed).arena.rootTree.subtrees ∧
        unevaluable? (.node label (.declaration property expr)) = some d ∧
        property.propertyName? = some name ∧
        Text.lowercase name ∈ ["color", "background-color"]) := by
  intro sized summed
  have hdeclared : ("HEIGHT", some (Literal.percentage 50)) ∈
      (parse sized).arena.check.evaluate.rootTree.subtrees.filterMap
        Tree.declared? := by
    decide +kernel
  obtain ⟨label, property, expr, hmem, hclean, hname, -⟩ :=
    exists_of_mem_declared? hdeclared
  have hlower : Text.lowercase "HEIGHT" ∈ ["width", "height"] := by
    decide +kernel
  have hcheck : check summed = [] := by decide +kernel
  have hreported : Diagnostic.error .unevaluable ⟨1, 5⟩
      "expression in declaration 'Color' does not evaluate to a value" ∈
        (compile summed).diagnostics := by
    decide +kernel
  obtain ⟨value, hvalue⟩ :=
    (size_has_value sized).1 label property expr hmem hclean ⟨_, hname, hlower⟩
  exact ⟨⟨label, property, expr, value, hmem, hclean, hname, hvalue⟩, hcheck, _,
    hreported, rfl, (size_has_value summed).2 hcheck _ hreported rfl⟩

end Stylesheet
