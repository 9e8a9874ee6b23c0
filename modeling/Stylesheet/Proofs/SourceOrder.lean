import Stylesheet.Proofs.Offsets
import Stylesheet.Proofs.Parsing
import Stylesheet.Proofs.Places
import Stylesheet.Proofs.Soundness

/-!
# The order of the source

The tokens of a source come in the order of their places, and the parts of a
sheet keep the places of its tokens.  A walk comes to an operation before its
operands, one of which stands to the left of its sign.  It still meets the nodes
that checking finds something about in the order of the source, because nothing
is wrong in the operands of an operation that is wrong itself.
-/

namespace Stylesheet

/-! ## Places -/

namespace Position

/-- One place is before another: on an earlier line, or in an earlier column of
the same one. -/
def Before (p q : Position) : Prop :=
  p.line < q.line ∨ p.line = q.line ∧ p.column < q.column

theorem Before.trans {p q r : Position} (hpq : p.Before q) (hqr : q.Before r) :
    p.Before r := by
  unfold Before at *
  omega

theorem Before.ne {p q : Position} (h : p.Before q) : p ≠ q := by
  rintro rfl
  unfold Before at h
  omega

theorem before_next (p : Position) (c : Char) : p.Before (p.next c) := by
  unfold next
  split
  · exact .inl (Int.lt_succ p.line)
  · exact .inr ⟨rfl, Int.lt_succ p.column⟩

theorem eq_or_before_after (p : Position) (cs : List Char) :
    p = p.after cs ∨ p.Before (p.after cs) := by
  induction cs generalizing p with
  | nil => exact .inl rfl
  | cons c cs ih =>
      right
      rcases ih (p.next c) with heq | hbefore
      · exact heq ▸ p.before_next c
      · exact (p.before_next c).trans hbefore

theorem before_after_cons (p : Position) (c : Char) (cs : List Char) :
    p.Before (p.after (c :: cs)) := by
  rcases eq_or_before_after (p.next c) cs with heq | hbefore
  · exact heq ▸ p.before_next c
  · exact (p.before_next c).trans hbefore

end Position

/-- The tokens of a source come in the order of their places. -/
theorem Scan.Cursor.tokens_in_order (p : Position) (cs : List Char) :
    ((tokens ⟨p, cs⟩).map Token.pos).Pairwise Position.Before ∧
      ∀ t ∈ tokens ⟨p, cs⟩, p = t.pos ∨ p.Before t.pos := by
  induction cs using tokens_induction generalizing p with
  | hend cs hnone =>
      rw [hnone, List.map_singleton, List.forall_mem_singleton]
      exact ⟨List.pairwise_singleton _ _, p.eq_or_before_after _⟩
  | hcons gap c cs hgap hcs hnul ih =>
      rw [tokens_cons hgap hcs hnul, List.map_cons, List.pairwise_cons,
        List.forall_mem_cons, List.forall_mem_map]
      obtain ⟨hordered, hbehind⟩ :=
        ih ((p.after gap).after (c :: (lexeme c cs).2))
      have hlexeme := (p.after gap).before_after_cons c (lexeme c cs).2
      have hrest : ∀ t ∈ tokens ⟨(p.after gap).after (c :: (lexeme c cs).2),
          cs.drop (lexeme c cs).2.length⟩, (p.after gap).Before t.pos := by
        intro t ht
        rcases hbehind t ht with heq | hbefore
        · exact heq ▸ hlexeme
        · exact hlexeme.trans hbefore
      refine ⟨⟨hrest, hordered⟩, p.eq_or_before_after gap, fun t ht => .inr ?_⟩
      rcases p.eq_or_before_after gap with heq | hbefore
      · exact heq.symm ▸ hrest t ht
      · exact hbefore.trans (hrest t ht)

/-! ## The places of a sheet -/

def Expr.places : Expr → List Position
  | .literal pos _ | .reference pos _ => [pos]
  | .operation pos _ lhs rhs => lhs.places ++ pos :: rhs.places

mutual

/-- The places of the parts of an item, from left to right. -/
def Item.places : Item → List Position
  | .declaration pos _ expr | .assignment pos _ expr => pos :: expr.places
  | .ifThen pos guard body => pos :: guard.places ++ itemPlaces body
  | .ifElse pos guard body elsePos otherwise =>
      pos :: guard.places ++ itemPlaces body ++ elsePos :: itemPlaces otherwise

def itemPlaces : List Item → List Position
  | [] => []
  | item :: items => item.places ++ itemPlaces items

end

def Statement.places : Statement → List Position
  | .assignment pos _ expr => pos :: expr.places
  | .rule _ selectors body => selectors.map Selector.pos ++ itemPlaces body
  | .ifThen pos guard body => (Item.ifThen pos guard body).places
  | .ifElse pos guard body elsePos otherwise =>
      (Item.ifElse pos guard body elsePos otherwise).places

namespace Grammar

open Reading (Branches)

theorem Atom.places_eq {ts : List Token} {e : Expr} (h : Atom ts e) :
    e.places = ts.map Token.pos := by
  cases h <;> rfl

theorem Term.places_eq {ts : List Token} {e : Expr} (h : Term ts e) :
    e.places = ts.map Token.pos := by
  induction h with
  | atom h => exact h.places_eq
  | product hl hsign hr ih =>
      rw [Expr.places, ih, hr.places_eq, List.map_append, List.map_cons]

/-- Every token of an expression has a part of it at its place. -/
theorem Expression.places_eq {ts : List Token} {e : Expr}
    (h : Expression ts e) :
    e.places = ts.map Token.pos := by
  induction h with
  | term h => exact h.places_eq
  | sum hl hsign hr ih =>
      rw [Expr.places, ih, hr.places_eq, List.map_append, List.map_cons]
  | difference hl hsign hr ih =>
      rw [Expr.places, ih, hr.places_eq, List.map_append, List.map_cons]

theorem Binding.places_sublist
    {sign : TokenKind} {ts : List Token} {t : Token} {e : Expr}
    (h : Binding sign ts t e) :
    (t.pos :: e.places).Sublist (ts.map Token.pos) := by
  obtain ⟨hname, hmark, hexpr, hsemicolon⟩ := h
  rw [hexpr.places_eq, List.map_append, List.map_cons, List.map_cons]
  exact (((List.Sublist.refl _).cons _).cons_cons _).trans
    (List.sublist_append_left _ _)

theorem places_ifThen_sublist
    {word opening closing : Token} {gs bs : List Token} {guard : Expr}
    {body : List Item} (hguard : Expression gs guard)
    (hbody : (itemPlaces body).Sublist (bs.map Token.pos)) :
    (Branches.item word.pos ⟨guard, body, none⟩).places.Sublist
      ((word :: opening :: gs ++ closing :: bs).map Token.pos) := by
  rw [Branches.item, Item.places, hguard.places_eq, List.map_append,
    List.map_cons, List.map_cons, List.map_cons]
  exact (((List.Sublist.refl _).cons _).cons_cons _).append (hbody.cons _)

theorem places_ifElse_sublist
    {word opening closing other : Token} {gs bs os : List Token} {guard : Expr}
    {body otherwise : List Item} (hguard : Expression gs guard)
    (hbody : (itemPlaces body).Sublist (bs.map Token.pos))
    (hotherwise : (itemPlaces otherwise).Sublist (os.map Token.pos)) :
    (Branches.item word.pos
      ⟨guard, body, some (other.pos, otherwise)⟩).places.Sublist
      ((word :: opening :: gs ++ closing :: bs ++ other :: os).map
        Token.pos) := by
  rw [List.map_append, List.map_cons]
  exact (places_ifThen_sublist hguard hbody).append (hotherwise.cons_cons _)

/-- The parts of a body have the places of its tokens, in the same order. -/
theorem Block.places_sublist
    {ts : List Token} {items : List Item} (h : Block ts items) :
    (itemPlaces items).Sublist (ts.map Token.pos) :=
  @Block.rec
    (fun ts items _ => (itemPlaces items).Sublist (ts.map Token.pos))
    (fun ts word branches _ =>
      (branches.item word.pos).places.Sublist (ts.map Token.pos))
    (fun ts item _ => item.places.Sublist (ts.map Token.pos))
    (fun ts items _ => (itemPlaces items).Sublist (ts.map Token.pos))
    (fun _ _ _ hbody => by
      rw [List.map_append, List.map_cons]
      exact (hbody.cons _).trans (List.sublist_append_left _ _))
    (fun _ _ hguard _ _ hbody => places_ifThen_sublist hguard hbody)
    (fun _ _ hguard _ _ _ _ hbody hotherwise =>
      places_ifElse_sublist hguard hbody hotherwise)
    (fun h => h.places_sublist)
    (fun h => h.places_sublist)
    (fun _ h => h)
    (List.Sublist.refl _)
    (fun _ _ hitem hbody => by
      rw [itemPlaces, List.map_append]
      exact hitem.append hbody)
    ts items h

theorem IfClause.places_sublist
    {ts : List Token} {word : Token} {branches : Branches}
    (h : IfClause ts word branches) :
    (branches.statement word.pos).places.Sublist (ts.map Token.pos) := by
  cases h with
  | ifThen _ _ hguard _ hbody =>
      exact places_ifThen_sublist hguard hbody.places_sublist
  | ifElse _ _ hguard _ hbody _ hotherwise =>
      exact places_ifElse_sublist hguard hbody.places_sublist
        hotherwise.places_sublist

theorem Selectors.places_sublist
    {ts : List Token} {selectors : List Selector} (h : Selectors ts selectors) :
    (selectors.map Selector.pos).Sublist (ts.map Token.pos) := by
  induction h with
  | single h => exact List.Sublist.refl _
  | cons h hcomma hmore ih => exact (ih.cons _).cons_cons _

theorem TopItem.places_sublist
    {ts : List Token} {statement : Statement} (h : TopItem ts statement) :
    statement.places.Sublist (ts.map Token.pos) := by
  cases h with
  | assignment h => exact h.places_sublist
  | rule hselectors hbody =>
      rw [Statement.places, List.map_append]
      exact hselectors.places_sublist.append hbody.places_sublist
  | conditional h => exact h.places_sublist

theorem WholeSheet.places_sublist
    {ts : List Token} {sheet : Sheet} (h : WholeSheet ts sheet) :
    (sheet.flatMap Statement.places).Sublist (ts.map Token.pos) := by
  induction h with
  | nil => exact List.Sublist.refl _
  | cons hstatement hsheet ih =>
      rw [List.flatMap_cons, List.map_append]
      exact hstatement.places_sublist.append ih

end Grammar

/-! ## The places of annotated nodes -/

/-- The places of the nodes of a tree that carry a note, in the order of a
walk. -/
def Tree.notedPlaces (notes : NodeId → Option Diagnostic)
    (t : Tree) : List Position :=
  t.subtrees.filterMap fun s => (notes s.rootId).bind fun _ =>
    s.label?.map Label.pos

section Noted

open Typing

variable {notes : NodeId → Option Diagnostic} {tenv : Scope Ty} {n : Nat}

theorem notedPlaces_plain (n : Nat) (pos : Position) (c : Content Tree) :
    (Tree.plain n pos c).notedPlaces notes =
      (if (notes n).isSome then [pos] else [])
        ++ c.toList.flatMap (Tree.notedPlaces notes) := by
  rw [Tree.notedPlaces, Tree.plain, Tree.subtrees_node, List.filterMap_cons,
    Tree.rootId, Tree.label?, List.filterMap_flatMap]
  cases notes n <;> rfl

theorem notedPlaces_plain_sublist
    {pos : Position} {c : Content Tree} {places : List Position}
    (h : (c.toList.flatMap (Tree.notedPlaces notes)).Sublist places) :
    ((Tree.plain n pos c).notedPlaces notes).Sublist (pos :: places) := by
  rw [notedPlaces_plain]
  split
  · exact h.cons_cons pos
  · exact h.cons pos

theorem natCast_mem_idRange
    {n k i : Nat} (hfirst : n ≤ i) (hlast : i < n + k) :
    (i : Int) ∈ idRange n k :=
  mem_idRange.mpr (by omega)

theorem notMem_idRange_of_mem_findingOn
    {k m j : Nat} {pos : Position} {fault? : Option Fault} {f : Finding}
    (hf : f ∈ findingOn ⟨k, pos, none⟩ fault?) (h : k < m ∨ m + j ≤ k) :
    f.id ∉ idRange m j := by
  have hid : f.id = (k : Int) := id_eq_of_mem_findingOn hf
  rw [hid, mem_idRange]
  omega

theorem Marks.eq_none
    {k i : Nat} {findings : List Finding} (h : Marks notes n k findings)
    (hfirst : n ≤ i) (hlast : i < n + k)
    (hnot : ∀ f ∈ findings, f.id ∉ idRange i 1) : notes i = none := by
  rw [← Option.not_isSome_iff_eq_none, h i (natCast_mem_idRange hfirst hlast)]
  rintro ⟨f, hf, heq⟩
  exact hnot f hf
    (heq ▸ natCast_mem_idRange (Nat.le_refl i) (Nat.lt_succ_self i))

theorem Marks.notedPlaces_eq_nil
    {k : Nat} {findings : List Finding} (h : Marks notes n k findings)
    {ts : List Tree} (hids : ts.flatMap Tree.ids ⊆ idRange n k)
    (hnot : ∀ f ∈ findings, f.id ∉ ts.flatMap Tree.ids) :
    ts.flatMap (Tree.notedPlaces notes) = [] := by
  rw [List.flatMap_eq_nil_iff]
  intro t ht
  rw [Tree.notedPlaces, List.filterMap_eq_nil_iff]
  intro s hs
  have hid : s.rootId ∈ ts.flatMap Tree.ids :=
    List.mem_flatMap.mpr ⟨t, ht, List.mem_map_of_mem hs⟩
  have hnone : notes s.rootId = none := by
    rw [← Option.not_isSome_iff_eq_none, h _ (hids hid)]
    rintro ⟨f, hf, heq⟩
    exact hnot f hf (heq ▸ hid)
  rw [hnone, Option.bind_none]

theorem Marks.expr_notedPlaces_eq_nil
    {e : Expr} (h : Marks notes n e.count []) :
    (e.treeAt n).notedPlaces notes = [] := by
  have hids : [e.treeAt n].flatMap Tree.ids ⊆ idRange n e.count := by
    rw [List.flatMap_singleton]
    exact (e.ids_treeAt_perm n).subset
  simpa using h.notedPlaces_eq_nil hids (List.forall_mem_nil _)

/-- What is found in an operation is found in its operands, or the operation
multiplies two pixel sizes. -/
theorem Marks.operation
    {pos : Position} {op : Operator} {lhs rhs : Expr}
    (h : Marks notes n (Expr.operation pos op lhs rhs).count
      (inExpr tenv ((Expr.operation pos op lhs rhs).treeAt n))) :
    Marks notes n lhs.count (inExpr tenv (lhs.treeAt n)) ∧
      Marks notes (n + lhs.count) rhs.count
        (inExpr tenv (rhs.treeAt (n + lhs.count))) ∧
      ((notes (n + lhs.count + rhs.count : Nat)).isSome →
        isPixelProduct tenv op (lhs.treeAt n) (rhs.treeAt (n + lhs.count)) =
          true) := by
  rw [Expr.count, Expr.treeAt, Tree.plain, inExpr] at h
  have hown : ∀ m j, m + j ≤ n + lhs.count + rhs.count →
      ∀ f ∈ (if isPixelProduct tenv op (lhs.treeAt n)
        (rhs.treeAt (n + lhs.count)) then
          [⟨(n + lhs.count + rhs.count : Nat), .pixelProduct⟩]
            else [] : List Finding),
        f.id ∉ idRange m j := by
    intro m j hle f hf hmem
    split at hf
    · rw [List.mem_singleton.mp hf] at hmem
      exact ne_of_mem_idRange hmem hle rfl
    · cases hf
  refine ⟨?_, ?_, fun hsome => ?_⟩
  · refine (h.left (m := n) (j := lhs.count)
      (idRange_subset (by omega) (by omega)) (hown _ _ (by omega))).left
      (List.Subset.refl _) fun f hf => ?_
    exact notMem_idRange_of_mem (mem_idRange_of_mem_inExpr hf)
      (.inr (Nat.le_refl _))
  · refine (h.left (m := n + lhs.count) (j := rhs.count)
      (idRange_subset (by omega) (by omega)) (hown _ _ (Nat.le_refl _))).right
      (List.Subset.refl _) fun f hf => ?_
    exact notMem_idRange_of_mem (mem_idRange_of_mem_inExpr hf)
      (.inl (Nat.le_refl _))
  · by_contra hproduct
    obtain ⟨f, hf, hid⟩ :=
      (h _ (natCast_mem_idRange (by omega) (by omega))).mp hsome
    rw [if_neg hproduct, List.append_nil, List.mem_append] at hf
    rcases hf with hf | hf
    · exact ne_of_mem_idRange (mem_idRange_of_mem_inExpr hf) (by omega) hid
    · exact ne_of_mem_idRange (mem_idRange_of_mem_inExpr hf) (Nat.le_refl _) hid

/-- Where an operation is wrong itself, nothing is wrong in its operands. -/
theorem Marks.expr_places
    {e : Expr} (h : Marks notes n e.count (inExpr tenv (e.treeAt n))) :
    ((e.treeAt n).notedPlaces notes).Sublist e.places := by
  induction e generalizing n with
  | literal pos value =>
      rw [Expr.treeAt, notedPlaces_plain, Expr.places, Content.toList,
        List.flatMap_nil, List.append_nil]
      split <;> simp
  | reference pos name =>
      rw [Expr.treeAt, notedPlaces_plain, Expr.places, Content.toList,
        List.flatMap_nil, List.append_nil]
      split <;> simp
  | operation pos op lhs rhs ihl ihr =>
      obtain ⟨hl, hr, hproduct⟩ := h.operation
      rw [Expr.treeAt, notedPlaces_plain, Expr.places, Content.toList,
        List.flatMap_cons, List.flatMap_cons, List.flatMap_nil, List.append_nil]
      by_cases hsome : (notes (n + lhs.count + rhs.count : Nat)).isSome
      · have hpixel := hproduct hsome
        simp only [isPixelProduct, Bool.and_eq_true,
          decide_eq_true_eq] at hpixel
        rw [inExpr_eq_nil_of_typeOf_ne_none
          (hpixel.1.2 ▸ Option.some_ne_none _)] at hl
        rw [inExpr_eq_nil_of_typeOf_ne_none
          (hpixel.2 ▸ Option.some_ne_none _)] at hr
        rw [if_pos hsome, hl.expr_notedPlaces_eq_nil,
          hr.expr_notedPlaces_eq_nil]
        simp
      · rw [if_neg hsome, List.nil_append]
        exact (ihl hl).append ((ihr hr).cons _)

theorem Marks.binding_places
    {pos : Position} {expr : Expr} {fault? : Option Fault}
    {c name : Content Tree}
    (h : Marks notes n (1 + expr.count + 1)
      (inExpr tenv (expr.treeAt (n + 1)) ++
      findingOn ⟨(n + 1 + expr.count : Nat), pos, none⟩ fault?))
    (hname : name.toList = [])
    (hc : c.toList = [.plain n pos name, expr.treeAt (n + 1)]) :
    ((Tree.plain (n + 1 + expr.count) pos c).notedPlaces notes).Sublist
      (pos :: expr.places) := by
  have hexpr : Marks notes (n + 1) expr.count
      (inExpr tenv (expr.treeAt (n + 1))) :=
    h.left (idRange_subset (by omega) (by omega)) fun f hf =>
      notMem_idRange_of_mem_findingOn hf (.inr (Nat.le_refl _))
  have hnone : notes n = none := by
    refine h.eq_none (Nat.le_refl n) (by omega)
      (List.forall_mem_append.mpr ⟨?_, ?_⟩)
    · exact fun f hf =>
        notMem_idRange_of_mem (mem_idRange_of_mem_inExpr hf)
          (.inr (Nat.le_refl _))
    · exact fun f hf => notMem_idRange_of_mem_findingOn hf (.inr (by omega))
  apply notedPlaces_plain_sublist
  rw [hc, List.flatMap_cons, notedPlaces_plain, hnone, hname,
    List.flatMap_singleton]
  exact hexpr.expr_places

theorem Marks.ifThen_places
    {pos : Position} {guard : Expr} {body : List Item}
    (h : Marks notes n (Item.ifThen pos guard body).count
      (inItem tenv ((Item.ifThen pos guard body).treeAt n)))
    (hbody : ((itemTrees (n + guard.count) body).flatMap
      (Tree.notedPlaces notes)).Sublist
      (itemPlaces body)) :
    (((Item.ifThen pos guard body).treeAt n).notedPlaces notes).Sublist
      (Item.ifThen pos guard body).places := by
  apply notedPlaces_plain_sublist
  rw [Content.toList, List.cons_append, List.flatMap_cons, List.flatMap_append]
  refine h.ifThen.1.expr_places.append ?_
  simpa [Tree.notedPlaces] using hbody

theorem Marks.ifElse_places
    {pos elsePos : Position} {guard : Expr} {body otherwise : List Item}
    (h : Marks notes n (Item.ifElse pos guard body elsePos otherwise).count
      (inItem tenv ((Item.ifElse pos guard body elsePos otherwise).treeAt n)))
    (hbody : ((itemTrees (n + guard.count) body).flatMap
      (Tree.notedPlaces notes)).Sublist
      (itemPlaces body))
    (hotherwise :
      ((itemTrees (n + guard.count + countItems body) otherwise).flatMap
      (Tree.notedPlaces notes)).Sublist (itemPlaces otherwise)) :
    (((Item.ifElse pos guard body elsePos otherwise).treeAt n).notedPlaces
      notes).Sublist
      (Item.ifElse pos guard body elsePos otherwise).places := by
  rw [Item.places, List.cons_append, List.cons_append, List.append_assoc]
  apply notedPlaces_plain_sublist
  rw [Content.toList, List.cons_append, List.flatMap_cons, List.flatMap_append,
    List.flatMap_singleton]
  refine h.ifElse.1.expr_places.append (hbody.append ?_)
  exact notedPlaces_plain_sublist hotherwise

/-- The annotated nodes in the items of a body come in the order of the
source. -/
theorem Marks.items_places
    {items : List Item}
    (h : Marks notes n (countItems items) (inBody tenv (itemTrees n items))) :
    ((itemTrees n items).flatMap (Tree.notedPlaces notes)).Sublist
      (itemPlaces items) := by
  induction items using Item.list_induction generalizing n tenv with
  | nil => exact List.Sublist.refl _
  | declaration pos property expr items ih =>
      have hhead := h.head
      rw [Item.treeAt, declarationTree, Tree.plain, inItem] at hhead
      rw [itemTrees, List.flatMap_cons, itemPlaces]
      exact (hhead.binding_places rfl rfl).append (ih h.tail)
  | assignment pos name expr items ih =>
      have hhead := h.head
      rw [Item.treeAt, assignmentTree, Tree.plain, inItem] at hhead
      rw [itemTrees, List.flatMap_cons, itemPlaces]
      exact (hhead.binding_places rfl rfl).append (ih h.tail)
  | ifThen pos guard body items ihbody ih =>
      rw [itemTrees, List.flatMap_cons, itemPlaces]
      exact (h.head.ifThen_places (ihbody h.head.ifThen.2)).append (ih h.tail)
  | ifElse pos guard body elsePos otherwise items ihbody ihelse ih =>
      obtain ⟨-, hbody, hotherwise⟩ := h.head.ifElse
      rw [itemTrees, List.flatMap_cons, itemPlaces]
      exact (h.head.ifElse_places (ihbody hbody) (ihelse hotherwise)).append
        (ih h.tail)

/-- Where only the root of a tree is wrong, only its place is noted. -/
theorem Marks.root_places
    {k top : Nat} {pos : Position} {c : Content Tree} {fault : Fault}
    (h : Marks notes n k [⟨top, fault⟩])
    (hperm : (Tree.plain top pos c).ids.Perm (idRange n k)) :
    ((Tree.plain top pos c).notedPlaces notes).Sublist [pos] := by
  apply notedPlaces_plain_sublist
  have hnodup := hperm.nodup_iff.mpr (nodup_idRange n k)
  rw [Tree.plain, Tree.ids_node] at hperm hnodup
  rw [h.notedPlaces_eq_nil
    (List.Subset.trans (List.subset_cons_self _ _) hperm.subset)]
  rw [List.forall_mem_singleton]
  exact (List.nodup_cons.mp hnodup).1

theorem Marks.rule_places
    {pos : Position} {selectors : List Selector} {body : List Item}
    (h : Marks notes n (Statement.rule pos selectors body).count
      (inTopItem tenv ((Statement.rule pos selectors body).treeAt n))) :
    (((Statement.rule pos selectors body).treeAt n).notedPlaces notes).Sublist
      (Statement.rule pos selectors body).places := by
  rw [Statement.count] at h
  change Marks notes n _
    (inBody tenv.push (itemTrees (n + selectors.length) body)) at h
  have hbody : Marks notes (n + selectors.length) (countItems body)
      (inBody tenv.push (itemTrees (n + selectors.length) body)) :=
    h.part (idRange_subset (by omega) (by omega)) fun _ _ => Iff.rfl
  have hown : notes (n + selectors.length + countItems body : Nat) = none :=
    h.eq_none (by omega) (by omega) fun f hf =>
      notMem_idRange_of_mem (mem_idRange_of_mem_inBody hf)
        (.inl (Nat.le_refl _))
  have hperm := ids_selectorTrees_perm selectors n
  have hselectors : (selectorTrees n selectors).flatMap
      (Tree.notedPlaces notes) = [] := by
    apply h.notedPlaces_eq_nil
    · exact List.Subset.trans hperm.subset
        (idRange_subset (Nat.le_refl n) (by omega))
    · intro f hf hmem
      exact notMem_idRange_of_mem (mem_idRange_of_mem_inBody hf)
        (.inr (Nat.le_refl _)) (hperm.mem_iff.mp hmem)
  rw [Statement.treeAt, notedPlaces_plain, hown, Content.toList,
    List.flatMap_append, hselectors]
  exact hbody.items_places.trans (List.sublist_append_right _ _)

theorem Marks.statement_places
    {statement : Statement}
    (h : Marks notes n statement.count (inTopItem tenv (statement.treeAt n))) :
    ((statement.treeAt n).notedPlaces notes).Sublist statement.places := by
  cases statement with
  | assignment pos name expr => exact h.binding_places rfl rfl
  | rule pos selectors body => exact h.rule_places
  | ifThen pos guard body =>
      have hperm := (Item.ifThen pos guard body).ids_treeAt_perm n
      rw [Item.treeAt] at hperm
      exact (Marks.root_places h hperm).trans
        ((List.nil_sublist _).cons_cons pos)
  | ifElse pos guard body elsePos otherwise =>
      have hperm :=
        (Item.ifElse pos guard body elsePos otherwise).ids_treeAt_perm n
      rw [Item.treeAt] at hperm
      exact (Marks.root_places h hperm).trans
        ((List.nil_sublist _).cons_cons pos)

theorem Marks.statements_places
    {statements : List Statement}
    (h : Marks notes n (countStatements statements)
      (atTop tenv (statementTrees n statements))) :
    ((statementTrees n statements).flatMap (Tree.notedPlaces notes)).Sublist
      (statements.flatMap Statement.places) := by
  induction statements generalizing n tenv with
  | nil => exact List.Sublist.refl _
  | cons statement statements ih =>
      rw [statementTrees, List.flatMap_cons, List.flatMap_cons]
      exact h.head_statement.statement_places.append (ih h.tail_statement)

end Noted

/-! ## Checked sources -/

/-- What checking reports stands at the places of the annotated nodes. -/
theorem map_pos_diagnostics_check (sheet : Sheet) :
    (Arena.ofSheet sheet).check.diagnostics.map Diagnostic.pos =
      (statementTrees 1 sheet).flatMap
        (Tree.notedPlaces (Arena.ofSheet sheet).check.diagnosticOf) := by
  have hflat : (statementTrees 1 sheet).flatMap
      (Tree.notedPlaces (Arena.ofSheet sheet).check.diagnosticOf) = _ :=
    List.filterMap_flatMap.symm
  rw [diagnostics_check_statements, List.map_filterMap, hflat]
  refine List.filterMap_congr fun t ht => ?_
  cases t with
  | missing =>
      obtain ⟨s, -, hs⟩ := List.mem_flatMap.mp ht
      exact absurd hs (Tree.missing_notMem_subtrees _)
  | node label c =>
      have hsub : .node label c ∈ (sheetTree sheet).subtrees := by
        rw [sheetTree, Tree.plain, Tree.subtrees_node]
        exact List.mem_cons_of_mem _ ht
      rw [Tree.rootId, diagnosticOf_check hsub, Typing.reportOn, Tree.label?,
        Option.bind_some]
      cases (Typing.inSheet (sheetTree sheet)).find? (·.id = label.id) <;> rfl

theorem places_check_sublist (sheet : Sheet) :
    ((Arena.ofSheet sheet).check.diagnostics.map Diagnostic.pos).Sublist
      (sheet.flatMap Statement.places) := by
  rw [map_pos_diagnostics_check]
  exact (marks_check sheet).statements_places

theorem places_parse_sublist
    {source : List Char} (h : (parse source).diagnostics = []) :
    ((parse source).sheet.flatMap Statement.places).Sublist
      ((Scan.scan source).map Token.pos) := by
  obtain ⟨body, last, hscan, -, -⟩ := (Scan.Cursor.start source).tokens_eq
  have hbody : body.Sublist (Scan.scan source) := by
    rw [Scan.scan, hscan]
    exact List.sublist_append_left _ _
  exact (wholeSheet_of_parse h hscan).places_sublist.trans (hbody.map _)

/-- What is reported on a source without syntax errors comes in the order of the
source, with no two reports at one place. -/
theorem check_in_source_order {source : List Char}
    (h : (parse source).diagnostics = []) :
    (check source).Pairwise (fun d e => d.pos.Before e.pos) ∧
      ((check source).map Diagnostic.pos).Nodup := by
  have hcheck : check source = (parse source).arena.check.diagnostics := by
    simp [check, h, Diagnostics.hasErrors]
  have hordered : ((check source).map Diagnostic.pos).Pairwise
      Position.Before := by
    rw [hcheck]
    exact (Scan.Cursor.tokens_in_order .start source).1.sublist
      ((places_check_sublist _).trans (places_parse_sublist h))
  exact ⟨List.pairwise_map.mp hordered, hordered.imp Position.Before.ne⟩

/-- Reports on both operands of a sum and on the assignment in front of it, and
one on the sign of a product on the next line. -/
theorem check_in_source_order_two_lines :
    let source := "A := B + C;\np \x7b width: 2px * 3px; \x7d".toList
    (parse source).diagnostics = [] ∧
      (check source).map Diagnostic.pos =
        [⟨1, 1⟩, ⟨1, 6⟩, ⟨1, 10⟩, ⟨2, 5⟩, ⟨2, 16⟩] ∧
      (check source).Pairwise (fun d e => d.pos.Before e.pos) ∧
      ((check source).map Diagnostic.pos).Nodup := by
  intro source
  have hparse : (parse source).diagnostics = [] := by decide +kernel
  refine ⟨hparse, ?_, check_in_source_order hparse⟩
  decide +kernel

end Stylesheet
