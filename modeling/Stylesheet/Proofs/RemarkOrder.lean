import Stylesheet.Proofs.Remarks
import Stylesheet.Proofs.SourceOrder

/-!
# The order of the remarks

The remarks on an item stand at its place or inside it, and the walk over a list
goes from one item to the next.  But it looks for repeated properties in the
whole list before it comes to the items.  So the remarks are in the order of the
source unless a declaration that repeats a property has an item in front of it,
in the same list, that is remarked on.
-/

namespace Stylesheet

/-! ## Places of items -/

theorem Position.Before.asymm {p q : Position} (h : p.Before q) :
    ¬ q.Before p :=
  fun h' => (h.trans h').ne rfl

instance (p q : Position) : Decidable (p.Before q) :=
  inferInstanceAs
    (Decidable (p.line < q.line ∨ p.line = q.line ∧ p.column < q.column))

def Item.pos : Item → Position
  | .declaration pos _ _ | .assignment pos _ _ | .ifThen pos _ _
  | .ifElse pos _ _ _ _ => pos

theorem Item.pos_mem_places (item : Item) : item.pos ∈ item.places := by
  cases item <;> exact List.mem_cons_self

theorem itemPlaces_eq_flatMap (items : List Item) :
    itemPlaces items = items.flatMap Item.places := by
  induction items with
  | nil => rfl
  | cons item items ih => rw [itemPlaces, ih, List.flatMap_cons]

theorem itemPlaces_append (front back : List Item) :
    itemPlaces (front ++ back) = itemPlaces front ++ itemPlaces back := by
  simp only [itemPlaces_eq_flatMap, List.flatMap_append]

theorem mem_itemPlaces {items : List Item} {p : Position} :
    p ∈ itemPlaces items ↔ ∃ item ∈ items, p ∈ item.places := by
  rw [itemPlaces_eq_flatMap, List.mem_flatMap]

/-- What is in an item comes before what is in the items behind it. -/
theorem before_of_places
    {front back : List Item}
    (h : (itemPlaces (front ++ back)).Pairwise Position.Before)
    {item later : Item} (hitem : item ∈ front) (hlater : later ∈ back)
    {p q : Position} (hp : p ∈ item.places) (hq : q ∈ later.places) :
    p.Before q := by
  rw [itemPlaces_append, List.pairwise_append] at h
  exact h.2.2 p (mem_itemPlaces.mpr ⟨item, hitem, hp⟩) q
    (mem_itemPlaces.mpr ⟨later, hlater, hq⟩)

theorem map_pos_sublist_itemPlaces (items : List Item) :
    (items.map Item.pos).Sublist (itemPlaces items) := by
  induction items with
  | nil => exact List.Sublist.refl _
  | cons item items ih =>
      have hfirst : [item.pos].Sublist item.places :=
        List.singleton_sublist.mpr item.pos_mem_places
      exact hfirst.append ih

namespace Lint

variable {used : List String}

/-! ## Places of remarks -/

/-- Every remark is at one of the places. -/
def Within (places : List Position) (found : Diagnostics) : Prop :=
  ∀ d ∈ found, d.pos ∈ places

theorem within_nil (places : List Position) : Within places [] :=
  List.forall_mem_nil _

theorem Within.append {places : List Position} {front back : Diagnostics}
    (hfront : Within places front) (hback : Within places back) :
    Within places (front ++ back) :=
  List.forall_mem_append.mpr ⟨hfront, hback⟩

theorem Within.mono {places places' : List Position} {found : Diagnostics}
    (h : Within places found) (hsub : places ⊆ places') :
    Within places' found :=
  fun d hd => hsub (h d hd)

theorem pos_of_constant? {pos : Position} {guard : Expr} {d : Diagnostic}
    (h : constant? pos guard = some d) : d.pos = pos := by
  unfold constant? at h
  split at h
  · cases h
    rfl
  · cases h

theorem pos_of_mem_onItem {item : Item} {d : Diagnostic}
    (h : d ∈ onItem used item) :
    d.pos = item.pos := by
  rw [onItem, List.mem_append, List.mem_append, Option.mem_toList,
    Option.mem_toList, Option.mem_toList] at h
  cases item with
  | declaration pos property expr => rcases h with (h | h) | h <;> cases h
  | assignment pos name expr =>
      simp only [uncapitalised?, unused?, constantGuard?,
        Option.ite_none_left_eq_some] at h
      rcases h with (⟨-, h⟩ | ⟨-, h⟩) | h
      · cases h
        rfl
      · cases h
        rfl
      · cases h
  | ifThen pos guard body =>
      rcases h with (h | h) | h
      · cases h
      · cases h
      · exact pos_of_constant? h
  | ifElse pos guard body elsePos otherwise =>
      rcases h with (h | h) | h
      · cases h
      · cases h
      · exact pos_of_constant? h

theorem pos_of_repeated? {front : List Item} {item : Item} {d : Diagnostic}
    (h : repeated? front item = some d) : d.pos = item.pos := by
  cases item with
  | declaration pos property expr =>
      rw [repeated?, Option.ite_none_right_eq_some] at h
      cases h.2
      rfl
  | _ => cases h

/-- Only a declaration can repeat a property, and nothing else is remarked on
about one. -/
theorem remarksOn_of_repeated? {front : List Item} {item : Item}
    {d : Diagnostic} (h : repeated? front item = some d) :
    remarksOn used item = [] := by
  cases item with
  | declaration pos property expr => rfl
  | _ => cases h

theorem mem_zip_inits {α : Type} {xs front : List α} {x : α} :
    (front, x) ∈ xs.inits.zip xs ↔ ∃ back, xs = front ++ x :: back := by
  induction xs generalizing front with
  | nil => simp
  | cons y ys ih =>
      rw [List.inits_cons, List.zip_cons_cons, List.zip_map_left, List.mem_cons,
        List.mem_map]
      constructor
      · rintro (heq | ⟨⟨front', x'⟩, hmem, heq⟩)
        · obtain ⟨rfl, rfl⟩ := Prod.mk.inj heq
          exact ⟨ys, rfl⟩
        · obtain ⟨rfl, rfl⟩ := Prod.mk.inj heq
          obtain ⟨back, rfl⟩ := ih.mp hmem
          exact ⟨back, rfl⟩
      · rintro ⟨back, heq⟩
        cases front with
        | nil =>
            obtain ⟨rfl, rfl⟩ := List.cons.inj heq
            exact .inl rfl
        | cons z front =>
            obtain ⟨rfl, hys⟩ := List.cons.inj heq
            exact .inr ⟨(front, x), ih.mpr ⟨back, hys⟩, rfl⟩

theorem mem_repeatedIn {items : List Item} {d : Diagnostic} :
    d ∈ repeatedIn items ↔
      ∃ front item back, items = front ++ item :: back ∧
        repeated? front item = some d := by
  rw [repeatedIn, List.mem_filterMap]
  constructor
  · rintro ⟨⟨front, item⟩, hmem, hsome⟩
    obtain ⟨back, heq⟩ := mem_zip_inits.mp hmem
    exact ⟨front, item, back, heq, hsome⟩
  · rintro ⟨front, item, back, heq, hsome⟩
    exact ⟨(front, item), mem_zip_inits.mpr ⟨back, heq⟩, hsome⟩

/-- Repeated properties are reported from the first declaration of a list to the
last. -/
theorem map_pos_repeatedIn_sublist (items : List Item) :
    ((repeatedIn items).map Diagnostic.pos).Sublist (items.map Item.pos) := by
  have hgeneral : ∀ front : List Item, (((items.inits.zip items).filterMap
      fun p => repeated? (front ++ p.1) p.2).map Diagnostic.pos).Sublist
      (items.map Item.pos) := by
    induction items with
    | nil => exact fun _ => List.Sublist.refl _
    | cons item items ih =>
        intro front
        have hfirst : ((repeated? front item).toList.map Diagnostic.pos).Sublist
            [item.pos] := by
          cases hsome : repeated? front item with
          | none => exact List.nil_sublist _
          | some d =>
              rw [Option.toList_some, List.map_singleton,
                pos_of_repeated? hsome]
        rw [filterMap_zip_inits_cons, List.map_append]
        exact hfirst.append (ih (front ++ [item]))
  exact hgeneral []

theorem within_repeatedIn (items : List Item) :
    Within (itemPlaces items) (repeatedIn items) := by
  intro d hd
  have hsub :=
    (map_pos_repeatedIn_sublist items).trans (map_pos_sublist_itemPlaces items)
  exact hsub.subset (List.mem_map_of_mem hd)

theorem mem_remarksIn {items : List Item} {d : Diagnostic} :
    d ∈ remarksIn used items ↔ ∃ item ∈ items, d ∈ remarksOn used item := by
  induction items with
  | nil => simp [remarksIn]
  | cons item items ih => simp [remarksIn, ih]

theorem within_onItem (used : List String) (item : Item) :
    Within [item.pos] (onItem used item) :=
  fun _ hd => List.mem_singleton.mpr (pos_of_mem_onItem hd)

/-- The remarks on a list and on its items. -/
def inBody (used : List String) (body : List Item) : Diagnostics :=
  repeatedIn body ++ remarksIn used body

theorem within_remarksIn (used : List String) (items : List Item) :
    Within (itemPlaces items) (remarksIn used items) := by
  have hown : ∀ item : Item, Within item.places (onItem used item) := by
    intro item d hd
    rw [pos_of_mem_onItem hd]
    exact item.pos_mem_places
  have hbody : ∀ {body : List Item} {places : List Position},
      itemPlaces body ⊆ places →
      Within (itemPlaces body) (remarksIn used body) →
      Within places (inBody used body) :=
    fun hsub hwithin => ((within_repeatedIn _).append hwithin).mono hsub
  have hcons : ∀ {item : Item} {items : List Item},
      Within item.places (remarksOn used item) →
      Within (itemPlaces items) (remarksIn used items) →
      Within (itemPlaces (item :: items)) (remarksIn used (item :: items)) :=
    fun hitem hitems => (hitem.mono (List.subset_append_left _ _)).append
      (hitems.mono (List.subset_append_right _ _))
  induction items using Item.list_induction with
  | nil => exact within_nil _
  | declaration pos property expr items ih => exact hcons (within_nil _) ih
  | assignment pos name expr items ih => exact hcons (hown _) ih
  | ifThen pos guard body items ihbody ih =>
      exact hcons ((hown _).append
        (hbody (List.subset_append_right _ _) ihbody)) ih
  | ifElse pos guard body elsePos otherwise items ihbody ihelse ih =>
      have hthen : itemPlaces body ⊆
          (Item.ifElse pos guard body elsePos otherwise).places :=
        List.Subset.trans (List.subset_append_right _ _)
          (List.subset_append_left _ _)
      have helse : itemPlaces otherwise ⊆
          (Item.ifElse pos guard body elsePos otherwise).places :=
        List.Subset.trans (List.subset_cons_self _ _)
          (List.subset_append_right _ _)
      exact hcons (((hown _).append (hbody hthen ihbody)).append
        (hbody helse ihelse)) ih

theorem within_remarksOn (used : List String) (item : Item) :
    Within item.places (remarksOn used item) := by
  have hone := within_remarksIn used [item]
  rwa [itemPlaces, itemPlaces, remarksIn, remarksIn, List.append_nil,
    List.append_nil] at hone

theorem within_inBody (used : List String) (body : List Item) :
    Within (itemPlaces body) (inBody used body) :=
  (within_repeatedIn body).append (within_remarksIn used body)

/-! ## Remarks in the order of their places -/

/-- No remark is made behind one at a later place. -/
def InOrder (found : Diagnostics) : Prop :=
  found.Pairwise fun d e => ¬ e.pos.Before d.pos

theorem inOrder_of_within_singleton {p : Position} {found : Diagnostics}
    (h : Within [p] found) :
    InOrder found := by
  refine List.pairwise_of_forall_mem_list fun d hd e he hbefore => ?_
  rw [List.mem_singleton.mp (h d hd), List.mem_singleton.mp (h e he)] at hbefore
  exact hbefore.ne rfl

/-- Remarks at places that come before those of other remarks can be looked at
by themselves. -/
theorem inOrder_append_iff
    {front back : Diagnostics} {places places' all : List Position}
    (hfront : Within places front) (hback : Within places' back)
    (hall : all.Pairwise Position.Before)
    (hsub : (places ++ places').Sublist all) :
    InOrder (front ++ back) ↔ InOrder front ∧ InOrder back := by
  have hcross : ∀ d ∈ front, ∀ e ∈ back, ¬ e.pos.Before d.pos := by
    intro d hd e he
    have hordered := (List.pairwise_append.mp (hall.sublist hsub)).2.2
    exact (hordered _ (hfront d hd) _ (hback e he)).asymm
  rw [InOrder, List.pairwise_append]
  exact ⟨fun h => ⟨h.1, h.2.1⟩, fun h => ⟨h.1, h.2, hcross⟩⟩

/-- Nothing is remarked on about an item or inside it. -/
def Quiet (used : List String) (item : Item) : Prop :=
  onItem used item = [] ∧ ∀ body ∈ item.bodies, inList used body = []

theorem quiet_iff {item : Item} :
    Quiet used item ↔ remarksOn used item = [] := by
  have hperm := remarksOn_perm used item
  rw [Quiet, ← List.flatMap_eq_nil_iff, ← List.append_eq_nil_iff]
  constructor
  · intro hnone
    rwa [hnone, List.perm_nil] at hperm
  · intro hnone
    rwa [hnone, List.nil_perm] at hperm

/-- In front of a declaration that repeats a property, all items of the list are
quiet. -/
def Orderly (used : List String) (body : List Item) : Prop :=
  ∀ front item back, body = front ++ item :: back →
    (repeated? front item).isSome →
    ∀ earlier ∈ front, Quiet used earlier

/-- Repeated properties are reported before all that is found in the items of a
list.  This is in order if nothing is found in front of them. -/
theorem inOrder_inBody_iff {body : List Item}
    (h : (itemPlaces body).Pairwise Position.Before) :
    InOrder (inBody used body) ↔
      Orderly used body ∧ InOrder (remarksIn used body) := by
  have hrepeated : InOrder (repeatedIn body) := by
    have hsub :=
      (map_pos_repeatedIn_sublist body).trans (map_pos_sublist_itemPlaces body)
    exact (List.pairwise_map.mp (h.sublist hsub)).imp Position.Before.asymm
  rw [InOrder, inBody, List.pairwise_append]
  constructor
  · rintro ⟨-, hitems, hcross⟩
    refine ⟨?_, hitems⟩
    rintro front item back rfl hsome earlier hearlier
    obtain ⟨d, hd⟩ := Option.isSome_iff_exists.mp hsome
    rw [quiet_iff, List.eq_nil_iff_forall_not_mem]
    intro e he
    have hmem : earlier ∈ front ++ item :: back :=
      List.mem_append_left _ hearlier
    refine hcross d (mem_repeatedIn.mpr ⟨front, item, back, rfl, hd⟩) e
      (mem_remarksIn.mpr ⟨earlier, hmem, he⟩) ?_
    rw [pos_of_repeated? hd]
    exact before_of_places h hearlier List.mem_cons_self
      (within_remarksOn used earlier e he) item.pos_mem_places
  · rintro ⟨horderly, hitems⟩
    refine ⟨hrepeated, hitems, ?_⟩
    intro d hd e he
    obtain ⟨front, item, back, rfl, hsome⟩ := mem_repeatedIn.mp hd
    obtain ⟨other, hother, hremark⟩ := mem_remarksIn.mp he
    rw [List.mem_append, List.mem_cons] at hother
    rcases hother with hfront | rfl | hback
    · have hquiet :=
        horderly front item back rfl (Option.isSome_of_eq_some hsome)
          other hfront
      rw [quiet_iff.mp hquiet] at hremark
      cases hremark
    · rw [remarksOn_of_repeated? hsome] at hremark
      cases hremark
    · rw [List.append_cons] at h
      have hitem : item ∈ front ++ [item] :=
        List.mem_append_right _ (List.mem_singleton_self _)
      rw [pos_of_repeated? hsome]
      exact (before_of_places h hitem hback item.pos_mem_places
        (within_remarksOn used other e hremark)).asymm

theorem inOrder_inBody_iff_nested
    {body : List Item} (h : (itemPlaces body).Pairwise Position.Before)
    (hinside : InOrder (remarksIn used body) ↔
      ∀ inner ∈ bodiesIn body, Orderly used inner) :
    InOrder (inBody used body) ↔
      ∀ inner ∈ body :: bodiesIn body, Orderly used inner := by
  rw [inOrder_inBody_iff h, hinside, List.forall_mem_cons]

/-- Remarks at the place in front of a list are in order with those on the list,
which are in order if it and all lists inside it are orderly. -/
theorem inOrder_own_inBody_iff
    {own : Diagnostics} {pos : Position} {places : List Position}
    {body : List Item} (hown : Within [pos] own)
    (h : (pos :: places ++ itemPlaces body).Pairwise Position.Before)
    (hinside : (itemPlaces body).Pairwise Position.Before →
      (InOrder (remarksIn used body) ↔
        ∀ inner ∈ bodiesIn body, Orderly used inner)) :
    InOrder (own ++ inBody used body) ↔
      ∀ inner ∈ body :: bodiesIn body, Orderly used inner := by
  have hbody := h.sublist (List.sublist_append_right _ (itemPlaces body))
  have hparts : ([pos] ++ itemPlaces body).Sublist
      (pos :: places ++ itemPlaces body) :=
    (List.sublist_append_left [pos] places).append (List.Sublist.refl _)
  rw [inOrder_append_iff hown (within_inBody used body) h hparts,
    and_iff_right (inOrder_of_within_singleton hown),
    inOrder_inBody_iff_nested hbody (hinside hbody)]

/-- The remarks on items are in order if all lists inside them are orderly. -/
theorem inOrder_remarksIn_iff
    {items : List Item} (h : (itemPlaces items).Pairwise Position.Before) :
    InOrder (remarksIn used items) ↔
      ∀ body ∈ bodiesIn items, Orderly used body := by
  have hcons : ∀ {item : Item} {items : List Item},
      (itemPlaces (item :: items)).Pairwise Position.Before →
      (InOrder (remarksOn used item) ↔
        ∀ body ∈ item.bodies, Orderly used body) →
      (InOrder (remarksIn used items) ↔
        ∀ body ∈ bodiesIn items, Orderly used body) →
      (InOrder (remarksIn used (item :: items)) ↔
        ∀ body ∈ bodiesIn (item :: items), Orderly used body) := by
    intro item items hplaces hitem hitems
    rw [remarksIn,
      inOrder_append_iff (within_remarksOn used item)
        (within_remarksIn used items)
      hplaces (List.Sublist.refl _), hitem, hitems, bodiesIn,
      List.forall_mem_append]
  induction items using Item.list_induction with
  | nil => exact ⟨fun _ => List.forall_mem_nil _, fun _ => List.Pairwise.nil⟩
  | declaration pos property expr items ih =>
      obtain ⟨-, hitems, -⟩ := List.pairwise_append.mp h
      exact hcons h ⟨fun _ => List.forall_mem_nil _, fun _ => List.Pairwise.nil⟩
        (ih hitems)
  | assignment pos name expr items ih =>
      obtain ⟨-, hitems, -⟩ := List.pairwise_append.mp h
      have hown :=
        inOrder_of_within_singleton
          (within_onItem used (.assignment pos name expr))
      exact hcons h ⟨fun _ => List.forall_mem_nil _, fun _ => hown⟩ (ih hitems)
  | ifThen pos guard body items ihbody ih =>
      obtain ⟨hitem, hitems, -⟩ := List.pairwise_append.mp h
      have hown := within_onItem used (.ifThen pos guard body)
      exact hcons h (inOrder_own_inBody_iff hown hitem ihbody) (ih hitems)
  | ifElse pos guard body elsePos otherwise items ihbody ihelse ih =>
      obtain ⟨hitem, hitems, -⟩ := List.pairwise_append.mp h
      obtain ⟨hfront, hback, -⟩ := List.pairwise_append.mp hitem
      have hown := within_onItem used (.ifElse pos guard body elsePos otherwise)
      have hotherwise := hback.sublist (List.sublist_cons_self elsePos _)
      have hthen : Within (pos :: guard.places ++ itemPlaces body)
          (onItem used (.ifElse pos guard body elsePos otherwise)
            ++ inBody used body) := by
        refine (hown.mono ?_).append ((within_inBody used body).mono ?_)
        · exact List.subset_append_left [pos] _
        · exact List.subset_append_right _ _
      have hparts : (pos :: guard.places ++ itemPlaces body
          ++ itemPlaces otherwise).Sublist
          (Item.ifElse pos guard body elsePos otherwise).places :=
        (List.Sublist.refl _).append (List.sublist_cons_self _ _)
      refine hcons h ?_ (ih hitems)
      rw [Item.bodies, List.forall_mem_append,
        ← inOrder_own_inBody_iff hown hfront ihbody,
        ← inOrder_inBody_iff_nested hotherwise (ihelse hotherwise)]
      exact inOrder_append_iff hthen (within_inBody used otherwise) hitem hparts

theorem inOrder_remarksOn_iff
    {item : Item} (h : item.places.Pairwise Position.Before) :
    InOrder (remarksOn used item) ↔
      ∀ body ∈ item.bodies, Orderly used body := by
  have hplaces : (itemPlaces [item]).Pairwise Position.Before := by
    rwa [itemPlaces, itemPlaces, List.append_nil]
  have hone : InOrder (remarksIn used [item]) ↔ _ :=
    inOrder_remarksIn_iff hplaces
  rwa [remarksIn, remarksIn, bodiesIn, bodiesIn, List.append_nil,
    List.append_nil] at hone

/-! ## Whole sheets -/

open Grammar

theorem within_emptyRule?
    (selectors : List Selector) (body : List Item) (pos : Position) :
    Within [pos] (emptyRule? (.rule pos selectors body)).toList := by
  cases body with
  | nil => exact List.forall_mem_singleton.mpr (List.mem_singleton.mpr rfl)
  | cons item items => exact within_nil _

theorem within_remarksOnStatement
    {ts : List Token} {statement : Statement} (h : TopItem ts statement) :
    Within statement.places (remarksOnStatement used statement) := by
  cases h with
  | assignment h => exact within_remarksOn used (.assignment _ _ _)
  | @rule _ _ first selectors body hselectors hbody =>
      refine ((within_emptyRule? _ body _).mono ?_).append
        ((within_inBody used body).mono ?_)
      · exact List.subset_append_left [first.pos] _
      · exact List.subset_append_right _ _
  | @conditional _ _ branches h =>
      obtain ⟨guard, body, _ | ⟨elsePos, otherwise⟩⟩ := branches
      · exact within_remarksOn used (.ifThen _ guard body)
      · exact within_remarksOn used (.ifElse _ guard body elsePos otherwise)

theorem inOrder_remarksOnStatement_iff
    {ts : List Token} {statement : Statement} (h : TopItem ts statement)
    (hplaces : statement.places.Pairwise Position.Before) :
    InOrder (remarksOnStatement used statement) ↔
      ∀ body ∈ statement.bodies, Orderly used body := by
  cases h with
  | assignment h => exact inOrder_remarksOn_iff hplaces
  | @rule _ _ first selectors body hselectors hbody =>
      exact inOrder_own_inBody_iff (within_emptyRule? _ body _) hplaces
        inOrder_remarksIn_iff
  | @conditional _ _ branches h =>
      obtain ⟨guard, body, _ | ⟨elsePos, otherwise⟩⟩ := branches
      · exact inOrder_remarksOn_iff hplaces
      · exact inOrder_remarksOn_iff hplaces

theorem within_flatMap_remarksOnStatement
    {ts : List Token} {sheet : Sheet} (h : WholeSheet ts sheet) :
    Within (sheet.flatMap Statement.places)
      (sheet.flatMap (remarksOnStatement used)) := by
  induction h with
  | nil => exact within_nil _
  | cons hstatement _ ih =>
      exact ((within_remarksOnStatement hstatement).mono
        (List.subset_append_left _ _)).append
        (ih.mono (List.subset_append_right _ _))

theorem inOrder_remarks_iff
    {ts : List Token} {sheet : Sheet} (h : WholeSheet ts sheet)
    (hplaces : (sheet.flatMap Statement.places).Pairwise Position.Before) :
    InOrder (sheet.flatMap (remarksOnStatement used)) ↔
      ∀ body ∈ bodiesOf sheet, Orderly used body := by
  induction h with
  | nil => exact ⟨fun _ => List.forall_mem_nil _, fun _ => List.Pairwise.nil⟩
  | cons hstatement hsheet ih =>
      obtain ⟨hfirst, hrest, -⟩ := List.pairwise_append.mp hplaces
      rw [List.flatMap_cons,
        inOrder_append_iff (within_remarksOnStatement hstatement)
        (within_flatMap_remarksOnStatement hsheet) hplaces
        (List.Sublist.refl _),
        inOrder_remarksOnStatement_iff hstatement hfirst, ih hrest, bodiesOf,
        bodiesOf, List.flatMap_cons, List.forall_mem_append]

end Lint

/-- The remarks on a source without syntax errors are in the order of the source
if, and only if, no declaration that repeats a property stands behind an
assignment or a conditional of the same list that is remarked on or holds
something that is. -/
theorem lint_in_order_iff {source : List Char}
    (h : (parse source).diagnostics = []) :
    (lint source).Pairwise (fun d e => ¬ e.pos.Before d.pos) ↔
      ∀ body ∈ bodiesOf (parse source).sheet, ∀ front item back, body = front
        ++ item :: back →
        (Lint.repeated? front item).isSome →
        ∀ earlier ∈ front,
          Lint.Quiet (namesOf (parse source).sheet) earlier := by
  obtain ⟨ts, -, hsheet⟩ := exists_lexed_of_parse h
  have hplaces : ((parse source).sheet.flatMap Statement.places).Pairwise
      Position.Before :=
    (Scan.Cursor.tokens_in_order .start source).1.sublist
      (places_parse_sublist h)
  rw [lint_eq_remarks h]
  exact Lint.inOrder_remarks_iff hsheet hplaces

/-- A repeated property behind an assignment that is not remarked on, with
remarks behind it and in the branch of a conditional that has a repeated
property of its own. -/
theorem lint_in_order_iff_repeated_in_branch :
    let source := ("p \x7b A := 1px; width: A; width: 2px; if [true] \x7b " ++
      "color: A; Color: A; x := A; \x7d \x7d").toList
    (parse source).diagnostics = [] ∧
      (lint source).map Diagnostic.pos =
        [⟨1, 25⟩, ⟨1, 37⟩, ⟨1, 59⟩, ⟨1, 69⟩, ⟨1, 69⟩] ∧
      ∀ body ∈ bodiesOf (parse source).sheet, ∀ front item back, body = front
        ++ item :: back →
        (Lint.repeated? front item).isSome →
        ∀ earlier ∈ front,
          Lint.Quiet (namesOf (parse source).sheet) earlier := by
  intro source
  have hparse : (parse source).diagnostics = [] := by decide +kernel
  refine ⟨hparse, by decide +kernel, (lint_in_order_iff hparse).mp ?_⟩
  decide +kernel

/-- A repeated property behind an assignment that is remarked on is reported
before it. -/
theorem lint_repeated_before_assignment :
    let source := "p \x7b x := 1px; width: 1px; width: 2px; \x7d".toList
    (parse source).diagnostics = [] ∧
      (lint source).map Diagnostic.pos = [⟨1, 27⟩, ⟨1, 5⟩, ⟨1, 5⟩] ∧
      ¬ (lint source).Pairwise (fun d e => ¬ e.pos.Before d.pos) := by
  decide +kernel

end Stylesheet
