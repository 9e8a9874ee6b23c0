import Stylesheet.Sheet.Expression

/-!
# Reading a body

The items between the braces of a rule or a conditional.  Conditionals hold
bodies of their own, so reading items is a recursion; every call gets fewer
tokens than the one around it.
-/

namespace Stylesheet.Reading

/-- What follows a name in a declaration or an assignment: a sign, an expression
and a semicolon. -/
def binding (sign : TokenKind) (ts : List Token) : Reading Expr :=
  let mark := expect sign ts
  let value := expr mark.rest
  let semicolon := expect .semicolon value.rest
  ⟨value.value, mark.faults ++ value.faults ++ semicolon.faults, semicolon.rest⟩

theorem binding_rest_length_le (sign : TokenKind) (ts : List Token) :
    (binding sign ts).rest.length ≤ ts.length :=
  Nat.le_trans (expect_rest_length_le _ _)
    (Nat.le_trans (expr_rest_length_le _) (expect_rest_length_le _ _))

/-- An item of a body that is not a conditional, beginning with the token `t`;
none if `t` cannot begin an item. -/
def simpleItem (t : Token) (rest : List Token) : Reading (Option Item) :=
  let ahead := (current rest).kind
  if (t.kind = .ident ∨ t.kind = .capitalIdent) ∧ ahead = .assign then
    let value := binding .assign rest
    ⟨some (.assignment t.pos t.text value.value), value.faults, value.rest⟩
  else if t.kind = .ident ∨ (t.kind = .capitalIdent ∧ ahead = .colon) then
    let value := binding .colon rest
    ⟨some (.declaration t.pos t.text value.value), value.faults, value.rest⟩
  else ⟨none, [.strayInBody t], resume t rest⟩

theorem simpleItem_rest_length_le (t : Token) (rest : List Token) :
    (simpleItem t rest).rest.length ≤ rest.length := by
  unfold simpleItem
  simp only
  split
  · exact binding_rest_length_le _ _
  · split
    · exact binding_rest_length_le _ _
    · exact resume_length_le _ _

/-- A conditional without its place. -/
structure Branches where
  guard : Expr
  body : List Item
  otherwise : Option (Position × List Item)

namespace Branches

def item (pos : Position) (b : Branches) : Item :=
  match b.otherwise with
  | some (elsePos, items) => .ifElse pos b.guard b.body elsePos items
  | none => .ifThen pos b.guard b.body

def statement (pos : Position) (b : Branches) : Statement :=
  match b.otherwise with
  | some (elsePos, items) => .ifElse pos b.guard b.body elsePos items
  | none => .ifThen pos b.guard b.body

end Branches

/-- A body between braces, its items being read by `inner`. -/
def blockOf (inner : List Token → Reading (List Item)) (ts : List Token) :
    Reading (List Item) :=
  let opening := expect .lbrace ts
  let body := inner opening.rest
  let closing := expect .rbrace body.rest
  ⟨body.value, opening.faults ++ body.faults ++ closing.faults, closing.rest⟩

/-- A conditional behind its first word, the items of its branches being read by
`inner`. -/
def conditionalOf (inner : List Token → Reading (List Item)) (ts : List Token) :
    Reading Branches :=
  let opening := expect .lbracket ts
  let guard := expr opening.rest
  let closing := expect .rbracket guard.rest
  let body := blockOf inner closing.rest
  let faults := opening.faults ++ guard.faults ++ closing.faults ++ body.faults
  if (current body.rest).kind = .elseWord then
    let otherwise := blockOf inner body.rest.tail
    ⟨⟨guard.value, body.value, some ((current body.rest).pos, otherwise.value)⟩,
      faults ++ otherwise.faults, otherwise.rest⟩
  else ⟨⟨guard.value, body.value, none⟩, faults, body.rest⟩

/-- The items up to a closing brace or the end of input, from at most `n`
tokens. -/
def itemsWithin : Nat → List Token → Reading (List Item)
  | _, [] => ⟨[], [], []⟩
  | 0, ts => ⟨[], [], ts⟩
  | n + 1, t :: rest =>
      if t.kind = .rbrace ∨ t.kind = .eof then ⟨[], [], t :: rest⟩
      else if t.kind = .ifWord then
        let first := conditionalOf (itemsWithin n) rest
        let more := itemsWithin n first.rest
        ⟨first.value.item t.pos :: more.value, first.faults ++ more.faults,
          more.rest⟩
      else
        let first := simpleItem t rest
        let more := itemsWithin n first.rest
        ⟨first.value.toList ++ more.value, first.faults ++ more.faults,
          more.rest⟩

/-- The items up to a closing brace or the end of input. -/
def items (ts : List Token) : Reading (List Item) :=
  itemsWithin ts.length ts

/-- A body between braces. -/
def block (ts : List Token) : Reading (List Item) :=
  blockOf items ts

/-- A conditional behind its first word. -/
def conditional (ts : List Token) : Reading Branches :=
  conditionalOf items ts

theorem blockOf_rest_length_le
    {inner : List Token → Reading (List Item)}
    (h : ∀ ts, (inner ts).rest.length ≤ ts.length) (ts : List Token) :
    (blockOf inner ts).rest.length ≤ ts.length :=
  Nat.le_trans (expect_rest_length_le _ _)
    (Nat.le_trans (h _) (expect_rest_length_le _ _))

theorem conditionalOf_rest_length_le
    {inner : List Token → Reading (List Item)}
    (h : ∀ ts, (inner ts).rest.length ≤ ts.length) (ts : List Token) :
    (conditionalOf inner ts).rest.length ≤ ts.length := by
  have hguard : ∀ k k', (expect k (expr (expect k' ts).rest).rest).rest.length ≤
      ts.length :=
    fun _ _ => Nat.le_trans (expect_rest_length_le _ _)
      (Nat.le_trans (expr_rest_length_le _) (expect_rest_length_le _ _))
  have hbody :=
    Nat.le_trans (blockOf_rest_length_le h _) (hguard .rbracket .lbracket)
  unfold conditionalOf
  simp only
  split
  · refine Nat.le_trans (blockOf_rest_length_le h _) ?_
    rw [List.length_tail]
    exact Nat.le_trans (Nat.sub_le _ _) hbody
  · exact hbody

theorem itemsWithin_rest_length_le (n : Nat) (ts : List Token) :
    (itemsWithin n ts).rest.length ≤ ts.length := by
  induction n generalizing ts with
  | zero => cases ts <;> simp [itemsWithin]
  | succ n ih =>
      cases ts with
      | nil => simp [itemsWithin]
      | cons t rest =>
          unfold itemsWithin
          simp only [List.length_cons]
          split
          · simp
          · split
            · exact Nat.le_succ_of_le
                (Nat.le_trans (ih _) (conditionalOf_rest_length_le ih rest))
            · exact Nat.le_succ_of_le
                (Nat.le_trans (ih _) (simpleItem_rest_length_le t rest))

theorem items_rest_length_le (ts : List Token) :
    (items ts).rest.length ≤ ts.length :=
  itemsWithin_rest_length_le _ _

theorem block_rest_length_le (ts : List Token) :
    (block ts).rest.length ≤ ts.length :=
  blockOf_rest_length_le items_rest_length_le ts

theorem conditional_rest_length_le (ts : List Token) :
    (conditional ts).rest.length ≤ ts.length :=
  conditionalOf_rest_length_le items_rest_length_le ts

/-- Two readers of items that agree on short lists of tokens read the same
bodies. -/
theorem blockOf_congr
    {inner inner' : List Token → Reading (List Item)} {n : Nat}
    (h : ∀ ts, ts.length ≤ n → inner ts = inner' ts)
    {ts : List Token} (hts : ts.length ≤ n) :
    blockOf inner ts = blockOf inner' ts := by
  have hbody := h _ (Nat.le_trans (expect_rest_length_le .lbrace ts) hts)
  simp only [blockOf, hbody]

/-- Two readers of items that agree on short lists of tokens read the same
conditionals. -/
theorem conditionalOf_congr
    {inner inner' : List Token → Reading (List Item)} {n : Nat}
    (h : ∀ ts, ts.length ≤ n → inner ts = inner' ts)
    (hle : ∀ ts, (inner ts).rest.length ≤ ts.length)
    {ts : List Token} (hts : ts.length ≤ n) :
    conditionalOf inner ts = conditionalOf inner' ts := by
  have hguard : (expect .rbracket
      (expr (expect .lbracket ts).rest).rest).rest.length ≤ n :=
    Nat.le_trans (expect_rest_length_le _ _)
      (Nat.le_trans (expr_rest_length_le _)
        (Nat.le_trans (expect_rest_length_le _ _) hts))
  have hbody := blockOf_congr h hguard
  have htail : (blockOf inner
      (expect .rbracket
        (expr (expect .lbracket ts).rest).rest).rest).rest.tail.length ≤ n := by
    rw [List.length_tail]
    exact Nat.le_trans (Nat.sub_le _ _)
      (Nat.le_trans (blockOf_rest_length_le hle _) hguard)
  have helse := blockOf_congr h htail
  rw [hbody] at helse
  simp only [conditionalOf, hbody, helse]

/-- The bound on the number of tokens does not matter once there are not more of
them. -/
theorem itemsWithin_eq_of_length_le {n m : Nat} {ts : List Token}
    (hn : ts.length ≤ n) (hm : ts.length ≤ m) :
    itemsWithin n ts = itemsWithin m ts := by
  induction n generalizing m ts with
  | zero =>
      obtain rfl : ts = [] := List.eq_nil_of_length_eq_zero (Nat.le_zero.mp hn)
      cases m <;> rfl
  | succ n ih =>
      cases ts with
      | nil => cases m <;> rfl
      | cons t rest =>
          obtain ⟨m, rfl⟩ : ∃ k, m = k + 1 :=
            ⟨m - 1, by simp only [List.length_cons] at hm; omega⟩
          have hn' : rest.length ≤ n := Nat.le_of_succ_le_succ hn
          have hm' : rest.length ≤ m := Nat.le_of_succ_le_succ hm
          have hcond : conditionalOf (itemsWithin n) rest =
              conditionalOf (itemsWithin m) rest :=
            conditionalOf_congr
              (fun ts h => ih (Nat.le_trans h hn') (Nat.le_trans h hm'))
              (itemsWithin_rest_length_le n) (Nat.le_refl _)
          have hmore : ∀ {ts : List Token}, ts.length ≤ rest.length →
              itemsWithin n ts = itemsWithin m ts :=
            fun h => ih (Nat.le_trans h hn') (Nat.le_trans h hm')
          simp only [itemsWithin, hcond,
            hmore (conditionalOf_rest_length_le
              (itemsWithin_rest_length_le m) rest),
            hmore (simpleItem_rest_length_le t rest)]

theorem itemsWithin_eq_items {n : Nat} {ts : List Token} (h : ts.length ≤ n) :
    itemsWithin n ts = items ts :=
  itemsWithin_eq_of_length_le h (Nat.le_refl _)

@[simp] theorem items_nil : items [] = ⟨[], [], []⟩ := rfl

/-- Reading items one by one, without a bound. -/
theorem items_cons (t : Token) (rest : List Token) :
    items (t :: rest) =
      if t.kind = .rbrace ∨ t.kind = .eof then ⟨[], [], t :: rest⟩
      else if t.kind = .ifWord then
        let first := conditional rest
        let more := items first.rest
        ⟨first.value.item t.pos :: more.value, first.faults ++ more.faults,
          more.rest⟩
      else
        let first := simpleItem t rest
        let more := items first.rest
        ⟨first.value.toList ++ more.value, first.faults ++ more.faults,
          more.rest⟩ := by
  have hcond : conditionalOf (itemsWithin rest.length) rest =
      conditional rest :=
    conditionalOf_congr (fun _ h => itemsWithin_eq_items h)
      (itemsWithin_rest_length_le rest.length) (Nat.le_refl _)
  have hmore : ∀ {ts : List Token}, ts.length ≤ rest.length →
      itemsWithin rest.length ts = items ts :=
    itemsWithin_eq_items
  simp only [items, List.length_cons, itemsWithin, hcond]
  rw [hmore (conditional_rest_length_le rest),
    hmore (simpleItem_rest_length_le t rest)]
  rfl

end Stylesheet.Reading
