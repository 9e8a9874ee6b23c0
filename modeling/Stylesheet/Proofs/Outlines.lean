import Mathlib.Data.List.Basic
import Stylesheet.Tree.Dump

/-!
# Outlines

An outline is a list of headings, each with an outline below it.  It is written
line by line, every line indented by the depth of its heading.  The indentation
tells where each part ends, and no heading begins with a blank, so two outlines
with the same text are the same as long as none of their headings is broken over
two lines.
-/

namespace Stylesheet

/-- An outline: its first heading, what stands below that, and what stands
behind it. -/
inductive Outline (α : Type) where
  | empty
  | entry (heading : α) (below behind : Outline α)

namespace Outline

variable {α : Type}

/-- The headings in the order of the lines, each with its depth. -/
def lines (depth : Nat) : Outline α → List (Nat × α)
  | empty => []
  | entry heading below behind =>
      (depth, heading) :: (below.lines (depth + 1) ++ behind.lines depth)

/-- Every heading has the property. -/
def All (p : α → Prop) : Outline α → Prop
  | empty => True
  | entry heading below behind => p heading ∧ below.All p ∧ behind.All p

theorem All.of_mem_lines
    {p : α → Prop} {o : Outline α} (h : o.All p) {depth : Nat} {line : Nat × α}
    (hline : line ∈ o.lines depth) : p line.2 := by
  induction o generalizing depth with
  | empty => cases hline
  | entry heading below behind ihbelow ihbehind =>
      obtain ⟨hheading, hbelow, hbehind⟩ := h
      rcases List.mem_cons.mp hline with rfl | hrest
      · exact hheading
      · rcases List.mem_append.mp hrest with hmem | hmem
        · exact ihbelow hbelow hmem
        · exact ihbehind hbehind hmem

/-! ## Indentation -/

/-- The first line, if there is one, stands further out than the given depth. -/
def StartsOutside (depth : Nat) (lines : List (Nat × α)) : Prop :=
  ∀ line ∈ lines.head?, line.1 < depth

theorem startsOutside_nil (depth : Nat) :
    StartsOutside depth ([] : List (Nat × α)) :=
  fun _ hline => nomatch hline

/-- What follows the part below a heading stands further out than that part. -/
theorem StartsOutside.lines_append
    {depth : Nat} {rest : List (Nat × α)} (h : StartsOutside depth rest)
    (o : Outline α) :
    StartsOutside (depth + 1) (o.lines depth ++ rest) := by
  intro line hline
  cases o with
  | empty => exact Nat.lt_succ_of_lt (h line hline)
  | entry heading below behind =>
      obtain rfl : (depth, heading) = line := Option.some.inj hline
      exact Nat.lt_succ_self depth

theorem not_startsOutside_entry
    {depth : Nat} {heading : α} {below behind : Outline α}
    {rest : List (Nat × α)} :
    ¬ StartsOutside depth ((entry heading below behind).lines depth ++ rest) :=
  fun h => Nat.lt_irrefl depth (h (depth, heading) rfl)

/-- The depths tell where an outline ends and what is below which heading. -/
theorem lines_append_inj
    {o o' : Outline α} {depth : Nat} {rest rest' : List (Nat × α)}
    (hrest : StartsOutside depth rest) (hrest' : StartsOutside depth rest')
    (h : o.lines depth ++ rest = o'.lines depth ++ rest') :
    o = o' ∧ rest = rest' := by
  induction o generalizing o' depth rest rest' with
  | empty =>
      cases o' with
      | empty => exact ⟨rfl, h⟩
      | entry heading' below' behind' =>
          rw [lines, List.nil_append] at h
          exact absurd (h ▸ hrest) not_startsOutside_entry
  | entry heading below behind ihbelow ihbehind =>
      cases o' with
      | empty =>
          rw [lines.eq_1, List.nil_append] at h
          exact absurd (h ▸ hrest') not_startsOutside_entry
      | entry heading' below' behind' =>
          simp only [lines, List.cons_append, List.append_assoc] at h
          obtain ⟨hfirst, hmore⟩ := List.cons.inj h
          -- For the part below, all that is behind the heading counts as the
          -- rest.
          obtain ⟨rfl, hbehind⟩ :=
            ihbelow (hrest.lines_append behind)
              (hrest'.lines_append behind') hmore
          obtain ⟨rfl, hend⟩ := ihbehind hrest hrest' hbehind
          exact ⟨by rw [(Prod.mk.inj hfirst).2], hend⟩

theorem lines_inj {o o' : Outline α} {depth : Nat}
    (h : o.lines depth = o'.lines depth) :
    o = o' := by
  refine (lines_append_inj (startsOutside_nil depth)
    (startsOutside_nil depth) ?_).1
  rw [h]

end Outline

/-! ## Headings -/

/-- What the heading of a node or of a part of it begins with. -/
inductive Caption where
  | stylesheet
  | stylerule
  | declaration
  | assignment
  | conditional
  | condition
  | body
  | alternative
  | operation (op : Operator)
  | selector (sort : SelectorSort)
  | property
  | literal (kind : LiteralKind)
  | reference
  deriving DecidableEq

namespace Caption

def text : Caption → String
  | stylesheet => "Stylesheet"
  | stylerule => "Stylerule"
  | declaration => "Declaration"
  | assignment => "VariableAssignment"
  | conditional => "IfClause"
  | condition => "Condition:"
  | body => "Body:"
  | alternative => "ElseClause"
  | operation op => op.name
  | selector sort => sort.title ++ "Selector: "
  | property => "Property: "
  | literal kind => kind.name ++ "Literal: "
  | reference => "VariableReference: "

def all : List Caption :=
  [stylesheet, stylerule, declaration, assignment, conditional, condition, body,
    alternative, property, reference]
    ++ [.add, .subtract, .multiply].map operation
    ++ [.tag, .cls, .id].map selector
    ++ LiteralKind.all.map literal

theorem mem_all (c : Caption) : c ∈ all := by
  cases c with
  | operation op => cases op <;> decide
  | selector sort => cases sort <;> decide
  | literal kind => cases kind <;> decide
  | _ => decide

/-- No caption is the beginning of another. -/
theorem eq_of_isPrefix :
    ∀ c ∈ all, ∀ c' ∈ all, c.text.toList <+: c'.text.toList → c = c' := by
  decide +kernel

/-- A caption can be told from what stands behind it. -/
theorem text_append_inj
    {c c' : Caption} {detail detail' : String}
    (h : c.text ++ detail = c'.text ++ detail') :
    c = c' ∧ detail = detail' := by
  have hchars := congrArg String.toList h
  rw [String.toList_append, String.toList_append] at hchars
  have hfront : c.text.toList <+: c'.text.toList ++ detail'.toList :=
    hchars ▸ List.prefix_append ..
  have hsame : c = c' := by
    rcases List.prefix_or_prefix_of_prefix hfront (List.prefix_append ..) with
      hle | hle
    · exact eq_of_isPrefix c c.mem_all c' c'.mem_all hle
    · exact (eq_of_isPrefix c' c'.mem_all c c.mem_all hle).symm
  subst hsame
  exact ⟨rfl, String.toList_inj.mp (List.append_cancel_left hchars)⟩

theorem exists_head (c : Caption) :
    ∃ first tail, c.text.toList = first :: tail ∧ first ≠ ' ' := by
  have hall : ∀ c ∈ all, c.text.toList.head?.any (· ≠ ' ') = true := by
    decide +kernel
  have hhead := hall c c.mem_all
  cases htext : c.text.toList with
  | nil => rw [htext] at hhead; cases hhead
  | cons first tail =>
      rw [htext] at hhead
      exact ⟨first, tail, rfl, of_decide_eq_true hhead⟩

end Caption

/-- A heading: a caption, and a name or value if it has one. -/
structure Heading where
  caption : Caption
  detail : String
  deriving DecidableEq

namespace Heading

def text (heading : Heading) : String :=
  heading.caption.text ++ heading.detail

theorem text_plain (caption : Caption) :
    (Heading.mk caption "").text = caption.text :=
  String.append_empty

theorem text_inj {heading heading' : Heading}
    (h : heading.text = heading'.text) :
    heading = heading' := by
  obtain ⟨caption, detail⟩ := heading
  obtain ⟨caption', detail'⟩ := heading'
  obtain ⟨rfl, rfl⟩ := Caption.text_append_inj h
  rfl

theorem exists_head (heading : Heading) :
    ∃ first tail, heading.text.toList = first :: tail ∧ first ≠ ' ' := by
  obtain ⟨first, tail, htext, hfirst⟩ := heading.caption.exists_head
  exact ⟨first, tail ++ heading.detail.toList,
    by rw [text, String.toList_append, htext, List.cons_append], hfirst⟩

/-- The heading takes up one line. -/
def OneLine (heading : Heading) : Prop :=
  '\n' ∉ heading.text.toList

theorem oneLine_mk {detail : String} (h : '\n' ∉ detail.toList)
    (caption : Caption) :
    (Heading.mk caption detail).OneLine := by
  have hall : ∀ c ∈ Caption.all, '\n' ∉ c.text.toList := by decide +kernel
  rw [OneLine, text, String.toList_append, List.mem_append, not_or]
  exact ⟨hall caption caption.mem_all, h⟩

theorem oneLine_plain (caption : Caption) : (Heading.mk caption "").OneLine :=
  oneLine_mk List.not_mem_nil caption

/-- The line of a heading, without its end. -/
def lineOf (line : Nat × Heading) : String :=
  Tree.dumpLine line.1 line.2.text

end Heading

/-! ## The text of an outline -/

/-- A text can be split in one way only into characters with a property and a
rest that begins with a character without it. -/
theorem append_cons_inj_of_forall
    {p : Char → Prop} {xs ys us vs : List Char} {a b : Char}
    (hxs : ∀ c ∈ xs, p c) (hys : ∀ c ∈ ys, p c) (ha : ¬ p a) (hb : ¬ p b)
    (h : xs ++ a :: us = ys ++ b :: vs) :
    xs = ys ∧ a :: us = b :: vs := by
  induction xs generalizing ys with
  | nil =>
      cases ys with
      | nil => exact ⟨rfl, h⟩
      | cons y ys =>
          obtain ⟨rfl, -⟩ := List.cons.inj h
          exact absurd (hys a List.mem_cons_self) ha
  | cons x xs ih =>
      cases ys with
      | nil =>
          obtain ⟨rfl, -⟩ := List.cons.inj h
          exact absurd (hxs x List.mem_cons_self) hb
      | cons y ys =>
          rw [List.forall_mem_cons] at hxs hys
          obtain ⟨rfl, hrest⟩ := List.cons.inj h
          obtain ⟨rfl, hend⟩ := ih hxs.2 hys.2 hrest
          exact ⟨rfl, hend⟩

namespace Heading

theorem toList_lineOf (line : Nat × Heading) :
    (lineOf line).toList = List.replicate (2 * line.1) ' '
      ++ line.2.text.toList := by
  rw [lineOf, Tree.dumpLine, String.toList_append, String.toList_ofList]

theorem lineOf_inj {line line' : Nat × Heading}
    (h : lineOf line = lineOf line') :
    line = line' := by
  obtain ⟨first, tail, htext, hfirst⟩ := line.2.exists_head
  obtain ⟨first', tail', htext', hfirst'⟩ := line'.2.exists_head
  have hchars := congrArg String.toList h
  rw [toList_lineOf, toList_lineOf, htext, htext'] at hchars
  obtain ⟨hblanks, hsame⟩ :=
    append_cons_inj_of_forall (fun _ => List.eq_of_mem_replicate)
    (fun _ => List.eq_of_mem_replicate) hfirst hfirst' hchars
  have hdepth := congrArg List.length hblanks
  rw [List.length_replicate, List.length_replicate] at hdepth
  rw [← htext, ← htext'] at hsame
  exact Prod.ext (by omega) (text_inj (String.toList_inj.mp hsame))

theorem OneLine.ne_newline_of_mem_lineOf
    {line : Nat × Heading} (h : line.2.OneLine) :
    ∀ c ∈ (lineOf line).toList, c ≠ '\n' := by
  rw [toList_lineOf, List.forall_mem_append]
  refine ⟨fun c hc => ?_, fun c hc hnewline => h (hnewline ▸ hc)⟩
  rw [List.eq_of_mem_replicate hc]
  decide

/-- Lines of headings can be told apart in the text that they make up. -/
theorem join_lineOf_inj
    {lines lines' : List (Nat × Heading)}
    (hlines : ∀ line ∈ lines, line.2.OneLine)
    (hlines' : ∀ line ∈ lines', line.2.OneLine)
    (h : String.join ((lines.map lineOf).map (· ++ "\n")) =
      String.join ((lines'.map lineOf).map (· ++ "\n"))) :
    lines = lines' := by
  have hnewline : "\n".toList = ['\n'] := rfl
  have hchars := congrArg String.toList h
  clear h
  simp only [String.toList_join, List.flatMap_map, String.toList_append,
    hnewline] at hchars
  induction lines generalizing lines' with
  | nil =>
      cases lines' with
      | nil => rfl
      | cons line' lines' => simp at hchars
  | cons line lines ih =>
      cases lines' with
      | nil => simp at hchars
      | cons line' lines' =>
          rw [List.forall_mem_cons] at hlines hlines'
          simp only [List.flatMap_cons, List.append_assoc,
            List.singleton_append] at hchars
          obtain ⟨hfirst, hrest⟩ :=
            append_cons_inj_of_forall hlines.1.ne_newline_of_mem_lineOf
            hlines'.1.ne_newline_of_mem_lineOf (not_not.mpr rfl)
              (not_not.mpr rfl) hchars
          rw [lineOf_inj (String.toList_inj.mp hfirst),
            ih hlines.2 hlines'.2 (List.cons.inj hrest).2]

end Heading

namespace Outline

/-- The lines of an outline that stands at the given depth. -/
def dumped (depth : Nat) (o : Outline Heading) : List String :=
  (o.lines depth).map Heading.lineOf

@[simp] theorem dumped_empty (depth : Nat) :
    (empty : Outline Heading).dumped depth = [] := rfl

@[simp] theorem dumped_entry (depth : Nat) (heading : Heading)
    (below behind : Outline Heading) :
    (entry heading below behind).dumped depth =
      Tree.dumpLine depth
        heading.text :: (below.dumped (depth + 1) ++ behind.dumped depth) := by
  rw [dumped, lines, List.map_cons, List.map_append]
  rfl

/-- The text of an outline, every line ended by a newline. -/
def text (o : Outline Heading) : String :=
  String.join ((o.dumped 0).map (· ++ "\n"))

theorem text_inj
    {o o' : Outline Heading} (ho : o.All Heading.OneLine)
    (ho' : o'.All Heading.OneLine) (h : o.text = o'.text) : o = o' :=
  lines_inj (Heading.join_lineOf_inj (fun _ hline => ho.of_mem_lines hline)
    (fun _ hline => ho'.of_mem_lines hline) h)

end Outline
end Stylesheet
