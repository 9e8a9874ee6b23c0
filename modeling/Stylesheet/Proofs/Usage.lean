import Mathlib.Algebra.Ring.Nat
import Stylesheet.Proofs.Formatting

/-!
# Using a variable

A name is read in two ways.  Before the sign of an assignment it is the name of
a variable, however it is spelled.  In an expression it is a variable too,
unless it spells a truth value in some case.  So every name that can be assigned
to can be used, but for the spellings of the truth values, which the assignment
leaves what they are.
-/

namespace Stylesheet

open Scan Grammar Reading

/-- A source that assigns a size to a name and uses the name as a width. -/
def usageText (name : String) (v : Nat) : String :=
  name ++ " := " ++ toString v ++ "px; p \x7b width: " ++ name ++ "; \x7d"

/-- The name is a truth value when it is used. -/
def SpellsTruth (name : String) : Prop :=
  Text.lowercase name = "true" ∨ Text.lowercase name = "false"

instance (name : String) : Decidable (SpellsTruth name) :=
  inferInstanceAs
    (Decidable (Text.lowercase name = "true" ∨ Text.lowercase name = "false"))

/-! ## Reading the source -/

/-- The sheet that assigns the size to the name `t` and uses the name. -/
def usageSheet (t : Token) (n : Int64) : Sheet :=
  let pos := Token.nowhere.pos
  [.assignment t.pos t.text (.literal pos (.pixel n)),
    .rule pos [⟨pos, Text.lowercase "p"⟩] [.declaration pos "width" (named t)]]

/-- The tokens between the size and the name in the declaration. -/
def usageTokens : List Token :=
  [.bare .semicolon ";", .bare .ident "p", .bare .lbrace "\x7b",
    .bare .ident "width", .bare .colon ":"]

theorem fills_usageTokens : Fills "; p \x7b width: " usageTokens := by
  have hp : LexesAs .ident "p" := by decide +kernel
  have hwidth : LexesAs .ident "width" := by decide +kernel
  have hrule := (fills_semicolon.append fills_space).append_spells
    (hp.spells (by decide) (by decide))
  have hbody :=
    (hrule.append_fills Canonical.fills_lbrace (by decide)).append fills_space
  have hproperty :=
    (hbody.append_spells (hwidth.spells (by decide) (by decide))).append_fills
    fills_colon (by decide)
  have htext : "; p \x7b width: " = ";" ++ " " ++ "p" ++ " \x7b" ++ " "
      ++ "width" ++ ": " := by
    decide +kernel
  rw [htext]
  exact hproperty

theorem fills_end :
    Fills "; \x7d" [.bare .semicolon ";", .bare .rbrace "\x7d"] := by
  have htext : "; \x7d" = ";" ++ " " ++ "\x7d" := by decide +kernel
  rw [htext]
  exact (fills_semicolon.append fills_space).append Canonical.fills_rbrace

theorem usageText_eq (name : String) (v : Nat) :
    usageText name v =
      name ++ " := " ++ (toString v ++ "px") ++ "; p \x7b width: " ++ name
        ++ "; \x7d" := by
  have hsplit : "px; p \x7b width: " = "px" ++ "; p \x7b width: " := by
    decide +kernel
  rw [usageText, hsplit]
  simp only [String.append_assoc]

/-- The tokens of the source are those of an assignment and a rule. -/
theorem wholeSheet_usage
    {t size : Token} (hname : IsName t) {n : Int64}
    (hkind : size.kind = .pixelSize) (hsize : Numeral size n)
    (hpos : size.pos = Token.nowhere.pos) :
    WholeSheet ([t] ++ [.bare .assign ":="] ++ [size] ++ usageTokens ++ [t]
      ++ [.bare .semicolon ";", .bare .rbrace "\x7d"]) (usageSheet t n) := by
  have hliteral : Expression [size]
      (.literal Token.nowhere.pos (.pixel n)) := by
    rw [← hpos]
    exact .term (.atom (.pixel hkind hsize))
  have hassigned : Binding .assign
      (t :: .bare .assign ":=" :: [size] ++ [.bare .semicolon ";"]) t
      (.literal Token.nowhere.pos (.pixel n)) := .intro hname rfl hliteral rfl
  have hused : Binding .colon
      (.bare .ident "width" :: .bare .colon ":" :: [t]
        ++ [.bare .semicolon ";"])
      (.bare .ident "width") (named t) :=
        .intro (.inl rfl) rfl (.term (.atom hname.atom)) rfl
  have hblock : Block
      (.bare .lbrace "\x7b" :: (.bare .ident "width" :: .bare .colon ":" :: [t]
        ++ [.bare .semicolon ";"] ++ []) ++ [.bare .rbrace "\x7d"])
      [.declaration Token.nowhere.pos "width" (named t)] :=
    .intro rfl (.cons (.declaration hused) .nil) rfl
  have hselector : Selectors [.bare .ident "p"]
      [⟨Token.nowhere.pos, Text.lowercase "p"⟩] :=
    .single (.inl rfl)
  have hsheet :=
    WholeSheet.cons (.assignment hassigned)
      (.cons (.rule hselector hblock) .nil)
  exact hsheet

/-- The source is read without a fault, as an assignment and a rule. -/
theorem parse_usageText
    {name : String} (hname : Canonical.IsNameText name) {n : Int64} {v : Nat}
    (hn : n.toInt = v) :
    ∃ t : Token, t.text = name ∧
      (parse (bytesOf (usageText name v))).moved unplaced =
        ⟨usageSheet t n, []⟩ := by
  have hnonneg : 0 ≤ n.toInt := by omega
  have hdigits : toString n.toInt = toString v := by rw [hn]; rfl
  obtain ⟨t, hspells, hkind, rfl⟩ := hname.spells
  have hsize : Spells (toString v ++ "px")
      [.bare .pixelSize (toString v ++ "px")] := by
    rw [← hdigits]
    exact Canonical.spells_number hnonneg (by decide) .pixelSize
  have hnumeral : Numeral (.bare .pixelSize (toString v ++ "px")) n := by
    rw [← hdigits]
    exact numeral_toString hnonneg .pixelSize (by simp)
  have hassigned :=
    (hspells.append_fills fills_assign (by decide)).append_spells hsize
  have hused :=
    ((hassigned.append_fills fills_usageTokens (by decide)).append_spells
    hspells).append_fills fills_end (by decide)
  rw [← usageText_eq] at hused
  refine ⟨t, rfl, ?_⟩
  have hwords := hused []
  rw [List.append_nil, words_nil] at hwords
  have hparse := parse_unplaced (bytesOf (usageText t.text v))
  rwa [hwords,
    (wholeSheet_usage hkind rfl hnumeral rfl |>.read rfl).2] at hparse

/-! ## What the sheet stands for -/

theorem named_of_not_spellsTruth {t : Token} (h : ¬ SpellsTruth t.text) :
    named t = .reference t.pos t.text := by
  obtain ⟨htrue, hfalse⟩ := not_or.mp h
  rw [named, if_neg htrue, if_neg hfalse]

theorem named_of_spellsTruth {t : Token} (h : SpellsTruth t.text) :
    ∃ b, named t = .literal t.pos (.bool b) := by
  unfold named
  split
  · exact ⟨true, rfl⟩
  · next htrue => exact ⟨false, if_pos (h.resolve_left htrue)⟩

/-- The types of the variables where the name is used. -/
def usageTypes (name : String) : Scope Ty :=
  (Scope.empty.define name (some .pixel)).push

/-- All that can be found in the sheet is found where the name is used. -/
theorem inSheet_usageSheet
    {t : Token} (n : Int64) (hne : t.text ≠ "") :
    Typing.inSheet (sheetTree (usageSheet t n)) =
      Typing.inItem (usageTypes t.text)
        (declarationTree 5 Token.nowhere.pos "width" (named t)) := by
  let pos := Token.nowhere.pos
  let assigned := assignmentTree 1 t.pos t.text (.literal pos (.pixel n))
  let rule := Statement.treeAt 4
    (.rule pos [⟨pos, Text.lowercase "p"⟩] [.declaration pos "width" (named t)])
  have hassigned : Typing.inItem .empty assigned = [] := rfl
  -- An empty name would not be bound.
  have hafter : Typing.afterItem .empty assigned =
      Scope.empty.define t.text (some .pixel) :=
    if_neg hne
  have hrule (env : Scope Ty) : Typing.inItem env rule =
      Typing.inItem env.push (declarationTree 5 pos "width" (named t))
        ++ [] := rfl
  calc Typing.inSheet (sheetTree (usageSheet t n))
      = Typing.inItem .empty assigned
        ++ (Typing.inItem (Typing.afterItem .empty assigned) rule
          ++ Typing.atTop (Typing.afterItem .empty assigned) []) := rfl
    _ = Typing.inItem (usageTypes t.text)
      (declarationTree 5 pos "width" (named t)) := by
      rw [hassigned, hafter, hrule, Typing.atTop, List.nil_append,
        List.append_nil, List.append_nil, usageTypes]

theorem inSheet_usageSheet_of_not_spellsTruth
    {t : Token} (n : Int64) (h : ¬ SpellsTruth t.text) (hne : t.text ≠ "") :
    Typing.inSheet (sheetTree (usageSheet t n)) = [] := by
  have hbound : (usageTypes t.text).lookup? t.text = some (some .pixel) := by
    rw [usageTypes, Scope.lookup?_push, Scope.lookup?_define, if_pos rfl]
  have hwidth : Typing.declarationFault? "width" (some .pixel) = none := by
    decide +kernel
  rw [inSheet_usageSheet n hne, named_of_not_spellsTruth h, declarationTree,
    Expr.treeAt, Tree.plain, Tree.plain, Tree.plain, Typing.inItem,
    Typing.inExpr, Typing.typeOf, hbound, Option.join_some, Tree.propertyName?,
    Option.getD_some, hwidth]
  rfl

theorem inSheet_usageSheet_of_spellsTruth
    {t : Token} (n : Int64) (h : SpellsTruth t.text) (hne : t.text ≠ "") :
    Typing.inSheet (sheetTree (usageSheet t n)) =
      [⟨7, .wrongType "width" PropertyRule.ofSize.requirement
        (some .bool)⟩] := by
  obtain ⟨b, hnamed⟩ := named_of_spellsTruth h
  have hwidth : Typing.declarationFault? "width" (some .bool) =
      some (.wrongType "width" PropertyRule.ofSize.requirement
        (some .bool)) := by decide +kernel
  rw [inSheet_usageSheet n hne, hnamed]
  change Typing.findingOn ⟨7, Token.nowhere.pos, none⟩
    (Typing.declarationFault? "width" (some .bool)) = _
  rw [hwidth]
  rfl

/-- The report on a width that is a truth value. -/
def truthReport : Diagnostic :=
  .error .typeMismatch Token.nowhere.pos
    "property 'width' requires a size in pixels (px) or percentage (%), got Bool"

theorem outcome_usageSheet_of_spellsTruth
    {t : Token} (n : Int64) (h : SpellsTruth t.text) (hne : t.text ≠ "") :
    (⟨usageSheet t n, []⟩ : Parsed).outcome = ([truthReport], "") := by
  have hread : (⟨usageSheet t n, []⟩ : Parsed).diagnostics = [] := rfl
  have hfound : (⟨usageSheet t n, []⟩ : Parsed).arena.check.diagnostics =
      [truthReport] := by
    obtain ⟨b, hnamed⟩ := named_of_spellsTruth h
    refine (diagnostics_check (usageSheet t n)).trans ?_
    rw [inSheet_usageSheet_of_spellsTruth n h hne, usageSheet, hnamed]
    rfl
  rw [Parsed.outcome, if_neg (not_not.mpr hread), hfound,
    if_pos (List.cons_ne_nil _ _)]

theorem ofSheet_usageSheet_of_not_spellsTruth
    {t : Token} (n : Int64) (h : ¬ SpellsTruth t.text) :
    Meaning.ofSheet (usageSheet t n) =
      [⟨["p"], [⟨Token.nowhere.pos, "width", some (.pixel n)⟩]⟩] := by
  have hp : Text.lowercase "p" = "p" := by decide +kernel
  have hvalue : (Expr.reference t.pos t.text).value?
      (Env.empty.bind t.text (some (.pixel n))) = some (.pixel n) := if_pos rfl
  rw [usageSheet, named_of_not_spellsTruth h, hp, ← hvalue]
  rfl

theorem text_usage_rule {n : Int64} {v : Nat} (hn : n.toInt = v) :
    Css.text [⟨["p"], [("width", .pixel n)]⟩] =
      "p \x7b\n  width: " ++ toString v ++ "px;\n\x7d\n" := by
  have hdigits : toString n.toInt = toString v := by rw [hn]; rfl
  have htext : Css.text [⟨["p"], [("width", .pixel n)]⟩] =
      "p" ++ " \x7b\n"
        ++ ("  " ++ "width" ++ ": " ++ (toString n.toInt ++ "px") ++ ";\n")
        ++ "\x7d\n" := by
    simp [Css.text, Css.Rule.text, Literal.text, String.join]
  have hfront : "p \x7b\n  width: " = "p" ++ " \x7b\n" ++ "  " ++ "width"
      ++ ": " := by
    decide +kernel
  have hback : "px;\n\x7d\n" = "px" ++ ";\n" ++ "\x7d\n" := by decide +kernel
  rw [htext, hfront, hback, hdigits]
  simp only [String.append_assoc]

theorem outcome_usageSheet_of_not_spellsTruth
    {t : Token} {n : Int64} {v : Nat} (hn : n.toInt = v)
    (h : ¬ SpellsTruth t.text) (hne : t.text ≠ "") :
    (⟨usageSheet t n, []⟩ : Parsed).outcome =
      ([], "p \x7b\n  width: " ++ toString v ++ "px;\n\x7d\n") := by
  have hread : (⟨usageSheet t n, []⟩ : Parsed).diagnostics = [] := rfl
  have hfound : (⟨usageSheet t n, []⟩ : Parsed).arena.check.diagnostics =
      [] := by
    have hcheck := diagnostics_check (usageSheet t n)
    rw [inSheet_usageSheet_of_not_spellsTruth n h hne] at hcheck
    refine hcheck.trans (List.filterMap_eq_nil_iff.mpr fun u _ => ?_)
    cases u <;> rfl
  rw [Parsed.outcome, if_neg (not_not.mpr hread), if_neg (not_not.mpr hfound),
    ofSheet_usageSheet_of_not_spellsTruth n h,
    if_pos (by simp [Meaning.Complete])]
  exact Prod.ext rfl (text_usage_rule hn)

/-- What the compilation reports and gives is that of the sheet, but for the
places. -/
theorem compile_usageText
    {name : String} {v : Nat} {sheet : Sheet} {css : String}
    {found : Diagnostics}
    (hparse : (parse (bytesOf (usageText name v))).moved unplaced = ⟨sheet, []⟩)
    (houtcome : (⟨sheet, []⟩ : Parsed).outcome = (found, css)) :
    (compile (bytesOf (usageText name v))).diagnostics.map Diagnostic.report =
        found.map Diagnostic.report ∧
      (compile (bytesOf (usageText name v))).css = css := by
  have hmoved :=
    Parsed.outcome_moved unplaced (parse (bytesOf (usageText name v)))
  rw [hparse, houtcome, ← compile_eq_outcome, Prod.mk.injEq] at hmoved
  obtain ⟨hdiagnostics, hcss⟩ := hmoved
  refine ⟨?_, hcss.symm⟩
  rw [hdiagnostics, List.map_map]
  rfl

/-- A name that is assigned a size can be used as a width, unless it spells a
truth value.  Every name can be assigned to; one that spells a truth value stays
that value when it is used. -/
theorem assigned_name_usable_unless_truth
    (name : String) (h : Canonical.IsNameText name) (v : Nat)
    (hv : v < 2 ^ 63) :
    (parse (bytesOf (usageText name v))).diagnostics = [] ∧
      (¬ SpellsTruth name →
        (compile (bytesOf (usageText name v))).diagnostics = [] ∧
          (compile (bytesOf (usageText name v))).css =
            "p \x7b\n  width: " ++ toString v ++ "px;\n\x7d\n") ∧
      (SpellsTruth name →
        (compile (bytesOf (usageText name v))).diagnostics.map
          Diagnostic.report =
            [(.error, .typeMismatch,
              "property 'width' requires a size in pixels (px) or percentage (%), got Bool")] ∧
          (compile (bytesOf (usageText name v))).css = "") := by
  have hn : (Int64.ofNat v).toInt = v := Int64.toInt_ofNat_of_lt hv
  obtain ⟨t, rfl, hparse⟩ := parse_usageText h hn
  refine ⟨?_, fun htruth => ?_, fun htruth => ?_⟩
  · have hfaults := congrArg Parsed.diagnostics hparse
    rw [Parsed.diagnostics_moved] at hfaults
    exact List.map_eq_nil_iff.mp hfaults
  · obtain ⟨hreports, hcss⟩ := compile_usageText hparse
      (outcome_usageSheet_of_not_spellsTruth hn htruth h.ne_empty)
    exact ⟨List.map_eq_nil_iff.mp hreports, hcss⟩
  · exact compile_usageText hparse
      (outcome_usageSheet_of_spellsTruth _ htruth h.ne_empty)

/-- A name close to a truth value, with the largest number, and a name that
spells one. -/
theorem assigned_name_usable_unless_truth_at_bounds :
    Canonical.IsNameText "Truth_1" ∧ 9223372036854775807 < 2 ^ 63 ∧
      ¬ SpellsTruth "Truth_1" ∧
      (compile (bytesOf
        (usageText "Truth_1" 9223372036854775807))).diagnostics = [] ∧
      (compile (bytesOf (usageText "Truth_1" 9223372036854775807))).css =
        "p \x7b\n  width: " ++ toString 9223372036854775807 ++ "px;\n\x7d\n" ∧
      Canonical.IsNameText "fAlse" ∧ SpellsTruth "fAlse" ∧
      (compile (bytesOf (usageText "fAlse" 0))).css = "" := by
  have hname : Canonical.IsNameText "Truth_1" := by decide +kernel
  have htruth : ¬ SpellsTruth "Truth_1" := by decide +kernel
  have hname' : Canonical.IsNameText "fAlse" := by decide +kernel
  have htruth' : SpellsTruth "fAlse" := by decide +kernel
  obtain ⟨-, husable, -⟩ :=
    assigned_name_usable_unless_truth "Truth_1" hname 9223372036854775807
      (by decide)
  obtain ⟨-, -, hunusable⟩ :=
    assigned_name_usable_unless_truth "fAlse" hname' 0 (by decide)
  exact ⟨hname, by decide, htruth, (husable htruth).1, (husable htruth).2,
    hname', htruth', (hunusable htruth').2⟩

/-- The name `true` is assigned a size, but it is no size when it is used. -/
theorem assigned_true_not_usable :
    LexesAs .ident "true" ∧
      (parse (bytesOf (usageText "true" 5))).diagnostics = [] ∧
      (compile (bytesOf (usageText "true" 5))).diagnostics =
        [.error .typeMismatch ⟨1, 18⟩
          "property 'width' requires a size in pixels (px) or percentage (%), got Bool"] ∧
      (compile (bytesOf (usageText "true" 5))).css = "" := by
  decide +kernel

end Stylesheet
