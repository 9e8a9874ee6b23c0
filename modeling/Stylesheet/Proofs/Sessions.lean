import Stylesheet.Command.Repl
import Stylesheet.Proofs.Outcome
import Stylesheet.Proofs.Soundness
import Stylesheet.Proofs.Spelling

/-!
# Sessions

A session compiles its whole source anew for every entry and cuts off the CSS
that was there before.  What is added behind the end of a line leaves the tokens
before it as they are, and so the statements, what they stand for and the CSS of
that.  So a session is at any time what its accepted entries compile to when
they are taken together.
-/

namespace Stylesheet

open Scan Grammar Reading

/-! ## A source that grows -/

/-- The sources to which something can be added without a change to their
tokens. -/
def EndsLine (source : List Char) : Prop :=
  source = [] ∨ ∃ cs, source = cs ++ ['\n']

theorem scan_append {source : List Char} (h : EndsLine source)
    (added : List Char) :
    ∃ body last more, scan source = body ++ [last] ∧
      scan (source ++ added) = body ++ more := by
  rcases h with rfl | ⟨cs, rfl⟩
  · have hscan : scan [] = [⟨.eof, "", .start⟩] := by decide +kernel
    exact ⟨[], _, scan added, hscan, rfl⟩
  · exact Cursor.tokens_append_of_endsBlank ⟨cs, '\n', rfl, rfl⟩ added .start

/-- What was read from a source is read again from a longer one, unless a
conditional goes on there. -/
theorem parse_append
    {source : List Char} (h : EndsLine source)
    (hparse : (parse source).diagnostics = [])
    (hclosed : ∀ s ∈ (parse source).sheet, s.isOpen = false)
    (added : List Char) :
    ∃ more, (parse (source ++ added)).sheet = (parse source).sheet ++ more := by
  obtain ⟨body, last, more, hscan, hscan'⟩ := scan_append h added
  have hsheet := wholeSheet_of_parse hparse hscan
  have hkept : (current more).kind = .elseWord →
      ∀ s ∈ (parse source).sheet.getLast?, s.isOpen = false :=
    fun _ s hs => hclosed s (List.mem_of_getLast? hs)
  have hread := (hsheet.read_append hkept).2
  rw [← hscan'] at hread
  exact ⟨_, congrArg Reading.value hread⟩

theorem isOpen_eq_false_of_atTop
    {sheet : Sheet} {env : Scope Ty} {n : Nat}
    (h : Typing.atTop env (statementTrees n sheet) = []) :
    ∀ s ∈ sheet, s.isOpen = false := by
  induction sheet generalizing env n with
  | nil => exact List.forall_mem_nil _
  | cons s sheet ih =>
      rw [statementTrees, Typing.atTop_cons, List.append_eq_nil_iff] at h
      refine List.forall_mem_cons.mpr ⟨?_, ih h.2⟩
      cases s with
      | ifThen => cases h.1
      | _ => rfl

theorem atTop_eq_nil_of_check {source : List Char} (h : check source = []) :
    Typing.atTop .empty (statementTrees 1 (parse source).sheet) = [] := by
  have hclean :=
    (stores_parse source).check.diagnosticOf_eq_none (check_eq_nil_iff.mp h).2
  refine List.eq_nil_iff_forall_not_mem.mpr fun f hf => ?_
  have hmarked :=
    (marks_check (parse source).sheet f.id (mem_idRange_of_mem_atTop hf)).mpr
    ⟨f, hf, rfl⟩
  change ((parse source).arena.check.diagnosticOf f.id).isSome = true at hmarked
  rw [hclean] at hmarked
  cases hmarked

/-- Checking finds fault with every conditional at top level. -/
theorem isOpen_eq_false_of_check
    {source : List Char} (h : check source = []) :
    ∀ s ∈ (parse source).sheet, s.isOpen = false :=
  isOpen_eq_false_of_atTop (atTop_eq_nil_of_check h)

/-- The rules of what is added come behind the rules that are there. -/
theorem Meaning.ofStatements_append (sheet : Sheet) (env : Env) :
    ∃ env', ∀ more, ofStatements env (sheet ++ more) =
      ofStatements env sheet ++ ofStatements env' more := by
  induction sheet generalizing env with
  | nil => exact ⟨env, fun more => rfl⟩
  | cons statement sheet ih =>
      cases statement with
      | assignment pos name expr => exact ih _
      | rule pos selectors body =>
          obtain ⟨env', hrules⟩ := ih env
          exact ⟨env', fun more => congrArg (_ :: ·) (hrules more)⟩
      | ifThen pos guard body => exact ih env
      | ifElse pos guard body elsePos otherwise => exact ih env

/-! ## CSS that grows -/

namespace Css

/-- What stands between two parts of a style sheet: a newline, if neither is
empty. -/
def separator (front back : String) : String :=
  if front = "" ∨ back = "" then "" else "\n"

theorem Rule.text_ne_empty (rule : Rule) : rule.text ≠ "" := by
  intro h
  rw [text, String.append_eq_empty_iff] at h
  exact absurd h.2 (by decide)

theorem text_cons (rule : Rule) (rules : List Rule) :
    ∃ rest, text (rule :: rules) = rule.text ++ rest := by
  cases rules with
  | nil =>
      refine ⟨"", ?_⟩
      rw [text, List.map_singleton, String.intercalate_singleton,
        String.append_empty]
  | cons next rules =>
      refine ⟨"\n" ++ text (next :: rules), ?_⟩
      rw [text, List.map_cons, List.map_cons, String.intercalate_cons_cons,
        String.append_assoc]
      rfl

theorem text_eq_empty_iff {rules : List Rule} :
    text rules = "" ↔ rules = [] := by
  constructor
  · intro h
    cases rules with
    | nil => rfl
    | cons rule rules =>
        obtain ⟨rest, htext⟩ := text_cons rule rules
        rw [htext, String.append_eq_empty_iff] at h
        exact absurd h.1 rule.text_ne_empty
  · rintro rfl
    rfl

theorem text_append (rules more : List Rule) :
    text (rules ++ more) = text rules ++ separator (text rules) (text more)
      ++ text more := by
  simp only [separator, text_eq_empty_iff]
  split
  · next h => rcases h with rfl | rfl <;> simp [text]
  · next h =>
      obtain ⟨hrules, hmore⟩ := not_or.mp h
      rw [text, List.map_append, String.intercalate_append_of_ne_nil]
      · rfl
      · simpa using hrules
      · simpa using hmore

/-- The text does not begin with a newline. -/
def Flush (text : String) : Prop :=
  text.toList.head? ≠ some '\n'

instance (text : String) : Decidable (Flush text) :=
  inferInstanceAs (Decidable (text.toList.head? ≠ some '\n'))

theorem Flush.append {front back : String} (hfront : Flush front)
    (hback : Flush back) :
    Flush (front ++ back) := by
  rw [Flush, String.toList_append, List.head?_append, Ne, Option.or_eq_some_iff]
  rintro (h | ⟨-, h⟩)
  · exact hfront h
  · exact hback h

theorem Flush.append_of_ne_empty {front : String} (hfront : Flush front)
    (hne : front ≠ "") (back : String) : Flush (front ++ back) := by
  rw [Flush, String.toList_append, List.head?_append, Ne, Option.or_eq_some_iff]
  rintro (h | ⟨h, -⟩)
  · exact hfront h
  · exact hne (String.toList_eq_nil_iff.mp (List.head?_eq_none_iff.mp h))

theorem flush_intercalate
    {selectors : List String} (h : ∀ s ∈ selectors, Flush s) :
    Flush (", ".intercalate selectors) := by
  induction selectors with
  | nil => exact nofun
  | cons s selectors ih =>
      rw [List.forall_mem_cons] at h
      cases selectors with
      | nil =>
          rw [String.intercalate_singleton]
          exact h.1
      | cons next selectors =>
          rw [String.intercalate_cons_cons]
          exact (h.1.append (by decide)).append (ih h.2)

theorem Rule.flush_text
    {rule : Rule} (h : ∀ s ∈ rule.selectors, Flush s) : Flush rule.text := by
  have hhead : Flush (", ".intercalate rule.selectors ++ " \x7b\n") :=
    (flush_intercalate h).append (by decide)
  rw [text, String.append_assoc]
  refine hhead.append_of_ne_empty (fun hempty => ?_) _
  exact absurd (String.append_eq_empty_iff.mp hempty).2 (by decide)

theorem flush_text
    {rules : List Rule} (h : ∀ rule ∈ rules, ∀ s ∈ rule.selectors, Flush s) :
    Flush (text rules) := by
  cases rules with
  | nil => exact nofun
  | cons rule rules =>
      obtain ⟨rest, htext⟩ := text_cons rule rules
      rw [htext]
      have hfirst := Rule.flush_text (h rule List.mem_cons_self)
      exact hfirst.append_of_ne_empty rule.text_ne_empty rest

end Css

theorem Text.cutFront_append (front back : String) :
    cutFront front (front ++ back) = back := by
  have hprefix : front.toList.isPrefixOf (front ++ back).toList = true := by
    rw [String.toList_append, List.isPrefixOf_iff_prefix]
    exact List.prefix_append _ _
  rw [cutFront, if_pos hprefix, String.toList_append, List.drop_left,
    String.ofList_toList]

theorem Text.cutFront_newline
    {text : String} (h : Css.Flush text) : cutFront "\n" text = text := by
  refine if_neg fun hprefix => h ?_
  obtain ⟨rest, hrest⟩ := List.isPrefixOf_iff_prefix.mp hprefix
  rw [← hrest]
  rfl

/-- What is added to CSS, with a newline in front of it if there is something
before it, is what is left of the whole if all that is cut off. -/
theorem Text.cutFront_separated {css added : String} (h : Css.Flush added) :
    cutFront "\n" (cutFront css (css ++ Css.separator css added ++ added)) =
      added := by
  rw [String.append_assoc, cutFront_append, Css.separator]
  split
  · rw [String.empty_append, cutFront_newline h]
  · rw [cutFront_append]

/-! ## Selectors do not begin with a newline -/

theorem Text.lowerChar_eq_newline {c : Char} (h : c.toNat < 128) :
    lowerChar c = '\n' → c = '\n' :=
  forall_ascii (P := fun c => lowerChar c = '\n' → c = '\n')
    (by decide +kernel) h

theorem Grammar.IsSelector.flush_lowercase
    {t : Token} (h : IsSelector t) (hlexeme : Lexeme t.kind t.text.toList) :
    Css.Flush (Text.lowercase t.text) := by
  have hascii :=
    hlexeme.toNat_lt (by rcases h with h | h | h <;> rw [h] <;> decide)
  rw [Css.Flush, Text.lowercase, String.toList_ofList, List.head?_map]
  generalize t.text.toList = text at *
  cases text with
  | nil => nofun
  | cons c tail =>
      intro hhead
      have hc :=
        Text.lowerChar_eq_newline (hascii c List.mem_cons_self)
          (Option.some.inj hhead)
      have hblank := hlexeme.begins.1
      rw [hc] at hblank
      cases hblank

theorem flush_of_parse
    {source : List Char} (h : (parse source).diagnostics = []) {s : Selector}
    (hs : s ∈ (parse source).sheet.flatMap Statement.selectors) :
    Css.Flush s.text := by
  obtain ⟨ts, hlexed, hsheet⟩ := exists_lexed_of_parse h
  obtain ⟨t, ht, hselector, htext⟩ := hsheet.exists_token hs
  rw [htext]
  exact hselector.flush_lowercase (hlexed t ht)

theorem Meaning.flush_selectors
    {sheet : Sheet}
    (h : ∀ s ∈ sheet.flatMap Statement.selectors, Css.Flush s.text)
    (env : Env) :
    ∀ rule ∈ ofStatements env sheet, ∀ text ∈ rule.selectors,
      Css.Flush text := by
  induction sheet generalizing env with
  | nil => exact List.forall_mem_nil _
  | cons statement sheet ih =>
      obtain ⟨hfirst, hrest⟩ := List.forall_mem_append.mp h
      cases statement with
      | rule pos selectors body =>
          refine List.forall_mem_cons.mpr ⟨?_, ih hrest env⟩
          exact List.forall_mem_map.mpr hfirst
      | assignment pos name expr => exact ih hrest _
      | ifThen pos guard body => exact ih hrest env
      | ifElse pos guard body elsePos otherwise => exact ih hrest env

/-! ## Compiling what has grown -/

theorem compile_of_diagnostics_eq_nil
    {source : List Char} (h : (compile source).diagnostics = []) :
    check source = [] ∧
      Meaning.Complete (Meaning.ofSheet (parse source).sheet) ∧
      (compile source).css =
        Css.text ((Meaning.ofSheet (parse source).sheet).map
          Meaning.Rule.css) := by
  rcases compile_cases source with ⟨hread, heq⟩ | ⟨hread, hfound, heq⟩ |
    ⟨hcheck, hcomplete, heq⟩ | ⟨hcheck, hcomplete, heq⟩
  · rw [heq] at h
    exact absurd h hread
  · rw [heq] at h
    exact absurd h hfound
  · rw [heq] at h
    exact absurd ((Meaning.errors_eq_nil_iff _).mp h) hcomplete
  · exact ⟨hcheck, hcomplete, by rw [heq]⟩

/-- CSS that is added comes behind the CSS that is there, and does not begin
with a newline. -/
theorem compile_append
    {source added : List Char} (hline : EndsLine source)
    (hold : (compile source).diagnostics = [])
    (hnew : (compile (source ++ added)).diagnostics = []) :
    ∃ css, Css.Flush css ∧ (compile (source ++ added)).css =
      (compile source).css ++ Css.separator (compile source).css css
        ++ css := by
  obtain ⟨hcheck, -, hcss⟩ := compile_of_diagnostics_eq_nil hold
  obtain ⟨hcheck', -, hcss'⟩ := compile_of_diagnostics_eq_nil hnew
  obtain ⟨more, hmore⟩ := parse_append hline (check_eq_nil_iff.mp hcheck).1
    (isOpen_eq_false_of_check hcheck) added
  obtain ⟨env, hrules⟩ :=
    Meaning.ofStatements_append (parse source).sheet .empty
  refine ⟨Css.text ((Meaning.ofStatements env more).map Meaning.Rule.css),
    ?_, ?_⟩
  · have hflush : ∀ s ∈ more.flatMap Statement.selectors, Css.Flush s.text := by
      intro s hs
      refine flush_of_parse (check_eq_nil_iff.mp hcheck').1 ?_
      rw [hmore, List.flatMap_append]
      exact List.mem_append_right _ hs
    exact Css.flush_text
      (List.forall_mem_map.mpr (Meaning.flush_selectors hflush env))
  · rw [hcss', hcss, Meaning.ofSheet, Meaning.ofSheet, hmore, hrules,
      List.map_append, Css.text_append]

/-! ## Entries -/

theorem hasErrors_compile (source : List Char) :
    (compile source).diagnostics.hasErrors = false ↔
      (compile source).diagnostics = [] := by
  rcases compile_cases source with
    ⟨-, heq⟩ | ⟨-, -, heq⟩ | ⟨-, hcomplete, heq⟩ | ⟨-, -, heq⟩
  · rw [heq]
    exact (reports_parse source).hasErrors_eq_false_iff
  · rw [heq]
    exact (reports_check source).hasErrors_eq_false_iff
  · rw [heq, ← Bool.not_eq_true, Meaning.hasErrors_errors, not_not,
      Meaning.errors_eq_nil_iff]
  · rw [heq]
    exact iff_of_true rfl rfl

namespace Session

/-- What holds of a session between two entries: it is what the accepted entries
compile to when they are taken together. -/
structure Batch (s : Session) (accepted : List (List Char)) : Prop where
  source_eq : s.source = accepted.flatMap (· ++ ['\n'])
  lines_eq : s.lines = s.source.count '\n'
  css_eq : s.css = (compile s.source).css
  compiles : (compile s.source).diagnostics = []

theorem flatMap_line_append (entries : List (List Char)) (entry : List Char) :
    (entries ++ [entry]).flatMap (· ++ ['\n']) =
      entries.flatMap (· ++ ['\n']) ++ entry ++ ['\n'] := by
  simp

theorem batch_empty : empty.Batch [] := by
  refine ⟨rfl, rfl, ?_, ?_⟩ <;> decide +kernel

theorem Batch.endsLine {s : Session} {accepted : List (List Char)}
    (h : s.Batch accepted) :
    EndsLine s.source := by
  rw [h.source_eq]
  rcases List.eq_nil_or_concat accepted with rfl | ⟨entries, entry, rfl⟩
  · exact .inl rfl
  · refine .inr ⟨entries.flatMap (· ++ ['\n']) ++ entry, ?_⟩
    rw [List.concat_eq_append, flatMap_line_append]

/-- An entry is accepted exactly if nothing is reported on the source that ends
with it. -/
theorem extend_cases (s : Session) (entry : List Char) :
    let compiled := compile (s.source ++ entry ++ ['\n'])
    (compiled.diagnostics = [] ∧ s.extend entry =
      .ok (Text.cutFront "\n" (Text.cutFront s.css compiled.css),
        ⟨s.source ++ entry ++ ['\n'], compiled.css,
          s.lines + entry.count '\n' + 1⟩)) ∨
    (compiled.diagnostics ≠ [] ∧
      s.extend entry = .error (compiled.diagnostics.map s.relocate)) := by
  intro compiled
  have herrors := hasErrors_compile (s.source ++ entry ++ ['\n'])
  by_cases hnone : compiled.diagnostics = []
  · refine .inl ⟨hnone, ?_⟩
    rw [extend, if_neg (Bool.eq_false_iff.mp (herrors.mpr hnone))]
  · refine .inr ⟨hnone, ?_⟩
    rw [extend, if_pos (by rwa [← Bool.not_eq_false, herrors])]

/-- An accepted entry adds its text to the source and its CSS to the CSS. -/
theorem Batch.extend
    {s next : Session} {accepted : List (List Char)} {entry : List Char}
    {added : String} (h : s.Batch accepted)
    (hextend : s.extend entry = .ok (added, next)) :
    next.Batch (accepted ++ [entry]) ∧
      next.source = s.source ++ entry ++ ['\n'] ∧
      next.css = s.css ++ Css.separator s.css added ++ added := by
  rcases s.extend_cases entry with ⟨hnone, heq⟩ | ⟨-, heq⟩
  · rw [heq] at hextend
    obtain ⟨rfl, rfl⟩ := Prod.mk.inj (Except.ok.inj hextend)
    have hgrown := hnone
    rw [List.append_assoc] at hgrown
    obtain ⟨css, hflush, hcss⟩ := compile_append h.endsLine h.compiles hgrown
    rw [← List.append_assoc, ← h.css_eq] at hcss
    refine ⟨⟨?_, ?_, rfl, hnone⟩, rfl, ?_⟩
    · rw [flatMap_line_append, ← h.source_eq]
    · rw [h.lines_eq, List.count_append, List.count_append]
      rfl
    · rw [hcss, Text.cutFront_separated hflush]
  · rw [heq] at hextend
    cases hextend

end Session

namespace Command.Repl

/-- The loop after the entries, each submitted as it comes. -/
def submitAll (r : Repl) (entries : List (List Char)) : Repl :=
  entries.foldl (fun r entry => (r.submit entry).next) r

/-- The entries that the session of the loop accepts when they are submitted one
after another. -/
def accepted (r : Repl) : List (List Char) → List (List Char)
  | [] => []
  | entry :: entries =>
      if (r.session.extend entry).isOk then
        entry :: (r.submit entry).next.accepted entries
      else (r.submit entry).next.accepted entries

theorem submit_of_ok
    {r : Repl} {entry : List Char} {added : String} {next : Session}
    (h : r.session.extend entry = .ok (added, next)) :
    (r.submit entry).next.session = next ∧ (r.submit entry).stdout = added := by
  simp [submit, h]

theorem submit_of_error
    {r : Repl} {entry : List Char} {ds : Diagnostics}
    (h : r.session.extend entry = .error ds) :
    (r.submit entry).next.session = r.session := by
  simp [submit, h]

/-- Submitting one entry after another keeps the session what the accepted
entries compile to. -/
theorem batch_submitAll
    {r : Repl} {before : List (List Char)} (h : r.session.Batch before)
    (entries : List (List Char)) :
    (r.submitAll entries).session.Batch (before ++ r.accepted entries) := by
  -- The invariant is the batch itself: it knows the source, and so the tokens
  -- that stay.
  induction entries generalizing r before with
  | nil =>
      rw [accepted, List.append_nil]
      exact h
  | cons entry entries ih =>
      rw [accepted, submitAll, List.foldl_cons]
      cases hextend : r.session.extend entry with
      | ok result =>
          obtain ⟨added, next⟩ := result
          obtain ⟨hbatch, -⟩ := h.extend hextend
          rw [← (submit_of_ok hextend).1] at hbatch
          have hrest := ih hbatch
          rw [List.append_assoc] at hrest
          exact hrest
      | error ds =>
          rw [← submit_of_error hextend] at h
          exact ih h

end Command.Repl

open Command

/-- A session that takes in entries one by one is what compiling the accepted
entries together gives.  A further entry is accepted exactly if nothing is
reported on the source with it; then what it returns is what it adds to the CSS,
and otherwise the session stays as it is. -/
theorem session_eq_batch
    (history : Option (List Char)) (entries : List (List Char))
    (entry : List Char) :
    ((Repl.start history).submitAll entries).session.Batch
      ((Repl.start history).accepted entries) ∧
      let r := (Repl.start history).submitAll entries
      let next := (r.submit entry).next.session
      let grown := r.session.source ++ entry ++ ['\n']
      match r.session.extend entry with
      | .ok (added, _) =>
          (compile grown).diagnostics = [] ∧ next.source = grown ∧
            (r.submit entry).stdout = added ∧
            r.session.css.toList <+: next.css.toList ∧
            next.css = r.session.css ++ Css.separator r.session.css added
              ++ added
      | .error _ => (compile grown).diagnostics ≠ [] ∧ next = r.session := by
  have hstart : (Repl.start history).session.Batch [] := Session.batch_empty
  have hbatch := Repl.batch_submitAll hstart entries
  refine ⟨hbatch, ?_⟩
  intro r next grown
  cases hextend : r.session.extend entry with
  | ok result =>
      obtain ⟨added, s⟩ := result
      obtain ⟨hnext, hsource, hcss⟩ := hbatch.extend hextend
      obtain ⟨hsession, hstdout⟩ := Repl.submit_of_ok hextend
      have hcompiles := hnext.compiles
      rw [hsource] at hcompiles
      rw [← hsession] at hsource hcss
      refine ⟨hcompiles, hsource, hstdout, ?_, hcss⟩
      rw [hcss, String.append_assoc, String.toList_append]
      exact List.prefix_append _ _
  | error ds =>
      refine ⟨?_, Repl.submit_of_error hextend⟩
      rcases r.session.extend_cases entry with ⟨-, heq⟩ | ⟨hfound, -⟩
      · rw [heq] at hextend
        cases hextend
      · exact hfound

/-- A comment goes from the first entry to the third, and the fourth entry is
refused. -/
theorem session_eq_batch_across_comment :
    let entries :=
      ["W := 4px; p \x7b width: W; \x7d /* open".toList,
        "q \x7b height: W".toList,
        "closed */ W := 2 * W;".toList, "q \x7b height: W".toList]
    let r := (Repl.start none).submitAll entries
    let reply := r.submit "q \x7b height: W; \x7d".toList
    r.session.source = (entries.take 3).flatMap (· ++ ['\n']) ∧
      r.session.lines = 3 ∧
      r.session.css = "p \x7b\n  width: 4px;\n\x7d\n" ∧
      reply.stdout = "q \x7b\n  height: 8px;\n\x7d\n" ∧
      reply.next.session.css = r.session.css ++ "\n" ++ reply.stdout := by
  intro entries r reply
  have haccepted : (Repl.start none).accepted entries = entries.take 3 := by
    decide +kernel
  have hok : (r.session.extend "q \x7b height: W; \x7d".toList).isOk =
      true := by decide +kernel
  have hstdout : reply.stdout = "q \x7b\n  height: 8px;\n\x7d\n" := by
    decide +kernel
  obtain ⟨hbatch, hreply⟩ :=
    session_eq_batch none entries "q \x7b height: W; \x7d".toList
  have hsource := hbatch.source_eq
  rw [haccepted] at hsource
  have hcss' : r.session.css = "p \x7b\n  width: 4px;\n\x7d\n" := by
    rw [hbatch.css_eq, hsource]
    decide +kernel
  refine ⟨hsource, ?_, hcss', hstdout, ?_⟩
  · rw [hbatch.lines_eq, hsource]
    decide +kernel
  · cases hextend : r.session.extend "q \x7b height: W; \x7d".toList with
    | ok result =>
        dsimp only at hreply
        rw [hextend] at hreply
        obtain ⟨-, -, hadded, -, hgrown⟩ := hreply
        have hseparator : Css.separator r.session.css reply.stdout = "\n" := by
          rw [hcss', hstdout]
          decide +kernel
        rw [← hadded, hseparator] at hgrown
        exact hgrown
    | error ds =>
        rw [hextend] at hok
        cases hok

end Stylesheet
