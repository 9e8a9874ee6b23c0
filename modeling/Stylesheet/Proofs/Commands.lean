import Stylesheet.Command
import Stylesheet.Proofs.Directories

/-!
# What commands do to files

A command on a file writes at most one file, and that is the last thing in it
that can fail.  So a command that fails leaves all files as they were, though a
build may have made folders by then.
-/

namespace Stylesheet.Command

open Stylesheet.Directory

/-! ## Scripts -/

/-- A failure keeps the files of the directory, and a success leaves a directory
that is good. -/
structure Outcome.Spares (o : Outcome) (d : Directory)
    (good : Directory → Prop) : Prop where
  of_failure : o.status ≠ 0 → d.KeepsFiles o.directory
  of_success : o.status = 0 → good o.directory

section Scripts

variable {d made : Directory} {good : Directory → Prop}

theorem Outcome.Spares.mono
    {o : Outcome} {better : Directory → Prop} (h : o.Spares d good)
    (hgood : ∀ after, good after → better after) : o.Spares d better :=
  ⟨h.of_failure, fun hzero => hgood _ (h.of_success hzero)⟩

theorem spares_complain
    (h : d.KeepsFiles made) (message : String) {status : Nat}
    (hstatus : status ≠ 0) :
    ((Script.complain message (.done status)).run made).Spares d good :=
  ⟨fun _ => h, fun hzero => absurd hzero hstatus⟩

theorem spares_failWith (h : d.KeepsFiles made) (message : String) :
    ((failWith message).run made).Spares d good :=
  spares_complain h _ Nat.one_ne_zero

theorem spares_print (h : good made) (text : String) :
    ((Script.print text (.done 0)).run made).Spares d good :=
  ⟨fun hne => absurd rfl hne, fun _ => h⟩

theorem spares_print_self (d : Directory) (text : String) :
    ((Script.print text (.done 0)).run d).Spares d (· = d) :=
  @spares_print d d (· = d) rfl text

theorem spares_withSource
    {path : String} {next : List Char → Script}
    (h : ∀ source, d.read path = .ok source →
      ((next source).run d).Spares d good) :
    ((withSource path next).run d).Spares d good := by
  rw [withSource, Script.run]
  cases hread : d.read path with
  | error e => exact spares_failWith (.refl d) _
  | ok source => exact h source hread

/-- The CSS is written behind the making of folders, and nothing can fail behind
that. -/
theorem spares_writeCss
    {path css : String}
    (h : ∀ between after, d.KeepsFiles between →
      between.write path (bytesOf css) = .ok after → good after) :
    ((writeCss path css).run d).Spares d good := by
  rw [writeCss, Script.run]
  cases hmake : d.makeFolders (Path.folder path) with
  | error e => exact spares_failWith (.refl d) _
  | ok between =>
      have hkeeps := keepsFiles_makeFolders hmake
      dsimp only
      rw [Script.run]
      cases hwrite : between.write path (bytesOf css) with
      | error e => exact spares_failWith hkeeps _
      | ok after => exact spares_print (h between after hkeeps hwrite) _

end Scripts

/-! ## The commands on a file -/

/-- What a build of the source at `path` leaves: the CSS is printed, or it is
written to `out` behind the making of folders. -/
def Builds (d : Directory) (path out : String) (after : Directory) : Prop :=
  ∃ source, d.read path = .ok source ∧
    (compile source).diagnostics.hasErrors = false ∧
    if out = "-" then after = d
    else ∃ between, d.KeepsFiles between ∧
      between.write out (bytesOf (compile source).css) = .ok after

/-- What laying out the source at `path` in place leaves. -/
def LaysOut (d : Directory) (path : String) (after : Directory) : Prop :=
  ∃ source text, d.read path = .ok source ∧
    Stylesheet.format source = .ok text ∧
    d.write path (bytesOf text) = .ok after

theorem spares_buildScript (path out : String) (d : Directory) :
    ((buildScript path out).run d).Spares d (Builds d path out) := by
  rw [buildScript, Script.run]
  cases hread : d.read path with
  | error e => exact spares_failWith (.refl d) _
  | ok source =>
      dsimp only
      split_ifs with herrors hout
      · exact spares_failWith (.refl d) _
      · apply spares_print
        exact ⟨source, hread, by simpa using herrors, by rw [if_pos hout]⟩
      · apply spares_writeCss
        intro between after hkeeps hwrite
        refine ⟨source, hread, by simpa using herrors, ?_⟩
        rw [if_neg hout]
        exact ⟨between, hkeeps, hwrite⟩

theorem spares_checkScript (path : String) (d : Directory) :
    ((checkScript path).run d).Spares d (· = d) := by
  apply spares_withSource
  intro source _
  dsimp only
  split
  · exact spares_failWith (.refl d) _
  · exact spares_print_self d _

theorem spares_lintScript (path : String) (d : Directory) :
    ((lintScript path).run d).Spares d (· = d) := by
  apply spares_withSource
  intro source _
  dsimp only
  split_ifs
  · exact spares_failWith (.refl d) _
  · exact spares_print_self d _
  · exact spares_print_self d _

theorem spares_astScript (path : String) (eval : Bool) (d : Directory) :
    ((astScript path eval).run d).Spares d (· = d) := by
  apply spares_withSource
  intro source _
  dsimp only
  split
  · exact spares_failWith (.refl d) _
  · exact spares_print_self d _

theorem spares_fmtScript (path : String) (write : Bool) (d : Directory) :
    ((fmtScript path write).run d).Spares d
      (fun after => if write then LaysOut d path after else after = d) := by
  apply spares_withSource
  intro source hread
  cases hformat : Stylesheet.format source with
  | error found => exact spares_failWith (.refl d) _
  | ok text =>
      dsimp only
      cases write with
      | false => exact spares_print_self d _
      | true =>
          rw [if_pos rfl, Script.run]
          cases hwrite : d.write path (bytesOf text) with
          | error e => exact spares_failWith (.refl d) _
          | ok after =>
              exact ⟨fun hne => absurd rfl hne, fun _ =>
                ⟨source, text, hread, hformat, hwrite⟩⟩

/-! ## Command lines -/

/-- Where the CSS of the source at `path` goes. -/
def outputOf (settings : Settings) (path : String) : String :=
  if settings.text "o" = "" then Path.cssPath path else settings.text "o"

/-- What a command on the file at `path` may leave when it ends well. -/
def Effect (command : Command) (settings : Settings) (path : String)
    (d after : Directory) : Prop :=
  match command with
  | build =>
      ∃ source, d.read path = .ok source ∧
        (compile source).diagnostics.hasErrors = false ∧
        if outputOf settings path = "-" then after = d
        else ∃ place, after.Leads (outputOf settings path) place ∧
          d.Rewrites after place (bytesOf (compile source).css)
  | fmt =>
      if settings.isOn "w" then
        ∃ place source text, d.Leads path place ∧ d.file? place = some source ∧
          Stylesheet.format source = .ok text ∧
          d.Rewrites after place (bytesOf text)
      else after = d
  | check | lint | ast => after = d

section Effects

variable {d after : Directory} {settings : Settings} {path : String}

theorem Builds.effect (h : Builds d path (outputOf settings path) after) :
    build.Effect settings path d after := by
  obtain ⟨source, hread, herrors, hwritten⟩ := h
  refine ⟨source, hread, herrors, ?_⟩
  by_cases hout : outputOf settings path = "-"
  · rw [if_pos hout] at hwritten ⊢
    exact hwritten
  · rw [if_neg hout] at hwritten ⊢
    obtain ⟨between, hkeeps, hwrite⟩ := hwritten
    obtain ⟨front, name, folder, hwritable, rfl⟩ := write_eq_ok hwrite
    exact ⟨folder.child name, hwritable.leads_put _, rewrites_put hkeeps _ _⟩

theorem LaysOut.exists_rewrites (h : LaysOut d path after) :
    ∃ place source text, d.Leads path place ∧ d.file? place = some source ∧
      Stylesheet.format source = .ok text ∧
      d.Rewrites after place (bytesOf text) := by
  obtain ⟨source, text, hread, hformat, hwrite⟩ := h
  obtain ⟨-, place, hleads, hfile⟩ := read_eq_ok_iff.mp hread
  obtain ⟨front, name, folder, hwritable, rfl⟩ := write_eq_ok hwrite
  refine ⟨place, source, text, hleads, hfile, hformat, ?_⟩
  rw [hwritable.place_eq hleads]
  exact rewrites_put (.refl d) _ _

end Effects

theorem spares_onFile (command : Command) (settings : Settings) (path : String)
    (d : Directory) :
    ((command.onFile settings path).run d).Spares d
      (command.Effect settings path d) := by
  cases command with
  | build => exact (spares_buildScript path _ d).mono fun _ h => h.effect
  | check => exact spares_checkScript path d
  | lint => exact spares_lintScript path d
  | fmt =>
      apply (spares_fmtScript path _ d).mono
      intro after h
      rw [Effect]
      split_ifs at h ⊢
      · exact h.exists_rewrites
      · exact h
  | ast => exact spares_astScript path _ d

theorem spares_script (command : Command) (words : List String)
    (d : Directory) :
    ((command.script words).run d).Spares d fun after =>
      ∃ settings path more, readFlags command.flags [] words = .ok settings ∧
        settings.operands = path :: more ∧
        command.Effect settings path d after := by
  rw [script]
  cases hflags : readFlags command.flags [] words with
  | error fault => exact spares_complain (.refl d) _ (Nat.succ_ne_zero 1)
  | ok settings =>
      dsimp only
      cases hoperands : settings.operands with
      | nil => exact spares_failWith (.refl d) _
      | cons path more =>
          apply (spares_onFile command settings path d).mono
          exact fun after h => ⟨settings, path, more, rfl, hoperands, h⟩

/-- What a command line may leave when it ends well. -/
def Permits (words : List String) (d after : Directory) : Prop :=
  match words.head?.bind named? with
  | some command =>
      ∃ settings path more,
        readFlags command.flags [] words.tail = .ok settings ∧
        settings.operands = path :: more ∧ command.Effect settings path d after
  | none => after = d

theorem spares_scriptOf (words : List String) (d : Directory) :
    ((scriptOf words).run d).Spares d (Permits words d) := by
  cases words with
  | nil => exact spares_complain (.refl d) _ Nat.one_ne_zero
  | cons word rest =>
      rw [scriptOf]
      unfold Permits
      rw [List.head?_cons, Option.bind_some, List.tail_cons]
      cases named? word with
      | some command => exact spares_script command rest d
      | none =>
          dsimp only
          split
          · exact spares_print_self d _
          · exact spares_complain (.refl d) _ Nat.one_ne_zero

/-- A command line that fails keeps all files.  One that ends well changes at
most the file that it is to write: checking, remarking and dumping change
nothing, laying out in place gives the source its own text in canonical layout,
and building gives the output the CSS of the source. -/
theorem run_touches_only_output
    {words : List String} (h : words.head? ≠ some "repl") (input : List Char)
    (d : Directory) :
    ((run words input d).status ≠ 0 →
      d.KeepsFiles (run words input d).directory) ∧
      ((run words input d).status = 0 →
        Permits words d (run words input d).directory) := by
  have hrun : run words input d = (scriptOf words).run d := by
    unfold run
    split
    · exact absurd rfl h
    · rfl
  rw [hrun]
  exact ⟨(spares_scriptOf words d).of_failure,
    (spares_scriptOf words d).of_success⟩

/-- A build that makes the folder it writes to. -/
theorem run_touches_only_output_new_folder :
    let words := ["build", "-o", "out/p.css", "p.icss"]
    let d :=
      Directory.bare.put ⟨.here, ["p.icss"]⟩ (bytesOf "p \x7b width: 1px; \x7d")
    words.head? ≠ some "repl" ∧ (run words [] d).status = 0 ∧
      Permits words d (run words [] d).directory := by
  intro words d
  have hword : words.head? ≠ some "repl" := by decide
  have hstatus : (run words [] d).status = 0 := by decide +kernel
  exact ⟨hword, hstatus, (run_touches_only_output hword [] d).2 hstatus⟩

end Stylesheet.Command
